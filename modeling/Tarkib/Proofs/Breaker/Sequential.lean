import Tarkib.Proofs.Breaker.Trial

/-!
# Calls one by one

When every call is over before the next one starts, a breaker needs no memory of its own: the number
of failures since the last success and the time of the last failure say all that it shows and does.

No failure comes late then. A call goes through on trial only after too many failures in a row, and
as no other call is under way none of them is forgotten until the trial is over (`Orderly`). So the
last failure, once there are too many, is the one that tripped the breaker.
-/

namespace Tarkib.Breaker

/-- The time of the last failure. The latest outcome comes first. -/
def lastFailure (outcomes : List Outcome) : Option Nat :=
  (outcomes.find? fun o => !o.success).map Outcome.time

theorem lastFailure_cons_failure {o : Outcome} (failure : o.success = false)
    (outcomes : List Outcome) : lastFailure (o :: outcomes) = some o.time := by
  simp [lastFailure, failure]

theorem lastFailure_ne_none {outcomes : List Outcome} (failed : failuresInRow outcomes ≠ 0) :
    lastFailure outcomes ≠ none := by
  cases outcomes with
  | nil => exact absurd rfl failed
  | cons o outcomes =>
    cases outcome : o.success with
    | true => exact absurd (failuresInRow_cons_success outcome) failed
    | false => simp [lastFailure_cons_failure outcome]

theorem exists_outcome_of_lastFailure {outcomes : List Outcome} {t : Nat}
    (last : lastFailure outcomes = some t) : ∃ o ∈ outcomes, o.time = t := by
  obtain ⟨o, found, time⟩ := Option.map_eq_some_iff.mp last
  exact ⟨o, List.mem_of_find?_eq_some found, time⟩

namespace Traffic

/-- Every call starts when no other one is under way. -/
def OneByOne (s : Settings) : Traffic → List Event → Prop
  | _, [] => True
  | tr, e :: events => (e = .start → tr.pending = []) ∧ OneByOne s (step s tr e) events

instance decidableOneByOne (s : Settings) :
    (tr : Traffic) → (events : List Event) → Decidable (OneByOne s tr events)
  | _, [] => inferInstanceAs (Decidable True)
  | tr, e :: events =>
    have := decidableOneByOne s (step s tr e) events
    inferInstanceAs (Decidable ((e = .start → tr.pending = []) ∧ OneByOne s (step s tr e) events))

/-- What holds as long as calls come one by one: a trial is under way only after too many failures,
and the last of too many failures is the one that tripped the breaker. -/
structure Orderly (s : Settings) (tr : Traffic) : Prop where
  alone : tr.pending.length ≤ 1
  trial : ∀ call ∈ tr.pending, call.trial = true → s.threshold ≤ failuresInRow tr.outcomes
  tripped : trippedAt s tr.outcomes =
    if failuresInRow tr.outcomes < s.threshold then none else lastFailure tr.outcomes

variable {s : Settings} {tr : Traffic} {call : Pending} {events : List Event} {time t : Nat}

theorem Orderly.others_eq_nil (orderly : Orderly s tr) {others : List Pending}
    (here : tr.pending.Perm (call :: others)) : others = [] := by
  have alone := orderly.alone
  rw [here.length_eq, List.length_cons] at alone
  exact List.eq_nil_of_length_eq_zero (by omega)

theorem Orderly.tripped_of_fail (orderly : Orderly s tr) (under : call ∈ tr.pending) :
    let outcomes := ⟨false, call.trial, tr.now⟩ :: tr.outcomes
    trippedAt s outcomes =
      if failuresInRow outcomes < s.threshold then none else lastFailure outcomes := by
  intro outcomes
  rw [trippedAt_cons_failure rfl, failuresInRow_cons_failure rfl, lastFailure_cons_failure rfl]
  by_cases many : s.threshold ≤ failuresInRow tr.outcomes + 1
  · rw [if_pos (by simp [many]), if_neg (Nat.not_lt.mpr many)]
  · have normal : call.trial = false := by
      rw [← Bool.not_eq_true]
      intro trial
      have := orderly.trial call under trial
      omega
    rw [if_neg (by simp [normal, many]), if_pos (Nat.not_le.mp many), orderly.tripped,
      if_pos (by omega)]

/-- A trial is allowed only after too many failures in a row. -/
theorem Orderly.threshold_le_of_ready (orderly : Orderly s tr) (follows : Follows s tr)
    (ready : AllowsTrial s tr) : s.threshold ≤ failuresInRow tr.outcomes := by
  by_contra few
  have closed : tr.breaker.state = .closed := by
    rw [follows.closed, follows.openedAt, orderly.tripped, if_pos (Nat.not_le.mp few)]
  simp [AllowsTrial, closed] at ready

/-- Every event keeps the traffic orderly if no call starts while another one is under way. -/
theorem Orderly.moves {tr' : Traffic} {e : Event} (positive : 0 < s.threshold)
    (follows : Follows s tr) (orderly : Orderly s tr) (moves : Moves s tr e tr')
    (apart : e = .start → tr.pending = []) : Orderly s tr' := by
  cases moves with
  | idle | wait | recover => exact ⟨orderly.alone, orderly.trial, orderly.tripped⟩
  | normal closed =>
    refine ⟨?_, ?_, orderly.tripped⟩
    · simp [apart rfl]
    · simp [apart rfl]
  | trial ready =>
    refine ⟨?_, ?_, orderly.tripped⟩
    · simp [apart rfl]
    · intro call member trial
      exact orderly.threshold_le_of_ready follows ready
  | succeed index here =>
    obtain rfl := orderly.others_eq_nil here
    refine ⟨by simp, by simp, ?_⟩
    rw [trippedAt_cons_success rfl, failuresInRow_cons_success rfl, if_pos positive]
  | fail index here =>
    obtain rfl := orderly.others_eq_nil here
    have under := here.mem_iff.mpr List.mem_cons_self
    exact ⟨by simp, by simp, orderly.tripped_of_fail under⟩
  | abandonTrial index here | abandonNormal index here =>
    obtain rfl := orderly.others_eq_nil here
    exact ⟨by simp, by simp, orderly.tripped⟩

theorem Orderly.runFrom (positive : 0 < s.threshold) (follows : Follows s tr)
    (orderly : Orderly s tr) (apart : OneByOne s tr events) : Orderly s (runFrom s tr events) := by
  induction events generalizing tr with
  | nil => exact orderly
  | cons e events ih =>
    obtain ⟨first, rest⟩ := apart
    have moves := moves_step s tr e
    exact ih (follows.moves moves) (orderly.moves positive follows moves first) rest

/-- Calls that come one by one are orderly. -/
theorem orderly_run (positive : 0 < s.threshold) (apart : OneByOne s { now := time } events) :
    Orderly s (run s time events) := by
  refine Orderly.runFrom positive (follows_run s time []) ⟨by simp, by simp, ?_⟩ apart
  simp [trippedAt, failuresInRow, positive]

/-- The failure that tripped the breaker is the last one, once there are too many. -/
theorem Orderly.trippedAt_eq_some_iff (orderly : Orderly s tr) :
    trippedAt s tr.outcomes = some t ↔
      s.threshold ≤ failuresInRow tr.outcomes ∧ lastFailure tr.outcomes = some t := by
  rw [orderly.tripped]
  by_cases few : failuresInRow tr.outcomes < s.threshold
  · simp [few, Nat.not_le.mpr few]
  · simp [few, Nat.not_lt.mp few]

theorem Orderly.trippedAt_eq_none_iff (positive : 0 < s.threshold) (orderly : Orderly s tr) :
    trippedAt s tr.outcomes = none ↔ failuresInRow tr.outcomes < s.threshold := by
  rw [orderly.tripped]
  by_cases few : failuresInRow tr.outcomes < s.threshold
  · simp [few]
  · have failed : failuresInRow tr.outcomes ≠ 0 := by omega
    simp [few, lastFailure_ne_none failed]

theorem time_le_now_of_lastFailure (last : lastFailure (run s time events).outcomes = some t) :
    t ≤ (run s time events).now := by
  obtain ⟨o, member, rfl⟩ := exists_outcome_of_lastFailure last
  obtain ⟨recent, extends_⟩ := extends_runFrom s { now := time } events
  have all : (run s time events).outcomes = recent := by
    rw [run, extends_.outcomes, List.append_nil]
  rw [all] at member
  exact (extends_.times o member).2

/-- With no call under way, a breaker refuses exactly if it shows that it is open. -/
theorem Watched.refuses_iff_opened (watched : Watched tr) (quiet : tr.pending = []) :
    tr.breaker.Refuses s tr.now ↔ tr.shown s = .opened := by
  have clear : tr.breaker.onTrial ≠ true := by
    intro set
    have flag := watched.flag
    rw [watchedTrials, quiet, set] at flag
    cases flag
  rw [refuses_iff, or_iff_left]
  rintro ⟨_, set⟩
  exact clear set

theorem Follows.refused_of_opened (follows : Follows s tr)
    (tripped : trippedAt s tr.outcomes = some t) (opened : tr.shown s = .opened) :
    (tr.breaker.request s tr.now).2 = .refused (s.recoveryMs - (tr.now - t)) ∧
      step s tr .start = tr := by
  obtain ⟨state, waiting⟩ := shown_eq_opened_iff.mp opened
  rcases request_cases s tr.breaker tr.now with ⟨closed, _⟩ | ⟨ready, _⟩ | ⟨_, asked⟩
  · simp [closed] at state
  · simp [state, waiting] at ready
  · have since : tr.breaker.openedAt = some t := by rw [follows.openedAt, tripped]
    refine ⟨?_, ?_⟩
    · rw [asked]
      simp [retryIn, since]
    · simp [step, asked]

/-- **What a breaker does when calls come one by one.** Let `f` be the number of failures since the
last success. The breaker shows that it is closed as long as `f` is below the threshold. From then
on it shows that it is open until the recovery time has passed since the last failure, and that it
is half-open afterwards. The next call is refused exactly while it shows that it is open; a refused
call changes nothing, and it is told what is left of the recovery time. -/
theorem sequential_run (s : Settings) (positive : 0 < s.threshold) (time : Nat)
    (events : List Event) (apart : OneByOne s { now := time } events) :
    let tr := run s time events
    let f := failuresInRow tr.outcomes
    (tr.shown s = .closed ↔ f < s.threshold) ∧
      (tr.shown s = .opened ↔
        s.threshold ≤ f ∧ ∃ t, lastFailure tr.outcomes = some t ∧ tr.now - t < s.recoveryMs) ∧
      (tr.shown s = .halfOpen ↔
        s.threshold ≤ f ∧ ∃ t, lastFailure tr.outcomes = some t ∧ s.recoveryMs ≤ tr.now - t) ∧
      (tr.pending = [] → (tr.breaker.Refuses s tr.now ↔ tr.shown s = .opened)) ∧
      (tr.shown s = .opened → ∃ t, lastFailure tr.outcomes = some t ∧ t ≤ tr.now ∧
        (tr.breaker.request s tr.now).2 = .refused (s.recoveryMs - (tr.now - t)) ∧
        step s tr .start = tr) := by
  intro tr f
  have orderly : Orderly s tr := orderly_run positive apart
  have follows : Follows s tr := follows_run s time events
  have shown : tr.shown s = stateAfter s tr.outcomes tr.now := follows.shown_eq
  refine ⟨?_, ?_, ?_, ?_, ?_⟩
  · rw [shown, stateAfter_eq_closed_iff, orderly.trippedAt_eq_none_iff positive]
  · rw [shown, stateAfter_eq_opened_iff]
    simp only [orderly.trippedAt_eq_some_iff, and_assoc, exists_and_left]
    rfl
  · rw [shown, stateAfter_eq_halfOpen_iff]
    simp only [orderly.trippedAt_eq_some_iff, and_assoc, exists_and_left]
    rfl
  · exact (watched_run s time events).refuses_iff_opened
  · intro opened
    obtain ⟨t, tripped, _⟩ := stateAfter_eq_opened_iff.mp (shown ▸ opened)
    have last := (orderly.trippedAt_eq_some_iff.mp tripped).2
    exact ⟨t, last, time_le_now_of_lastFailure last, follows.refused_of_opened tripped opened⟩

/-- Two failures open the breaker, a trial fails ten milliseconds later, and four milliseconds after
that a call is refused for the six that are left. -/
theorem sequential_run_failed_trial :
    let s : Settings := ⟨2, 10⟩
    let events : List Event :=
      [.start, .finish 0 false, .wait 3, .start, .finish 0 false, .wait 10, .start,
        .finish 0 false, .wait 4]
    let tr := run s 0 events
    OneByOne s { now := 0 } events ∧ tr.shown s = .opened ∧
      (tr.breaker.request s tr.now).2 = .refused 6 := by
  intro s events tr
  have apart : OneByOne s { now := 0 } events := by decide
  have spec := sequential_run s (by decide) 0 events apart
  have last : lastFailure tr.outcomes = some 13 := by decide
  have opened : tr.shown s = .opened := spec.2.1.mpr ⟨by decide, 13, last, by decide⟩
  obtain ⟨t, time, _, refused, _⟩ := spec.2.2.2.2 opened
  obtain rfl : t = 13 := Option.some.inj (time.symm.trans last)
  have left : s.recoveryMs - (tr.now - 13) = 6 := by decide
  rw [left] at refused
  exact ⟨apart, opened, refused⟩

end Traffic

end Tarkib.Breaker
