import Mathlib.Data.List.Induction
import Tarkib.Proofs.Breaker.Traffic

/-!
# Trials under way

A half-open breaker means to let one call through on trial and to refuse the others until it has
heard of it. It remembers the trial by a flag, and it clears the flag whenever it hears of any call
that was completed. So what the flag stands for is a trial that was not overtaken (`Watched`). A
trial that was overtaken is forgotten, though it is still under way.
-/

namespace Tarkib.Breaker

@[simp]
theorem onTrial_fail (s : Settings) (b : Breaker) (trial : Bool) (now : Nat) :
    (b.fail s trial now).onTrial = false := by
  unfold fail
  dsimp only
  split <;> rfl

namespace Traffic

/-! ## Counting trials -/

/-- The number of trials under way. -/
def trials (tr : Traffic) : Nat :=
  tr.pending.countP fun call => call.trial

/-- The number of trials under way that were not overtaken. -/
def watchedTrials (tr : Traffic) : Nat :=
  tr.pending.countP fun call => call.trial && !call.overtaken

theorem countP_trial_overtake (calls : List Pending) :
    (calls.map Pending.overtake).countP (fun call => call.trial) =
      calls.countP fun call => call.trial := by
  rw [List.countP_map]
  rfl

theorem countP_watched_overtake (calls : List Pending) :
    (calls.map Pending.overtake).countP (fun call => call.trial && !call.overtaken) = 0 := by
  simp [Pending.overtake]

theorem countP_others_le {calls others : List Pending} {call : Pending}
    (here : calls.Perm (call :: others)) :
    others.countP (fun call => call.trial) ≤ calls.countP fun call => call.trial := by
  rw [here.countP_eq, List.countP_cons]
  exact Nat.le_add_right _ _

/-! ## The flag of the breaker -/

/-- The flag stands for the only trial under way that was not overtaken, and as long as there is one
the breaker is half-open. -/
structure Watched (tr : Traffic) : Prop where
  flag : tr.watchedTrials = if tr.breaker.onTrial then 1 else 0
  halfOpen : tr.breaker.onTrial = true → tr.breaker.state = .halfOpen

variable {tr tr' : Traffic} {s : Settings} {e : Event}

theorem Watched.clear_of_ne (watched : Watched tr) (other : tr.breaker.state ≠ .halfOpen) :
    tr.breaker.onTrial = false := by
  rw [← Bool.not_eq_true]
  intro set
  exact other (watched.halfOpen set)

theorem Watched.clear_of_ready (watched : Watched tr) (ready : AllowsTrial s tr) :
    tr.breaker.onTrial = false := by
  rcases ready with ⟨_, clear⟩ | ⟨opened, _⟩
  · exact clear
  · exact watched.clear_of_ne (by simp [opened])

/-- Every event keeps the flag at the number of trials that were not overtaken. -/
theorem Watched.moves (watched : Watched tr) (moves : Moves s tr e tr') : Watched tr' := by
  have flag := watched.flag
  unfold watchedTrials at flag
  cases moves with
  | idle | wait => exact ⟨flag, watched.halfOpen⟩
  | recover opened recovered =>
    have clear := watched.clear_of_ne (by simp [opened])
    refine ⟨?_, by simp⟩
    simpa [watchedTrials, clear] using flag
  | normal closed =>
    refine ⟨?_, watched.halfOpen⟩
    simpa [watchedTrials, List.countP_append] using flag
  | trial ready =>
    have clear := watched.clear_of_ready ready
    refine ⟨?_, by simp⟩
    simp only [clear, Bool.false_eq_true, if_false] at flag
    simp [watchedTrials, List.countP_append, flag]
  | succeed index here =>
    refine ⟨?_, by simp [Breaker.succeed]⟩
    simp only [watchedTrials, countP_watched_overtake]
    rfl
  | fail index here =>
    refine ⟨?_, by simp⟩
    simp only [watchedTrials, countP_watched_overtake, onTrial_fail]
    rfl
  | abandonTrial index here trial =>
    refine ⟨?_, by simp⟩
    simp only [watchedTrials, countP_watched_overtake]
    rfl
  | abandonNormal index here normal =>
    refine ⟨?_, watched.halfOpen⟩
    rw [here.countP_eq] at flag
    simpa [watchedTrials, normal] using flag

/-- The flag stands for a trial that was not overtaken, after any run. -/
theorem watched_run (s : Settings) (time : Nat) (events : List Event) :
    Watched (run s time events) := by
  refine runFrom_preserves (fun tr e watched => watched.moves (moves_step s tr e)) ?_ events
  exact ⟨rfl, by simp⟩

/-- There is never more than one such trial. -/
theorem Watched.watchedTrials_le_one (watched : Watched tr) : tr.watchedTrials ≤ 1 := by
  rw [watched.flag]
  split <;> omega

/-! ## When another trial goes through -/

/-- A trial is added only by a call that asks a half-open breaker while every trial is forgotten. -/
theorem Watched.trials_of_moves (watched : Watched tr) (moves : Moves s tr e tr') :
    tr'.trials ≤ tr.trials ∨
      e = .start ∧ tr.shown s = .halfOpen ∧ tr.watchedTrials = 0 ∧ tr'.trials = tr.trials + 1 := by
  cases moves with
  | idle | wait | recover => exact .inl (Nat.le_refl _)
  | normal closed =>
    left
    simp [trials, List.countP_append]
  | trial ready =>
    right
    have clear := watched.clear_of_ready ready
    refine ⟨rfl, ?_, ?_, ?_⟩
    · rw [shown_eq_halfOpen_iff]
      exact ready.imp_left And.left
    · rw [watched.flag, clear]
      rfl
    · simp [trials, List.countP_append]
  | succeed index here | fail index here | abandonTrial index here trial =>
    left
    unfold trials
    rw [countP_trial_overtake]
    exact countP_others_le here
  | abandonNormal index here normal => exact .inl (countP_others_le here)

theorem Watched.trials_step_start (watched : Watched tr) (halfOpen : tr.shown s = .halfOpen)
    (forgotten : tr.watchedTrials = 0) : (step s tr .start).trials = tr.trials + 1 := by
  rw [shown_eq_halfOpen_iff] at halfOpen
  have clear : tr.breaker.onTrial = false := by
    rw [← Bool.not_eq_true]
    intro set
    have flag := watched.flag
    rw [forgotten, set] at flag
    cases flag
  rcases request_cases s tr.breaker tr.now with ⟨closed, _⟩ | ⟨_, asked⟩ | ⟨busy, _⟩
  · simp [closed] at halfOpen
  · simp only [step, asked]
    simp [trials, List.countP_append]
  · rcases busy with ⟨_, trial⟩ | ⟨opened, waiting⟩
    · simp [trial] at clear
    · simp [opened, waiting] at halfOpen

/-- **One trial at a time, unless it was overtaken.** At any moment at most one trial under way was
not overtaken. There is at most one trial under way throughout a run if and only if, whenever a call
asks while the breaker shows that it is half-open and trials are under way, one of them was not
overtaken. -/
theorem at_most_one_trial_iff (s : Settings) (time : Nat) (events : List Event) :
    (run s time events).watchedTrials ≤ 1 ∧
      ((∀ past, past <+: events → (run s time past).trials ≤ 1) ↔
        ∀ past, past ++ [.start] <+: events → (run s time past).shown s = .halfOpen →
          (run s time past).trials ≠ 0 → (run s time past).watchedTrials ≠ 0) := by
  refine ⟨(watched_run s time events).watchedTrials_le_one, ?_, ?_⟩
  · intro single past within halfOpen under forgotten
    have next := single _ within
    rw [run_append] at next
    have more := (watched_run s time past).trials_step_start halfOpen forgotten
    have both : (step s (run s time past) .start).trials ≤ 1 := next
    omega
  · intro remembered past
    -- Induction on the past: the last event adds a trial only if none was under way before it.
    induction past using List.reverseRecOn with
    | nil =>
      intro _
      exact Nat.zero_le 1
    | append_singleton past e ih =>
      intro within
      have before := ih ((List.prefix_append past [e]).trans within)
      have last : run s time (past ++ [e]) = step s (run s time past) e := run_append ..
      rw [last]
      rcases (watched_run s time past).trials_of_moves (moves_step s _ e) with
        fewer | ⟨rfl, halfOpen, forgotten, more⟩
      · omega
      · have none : (run s time past).trials = 0 := by
          by_contra under
          exact remembered past within halfOpen under forgotten
        omega

/-- Two calls are under way when the first fails and opens the breaker. After the recovery time a
third one goes through on trial, the second fails, and after the recovery time again a fourth one
goes through on trial, beside the third. -/
theorem at_most_one_trial_iff_late_failure :
    let s : Settings := ⟨1, 10⟩
    let past : List Event :=
      [.start, .start, .finish 0 false, .wait 10, .start, .finish 0 false, .wait 10]
    (run s 0 (past ++ [.start])).trials = 2 ∧
      ¬ ∀ before, before <+: past ++ [.start] → (run s 0 before).trials ≤ 1 := by
  intro s past
  have halfOpen : (run s 0 past).shown s = .halfOpen := by decide
  have overtaken : (run s 0 past).trials = 1 ∧ (run s 0 past).watchedTrials = 0 := by decide
  refine ⟨by decide, fun single => ?_⟩
  have remembered := (at_most_one_trial_iff s 0 (past ++ [.start])).2.mp single past
    (List.prefix_refl _) halfOpen
  rw [overtaken.1, overtaken.2] at remembered
  exact remembered (by decide) rfl

end Traffic

end Tarkib.Breaker
