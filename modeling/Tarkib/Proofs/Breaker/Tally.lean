import Tarkib.Proofs.Breaker.Traffic

/-!
# What a breaker has counted

A breaker counts its completed calls, those of them that failed, and the failures since the last
success. However calls overlap, the three numbers are those of the outcomes (`Follows`, `Tallied`).

The number of failures in a row does not decide alone whether the breaker is closed. A failed trial
opens it whatever the number is: a trial goes through when there have been enough failures, but
until it fails a call that was admitted long before may succeed and start the count anew.
-/

namespace Tarkib.Breaker

variable {outcomes : List Outcome} {s : Settings} {o : Outcome}

/-! ## Failures in a row -/

/-- Whether a trial has failed since the last success. -/
def trialFailed (outcomes : List Outcome) : Bool :=
  (outcomes.takeWhile fun o => !o.success).any fun o => o.trial

/-- The number of calls that failed. -/
def failuresIn (outcomes : List Outcome) : Nat :=
  outcomes.countP fun o => !o.success

theorem trialFailed_cons_success (success : o.success = true) :
    trialFailed (o :: outcomes) = false := by
  simp [trialFailed, success]

theorem trialFailed_cons_failure (failure : o.success = false) :
    trialFailed (o :: outcomes) = (o.trial || trialFailed outcomes) := by
  simp [trialFailed, failure]

theorem failuresInRow_le_failuresIn (outcomes : List Outcome) :
    failuresInRow outcomes ≤ failuresIn outcomes := by
  induction outcomes with
  | nil => exact Nat.le_refl 0
  | cons o earlier ih =>
    cases outcome : o.success with
    | true =>
      rw [failuresInRow_cons_success outcome]
      exact Nat.zero_le _
    | false =>
      rw [failuresInRow_cons_failure outcome, failuresIn,
        List.countP_cons_of_pos (by simp [outcome])]
      exact Nat.succ_le_succ ih

/-- Nothing has tripped a breaker as long as there are too few failures in a row and no trial
failed. -/
theorem trippedAt_eq_none_iff (positive : 0 < s.threshold) (outcomes : List Outcome) :
    trippedAt s outcomes = none ↔
      failuresInRow outcomes < s.threshold ∧ trialFailed outcomes = false := by
  induction outcomes with
  | nil => simp [trippedAt, failuresInRow, trialFailed, positive]
  | cons o earlier ih =>
    cases outcome : o.success with
    | true =>
      rw [trippedAt_cons_success outcome, failuresInRow_cons_success outcome,
        trialFailed_cons_success outcome]
      simp [positive]
    | false =>
      rw [trippedAt_cons_failure outcome, failuresInRow_cons_failure outcome,
        trialFailed_cons_failure outcome]
      by_cases trips : (o.trial || s.threshold ≤ failuresInRow earlier + 1) = true
      · rw [if_pos trips]
        simp only [Bool.or_eq_true, decide_eq_true_eq] at trips
        rcases trips with trial | many
        · simp [trial]
        · simp [Nat.not_lt.mpr many]
      · -- One failure more is still too few, so there were too few before.
        rw [if_neg trips, ih]
        simp only [Bool.or_eq_true, decide_eq_true_eq, not_or, Bool.not_eq_true,
          Nat.not_le] at trips
        simp [trips.1, trips.2, Nat.lt_of_succ_lt trips.2]

namespace Traffic

/-! ## The books of a breaker -/

/-- The totals of the breaker are those of the outcomes. -/
structure Tallied (tr : Traffic) : Prop where
  totalCalls : tr.breaker.totalCalls = tr.outcomes.length
  totalFailures : tr.breaker.totalFailures = failuresIn tr.outcomes

/-- Every event keeps the counts those of the outcomes. -/
theorem Tallied.moves {tr tr' : Traffic} {e : Event} (tallied : Tallied tr)
    (moves : Moves s tr e tr') : Tallied tr' := by
  obtain ⟨calls, failures⟩ := tallied
  cases moves with
  | succeed index here =>
    refine ⟨?_, ?_⟩
    · simp [Breaker.succeed, calls]
    · simpa [Breaker.succeed, failuresIn] using failures
  | fail index here =>
    refine ⟨?_, ?_⟩
    · simp only [Breaker.fail, List.length_cons]
      split <;> simp [calls]
    · simp only [Breaker.fail, failuresIn, List.countP_cons]
      split <;> simpa [failuresIn] using failures
  | _ => exact ⟨calls, failures⟩

/-- The counts are those of the outcomes after any run. -/
theorem tallied_run (s : Settings) (time : Nat) (events : List Event) :
    Tallied (run s time events) := by
  refine runFrom_preserves (fun tr e tallied => tallied.moves (moves_step s tr e)) ?_ events
  exact ⟨rfl, rfl⟩

theorem Tallied.totalFailures_le {tr : Traffic} (tallied : Tallied tr) :
    tr.breaker.totalFailures ≤ tr.breaker.totalCalls := by
  rw [tallied.totalFailures, tallied.totalCalls]
  exact List.countP_le_length

/-- **A breaker counts what has happened.** In every state that a run can reach: the failures
counted are those since the last success; the totals are the number of completed calls and of those
that failed; there is a time of opening exactly if the breaker is not closed; and it is closed if
and only if the failures are fewer than the threshold and no trial has failed since the last
success. -/
theorem counted_and_closed_iff {s : Settings} (positive : 0 < s.threshold) (time : Nat)
    (events : List Event) :
    let tr := run s time events
    tr.breaker.failures = failuresInRow tr.outcomes ∧
      tr.breaker.totalCalls = tr.outcomes.length ∧
      tr.breaker.totalFailures = failuresIn tr.outcomes ∧
      tr.breaker.failures ≤ tr.breaker.totalFailures ∧
      tr.breaker.totalFailures ≤ tr.breaker.totalCalls ∧
      (tr.breaker.openedAt.isSome = true ↔ tr.breaker.state ≠ .closed) ∧
      (tr.breaker.state = .closed ↔
        tr.breaker.failures < s.threshold ∧ trialFailed tr.outcomes = false) := by
  intro tr
  have follows : Follows s tr := follows_run s time events
  have tallied : Tallied tr := tallied_run s time events
  refine ⟨follows.failures, tallied.totalCalls, tallied.totalFailures, ?_,
    tallied.totalFailures_le, ?_, ?_⟩
  · rw [follows.failures, tallied.totalFailures]
    exact failuresInRow_le_failuresIn tr.outcomes
  · rw [Ne, follows.closed, ← Ne, Option.isSome_iff_ne_none]
  · rw [follows.closed, follows.openedAt, follows.failures]
    exact trippedAt_eq_none_iff positive tr.outcomes

/-- Three calls are under way when two of them fail and open the breaker. A fourth goes through on
trial, the third succeeds and closes the breaker, and then the fourth fails: the breaker is open,
with one failure counted and a threshold of two. -/
theorem counted_and_closed_iff_late_trial :
    let s : Settings := ⟨2, 10⟩
    let events : List Event := [.start, .start, .start, .finish 0 false, .finish 0 false, .wait 10,
      .start, .finish 0 true, .finish 0 false]
    let tr := run s 0 events
    tr.breaker.failures < s.threshold ∧ tr.breaker.state ≠ .closed := by
  intro s events tr
  have few : tr.breaker.failures < s.threshold := by decide
  have failed : trialFailed tr.outcomes = true := by decide
  have closed := (counted_and_closed_iff (s := s) (by decide) 0 events).2.2.2.2.2.2
  refine ⟨few, ?_⟩
  rw [Ne, closed, failed]
  simp

end Traffic

end Tarkib.Breaker
