import Tarkib.Proofs.Breaker.Traffic

/-!
# While a breaker is open

A breaker that opens means to let no call through until its recovery time is over. Calls that were
under way when it opened end all the same. One that fails can only put the recovery off, but one
that succeeds closes the breaker at once.
-/

namespace Tarkib.Breaker

variable {s : Settings} {recent : List Outcome} {tr later : Traffic}

/-! ## Outcomes after a breaker was tripped -/

section Tripped

variable {old : List Outcome}

theorem exists_success_cons_failure {o : Outcome} (failure : o.success = false) :
    (∃ o' ∈ o :: recent, o'.success = true) ↔ ∃ o' ∈ recent, o'.success = true := by
  simp [failure]

/-- Outcomes before the last success do not count. -/
theorem failuresInRow_append (success : ∃ o ∈ recent, o.success = true) :
    failuresInRow (recent ++ old) = failuresInRow recent := by
  induction recent with
  | nil => simp at success
  | cons o rest ih =>
    rw [List.cons_append]
    cases outcome : o.success with
    | true => rw [failuresInRow_cons_success outcome, failuresInRow_cons_success outcome]
    | false =>
      rw [exists_success_cons_failure outcome] at success
      rw [failuresInRow_cons_failure outcome, failuresInRow_cons_failure outcome, ih success]

/-- What tripped the breaker is forgotten exactly if a call succeeded and none tripped it after
that. -/
theorem trippedAt_append_eq_none_iff (tripped : trippedAt s old ≠ none) :
    trippedAt s (recent ++ old) = none ↔
      (∃ o ∈ recent, o.success = true) ∧ trippedAt s recent = none := by
  induction recent with
  | nil => simpa using tripped
  | cons o rest ih =>
    cases outcome : o.success with
    | true => simp [trippedAt_cons_success outcome, outcome]
    | false =>
      rw [List.cons_append, trippedAt_cons_failure outcome, trippedAt_cons_failure outcome,
        exists_success_cons_failure outcome]
      by_cases success : ∃ o' ∈ rest, o'.success = true
      · rw [failuresInRow_append success]
        split
        · simp
        · exact ih
      · have stays : trippedAt s (rest ++ old) ≠ none := fun none => success (ih.mp none).1
        rw [iff_false_right (fun both => success both.1)]
        split
        · simp
        · exact stays

theorem trippedAt_append_eq_some {t : Nat} (tripped : trippedAt s (recent ++ old) = some t) :
    (∃ o ∈ recent, o.time = t) ∨ trippedAt s old = some t := by
  induction recent with
  | nil => exact .inr tripped
  | cons o rest ih =>
    rw [List.cons_append] at tripped
    cases outcome : o.success with
    | true =>
      rw [trippedAt_cons_success outcome] at tripped
      cases tripped
    | false =>
      rw [trippedAt_cons_failure outcome] at tripped
      split at tripped
      · exact .inl ⟨o, List.mem_cons_self, Option.some.inj tripped⟩
      · rcases ih tripped with ⟨o', member, time⟩ | before
        · exact .inl ⟨o', List.mem_cons_of_mem _ member, time⟩
        · exact .inr before

end Tripped

namespace Traffic

/-- The outcomes of the calls that were completed since. -/
def since (tr later : Traffic) : List Outcome :=
  later.outcomes.take (later.outcomes.length - tr.outcomes.length)

theorem Extends.since_eq (extends_ : Extends tr later recent) : since tr later = recent := by
  unfold since
  rw [extends_.outcomes]
  simp

/-- A breaker opens when a failure trips it. -/
theorem Moves.trippedAt_of_opens {tr tr' : Traffic} {e : Event} (moves : Moves s tr e tr')
    (before : stateAfter s tr.outcomes tr.now ≠ .opened)
    (opens : stateAfter s tr'.outcomes tr'.now = .opened) :
    trippedAt s tr'.outcomes = some tr'.now := by
  rw [Ne, stateAfter_eq_opened_iff] at before
  rw [stateAfter_eq_opened_iff] at opens
  cases moves with
  | wait ms =>
    obtain ⟨t, tripped, short⟩ := opens
    refine absurd ⟨t, tripped, ?_⟩ before
    dsimp only at short
    omega
  | succeed =>
    rw [trippedAt_cons_success rfl] at opens
    obtain ⟨t, tripped, _⟩ := opens
    cases tripped
  | fail =>
    rw [trippedAt_cons_failure rfl] at opens ⊢
    split at opens
    · next trips => rw [if_pos trips]
    · exact absurd opens before
  | _ => exact absurd opens before

/-- Before the recovery time is over, no call is let through on trial. -/
theorem Extends.stateAfter_ne_halfOpen (extends_ : Extends tr later recent)
    (tripped : trippedAt s tr.outcomes = some tr.now) (early : later.now < tr.now + s.recoveryMs) :
    stateAfter s later.outcomes later.now ≠ .halfOpen := by
  rw [Ne, stateAfter_eq_halfOpen_iff, extends_.outcomes]
  rintro ⟨t, last, long⟩
  have after : tr.now ≤ t := by
    rcases trippedAt_append_eq_some last with ⟨o, member, rfl⟩ | first
    · exact (extends_.times o member).1
    · rw [tripped] at first
      exact Nat.le_of_eq (Option.some.inj first)
  have order := extends_.now_le
  omega

theorem refuses_iff_ne_closed {tr : Traffic} (decided : tr.shown s ≠ .halfOpen) :
    tr.breaker.Refuses s tr.now ↔ tr.shown s ≠ .closed := by
  have settled : tr.breaker.state ≠ .halfOpen := by
    intro halfOpen
    exact decided (shown_eq_halfOpen_iff.mpr (.inl halfOpen))
  rw [refuses_iff]
  cases state : tr.shown s with
  | closed => simp [settled]
  | opened => simp
  | halfOpen => exact absurd state decided

/-- **Before the recovery time is over a call goes through exactly if a late success has closed the
breaker.** The event `e` opens the breaker, and less than the recovery time has passed since. A call
that asks now goes through if and only if some call has succeeded since the breaker opened and the
breaker was not tripped again after the last success. -/
theorem admitted_while_open_iff (s : Settings) (time : Nat) (past : List Event) (e : Event)
    (later : List Event) (before : (run s time past).shown s ≠ .opened)
    (opens : (run s time (past ++ [e])).shown s = .opened)
    (early : (run s time (past ++ [e] ++ later)).now <
      (run s time (past ++ [e])).now + s.recoveryMs) :
    let opened := run s time (past ++ [e])
    let late := run s time (past ++ [e] ++ later)
    ¬ late.breaker.Refuses s late.now ↔
      (∃ o ∈ since opened late, o.success = true) ∧ trippedAt s (since opened late) = none := by
  intro opened late
  have tripped : trippedAt s opened.outcomes = some opened.now := by
    have last : opened = step s (run s time past) e := run_append ..
    rw [shown_run] at before
    rw [shown_run, ← show opened = run s time (past ++ [e]) from rfl, last] at opens
    rw [last]
    exact (moves_step s _ e).trippedAt_of_opens before opens
  obtain ⟨recent, extends_⟩ : ∃ recent, Extends opened late recent := by
    have rest : late = runFrom s opened later := run_append ..
    rw [rest]
    exact extends_runFrom s opened later
  have shown : late.shown s = stateAfter s late.outcomes late.now := shown_run ..
  have decided : late.shown s ≠ .halfOpen := by
    rw [shown]
    exact extends_.stateAfter_ne_halfOpen tripped early
  calc ¬ late.breaker.Refuses s late.now
    _ ↔ late.shown s = .closed := by rw [refuses_iff_ne_closed decided, not_not]
    _ ↔ trippedAt s (recent ++ opened.outcomes) = none := by
      rw [shown, stateAfter_eq_closed_iff, extends_.outcomes]
    _ ↔ (∃ o ∈ recent, o.success = true) ∧ trippedAt s recent = none :=
      trippedAt_append_eq_none_iff (by simp [tripped])
    _ ↔ _ := by rw [extends_.since_eq]

/-- Two calls are under way when the first fails and opens the breaker. The second succeeds, and at
the same moment the next call goes through, long before the recovery time is over. -/
theorem admitted_while_open_iff_late_success :
    let s : Settings := ⟨1, 60000⟩
    let past : List Event := [.start, .start]
    let opened := run s 0 (past ++ [.finish 0 false])
    let late := run s 0 (past ++ [.finish 0 false] ++ [.finish 0 true])
    opened.shown s = .opened ∧ late.now < opened.now + s.recoveryMs ∧
      ¬ late.breaker.Refuses s late.now := by
  intro s past opened late
  have before : (run s 0 past).shown s ≠ .opened := by decide
  have opens : opened.shown s = .opened := by decide
  have early : late.now < opened.now + s.recoveryMs := by decide
  refine ⟨opens, early, ?_⟩
  apply (admitted_while_open_iff s 0 past _ _ before opens early).mpr
  decide

end Traffic

end Tarkib.Breaker
