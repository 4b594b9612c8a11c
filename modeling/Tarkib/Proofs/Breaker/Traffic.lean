import Mathlib.Data.List.Perm.Basic
import Tarkib.Proofs.Breaker.Call

/-!
# Calls under way together

Many calls may be under way through a breaker at once. A call starts, and later it succeeds, fails
or is abandoned; meanwhile others start and end, time passes, and someone may ask for the state
(`Traffic.run`). What one event can do is said once (`Traffic.Moves`).

Beside the breaker, the traffic keeps what has happened: the outcomes of all completed calls, and of
every call under way whether the breaker has heard of another call since. What a breaker shows is a
function of the outcomes and the time (`stateAfter`).
-/

namespace Tarkib.Breaker

variable {s : Settings} {now : Nat} {b : Breaker}

/-! ## Outcomes -/

/-- How a call that went through has ended, and when. -/
structure Outcome where
  success : Bool
  /-- Whether the call was on trial. -/
  trial : Bool
  time : Nat
  deriving Repr, DecidableEq

/-- The number of failures since the last success. The latest outcome comes first. -/
def failuresInRow (outcomes : List Outcome) : Nat :=
  (outcomes.takeWhile fun o => !o.success).length

/-- When a breaker with these outcomes was tripped last, unless a call has succeeded since. -/
def trippedAt (s : Settings) : List Outcome → Option Nat
  | [] => none
  | o :: earlier =>
    if o.success then none
    else if o.trial || s.threshold ≤ failuresInRow (o :: earlier) then some o.time
    else trippedAt s earlier

/-- The state in which the breaker is after outcomes, by the time at which they tripped it. -/
def stateAfter (s : Settings) (outcomes : List Outcome) (now : Nat) : State :=
  match trippedAt s outcomes with
  | none => .closed
  | some t => if s.recoveryMs ≤ now - t then .halfOpen else .opened

section Outcomes

variable {o : Outcome} {outcomes : List Outcome}

theorem failuresInRow_cons_success (success : o.success = true) :
    failuresInRow (o :: outcomes) = 0 := by
  simp [failuresInRow, success]

theorem failuresInRow_cons_failure (failure : o.success = false) :
    failuresInRow (o :: outcomes) = failuresInRow outcomes + 1 := by
  simp [failuresInRow, failure]

/-- A success forgets what tripped the breaker, whenever it comes. -/
theorem trippedAt_cons_success (success : o.success = true) :
    trippedAt s (o :: outcomes) = none := by
  simp [trippedAt, success]

/-- A failure trips the breaker on trial, or if there are too many in a row. -/
theorem trippedAt_cons_failure (failure : o.success = false) :
    trippedAt s (o :: outcomes) =
      if o.trial || s.threshold ≤ failuresInRow outcomes + 1 then some o.time
      else trippedAt s outcomes := by
  simp [trippedAt, failure, failuresInRow_cons_failure failure]

/-- A breaker that nothing has tripped is closed. -/
theorem stateAfter_eq_closed_iff :
    stateAfter s outcomes now = .closed ↔ trippedAt s outcomes = none := by
  unfold stateAfter
  cases trippedAt s outcomes with
  | none => simp
  | some t => by_cases long : s.recoveryMs ≤ now - t <;> simp [long]

/-- It is open until it has waited since the failure that tripped it. -/
theorem stateAfter_eq_opened_iff :
    stateAfter s outcomes now = .opened ↔
      ∃ t, trippedAt s outcomes = some t ∧ now - t < s.recoveryMs := by
  unfold stateAfter
  cases trippedAt s outcomes <;> simp

/-- Once it has waited, it is half-open. -/
theorem stateAfter_eq_halfOpen_iff :
    stateAfter s outcomes now = .halfOpen ↔
      ∃ t, trippedAt s outcomes = some t ∧ s.recoveryMs ≤ now - t := by
  unfold stateAfter
  cases trippedAt s outcomes <;> simp

end Outcomes

/-! ## Traffic -/

/-- A call that went through and has not ended yet. -/
structure Pending where
  /-- Whether the call is on trial. -/
  trial : Bool
  /-- Whether another call was completed, or another trial abandoned, since this one went through.
  -/
  overtaken : Bool := false
  deriving Repr, DecidableEq

/-- The call after the breaker has heard of another one. -/
def Pending.overtake (call : Pending) : Pending :=
  { call with overtaken := true }

/-- A breaker, the time, the calls under way and the outcomes of those completed, latest first. -/
structure Traffic where
  breaker : Breaker := {}
  now : Nat
  pending : List Pending := []
  outcomes : List Outcome := []
  deriving Repr, DecidableEq

variable {tr : Traffic}

/-- What can happen to a breaker. -/
inductive Event where
  /-- A call asks to go through. -/
  | start
  /-- A call under way, given by its index, is completed. -/
  | finish (index : Nat) (success : Bool)
  /-- A call under way is abandoned. -/
  | abandon (index : Nat)
  /-- Time passes. -/
  | wait (ms : Nat)
  /-- Someone asks for the state. -/
  | look
  deriving Repr, DecidableEq

namespace Traffic

/-- One event. Nothing happens to calls that are not there. -/
def step (s : Settings) (tr : Traffic) : Event → Traffic
  | .start =>
    match tr.breaker.request s tr.now with
    | (b, .normal) => { tr with breaker := b, pending := tr.pending ++ [⟨false, false⟩] }
    | (b, .trial) => { tr with breaker := b, pending := tr.pending ++ [⟨true, false⟩] }
    | (b, .refused _) => { tr with breaker := b }
  | .finish index success =>
    match tr.pending[index]? with
    | none => tr
    | some call =>
      { tr with
        breaker := if success then tr.breaker.succeed else tr.breaker.fail s call.trial tr.now
        pending := (tr.pending.eraseIdx index).map Pending.overtake
        outcomes := ⟨success, call.trial, tr.now⟩ :: tr.outcomes }
  | .abandon index =>
    match tr.pending[index]? with
    | none => tr
    | some call =>
      let others := tr.pending.eraseIdx index
      { tr with
        breaker := tr.breaker.abandon call.trial
        pending := if call.trial then others.map Pending.overtake else others }
  | .wait ms => { tr with now := tr.now + ms }
  | .look => { tr with breaker := tr.breaker.refresh s tr.now }

/-- The traffic after a number of events. -/
def runFrom (s : Settings) (tr : Traffic) (events : List Event) : Traffic :=
  events.foldl (step s) tr

/-- The events of a breaker that is new at the given time. -/
def run (s : Settings) (time : Nat) (events : List Event) : Traffic :=
  runFrom s { now := time } events

theorem runFrom_append (s : Settings) (tr : Traffic) (first second : List Event) :
    runFrom s tr (first ++ second) = runFrom s (runFrom s tr first) second :=
  List.foldl_append

theorem run_append (s : Settings) (time : Nat) (first second : List Event) :
    run s time (first ++ second) = runFrom s (run s time first) second :=
  runFrom_append s _ first second

/-- What every event preserves is preserved by a run. -/
theorem runFrom_preserves {holds : Traffic → Prop}
    (preserved : ∀ tr e, holds tr → holds (step s tr e)) (before : holds tr)
    (events : List Event) : holds (runFrom s tr events) := by
  induction events generalizing tr with
  | nil => exact before
  | cons e events ih => exact ih (preserved tr e before)

/-! ## What an event can do -/

/-- The breaker lets a call through on trial. -/
def AllowsTrial (s : Settings) (tr : Traffic) : Prop :=
  tr.breaker.state = .halfOpen ∧ tr.breaker.onTrial = false ∨
    tr.breaker.state = .opened ∧ tr.breaker.hasRecovered s tr.now = true

/-- The ways in which an event changes the traffic. -/
inductive Moves (s : Settings) (tr : Traffic) : Event → Traffic → Prop where
  /-- The call is refused, or there is no such call, or the state is what it was. -/
  | idle (e : Event) : Moves s tr e tr
  | wait (ms : Nat) : Moves s tr (.wait ms) { tr with now := tr.now + ms }
  | recover (opened : tr.breaker.state = .opened)
      (recovered : tr.breaker.hasRecovered s tr.now = true) :
      Moves s tr .look
        { tr with breaker := { tr.breaker with state := .halfOpen, onTrial := false } }
  | normal (closed : tr.breaker.state = .closed) :
      Moves s tr .start { tr with pending := tr.pending ++ [⟨false, false⟩] }
  | trial (ready : AllowsTrial s tr) :
      Moves s tr .start
        { tr with
          breaker := { tr.breaker with state := .halfOpen, onTrial := true }
          pending := tr.pending ++ [⟨true, false⟩] }
  | succeed (index : Nat) {call : Pending} {others : List Pending}
      (here : tr.pending.Perm (call :: others)) :
      Moves s tr (.finish index true)
        { tr with
          breaker := tr.breaker.succeed
          pending := others.map Pending.overtake
          outcomes := ⟨true, call.trial, tr.now⟩ :: tr.outcomes }
  | fail (index : Nat) {call : Pending} {others : List Pending}
      (here : tr.pending.Perm (call :: others)) :
      Moves s tr (.finish index false)
        { tr with
          breaker := tr.breaker.fail s call.trial tr.now
          pending := others.map Pending.overtake
          outcomes := ⟨false, call.trial, tr.now⟩ :: tr.outcomes }
  | abandonTrial (index : Nat) {call : Pending} {others : List Pending}
      (here : tr.pending.Perm (call :: others)) (trial : call.trial = true) :
      Moves s tr (.abandon index)
        { tr with
          breaker := { tr.breaker with onTrial := false }
          pending := others.map Pending.overtake }
  | abandonNormal (index : Nat) {call : Pending} {others : List Pending}
      (here : tr.pending.Perm (call :: others)) (normal : call.trial = false) :
      Moves s tr (.abandon index) { tr with pending := others }

theorem perm_eraseIdx {calls : List Pending} {index : Nat} {call : Pending}
    (here : calls[index]? = some call) : calls.Perm (call :: calls.eraseIdx index) := by
  obtain ⟨bound, rfl⟩ := List.getElem?_eq_some_iff.mp here
  exact (List.getElem_cons_eraseIdx_perm bound).symm

/-- Every event does one of the things that it can do. -/
theorem moves_step (s : Settings) (tr : Traffic) (e : Event) : Moves s tr e (step s tr e) := by
  cases e with
  | start =>
    rcases request_cases s tr.breaker tr.now with ⟨closed, asked⟩ | ⟨ready, asked⟩ | ⟨_, asked⟩
    · simp only [step, asked]
      exact .normal closed
    · simp only [step, asked]
      exact .trial ready
    · simp only [step, asked]
      exact .idle _
  | finish index success =>
    simp only [step]
    cases here : tr.pending[index]? with
    | none => exact .idle _
    | some call =>
      cases success with
      | true => exact .succeed index (perm_eraseIdx here)
      | false => exact .fail index (perm_eraseIdx here)
  | abandon index =>
    simp only [step]
    cases here : tr.pending[index]? with
    | none => exact .idle _
    | some call =>
      cases trial : call.trial with
      | true =>
        simp only [trial, Breaker.abandon, if_true]
        exact .abandonTrial index (perm_eraseIdx here) trial
      | false =>
        simp only [trial, Breaker.abandon, Bool.false_eq_true, if_false]
        exact .abandonNormal index (perm_eraseIdx here) trial
  | wait ms => exact .wait ms
  | look =>
    simp only [step, refresh]
    split
    · next recovered =>
        simp only [Bool.and_eq_true, decide_eq_true_eq] at recovered
        exact .recover recovered.1 recovered.2
    · exact .idle _

/-! ## The breaker follows the outcomes -/

/-- The breaker is what the outcomes make it. -/
structure Follows (s : Settings) (tr : Traffic) : Prop where
  failures : tr.breaker.failures = failuresInRow tr.outcomes
  openedAt : tr.breaker.openedAt = trippedAt s tr.outcomes
  closed : tr.breaker.state = .closed ↔ tr.breaker.openedAt = none
  recovered : tr.breaker.state = .halfOpen → tr.breaker.hasRecovered s tr.now = true

end Traffic

theorem hasRecovered_iff :
    b.hasRecovered s now = true ↔ ∃ t, b.openedAt = some t ∧ s.recoveryMs ≤ now - t := by
  unfold hasRecovered
  cases b.openedAt <;> simp

/-- A breaker that has waited long enough has done so at any later time. -/
theorem hasRecovered_mono {now later : Nat} (order : now ≤ later)
    (recovered : b.hasRecovered s now = true) : b.hasRecovered s later = true := by
  obtain ⟨t, openedAt, waited⟩ := hasRecovered_iff.mp recovered
  exact hasRecovered_iff.mpr ⟨t, openedAt, by omega⟩

namespace Traffic

theorem Follows.fail (follows : Follows s tr) (trial : Bool)
    (pending : List Pending) :
    Follows s
      { tr with
        breaker := tr.breaker.fail s trial tr.now
        pending
        outcomes := ⟨false, trial, tr.now⟩ :: tr.outcomes } := by
  obtain ⟨failures, openedAt, closed, recovered⟩ := follows
  by_cases trips : (trial || s.threshold ≤ failuresInRow tr.outcomes + 1) = true
  · refine ⟨?_, ?_, ?_, ?_⟩
    · rw [failuresInRow_cons_failure rfl]
      simp [Breaker.fail, failures, trips]
    · rw [trippedAt_cons_failure rfl, if_pos trips]
      simp [Breaker.fail, failures, trips]
    · simp [Breaker.fail, failures, trips]
    · simp [Breaker.fail, failures, trips]
  · refine ⟨?_, ?_, ?_, ?_⟩
    · rw [failuresInRow_cons_failure rfl]
      simp [Breaker.fail, failures, trips]
    · rw [trippedAt_cons_failure rfl, if_neg trips]
      simp [Breaker.fail, failures, trips, openedAt]
    · simpa [Breaker.fail, failures, trips] using closed
    · simpa [Breaker.fail, failures, trips, hasRecovered] using recovered

/-- Every event keeps the breaker in step with the outcomes. -/
theorem Follows.moves {tr tr' : Traffic} {e : Event} (follows : Follows s tr)
    (moves : Moves s tr e tr') : Follows s tr' := by
  have all := follows
  obtain ⟨failures, openedAt, closed, recovered⟩ := follows
  cases moves with
  | idle => exact all
  | wait ms =>
    refine ⟨failures, openedAt, closed, fun halfOpen => ?_⟩
    exact hasRecovered_mono (Nat.le_add_right _ ms) (recovered halfOpen)
  | recover opened waited =>
    refine ⟨failures, openedAt, ?_, fun _ => waited⟩
    simpa [opened] using closed
  | normal _
  | abandonTrial index here trial
  | abandonNormal index here normal => exact ⟨failures, openedAt, closed, recovered⟩
  | trial ready =>
    refine ⟨failures, openedAt, ?_, fun _ => ?_⟩
    · rcases ready with ⟨halfOpen, _⟩ | ⟨opened, _⟩
      · simpa [halfOpen] using closed
      · simpa [opened] using closed
    · rcases ready with ⟨halfOpen, _⟩ | ⟨_, waited⟩
      · exact recovered halfOpen
      · exact waited
  | succeed index here =>
    refine ⟨?_, ?_, ?_, ?_⟩
    · rw [failuresInRow_cons_success rfl]
      rfl
    · rw [trippedAt_cons_success rfl]
      rfl
    · simp [Breaker.succeed]
    · simp [Breaker.succeed]
  | fail index here => exact all.fail _ _

/-- A breaker is in step with the outcomes after any run. -/
theorem follows_run (s : Settings) (time : Nat) (events : List Event) :
    Follows s (run s time events) := by
  refine runFrom_preserves (fun tr e follows => follows.moves (moves_step s tr e)) ?_ events
  exact ⟨rfl, rfl, by simp, by simp⟩

/-- The state that the breaker shows when it is asked. -/
def shown (s : Settings) (tr : Traffic) : State :=
  (tr.breaker.refresh s tr.now).state

theorem shown_eq_closed_iff : tr.shown s = .closed ↔ tr.breaker.state = .closed := by
  unfold shown refresh
  cases state : tr.breaker.state <;> cases tr.breaker.hasRecovered s tr.now <;> simp [state]

theorem shown_eq_halfOpen_iff :
    tr.shown s = .halfOpen ↔
      tr.breaker.state = .halfOpen ∨
        tr.breaker.state = .opened ∧ tr.breaker.hasRecovered s tr.now = true := by
  unfold shown refresh
  cases state : tr.breaker.state <;> cases tr.breaker.hasRecovered s tr.now <;> simp [state]

theorem shown_eq_opened_iff :
    tr.shown s = .opened ↔
      tr.breaker.state = .opened ∧ tr.breaker.hasRecovered s tr.now = false := by
  unfold shown refresh
  cases state : tr.breaker.state <;> cases tr.breaker.hasRecovered s tr.now <;> simp [state]

/-- A breaker refuses while it shows that it is open, and while its flag says that a trial is under
way. -/
theorem refuses_iff :
    tr.breaker.Refuses s tr.now ↔
      tr.shown s = .opened ∨ tr.breaker.state = .halfOpen ∧ tr.breaker.onTrial = true := by
  rw [shown_eq_opened_iff]
  rcases request_cases s tr.breaker tr.now with ⟨closed, asked⟩ | ⟨ready, asked⟩ | ⟨busy, asked⟩
  · simp [Refuses, asked, closed]
  · rcases ready with ⟨halfOpen, free⟩ | ⟨opened, recovered⟩
    · simp [Refuses, asked, halfOpen, free]
    · simp [Refuses, asked, opened, recovered]
  · rcases busy with ⟨halfOpen, trial⟩ | ⟨opened, waiting⟩
    · simp [Refuses, asked, halfOpen, trial]
    · simp [Refuses, asked, opened, waiting]

theorem Follows.shown_eq (follows : Follows s tr) :
    tr.shown s = stateAfter s tr.outcomes tr.now := by
  obtain ⟨_, openedAt, closed, recovered⟩ := follows
  unfold stateAfter
  rw [← openedAt]
  cases since : tr.breaker.openedAt with
  | none => exact shown_eq_closed_iff.mpr (closed.mpr since)
  | some t =>
    have waited : tr.breaker.hasRecovered s tr.now = decide (s.recoveryMs ≤ tr.now - t) := by
      simp [hasRecovered, since]
    by_cases long : s.recoveryMs ≤ tr.now - t
    · simp only [long, if_true, shown_eq_halfOpen_iff, waited]
      cases state : tr.breaker.state with
      | closed => simp [closed.mp state] at since
      | opened => simp
      | halfOpen => simp
    · simp only [long, if_false, shown_eq_opened_iff, waited]
      cases state : tr.breaker.state with
      | closed => simp [closed.mp state] at since
      | opened => simp
      | halfOpen => simp [recovered state, long] at waited

/-- What a breaker shows depends on the outcomes and the time alone. -/
theorem shown_run (s : Settings) (time : Nat) (events : List Event) :
    (run s time events).shown s =
      stateAfter s (run s time events).outcomes (run s time events).now :=
  (follows_run s time events).shown_eq

/-! ## What comes later -/

/-- `later` comes after `tr`, and the given outcomes are those since. -/
structure Extends (tr later : Traffic) (recent : List Outcome) : Prop where
  now_le : tr.now ≤ later.now
  outcomes : later.outcomes = recent ++ tr.outcomes
  times : ∀ o ∈ recent, tr.now ≤ o.time ∧ o.time ≤ later.now

theorem Extends.trans {first second third : Traffic} {recent more : List Outcome}
    (earlier : Extends first second recent) (later : Extends second third more) :
    Extends first third (more ++ recent) where
  now_le := Nat.le_trans earlier.now_le later.now_le
  outcomes := by rw [later.outcomes, earlier.outcomes, List.append_assoc]
  times := by
    intro o member
    have order := earlier.now_le
    have order' := later.now_le
    rcases List.mem_append.mp member with member | member
    · have := later.times o member
      omega
    · have := earlier.times o member
      omega

/-- An event adds outcomes and never takes one back, and time does not run backwards. -/
theorem Moves.extends {tr tr' : Traffic} {e : Event} (moves : Moves s tr e tr') :
    ∃ recent, Extends tr tr' recent := by
  cases moves with
  | wait ms => exact ⟨[], Nat.le_add_right _ ms, rfl, by simp⟩
  | succeed | fail => exact ⟨[_], Nat.le_refl _, rfl, by simp⟩
  | _ => exact ⟨[], Nat.le_refl _, rfl, by simp⟩

/-- So does a run. -/
theorem extends_runFrom (s : Settings) (tr : Traffic) (events : List Event) :
    ∃ recent, Extends tr (runFrom s tr events) recent := by
  induction events generalizing tr with
  | nil => exact ⟨[], Nat.le_refl _, rfl, by simp⟩
  | cons e events ih =>
    obtain ⟨recent, first⟩ := (moves_step s tr e).extends
    obtain ⟨more, rest⟩ := ih (step s tr e)
    exact ⟨more ++ recent, first.trans rest⟩

end Traffic

end Tarkib.Breaker
