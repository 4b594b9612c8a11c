import Tarkib.Timer

/-!
# Operations with a time limit

An operation takes some time and then ends with a result. With a time limit it is cut off if it
takes longer than a timer waits for the limit; an operation that ends exactly then is in time. What
the operation itself spends its time on is not known.

The operations of a batch run at the same time. Their ends are handled in the order in which they
come. Either all ends are awaited and all operations that were cut off are named, or the first cut
ends the batch.
-/

namespace Tarkib

/-- An operation that ends by itself after a time. -/
structure Operation (α : Type) where
  name : String
  delayMs : Nat
  result : α
  deriving Repr, DecidableEq

namespace Operation

variable {α : Type}

def isLate (timer : Timer) (limitMs : Nat) (o : Operation α) : Bool :=
  timer.waited limitMs < o.delayMs

def endMs (timer : Timer) (limitMs : Nat) (o : Operation α) : Nat :=
  min o.delayMs (timer.waited limitMs)

/-- The result of the operation, if it ends in time. -/
def limited (timer : Timer) (limitMs : Nat) (o : Operation α) : Option α :=
  if o.isLate timer limitMs then none else some o.result

end Operation

namespace Batch

variable {α : Type}

/-- How a batch reacts to an operation that is cut off. -/
inductive Policy where
  /-- All ends are awaited. -/
  | collectAll
  /-- The batch ends with the first cut. -/
  | failFast
  deriving Repr, DecidableEq, Inhabited

/-- How a batch ends: with all results, or with the names of operations that were cut off. -/
inductive Outcome (α : Type) where
  | finished (results : List α)
  | late (names : List String)
  deriving Repr, DecidableEq

/-- The operations with their numbers, in the order of their ends. Of operations that end together
the one with the smaller number comes first. -/
def inOrder (timer : Timer) (limitMs : Nat) (ops : List (Operation α)) :
    List (Nat × Operation α) :=
  ((List.range ops.length).zip ops).mergeSort fun a b =>
    a.2.endMs timer limitMs ≤ b.2.endMs timer limitMs

/-- What has been gathered: results and names of operations, with the numbers of the operations. -/
structure Gathered (α : Type) where
  results : List (Nat × α) := []
  late : List (Nat × String) := []
  /-- The time of the last end. -/
  nowMs : Nat := 0
  deriving Repr

/-- Handles the end of an operation. -/
def gather (timer : Timer) (limitMs : Nat) (g : Gathered α) (numbered : Nat × Operation α) :
    Gathered α :=
  let (number, o) := numbered
  let nowMs := o.endMs timer limitMs
  match o.limited timer limitMs with
  | some result => { g with results := g.results ++ [(number, result)], nowMs }
  | none => { g with late := g.late ++ [(number, o.name)], nowMs }

/-- The values in ascending order of their numbers. -/
def byNumber {β : Type} (numbered : List (Nat × β)) : List β :=
  (numbered.mergeSort fun a b => a.1 ≤ b.1).map Prod.snd

def Gathered.outcome (g : Gathered α) : Outcome α :=
  if g.late.isEmpty then .finished (byNumber g.results) else .late (byNumber g.late)

/-- Handles ends up to the first cut, if the policy says so, or else to the last end. -/
def handle (policy : Policy) (timer : Timer) (limitMs : Nat) (g : Gathered α) :
    List (Nat × Operation α) → Gathered α
  | [] => g
  | o :: os =>
    let g := gather timer limitMs g o
    if policy = .failFast && !g.late.isEmpty then g else handle policy timer limitMs g os

/-- The outcome of a batch, and the time in milliseconds that it takes. -/
def run (policy : Policy) (timer : Timer) (limitMs : Nat) (ops : List (Operation α)) :
    Outcome α × Nat :=
  let g := handle policy timer limitMs {} (inOrder timer limitMs ops)
  (g.outcome, g.nowMs)

end Batch

end Tarkib
