/-!
# Circuit breakers

A breaker stands in front of an operation that may fail. While it is closed, calls go through and
failures in a row are counted. When there are too many of them it opens and refuses calls. After a
while it becomes half-open and lets a single call through on trial: success closes it, failure opens
it again.

A call is admitted, and later succeeds, fails or is abandoned; many calls may be under way at once.
The breaker is told the time whenever it is asked something.

Breakers are kept by key. A call under way remembers which breaker admitted it, so that it does not
disturb a breaker that took the place of the first.
-/

namespace Tarkib

/-- When a breaker opens, and for how long. -/
structure Breaker.Settings where
  /-- The number of failures in a row that opens the breaker. -/
  threshold : Nat := 5
  /-- The time in milliseconds that an open breaker waits before it lets a call through on trial. -/
  recoveryMs : Nat := 30000
  deriving Repr, DecidableEq, Inhabited

def Breaker.Settings.sound (s : Breaker.Settings) : Breaker.Settings :=
  { s with threshold := max s.threshold 1 }

inductive Breaker.State where
  /-- Calls go through. -/
  | closed
  /-- Calls are refused. -/
  | opened
  /-- One call may go through on trial. -/
  | halfOpen
  deriving Repr, DecidableEq, Inhabited

def Breaker.State.name : Breaker.State → String
  | .closed => "closed"
  | .opened => "open"
  | .halfOpen => "half-open"

/-- Calls are counted by numbers. In words of 64 bits the counts are the same up to 2 ^ 64 calls. -/
structure Breaker where
  state : Breaker.State := .closed
  /-- The failures since the last success. -/
  failures : Nat := 0
  totalCalls : Nat := 0
  /-- All calls that failed. -/
  totalFailures : Nat := 0
  openedAt : Option Nat := none
  /-- Whether a call on trial is under way. -/
  onTrial : Bool := false
  deriving Repr, DecidableEq, Inhabited

namespace Breaker

/-- Whether an open breaker has waited long enough. -/
def hasRecovered (s : Settings) (b : Breaker) (now : Nat) : Bool :=
  match b.openedAt with
  | some t => s.recoveryMs ≤ now - t
  | none => false

/-- Lets time take effect: an open breaker that has waited long enough becomes half-open. -/
def refresh (s : Settings) (b : Breaker) (now : Nat) : Breaker :=
  if b.state = .opened && b.hasRecovered s now then
    { b with state := .halfOpen, onTrial := false }
  else b

/-- The time in milliseconds until a call on trial is allowed. -/
def retryIn (s : Settings) (b : Breaker) (now : Nat) : Nat :=
  match b.openedAt with
  | some t => s.recoveryMs - (now - t)
  | none => 0

/-- The answer to a call that asks to go through. -/
inductive Admission where
  | normal
  | trial
  /-- Refused; a call on trial is allowed after the given time in milliseconds. -/
  | refused (retryInMs : Nat)
  deriving Repr, DecidableEq, Inhabited

/-- A call asks to go through. -/
def request (s : Settings) (b : Breaker) (now : Nat) : Breaker × Admission :=
  let b := b.refresh s now
  match b.state with
  | .closed => (b, .normal)
  | .halfOpen =>
    if b.onTrial then (b, .refused (b.retryIn s now)) else ({ b with onTrial := true }, .trial)
  | .opened => (b, .refused (b.retryIn s now))

/-- A call that went through has succeeded: the breaker closes. -/
def succeed (b : Breaker) : Breaker :=
  { b with
    state := .closed, failures := 0, totalCalls := b.totalCalls + 1, openedAt := none,
    onTrial := false }

/-- A call that went through has failed: the breaker opens if the call was on trial or there are too
many failures in a row. -/
def fail (s : Settings) (b : Breaker) (trial : Bool) (now : Nat) : Breaker :=
  let b := { b with
    failures := b.failures + 1, totalCalls := b.totalCalls + 1,
    totalFailures := b.totalFailures + 1, onTrial := false }
  if trial || s.threshold ≤ b.failures then { b with state := .opened, openedAt := some now } else b

/-- A call that went through is abandoned: a call on trial makes room for the next one. -/
def abandon (b : Breaker) (trial : Bool) : Breaker :=
  if trial then { b with onTrial := false } else b

/-- The part of the calls that failed. -/
def failureRate (b : Breaker) : Float :=
  if b.totalCalls = 0 then 0
  else b.totalFailures.toUInt64.toFloat / b.totalCalls.toUInt64.toFloat

end Breaker

/-! ## Breakers by key -/

/-- A breaker with its key. The serial number tells it from others that had the same key. -/
structure Breakers.Entry where
  key : String
  serial : Nat
  breaker : Breaker
  deriving Repr, DecidableEq, Inhabited

/-- Breakers in ascending order of their keys. -/
structure Breakers where
  settings : Breaker.Settings
  entries : List Breakers.Entry := []
  nextSerial : Nat := 0
  deriving Repr, DecidableEq, Inhabited

namespace Breakers

/-- A call that went through. -/
structure Ticket where
  key : String
  serial : Nat
  trial : Bool
  deriving Repr, DecidableEq, Inhabited

structure Refusal where
  key : String
  retryInMs : Nat
  deriving Repr, DecidableEq, Inhabited

def find? (bs : Breakers) (key : String) : Option Entry :=
  bs.entries.find? (·.key == key)

/-- Adds an entry in order. -/
def insertEntry (e : Entry) : List Entry → List Entry
  | [] => [e]
  | f :: rest => if e.key < f.key then e :: f :: rest else f :: insertEntry e rest

/-- Makes sure that there is a breaker with the given key. -/
def ensure (bs : Breakers) (key : String) : Breakers :=
  match bs.find? key with
  | some _ => bs
  | none =>
    { bs with
      entries := insertEntry ⟨key, bs.nextSerial, {}⟩ bs.entries
      nextSerial := bs.nextSerial + 1 }

/-- Changes the breaker with the given serial number, if it is still there. -/
def modify (bs : Breakers) (serial : Nat) (f : Breaker → Breaker) : Breakers :=
  { bs with
    entries := bs.entries.map fun e =>
      if e.serial = serial then { e with breaker := f e.breaker } else e }

/-- A call asks the breaker with the given key, which is created if there is none. -/
def request (bs : Breakers) (key : String) (now : Nat) : Breakers × Except Refusal Ticket :=
  let bs := bs.ensure key
  match bs.find? key with
  | none => (bs, .error ⟨key, 0⟩)
  | some e =>
    let (b, admission) := e.breaker.request bs.settings now
    let bs := bs.modify e.serial fun _ => b
    match admission with
    | .normal => (bs, .ok ⟨key, e.serial, false⟩)
    | .trial => (bs, .ok ⟨key, e.serial, true⟩)
    | .refused retryInMs => (bs, .error ⟨key, retryInMs⟩)

def complete (bs : Breakers) (t : Ticket) (success : Bool) (now : Nat) : Breakers :=
  bs.modify t.serial fun b => if success then b.succeed else b.fail bs.settings t.trial now

def abandon (bs : Breakers) (t : Ticket) : Breakers :=
  bs.modify t.serial fun b => b.abandon t.trial

/-- Lets time take effect on all breakers. -/
def refresh (bs : Breakers) (now : Nat) : Breakers :=
  { bs with
    entries := bs.entries.map fun e => { e with breaker := e.breaker.refresh bs.settings now } }

structure Status where
  key : String
  state : Breaker.State
  failures : Nat
  failureRate : Float
  /-- The time until a call on trial is allowed, if the breaker is open. -/
  retryInMs : Option Nat
  deriving Repr, Inhabited

/-- What can be seen of all breakers, in order. -/
def statuses (bs : Breakers) (now : Nat) : List Status :=
  (bs.refresh now).entries.map fun e =>
    let b := e.breaker
    ⟨e.key, b.state, b.failures, b.failureRate,
      if b.state = .opened then some (b.retryIn bs.settings now) else none⟩

def state? (bs : Breakers) (key : String) (now : Nat) : Option Breaker.State :=
  (bs.find? key).map fun e => (e.breaker.refresh bs.settings now).state

/-- How many breakers there are, and how many in each state. -/
structure Summary where
  total : Nat
  opened : Nat
  halfOpen : Nat
  closed : Nat
  deriving Repr, DecidableEq, Inhabited

/-- Counts the breakers by state. -/
def summary (bs : Breakers) (now : Nat) : Summary :=
  let states := (bs.refresh now).entries.map fun e => e.breaker.state
  ⟨states.length, states.count .opened, states.count .halfOpen, states.count .closed⟩

def clear (bs : Breakers) : Breakers :=
  { bs with entries := [] }

end Breakers

end Tarkib
