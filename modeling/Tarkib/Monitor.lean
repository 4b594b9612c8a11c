import Tarkib.Ledger

/-!
# Watching the memory in use

A monitor takes samples of the memory in use, on demand and, while it runs, at regular times. When a
sample crosses more thresholds than the one before, all observers are notified in order. An observer
that fails does not keep the others from being notified.
-/

namespace Tarkib

/-- An observer of the memory in use. -/
inductive Observer where
  | named (name : String)
  /-- An observer that fails when it is notified. -/
  | failing
  deriving Repr, DecidableEq, Inhabited

/-- What an observer was told. -/
structure Notice where
  observer : String
  usage : MemoryUsage
  limitName : String
  deriving Repr, Inhabited

/-- A limiter that is watched. -/
structure Monitor where
  ledger : Ledger
  observers : List Observer := []
  /-- The memory in use, if it is known. -/
  memory : Option Nat := none
  sampler : Option Sampler := none
  /-- The time in milliseconds. -/
  now : Nat := 0
  /-- How often the memory in use was asked for. -/
  samples : Nat := 0
  deriving Repr, Inhabited

namespace Monitor

def ofLimits (limits : Limits) : Monitor :=
  { ledger := { limiter := .ofLimits limits } }

def modify (m : Monitor) (f : Limiter → Limiter) : Monitor :=
  { m with ledger := { m.ledger with limiter := f m.ledger.limiter } }

def notices (observers : List Observer) (usage : MemoryUsage) : List Notice :=
  observers.filterMap fun o =>
    match o with
    | .named name => some ⟨name, usage, Limiter.memoryLimitName⟩
    | .failing => none

/-- Takes a sample. -/
def check (m : Monitor) : Monitor × Option MemoryUsage × List Notice :=
  let (limiter, seen) := m.ledger.limiter.sample m.memory
  let m := { (m.modify fun _ => limiter) with samples := m.samples + 1 }
  match seen.usage? with
  | some usage => (m, some usage, if seen.crossesMore then notices m.observers usage else [])
  | none => (m, none, [])

/-- Takes several samples. -/
def checks : Nat → Monitor → Monitor × List Notice
  | 0, m => (m, [])
  | n + 1, m =>
    let (m, _, first) := m.check
    let (m, later) := checks n m
    (m, first ++ later)

/-- Whether samples are taken at regular times. -/
def isRunning (m : Monitor) : Bool :=
  m.sampler.isSome

/-- Starts to take samples at regular times. -/
def start (m : Monitor) : Monitor :=
  { m with sampler := some (m.sampler.getD .idle) }

/-- Stops to take samples at regular times. -/
def stop (m : Monitor) : Monitor :=
  { m with sampler := none }

def wait (m : Monitor) (ms : Nat) : Monitor × List Notice :=
  let stop := m.now + ms
  match m.sampler with
  | none => ({ m with now := stop }, [])
  | some sampler =>
    let (sampler, count) :=
      sampler.wait m.ledger.limiter.limits.checkIntervalMs m.now stop
    checks count { m with sampler := some sampler, now := stop }

end Monitor

end Tarkib
