import Tarkib.Breaker
import Tarkib.Limiter
import Tarkib.Metrics
import Tarkib.Module.Registry

/-!
# Health

Each part of the system can be checked. A check passes, warns or fails and says why; the report over
all checks is as bad as the worst of them.
-/

namespace Tarkib.Health

/-- Why there is no outcome: arithmetic is checked, and a result that exceeds a word ends the
program. -/
inductive Panic where
  | overflow
  deriving Repr, DecidableEq, Inhabited

/-- The outcome of a check. -/
inductive Grade where
  | pass
  | warn
  | fail
  deriving Repr, DecidableEq, Inhabited

def Grade.name : Grade → String
  | .pass => "pass"
  | .warn => "warn"
  | .fail => "fail"

structure Check where
  name : String
  grade : Grade
  message : String
  deriving Repr, DecidableEq, Inhabited

/-- The health of the whole system. -/
inductive Status where
  | healthy
  | degraded
  | unhealthy
  deriving Repr, DecidableEq, Inhabited

def Status.name : Status → String
  | .healthy => "healthy"
  | .degraded => "degraded"
  | .unhealthy => "unhealthy"

def Status.ofChecks (checks : List Check) : Status :=
  if checks.any (·.grade = .fail) then .unhealthy
  else if checks.any (·.grade = .warn) then .degraded
  else .healthy

structure Report where
  status : Status
  checks : List Check
  deriving Repr, DecidableEq, Inhabited

def Report.version : String := "0.1.0"

def Report.ofChecks (checks : List Check) : Report :=
  ⟨.ofChecks checks, checks⟩

def Report.find? (r : Report) (name : String) : Option Check :=
  r.checks.find? (·.name == name)

/-! ## Checks of the parts -/

/-- Rates the memory in use, as seen by a sample that was just taken. -/
def memoryGrade (limits : Limits) (percent : Float) : Grade :=
  if 100.0 ≤ percent then .fail
  else if limits.warningThresholds.head?.getD 80.0 ≤ percent then .warn
  else .pass

/-- Checks the memory in use; `usage?` is a sample that was just taken. -/
def checkMemory (limiter : Option Limiter) (usage? : Option MemoryUsage) : Check :=
  match limiter, usage? with
  | none, _ => ⟨"memory", .warn, "resource limits disabled"⟩
  | some _, none => ⟨"memory", .warn, "memory usage unavailable"⟩
  | some l, some u =>
    ⟨"memory", memoryGrade l.limits u.percent,
      s!"{u.usedBytes} of {u.limitBytes} bytes ({Decimal.tenthsText u.percent}%)"⟩

/-- The product of two words. The program panics if it exceeds a word. -/
def product (a b : UInt64) : Except Panic UInt64 :=
  if a.toNat * b.toNat < UInt64.size then .ok (a * b) else .error .overflow

/-- Rates a number of modules against a ceiling, counted in words of 64 bits: from nine tenths of
the ceiling on it is worth a warning. -/
def cacheGrade (count ceiling : UInt64) : Except Panic Grade :=
  if ceiling ≤ count then .ok .fail
  else do
    let reached ← product count 10
    let bound ← product ceiling 9
    return if bound ≤ reached then .warn else .pass

/-- Checks the number of modules kept in memory; `cached` is what the cache itself holds. -/
def checkModuleCache (limiter : Option Limiter) (cached : Nat) : Except Panic Check :=
  match limiter with
  | none => .ok ⟨"moduleCache", .pass, s!"{cached} modules cached"⟩
  | some l => do
    let ceiling := l.limits.maxCachedModules
    let grade ← cacheGrade l.modules.toUInt64 ceiling.toUInt64
    return ⟨"moduleCache", grade, s!"{l.modules} of {ceiling} modules cached"⟩

def checkBreakers (breakers : Option Breakers) (now : Nat) : Check :=
  match breakers with
  | none => ⟨"circuitBreakers", .warn, "circuit breakers disabled"⟩
  | some bs =>
    let s := bs.summary now
    if s.opened = 0 && s.halfOpen = 0 then
      ⟨"circuitBreakers", .pass, s!"{s.total} breakers closed"⟩
    else ⟨"circuitBreakers", .warn, s!"{s.opened} open, {s.halfOpen} half-open of {s.total}"⟩

def checkMetrics (collecting : Bool) : Check :=
  if collecting then ⟨"metrics", .pass, "collecting"⟩
  else ⟨"metrics", .warn, "metrics disabled"⟩

/-- Checks the registered modules for cycles and references to files that are gone. -/
def checkRegistry (r : Registry) (isFile : Path → Bool) : Check :=
  let cycles := r.cycles.length
  let missing := (r.missing isFile).length
  if cycles = 0 && missing = 0 then ⟨"registry", .pass, s!"{r.size} modules registered"⟩
  else
    ⟨"registry", .warn, s!"{cycles} circular dependencies, {missing} missing dependencies"⟩

end Tarkib.Health
