/-!
# Limits on resources

Modules kept in memory and open files are counted against ceilings: a unit is taken before the work
starts and given back when it ends or fails. The memory of the process is sampled now and then, and
crossing one more of the warning thresholds is worth a notice.

Samples are taken on demand, or at regular times by a sampler. The sampler is a matter of times
only: it takes its first sample when time is first waited for, and then one after each interval.
-/

namespace Tarkib

/-- Ceilings, and how memory is watched. -/
structure Limits where
  maxMemoryBytes : Nat := 1073741824
  maxFileHandles : Nat := 256
  maxCachedModules : Nat := 10000
  checkIntervalMs : Nat := 5000
  /-- Percentages of the memory ceiling. -/
  warningThresholds : List Float := [80.0, 95.0]
  deriving Repr, Inhabited

/-- A rank of doubles in which negative zero comes before zero. -/
def Limits.rank (x : Float) : Int :=
  let bits := x.toBits.toNat
  if bits < 0x8000000000000000 then bits else (0x7fffffffffffffff : Int) - bits

/-- Thresholds in ascending order. -/
def Limits.sortThresholds (thresholds : List Float) : List Float :=
  thresholds.mergeSort fun a b => rank a ≤ rank b

/-- One sample of the memory in use. -/
structure MemoryUsage where
  usedBytes : Nat
  limitBytes : Nat
  percent : Float
  deriving Repr, Inhabited

/-- What is counted, and what was last seen of the memory. -/
structure Limiter where
  limits : Limits
  /-- The number of modules kept in memory or about to be. -/
  modules : Nat := 0
  /-- The number of open files. -/
  files : Nat := 0
  lastSample : Option MemoryUsage := none
  /-- How many thresholds the last sample had crossed. -/
  crossed : Nat := 0
  deriving Repr, Inhabited

namespace Limiter

/-- The limiter with the given limits that has counted nothing yet. -/
def ofLimits (limits : Limits) : Limiter :=
  { limits := { limits with warningThresholds := Limits.sortThresholds limits.warningThresholds } }

/-! ## Counters -/

/-- One more, if that does not exceed the ceiling. -/
def acquire? (n ceiling : Nat) : Option Nat :=
  if n < ceiling then some (n + 1) else none

/-- One more in a counter of 64 bits. -/
def increment (n : Nat) : Nat :=
  (n + 1) % 0x10000000000000000

def canLoadModule (l : Limiter) : Bool :=
  l.modules < l.limits.maxCachedModules

def canOpenFile (l : Limiter) : Bool :=
  l.files < l.limits.maxFileHandles

/-- Takes a unit for a module that is about to be kept. -/
def reserveModule? (l : Limiter) : Option Limiter :=
  (acquire? l.modules l.limits.maxCachedModules).map fun n => { l with modules := n }

/-- Takes a unit for a file that is about to be opened. -/
def openFile? (l : Limiter) : Option Limiter :=
  (acquire? l.files l.limits.maxFileHandles).map fun n => { l with files := n }

/-- Gives a unit for a module back; the count does not go below zero. -/
def releaseModule (l : Limiter) : Limiter :=
  { l with modules := l.modules - 1 }

/-- Gives a unit for a file back; the count does not go below zero. -/
def closeFile (l : Limiter) : Limiter :=
  { l with files := l.files - 1 }

def countModule (l : Limiter) : Limiter :=
  { l with modules := increment l.modules }

def countFile (l : Limiter) : Limiter :=
  { l with files := increment l.files }

/-- Sets the number of modules; a negative number counts as zero. -/
def setModules (l : Limiter) (count : Int) : Limiter :=
  { l with modules := count.toNat }

/-! ## Memory -/

/-- The memory in use as a part of the ceiling, which counts as at least one byte. -/
def usage (l : Limiter) (usedBytes : Nat) : MemoryUsage :=
  let limitBytes := max l.limits.maxMemoryBytes 1
  ⟨usedBytes, limitBytes, usedBytes.toUInt64.toFloat * 100.0 / limitBytes.toUInt64.toFloat⟩

/-- How many thresholds a percentage reaches. -/
def crossings (l : Limiter) (percent : Float) : Nat :=
  (l.limits.warningThresholds.filter (· ≤ percent)).length

/-- What a sample shows: the usage, if it is known, and whether more thresholds are crossed than
before. -/
structure Sample where
  usage? : Option MemoryUsage
  crossesMore : Bool
  deriving Repr, Inhabited

/-- Takes a sample, given the memory in use, if it is known. -/
def sample (l : Limiter) (usedBytes : Option Nat) : Limiter × Sample :=
  match usedBytes with
  | none => (l, ⟨none, false⟩)
  | some used =>
    let u := l.usage used
    let crossed := l.crossings u.percent
    ({ l with lastSample := some u, crossed }, ⟨some u, l.crossed < crossed⟩)

def memoryLimitName : String := "maxMemoryBytes"

end Limiter

/-! ## The sampler -/

/-- A sampler that has not been waited for, or the time of its next sample. -/
inductive Sampler where
  | idle
  | next (time : Nat)
  deriving Repr, DecidableEq, Inhabited

namespace Sampler

/-- The number of samples that are due from `time` on and before `stop`, at regular intervals. -/
def dueCount (interval time stop : Nat) : Nat :=
  if stop ≤ time then 0 else (stop - time - 1) / interval + 1

/-- Waits from `now` until `stop`. Returns the sampler and the number of samples it takes. A sample
that is due at the end of the time is left for the next wait. -/
def wait (interval now stop : Nat) (s : Sampler) : Sampler × Nat :=
  if interval = 0 || stop ≤ now then (s, 0)
  else
    let start := match s with
      | .idle => now
      | .next time => time
    let count := dueCount interval start stop
    (.next (start + count * interval), count)

end Sampler

end Tarkib
