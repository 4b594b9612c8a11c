import Tarkib.Decimal.Layout

/-!
# Metrics

Events are counted, and the durations of operations are gathered in histograms whose buckets count
all observations up to a bound. Everything can be written as a text for a monitoring system. Counts
are numbers; in words of 64 bits they are the same up to 2 ^ 64 events.
-/

namespace Tarkib

inductive Counter where
  | modulesLoaded
  | loadFailures
  | cacheHits
  | cacheMisses
  | cacheEvictions
  | bundles
  | bundleFailures
  | timeouts
  deriving Repr, DecidableEq, Inhabited

namespace Counter

/-- All counters in the order in which they are written. -/
def all : List Counter :=
  [.modulesLoaded, .loadFailures, .cacheHits, .cacheMisses, .cacheEvictions, .bundles,
    .bundleFailures, .timeouts]

def name : Counter → String
  | .modulesLoaded => "modules_loaded_total"
  | .loadFailures => "load_failures_total"
  | .cacheHits => "cache_hits_total"
  | .cacheMisses => "cache_misses_total"
  | .cacheEvictions => "cache_evictions_total"
  | .bundles => "bundles_total"
  | .bundleFailures => "bundle_failures_total"
  | .timeouts => "timeouts_total"

def help : Counter → String
  | .modulesLoaded => "Modules read and compiled"
  | .loadFailures => "Module loads that failed"
  | .cacheHits => "Module loads served from the cache"
  | .cacheMisses => "Module loads that required compilation"
  | .cacheEvictions => "Modules evicted from the cache"
  | .bundles => "Bundles produced"
  | .bundleFailures => "Bundle requests that failed"
  | .timeouts => "Operations that exceeded their timeout"

end Counter

/-- The bounds of the buckets in milliseconds. -/
def Histogram.bounds : List Nat := [10, 25, 50, 100, 250, 500, 1000, 2500, 5000, 10000]

/-- Observed durations. -/
structure Histogram where
  /-- For each bound the number of observations up to it. -/
  buckets : List Nat := Histogram.bounds.map fun _ => 0
  count : Nat := 0
  sumMicros : UInt64 := 0
  deriving Repr, DecidableEq, Inhabited

namespace Histogram

def milliseconds (nanos : Nat) : Float :=
  ((nanos / 1000000000).toUInt64.toFloat + (nanos % 1000000000).toUInt64.toFloat / 1e9) * 1000.0

/-- Adds a duration in nanoseconds. -/
def observe (h : Histogram) (nanos : Nat) : Histogram :=
  let ms := milliseconds nanos
  { buckets := (h.buckets.zip bounds).map fun (n, bound) =>
      if ms ≤ bound.toUInt64.toFloat then n + 1 else n
    count := h.count + 1
    sumMicros := h.sumMicros + (nanos / 1000).toUInt64 }

def sumMs (h : Histogram) : Float :=
  h.sumMicros.toFloat / 1000.0

end Histogram

/-- Counters and histograms. The histograms are in ascending order of their operations. -/
structure Metrics where
  counts : Counter → Nat := fun _ => 0
  durations : List (String × Histogram) := []

instance : Inhabited Metrics := ⟨{}⟩

namespace Metrics

def add (m : Metrics) (c : Counter) (times : Nat) : Metrics :=
  { m with counts := fun d => if d = c then m.counts d + times else m.counts d }

def increment (m : Metrics) (c : Counter) : Metrics :=
  m.add c 1

/-- Changes the histogram of an operation, which is empty at first. -/
def updateDuration (operation : String) (f : Histogram → Histogram) :
    List (String × Histogram) → List (String × Histogram)
  | [] => [(operation, f {})]
  | (name, h) :: rest =>
    if operation < name then (operation, f {}) :: (name, h) :: rest
    else if operation = name then (name, f h) :: rest
    else (name, h) :: updateDuration operation f rest

/-- Adds a duration of an operation, in nanoseconds. -/
def observe (m : Metrics) (operation : String) (nanos : Nat) : Metrics :=
  { m with durations := updateDuration operation (·.observe nanos) m.durations }

def histogram? (m : Metrics) (operation : String) : Option Histogram :=
  m.durations.lookup operation

/-! ## The text for a monitoring system -/

def counterLines (m : Metrics) (c : Counter) : List String :=
  let name := "somon_" ++ c.name
  [s!"# HELP {name} {c.help}", s!"# TYPE {name} counter", s!"{name} {m.counts c}"]

def durationName : String := "somon_operation_duration_ms"

def durationLine (part operation extra value : String) : String :=
  durationName ++ part ++ "\x7boperation=\"" ++ operation ++ "\"" ++ extra ++ "\x7d " ++ value

def durationLines (operation : String) (h : Histogram) : List String :=
  let bucket (bound : String) (n : Nat) : String :=
    durationLine "_bucket" operation (",le=\"" ++ bound ++ "\"") (Decimal.digitText n)
  (h.buckets.zip Histogram.bounds).map (fun (n, bound) => bucket (Decimal.digitText bound) n)
    ++ [bucket "+Inf" h.count,
        durationLine "_sum" operation "" (Decimal.plainText h.sumMs),
        durationLine "_count" operation "" (Decimal.digitText h.count)]

def lines (m : Metrics) : List String :=
  Counter.all.flatMap m.counterLines
    ++ [s!"# HELP {durationName} Operation duration in milliseconds",
        s!"# TYPE {durationName} histogram"]
    ++ m.durations.flatMap fun (operation, h) => durationLines operation h

/-- The text for a monitoring system. -/
def render (m : Metrics) : String :=
  String.join (m.lines.map (· ++ "\n"))

end Metrics

end Tarkib
