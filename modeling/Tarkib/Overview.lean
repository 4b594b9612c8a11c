import Tarkib.Health
import Tarkib.Module.Graph

/-!
# What can be seen of a running system

Figures, health and breakers are shown as JSON documents, to whoever manages the system and on the
command line.
-/

namespace Tarkib

open Json (Value)

def document (members : List (String × Value)) : Value :=
  .ofMembers members

def double (x : Float) : Value :=
  .number (.double x)

/-! ## Health -/

def Health.Check.document (c : Health.Check) : Value :=
  Tarkib.document
    [("name", .string c.name), ("status", .string c.grade.name), ("message", .string c.message)]

def Health.Report.document (r : Health.Report) : Value :=
  Tarkib.document
    [("status", .string r.status.name), ("version", .string Health.Report.version),
     ("checks", .array (r.checks.map Health.Check.document))]

/-! ## Breakers -/

def Breakers.Status.document (s : Breakers.Status) : Value :=
  Tarkib.document
    [("key", .string s.key), ("state", .string s.state.name), ("failureCount", .nat s.failures),
     ("failureRate", double s.failureRate),
     ("nextRetryInMs", (s.retryInMs.map Value.nat).getD .null)]

def Breakers.Summary.document (s : Breakers.Summary) : Value :=
  Tarkib.document
    [("total", .nat s.total), ("open", .nat s.opened), ("halfOpen", .nat s.halfOpen),
     ("healthy", .nat s.closed)]

/-! ## Metrics and resources -/

def Histogram.document (h : Histogram) : Value :=
  Tarkib.document
    [("buckets", .array ((bounds.zip h.buckets).map fun (bound, n) => .array [.nat bound, .nat n])),
     ("count", .nat h.count), ("sumMs", double h.sumMs)]

/-- Counters and histograms as a document. -/
def Metrics.document (m : Metrics) : Value :=
  Tarkib.document
    [("counters", Tarkib.document (Counter.all.map fun c => (c.name, .nat (m.counts c)))),
     ("durations", Tarkib.document (m.durations.map fun (name, h) => (name, h.document)))]

def MemoryUsage.document (u : MemoryUsage) : Value :=
  Tarkib.document
    [("usedBytes", .nat u.usedBytes), ("limitBytes", .nat u.limitBytes),
     ("percent", double u.percent)]

def Limiter.document (l : Limiter) (monitoring : Bool) : Value :=
  Tarkib.document
    [("cachedModules", .nat l.modules), ("maxCachedModules", .nat l.limits.maxCachedModules),
     ("fileHandles", .nat l.files), ("maxFileHandles", .nat l.limits.maxFileHandles),
     ("memory", (l.lastSample.map MemoryUsage.document).getD .null),
     ("monitoring", .bool monitoring)]

def Registry.Statistics.members (s : Registry.Statistics) : List (String × Value) :=
  [("totalModules", .nat s.modules), ("totalDependencies", .nat s.dependencies),
   ("externalDependencies", .nat s.externalDependencies),
   ("circularDependencyCount", .nat s.cycles)]

/-! ## All figures -/

/-- The figures of all parts of a system. -/
structure Statistics where
  registry : Registry.Statistics
  cachedModules : Nat
  cacheBytes : Nat
  activeWatchers : Nat
  /-- What the limiter has counted, and whether memory is sampled regularly. -/
  resources : Option (Limiter × Bool)
  breakers : Option Breakers.Summary
  metrics : Option Metrics
  deriving Inhabited

def Statistics.document (s : Statistics) : Value :=
  let optional (key : String) (v : Option Value) : List (String × Value) :=
    (v.map fun v => (key, v)).toList
  Tarkib.document <|
    s.registry.members ++
    [("circularDependencies", .nat s.registry.cycles), ("cachedModules", .nat s.cachedModules),
     ("cacheMemoryBytes", .nat s.cacheBytes), ("activeWatchers", .nat s.activeWatchers)] ++
    optional "resources" (s.resources.map fun (l, monitoring) => l.document monitoring) ++
    optional "circuitBreakers" (s.breakers.map Breakers.Summary.document) ++
    optional "metrics" (s.metrics.map Metrics.document)

end Tarkib
