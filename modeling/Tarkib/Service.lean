import Tarkib.Bundle.Basic
import Tarkib.Config.Load
import Tarkib.Loader.Together
import Tarkib.Overview
import Tarkib.Watch

/-!
# The service

A service offers everything behind one configuration: compiling, bundling, loading, watching and a
look at its own state. After it was shut down it refuses all work and holds nothing.

Every operation is told the project and the time. Work takes no time here, so the limit on the
duration of operations is never exceeded.
-/

namespace Tarkib

structure Service where
  config : Config
  loader : Loader
  sessions : List (Nat × Watch.Session) := []
  nextSession : Nat := 0
  /-- Whether the management server runs. -/
  serving : Bool := false
  /-- Whether memory is sampled regularly. -/
  monitoring : Bool := false
  isShutDown : Bool := false
  deriving Inhabited

structure Compiled where
  id : Path
  code : String
  /-- The specifiers of its references in order. -/
  dependencies : List String
  deriving Repr, DecidableEq, Inhabited

/-- The result of compiling a module with everything it depends on. -/
structure Compilation where
  modules : List Compiled
  entry : Path
  /-- The libraries of the host that are needed. -/
  externals : List String
  /-- References of modules that were kept to files that are gone. -/
  errors : List String
  warnings : List String
  deriving Repr, DecidableEq, Inhabited

namespace Service

/-- Starts a service, if its configuration is in order. -/
def start (config : Config) (monitoring : Bool) : Except Error Service := do
  config.check
  return { config, loader := .ofConfig config
           monitoring := monitoring && config.resourceLimits.isSome }

/-! ## Memory -/

/-- The share of memory from which on everything that is kept is dropped. -/
def critical? (l : Limiter) : Option Float :=
  l.limits.warningThresholds.getLast?

/-- Takes a sample of the memory in use. If more thresholds are crossed than before, and the last
one is among them, all modules are dropped. -/
def sample (s : Service) (memory : Option Nat) : Service × Option MemoryUsage :=
  match s.loader.limiter with
  | none => (s, none)
  | some limiter =>
    let (limiter, seen) := limiter.sample memory
    let loader := { s.loader with limiter := some limiter }
    match seen.usage? with
    | none => ({ s with loader }, none)
    | some usage =>
      let isCritical := seen.crossesMore && (critical? limiter).any (· ≤ usage.percent)
      ({ s with loader := if isCritical then loader.clear.1 else loader }, some usage)

/-! ## Work -/

def absolute (project : Project) (path : Path) : Except Error Path :=
  if path.isAbsolute then .ok path
  else
    match project.workingDirectory with
    | some directory => .ok ((Project.pathOf directory).join path.text)
    | none => .error (.unreadable .notFound)

/-- Does work with the loader, unless the service was shut down. Work takes no time, so no limit on
its time cuts it off. -/
def work {α : Type} (s : Service) (f : Loader → Loader × Except Error α) :
    Service × Except Error α :=
  if s.isShutDown then (s, .error .shutDown)
  else
    match f s.loader with
    | (loader, result) => ({ s with loader }, result)

def loadEntry (project : Project) (now : Nat) (path : Path) (l : Loader) :
    Loader × Except Error Graph :=
  match absolute project path with
  | .error e => (l, .error e)
  | .ok path =>
    let directory := path.parent?.getD path
    match l.load project now path.text directory with
    | (l, .error e) => (l, .error e)
    | (l, .ok (.graph g)) => (l, .ok g)
    | (l, .ok (.external name)) => (l, .error (.resolution name directory))

/-- The wording of a reference to a file that is gone, in the result of compiling. -/
def goneMessage (m : Registry.Missing) : String :=
  s!"'{m.specifier}' imported by '{m.source.text}' no longer exists at '{m.target.text}'"

def compilation (l : Loader) (project : Project) (g : Graph) : Compilation where
  modules := g.modules.map fun m => ⟨m.id, m.code, m.specifiers⟩
  entry := g.entry.id
  externals := g.externals
  errors := ((l.registry.missing project.isFile).filter fun m => g.paths.any m.source.same).map
    goneMessage
  warnings := g.warnings

/-- Compiles a module with everything it depends on. -/
def compile (s : Service) (project : Project) (now : Nat) (path : Path) :
    Service × Except Error Compilation :=
  s.work fun l =>
    match loadEntry project now path l with
    | (l, .error e) => (l, .error e)
    | (l, .ok g) => (l, .ok (compilation l project g))

/-- Bundles a module with everything it depends on. Every request is counted. -/
def bundle (s : Service) (project : Project) (now : Nat) (request : Bundle.Request) :
    Service × Except Error Bundle :=
  match s.work fun l => l.bundle project now request with
  | (s, .ok b) => ({ s with loader := (s.loader.count .bundles).observe "bundle" }, .ok b)
  | (s, .error e) =>
    ({ s with loader := (s.loader.count .bundleFailures).observe "bundle" }, .error e)

def load (s : Service) (project : Project) (now : Nat) (specifier : String) (directory : Path) :
    Service × Except Error Loaded :=
  s.work fun l => l.load project now specifier directory

/-- Loads what several specifiers stand for, all together. -/
def loadAll (s : Service) (project : Project) (now : Nat) (specifiers : List String)
    (directory : Path) : Service × List (Except Error Loaded) :=
  if s.isShutDown then (s, specifiers.map fun _ => .error .shutDown)
  else
    let (loader, results) := s.loader.loadAll project now specifiers directory
    ({ s with loader }, results)

/-! ## Watching -/

/-- The paths to watch for an entry: those of all modules it depends on, or, if it cannot be loaded,
its own. -/
def watchPaths (project : Project) (now : Nat) (path : Path) (l : Loader) :
    Loader × Except Error (List Path) :=
  match loadEntry project now path l with
  | (l, .ok g) => (l, .ok g.paths)
  | (l, .error _) => (l, (absolute project path).map fun p => [p])

/-- Starts to watch an entry. Returns the number of the session. -/
def watch (s : Service) (project : Project) (now : Nat) (path : Path) :
    Service × Except Error (Nat × Watch.Session) :=
  match s.work (watchPaths project now path) with
  | (s, .error e) => (s, .error e)
  | (s, .ok paths) =>
    let session := Watch.Session.start project paths
    ({ s with
        sessions := s.sessions ++ [(s.nextSession, session)], nextSession := s.nextSession + 1 },
      .ok (s.nextSession, session))

/-- Tells all sessions of a change of the project. -/
def hear (s : Service) (signals : List Watch.Signal) : Service :=
  { s with sessions := s.sessions.map fun (n, session) => (n, (session.hear signals).1) }

/-- Closes a session. A session that is no longer held was closed before. -/
def closeSession (s : Service) (number : Nat) : Service × Except Error Unit :=
  match s.sessions.lookup number with
  | none => (s, .ok ())
  | some session =>
    let (session, result) := session.close
    ({ s with sessions := s.sessions.map fun (n, old) => (n, if n = number then session else old) },
      result)

def isClosed (s : Service) (number : Nat) : Bool :=
  ((s.sessions.lookup number).map Watch.Session.closed).getD true

def openSessions (s : Service) : List (Nat × Watch.Session) :=
  s.sessions.filter fun e => !e.2.closed

/-- Closes all sessions. Returns how many were open. -/
def stopWatching (s : Service) : Service × Nat :=
  ({ s with sessions := [] }, s.openSessions.length)

/-! ## State -/

/-- The wording of the modules that need each other in a circle. -/
def cycleText (cycle : List Path) : String :=
  circleMessage ((cycle ++ cycle.take 1).map Path.text)

/-- The wording of a reference to a file that is gone. -/
def missingText (m : Registry.Missing) : String :=
  s!"Missing dependency '{m.specifier}' of '{m.source.text}' (expected at '{m.target.text}')"

/-- What is wrong with the registered modules. -/
def problems (s : Service) (project : Project) : List String :=
  s.loader.registry.cycles.map cycleText ++
    (s.loader.registry.missing project.isFile).map missingText

/-- The figures of all parts. -/
def statistics (s : Service) (now : Nat) : Statistics where
  registry := s.loader.registry.statistics
  cachedModules := s.loader.cache.length
  cacheBytes := s.loader.cacheBytes
  activeWatchers := s.openSessions.length
  resources := s.loader.limiter.map fun l => (l, s.monitoring)
  breakers := s.loader.breakers.map (·.summary now)
  metrics := s.loader.metrics

/-- The checks of all parts; `usage?` is a sample of the memory that was just taken. -/
def checks (s : Service) (project : Project) (now : Nat) (usage? : Option MemoryUsage) :
    Except Health.Panic (List Health.Check) := do
  let cache ← Health.checkModuleCache s.loader.limiter s.loader.cache.length
  return (if s.isShutDown then [⟨"lifecycle", .fail, "shut down"⟩] else []) ++
    [Health.checkMemory s.loader.limiter usage?,
     cache,
     Health.checkBreakers s.loader.breakers now,
     Health.checkMetrics s.loader.metrics.isSome,
     Health.checkRegistry s.loader.registry project.isFile] ++
    (if s.config.managementServer && !s.serving then
      [⟨"managementServer", .warn, "enabled but not running"⟩] else [])

/-- The health of all parts. The memory in use is sampled. -/
def health (s : Service) (project : Project) (now : Nat) (memory : Option Nat) :
    Service × Except Health.Panic Health.Report :=
  let (s, usage?) := s.sample memory
  (s, (s.checks project now usage?).map .ofChecks)

/-- Drops the module that is kept for a path. Tells whether there was one. -/
def invalidate (s : Service) (path : Path) : Service × Bool :=
  let (loader, found) := s.loader.invalidate path
  ({ s with loader }, found)

/-- Drops all modules. Returns how many were kept. -/
def clear (s : Service) : Service × Nat :=
  let (loader, count) := s.loader.clear
  ({ s with loader }, count)

/-! ## Life cycle -/

/-- Starts the management server. -/
def serve (s : Service) : Except Error Service :=
  if s.isShutDown then .error .shutDown
  else if !s.config.managementServer then .error .serverDisabled
  else .ok { s with serving := true }

/-- Stops everything and drops all that is held. -/
def shutDown (s : Service) : Service :=
  let s := s.stopWatching.1
  let loader := s.loader.clear.1
  let loader := { loader with
    breakers := loader.breakers.map Breakers.clear
    limiter := loader.limiter.map (·.setModules 0) }
  { s with loader, serving := false, monitoring := false, isShutDown := true }

end Service

end Tarkib
