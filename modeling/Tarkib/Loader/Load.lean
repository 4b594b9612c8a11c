import Tarkib.Loader.Attempt
import Tarkib.Module.Graph

/-!
# Loading

A file is loaded unless its module is kept. A module is loaded with everything it depends on. A
specifier is resolved first, behind a breaker of its own.
-/

namespace Tarkib

/-- What a specifier was found to stand for. -/
inductive Loaded where
  | graph (graph : Graph)
  /-- A library that is left to the host. -/
  | external (name : String)
  deriving Repr, DecidableEq, Inhabited

namespace Loader

/-- Loads the module at a path without its dependencies. -/
def loadFile (l : Loader) (project : Project) (now : Nat) (path : Path) :
    Loader × Except Error Module :=
  match l.cached? path with
  | some m => (l.count .cacheHits, .ok m)
  | none =>
    match l.attempt project now path with
    | (l, .ok m) => ((l.commit m).settle path, .ok m)
    | (l, .error e) => (l.count .loadFailures, .error e)

/-- The most modules that a walk can load: the first one, those in the project, and those that a
module which is kept refers to. The latter were in the project when that module was loaded, and may
be reached by other ways today. -/
def reach (l : Loader) (project : Project) : Nat :=
  project.nodes.length + (l.cache.flatMap Module.localTargets).length + 1

/-- Loads the module at a path with everything it depends on. -/
def loadGraph (l : Loader) (project : Project) (now : Nat) (path : Path) :
    Loader × Except Error Graph :=
  match l.loadFile project now path with
  | (l, .error e) => (l, .error e)
  | (l, .ok entry) =>
    Walk.finish l.loading.cyclePolicy (fun l path => l.loadFile project now path)
      (fun l => l.count .loadFailures) entry (l.reach project) ((Walk.start path).enter entry) l

/-- Resolves a specifier behind its breaker. A failure is counted. -/
def resolve (l : Loader) (project : Project) (now : Nat) (specifier : String) (directory : Path) :
    Loader × Except Error Resolved :=
  match l.ask (Specifier.key specifier directory) now with
  | (l, .error e) => (l.count .loadFailures, .error e)
  | (l, .ok ticket) =>
    match l.resolution.resolve project specifier directory with
    | .ok target => (l.report ticket true now, .ok target)
    | .error e => ((l.report ticket false now).count .loadFailures, .error e)

/-- Loads what a specifier in a module of the given directory stands for. -/
def load (l : Loader) (project : Project) (now : Nat) (specifier : String) (directory : Path) :
    Loader × Except Error Loaded :=
  match l.resolve project now specifier directory with
  | (l, .error e) => (l, .error e)
  | (l, .ok (.external name)) => (l, .ok (.external name))
  | (l, .ok (.file path)) =>
    match l.loadGraph project now path with
    | (l, .error e) => (l, .error e)
    | (l, .ok g) => (l.observe "load", .ok (.graph g))

end Loader

end Tarkib
