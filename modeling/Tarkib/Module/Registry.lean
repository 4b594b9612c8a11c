import Tarkib.Module.Basic

/-!
# The registry of modules

All modules that are loaded are registered under their paths. The registry can tell how they depend
on one another: which of them form cycles, and which files they refer to that are gone.

Cycles are looked for by walking along the dependencies in depth, starting from each module in order
and never entering a module twice. A dependency on a module of the current way closes a cycle, which
is written down starting from its smallest path.
-/

namespace Tarkib

/-- Modules by their paths, in the order of the paths. A path keeps the spelling under which a
module was first registered there. -/
structure Registry where
  entries : List (Path × Module) := []
  deriving Repr, DecidableEq, Inhabited

namespace Registry

/-! ## Entries -/

/-- Adds or replaces a module. -/
def insertEntry (m : Module) : List (Path × Module) → List (Path × Module)
  | [] => [(m.id, m)]
  | (key, old) :: rest =>
    match m.id.compare key with
    | .lt => (m.id, m) :: (key, old) :: rest
    | .eq => (key, m) :: rest
    | .gt => (key, old) :: insertEntry m rest

/-- Registers a module, in place of an earlier one with the same path. -/
def register (r : Registry) (m : Module) : Registry :=
  ⟨insertEntry m r.entries⟩

def find? (r : Registry) (id : Path) : Option Module :=
  (r.entries.find? fun e => e.1.same id).map Prod.snd

/-- Removes the module registered under a path. -/
def unregister (r : Registry) (id : Path) : Registry :=
  ⟨r.entries.filter fun e => !e.1.same id⟩

def ids (r : Registry) : List Path :=
  r.entries.map Prod.fst

/-- The number of registered modules. -/
def size (r : Registry) : Nat :=
  r.entries.length

def modules (r : Registry) : List Module :=
  r.entries.map Prod.snd

/-! ## Cycles -/

def among (paths : List Path) (p : Path) : Bool :=
  paths.any p.same

/-- The registered modules that the module at a path depends on. -/
def targets (r : Registry) (p : Path) : List Path :=
  match r.modules.find? fun m => m.id.same p with
  | none => []
  | some m => m.localTargets.filter (among (r.modules.map Module.id))

/-- A cycle, rotated so that it starts with its smallest path. -/
def rotate (cycle : List Path) : List Path :=
  match cycle with
  | [] => []
  | p :: ps =>
    let least := ps.foldl (fun least q => if (q.compare least).isLT then q else least) p
    cycle.dropWhile (fun q => !q.same least) ++ cycle.takeWhile (fun q => !q.same least)

/-- Whether two lists of paths are the same path by path. -/
def sameList : List Path → List Path → Bool
  | [], [] => true
  | p :: ps, q :: qs => p.same q && sameList ps qs
  | _, _ => false

/-- What a search has found so far. -/
structure Search where
  visited : List Path := []
  cycles : List (List Path) := []
  deriving Repr, DecidableEq, Inhabited

/-- Notes a cycle, unless it is known. -/
def Search.note (s : Search) (cycle : List Path) : Search :=
  let cycle := rotate cycle
  if s.cycles.any (sameList cycle) then s else { s with cycles := s.cycles ++ [cycle] }

/-- Notes that a module was entered. -/
def Search.enter (s : Search) (p : Path) : Search :=
  { s with visited := p :: s.visited }

/-- Follows the dependencies of the last module of a way, the last module first in `way`. The number
bounds how much longer the way may become. -/
def follow (r : Registry) : Nat → List Path → Search → Search
  | 0, _, s => s
  | _ + 1, [], s => s
  | n + 1, p :: way, s =>
    (r.targets p).foldl (fun s target =>
      if among (p :: way) target then
        let before := (p :: way).takeWhile fun q => !q.same target
        let start := ((p :: way).find? fun q => q.same target).toList
        s.note (start ++ before.reverse)
      else if among s.visited target then s
      else follow r n (target :: p :: way) (s.enter target)) s

/-- The distinct cycles of dependencies between registered modules that a search in depth meets. -/
def cycles (r : Registry) : List (List Path) :=
  let search := (r.modules.map Module.id).foldl (fun s p =>
    if among s.visited p then s else follow r (r.size + 1) [p] (s.enter p)) ({} : Search)
  search.cycles

/-! ## Missing files -/

/-- A reference to a file that is gone. -/
structure Missing where
  source : Path
  specifier : String
  target : Path
  deriving Repr, DecidableEq, Inhabited

/-- The references of registered modules to files that are gone. `isFile` tells which files are
there. -/
def missing (r : Registry) (isFile : Path → Bool) : List Missing :=
  r.entries.flatMap fun (id, m) =>
    m.dependencies.filterMap fun d =>
      match d.target with
      | .file target => if isFile target then none else some ⟨id, d.specifier, target⟩
      | .external _ => none

/-! ## Figures -/

/-- Figures about the registered modules. -/
structure Statistics where
  modules : Nat
  dependencies : Nat
  externalDependencies : Nat
  cycles : Nat
  deriving Repr, DecidableEq, Inhabited

def statistics (r : Registry) : Statistics :=
  let dependencies := r.modules.flatMap Module.dependencies
  ⟨r.size, dependencies.length, (dependencies.filter fun d => d.target.isExternal).length,
    r.cycles.length⟩

end Registry

end Tarkib
