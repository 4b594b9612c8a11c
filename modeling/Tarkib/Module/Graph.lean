import Tarkib.Config.Basic
import Tarkib.Error
import Tarkib.Module.Basic

/-!
# Graphs of modules

Loading a module means loading all modules that it depends on. They are met on a walk in depth: the
walk enters a module, follows its dependencies one after the other, and leaves it when all of them
have been followed. The modules are listed in the order in which they are left, so dependencies come
first, except where modules need each other in a circle.

The walk itself loads nothing. It goes on until it needs a module, and is then told the module.
-/

namespace Tarkib

/-- A module with everything it depends on. -/
structure Graph where
  entry : Module
  /-- All modules, dependencies first and the entry last. -/
  modules : List Module
  /-- The libraries of the host that are needed, in ascending order. -/
  externals : List String
  warnings : List String
  deriving Repr, DecidableEq, Inhabited

/-- The paths of the modules in order. -/
def Graph.paths (g : Graph) : List Path :=
  g.modules.map Module.id

/-- Adds a name to names in ascending order, unless it is there. -/
def insertName (name : String) : List String → List String
  | [] => [name]
  | other :: names =>
    if name < other then name :: other :: names
    else if name = other then other :: names
    else other :: insertName name names

namespace Walk

/-- A module on the current way, with the dependencies that are still to be followed. -/
structure Frame where
  node : Module
  rest : List Dependency
  deriving Repr, DecidableEq, Inhabited

end Walk

structure Walk where
  /-- The current way, the last module first. -/
  way : List Walk.Frame := []
  /-- The paths of the modules that were asked for. -/
  visited : List Path := []
  /-- The modules that were left, in order. -/
  modules : List Module := []
  externals : List String := []
  warnings : List String := []
  deriving Repr, DecidableEq, Inhabited

namespace Walk

/-- What a walk does next. -/
inductive Step where
  /-- It goes on by itself. -/
  | next (walk : Walk)
  | need (path : Path) (walk : Walk)
  /-- It has met modules that need each other in a circle, and that is an error. -/
  | circle (ids : List String)
  | over
  deriving Repr, DecidableEq, Inhabited

/-- The walk that starts with the module at a path, which it needs first. -/
def start (path : Path) : Walk :=
  { visited := [path] }

def enter (w : Walk) (m : Module) : Walk :=
  { w with way := ⟨m, m.dependencies⟩ :: w.way }

/-- Leaves a module, the rest of the way being `way`. -/
def leave (w : Walk) (m : Module) (way : List Frame) : Walk :=
  { w with
    way, modules := w.modules ++ [m]
    warnings := w.warnings ++ m.warnings.map fun text => m.id.text ++ ": " ++ text }

/-- The paths of the current way from the first module with the given path up to the last module. -/
def wayFrom (way : List Frame) (target : Path) : List Path :=
  (way.reverse.map fun f => f.node.id).dropWhile fun id => !id.same target

/-- The circle that a dependency of the last module on a module of the way closes. -/
def circleAt (way : List Frame) (target : Path) : List String :=
  (wayFrom way target ++ [target]).map Path.text

def isOn (way : List Frame) (target : Path) : Bool :=
  way.any fun f => f.node.id.same target

/-- Meets the module at `target` as a dependency of the last module. -/
def meet (policy : CyclePolicy) (w : Walk) (target : Path) : Step :=
  if isOn w.way target then
    match policy with
    | .error => .circle (circleAt w.way target)
    | .warn => .next { w with warnings := w.warnings ++ [circleMessage (circleAt w.way target)] }
    | .ignore => .next w
  else if w.visited.any target.same then .next w
  else .need target { w with visited := target :: w.visited }

def step (policy : CyclePolicy) (w : Walk) : Step :=
  match w.way with
  | [] => .over
  | ⟨m, []⟩ :: way => .next (w.leave m way)
  | ⟨m, d :: rest⟩ :: way =>
    let w := { w with way := ⟨m, rest⟩ :: way }
    match d.target with
    | .external name => .next { w with externals := insertName name w.externals }
    | .file target => meet policy w target

/-- The number of steps that a walk can go on by itself. -/
def pending (w : Walk) : Nat :=
  w.way.foldr (fun f n => f.rest.length + 1 + n) 0

/-- A walk that has met a module has the same way as before. -/
theorem way_of_meet {policy : CyclePolicy} {w w' : Walk} {target : Path}
    (h : meet policy w target = .next w') : w'.way = w.way := by
  unfold meet at h
  split at h
  · cases policy <;> simp at h <;> subst h <;> rfl
  · split at h
    · simp at h; subst h; rfl
    · simp at h

/-- Every step that a walk goes by itself brings it nearer to its end. -/
theorem pending_lt_of_step {policy : CyclePolicy} {w w' : Walk} (h : step policy w = .next w') :
    w'.pending < w.pending := by
  unfold step at h
  split at h
  · simp at h
  · next m way hw =>
    simp only [Step.next.injEq] at h
    subst h
    simp [pending, leave, hw]
  · next m d rest way hw =>
    simp only at h
    split at h
    · simp only [Step.next.injEq] at h
      subst h
      simp [pending, hw]
    · have := way_of_meet h
      simp [pending, hw, this]

inductive Pause where
  | need (path : Path) (walk : Walk)
  | circle (ids : List String)
  | over (walk : Walk)
  deriving Repr, DecidableEq, Inhabited

/-- Goes on until the walk needs a module or is over. -/
def advance (policy : CyclePolicy) (w : Walk) : Pause :=
  match _h : step policy w with
  | .next w' => advance policy w'
  | .need path w' => .need path w'
  | .circle ids => .circle ids
  | .over => .over w
termination_by w.pending
decreasing_by exact pending_lt_of_step (by assumption)

/-- The graph of a walk that is over and had started with the module `entry`. -/
def graph (w : Walk) (entry : Module) : Graph :=
  ⟨entry, w.modules, w.externals, w.warnings⟩

/-- Finishes a walk. `load` loads the module at a path in some state; the number bounds how many
modules are loaded. A circle that is an error is handed to `refuse`. -/
def finish {σ : Type} (policy : CyclePolicy) (load : σ → Path → σ × Except Error Module)
    (refuse : σ → σ) (entry : Module) : Nat → Walk → σ → σ × Except Error Graph
  | fuel, w, s =>
    match advance policy w with
    | .over w => (s, .ok (w.graph entry))
    | .circle ids => (refuse s, .error (.circle ids))
    | .need path w =>
      match fuel with
      | 0 => (s, .error (.load path (.unreadable .notFound)))
      | fuel + 1 =>
        match load s path with
        | (s, .error e) => (s, .error e)
        | (s, .ok m) => finish policy load refuse entry fuel (w.enter m) s

end Walk

end Tarkib
