import Tarkib.Path.Basic

/-!
# Modules

A module is a source file that was compiled, together with what it depends on. A dependency keeps
the specifier by which the code refers to it and what the specifier was found to mean: a file of the
project, or a library that is left to the host.
-/

namespace Tarkib

/-- What a specifier means. -/
inductive Resolved where
  | file (path : Path)
  /-- A library that is left to the host. -/
  | external (name : String)
  deriving Repr, DecidableEq, Inhabited

/-- The file that a specifier means, if it means one. -/
def Resolved.path? : Resolved → Option Path
  | .file path => some path
  | .external _ => none

/-- Whether a specifier means a library of the host. -/
def Resolved.isExternal : Resolved → Bool
  | .file _ => false
  | .external _ => true

/-- A reference from a module to another one. -/
structure Dependency where
  specifier : String
  target : Resolved
  deriving Repr, DecidableEq, Inhabited

/-- A compiled source file. -/
structure Module where
  /-- The canonical path of the file. -/
  id : Path
  source : String
  code : String
  sourceMap : Option String := none
  warnings : List String := []
  /-- The references in the order of their first occurrence, each specifier once. -/
  dependencies : List Dependency := []
  /-- What the clock showed when the module was built. -/
  loadedAt : Nat := 0
  deriving Repr, DecidableEq, Inhabited

namespace Module

def specifiers (m : Module) : List String :=
  m.dependencies.map Dependency.specifier

/-- The files that the module depends on. -/
def localTargets (m : Module) : List Path :=
  m.dependencies.filterMap fun d => d.target.path?

/-- The module depends on a file if one of its specifiers means the file. -/
theorem mem_localTargets {m : Module} {path : Path} :
    path ∈ m.localTargets ↔ ∃ d ∈ m.dependencies, d.target = .file path := by
  rw [localTargets, List.mem_filterMap]
  refine exists_congr fun d => and_congr_right fun _ => ?_
  cases d.target <;> simp [Resolved.path?]

/-- The memory in bytes that the module takes, roughly. -/
def size (m : Module) : Nat :=
  m.source.utf8ByteSize + m.code.utf8ByteSize + (m.sourceMap.map String.utf8ByteSize).getD 0

/-- The memory in bytes that modules take together. -/
def totalSize (ms : List Module) : Nat :=
  ms.foldr (fun m n => m.size + n) 0

end Module

end Tarkib
