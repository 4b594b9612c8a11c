import Tarkib.Proofs.Path.Components
import Tarkib.Project.Basic

/-!
# Canonical paths

Looking up a path leads from name to name, so the place that is found is a list of names, if the
working directory is one. No file can be read at the root.
-/

namespace Tarkib.Project

open Tarkib.Path Tarkib.Component List

/-! ## Steps of a path -/

variable {text step name : String} {directory todo place : List String} {p : Project}
  {path file : Path}

theorem eq_dot_or_of_mem_steps (member : step ∈ steps text) :
    step = "." ∨ ∃ segment ∈ segments text.toList, segment ≠ [] ∧ step = String.ofList segment := by
  have named : step ∈ ((segments text.toList).map String.ofList).filter (!·.isEmpty) →
      ∃ segment ∈ segments text.toList, segment ≠ [] ∧ step = String.ofList segment := by
    intro inside
    obtain ⟨listed, some⟩ := mem_filter.mp inside
    obtain ⟨segment, present, rfl⟩ := mem_map.mp listed
    refine ⟨segment, present, ?_, rfl⟩
    rintro rfl
    exact absurd some (by decide)
  unfold steps at member
  dsimp only at member
  split at member
  · rcases mem_append.mp member with inside | dot
    · exact .inr (named inside)
    · exact .inl (mem_singleton.mp dot)
  · exact .inr (named member)

theorem notMem_of_mem_steps (member : step ∈ steps text) : step ≠ "" ∧ '/' ∉ step.toList := by
  rcases eq_dot_or_of_mem_steps member with rfl | ⟨segment, present, some, rfl⟩
  · decide
  · rw [String.toList_ofList]
    exact ⟨by simpa using some, notMem_of_mem_segments present⟩

theorem isStep_name (some : name ≠ "") (free : '/' ∉ name.toList) (noDot : name ≠ ".")
    (noDots : name ≠ "..") : (Component.name name).IsStep := by
  refine ⟨free, ?_⟩
  have spelled : ∀ cs : List Char, name.toList = cs → name = String.ofList cs := by
    rintro cs rfl
    exact String.ofList_toList.symm
  unfold ofSegment?
  split
  · next empty => exact absurd (spelled _ empty) some
  · next dot => exact absurd (spelled _ dot) noDot
  · next dots => exact absurd (spelled _ dots) noDots
  · exact congrArg (fun s => Option.some (Component.name s)) String.ofList_toList

theorem forall_mem_concat (names : ∀ name ∈ directory, (Component.name name).IsStep)
    (spelled : ∀ step ∈ name :: todo, step ≠ "" ∧ '/' ∉ step.toList) (noDot : name ≠ ".")
    (noDots : name ≠ "..") : ∀ other ∈ directory ++ [name], (Component.name other).IsStep := by
  intro other member
  rcases mem_append.mp member with inside | last
  · exact names other inside
  · obtain ⟨some, free⟩ := spelled name (mem_cons_self ..)
    rw [mem_singleton.mp last]
    exact isStep_name some free noDot noDots

/-- What is found is a list of names. -/
theorem isStep_of_follow {links : Nat} (found : p.follow links directory todo = .ok place)
    (names : ∀ name ∈ directory, (Component.name name).IsStep)
    (spelled : ∀ step ∈ todo, step ≠ "" ∧ '/' ∉ step.toList) :
    ∀ name ∈ place, (Component.name name).IsStep := by
  fun_induction follow p links directory todo with
  | case1 links directory =>
    cases found
    exact names
  | case2 links directory todo ih =>
    exact ih found names (forall_mem_cons.mp spelled).2
  | case3 links directory todo ih =>
    exact ih found (fun name member => names name (dropLast_subset _ member))
      (forall_mem_cons.mp spelled).2
  | case4 => cases found
  | case5 => cases found
  | case6 links directory name todo noDot noDots short there ih =>
    exact ih found (forall_mem_concat names spelled noDot noDots)
      (forall_mem_cons.mp spelled).2
  | case7 links directory name todo noDot noDots =>
    cases found
    exact forall_mem_concat names spelled noDot noDots
  | case8 => cases found
  | case9 => cases found
  | case10 directory name todo noDot noDots short target links there ih =>
    refine ih found ?_ ?_
    · intro name member
      unfold startOf at member
      split at member
      · exact absurd member not_mem_nil
      · exact names name member
    · intro step member
      rcases mem_append.mp member with inside | later
      · exact notMem_of_mem_steps inside
      · exact (forall_mem_cons.mp spelled).2 step later

/-! ## Canonical paths -/

/-- The working directory is a list of names, as every place is. -/
def WellPlaced (p : Project) : Prop :=
  ∀ directory, p.workingDirectory = some directory →
    ∀ name ∈ directory, (Component.name name).IsStep

theorem wellPlaced_of_root (root : p.workingDirectory = some []) : p.WellPlaced := by
  intro directory known name member
  rw [root] at known
  cases known
  cases member

theorem components_pathOf (steps : ∀ name ∈ place, (Component.name name).IsStep) :
    (pathOf place).components = .root :: place.map .name := by
  have spelled : pathOf place = ofComponents (.root :: place.map .name) := by
    rw [ofComponents, textOf, map_map, pathOf]
    have same : Component.text ∘ Component.name = id := rfl
    rw [same, map_id]
  rw [spelled]
  exact components_ofComponents (forall_mem_map.mpr steps)

theorem isAbsolute_pathOf (place : List String) : (pathOf place).isAbsolute = true := by
  unfold pathOf isAbsolute
  rw [String.toList_append]
  rfl

theorem canonical_eq_ok (found : p.canonical path = .ok file) :
    ∃ place, p.locate path = .ok place ∧ file = pathOf place := by
  unfold canonical at found
  cases located : p.locate path with
  | error fault =>
    rw [located] at found
    cases found
  | ok place =>
    rw [located] at found
    cases found
    exact ⟨place, rfl, rfl⟩

theorem exists_place_of_canonical (there : p.isFile path = true)
    (found : p.canonical path = .ok file) :
    ∃ place content, p.locate path = .ok place ∧ p.node? place = some (.file content) ∧
      file = pathOf place := by
  obtain ⟨place, located, rfl⟩ := canonical_eq_ok found
  unfold isFile target? at there
  rw [located] at there
  dsimp only at there
  split at there
  · next content here => exact ⟨place, content, located, here, rfl⟩
  · cases there

theorem isAbsolute_of_canonical (found : p.canonical path = .ok file) : file.isAbsolute = true := by
  obtain ⟨place, _, rfl⟩ := canonical_eq_ok found
  exact isAbsolute_pathOf place

theorem isStep_of_locate (placed : p.WellPlaced) (found : p.locate path = .ok place) :
    ∀ name ∈ place, (Component.name name).IsStep := by
  unfold locate at found
  cases allowed : checkPath path with
  | error fault =>
    rw [allowed] at found
    cases found
  | ok =>
    rw [allowed] at found
    cases based : p.baseOf path with
    | error fault =>
      rw [based] at found
      cases found
    | ok base =>
      rw [based] at found
      refine isStep_of_follow found ?_ fun step member => notMem_of_mem_steps member
      unfold baseOf at based
      split at based
      · cases based
        intro name member
        exact absurd member not_mem_nil
      · cases known : p.workingDirectory with
        | none =>
          rw [known] at based
          cases based
        | some directory =>
          rw [known] at based
          cases based
          exact placed _ known

/-- Its path is absolute, has the names as its components and no dots. -/
theorem components_of_canonical (placed : p.WellPlaced) (found : p.canonical path = .ok file) :
    ∃ place : List String, file.components = .root :: place.map .name := by
  obtain ⟨place, located, rfl⟩ := canonical_eq_ok found
  exact ⟨place, components_pathOf (isStep_of_locate placed located)⟩

/-! ## The root is no file -/

theorem follow_dots (p : Project) (links : Nat) (directory : List String)
    (dots : ∀ step ∈ todo, step = ".") : p.follow links directory todo = .ok directory := by
  induction todo with
  | nil => rw [follow]
  | cons step todo ih =>
    obtain ⟨rfl, later⟩ := forall_mem_cons.mp dots
    rw [follow]
    exact ih later

theorem eq_dot_of_mem_steps (root : path.components = [.root]) (member : step ∈ steps path.text) :
    step = "." := by
  have absolute : path.isAbsolute = true := by
    rw [isAbsolute_iff, root]
    rfl
  have idle : (segments path.text.toList).filterMap ofSegment? = [] := by
    rw [components_of_isAbsolute absolute] at root
    exact (List.cons.inj root).2
  rcases eq_dot_or_of_mem_steps member with dot | ⟨segment, present, some, rfl⟩
  · exact dot
  · have none := ofSegment?_eq_none_iff.mp (filterMap_eq_nil_iff.mp idle segment present)
    simp_all [counts]

theorem components_of_read {content : ByteArray} (found : p.read path = .ok content) :
    path.components ≠ [.root] := by
  intro root
  have absolute : path.isAbsolute = true := by
    rw [isAbsolute_iff, root]
    rfl
  have located : p.locate path = .ok [] ∨ ∃ fault, p.locate path = .error fault := by
    unfold locate baseOf
    rw [if_pos absolute]
    cases checkPath path with
    | error fault => exact .inr ⟨fault, rfl⟩
    | ok => exact .inl (follow_dots p linkLimit [] fun step => eq_dot_of_mem_steps root)
  unfold read at found
  rcases located with located | ⟨fault, located⟩ <;> rw [located] at found <;> cases found

end Tarkib.Project
