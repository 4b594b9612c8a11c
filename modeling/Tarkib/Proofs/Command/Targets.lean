import Tarkib.Command.Run
import Tarkib.Proofs.Bundle.Outcome
import Tarkib.Proofs.Loader.Placing
import Tarkib.Proofs.Project.Following

/-!
# Where compiled modules are written

The modules of a compilation are files in a tree, and so is the entry (`Laid`). A module that lies
in the directory of the entry is written to the same place below the output directory, with another
extension; any other module has no target. For files there is nothing in between: only a directory
could be the directory of the entry itself or one above it.
-/

namespace Tarkib

open List

/-- Two paths that differ at most in the extensions of their last names. -/
def Path.Twins (p q : Path) : Prop :=
  p.components.dropLast = q.components.dropLast ∧
    p.fileName?.map (fun name => (splitExtension name).1) =
      q.fileName?.map (fun name => (splitExtension name).1)

namespace Command

open Tarkib.Path Component

/-- The directory of the entry of a compilation. -/
def rootOf (c : Compilation) : Path :=
  c.entry.parent?.getD c.entry

/-- The module lies in the directory or below. -/
def LiesIn (root : Path) (m : Compiled) : Prop :=
  root.components <+: m.id.components

/-! ## The text of a way -/

theorem exists_dropPrefix? (front text : String) :
    ∃ rest, (front ++ text).dropPrefix? front = some rest ∧ rest.toString = text := by
  cases dropped : (front ++ text).dropPrefix? front with
  | none =>
    rw [String.dropPrefix?_eq_dropPrefix?_toSlice, String.Slice.dropPrefix?_eq_none_iff,
      ← Bool.not_eq_true, String.Slice.startsWith_string_iff, String.copy_toSlice,
      String.toList_append] at dropped
    exact absurd (prefix_append _ _) dropped
  | some rest =>
    refine ⟨rest, rfl, ?_⟩
    have whole := String.eq_append_of_dropPrefix?_string_eq_some dropped
    exact (String.append_right_inj front).mp whole.symm

theorem dropPrefix?_eq_none {front text : String} (other : ¬ front.toList <+: text.toList) :
    text.dropPrefix? front = none := by
  rw [String.dropPrefix?_eq_dropPrefix?_toSlice, String.Slice.dropPrefix?_eq_none_iff,
    ← Bool.not_eq_true, String.Slice.startsWith_string_iff, String.copy_toSlice]
  exact other

theorem startsWith_of_names {names : List String} (some : names ≠ [])
    (steps : ∀ name ∈ names, (Component.name name).IsStep) :
    (String.intercalate "/" names).startsWith "../" = false := by
  rw [String.startsWith_string_eq_false_iff]
  rintro ⟨rest, spelled⟩
  have way := segments_intercalate steps some
  obtain ⟨name, others, rfl⟩ := exists_cons_of_ne_nil some
  have dots : segments (String.intercalate "/" (name :: others)).toList =
      ['.', '.'] :: segments rest := by
    rw [← spelled]
    exact segments_append_slash (s := ['.', '.']) (by decide) rest
  rw [dots] at way
  have read := (steps name mem_cons_self).2
  rw [Component.text, ← (List.cons.inj way).1] at read
  cases read

/-! ## Targets -/

section Target

variable {root : Path} {m : Compiled} {base rest : List String}

/-- The target of a module below the directory of the entry. -/
theorem target?_of_append (outDir : Path) (above : root.components = .root :: base.map .name)
    (below : m.id.components = .root :: (base ++ rest).map .name) (some : rest ≠ [])
    (steps : ∀ name ∈ rest, (Component.name name).IsStep) :
    target? root outDir m =
      .some ((outDir.join (String.intercalate "/" rest)).withExtension "js") := by
  have way : m.id.relativeTo? root = .some (rest.map .name) := by
    rw [map_append, ← cons_append] at below
    rw [relativeTo?_eq_wayBetween rfl below (by rw [above, append_nil]), wayBetween,
      Option.map_some, dropInnerDots_of_notMem]
    simp
  have texts : (rest.map Component.name).map Component.text = rest := by
    rw [map_map]
    exact map_id rest
  have id : Bundle.id? root m.id = .some ("./" ++ String.intercalate "/" rest) := by
    rw [Bundle.id?_eq, way, Option.map_some]
    dsimp only
    rw [texts, startsWith_of_names some steps, if_neg Bool.false_ne_true]
  obtain ⟨slice, dropped, text⟩ := exists_dropPrefix? "./" (String.intercalate "/" rest)
  rw [target?, id]
  simp only [bind, Option.bind, dropped, text, pure]

/-- A module outside of that directory has none. -/
theorem target?_of_up (outDir : Path) {first : Component} {more : List Component}
    (way : m.id.relativeTo? root = some (.up :: first :: more)) : target? root outDir m = none := by
  obtain ⟨text, spelled⟩ : ∃ text, String.intercalate "/"
      ((Component.up :: first :: more).map Component.text) = "../" ++ text := by
    rw [map_cons, map_cons, String.intercalate_cons_cons]
    exact ⟨_, String.append_assoc⟩
  have chars : ("../" ++ text).toList = '.' :: '.' :: '/' :: text.toList := by
    rw [String.toList_append]
    rfl
  have leads : ("../" ++ text).startsWith "../" = true := by
    rw [String.startsWith_string_iff, String.toList_append]
    exact prefix_append _ _
  have id : Bundle.id? root m.id = some ("../" ++ text) := by
    rw [Bundle.id?_eq, way, Option.map_some]
    dsimp only
    rw [spelled, leads, if_pos rfl]
  have other : ¬ "./".toList <+: ("../" ++ text).toList := by
    rw [chars]
    rintro ⟨rest, wrong⟩
    cases wrong
  rw [target?, id]
  simp only [bind, Option.bind, dropPrefix?_eq_none other]

end Target

/-! ## The files of a compilation -/

/-- The entry and the modules of a compilation are files in a tree. -/
structure Laid (p : Project) (c : Compilation) : Prop extends c.Stored p where
  tree : p.IsTree

theorem prefix_of_map_name {front place : List String}
    (start : front.map Component.name <+: place.map .name) : front <+: place := by
  obtain ⟨names, begins, same⟩ := prefix_map_iff.mp start
  rwa [map_name_injective same]

namespace Laid

variable {p : Project} {c : Compilation} {m n : Compiled}

theorem exists_root (laid : Laid p c) :
    ∃ base, (rootOf c).components = .root :: base.map .name ∧
      ∀ place, place <+: base → p.node? place = some .directory := by
  obtain ⟨place, content, parts, _, there⟩ := laid.entry
  have deep : place ≠ [] := by
    rintro rfl
    cases there
  obtain ⟨base, last, rfl⟩ := (eq_nil_or_concat' place).resolve_left deep
  have absolute : c.entry.isAbsolute = true := by
    rw [isAbsolute_iff, parts, head?_cons]
  obtain ⟨root, above, components⟩ := exists_parent? absolute (by rw [parts]; simp)
  refine ⟨base, ?_, ?_⟩
  · rw [rootOf, above, Option.getD_some, components, parts, map_append, map_singleton,
      ← cons_append, dropLast_concat]
  · rintro front ⟨rest, rfl⟩
    rw [append_assoc] at there
    exact laid.tree.directory_of_append (by simp) there

/-- A module lies below the directory of the entry, or the way to it starts with two dots and goes
on. -/
theorem cases_module (laid : Laid p c) (member : m ∈ c.modules) {base : List String}
    (above : (rootOf c).components = .root :: base.map .name)
    (directories : ∀ place, place <+: base → p.node? place = some .directory) :
    (∃ rest, rest ≠ [] ∧ (∀ name ∈ rest, (Component.name name).IsStep) ∧
        m.id.components = .root :: (base ++ rest).map .name) ∨
      ¬ LiesIn (rootOf c) m ∧ ∃ first more,
        m.id.relativeTo? (rootOf c) = some (.up :: first :: more) := by
  obtain ⟨place, content, parts, steps, there⟩ := laid.modules m member
  by_cases below : base <+: place
  · obtain ⟨rest, rfl⟩ := below
    refine .inl ⟨rest, ?_, fun name inside => steps name (mem_append_right _ inside), parts⟩
    rintro rfl
    rw [append_nil, directories base (prefix_refl base)] at there
    cases there
  · refine .inr ⟨?_, ?_⟩
    · rw [LiesIn, above, parts, cons_prefix_cons]
      exact fun inside => below (prefix_of_map_name inside.2)
    · have straight : ∀ part ∈ base.map Component.name, part ≠ .here ∧ part ≠ .up := by simp
      obtain ⟨common, front, behind, target, directory, way⟩ :=
        exists_wayBetween (place.map .name) straight
      have down : front ≠ [] := by
        rintro rfl
        have inside : place <+: base := by
          apply prefix_of_map_name
          rw [target, directory, append_nil]
          exact prefix_append _ _
        rw [directories place inside] at there
        cases there
      have up : behind ≠ [] := by
        rintro rfl
        apply below
        apply prefix_of_map_name
        rw [target, directory, append_nil]
        exact prefix_append _ _
      have dotless : .here ∉ List.replicate behind.length .up ++ front := by
        intro dot
        rcases mem_append.mp dot with ups | later
        · cases eq_of_mem_replicate ups
        · have inside : .here ∈ place.map Component.name := by
            rw [target]
            exact mem_append_right _ later
          simp at inside
      obtain ⟨b, behind, rfl⟩ := exists_cons_of_ne_nil up
      obtain ⟨first, more, rest⟩ := exists_cons_of_ne_nil
        (append_ne_nil_of_right_ne_nil (List.replicate behind.length .up) down)
      have below : m.id.components = [.root] ++ place.map .name := parts
      refine ⟨first, more, ?_⟩
      rw [relativeTo?_eq_wayBetween rfl below above, way, Option.map_some,
        dropInnerDots_of_notMem dotless, length_cons, replicate_succ, cons_append, rest]

/-- A module has a target exactly if it lies in the directory of the entry. -/
theorem target?_isSome_iff (laid : Laid p c) (member : m ∈ c.modules) (outDir : Path) :
    (target? (rootOf c) outDir m).isSome = true ↔ LiesIn (rootOf c) m := by
  obtain ⟨base, above, directories⟩ := laid.exists_root
  rcases laid.cases_module member above directories with
    ⟨rest, some, steps, parts⟩ | ⟨outside, first, more, way⟩
  · rw [target?_of_append outDir above parts some steps, LiesIn, above, parts, map_append]
    simp
  · rw [target?_of_up outDir way]
    simpa using outside

theorem exists_target (laid : Laid p c) (outDir : Path) :
    ∃ base front, (rootOf c).components = .root :: base.map .name ∧
      outDir.components = frontOf front ∧
        ∀ m ∈ c.modules, ∀ t, target? (rootOf c) outDir m = some t →
          ∃ names name, m.id.components = .root :: (base ++ names).map .name ++ [.name name] ∧
            t.Spells front (names ++ [(splitExtension name).1 ++ "." ++ "js"]) := by
  obtain ⟨base, above, directories⟩ := laid.exists_root
  obtain ⟨front, into, spells⟩ := exists_spells_withExtension_join outDir
  refine ⟨base, front, above, into, fun m member t own => ?_⟩
  rcases laid.cases_module member above directories with
    ⟨rest, some, steps, parts⟩ | ⟨outside, first, more, way⟩
  · obtain ⟨names, name, rfl⟩ := (eq_nil_or_concat' rest).resolve_left some
    rw [target?_of_append outDir above parts some steps] at own
    cases own
    exact ⟨names, name, by simp [parts], spells steps⟩
  · rw [target?_of_up outDir way] at own
    cases own

section Two

variable (laid : Laid p c) (first : m ∈ c.modules) (second : n ∈ c.modules) {outDir t u : Path}
  (own : target? (rootOf c) outDir m = some t) (other : target? (rootOf c) outDir n = some u)
include laid first second own other

/-- Two modules have the same target exactly if they are twins: files in one directory whose names
are the same up to the extension. -/
theorem same_target_iff : t.same u = true ↔ m.id.Twins n.id := by
  obtain ⟨base, front, -, -, targets⟩ := laid.exists_target outDir
  obtain ⟨names, name, parts, target⟩ := targets m first t own
  obtain ⟨names', name', parts', target'⟩ := targets n second u other
  rw [target.same_iff target', Twins, fileName?, fileName?, parts, parts', dropLast_concat,
    dropLast_concat, getLast?_concat, getLast?_concat]
  simp [map_name_injective.eq_iff]

/-- Without links, different targets lead to different places. -/
theorem same_of_locate {p' : Project} (tree : p'.IsTree) (plain : p'.NoLinks)
    {place : List String} (located : p'.locate t = .ok place)
    (located' : p'.locate u = .ok place) : t.same u = true := by
  obtain ⟨base, front, -, -, targets⟩ := laid.exists_target outDir
  obtain ⟨_, _, -, target⟩ := targets m first t own
  obtain ⟨_, _, -, target'⟩ := targets n second u other
  exact (target.same_iff target').mpr (tree.eq_of_locate plain target target' located located')

end Two

end Laid

end Command

end Tarkib
