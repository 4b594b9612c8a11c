import Tarkib.Proofs.Bundle.Outcome

/-!
# Bundles do not depend on the location of a project

A project can be moved from one directory to another one. In a graph of its modules this replaces
the start of all paths (`Graph.moved`). Ids do not show where a way starts, and everything else in a
bundle, and in the reports on a bundle that cannot be made, is taken from ids, codes and sources.
-/

namespace Tarkib

open List

variable {above : List Component} {modules : List Module}

/-! ## Moving a project -/

/-- The path with the directory `old` at its start replaced by `new`. -/
def Path.moved (p old new : Path) : Path :=
  match p.after? old with
  | some rest => .ofComponents (new.components ++ rest)
  | none => p

/-- What a specifier means after the project was moved. -/
def Resolved.moved (old new : Path) : Resolved → Resolved
  | .file path => .file (path.moved old new)
  | .external name => .external name

/-- A reference after the project was moved. -/
def Dependency.moved (old new : Path) (d : Dependency) : Dependency :=
  { d with target := d.target.moved old new }

/-- A module after the project was moved. -/
def Module.moved (old new : Path) (m : Module) : Module :=
  { m with
    id := m.id.moved old new
    dependencies := m.dependencies.map (·.moved old new) }

/-- A graph after the project was moved. -/
def Graph.moved (old new : Path) (g : Graph) : Graph :=
  { g with
    entry := g.entry.moved old new
    modules := g.modules.map (·.moved old new) }

/-- The path starts with the components of a directory. -/
def Path.LiesIn (p directory : Path) : Prop :=
  directory.components <+: p.components

instance (p directory : Path) : Decidable (p.LiesIn directory) :=
  inferInstanceAs (Decidable (directory.components <+: p.components))

/-- The modules of a graph lie in a directory, with all files that they refer to. The entry lies
properly below it and is written without two dots. -/
structure Graph.LiesIn (directory : Path) (g : Graph) : Prop where
  entry : ∃ rest, rest ≠ [] ∧ .up ∉ rest ∧ g.entry.id.components = directory.components ++ rest
  modules : ∀ m ∈ g.modules, m.id.LiesIn directory
  targets : ∀ m ∈ g.modules, ∀ path ∈ m.localTargets, path.LiesIn directory

/-! ## Paths and ids -/

section Moved

variable {old new : Path} (start : old.isAbsolute = true) (leads : new.isAbsolute = true)

include start leads

/-- Moving replaces the start of a path. -/
theorem Path.components_moved {p : Path} {rest : List Component}
    (within : p.components = old.components ++ rest) :
    (p.moved old new).components = new.components ++ rest := by
  have after : p.after? old = some rest := by simp [after?, within]
  have absolute : p.isAbsolute = true := by
    rw [isAbsolute_iff] at start ⊢
    rw [within, head?_append, start]
    rfl
  have steps : ∀ c ∈ new.components.tail ++ rest, c.IsStep := by
    intro c member
    rcases mem_append.mp member with member | member
    · exact isStep_of_mem_tail leads member
    · refine isStep_of_mem_tail absolute ?_
      rw [within, components_of_isAbsolute start]
      exact mem_append_right _ member
  have parts : new.components = .root :: new.components.tail := by
    rw [components_of_isAbsolute leads, tail_cons]
  simp only [moved, after]
  rw [parts, cons_append, components_ofComponents steps]

theorem Path.same_moved {p q : Path} (first : p.LiesIn old) (second : q.LiesIn old) :
    (p.moved old new).same (q.moved old new) = p.same q := by
  obtain ⟨a, eqA⟩ := first
  obtain ⟨b, eqB⟩ := second
  rw [Bool.eq_iff_iff, same_iff, same_iff, components_moved start leads eqA.symm,
    components_moved start leads eqB.symm, ← eqA, ← eqB, append_cancel_left_eq,
    append_cancel_left_eq]

namespace Bundle

/-- The way from the directory of the entry does not show where it starts, so the ids stay. -/
theorem id?_moved {root root' p : Path} (here : root.components = old.components ++ above)
    (there : root'.components = new.components ++ above) (within : p.LiesIn old) :
    id? root' (p.moved old new) = id? root p := by
  obtain ⟨rest, eq⟩ := within
  have first := Path.relativeTo?_eq_wayBetween (Path.isAbsolute_iff.mp start) eq.symm here
  have second := Path.relativeTo?_eq_wayBetween (Path.isAbsolute_iff.mp leads)
    (Path.components_moved start leads eq.symm) there
  rw [id?_eq, id?_eq, first, second]

/-- The table of ids after the project was moved. -/
def Ids.moved (old new : Path) (ids : Ids) : Ids :=
  ids.map fun e => (e.1.moved old new, e.2)

theorem Ids.find?_moved {ids : Ids} {p : Path} (table : ∀ e ∈ ids, e.1.LiesIn old)
    (within : p.LiesIn old) : (ids.moved old new).find? (p.moved old new) = ids.find? p := by
  induction ids with
  | nil => rfl
  | cons e ids ih =>
    have later := ih fun e inside => table e (mem_cons_of_mem _ inside)
    have here := Path.same_moved start leads (table e mem_cons_self) within
    unfold find? moved at later ⊢
    rw [map_cons, List.find?_cons, List.find?_cons, here]
    cases e.1.same p with
    | true => rfl
    | false => exact later

/-! ## References and bundles -/

variable {externals : List String} {ids : Ids} {m : Module}

theorem replacement_moved (table : ∀ e ∈ ids, e.1.LiesIn old)
    (targets : ∀ path ∈ m.localTargets, path.LiesIn old) (id : String) (call : Require) :
    replacement (m.moved old new) id (ids.moved old new) externals call =
      replacement m id ids externals call := by
  have found (specifier : String) :
      (m.moved old new).dependencies.find? (·.specifier == specifier) =
        (m.dependencies.find? (·.specifier == specifier)).map (·.moved old new) := by
    rw [Module.moved, find?_map]
    rfl
  unfold replacement
  simp only [found]
  cases call.argument with
  | dynamic => rfl
  | substituted => rfl
  | literal specifier =>
    cases find : m.dependencies.find? (·.specifier == specifier) with
    | none => simp only [find, Option.map_none]
    | some d =>
      simp only [find, Option.map_some, Dependency.moved]
      cases target : d.target with
      | external name => rfl
      | file path =>
        have inside : path ∈ m.localTargets :=
          Module.mem_localTargets.mpr ⟨d, mem_of_find?_eq_some find, target⟩
        have same := Ids.find?_moved start leads table (targets path inside)
        simp only [Resolved.moved, same]

/-- A linked code stays the same. -/
theorem link_moved (table : ∀ e ∈ ids, e.1.LiesIn old)
    (targets : ∀ path ∈ m.localTargets, path.LiesIn old) (id : String) :
    link (m.moved old new) id (ids.moved old new) externals = link m id ids externals := by
  have replaced (calls : List Require) :
      replacements (m.moved old new) id (ids.moved old new) externals calls =
        replacements m id ids externals calls := by
    induction calls with
    | nil => rfl
    | cons call calls ih =>
      rw [replacements, replacements, ih, replacement_moved start leads table targets]
  rw [link, link, replaced]
  rfl

theorem parts_moved (externals : List String) (table : ∀ e ∈ ids, e.1.LiesIn old)
    (within : ∀ m ∈ modules, m.id.LiesIn old)
    (targets : ∀ m ∈ modules, ∀ path ∈ m.localTargets, path.LiesIn old) :
    parts (ids.moved old new) externals (modules.map (·.moved old new)) =
      parts ids externals modules := by
  unfold parts
  induction modules with
  | nil => rfl
  | cons m modules ih =>
    have later := ih (fun n inside => within n (mem_cons_of_mem _ inside))
      fun n inside => targets n (mem_cons_of_mem _ inside)
    have id : (ids.moved old new).find? (m.moved old new).id = ids.find? m.id :=
      Ids.find?_moved start leads table (within m mem_cons_self)
    rw [map_cons, mapM_cons, mapM_cons, later]
    simp only [id, link_moved start leads table (targets m mem_cons_self)]

omit start leads in
theorem sourceMap_moved (modules : List Module) (parts : List Part) :
    sourceMap (modules.map (·.moved old new)) parts = sourceMap modules parts := by
  rw [sourceMap, sourceMap, zip_map_left, zip_map_left, foldl_map]
  rfl

/-- The table of ids has the same ids for the moved paths. -/
theorem assignIds_moved {root root' : Path} (here : root.components = old.components ++ above)
    (there : root'.components = new.components ++ above) (straight : .up ∉ above)
    (within : ∀ m ∈ modules, m.id.LiesIn old) :
    ∃ ids : Ids, (∀ e ∈ ids, e.1.LiesIn old) ∧ assignIds root modules = .ok ids ∧
      assignIds root' (modules.map (·.moved old new)) = .ok (ids.moved old new) := by
  let name := fun m : Module => (id? root m.id).getD ""
  let name' := fun m : Module => (id? root' m.id).getD ""
  have placed : ∀ m ∈ modules, id? root m.id = some (name m) := by
    intro m inside
    obtain ⟨rest, eq⟩ := within m inside
    have way := Path.relativeTo?_eq_wayBetween (Path.isAbsolute_iff.mp start) eq.symm here
    obtain ⟨parts, found⟩ :=
      Option.isSome_iff_exists.mp (Path.isSome_wayBetween false rest straight)
    simp only [name, id?_eq, way, found, Option.map_some, Option.getD_some]
  have stays : ∀ m ∈ modules, id? root' (m.moved old new).id = some (name m) := by
    intro m inside
    rw [← placed m inside]
    exact id?_moved start leads here there (within m inside)
  refine ⟨modules.map fun m => (m.id, name m), ?_, assignIds_eq_ok placed, ?_⟩
  · intro e member
    obtain ⟨m, inside, rfl⟩ := mem_map.mp member
    exact within m inside
  · have placed' : ∀ m ∈ modules.map (·.moved old new), id? root' m.id = some (name' m) := by
      intro m' member
      obtain ⟨m, inside, rfl⟩ := mem_map.mp member
      simp only [name', stays m inside, Option.getD_some]
    rw [assignIds_eq_ok placed', Ids.moved, map_map, map_map]
    refine congrArg Except.ok (map_congr_left fun m inside => ?_)
    simp only [Function.comp_apply, name', stays m inside, Option.getD_some]
    rfl

end Bundle

end Moved

namespace Bundle

/-- **A bundle does not depend on where its project lies.** If the modules of a graph and the files
that they refer to lie in a directory, and the whole is moved to another directory, the bundle of
the graph, with its source map, stays the same, and so does the fault if there is no bundle. -/
theorem ofGraph_moved {old new : Path} {g : Graph} (start : old.isAbsolute = true)
    (leads : new.isAbsolute = true) (within : g.LiesIn old) (request : Request) (entry : Path) :
    ∃ root root', g.entry.id.parent? = some root ∧
      (g.moved old new).entry.id.parent? = some root' ∧
      ofGraph root' { request with entry := entry } (g.moved old new) =
        ofGraph root request g := by
  obtain ⟨rest, deep, straight, eq⟩ := within.entry
  have moved : (g.moved old new).entry.id.components = new.components ++ rest :=
    Path.components_moved start leads eq
  obtain ⟨root, above, here⟩ := Path.exists_parent?_of_append start deep eq
  obtain ⟨root', above', there⟩ := Path.exists_parent?_of_append leads deep moved
  have straight : .up ∉ rest.dropLast := fun member => straight (dropLast_subset _ member)
  obtain ⟨ids, table, assigned, assigned'⟩ :=
    assignIds_moved start leads here there straight within.modules
  have parts := parts_moved start leads request.externals table within.modules within.targets
  have first : (ids.moved old new).find? (g.moved old new).entry.id = ids.find? g.entry.id :=
    Ids.find?_moved start leads table ⟨rest, eq.symm⟩
  refine ⟨root, root', above, above', ?_⟩
  simp only [ofGraph, Graph.moved] at first ⊢
  rw [assigned, assigned']
  simp only [bind, Except.bind, parts, first, sourceMap_moved]

/-- A module beside the directory of the entry, and the entry that refers to it and to a library. -/
def besideGraph : Graph :=
  let beside : Module := { id := ⟨"/home/app/shared/lib.som"⟩, source := "", code := "" }
  let entry : Module := {
    id := ⟨"/home/app/src/main.som"⟩
    source := "lib"
    code := "require('../shared/lib'); require('fs')"
    dependencies := [⟨"../shared/lib", .file beside.id⟩, ⟨"fs", .external "fs"⟩] }
  ⟨entry, [beside, entry], ["fs"], []⟩

/-- The shortened bundle of the entry with a full source map. -/
def besideRequest : Request where
  entry := ⟨"/home/app/src/main.som"⟩
  minify := true
  sourceMaps := true
  inlineSources := true
  externals := ["fs"]

theorem ofGraph_moved_beside :
    besideGraph.LiesIn ⟨"/home/app"⟩ ∧
      (besideGraph.moved ⟨"/home/app"⟩ ⟨"/srv"⟩).paths =
        [⟨"/srv/shared/lib.som"⟩, ⟨"/srv/src/main.som"⟩] ∧
      ∃ root root', besideGraph.entry.id.parent? = some root ∧
        (besideGraph.moved ⟨"/home/app"⟩ ⟨"/srv"⟩).entry.id.parent? = some root' ∧
        ofGraph root' { besideRequest with entry := ⟨"/srv/src/main.som"⟩ }
            (besideGraph.moved ⟨"/home/app"⟩ ⟨"/srv"⟩) =
          ofGraph root besideRequest besideGraph := by
  have start : Path.isAbsolute ⟨"/home/app"⟩ = true := by decide +kernel
  have leads : Path.isAbsolute ⟨"/srv"⟩ = true := by decide +kernel
  have within : besideGraph.LiesIn ⟨"/home/app"⟩ :=
    ⟨⟨[.name "src", .name "main.som"], by decide +kernel⟩, by decide +kernel, by decide +kernel⟩
  exact ⟨within, by decide +kernel, ofGraph_moved start leads within besideRequest _⟩

end Bundle

end Tarkib
