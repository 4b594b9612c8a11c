import Tarkib.Bundle.Basic
import Tarkib.Proofs.Fallible
import Tarkib.Proofs.Path.Bytes

/-!
# What becomes of the references in a bundle

The argument of a call is replaced by the id of the module that it means, or stays if it means a
declared library (`Links`). A call is admitted if its argument is literal and no library that is not
declared is meant by it (`Admits`), and there are three ways in which a call is not (`Blocks`).

Let nothing be missing among modules: all have ids, know the specifiers of their own code, and the
files that they refer to are among them (`Complete`).
-/

namespace Tarkib.Bundle

open List

variable {modules : List Module} {name : Module → String} {text? : Option String}
  {fault : BundleFault} {root : Path}

/-! ## Ids -/

theorem assignIds_eq_ok (placed : ∀ m ∈ modules, id? root m.id = some (name m)) :
    assignIds root modules = .ok (modules.map fun m => (m.id, name m)) := by
  refine mapM_eq_ok_iff.mpr (forall₂_map_right_iff.mpr (forall₂_same.mpr ?_))
  intro m inside
  rw [placed m inside]

/-- The id of a file whose path is a text is the way to it as it is written. -/
theorem id?_eq (root path : Path) :
    id? root path = (path.relativeTo? root).map fun parts =>
      let joined := String.intercalate "/" (parts.map Component.text)
      if joined.startsWith "../" then joined else "./" ++ joined := by
  have read : ∀ c : Component, Text.decode (c.rename Text.encode).text = c.text := by
    intro c
    cases c with
    | name text => exact Text.decode_encode text
    | _ => rfl
  rw [id?, idOfBytes?, Path.relativeTo?_encoded, Option.map_map]
  refine congrArg (Option.map · _) (funext fun parts => ?_)
  simp only [Function.comp_apply, List.map_map, Function.comp_def, read]

/-- Equal paths lie on the same way. -/
theorem relativeTo?_congr {root p q : Path} (same : p.same q = true) :
    p.relativeTo? root = q.relativeTo? root := by
  have components : p.components = q.components := Path.same_iff.mp same
  have absolute : p.isAbsolute = q.isAbsolute := by
    rw [Bool.eq_iff_iff, Path.isAbsolute_iff, Path.isAbsolute_iff, components]
  rw [Path.relativeTo?, Path.relativeTo?, components, absolute]

theorem id?_congr {root p q : Path} (same : p.same q = true) : id? root p = id? root q := by
  rw [id?_eq, id?_eq, relativeTo?_congr same]

theorem exists_find? (placed : ∀ m ∈ modules, id? root m.id = some (name m)) {path : Path}
    (listed : ∃ n ∈ modules, n.id.same path = true) :
    ∃ id, Ids.find? (modules.map fun m => (m.id, name m)) path = some id ∧
      id? root path = some id := by
  obtain ⟨n, member, same⟩ := listed
  have found : (List.find? (fun e => e.1.same path)
      (modules.map fun m => (m.id, name m))).isSome = true := by
    rw [find?_isSome]
    exact ⟨_, mem_map_of_mem member, same⟩
  obtain ⟨entry, first⟩ := Option.isSome_iff_exists.mp found
  obtain ⟨m, inside, rfl⟩ := mem_map.mp (mem_of_find?_eq_some first)
  have own : m.id.same path = true := by simpa using find?_some first
  refine ⟨name m, ?_, ?_⟩
  · rw [Ids.find?, first]
    rfl
  · rw [← id?_congr own]
    exact placed m inside

/-! ## References -/

section References

variable {m : Module} {id : String} {ids : Ids} {externals : List String}

/-- What takes the place of the argument of a call: nothing, if the module means a declared library
by it, and the quoted id of the module that it means otherwise. -/
inductive Links (m : Module) (ids : Ids) (externals : List String) (call : Require) :
    Option String → Prop where
  | file {specifier : String} {d : Dependency} {path : Path} {target : String}
      (literal : call.argument = .literal specifier)
      (found : m.dependencies.find? (·.specifier == specifier) = some d)
      (means : d.target = .file path) (listed : ids.find? path = some target) :
      Links m ids externals call (some (Json.quote target))
  | external {specifier : String} {d : Dependency} {name : String}
      (literal : call.argument = .literal specifier)
      (found : m.dependencies.find? (·.specifier == specifier) = some d)
      (means : d.target = .external name) (declared : name ∈ externals) :
      Links m ids externals call none

variable {call : Require} {calls : List Require} {replaced : List (Nat × String)}

/-- An argument is replaced, or stays, exactly if the call links. -/
theorem replacement_eq_ok_iff :
    replacement m id ids externals call = .ok text? ↔ Links m ids externals call text? := by
  constructor
  · intro done
    unfold replacement at done
    split at done
    · cases done
    · cases done
    · next specifier literal =>
      split at done
      · cases done
      · next d found =>
        split at done
        · next path means =>
          split at done
          · next target listed =>
            cases done
            exact .file literal found means listed
          · cases done
        · next name means =>
          split at done
          · next declared =>
            cases done
            exact .external literal found means (by simpa using declared)
          · cases done
  · intro links
    cases links with
    | file literal found means listed => simp [replacement, literal, found, means, listed]
    | external literal found means declared => simp [replacement, literal, found, means, declared]

theorem replacements_cons_eq_ok_iff :
    replacements m id ids externals (call :: calls) = .ok replaced ↔
      ∃ text? later, Links m ids externals call text? ∧
        replacements m id ids externals calls = .ok later ∧
        replaced = (text?.map (call.start, ·)).toList ++ later := by
  have spec (text? : Option String) :
      Links m ids externals call text? ↔ replacement m id ids externals call = .ok text? :=
    replacement_eq_ok_iff.symm
  simp only [spec]
  rw [replacements]
  cases here : replacement m id ids externals call with
  | error fault => simp [bind, Except.bind]
  | ok text? =>
    cases later : replacements m id ids externals calls with
    | error fault => simp [bind, Except.bind]
    | ok later => cases text? <;> simp [bind, Except.bind, pure, Except.pure, eq_comm]

/-- All arguments can be replaced exactly if every call links. -/
theorem exists_replacements_iff :
    (∃ replaced, replacements m id ids externals calls = .ok replaced) ↔
      ∀ call ∈ calls, ∃ text?, Links m ids externals call text? := by
  induction calls with
  | nil => simp [replacements]
  | cons call calls ih =>
    rw [forall_mem_cons, ← ih]
    constructor
    · rintro ⟨replaced, done⟩
      obtain ⟨text?, later, links, rest, _⟩ := replacements_cons_eq_ok_iff.mp done
      exact ⟨⟨text?, links⟩, later, rest⟩
    · rintro ⟨⟨text?, links⟩, later, rest⟩
      exact ⟨_, replacements_cons_eq_ok_iff.mpr ⟨text?, later, links, rest, rfl⟩⟩

theorem exists_call_of_lookup (done : replacements m id ids externals calls = .ok replaced)
    {start : Nat} {text : String} (found : replaced.lookup start = some text) :
    ∃ call ∈ calls, call.start = start ∧ Links m ids externals call (some text) := by
  induction calls generalizing replaced with
  | nil =>
    cases done
    cases found
  | cons call calls ih =>
    obtain ⟨text?, later, links, rest, rfl⟩ := replacements_cons_eq_ok_iff.mp done
    have inLater (found : later.lookup start = some text) :
        ∃ other ∈ call :: calls,
          other.start = start ∧ Links m ids externals other (some text) := by
      obtain ⟨other, member, spec⟩ := ih rest found
      exact ⟨other, mem_cons_of_mem _ member, spec⟩
    cases text? with
    | none => exact inLater found
    | some own =>
      by_cases here : start = call.start
      · subst here
        obtain rfl : own = text := by simpa using found
        exact ⟨call, mem_cons_self, rfl, links⟩
      · have apart : (start == call.start) = false := beq_eq_false_iff_ne.mpr here
        exact inLater (by simpa [lookup_cons, apart] using found)

theorem links_of_replacements (done : replacements m id ids externals calls = .ok replaced)
    (ordered : calls.Pairwise fun first second => first.start < second.start) :
    ∀ call ∈ calls, Links m ids externals call (replaced.lookup call.start) := by
  induction calls generalizing replaced with
  | nil => simp
  | cons first calls ih =>
    obtain ⟨text?, later, links, rest, rfl⟩ := replacements_cons_eq_ok_iff.mp done
    obtain ⟨before, ordered⟩ := pairwise_cons.mp ordered
    intro call member
    rcases mem_cons.mp member with rfl | member
    · cases text? with
      | some text => simpa using links
      | none =>
        -- No later call starts here, so nothing is given to this one.
        cases found : later.lookup call.start with
        | none => simpa [found] using links
        | some text =>
          obtain ⟨other, inside, same, _⟩ := exists_call_of_lookup rest found
          exact absurd (before other inside) (by omega)
    · have apart : (call.start == first.start) = false :=
        beq_eq_false_iff_ne.mpr (Nat.ne_of_gt (before call member))
      cases text? with
      | none => exact ih rest ordered call member
      | some text => simpa [lookup_cons, apart] using ih rest ordered call member

theorem link_eq_ok_iff {out : String} :
    link m id ids externals = .ok out ↔
      ∃ replaced, replacements m id ids externals (Require.calls m.code) = .ok replaced ∧
        out = splice replaced (Token.scan m.code) := by
  rw [link]
  cases replacements m id ids externals (Require.calls m.code) with
  | error fault => simp [bind, Except.bind]
  | ok replaced => simp [bind, Except.bind, pure, Except.pure, eq_comm]

/-! ## Calls that cannot be bundled -/

/-- The argument of the call is literal, and no library that is not declared is meant by it. -/
def Admits (externals : List String) (m : Module) (call : Require) : Prop :=
  ∃ specifier, call.argument = .literal specifier ∧
    ∀ d, m.dependencies.find? (·.specifier == specifier) = some d →
      ∀ name, d.target = .external name → name ∈ externals

/-- The fault of a call in the module with the given id: the argument is computed, has substitutions
or means a library that is not declared. -/
inductive Blocks (externals : List String) (m : Module) (id : String) (call : Require) :
    BundleFault → Prop where
  | dynamic (argument : call.argument = .dynamic) :
      Blocks externals m id call (.dynamic id call.position)
  | substituted (argument : call.argument = .substituted) :
      Blocks externals m id call (.substituted id call.position)
  | undeclared {specifier name : String} {d : Dependency}
      (literal : call.argument = .literal specifier)
      (found : m.dependencies.find? (·.specifier == specifier) = some d)
      (means : d.target = .external name) (missing : name ∉ externals) :
      Blocks externals m id call (.undeclared name id)

theorem Blocks.not_admits (blocks : Blocks externals m id call fault) :
    ¬ Admits externals m call := by
  rintro ⟨specifier, literal, declared⟩
  cases blocks with
  | dynamic argument | substituted argument =>
    rw [argument] at literal
    cases literal
  | undeclared spelled found means missing =>
    rw [spelled] at literal
    cases literal
    exact missing (declared _ found _ means)

theorem Links.admits (links : Links m ids externals call text?) : Admits externals m call := by
  cases links with
  | file literal found means _ =>
    refine ⟨_, literal, ?_⟩
    intro d here name external
    rw [found] at here
    cases here
    rw [means] at external
    cases external
  | external literal found means declared =>
    refine ⟨_, literal, ?_⟩
    intro d here name external
    rw [found] at here
    cases here
    rw [means] at external
    cases external
    exact declared

/-- If nothing is missing, only a call that is not admitted can fail. -/
theorem blocks_of_replacement
    (known : ∀ specifier, call.argument = .literal specifier → specifier ∈ m.specifiers)
    (listed : ∀ path ∈ m.localTargets, ∃ target, ids.find? path = some target)
    (failed : replacement m id ids externals call = .error fault) :
    Blocks externals m id call fault := by
  unfold replacement at failed
  split at failed
  · next argument =>
      cases failed
      exact .dynamic argument
  · next argument =>
      cases failed
      exact .substituted argument
  · next specifier literal =>
      split at failed
      · next missing =>
          obtain ⟨d, member, same⟩ := mem_map.mp (known specifier literal)
          exact absurd (beq_iff_eq.mpr same) (find?_eq_none.mp missing d member)
      · next d found =>
          split at failed
          · next path means =>
              have target : path ∈ m.localTargets :=
                Module.mem_localTargets.mpr ⟨d, mem_of_find?_eq_some found, means⟩
              obtain ⟨id, there⟩ := listed path target
              rw [there] at failed
              cases failed
          · next name means =>
              split at failed
              · cases failed
              · next missing =>
                  cases failed
                  exact .undeclared literal found means (by simpa using missing)

theorem exists_call_of_replacements
    (failed : replacements m id ids externals calls = .error fault) :
    ∃ call ∈ calls, replacement m id ids externals call = .error fault := by
  induction calls with
  | nil => cases failed
  | cons call calls ih =>
    rw [replacements] at failed
    cases here : replacement m id ids externals call with
    | error first =>
      rw [here] at failed
      cases failed
      exact ⟨call, mem_cons_self, here⟩
    | ok text? =>
      rw [here] at failed
      cases later : replacements m id ids externals calls with
      | error first =>
        rw [later] at failed
        cases failed
        obtain ⟨other, member, spec⟩ := ih later
        exact ⟨other, mem_cons_of_mem _ member, spec⟩
      | ok replaced =>
        rw [later] at failed
        cases text? <;> cases failed

theorem exists_call_of_link (failed : link m id ids externals = .error fault) :
    ∃ call ∈ Require.calls m.code, replacement m id ids externals call = .error fault := by
  rw [link] at failed
  cases done : replacements m id ids externals (Require.calls m.code) with
  | error first =>
    rw [done] at failed
    cases failed
    exact exists_call_of_replacements done
  | ok replaced =>
    rw [done] at failed
    cases failed

end References

/-! ## Modules -/

theorem mem_specifiers {code : String} {call : Require} (member : call ∈ Require.calls code)
    {specifier : String} (literal : call.argument = .literal specifier) :
    specifier ∈ Require.specifiers code := by
  rw [Require.specifiers, mem_eraseDups, mem_filterMap]
  refine ⟨call, member, ?_⟩
  rw [Require.specifier?, literal]

section Parts

variable {ids : Ids} {externals : List String}

theorem forall₂_link_of_parts {laid : List Part} (done : parts ids externals modules = .ok laid) :
    List.Forall₂ (fun m part => link m part.id ids externals = .ok part.code) modules laid := by
  refine (mapM_eq_ok_iff.mp done).imp fun m part made => ?_
  obtain ⟨code, linked, made⟩ := bind_eq_ok made
  cases made
  exact linked

theorem exists_link_of_parts_error (failed : parts ids externals modules = .error fault) :
    ∃ m ∈ modules, link m ((ids.find? m.id).getD "") ids externals = .error fault := by
  obtain ⟨m, member, unmade⟩ := exists_of_mapM failed
  rcases bind_eq_error unmade with unlinked | ⟨code, _, unmade⟩
  · exact ⟨m, member, unlinked⟩
  · cases unmade

end Parts

/-! ## Graphs -/

/-- Nothing is missing among the modules: all have ids seen from `root`, know the specifiers of
their code, and the files that they refer to are among them. -/
structure Complete (root : Path) (modules : List Module) : Prop where
  placed : ∀ m ∈ modules, ∃ id, id? root m.id = some id
  specifiers : ∀ m ∈ modules, m.specifiers = Require.specifiers m.code
  listed : ∀ m ∈ modules, ∀ path ∈ m.localTargets, ∃ n ∈ modules, n.id.same path = true

namespace Complete

variable {request : Request} {g : Graph}

/-- If nothing is missing, every file has an id in the table. -/
theorem exists_ids (complete : Complete root modules) :
    ∃ ids, assignIds root modules = .ok ids ∧
      ∀ path, (∃ n ∈ modules, n.id.same path = true) →
        ∃ id, ids.find? path = some id ∧ id? root path = some id := by
  have placed : ∀ m ∈ modules, id? root m.id = some ((id? root m.id).getD "") := by
    intro m member
    obtain ⟨id, found⟩ := complete.placed m member
    rw [found]
    rfl
  exact ⟨_, assignIds_eq_ok placed, fun path => exists_find? placed⟩

theorem ofGraph_eq_map_parts {ids : Ids} (assigned : assignIds root g.modules = .ok ids)
    (plain : request.minify = false) :
    ∃ make : List Part → Bundle,
      ofGraph root request g = (parts ids request.externals g.modules).map make := by
  refine ⟨fun laid => ⟨render laid ((ids.find? g.entry.id).getD ""),
    if request.sourceMaps then
      some ((sourceMap g.modules laid).render request.inlineSources)
    else none⟩, ?_⟩
  rw [ofGraph, assigned]
  cases done : parts ids request.externals g.modules with
  | error fault => simp [bind, Except.bind, done, Except.map]
  | ok laid => simp [bind, Except.bind, done, Except.map, plain, pure, Except.pure]

/-- If nothing is missing, the fault is that of a call which is not admitted. -/
theorem ofGraph_eq_error (complete : Complete root g.modules) (plain : request.minify = false)
    (failed : ofGraph root request g = .error fault) :
    ∃ m ∈ g.modules, ∃ id, id? root m.id = some id ∧
      ∃ call ∈ Require.calls m.code, Blocks request.externals m id call fault := by
  obtain ⟨ids, assigned, found⟩ := complete.exists_ids
  obtain ⟨make, made⟩ := ofGraph_eq_map_parts assigned plain
  have broken : parts ids request.externals g.modules = .error fault := by
    rw [made] at failed
    cases done : parts ids request.externals g.modules with
    | error first =>
      rw [done] at failed
      cases failed
      rfl
    | ok laid =>
      rw [done] at failed
      cases failed
  obtain ⟨m, member, unlinked⟩ := exists_link_of_parts_error broken
  obtain ⟨id, here, named⟩ := found m.id ⟨m, member, Path.same_refl m.id⟩
  rw [here] at unlinked
  obtain ⟨call, inside, unreplaced⟩ := exists_call_of_link unlinked
  refine ⟨m, member, id, named, call, inside, blocks_of_replacement ?_ ?_ unreplaced⟩
  · intro specifier literal
    rw [complete.specifiers m member]
    exact mem_specifiers inside literal
  · intro path target
    obtain ⟨other, there, _⟩ := found path (complete.listed m member path target)
    exact ⟨other, there⟩

/-- If nothing is missing, a bundle can be made exactly if every call is admitted. -/
theorem exists_ofGraph_iff (complete : Complete root g.modules) (plain : request.minify = false) :
    (∃ b, ofGraph root request g = .ok b) ↔
      ∀ m ∈ g.modules, ∀ call ∈ Require.calls m.code, Admits request.externals m call := by
  constructor
  · rintro ⟨b, done⟩ m member call inside
    obtain ⟨ids, assigned, _⟩ := complete.exists_ids
    obtain ⟨make, made⟩ := ofGraph_eq_map_parts assigned plain
    cases laid : parts ids request.externals g.modules with
    | error fault =>
      rw [made, laid] at done
      cases done
    | ok out =>
      obtain ⟨part, _, linked⟩ := exists_of_mem_left (forall₂_link_of_parts laid) m member
      obtain ⟨replaced, spec, _⟩ := link_eq_ok_iff.mp linked
      obtain ⟨text?, links⟩ := exists_replacements_iff.mp ⟨replaced, spec⟩ call inside
      exact links.admits
  · intro admitted
    cases result : ofGraph root request g with
    | ok b => exact ⟨b, rfl⟩
    | error fault =>
      obtain ⟨m, member, _, _, call, inside, blocks⟩ := complete.ofGraph_eq_error plain result
      exact absurd (admitted m member call inside) blocks.not_admits

end Complete

end Tarkib.Bundle
