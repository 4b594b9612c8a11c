import Mathlib.Data.List.Chain
import Mathlib.Logic.Relation
import Tarkib.Module.Basic
import Tarkib.Proofs.Path.Order

/-!
# Dependencies between modules

Modules that stand at paths (`ModuleMap`) depend on one another by the files that they refer to.
Spellings of a path do not matter, so everything here is the same for two paths with the same
components. A cycle is a list of different modules each of which depends on the next one and the
last of which depends on the first.
-/

namespace Tarkib

open List

/-- The modules that stand at paths, in whatever spelling they are asked for. -/
structure ModuleMap where
  at? : Path → Option Module
  uniform : ∀ {p q : Path}, p.same q = true → at? p = at? q
  own : ∀ {p : Path} {m : Module}, at? p = some m → m.id.same p = true

namespace ModuleMap

/-- The modules of a list, each at its own path; of several at one path the first counts. -/
def ofList (modules : List Module) : ModuleMap where
  at? p := modules.find? fun m => m.id.same p
  uniform same := by simp only [Path.same_congr_right same]
  own found := by
    have same := find?_some found
    exact same

variable {M : ModuleMap} {p p' q q' r : Path}

theorem at?_id {m : Module} (found : M.at? p = some m) : M.at? m.id = some m :=
  (M.uniform (M.own found)).trans found

/-! ## Depending and reaching -/

variable (M) in
/-- The module at `p` refers to the file at `q`. -/
def Depends (p q : Path) : Prop :=
  ∃ m, M.at? p = some m ∧ ∃ target ∈ m.localTargets, target.same q = true

theorem Depends.congr (depends : M.Depends p q) (left : p.same p' = true)
    (right : q.same q' = true) : M.Depends p' q' := by
  obtain ⟨m, found, target, member, same⟩ := depends
  exact ⟨m, M.uniform left ▸ found, target, member, Path.same_trans same right⟩

theorem depends_of_mem {m : Module} {d : Dependency} (found : M.at? p = some m)
    (member : d ∈ m.dependencies) (target : d.target = .file q) : M.Depends p q := by
  refine ⟨m, found, q, ?_, Path.same_refl q⟩
  exact Module.mem_localTargets.mpr ⟨d, member, target⟩

theorem transGen_congr (way : Relation.TransGen M.Depends p q) (left : p.same p' = true)
    (right : q.same q' = true) : Relation.TransGen M.Depends p' q' := by
  have start {r : Path} (way : Relation.TransGen M.Depends p r) :
      Relation.TransGen M.Depends p' r := by
    induction way with
    | single depends => exact .single (depends.congr left (Path.same_refl _))
    | tail _ depends ih => exact ih.tail depends
  cases way with
  | single depends => exact .single (depends.congr left right)
  | tail way depends => exact (start way).tail (depends.congr (Path.same_refl _) right)

variable (M) in
/-- The path `q` is `p`, or follows `p` along dependencies. -/
def Reaches (p q : Path) : Prop :=
  p.same q = true ∨ Relation.TransGen M.Depends p q

theorem Reaches.of_same (same : p.same q = true) : M.Reaches p q :=
  .inl same

theorem Reaches.tail (reaches : M.Reaches p q) (depends : M.Depends q r) : M.Reaches p r := by
  rcases reaches with same | way
  · exact .inr (.single (depends.congr (Path.same_symm same) (Path.same_refl r)))
  · exact .inr (way.tail depends)

theorem Reaches.congr_right (reaches : M.Reaches p q) (same : q.same r = true) :
    M.Reaches p r := by
  rcases reaches with start | way
  · exact .inl (Path.same_trans start same)
  · exact .inr (transGen_congr way (Path.same_refl p) same)

theorem Reaches.congr_left (reaches : M.Reaches p q) (same : p.same r = true) :
    M.Reaches r q := by
  rcases reaches with start | way
  · exact .inl (Path.same_trans (Path.same_symm same) start)
  · exact .inr (transGen_congr way same (Path.same_refl q))

/-! ## Cycles -/

variable (M) in
/-- Different modules, each of which depends on the next one, and the last one on the first. -/
structure IsCycle (cycle : List Path) : Prop where
  distinct : cycle.Pairwise fun p q => p.same q = false
  linked : cycle.IsChain M.Depends
  closed : ∃ first last, cycle.head? = some first ∧ cycle.getLast? = some last ∧
    M.Depends last first

theorem reaches_of_isChain {ps : List Path} (linked : (p :: ps).IsChain M.Depends) :
    ∀ q ∈ p :: ps, M.Reaches p q := by
  induction ps generalizing p with
  | nil =>
    intro q member
    rw [mem_singleton.mp member]
    exact .of_same (Path.same_refl p)
  | cons next rest ih =>
    obtain ⟨depends, linked⟩ := isChain_cons_cons.mp linked
    intro q member
    rcases mem_cons.mp member with rfl | member
    · exact .of_same (Path.same_refl q)
    · rcases ih linked q member with same | way
      · exact .inr (.single (depends.congr (Path.same_refl p) same))
      · exact .inr (.head depends way)

theorem IsCycle.transGen {cycle : List Path} (isCycle : M.IsCycle cycle) {first : Path}
    (head : cycle.head? = some first) : Relation.TransGen M.Depends first first := by
  obtain ⟨first', last, head', end_, depends⟩ := isCycle.closed
  rw [head] at head'
  cases head'
  cases cycle with
  | nil => cases head
  | cons p rest =>
    cases head
    have reached := reaches_of_isChain isCycle.linked last (mem_of_getLast? end_)
    rcases reached with same | way
    · exact .single (depends.congr (Path.same_symm same) (Path.same_refl _))
    · exact way.tail depends

/-- Modules on a way the last of which depends on the first form a cycle. -/
theorem isCycle_of_way {way : List Path} (distinct : way.Pairwise fun p q => p.same q = false)
    (linked : way.IsChain M.Depends) {last target : Path} (end_ : way.getLast? = some last)
    (depends : M.Depends last target) (on : ∃ p ∈ way, p.same target = true) :
    ∃ first, (way.dropWhile fun p => !p.same target).head? = some first ∧
      first.same target = true ∧ M.IsCycle (way.dropWhile fun p => !p.same target) := by
  obtain ⟨first, others, rest, here⟩ :
      ∃ first others, (way.dropWhile fun p => !p.same target) = first :: others ∧
        (!first.same target) = false :=
    exists_dropWhile_eq_cons (by simpa using on)
  have same : first.same target = true := by simpa using here
  have behind : first :: others <:+ way := rest ▸ dropWhile_suffix _
  have end' : (first :: others).getLast? = some last := by
    obtain ⟨front, split⟩ := behind
    rw [← split, getLast?_append] at end_
    simpa using end_
  rw [rest]
  exact ⟨first, rfl, same, distinct.sublist behind.sublist, linked.suffix behind, first, last,
    rfl, end', depends.congr (Path.same_refl last) (Path.same_symm same)⟩

variable (M) in
/-- Some module that is reached from `start` follows itself along dependencies. -/
def HasCycle (start : Path) : Prop :=
  ∃ p, M.Reaches start p ∧ Relation.TransGen M.Depends p p

/-! ## Orders -/

variable (M) in
/-- Every module comes behind the modules that it depends on. -/
def IsOrder (order : List Path) : Prop :=
  ∀ before p after, order = before ++ p :: after → ∀ q, M.Depends p q →
    q.components ∈ before.map Path.components

/-- The number of a path in an order. -/
def rank (order : List Path) (p : Path) : Nat :=
  (order.map Path.components).idxOf p.components

/-- In an order dependencies come first. -/
theorem rank_lt_of_depends {order : List Path} (isOrder : M.IsOrder order)
    (member : p.components ∈ order.map Path.components) (depends : M.Depends p q) :
    rank order q < rank order p ∧ q.components ∈ order.map Path.components := by
  -- The order is split at the first path that is `p`.
  obtain ⟨before, after, split, absent⟩ := eq_append_cons_of_mem member
  obtain ⟨front, back, rfl, frontKeys, backKeys⟩ := map_eq_append_iff.mp split
  obtain ⟨p', back', rfl, same, rfl⟩ := map_eq_cons_iff.mp backKeys
  subst frontKeys
  have earlier : q.components ∈ front.map Path.components :=
    isOrder front p' back' rfl q
      (depends.congr (Path.same_iff.mpr same.symm) (Path.same_refl q))
  refine ⟨?_, ?_⟩
  · unfold rank
    rw [split, idxOf_append_of_mem earlier, idxOf_append_of_notMem absent]
    exact Nat.lt_add_right _ (idxOf_lt_length_of_mem earlier)
  · rw [split]
    exact mem_append_left _ earlier

/-- So modules that have an order have no cycle. -/
theorem not_transGen_of_order {order : List Path} (isOrder : M.IsOrder order)
    (member : p.components ∈ order.map Path.components) :
    ¬ Relation.TransGen M.Depends p p := by
  have falls {q : Path} (way : Relation.TransGen M.Depends p q) :
      rank order q < rank order p ∧ q.components ∈ order.map Path.components := by
    induction way with
    | single depends => exact rank_lt_of_depends isOrder member depends
    | tail _ depends ih =>
      obtain ⟨lower, present⟩ := rank_lt_of_depends isOrder ih.2 depends
      exact ⟨Nat.lt_trans lower ih.1, present⟩
  intro way
  exact Nat.lt_irrefl _ (falls way).1

end ModuleMap

end Tarkib
