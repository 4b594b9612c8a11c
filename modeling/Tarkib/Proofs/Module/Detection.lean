import Mathlib.Data.List.Lex
import Mathlib.Order.WithBot
import Tarkib.Proofs.Module.Cycles
import Tarkib.Proofs.Module.Dependency

/-!
# Cycles are detected

A search that enters no module twice may miss cycles, but never all of them. The modules are left in
an order: what a way goes on with is left before what it goes on from, and what an earlier choice
leads to is left before what a later one leads to. The choices that the first way to a module makes,
by their numbers, tell where the module stands in this order (`leaving`).
-/

namespace Tarkib.Registry

open List

variable {r : Registry} {k t : Key} {way other shared : List Key}

/-! ## The order in which modules are left -/

variable (r) in
def numbers : List Key → List Nat
  | [] => []
  | k :: way => numbers way ++ [(r.choices way).idxOf k]

variable (r) in
/-- Where the end of a way stands among what a search leaves: the numbers of the choices, and behind
them that the way goes on no further. -/
def leaving (way : List Key) : List (WithTop Nat) :=
  (r.numbers way).map WithTop.some ++ [⊤]

theorem exists_numbers_append (more : List Key) (next : Key) (shared : List Key) :
    ∃ later, r.numbers (more ++ next :: shared) =
      r.numbers shared ++ (r.choices shared).idxOf next :: later := by
  induction more with
  | nil => exact ⟨[], rfl⟩
  | cons k more ih =>
    obtain ⟨later, split⟩ := ih
    refine ⟨later ++ [(r.choices (more ++ next :: shared)).idxOf k], ?_⟩
    rw [cons_append, numbers, split, append_assoc, cons_append]

theorem exists_leaving_append (more : List Key) (next : Key) (shared : List Key) :
    ∃ later, r.leaving (more ++ next :: shared) =
      (r.numbers shared).map WithTop.some ++
        WithTop.some ((r.choices shared).idxOf next) :: later := by
  obtain ⟨later, split⟩ := exists_numbers_append (r := r) more next shared
  refine ⟨later.map WithTop.some ++ [⊤], ?_⟩
  rw [leaving, split, map_append, map_cons, append_assoc, cons_append]

theorem leaving_lt_of_longer (more : List Key) (next : Key) (way : List Key) :
    r.leaving (more ++ next :: way) < r.leaving way := by
  obtain ⟨later, split⟩ := exists_leaving_append (r := r) more next way
  rw [split]
  exact List.Lex.append_left _ (.rel (WithTop.coe_lt_top _)) _

theorem Earlier.idxOf_lt {choices : List Key} (earlier : Earlier choices t k) :
    choices.idxOf t < choices.idxOf k := by
  obtain ⟨front, back, rfl, absent⟩ := earlier
  have first : (front ++ t :: back).idxOf t ≤ front.length := by
    by_cases known : t ∈ front
    · rw [idxOf_append_of_mem known]
      exact Nat.le_of_lt (idxOf_lt_length_of_mem known)
    · rw [idxOf_append_of_notMem known, idxOf_cons_self]
      exact Nat.le_refl _
  have second : front.length < (front ++ t :: back).idxOf k := by
    rw [append_cons, idxOf_append_of_notMem absent, length_append, length_singleton]
    omega
  exact Nat.lt_of_le_of_lt first second

theorem leaving_lt_of_earlier (more more' : List Key) {next next' : Key}
    (earlier : Earlier (r.choices shared) next' next) :
    r.leaving (more' ++ next' :: shared) < r.leaving (more ++ next :: shared) := by
  obtain ⟨later, split⟩ := exists_leaving_append (r := r) more next shared
  obtain ⟨later', split'⟩ := exists_leaving_append (r := r) more' next' shared
  rw [split, split']
  exact List.Lex.append_left _ (.rel (WithTop.coe_lt_coe.mpr earlier.idxOf_lt)) _

/-! ## Where dependencies lead -/

/-- One of two ways goes on with the other, or they part. -/
theorem suffix_or_part (way other : List Key) :
    way <:+ other ∨ other <:+ way ∨ ∃ shared more next more' next', next ≠ next' ∧
      way = more ++ next :: shared ∧ other = more' ++ next' :: shared := by
  induction way using List.reverseRecOn generalizing other with
  | nil => exact .inl nil_suffix
  | append_singleton way k ih =>
    rcases eq_nil_or_concat other with rfl | ⟨other, l, rfl⟩
    · exact .inr (.inl nil_suffix)
    · rw [concat_eq_append]
      by_cases same : k = l
      · subst same
        rcases ih other with ⟨front, rfl⟩ | ⟨front, rfl⟩ |
          ⟨shared, more, next, more', next', different, rfl, rfl⟩
        · exact .inl ⟨front, (append_assoc _ _ _).symm⟩
        · exact .inr (.inl ⟨front, (append_assoc _ _ _).symm⟩)
        · exact .inr (.inr ⟨shared ++ [k], more, next, more', next', different, by simp, by simp⟩)
      · exact .inr (.inr ⟨[], way, k, other, l, same, rfl, rfl⟩)

/-- A dependency on a module that is not on the first way leads to one that is left earlier. -/
theorem leaving_lt (first : r.IsFirstWay k way) (second : r.IsFirstWay t other)
    (depends : t ∈ r.successors k) (off : t ∉ way) : r.leaving other < r.leaving way := by
  have here : t ∈ other := mem_of_head? second.head
  rcases suffix_or_part way other with ⟨more, rfl⟩ | ends |
    ⟨shared, more, next, more', next', different, rfl, rfl⟩
  · -- The way goes on to the module.
    rcases eq_nil_or_concat more with rfl | ⟨more, next, rfl⟩
    · exact absurd here off
    · rw [concat_eq_append, ← append_cons]
      exact leaving_lt_of_longer more next way
  · exact absurd (ends.mem here) off
  · -- The dependency would give a way that turns off earlier, unless the other way does.
    rcases earlier_or_earlier first.isWay.mem_choices second.isWay.mem_choices different with
      earlier | earlier
    · have longer : r.IsWay ((t :: more) ++ next :: shared) :=
        ⟨choices_of_head first.head ▸ depends, off, first.isWay⟩
      exact absurd earlier (second.not_earlier longer rfl)
    · exact leaving_lt_of_earlier more more' earlier

theorem leaving_lt_of_transGen
    (ways : ∀ k ∈ r.modules.map fun m => m.id.components,
      ∃ way, r.IsFirstWay k way ∧ ∀ t ∈ r.successors k, t ∉ way)
    (walk : Relation.TransGen (fun k t => t ∈ r.successors k) k t)
    (first : r.IsFirstWay k way) (second : r.IsFirstWay t other) :
    r.leaving other < r.leaving way := by
  have step {k t : Key} {way other : List Key} (depends : t ∈ r.successors k)
      (first : r.IsFirstWay k way) (second : r.IsFirstWay t other) :
      r.leaving other < r.leaving way := by
    obtain ⟨way', first', away⟩ := ways k (first.isWay.subset (mem_of_head? first.head))
    obtain rfl := first'.unique first
    exact leaving_lt first second depends (away t depends)
  induction walk generalizing other with
  | single depends => exact step depends first second
  | tail walk depends ih =>
    obtain ⟨before, _, leads⟩ := Relation.TransGen.tail'_iff.mp walk
    obtain ⟨between, isFirst, _⟩ := ways _ (successors_subset before leads)
    exact lt_trans (step depends isFirst second) (ih isFirst)

/-! ## Cycles of registered modules -/

/-- Whether a module is registered under a path. -/
def Registers (r : Registry) (p : Path) : Prop :=
  ((ModuleMap.ofList r.modules).at? p).isSome = true

/-- The module that is registered under `p` refers to the file at `q`, under which a module is
registered as well. -/
def Refers (r : Registry) (p q : Path) : Prop :=
  (ModuleMap.ofList r.modules).Depends p q ∧ r.Registers q

theorem registers_iff {p : Path} :
    r.Registers p ↔ p.components ∈ r.modules.map fun m => m.id.components := by
  simp [Registers, ModuleMap.ofList, Path.same_iff]

theorem refers_iff {p q : Path} : r.Refers p q ↔ q.components ∈ r.successors p.components := by
  have registered : among (r.modules.map Module.id) q = true ↔ r.Registers q := by
    rw [registers_iff, among, Path.any_same_iff, map_map]
    rfl
  rw [← map_targets, mem_map]
  unfold targets
  constructor
  · rintro ⟨⟨m, found, target, listed, same⟩, here⟩
    have found : (r.modules.find? fun m => m.id.same p) = some m := found
    rw [found]
    refine ⟨target, mem_filter.mpr ⟨listed, ?_⟩, Path.same_iff.mp same⟩
    rw [← registered, among, Path.any_same_iff] at here
    rw [among, Path.any_same_iff, Path.same_iff.mp same]
    exact here
  · rintro ⟨target, listed, key⟩
    cases found : r.modules.find? fun m => m.id.same p with
    | none =>
      rw [found] at listed
      cases listed
    | some m =>
      rw [found] at listed
      obtain ⟨member, here⟩ := mem_filter.mp listed
      refine ⟨⟨m, found, target, member, Path.same_iff.mpr key⟩, ?_⟩
      rw [among, Path.any_same_iff, key] at here
      rw [← registered, among, Path.any_same_iff]
      exact here

/-- A list of paths that is a cycle of registered modules, written down from its smallest path. -/
structure IsReported (r : Registry) (cycle : List Path) : Prop where
  distinct : cycle.Pairwise fun p q => p.same q = false
  registered : ∀ p ∈ cycle, r.Registers p
  closed : ∃ first rest, cycle = first :: rest ∧ (cycle ++ [first]).IsChain r.Refers ∧
    ∀ q ∈ cycle, first.le q = true

theorem registers_of_isChain {p : Path} {ps : List Path} (linked : (p :: ps).IsChain r.Refers) :
    ∀ q ∈ ps, r.Registers q := by
  induction ps generalizing p with
  | nil => simp
  | cons next ps ih =>
    obtain ⟨refers, linked⟩ := isChain_cons_cons.mp linked
    exact forall_mem_cons.mpr ⟨refers.2, ih linked⟩

theorem isReported_of_isCycle {cycle : List Path} (least : LeastFirst cycle)
    (isCycle : r.IsCycle (cycle.map Path.components)) : r.IsReported cycle := by
  obtain ⟨first, head, smallest⟩ := least
  obtain ⟨rest, rfl⟩ := head?_eq_some_iff.mp head
  have linked : (first :: rest ++ [first]).IsChain r.Refers := by
    have chain := isCycle.linked
    rw [map_cons, Cycle.chain_coe_cons, ← map_singleton (f := Path.components),
      ← map_append, ← map_cons, isChain_map] at chain
    exact chain.imp fun _ _ depends => refers_iff.mpr depends
  refine ⟨?_, ?_, first, rest, rfl, linked, smallest⟩
  · refine (pairwise_map.mp isCycle.distinct).imp fun different => ?_
    rw [← Bool.not_eq_true, Path.same_iff]
    exact different
  · intro p member
    refine registers_of_isChain linked p ?_
    simpa [or_comm] using member

theorem IsReported.exists_transGen {cycle : List Path} (reported : r.IsReported cycle) :
    ∃ p, Relation.TransGen r.Refers p p := by
  obtain ⟨first, rest, rfl, linked, _⟩ := reported.closed
  obtain ⟨chain, _, closes⟩ := isChain_append.mp linked
  have reached := relationReflTransGen_of_exists_isChain_cons rest chain rfl
  exact ⟨first, .tail' reached (closes _ (getLast?_eq_getLast_of_ne_nil _) first rfl)⟩

/-! ## Detection -/

/-- So if no cycle is noted there is none. -/
theorem not_transGen_of_cycles_eq_nil (none : r.cycles = []) (p : Path) :
    ¬ Relation.TransGen r.Refers p p := by
  intro walk
  obtain ⟨s, cycles, tidy, entered⟩ := exists_tidy_search r
  have ways : ∀ k ∈ r.modules.map fun m => m.id.components,
      ∃ way, r.IsFirstWay k way ∧ ∀ t ∈ r.successors k, t ∉ way := by
    intro k registered
    obtain ⟨way, first, noted⟩ := tidy.done k (entered registered) not_mem_nil
    refine ⟨way, first, fun t depends on => ?_⟩
    obtain ⟨found, member, _⟩ := noted t depends on
    rw [cycles, none] at member
    cases member
  have keys : Relation.TransGen (fun k t => t ∈ r.successors k) p.components p.components :=
    Relation.TransGen.lift Path.components (fun _ _ refers => refers_iff.mp refers) _ _ walk
  obtain ⟨before, _, leads⟩ := Relation.TransGen.tail'_iff.mp keys
  obtain ⟨way, first, _⟩ := ways p.components (successors_subset before leads)
  exact lt_irrefl _ (leaving_lt_of_transGen ways keys first first)

/-- **Reported cycles are real, and a cycle is never overlooked altogether.** For every registry,
each list that is returned has different paths under which modules are registered, each module
depends on the next one and the last one on the first, and the first path is the smallest one. No
list is returned twice. Nothing is returned if and only if no registered module follows itself along
dependencies on registered modules. -/
theorem cycles_reported_and_eq_nil_iff (r : Registry) :
    (∀ cycle ∈ r.cycles, r.IsReported cycle) ∧
      (r.cycles.Pairwise fun c d => c.map Path.components ≠ d.map Path.components) ∧
      (r.cycles = [] ↔ ∀ p, ¬ Relation.TransGen r.Refers p p) := by
  obtain ⟨s, cycles, tidy, _⟩ := exists_tidy_search r
  have reported : ∀ cycle ∈ r.cycles, r.IsReported cycle := by
    intro cycle member
    obtain ⟨least, isCycle, _⟩ := tidy.real cycle (cycles ▸ member)
    exact isReported_of_isCycle least isCycle
  refine ⟨reported, cycles ▸ tidy.distinct, not_transGen_of_cycles_eq_nil, ?_⟩
  intro acyclic
  refine eq_nil_iff_forall_not_mem.mpr fun cycle member => ?_
  obtain ⟨p, walk⟩ := (reported cycle member).exists_transGen
  exact acyclic p walk

end Tarkib.Registry
