import Mathlib.Data.List.Cycle
import Tarkib.Proofs.Module.FirstWay

/-!
# The cycles that a search finds

The registry looks for cycles by a search in depth that enters no module twice. It comes to each
module by its first way, and there it notes the cycles that dependencies on modules of this way
close (`Tidy`). So a cycle that the search could only come to through a module that it has left
already is missed.
-/

namespace Tarkib.Registry

open List

variable {way : List Key} {cycle : List Path} {s : Search} {r : Registry}

/-! ## Rotations -/

/-- The cycle starts with the smallest of its paths. -/
def LeastFirst (cycle : List Path) : Prop :=
  ∃ first, cycle.head? = some first ∧ ∀ q ∈ cycle, first.le q = true

/-- The smallest one of some paths. -/
def leastOf (p : Path) (ps : List Path) : Path :=
  ps.foldl (fun least q => if (q.compare least).isLT then q else least) p

theorem rotate_cons (p : Path) (ps : List Path) :
    rotate (p :: ps) = ((p :: ps).dropWhile fun q => !q.same (leastOf p ps)) ++
      (p :: ps).takeWhile fun q => !q.same (leastOf p ps) :=
  rfl

theorem leastOf_spec (p : Path) (ps : List Path) :
    leastOf p ps ∈ p :: ps ∧ ∀ q ∈ p :: ps, (leastOf p ps).le q = true := by
  induction ps generalizing p with
  | nil => simp [leastOf, Path.le_of_same]
  | cons q ps ih =>
    obtain ⟨member, least⟩ := ih (if (q.compare p).isLT then q else p)
    have first := least _ mem_cons_self
    refine ⟨?_, ?_⟩
    · rcases mem_cons.mp member with same | member
      · rw [leastOf, foldl_cons, ← leastOf, same]
        split <;> simp
      · exact mem_cons_of_mem _ (mem_cons_of_mem _ member)
    · intro s listed
      have within : s = p ∨ s = q ∨ s ∈ ps := by simpa using listed
      rcases within with rfl | rfl | within
      · refine Path.le_trans first ?_
        split
        · next less => exact Path.le_of_isLT less
        · exact Path.le_of_same (Path.same_refl _)
      · refine Path.le_trans first ?_
        split
        · exact Path.le_of_same (Path.same_refl _)
        · next notLess => exact Path.le_of_not_isLT notLess
      · exact least s (mem_cons_of_mem _ within)

theorem rotate_isRotated (cycle : List Path) : rotate cycle ~r cycle := by
  cases cycle with
  | nil => exact List.IsRotated.refl _
  | cons p ps =>
    rw [rotate_cons]
    refine isRotated_append.trans ?_
    rw [takeWhile_append_dropWhile]

theorem leastFirst_rotate (nonempty : cycle ≠ []) : LeastFirst (rotate cycle) := by
  have rotated := rotate_isRotated cycle
  cases cycle with
  | nil => exact absurd rfl nonempty
  | cons p ps =>
    obtain ⟨member, least⟩ := leastOf_spec p ps
    obtain ⟨first, others, rest, here⟩ :
        ∃ first others,
          ((p :: ps).dropWhile fun q => !q.same (leastOf p ps)) = first :: others ∧
            (!first.same (leastOf p ps)) = false :=
      exists_dropWhile_eq_cons ⟨leastOf p ps, member, by simp⟩
    have same : first.same (leastOf p ps) = true := by simpa using here
    refine ⟨first, by rw [rotate_cons, rest]; rfl, ?_⟩
    intro q listed
    exact Path.le_trans (Path.le_of_same same) (least q (rotated.mem_iff.mp listed))

theorem eq_of_isRotated_of_head {c d : List Key} (distinct : c.Nodup) (rotated : c ~r d)
    (head : c.head? = d.head?) : c = d := by
  obtain ⟨n, short, rfl⟩ := isRotated_iff_mod.mp rotated
  rcases Nat.lt_or_ge n c.length with inside | outside
  · rw [head?_rotate inside, head?_eq_getElem?] at head
    have start : 0 < c.length := Nat.zero_lt_of_lt inside
    rw [getElem?_inj start distinct] at head
    rw [← head, rotate_zero]
  · rw [Nat.le_antisymm short outside, rotate_length]

/-- Rotations of one cycle that start with its least module start with the same one. -/
theorem LeastFirst.head_eq {c d : List Path} (first : LeastFirst c) (second : LeastFirst d)
    (rotated : c.map Path.components ~r d.map Path.components) :
    (c.map Path.components).head? = (d.map Path.components).head? := by
  obtain ⟨p, headC, leastC⟩ := first
  obtain ⟨q, headD, leastD⟩ := second
  obtain ⟨p', memberD, spellsP⟩ := mem_map.mp
    (rotated.mem_iff.mp (mem_map_of_mem (mem_of_head? headC)))
  obtain ⟨q', memberC, spellsQ⟩ := mem_map.mp
    (rotated.mem_iff.mpr (mem_map_of_mem (mem_of_head? headD)))
  have pq : p.le q = true :=
    Path.le_trans (leastC q' memberC) (Path.le_of_same (Path.same_iff.mpr spellsQ))
  have qp : q.le p = true :=
    Path.le_trans (leastD p' memberD) (Path.le_of_same (Path.same_iff.mpr spellsP))
  rw [head?_map, head?_map, headC, headD, Option.map_some, Option.map_some,
    Path.same_iff.mp (Path.same_of_le_of_le pq qp)]

theorem sameList_iff {ps qs : List Path} :
    sameList ps qs = true ↔ ps.map Path.components = qs.map Path.components := by
  induction ps generalizing qs with
  | nil => cases qs <;> simp [sameList]
  | cons p ps ih =>
    cases qs with
    | nil => simp [sameList]
    | cons q qs => simp [sameList, Path.same_iff, ih]

/-! ## Elementary cycles -/

/-- Different modules, each of which depends on the next one, and the last one on the first. -/
structure IsCycle (r : Registry) (cycle : List Key) : Prop where
  nonempty : cycle ≠ []
  distinct : cycle.Nodup
  linked : Cycle.Chain (fun k l => l ∈ r.successors k) (cycle : Cycle Key)

theorem IsCycle.of_isRotated {cycle turned : List Key} (isCycle : r.IsCycle cycle)
    (rotated : turned ~r cycle) : r.IsCycle turned := by
  refine ⟨?_, rotated.nodup_iff.mpr isCycle.distinct, ?_⟩
  · intro empty
    subst empty
    exact isCycle.nonempty (isRotated_nil_iff'.mp rotated).symm
  · rw [Cycle.coe_eq_coe.mpr rotated]
    exact isCycle.linked

/-- The cycle that a dependency of the last module of a way on one of its modules closes. -/
def loopOf (way : List Key) (k : Key) : List Key :=
  k :: (way.takeWhile fun l => l ≠ k).reverse

variable {k last : Key} {target : Path} {n : Nat} {front rest : List Key}

theorem reverse_loopOf_ends (on : k ∈ way) : (loopOf way k).reverse <+: way := by
  obtain ⟨first, others, rest, here⟩ :
      ∃ first others, (way.dropWhile fun l => decide (l ≠ k)) = first :: others ∧
        decide (first ≠ k) = false :=
    exists_dropWhile_eq_cons ⟨k, on, by simp⟩
  have same : first = k := by simpa using here
  subst same
  refine ⟨others, ?_⟩
  rw [loopOf, reverse_cons, reverse_reverse, append_assoc, singleton_append,
    ← rest, takeWhile_append_dropWhile]

theorem IsWay.isChain (isWay : r.IsWay way) : way.IsChain fun k l => k ∈ r.successors l := by
  induction way with
  | nil => exact .nil
  | cons k way ih =>
    cases way with
    | nil => exact isChain_singleton _
    | cons l way => exact isChain_cons_cons.mpr ⟨isWay.1, ih isWay.2.2⟩

/-- A dependency on a module of the way closes a cycle. -/
theorem IsWay.isCycle_loopOf (isWay : r.IsWay way) (head : way.head? = some last)
    (depends : k ∈ r.successors last) (on : k ∈ way) : r.IsCycle (loopOf way k) := by
  have front := reverse_loopOf_ends on
  refine ⟨by simp [loopOf], ?_, ?_⟩
  · rw [← nodup_reverse]
    exact isWay.nodup.sublist front.sublist
  · -- The way back to the module, with the module put in front of it, is read backwards.
    have chain : (k :: (loopOf way k).reverse).IsChain fun k l => k ∈ r.successors l := by
      obtain ⟨others, split⟩ := front
      have linked := isWay.isChain
      rw [← split, isChain_append] at linked
      refine isChain_cons.mpr ⟨?_, linked.1⟩
      intro l first
      rw [← split, head?_append, Option.mem_def.mp first] at head
      cases head
      exact depends
    have linked := isChain_reverse.mpr chain
    rw [reverse_cons, reverse_reverse] at linked
    rw [loopOf, Cycle.chain_coe_cons]
    exact linked

/-! ## What a search has noted -/

namespace Search

variable {s' : Search}

/-- The modules that were entered. -/
def keys (s : Search) : List Key :=
  s.visited.map Path.components

/-- A cycle was noted, read from whatever module. -/
def Noted (s : Search) (cycle : List Key) : Prop :=
  ∃ found ∈ s.cycles, found.map Path.components ~r cycle

/-- Nothing is forgotten. -/
structure Grows (s s' : Search) : Prop where
  keys : s.keys ⊆ s'.keys
  cycles : s.cycles ⊆ s'.cycles

theorem Grows.refl (s : Search) : Grows s s :=
  ⟨List.Subset.refl _, List.Subset.refl _⟩

theorem Grows.trans {s'' : Search} (first : Grows s s') (second : Grows s' s'') : Grows s s'' :=
  ⟨List.Subset.trans first.keys second.keys, List.Subset.trans first.cycles second.cycles⟩

theorem Noted.grows {loop : List Key} (noted : s.Noted loop) (grows : Grows s s') :
    s'.Noted loop := by
  obtain ⟨found, member, rotated⟩ := noted
  exact ⟨found, grows.cycles member, rotated⟩

theorem keys_note (s : Search) (cycle : List Path) : (s.note cycle).keys = s.keys := by
  unfold note
  dsimp only
  split <;> rfl

theorem mem_note {found : List Path} (member : found ∈ (s.note cycle).cycles) :
    found ∈ s.cycles ∨ found = rotate cycle := by
  unfold note at member
  dsimp only at member
  split at member
  · exact .inl member
  · simpa using member

theorem grows_note (s : Search) (cycle : List Path) : Grows s (s.note cycle) := by
  refine ⟨by rw [keys_note]; exact List.Subset.refl _, ?_⟩
  unfold note
  dsimp only
  split
  · exact List.Subset.refl _
  · exact subset_append_left _ _

theorem noted_note (s : Search) (cycle : List Path) :
    (s.note cycle).Noted (cycle.map Path.components) := by
  have rotated := (rotate_isRotated cycle).map Path.components
  unfold note
  dsimp only
  split
  · next known =>
      obtain ⟨found, member, same⟩ := any_eq_true.mp known
      exact ⟨found, member, sameList_iff.mp same ▸ rotated⟩
  · exact ⟨rotate cycle, by simp, rotated⟩

/-- No cycle was noted twice. -/
def Distinct (s : Search) : Prop :=
  s.cycles.Pairwise fun c d => c.map Path.components ≠ d.map Path.components

theorem Distinct.note (distinct : s.Distinct) (cycle : List Path) : (s.note cycle).Distinct := by
  unfold Distinct Search.note
  dsimp only
  split
  · exact distinct
  · next fresh =>
      refine pairwise_append.mpr ⟨distinct, pairwise_singleton _ _, ?_⟩
      intro found member other single same
      rw [mem_singleton.mp single] at same
      exact fresh (any_eq_true.mpr ⟨found, member, sameList_iff.mpr same.symm⟩)

end Search

/-! ## The search -/

/-- What the search does about one choice at the end of a way. -/
def visit (r : Registry) (n : Nat) (way : List Path) (s : Search) (target : Path) : Search :=
  if among way target then
    s.note ((way.find? fun q => q.same target).toList ++
      (way.takeWhile fun q => !q.same target).reverse)
  else if among s.visited target then s
  else follow r n (target :: way) (s.enter target)

theorem follow_succ (n : Nat) (p : Path) (way : List Path) (s : Search) :
    follow r (n + 1) (p :: way) s = (r.targets p).foldl (r.visit n (p :: way)) s :=
  rfl

theorem cycles_eq_foldl :
    r.cycles = ((r.modules.map Module.id).foldl (r.visit (r.size + 1) []) {}).cycles :=
  rfl

/-- The loop is the end of the first way to its last module. -/
def EndsFirstWay (r : Registry) (loop : List Key) : Prop :=
  ∃ k way, r.IsFirstWay k way ∧ loop.reverse <+: way

/-- The search has come along a way. Of what it has entered, everything off the way was left: all
dependencies were entered too, and the cycles that close at the end of the first way were noted. The
way is the beginning of the first way to everything that was not entered yet. -/
structure Tidy (r : Registry) (way : List Key) (s : Search) : Prop where
  on : way ⊆ s.keys
  closed : ∀ k ∈ s.keys, k ∉ way → r.successors k ⊆ s.keys
  ahead : ∀ k, k ∉ s.keys → r.Foremost k way
  done : ∀ k ∈ s.keys, k ∉ way → ∃ w, r.IsFirstWay k w ∧
    ∀ t ∈ r.successors k, t ∈ w → s.Noted (loopOf w t)
  real : ∀ found ∈ s.cycles, LeastFirst found ∧ r.IsCycle (found.map Path.components) ∧
    ∃ loop, found.map Path.components ~r loop ∧ r.EndsFirstWay loop
  distinct : s.Distinct

namespace Tidy

theorem start : r.Tidy [] {} := by
  refine ⟨nil_subset _, ?_, fun _ _ => foremost_nil, ?_, ?_, List.Pairwise.nil⟩
  · intro k member
    cases member
  · intro k member
    cases member
  · intro found member
    cases member

variable {back : List Key} {next : Key}

theorem foremost_cons_of_split (tidy : r.Tidy way s) (split : r.choices way = front ++ next :: back)
    (seen : front ⊆ s.keys) (fresh : k ∉ s.keys) : r.Foremost k (next :: way) := by
  refine foremost_cons.mpr ⟨?_, tidy.ahead k fresh⟩
  intro t earlier leads
  exact fresh (mem_of_leads tidy.closed (seen (earlier.mem_of_split split)) leads)

/-- A module that is entered is come to by its first way. -/
theorem isFirstWay_cons (tidy : r.Tidy way s) (isWay : r.IsWay way)
    (split : r.choices way = front ++ next :: back) (seen : front ⊆ s.keys)
    (fresh : next ∉ s.keys) : r.IsFirstWay next (next :: way) := by
  refine ⟨⟨?_, fun on => fresh (tidy.on on), isWay⟩, rfl,
    tidy.foremost_cons_of_split split seen fresh⟩
  rw [split]
  exact mem_append_right _ mem_cons_self

theorem enter (tidy : r.Tidy way s) {target : Path}
    (split : r.choices way = front ++ target.components :: back) (seen : front ⊆ s.keys) :
    r.Tidy (target.components :: way) (s.enter target) := by
  have off {k : Key} (member : k ∈ (s.enter target).keys) (off : k ∉ target.components :: way) :
      k ∈ s.keys ∧ k ∉ way := by
    refine ⟨?_, fun on => off (mem_cons_of_mem _ on)⟩
    rcases mem_cons.mp member with rfl | member
    · exact absurd mem_cons_self off
    · exact member
  refine ⟨?_, ?_, ?_, ?_, tidy.real, tidy.distinct⟩
  · exact cons_subset_cons _ tidy.on
  · intro k member away
    obtain ⟨member, away⟩ := off member away
    exact List.Subset.trans (tidy.closed k member away) (subset_cons_self _ _)
  · intro k fresh
    exact tidy.foremost_cons_of_split split seen fun member =>
      fresh (mem_cons_of_mem _ member)
  · intro k member away
    obtain ⟨member, away⟩ := off member away
    exact tidy.done k member away

/-- A module is left when everything that it leads to has been seen. -/
theorem leave (tidy : r.Tidy (k :: way) s) (first : r.IsFirstWay k (k :: way))
    (seen : r.successors k ⊆ s.keys)
    (noted : ∀ t ∈ r.successors k, t ∈ k :: way → s.Noted (loopOf (k :: way) t)) :
    r.Tidy way s := by
  refine ⟨?_, ?_, ?_, ?_, tidy.real, tidy.distinct⟩
  · exact fun l member => tidy.on (mem_cons_of_mem _ member)
  · intro l member away
    by_cases same : l = k
    · exact same ▸ seen
    · exact tidy.closed l member (by simp [same, away])
  · exact fun l fresh => (foremost_cons.mp (tidy.ahead l fresh)).2
  · intro l member away
    by_cases same : l = k
    · exact ⟨k :: way, same ▸ first, same ▸ noted⟩
    · exact tidy.done l member (by simp [same, away])

theorem note (tidy : r.Tidy way s) {t : Key} (first : r.IsFirstWay k way)
    (depends : t ∈ r.successors k) (on : t ∈ way)
    (keys : cycle.map Path.components = loopOf way t) :
    r.Tidy way (s.note cycle) := by
  have entered := s.keys_note cycle
  have grows := s.grows_note cycle
  refine ⟨entered ▸ tidy.on, entered ▸ tidy.closed, entered ▸ tidy.ahead, ?_, ?_,
    tidy.distinct.note cycle⟩
  · intro l member away
    obtain ⟨w, isFirst, noted⟩ := tidy.done l (entered ▸ member) away
    exact ⟨w, isFirst, fun t depends on => (noted t depends on).grows grows⟩
  · intro found member
    rcases Search.mem_note member with member | rfl
    · exact tidy.real found member
    · have rotated : (rotate cycle).map Path.components ~r loopOf way t :=
        keys ▸ (rotate_isRotated cycle).map Path.components
      have isCycle := first.isWay.isCycle_loopOf first.head depends on
      refine ⟨leastFirst_rotate ?_, isCycle.of_isRotated rotated, _, rotated, k, way, first,
        reverse_loopOf_ends on⟩
      intro empty
      rw [empty] at keys
      cases keys

end Tidy

theorem map_noted {way : List Path} (on : target.components ∈ way.map Path.components) :
    ((way.find? fun q => q.same target).toList ++
        (way.takeWhile fun q => !q.same target).reverse).map Path.components =
      loopOf (way.map Path.components) target.components := by
  have front : (way.map Path.components).takeWhile (fun l => l ≠ target.components) =
      (way.takeWhile fun q => !q.same target).map Path.components := by
    rw [takeWhile_map]
    congr 2
    funext q
    rw [Bool.eq_iff_iff]
    simp [Path.same_iff, ← Bool.not_eq_true]
  rw [loopOf, front, ← map_reverse, map_append]
  cases found : way.find? fun q => q.same target with
  | none =>
    obtain ⟨q, member, key⟩ := mem_map.mp on
    exact absurd (Path.same_iff.mpr key) (find?_eq_none.mp found q member)
  | some q =>
    have same := find?_some found
    rw [Option.toList_some, map_singleton, Path.same_iff.mp same, singleton_append]

variable (r) in
/-- The search has come by the first way, or is about to start. -/
def Route (way : List Key) : Prop :=
  way = [] ∨ ∃ k, r.IsFirstWay k way

theorem Route.isWay (route : r.Route way) : r.IsWay way := by
  rcases route with rfl | ⟨k, first⟩
  · trivial
  · exact first.isWay

variable (r) in
/-- What the search achieves from a module that it has just entered behind a way: it comes back to
the way and leaves it tidy. -/
def Deep (n : Nat) (way : List Path) : Prop :=
  ∀ p s, r.IsFirstWay p.components ((p :: way).map Path.components) →
    r.Tidy ((p :: way).map Path.components) s →
    r.Tidy (way.map Path.components) (follow r n (p :: way) s) ∧
      Search.Grows s (follow r n (p :: way) s)

/-- A choice was followed: the module was entered, and if it is on the way a cycle was noted. -/
structure Followed (way : List Key) (t : Key) (s : Search) : Prop where
  entered : t ∈ s.keys
  noted : t ∈ way → s.Noted (loopOf way t)

theorem Followed.grows {t : Key} {s s' : Search} (followed : Followed way t s)
    (grows : Search.Grows s s') : Followed way t s' :=
  ⟨grows.keys followed.entered, fun on => (followed.noted on).grows grows⟩

theorem tidy_visit {way : List Path} (deep : r.Deep n way)
    (route : r.Route (way.map Path.components)) (tidy : r.Tidy (way.map Path.components) s)
    {back : List Key}
    (split : r.choices (way.map Path.components) = front ++ target.components :: back)
    (seen : front ⊆ s.keys) :
    r.Tidy (way.map Path.components) (r.visit n way s target) ∧
      Search.Grows s (r.visit n way s target) ∧
      Followed (way.map Path.components) target.components (r.visit n way s target) := by
  unfold visit
  split
  · next on =>
      have on := Path.any_same_iff.mp on
      have keys := map_noted on
      rcases route with empty | ⟨k, first⟩
      · rw [empty] at on
        cases on
      · have depends : target.components ∈ r.successors k := by
          rw [← choices_of_head first.head, split]
          exact mem_append_right _ mem_cons_self
        refine ⟨tidy.note first depends on keys, s.grows_note _, ?_, ?_⟩
        · rw [Search.keys_note]
          exact tidy.on on
        · intro _
          rw [← keys]
          exact s.noted_note _
  · next off =>
      have off : target.components ∉ way.map Path.components :=
        fun on => off (Path.any_same_iff.mpr on)
      split
      · next known =>
          exact ⟨tidy, .refl s, Path.any_same_iff.mp known, fun on => absurd on off⟩
      · next fresh =>
          have fresh : target.components ∉ s.keys :=
            fun member => fresh (Path.any_same_iff.mpr member)
          obtain ⟨tidy', grows⟩ := deep target (s.enter target)
            (tidy.isFirstWay_cons route.isWay split seen fresh) (tidy.enter split seen)
          refine ⟨tidy', ?_, grows.keys mem_cons_self, fun on => absurd on off⟩
          exact ⟨List.Subset.trans (subset_cons_self _ _) grows.keys, grows.cycles⟩

theorem tidy_foldl_visit {way : List Path} (deep : r.Deep n way)
    (route : r.Route (way.map Path.components)) (tidy : r.Tidy (way.map Path.components) s)
    {targets : List Path}
    (split : r.choices (way.map Path.components) = front ++ targets.map Path.components)
    (followed : ∀ t ∈ front, Followed (way.map Path.components) t s) :
    r.Tidy (way.map Path.components) (targets.foldl (r.visit n way) s) ∧
      Search.Grows s (targets.foldl (r.visit n way) s) ∧
      ∀ t ∈ r.choices (way.map Path.components),
        Followed (way.map Path.components) t (targets.foldl (r.visit n way) s) := by
  induction targets generalizing s front with
  | nil =>
    rw [map_nil, append_nil] at split
    exact ⟨tidy, .refl s, split ▸ followed⟩
  | cons target targets ih =>
    obtain ⟨tidy', grows, here⟩ := tidy_visit deep route tidy split
      fun t member => (followed t member).entered
    rw [map_cons, append_cons] at split
    obtain ⟨tidy'', grows', all⟩ := ih tidy' split (by
      intro t member
      rcases mem_append.mp member with member | member
      · exact (followed t member).grows grows
      · rw [mem_singleton.mp member]
        exact here)
    exact ⟨tidy'', grows.trans grows', all⟩

theorem IsWay.length_le (isWay : r.IsWay way) : way.length ≤ r.size := by
  have shorter := (subperm_of_subset isWay.nodup isWay.subset).length_le
  rw [length_map] at shorter
  simpa [modules, size] using shorter

/-- A search that is deep enough stays tidy. -/
theorem deep_follow (n : Nat) (way : List Path) (enough : r.size + 1 ≤ n + way.length) :
    r.Deep n way := by
  induction n generalizing way with
  | zero =>
    intro p s first _
    have short := first.isWay.length_le
    rw [length_map, length_cons] at short
    omega
  | succ n ih =>
    intro p s first tidy
    have deep : r.Deep n (p :: way) := ih (p :: way) (by simp; omega)
    have split : r.choices ((p :: way).map Path.components) =
        [] ++ (r.targets p).map Path.components := by
      rw [nil_append, map_targets]
      rfl
    obtain ⟨tidy', grows, followed⟩ :=
      tidy_foldl_visit deep (.inr ⟨_, first⟩) tidy split (by simp)
    rw [follow_succ]
    refine ⟨tidy'.leave first ?_ ?_, grows⟩
    · exact fun t depends => (followed t depends).entered
    · exact fun t depends => (followed t depends).noted

/-! ## The cycles that are found -/

/-- So does the whole search, and it sees all modules. -/
theorem exists_tidy_search (r : Registry) :
    ∃ s : Search, s.cycles = r.cycles ∧ r.Tidy [] s ∧
      (r.modules.map fun m => m.id.components) ⊆ s.keys := by
  have split : r.choices [] = [] ++ (r.modules.map Module.id).map Path.components := by
    rw [nil_append, map_map]
    rfl
  obtain ⟨tidy, _, followed⟩ := tidy_foldl_visit (deep_follow (r.size + 1) [] (Nat.le_refl _))
    (.inl rfl) Tidy.start split (by simp)
  exact ⟨_, cycles_eq_foldl.symm, tidy, fun k member => (followed k member).entered⟩

theorem loopOf_eq_of_ends (distinct : (k :: rest).Nodup) (ends : (k :: rest).reverse <+: way) :
    loopOf way k = k :: rest := by
  obtain ⟨others, rfl⟩ := ends
  have front : ∀ l ∈ rest.reverse, decide (l ≠ k) = true := by
    intro l member
    have other : l ≠ k := fun same =>
      (nodup_cons.mp distinct).1 (same ▸ mem_reverse.mp member)
    exact decide_eq_true other
  rw [loopOf, reverse_cons, append_assoc, takeWhile_append_of_pos front]
  simp

theorem IsCycle.depends (isCycle : r.IsCycle (k :: rest))
    (end_ : (k :: rest).reverse.head? = some last) : k ∈ r.successors last := by
  have linked := isCycle.linked
  rw [Cycle.chain_coe_cons, ← cons_append, isChain_append] at linked
  rw [head?_reverse] at end_
  exact linked.2.2 last end_ k rfl

/-- **A cycle is found if and only if it ends the first way to its last module.** Every cycle that
is found is an elementary cycle of dependencies between registered modules, written down from its
smallest path, and none is found twice, not even read from another module. Of all elementary cycles
those are found that, read from one of their modules, are the end of the first way to their last
module. The figure for cycles is their number. -/
theorem found_iff_endsFirstWay (r : Registry) :
    (∀ found ∈ r.cycles, r.IsCycle (found.map Path.components) ∧ LeastFirst found) ∧
      (r.cycles.Pairwise fun c d => ¬ c.map Path.components ~r d.map Path.components) ∧
      (∀ cycle, r.IsCycle cycle →
        ((∃ found ∈ r.cycles, found.map Path.components ~r cycle) ↔
          ∃ loop, loop ~r cycle ∧ r.EndsFirstWay loop)) ∧
      r.statistics.cycles = r.cycles.length := by
  obtain ⟨s, cycles, tidy, entered⟩ := exists_tidy_search r
  rw [← cycles]
  have real : ∀ found ∈ s.cycles, r.IsCycle (found.map Path.components) ∧ LeastFirst found := by
    intro found member
    obtain ⟨least, isCycle, _⟩ := tidy.real found member
    exact ⟨isCycle, least⟩
  refine ⟨real, ?_, ?_, by rw [cycles]; rfl⟩
  · refine tidy.distinct.imp_of_mem ?_
    intro c d memberC memberD different rotated
    obtain ⟨isCycle, leastC⟩ := real c memberC
    have head := leastC.head_eq (real d memberD).2 rotated
    exact different (eq_of_isRotated_of_head isCycle.distinct rotated head)
  · intro cycle isCycle
    constructor
    · rintro ⟨found, member, rotated⟩
      obtain ⟨_, _, loop, same, ends⟩ := tidy.real found member
      exact ⟨loop, same.symm.trans rotated, ends⟩
    · rintro ⟨loop, rotated, last, way, first, ends⟩
      have isLoop := isCycle.of_isRotated rotated
      cases loop with
      | nil => exact absurd rfl isLoop.nonempty
      | cons k rest =>
        -- The module at the end was left, and the cycles that close there were noted.
        have on : k ∈ way := ends.mem (mem_reverse.mpr mem_cons_self)
        have depends : k ∈ r.successors last := by
          refine isLoop.depends ?_
          obtain ⟨others, split⟩ := ends
          have head := first.head
          rw [← split, head?_append_of_ne_nil _ (by simp)] at head
          exact head
        have registered := entered (first.isWay.subset (mem_of_head? first.head))
        obtain ⟨w, first', noted⟩ := tidy.done last registered not_mem_nil
        obtain rfl := first'.unique first
        obtain ⟨found, member, same⟩ := noted k depends on
        rw [loopOf_eq_of_ends isLoop.distinct ends] at same
        exact ⟨found, member, same.trans rotated⟩

/-- Of two cycles that share their ends only the first one is found: the second one would come to
the shared module by a later way. -/
theorem found_iff_endsFirstWay_missed :
    let a : Module := ⟨⟨"/a"⟩, "", "", none, [], [⟨"b", .file ⟨"/b"⟩⟩, ⟨"c", .file ⟨"/c"⟩⟩], 0⟩
    let b : Module := ⟨⟨"/b"⟩, "", "", none, [], [⟨"d", .file ⟨"/d"⟩⟩], 0⟩
    let c : Module := ⟨⟨"/c"⟩, "", "", none, [], [⟨"d", .file ⟨"/d"⟩⟩], 0⟩
    let d : Module := ⟨⟨"/d"⟩, "", "", none, [], [⟨"a", .file ⟨"/a"⟩⟩], 0⟩
    let r := [a, b, c, d].foldl register {}
    let missed := [a, c, d].map fun m => m.id.components
    r.cycles = [[⟨"/a"⟩, ⟨"/b"⟩, ⟨"/d"⟩]] ∧ r.IsCycle missed ∧
      ¬ ∃ loop, loop ~r missed ∧ r.EndsFirstWay loop := by
  intro a b c d r missed
  have cycles : r.cycles = [[⟨"/a"⟩, ⟨"/b"⟩, ⟨"/d"⟩]] := by decide
  have isCycle : r.IsCycle missed := by
    refine ⟨by decide, by decide, ?_⟩
    show Cycle.Chain _ ((a.id.components :: [c, d].map fun m => m.id.components : List Key) :
      Cycle Key)
    rw [Cycle.chain_coe_cons]
    decide
  refine ⟨cycles, isCycle, ?_⟩
  rw [← (found_iff_endsFirstWay r).2.2.1 missed isCycle, cycles]
  decide

end Tarkib.Registry
