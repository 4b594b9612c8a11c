import Mathlib.Data.List.Basic
import Tarkib.Proofs.Path.Order

/-!
# Components of absolute paths

The components of an absolute path are the root and what stands between the slashes behind it, but
for single dots. They are read off the text and can be written again, and the way from one path to
another is computed from them.
-/

namespace Tarkib

open List

variable {c : Component}

namespace Component

/-- A component that reads back from its own text: a name or two dots. -/
def IsStep (c : Component) : Prop :=
  '/' ∉ c.text.toList ∧ ofSegment? c.text.toList = some c

theorem toList_text_of_ofSegment? {segment : List Char}
    (read : ofSegment? segment = some c) : c.text.toList = segment := by
  unfold ofSegment? at read
  split at read <;> simp_all
  · rw [← read]
    rfl
  · rw [← read, text, String.toList_ofList]

theorem isStep_of_ofSegment? {segment : List Char} (free : '/' ∉ segment)
    (read : ofSegment? segment = some c) : c.IsStep := by
  rw [IsStep, toList_text_of_ofSegment? read]
  exact ⟨free, read⟩

theorem not_isStep_root : ¬ IsStep .root :=
  fun step => step.1 (by decide)

end Component

namespace Path

open Component

/-! ## Stretches of text -/

theorem segments_ne_nil (cs : List Char) : segments cs ≠ [] := by
  fun_cases segments cs <;> simp_all

theorem segments_slash (cs : List Char) : segments ('/' :: cs) = [] :: segments cs := by
  simp [segments]

variable {s : List Char} {ss rest : List (List Char)} {p : Path} {parts : List Component}

theorem segments_append_slash (free : '/' ∉ s) (cs : List Char) :
    segments (s ++ '/' :: cs) = s :: segments cs := by
  induction s with
  | nil => exact segments_slash cs
  | cons c s ih =>
    rw [mem_cons, not_or] at free
    simp only [cons_append, segments, if_neg (Ne.symm free.1), ih free.2]

theorem segments_of_notMem (free : '/' ∉ s) : segments s = [s] := by
  induction s with
  | nil => rfl
  | cons c s ih =>
    rw [mem_cons, not_or] at free
    simp only [segments, if_neg (Ne.symm free.1), ih free.2]

theorem notMem_of_mem_segments {cs : List Char} (member : s ∈ segments cs) : '/' ∉ s := by
  fun_induction segments cs generalizing s with
  | case1 => simp_all
  | case2 cs ih =>
    rcases mem_cons.mp member with rfl | later
    · exact not_mem_nil
    · exact ih later
  | case3 c cs ne none ih => exact absurd none (segments_ne_nil cs)
  | case4 c cs ne first others found ih =>
    rw [found] at ih
    rcases mem_cons.mp member with rfl | later
    · rw [mem_cons, not_or]
      exact ⟨Ne.symm ne, ih mem_cons_self⟩
    · exact ih (mem_cons_of_mem _ later)

theorem segments_joinSegments (some : ss ≠ []) (free : ∀ s ∈ ss, '/' ∉ s) :
    segments (joinSegments ss) = ss := by
  fun_induction joinSegments ss with
  | case1 => exact absurd rfl some
  | case2 s => exact segments_of_notMem (free s mem_cons_self)
  | case3 s ss more ih =>
    rw [segments_append_slash (free s mem_cons_self)]
    rw [ih more fun t member => free t (mem_cons_of_mem _ member)]

theorem joinSegments_eq_intercalate (ss : List (List Char)) :
    joinSegments ss = ['/'].intercalate ss := by
  fun_induction joinSegments ss with
  | case1 => rfl
  | case2 s => simp
  | case3 s ss more ih =>
    obtain ⟨t, ts, rfl⟩ := exists_cons_of_ne_nil more
    simp [ih]

/-- A text is put together from what stands between its slashes. -/
theorem joinSegments_segments (cs : List Char) : joinSegments (segments cs) = cs := by
  fun_induction segments cs with
  | case1 => rfl
  | case2 cs ih =>
    obtain ⟨s, more, spelled⟩ := exists_cons_of_ne_nil (segments_ne_nil cs)
    rw [spelled] at ih ⊢
    rw [joinSegments, ih, nil_append]
    exact cons_ne_nil s more
  | case3 c cs ne none ih => exact absurd none (segments_ne_nil cs)
  | case4 c cs ne first others found ih =>
    rw [found] at ih
    cases others with
    | nil | cons s more => exact congrArg (c :: ·) ih

theorem joinSegments_concat (some : ss ≠ []) (s : List Char) :
    joinSegments (ss ++ [s]) = joinSegments ss ++ '/' :: s := by
  fun_induction joinSegments ss with
  | case1 => exact absurd rfl some
  | case2 => rfl
  | case3 first rest longer ih =>
    rw [cons_append, joinSegments, ih longer, append_assoc, cons_append]
    exact append_ne_nil_of_left_ne_nil longer [s]

theorem joinSegments_prefix (ss more : List (List Char)) :
    joinSegments ss <+: joinSegments (ss ++ more) := by
  fun_induction joinSegments ss with
  | case1 => exact nil_prefix
  | case2 s =>
    cases more with
    | nil => exact prefix_refl s
    | cons t more => exact prefix_append s _
  | case3 s ss some ih =>
    rw [cons_append, joinSegments]
    · exact (prefix_append_right_inj s).mpr ((prefix_cons_inj '/').mpr ih)
    · exact append_ne_nil_of_left_ne_nil some more

/-! ## Components -/

/-- The components of an absolute path. -/
theorem components_of_isAbsolute (absolute : p.isAbsolute = true) :
    p.components = .root :: (segments p.text.toList).filterMap ofSegment? := by
  simp [components, absolute]

theorem exists_segments_of_isAbsolute (absolute : p.isAbsolute = true) :
    ∃ others, segments p.text.toList = [] :: others := by
  obtain ⟨cs, eq⟩ : ∃ cs, p.text.toList = '/' :: cs := by
    rw [isAbsolute, beq_iff_eq, head?_eq_some_iff] at absolute
    exact absolute
  exact ⟨segments cs, by rw [eq, segments_slash]⟩

theorem exists_components (p : Path) :
    ∃ front behind, p.components = front ++ behind ∧
      (p.isAbsolute = true ∧ front = [.root] ∨
        p.isAbsolute = false ∧ (front = [.here] ∨ front = [])) ∧
      ∀ c ∈ behind, c.IsStep := by
  have steps {ss : List (List Char)} (inside : ss ⊆ segments p.text.toList) :
      ∀ c ∈ ss.filterMap ofSegment?, c.IsStep := by
    intro c member
    obtain ⟨s, present, read⟩ := mem_filterMap.mp member
    exact isStep_of_ofSegment? (notMem_of_mem_segments (inside present)) read
  cases absolute : p.isAbsolute with
  | true =>
    exact ⟨_, _, components_of_isAbsolute absolute, .inl ⟨rfl, rfl⟩, steps (List.Subset.refl _)⟩
  | false =>
    simp only [components, absolute, Bool.false_eq_true, if_false]
    split
    · next rest spelled =>
        refine ⟨[.here], _, rfl, .inr ⟨trivial, .inl rfl⟩, steps ?_⟩
        rw [spelled]
        exact subset_cons_self _ _
    · exact ⟨[], _, rfl, .inr ⟨trivial, .inr rfl⟩, steps (List.Subset.refl _)⟩

theorem isStep_of_fileName? {name : String} (named : p.fileName? = some name) :
    (Component.name name).IsStep := by
  have member : .name name ∈ p.components := by
    unfold fileName? at named
    split at named
    · next last =>
        cases named
        exact mem_of_getLast? last
    · cases named
  obtain ⟨front, behind, split, start, steps⟩ := exists_components p
  rw [split] at member
  rcases mem_append.mp member with first | later
  · rcases start with ⟨_, rfl⟩ | ⟨_, rfl | rfl⟩ <;> simp at first
  · exact steps _ later

theorem isStep_of_mem_tail (absolute : p.isAbsolute = true)
    (member : c ∈ p.components.tail) : c.IsStep := by
  rw [components_of_isAbsolute absolute, tail_cons] at member
  obtain ⟨segment, inside, read⟩ := mem_filterMap.mp member
  exact isStep_of_ofSegment? (notMem_of_mem_segments inside) read

theorem root_notMem_filterMap (free : ∀ s ∈ ss, '/' ∉ s) : .root ∉ ss.filterMap ofSegment? := by
  intro member
  obtain ⟨s, inside, read⟩ := mem_filterMap.mp member
  exact not_isStep_root (isStep_of_ofSegment? (free s inside) read)

theorem isAbsolute_iff : p.isAbsolute = true ↔ p.components.head? = some .root := by
  refine ⟨fun absolute => by rw [components_of_isAbsolute absolute, head?_cons], ?_⟩
  intro first
  cases absolute : p.isAbsolute with
  | true => rfl
  | false =>
    have free : ∀ s ∈ segments p.text.toList, '/' ∉ s := fun _ => notMem_of_mem_segments
    have member := mem_of_head? first
    simp only [components, absolute, if_false, Bool.false_eq_true] at member
    split at member
    · rename_i rest eq
      rcases mem_cons.mp member with wrong | member
      · cases wrong
      · rw [eq] at free
        exact absurd member
          (root_notMem_filterMap fun s inside => free s (mem_cons_of_mem _ inside))
    · exact absurd member (root_notMem_filterMap free)

theorem filterMap_segments_intercalate (steps : ∀ c ∈ parts, c.IsStep) :
    (segments (String.intercalate "/" (parts.map Component.text)).toList).filterMap ofSegment? =
      parts := by
  have joined : (String.intercalate "/" (parts.map Component.text)).toList =
      joinSegments (parts.map fun c => c.text.toList) := by
    simp [joinSegments_eq_intercalate, String.toList_intercalate, Function.comp_def]
  rw [joined]
  cases parts with
  | nil => rfl
  | cons c parts =>
    rw [segments_joinSegments (by simp) (by simpa using fun d inside => (steps d inside).1),
      filterMap_map]
    exact (filterMap_congr fun d inside => (steps d inside).2).trans filterMap_some

/-- Components that are written are read again. -/
theorem components_ofComponents (steps : ∀ c ∈ parts, c.IsStep) :
    (ofComponents (.root :: parts)).components = .root :: parts := by
  have spelled : (ofComponents (.root :: parts)).text.toList =
      '/' :: (String.intercalate "/" (parts.map Component.text)).toList := by
    simp [ofComponents, textOf]
  have absolute : (ofComponents (.root :: parts)).isAbsolute = true := by
    simp [isAbsolute, spelled]
  rw [components_of_isAbsolute absolute, spelled, segments_slash, filterMap_cons_none rfl,
    filterMap_segments_intercalate steps]

/-! ## The path above -/

theorem ofSegment?_eq_none_iff : ofSegment? s = none ↔ counts false s = false := by
  unfold ofSegment? counts
  split <;> simp_all

theorem filterMap_dropIdle (ss : List (List Char)) :
    (dropIdle false ss).filterMap ofSegment? = ss.filterMap ofSegment? := by
  induction ss with
  | nil => rfl
  | cons s ss ih =>
    cases idle : counts false s with
    | true => simp [dropIdle, idle]
    | false => simp [dropIdle, idle, ih, ofSegment?_eq_none_iff.mpr idle]

theorem dropIdle_suffix (relative : Bool) (ss : List (List Char)) :
    dropIdle relative ss <:+ ss := by
  induction ss with
  | nil => exact nil_suffix
  | cons s ss ih =>
    cases idle : counts (relative && ss.isEmpty) s with
    | true => simp [dropIdle, idle]
    | false => simpa [dropIdle, idle] using ih.trans (suffix_cons s ss)

theorem exists_ofSegment?_of_dropIdle (left : dropIdle false ss = s :: rest) :
    ∃ c, ofSegment? s = some c := by
  induction ss with
  | nil => cases left
  | cons t ss ih =>
    cases idle : counts false t with
    | false => exact ih (by simpa [dropIdle, idle] using left)
    | true =>
      have here : t = s := by simp_all [dropIdle]
      rw [← Option.isSome_iff_exists, ← Option.ne_none_iff_isSome, ← here, ne_eq,
        ofSegment?_eq_none_iff, idle]
      exact Bool.noConfusion

theorem ne_nil_of_dropIdle {relative : Bool} (left : dropIdle relative ss = s :: rest) :
    s ≠ [] := by
  induction ss with
  | nil => cases left
  | cons t ss ih =>
    rw [dropIdle] at left
    split at left
    · next here =>
        obtain ⟨rfl, _⟩ := List.cons.inj left
        rintro rfl
        cases here
    · exact ih left

theorem exists_segments_parent? {q : Path} (above : p.parent? = some q) (some : q.text ≠ "") :
    ∃ kept more, segments p.text.toList = kept ++ more ∧ (∃ s ∈ more, s ≠ []) ∧
      (q.text.toList = joinSegments kept ∧ kept ≠ [] ∨
        kept = [] ∧ p.isAbsolute = true ∧ q.text = "/") := by
  unfold parent? at above
  dsimp only at above
  split at above
  · cases above
  · next last before left =>
      obtain ⟨idle, turned⟩ := dropIdle_suffix (!p.isAbsolute) (segments p.text.toList).reverse
      rw [left, eq_comm, reverse_eq_iff, reverse_append, reverse_cons] at turned
      have named := ne_nil_of_dropIdle left
      split at above
      · next none =>
          cases above
          cases absolute : p.isAbsolute with
          | false => simp [absolute] at some
          | true =>
            refine ⟨[], segments p.text.toList, rfl, ⟨last, ?_, named⟩, .inr ⟨rfl, rfl, rfl⟩⟩
            simp [turned]
      · next kept more =>
          cases above
          obtain ⟨gap, inner⟩ := dropIdle_suffix (!p.isAbsolute) before
          refine ⟨(dropIdle (!p.isAbsolute) before).reverse,
            gap.reverse ++ [last] ++ idle.reverse, ?_, ⟨last, by simp, named⟩,
            .inl ⟨String.toList_ofList, by simpa using more⟩⟩
          have outer := congrArg List.reverse inner
          rw [reverse_append] at outer
          rw [turned, ← outer, append_assoc, append_assoc, append_assoc]

theorem components_of_kept {kept : List (List Char)} (absolute : p.isAbsolute = true)
    (start : kept <+: segments p.text.toList) (long : kept ≠ [] ∧ kept ≠ [[]]) :
    (Path.mk (String.ofList (joinSegments kept))).components =
      .root :: kept.filterMap ofSegment? := by
  obtain ⟨others, eq⟩ := exists_segments_of_isAbsolute absolute
  have free : ∀ s ∈ kept, '/' ∉ s := fun s inside =>
    notMem_of_mem_segments (start.subset inside)
  obtain ⟨s, more, rfl⟩ := exists_cons_of_ne_nil long.1
  rw [eq, cons_prefix_cons] at start
  obtain ⟨rfl, start⟩ := start
  have further : more ≠ [] := fun none => long.2 (by rw [none])
  obtain ⟨t, more, rfl⟩ := exists_cons_of_ne_nil further
  rw [components_of_isAbsolute (by simp [isAbsolute, joinSegments]), String.toList_ofList,
    segments_joinSegments (cons_ne_nil _ _) free]

/-- The path above an absolute path has all components but the last one. -/
theorem exists_parent? (absolute : p.isAbsolute = true) (deep : p.components ≠ [.root]) :
    ∃ q, p.parent? = some q ∧ q.components = p.components.dropLast := by
  have parts := components_of_isAbsolute absolute
  have turned := filterMap_dropIdle (segments p.text.toList).reverse
  rw [filterMap_reverse] at turned
  simp only [parent?, absolute, Bool.not_true]
  split
  · rename_i left
    rw [left, filterMap_nil, eq_comm, reverse_eq_nil_iff] at turned
    exact absurd (by rw [parts, turned]) deep
  · rename_i last before left
    obtain ⟨c, read⟩ := exists_ofSegment?_of_dropIdle left
    -- The components before the last one are those of the stretches before it.
    have above : p.components.dropLast = .root :: (before.filterMap ofSegment?).reverse := by
      rw [left, filterMap_cons_some read, eq_comm, reverse_eq_iff] at turned
      rw [parts, turned, reverse_cons, ← cons_append, dropLast_concat]
    rw [above, ← filterMap_dropIdle before]
    split
    · rename_i none
      refine ⟨_, rfl, ?_⟩
      rw [none]
      decide
    · rename_i kept some
      refine ⟨_, rfl, ?_⟩
      have ends : dropIdle false before <:+ (segments p.text.toList).reverse :=
        (dropIdle_suffix false before).trans
          (((suffix_cons last before).trans (left ▸ suffix_refl _)).trans
            (dropIdle_suffix false _))
      obtain ⟨s, more, first⟩ := exists_cons_of_ne_nil fun none => some none
      obtain ⟨d, counted⟩ := exists_ofSegment?_of_dropIdle first
      rw [components_of_kept absolute (by simpa using reverse_prefix.mpr ends) ?_,
        filterMap_reverse]
      rw [first]
      refine ⟨by simp, fun idle => ?_⟩
      rw [reverse_eq_iff] at idle
      obtain ⟨rfl, rfl⟩ := List.cons.inj idle
      cases counted

theorem exists_parent?_of_append {directory : Path} {rest : List Component}
    (absolute : directory.isAbsolute = true) (below : rest ≠ [])
    (within : p.components = directory.components ++ rest) :
    ∃ q, p.parent? = some q ∧ q.components = directory.components ++ rest.dropLast := by
  rw [isAbsolute_iff] at absolute
  obtain ⟨steps, eq⟩ := head?_eq_some_iff.mp absolute
  have start : p.isAbsolute = true := by
    rw [isAbsolute_iff, within, eq]
    rfl
  have deep : p.components ≠ [.root] := by
    rw [within, eq]
    simp [below]
  rw [← dropLast_append_of_ne_nil below, ← within]
  exact exists_parent? start deep

/-! ## Ways between paths -/

theorem wayBetween_append (common target base : List Component) :
    wayBetween false (common ++ target) (common ++ base) = wayBetween false target base := by
  induction common with
  | nil => rfl
  | cons c common ih => simpa [wayBetween] using ih

/-- There is a way unless two dots would have to be walked back. -/
theorem isSome_wayBetween (parted : Bool) (target : List Component) {base : List Component}
    (straight : .up ∉ base) : (wayBetween parted target base).isSome = true := by
  fun_induction wayBetween parted target base <;> simp_all

/-- The way depends only on what follows the common start. -/
theorem relativeTo?_eq_wayBetween {base : Path} {common target rest : List Component}
    (absolute : common.head? = some .root) (first : p.components = common ++ target)
    (second : base.components = common ++ rest) :
    p.relativeTo? base = (wayBetween false target rest).map dropInnerDots := by
  have start : ∀ parts : List Component, (common ++ parts).head? = some .root := by
    intro parts
    rw [head?_append, absolute]
    rfl
  have left : p.isAbsolute = true := isAbsolute_iff.mpr (first ▸ start target)
  have right : base.isAbsolute = true := isAbsolute_iff.mpr (second ▸ start rest)
  rw [relativeTo?, left, right, first, second, wayBetween_append]
  rfl

end Path

end Tarkib
