import Tarkib.Proofs.Path.Extension
import Tarkib.Proofs.Text.Bytes

/-!
# Paths of bytes

A slash and a dot are their own bytes, and no other character has them among its bytes. So a path of
texts and the path of their bytes have the same components, up to how names are written.
-/

namespace Tarkib

open Text

/-- The component with its name, if it is one, written in another way. -/
def Component.rename (f : String → String) : Component → Component
  | .name text => .name (f text)
  | c => c

namespace Path

open Component

variable {s : List Char} {cs : List Char}

theorem toList_encode (text : String) : (encode text).toList = text.toList.flatMap encodeChar :=
  String.toList_ofList

theorem flatMap_encodeChar_injective :
    Function.Injective fun cs : List Char => cs.flatMap encodeChar := by
  intro cs ds same
  have read := congrArg (fun bytes => decodeFrom none (bytes.map Char.toNat)) same
  simpa only [decodeFrom_flatMap_encodeChar] using read

/-- Different texts have different bytes. -/
theorem encode_injective : Function.Injective encode :=
  Function.LeftInverse.injective decode_encode

theorem segments_append_free {first : List Char} {others : List (List Char)} (free : '/' ∉ s)
    (found : segments cs = first :: others) : segments (s ++ cs) = (s ++ first) :: others := by
  induction s with
  | nil => exact found
  | cons c s ih =>
    rw [List.mem_cons, not_or] at free
    simp only [List.cons_append, segments, if_neg (Ne.symm free.1), ih free.2]

/-- The bytes between slashes are those of the characters between slashes. -/
theorem segments_flatMap_encodeChar (cs : List Char) :
    segments (cs.flatMap encodeChar) = (segments cs).map (·.flatMap encodeChar) := by
  fun_induction segments cs with
  | case1 => rfl
  | case2 cs ih =>
    rw [List.flatMap_cons, encodeChar_of_ascii (by decide), List.singleton_append, segments_slash,
      ih, List.map_cons, List.flatMap_nil]
  | case3 c cs ne none ih => exact absurd none (segments_ne_nil cs)
  | case4 c cs ne first others found ih =>
    rw [found, List.map_cons] at ih
    rw [List.flatMap_cons, List.map_cons, List.flatMap_cons]
    exact segments_append_free (notMem_encodeChar (by decide) ne) ih

theorem encodes_iff {t : List Char} (own : t.flatMap encodeChar = t) :
    s.flatMap encodeChar = t ↔ s = t := by
  rw [← flatMap_encodeChar_injective.eq_iff (a := s), own]

theorem ofSegment?_of_ne (some : s ≠ []) (dot : s ≠ ['.']) (dots : s ≠ ['.', '.']) :
    ofSegment? s = .some (.name (String.ofList s)) := by
  unfold ofSegment?
  split <;> simp_all

theorem ofSegment?_flatMap_encodeChar (s : List Char) :
    ofSegment? (s.flatMap encodeChar) = (ofSegment? s).map (rename encode) := by
  have none : s.flatMap encodeChar = [] ↔ s = [] := encodes_iff rfl
  have one : s.flatMap encodeChar = ['.'] ↔ s = ['.'] := encodes_iff (by decide)
  have two : s.flatMap encodeChar = ['.', '.'] ↔ s = ['.', '.'] := encodes_iff (by decide)
  by_cases first : s = []
  · rw [none.mpr first, first]
    rfl
  by_cases second : s = ['.']
  · rw [one.mpr second, second]
    rfl
  by_cases third : s = ['.', '.']
  · rw [two.mpr third, third]
    rfl
  rw [ofSegment?_of_ne first second third,
    ofSegment?_of_ne (mt none.mp first) (mt one.mp second) (mt two.mp third)]
  simp [rename, encode]

theorem frontOf_map_encode (ss : List (List Char)) :
    frontOf (ss.map (·.flatMap encodeChar)) = (frontOf ss).map (rename encode) := by
  have parts : ∀ ss : List (List Char), (ss.map (·.flatMap encodeChar)).filterMap ofSegment? =
      (ss.filterMap ofSegment?).map (rename encode) := by
    intro ss
    rw [List.filterMap_map, List.map_filterMap]
    exact List.filterMap_congr fun s _ => ofSegment?_flatMap_encodeChar s
  have plain {s : List Char} (ss : List (List Char)) (some : s ≠ []) (dot : s ≠ ['.']) :
      frontOf (s :: ss) = (s :: ss).filterMap ofSegment? := by
    unfold frontOf
    split <;> simp_all
  cases ss with
  | nil => rfl
  | cons s ss =>
    by_cases none : s = []
    · simp [none, frontOf, parts, rename]
    by_cases dot : s = ['.']
    · simp [dot, frontOf, parts, rename, encodeChar_of_ascii]
    have some : s.flatMap encodeChar ≠ [] := mt (encodes_iff rfl).mp none
    have other : s.flatMap encodeChar ≠ ['.'] := mt (encodes_iff (by decide)).mp dot
    rw [plain ss none dot, ← parts, List.map_cons, plain _ some other]

/-- The components of a path of bytes are those of the text, in bytes. -/
theorem components_encoded (p : Path) :
    p.encoded.components = p.components.map (rename encode) := by
  by_cases empty : p.text = ""
  · obtain ⟨text⟩ := p
    cases empty
    decide
  · have some : p.encoded.text ≠ "" := by
      intro none
      exact empty (encode_injective none)
    rw [components_eq_frontOf some, components_eq_frontOf empty, encoded, toList_encode,
      segments_flatMap_encodeChar, frontOf_map_encode]

theorem isAbsolute_encoded (p : Path) : p.encoded.isAbsolute = p.isAbsolute := by
  rw [Bool.eq_iff_iff, isAbsolute_iff, isAbsolute_iff, components_encoded]
  rcases p.components with _ | ⟨c, _⟩
  · rfl
  · cases c <;> simp [rename]

theorem rename_injective : Function.Injective (rename encode) := by
  intro a b same
  cases a <;> cases b <;> simp_all [rename, encode_injective.eq_iff]

theorem rename_here (f : String → String) : rename f .here = .here := rfl

theorem rename_up (f : String → String) : rename f .up = .up := rfl

theorem rename_beq (a b : Component) : (rename encode a == rename encode b) = (a == b) := by
  rw [Bool.eq_iff_iff, beq_iff_eq, beq_iff_eq, rename_injective.eq_iff]

theorem wayBetween_map_rename (parted : Bool) (target base : List Component) :
    wayBetween parted (target.map (rename encode)) (base.map (rename encode)) =
      (wayBetween parted target base).map (List.map (rename encode)) := by
  fun_induction wayBetween parted target base with
  | case1 => simp [wayBetween]
  | case2 parted b base ih =>
    rw [List.map_nil] at ih
    rw [List.map_nil, List.map_cons, wayBetween, ih, Option.map_map, Option.map_map]
    rfl
  | case3 parted t target b base meet ih =>
    rw [← rename_beq] at meet
    rw [List.map_cons, List.map_cons, ← ih]
    cases spelled : rename encode b <;> rw [spelled] at meet <;> rw [wayBetween, if_pos meet]
    all_goals simp
  | case4 parted t target base apart ih =>
    rw [← rename_beq, rename_here] at apart
    change wayBetween parted (rename encode t :: _) (.here :: _) = _
    rw [wayBetween, if_neg apart, ih, Option.map_map, Option.map_map]
    rfl
  | case5 parted t target base apart =>
    rw [← rename_beq, rename_up] at apart
    change wayBetween parted (rename encode t :: _) (.up :: _) = _
    rw [wayBetween, if_neg apart]
    rfl
  | case6 parted t target base b noDot noUp apart =>
    rw [← rename_beq] at apart
    rw [List.map_cons, List.map_cons]
    cases b <;> simp_all [wayBetween, rename]

/-- The way between two paths is the same in bytes. -/
theorem relativeTo?_encoded (p base : Path) :
    p.encoded.relativeTo? base.encoded = (p.relativeTo? base).map (List.map (rename encode)) := by
  have dots : ∀ parts : List Component, dropInnerDots (parts.map (rename encode)) =
      (dropInnerDots parts).map (rename encode) := by
    intro parts
    cases parts with
    | nil => rfl
    | cons c parts =>
      rw [List.map_cons, dropInnerDots, dropInnerDots, List.map_cons, List.filter_map]
      congr 2
      refine List.filter_congr fun d _ => ?_
      rw [Function.comp_apply, bne, bne, ← rename_beq d, rename_here]
  rw [relativeTo?, relativeTo?, isAbsolute_encoded, isAbsolute_encoded, components_encoded,
    components_encoded, wayBetween_map_rename]
  split_ifs
  · rw [Option.map_map, Option.map_map]
    exact congrArg (Option.map · _) (funext dots)
  · rfl
  · rfl

/-- A name that is read as text and written again is a name. -/
theorem isStep_reread {c : Component} (step : c.IsStep) :
    (c.rename fun name => encode (decode name)).IsStep := by
  cases c with
  | root => exact absurd step not_isStep_root
  | here | up => exact step
  | name text =>
    obtain ⟨free, read⟩ := step
    rw [Component.text] at free read
    have same {t : List Char} (own : t.flatMap encodeChar = t) (ascii : ∀ c ∈ t, c.toNat < 128)
        (spelled : (encode (decode text)).toList = t) : text.toList = t := by
      rw [toList_encode, encodes_iff own] at spelled
      rw [← spelled] at ascii
      rw [← eq_of_ascii_decode ascii, spelled]
    have noSlash : '/' ∉ (encode (decode text)).toList := by
      intro member
      rw [toList_encode, List.mem_flatMap] at member
      obtain ⟨c, inside, byte⟩ := member
      have slash : c = '/' := by
        by_contra other
        exact notMem_encodeChar (by decide) other byte
      rw [slash, decode, String.toList_ofList] at inside
      have found := mem_of_mem_decodeFrom (by simp) inside (by decide)
      obtain ⟨d, known, value⟩ := List.mem_map.mp found
      rw [Char.toNat_inj.mp value] at known
      exact free known
    refine ⟨noSlash, ?_⟩
    change ofSegment? (encode (decode text)).toList = _
    rw [ofSegment?_of_ne, String.ofList_toList]
    · rfl
    all_goals
      intro spelled
      rw [same (by decide) (by simp) spelled] at read
      cases read

end Path

end Tarkib
