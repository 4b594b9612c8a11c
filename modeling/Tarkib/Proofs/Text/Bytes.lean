import Mathlib.Data.List.Basic
import Mathlib.Tactic.Ring
import Mathlib.Tactic.SplitIfs
import Tarkib.Text.Bytes

/-!
# Reading bytes

Bytes are those of a text exactly if reading them and writing what was read gives them back. Bytes
that are no text lose something, but never their ASCII characters. This rests on an invariant of a
character that has begun: whatever the next bytes are, it will not be an ASCII character
(`Begun.Sound`).
-/

namespace Tarkib.Text

open List

variable {c : Char} {b : Nat} {p q : Begun} {begun? : Option Begun} {bytes rest : List Nat}

/-! ## Bytes of texts -/

theorem toNat_ofNat_of_isValidChar {n : Nat} (valid : n.isValidChar) :
    (Char.ofNat n).toNat = n := by
  rw [Char.ofNat, dif_pos valid]
  rfl

theorem map_toNat_encodeChar (c : Char) :
    (encodeChar c).map Char.toNat = (String.utf8EncodeChar c).map UInt8.toNat := by
  rw [encodeChar, map_map]
  refine map_congr_left fun b _ => ?_
  have bound := b.toNat_lt
  exact toNat_ofNat_of_isValidChar (.inl (by omega))

/-- An ASCII character is its own byte. -/
theorem encodeChar_of_ascii (ascii : c.toNat < 128) : encodeChar c = [c] := by
  have same : c.val.toNat = c.toNat := rfl
  have byte : (UInt8.ofNat c.toNat).toNat = c.toNat := by
    rw [UInt8.toNat_ofNat']
    omega
  simp only [encodeChar, String.utf8EncodeChar, same]
  rw [if_pos (by omega), map_singleton, byte, Char.ofNat_toNat]

/-- The bytes of any other character are no ASCII characters. -/
theorem notMem_encodeChar {d : Char} (ascii : d.toNat < 128) (other : c ≠ d) :
    d ∉ encodeChar c := by
  by_cases small : c.toNat < 128
  · rw [encodeChar_of_ascii small, mem_singleton]
    exact Ne.symm other
  intro member
  have byte : d.toNat ∈ (String.utf8EncodeChar c).map UInt8.toNat := by
    rw [← map_toNat_encodeChar]
    exact mem_map_of_mem member
  have same : c.val.toNat = c.toNat := rfl
  simp only [String.utf8EncodeChar, same] at byte
  split_ifs at byte <;> simp at byte <;> omega

/-! ## Reading what was written -/

theorem next?_eq (low : p.low ≤ b) (high : b ≤ p.high) :
    p.next? b = some { needed := p.needed - 1, value := p.value * 64 + (b - 0x80) } :=
  if_pos ⟨low, high⟩

/-- A character that gets all bytes it needs is written. The first of them has bounds of its own. -/
theorem decodeFrom_complete (enough : (b :: bytes).length = p.needed) (low : p.low ≤ b)
    (high : b ≤ p.high) (further : ∀ d ∈ bytes, 0x80 ≤ d ∧ d ≤ 0xBF) :
    decodeFrom (some p) (b :: bytes ++ rest) =
      Char.ofNat ((b :: bytes).foldl (fun v d => v * 64 + (d - 0x80)) p.value) ::
        decodeFrom none rest := by
  induction bytes generalizing p b with
  | nil =>
    have last : p.needed - 1 = 0 := by rw [← enough]; rfl
    simp [decodeFrom, readByte, next?_eq low high, settle, last]
  | cons d bytes ih =>
    have more : p.needed - 1 = (d :: bytes).length := by rw [← enough]; rfl
    have left : p.needed - 1 ≠ 0 := by rw [more]; exact Nat.succ_ne_zero _
    have bounds := further d mem_cons_self
    have later := ih (p := { needed := p.needed - 1, value := p.value * 64 + (b - 0x80) })
      more.symm bounds.1 bounds.2 fun e member => further e (mem_cons_of_mem _ member)
    rw [cons_append, decodeFrom, readByte, next?_eq low high, foldl_cons, ← later]
    simp only [settle, if_neg left, nil_append]

/-- A sequence that starts a character is read to its end. -/
theorem decodeFrom_sequence {first : Nat} (start : Begun.ofByte? first = some p)
    (enough : (b :: bytes).length = p.needed) (low : p.low ≤ b) (high : b ≤ p.high)
    (further : ∀ d ∈ bytes, 0x80 ≤ d ∧ d ≤ 0xBF)
    (value : (b :: bytes).foldl (fun v d => v * 64 + (d - 0x80)) p.value = c.toNat) :
    decodeFrom none (first :: b :: bytes ++ rest) = c :: decodeFrom none rest := by
  have more : p.needed ≠ 0 := by rw [← enough]; exact Nat.succ_ne_zero _
  have complete : decodeFrom (some p) (b :: bytes ++ rest) = c :: decodeFrom none rest := by
    rw [decodeFrom_complete enough low high further, value, Char.ofNat_toNat]
  rw [cons_append, decodeFrom, readByte, start, ← complete]
  simp only [settle, if_neg more, nil_append]

/-- The bounds on the second byte admit all characters that take three bytes. -/
theorem exists_ofByte?_three {v : Nat} (least : 0x7FF < v) (most : v ≤ 0xFFFF)
    (valid : v < 0xD800 ∨ 0xDFFF < v) :
    ∃ p, Begun.ofByte? (v / 4096 + 224) = some p ∧ p.needed = 2 ∧ p.value = v / 4096 ∧
      p.low ≤ v / 64 % 64 + 128 ∧ v / 64 % 64 + 128 ≤ p.high := by
  unfold Begun.ofByte?
  split_ifs <;> simp <;> omega

/-- The bounds on the second byte admit all characters that take four bytes. -/
theorem exists_ofByte?_four {v : Nat} (least : 0xFFFF < v) (most : v < 0x110000) :
    ∃ p, Begun.ofByte? (v / 262144 + 240) = some p ∧ p.needed = 3 ∧ p.value = v / 262144 ∧
      p.low ≤ v / 4096 % 64 + 128 ∧ v / 4096 % 64 + 128 ≤ p.high := by
  unfold Begun.ofByte?
  split_ifs <;> simp <;> omega

/-- The bytes of a character are read as the character. -/
theorem decodeFrom_encodeChar (c : Char) (rest : List Nat) :
    decodeFrom none ((encodeChar c).map Char.toNat ++ rest) = c :: decodeFrom none rest := by
  have same : c.val.toNat = c.toNat := rfl
  have valid : c.toNat < 0xD800 ∨ 0xDFFF < c.toNat ∧ c.toNat < 0x110000 := c.valid
  have byte : ∀ n < 256, (UInt8.ofNat n).toNat = n := by
    intro n small
    rw [UInt8.toNat_ofNat', Nat.mod_eq_of_lt small]
  have tail : ∀ n, (UInt8.ofNat (n % 64 + 128)).toNat = n % 64 + 128 := fun n => byte _ (by omega)
  have inner : ∀ n, 0x80 ≤ n % 64 + 128 ∧ n % 64 + 128 ≤ 0xBF := fun n => by omega
  rw [map_toNat_encodeChar]
  simp only [String.utf8EncodeChar, same]
  split_ifs with one two three
  · have start : Begun.ofByte? c.toNat = some { needed := 0, value := c.toNat } :=
      if_pos (by omega)
    simp [byte c.toNat (by omega), decodeFrom, readByte, start, settle]
  · have first : (UInt8.ofNat (c.toNat / 64 % 32 + 192)).toNat = c.toNat / 64 + 192 := by
      rw [byte _ (by omega)]
      omega
    have start : Begun.ofByte? (c.toNat / 64 + 192) =
        some { needed := 1, value := c.toNat / 64 } := by
      rw [Begun.ofByte?, if_neg (by omega), if_pos (by omega), Nat.add_sub_cancel]
    simp only [map_cons, map_nil, first, tail]
    refine decodeFrom_sequence start rfl (inner _).1 (inner _).2 (by simp) ?_
    simp only [foldl_cons, foldl_nil]
    omega
  · have first : (UInt8.ofNat (c.toNat / 4096 % 16 + 224)).toNat = c.toNat / 4096 + 224 := by
      rw [byte _ (by omega)]
      omega
    obtain ⟨p, start, needed, value, low, high⟩ :=
      exists_ofByte?_three (Nat.lt_of_not_le two) three (by omega)
    simp only [map_cons, map_nil, first, tail]
    refine decodeFrom_sequence start needed.symm low high (by simp [inner]) ?_
    simp only [foldl_cons, foldl_nil, value]
    omega
  · have first : (UInt8.ofNat (c.toNat / 262144 % 8 + 240)).toNat = c.toNat / 262144 + 240 := by
      rw [byte _ (by omega)]
      omega
    obtain ⟨p, start, needed, value, low, high⟩ :=
      exists_ofByte?_four (Nat.lt_of_not_le three) (by omega)
    simp only [map_cons, map_nil, first, tail]
    refine decodeFrom_sequence start needed.symm low high (by simp [inner]) ?_
    simp only [foldl_cons, foldl_nil, value]
    omega

theorem decodeFrom_flatMap_encodeChar (cs : List Char) :
    decodeFrom none ((cs.flatMap encodeChar).map Char.toNat) = cs := by
  induction cs with
  | nil => rfl
  | cons c cs ih => rw [flatMap_cons, map_append, decodeFrom_encodeChar, ih]

/-- The bytes of a text are read as the text. -/
theorem decode_encode (text : String) : decode (encode text) = text := by
  rw [decode, encode, String.toList_ofList, decodeFrom_flatMap_encodeChar, String.ofList_toList]

/-! ## ASCII characters -/

/-- Whatever bytes follow, the character will be one, and no ASCII character. -/
structure Begun.Sound (p : Begun) : Prop where
  more : 0 < p.needed
  low : 0x80 ≤ p.low
  char : ∀ v, (p.value * 64 + (p.low - 0x80)) * 64 ^ (p.needed - 1) ≤ v →
    v < (p.value * 64 + (p.high - 0x80) + 1) * 64 ^ (p.needed - 1) → 0x80 ≤ v ∧ v.isValidChar

theorem Begun.sound_ofByte? (start : ofByte? b = some p) :
    p.needed = 0 ∧ b < 128 ∧ p.value = b ∨ 128 ≤ b ∧ p.Sound := by
  unfold ofByte? at start
  split_ifs at start <;> cases start
  · exact .inl ⟨rfl, ‹_›, rfl⟩
  all_goals
    refine .inr ⟨by omega, Nat.succ_pos _, by simp, fun v least most => ?_⟩
    dsimp only at least most
    unfold Nat.isValidChar
    omega

theorem Begun.Sound.next? (sound : p.Sound) (read : p.next? b = some q) :
    128 ≤ b ∧ (q.needed = 0 ∧ 0x80 ≤ q.value ∧ q.value.isValidChar ∨ q.Sound) := by
  obtain ⟨⟨least, most⟩, rfl⟩ : (p.low ≤ b ∧ b ≤ p.high) ∧
      { needed := p.needed - 1, value := p.value * 64 + (b - 0x80) } = q := by
    simpa [Begun.next?] using read
  have bound := sound.low
  refine ⟨by omega, ?_⟩
  -- What the byte leaves open lies within what was open before it.
  have lower : p.value * 64 + (p.low - 0x80) ≤ p.value * 64 + (b - 0x80) := by omega
  have upper : p.value * 64 + (b - 0x80) + 1 ≤ p.value * 64 + (p.high - 0x80) + 1 := by omega
  cases needed : p.needed - 1 with
  | zero =>
    have char := sound.char (p.value * 64 + (b - 0x80))
    rw [needed, pow_zero, Nat.mul_one, Nat.mul_one] at char
    exact .inl ⟨rfl, char lower upper⟩
  | succ n =>
    refine .inr ⟨Nat.succ_pos n, Nat.le_refl _, fun v least most => sound.char v ?_ ?_⟩
    all_goals
      dsimp only [Nat.add_sub_cancel] at least most
      rw [needed, pow_succ]
    · calc
        _ ≤ (p.value * 64 + (b - 0x80)) * (64 ^ n * 64) := Nat.mul_le_mul_right _ lower
        _ = ((p.value * 64 + (b - 0x80)) * 64 + (0x80 - 0x80)) * 64 ^ n := by ring
        _ ≤ v := least
    · calc
        v < ((p.value * 64 + (b - 0x80)) * 64 + (0xBF - 0x80) + 1) * 64 ^ n := most
        _ = (p.value * 64 + (b - 0x80) + 1) * (64 ^ n * 64) := by ring
        _ ≤ _ := Nat.mul_le_mul_right _ upper

theorem not_ascii_replacement : ¬ replacement.toNat < 128 := by decide

/-- What one byte may write: no ASCII character but itself, and nothing besides only if no character
had begun before it and none is begun by it. -/
structure Keeps (begun? : Option Begun) (b : Nat) (read : List Char × Option Begun) : Prop where
  sound : ∀ p ∈ read.2, p.Sound
  own : ∀ c ∈ read.1, c.toNat < 128 → c.toNat = b
  plain : read.2 = none → (∀ c ∈ read.1, c.toNat < 128) →
    begun? = none ∧ read.1.map Char.toNat = [b]

theorem keeps_settle (b : Nat) : Keeps none b (settle (Begun.ofByte? b)) := by
  cases start : Begun.ofByte? b with
  | none =>
    refine ⟨by simp [settle], ?_, ?_⟩
    · simp [settle, not_ascii_replacement]
    · intro _ ascii
      exact absurd (ascii replacement mem_cons_self) not_ascii_replacement
  | some p =>
    rcases Begun.sound_ofByte? start with ⟨needed, small, value⟩ | ⟨_, sound⟩
    · have char : (Char.ofNat b).toNat = b := toNat_ofNat_of_isValidChar (.inl (by omega))
      constructor <;> simp [settle, needed, value, char]
    · have more : p.needed ≠ 0 := Nat.pos_iff_ne_zero.mp sound.more
      constructor <;> simp [settle, more, sound]

/-- A byte gives an ASCII character only if it is one. -/
theorem keeps_readByte (sound : ∀ p ∈ begun?, p.Sound) (b : Nat) :
    Keeps begun? b (readByte begun? b) := by
  cases begun? with
  | none => exact keeps_settle b
  | some p =>
    rw [readByte]
    split
    · rename_i q read
      obtain ⟨_, ⟨needed, least, valid⟩ | sound⟩ := (sound p rfl).next? read
      · have char := toNat_ofNat_of_isValidChar valid
        have large : ¬ (Char.ofNat q.value).toNat < 128 := by omega
        constructor <;> simp [settle, needed, large]
      · have more : q.needed ≠ 0 := Nat.pos_iff_ne_zero.mp sound.more
        constructor <;> simp [settle, more, sound]
    · have restart := keeps_settle b
      refine ⟨restart.sound, ?_, fun _ ascii => ?_⟩
      · exact forall_mem_cons.mpr
          ⟨fun ascii => absurd ascii not_ascii_replacement, restart.own⟩
      · exact absurd (ascii replacement mem_cons_self) not_ascii_replacement

/-- An ASCII character that is read stands among the bytes. -/
theorem mem_of_mem_decodeFrom (sound : ∀ p ∈ begun?, p.Sound) (member : c ∈ decodeFrom begun? bytes)
    (ascii : c.toNat < 128) : c.toNat ∈ bytes := by
  induction bytes generalizing begun? with
  | nil =>
    cases begun? with
    | none => cases member
    | some p =>
      rw [mem_singleton.mp member] at ascii
      exact absurd ascii not_ascii_replacement
  | cons b bytes ih =>
    have keeps := keeps_readByte sound b
    rw [decodeFrom, mem_append] at member
    rcases member with now | later
    · rw [keeps.own c now ascii]
      exact mem_cons_self
    · exact mem_cons_of_mem b (ih keeps.sound later)

theorem eq_of_ascii_decodeFrom (sound : ∀ p ∈ begun?, p.Sound)
    (ascii : ∀ c ∈ decodeFrom begun? bytes, c.toNat < 128) :
    begun? = none ∧ bytes = (decodeFrom begun? bytes).map Char.toNat := by
  induction bytes generalizing begun? with
  | nil =>
    cases begun? with
    | none => exact ⟨rfl, rfl⟩
    | some p => exact absurd (ascii replacement mem_cons_self) not_ascii_replacement
  | cons b bytes ih =>
    have keeps := keeps_readByte sound b
    rw [decodeFrom, forall_mem_append] at ascii
    obtain ⟨closed, later⟩ := ih keeps.sound ascii.2
    obtain ⟨idle, own⟩ := keeps.plain closed ascii.1
    refine ⟨idle, ?_⟩
    rw [decodeFrom, map_append, own, ← later]
    rfl

/-- Bytes that are read as nothing but ASCII characters are these characters. -/
theorem eq_of_ascii_decode {bytes : String} (ascii : ∀ c ∈ (decode bytes).toList, c.toNat < 128) :
    decode bytes = bytes := by
  rw [decode, String.toList_ofList] at ascii
  have plain := (eq_of_ascii_decodeFrom (by simp) ascii).2
  apply String.toList_inj.mp
  rw [decode, String.toList_ofList]
  exact (map_injective_iff.mpr fun c d => Char.toNat_inj.mp) plain.symm

end Tarkib.Text
