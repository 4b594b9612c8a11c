import Tarkib.Proofs.Json.Parsed
import Tarkib.Proofs.Token.Quoted

/-!
# Strings of documents

A string of a document stands between double quotes. Each of its characters is spelled as it is,
with a short escape, with four hexadecimal digits, or with two times four of them (`Spells`), and
the spellings stand one behind the other (`Inside`). The same text is one string of a program as
well, whose reader knows fewer escapes but ends at the same quote.
-/

namespace Tarkib.Json

open List

/-- The reader takes `a` from the front of the text and leaves `rest`, wherever the text stands. -/
def Gives {α : Type} (reader : Cursor → Except Problem (α × Cursor)) (text : List Char) (a : α)
    (rest : List Char) : Prop :=
  ∀ offset, ∃ offset', reader ⟨text, offset⟩ = .ok (a, ⟨rest, offset'⟩)

/-! ## Hexadecimal digits -/

/-- Four hexadecimal digits and the number that they stand for. -/
def IsHex (ds : List Char) (n : Nat) : Prop :=
  ds.length = 4 ∧
    ∃ values, ds.mapM hexValue? = some values ∧ values.foldl (fun n d => n * 16 + d) 0 = n

variable {c : Char} {n fuel : Nat} {ds rest text cs : List Char} {values : List Nat}
  {here after : Cursor} {s : String}

theorem toNat_of_hexValue? (digit : hexValue? c = some n) :
    48 ≤ c.toNat ∧ c.toNat ≤ 70 ∨ 97 ≤ c.toNat ∧ c.toNat ≤ 102 := by
  have zero : '0'.val.toNat = 48 ∧ '9'.val.toNat = 57 := by decide
  have lower : 'a'.val.toNat = 97 ∧ 'f'.val.toNat = 102 := by decide
  have upper : 'A'.val.toNat = 65 ∧ 'F'.val.toNat = 70 := by decide
  have val : c.toNat = c.val.toNat := rfl
  unfold hexValue? at digit
  simp only [Char.isDigit, Char.le_def, UInt32.le_iff_toNat_le, ge_iff_le, zero, lower, upper,
    Bool.and_eq_true, decide_eq_true_eq] at digit
  split at digit
  · omega
  split at digit
  · omega
  split at digit
  · omega
  · cases digit

theorem standsFor_of_hexValue? (digit : hexValue? c = some n) : Token.StandsFor [c] [c] := by
  have range := toNat_of_hexValue? digit
  refine Token.standsFor_plain ?_ ?_ ?_
  all_goals
    rintro rfl
    revert range
    decide

theorem utf8Size_of_hexValue? (digit : hexValue? c = some n) : c.utf8Size = 1 := by
  have range := toNat_of_hexValue? digit
  have val : c.toNat = c.val.toNat := rfl
  rw [Char.utf8Size_eq_one_iff, UInt32.le_iff_toNat_le]
  exact Nat.le_trans (by omega) (by decide : 102 ≤ (127 : UInt32).toNat)

theorem exists_hexValue? (digits : ds.mapM hexValue? = some values) :
    ∀ d ∈ ds, ∃ n, hexValue? d = some n := by
  induction ds generalizing values with
  | nil => exact forall_mem_nil _
  | cons d ds ih =>
    rw [mapM_cons] at digits
    obtain ⟨n, first, digits⟩ := Option.bind_eq_some_iff.mp digits
    obtain ⟨rest, later, _⟩ := Option.bind_eq_some_iff.mp digits
    exact forall_mem_cons.mpr ⟨⟨n, first⟩, ih later⟩

theorem byteLength_of_hexDigits (digits : ds.mapM hexValue? = some values) :
    Text.byteLength ds = ds.length := by
  have each := exists_hexValue? digits
  clear digits
  induction ds with
  | nil => rfl
  | cons d ds ih =>
    obtain ⟨⟨n, first⟩, later⟩ := forall_mem_cons.mp each
    rw [Text.byteLength_cons, utf8Size_of_hexValue? first, ih later, length_cons, Nat.add_comm]

theorem readHex_of_isHex {offset : Nat} (hex : IsHex ds n) :
    readHex ⟨ds ++ rest, offset⟩ = .ok (n, ⟨rest, offset + 4⟩) := by
  obtain ⟨four, values, digits, rfl⟩ := hex
  have first : (ds ++ rest).take 4 = ds := take_left' four
  have enough : ¬Text.byteLength ds < 4 := by
    rw [byteLength_of_hexDigits digits]
    omega
  unfold readHex
  simp only [first, digits, if_neg enough, Cursor.skip, drop_left' four]

/-- Four digits that are read are hexadecimal. -/
theorem isHex_of_readHex (found : readHex here = .ok (n, after)) :
    ∃ ds, here.rest = ds ++ after.rest ∧ IsHex ds n := by
  unfold readHex at found
  split at found
  · cases found
  · next enough =>
      split at found
      · next values digits =>
          cases found
          rw [byteLength_of_hexDigits digits, length_take] at enough
          refine ⟨here.rest.take 4, (take_append_drop 4 _).symm, ?_, values, digits, rfl⟩
          rw [length_take]
          omega
      · cases found

/-! ## Characters and their spellings -/

def isSurrogate (n : Nat) : Bool :=
  0xD800 ≤ n && n ≤ 0xDFFF

/-- The ways to spell a character of a string. -/
inductive Spells : List Char → Char → Prop where
  | plain {c : Char} (quote : c ≠ '\x22') (backslash : c ≠ '\\') (printed : 0x20 ≤ c.toNat) :
      Spells [c] c
  | short {d c : Char} (known : shortEscape? d = some c) : Spells ['\\', d] c
  | unit {ds : List Char} {n : Nat} (hex : IsHex ds n) (single : isSurrogate n = false) :
      Spells ('\\' :: 'u' :: ds) (Char.ofNat n)
  | pair {hs ls : List Char} {high low : Nat} (first : IsHex hs high) (second : IsHex ls low)
      (leads : 0xD800 ≤ high ∧ high ≤ 0xDBFF) (ends : 0xDC00 ≤ low ∧ low ≤ 0xDFFF) :
      Spells ('\\' :: 'u' :: hs ++ '\\' :: 'u' :: ls)
        (Char.ofNat (0x10000 + (high - 0xD800) * 0x400 + (low - 0xDC00)))

theorem Spells.length_pos (spells : Spells text c) : 0 < text.length := by
  cases spells <;> simp

/-- The text between the quotes of a string, and the characters of the string. -/
inductive Inside : List Char → List Char → Prop where
  | nil : Inside [] []
  | cons {text texts : List Char} {c : Char} {cs : List Char} (first : Spells text c)
      (rest : Inside texts cs) : Inside (text ++ texts) (c :: cs)

/-! ## The reader of documents -/

theorem readPairing_cons (c : Char) (rest : List Char) (offset : Nat) :
    readPairing c ⟨c :: rest, offset⟩ = .ok ⟨rest, offset + c.utf8Size⟩ := by
  simp [readPairing, Cursor.next]

theorem rest_of_readPairing (found : readPairing c here = .ok after) :
    here.rest = c :: after.rest := by
  unfold readPairing at found
  split at found
  · cases found
  · next d rest text =>
      split at found
      · next same =>
          cases found
          rw [Cursor.next, text, eq_of_beq same]
      · cases found

theorem gives_readUnicode_unit (hex : IsHex ds n) (single : isSurrogate n = false)
    (rest : List Char) : Gives readUnicode (ds ++ rest) (Char.ofNat n) rest := by
  have later : (decide (0xDC00 ≤ n) && decide (n ≤ 0xDFFF)) = false := by
    simp [isSurrogate] at single ⊢
    omega
  have alone : (decide (n < 0xD800) || decide (0xDBFF < n)) = true := by
    simp [isSurrogate] at single ⊢
    omega
  intro offset
  unfold readUnicode
  rw [readHex_of_isHex hex]
  simp only [bind, Except.bind, later, alone, Bool.false_eq_true, if_false, if_true]
  exact ⟨_, rfl⟩

theorem gives_readUnicode_pair {hs ls : List Char} {high low : Nat} (first : IsHex hs high)
    (second : IsHex ls low) (leads : 0xD800 ≤ high ∧ high ≤ 0xDBFF)
    (ends : 0xDC00 ≤ low ∧ low ≤ 0xDFFF) (rest : List Char) :
    Gives readUnicode (hs ++ '\\' :: 'u' :: (ls ++ rest))
      (Char.ofNat (0x10000 + (high - 0xD800) * 0x400 + (low - 0xDC00))) rest := by
  have later : (decide (0xDC00 ≤ high) && decide (high ≤ 0xDFFF)) = false := by simp; omega
  have alone : (decide (high < 0xD800) || decide (0xDBFF < high)) = false := by simp; omega
  have paired : (decide (low < 0xDC00) || decide (0xDFFF < low)) = false := by simp; omega
  intro offset
  unfold readUnicode
  rw [readHex_of_isHex first]
  simp only [bind, Except.bind, later, alone, paired, Bool.false_eq_true, if_false,
    readPairing_cons, readHex_of_isHex second]
  exact ⟨_, rfl⟩

/-- What is read behind an escape spells a character. -/
theorem spells_of_readUnicode (found : readUnicode here = .ok (c, after)) :
    ∃ text, here.rest = text ++ after.rest ∧ Spells ('\\' :: 'u' :: text) c := by
  unfold readUnicode at found
  obtain ⟨⟨high, behind⟩, first, found⟩ := bind_eq_ok found
  obtain ⟨hs, text, hex⟩ := isHex_of_readHex first
  dsimp only at found text
  split at found
  · cases found
  · next lead =>
      simp only [Bool.and_eq_true, decide_eq_true_eq, not_and, Nat.not_le] at lead
      split at found
      · next alone =>
          simp only [Bool.or_eq_true, decide_eq_true_eq] at alone
          cases found
          refine ⟨hs, text, .unit hex ?_⟩
          simp [isSurrogate]
          omega
      · next pair =>
          simp only [Bool.or_eq_true, decide_eq_true_eq, not_or, Nat.not_lt] at pair
          obtain ⟨slash, second, found⟩ := bind_eq_ok found
          obtain ⟨letter, third, found⟩ := bind_eq_ok found
          obtain ⟨⟨low, last⟩, fourth, found⟩ := bind_eq_ok found
          obtain ⟨ls, digits, lowHex⟩ := isHex_of_readHex fourth
          dsimp only at found digits
          split at found
          · cases found
          · next paired =>
              simp only [Bool.or_eq_true, decide_eq_true_eq, not_or, Nat.not_lt] at paired
              obtain ⟨rfl, rfl⟩ := Prod.mk.inj (Except.ok.inj found)
              refine ⟨hs ++ '\\' :: 'u' :: ls, ?_, .pair hex lowHex pair paired⟩
              rw [text, rest_of_readPairing second, rest_of_readPairing third, digits]
              simp

theorem gives_readChars_of_spells {behind : List Char} (spells : Spells text c)
    (later : Gives (readChars fuel) rest cs behind) :
    Gives (readChars (fuel + 1)) (text ++ rest) (c :: cs) behind := by
  intro offset
  cases spells with
  | plain quote backslash printed =>
    obtain ⟨offset', found⟩ := later (offset + c.utf8Size)
    refine ⟨offset', ?_⟩
    rw [singleton_append, readChars]
    dsimp only
    split
    · next same => cases same
    · next same => exact absurd (List.cons.inj same).1 quote
    · next same => exact absurd (List.cons.inj same).1 backslash
    · next same => exact absurd (List.cons.inj same).1 backslash
    · next same => exact absurd (List.cons.inj same).1 backslash
    · next same =>
        obtain ⟨rfl, rfl⟩ := List.cons.inj same
        simp only [if_neg (Nat.not_lt.mpr printed), Cursor.next, found]
        rfl
  | @short d c known =>
    obtain ⟨offset', found⟩ := later (offset + '\\'.utf8Size + d.utf8Size)
    refine ⟨offset', ?_⟩
    rw [cons_append, cons_append, readChars]
    dsimp only
    split
    · next same => cases same
    · next same => cases same
    · next same => cases same
    · next same =>
        cases same
        cases known
    · next same =>
        cases same
        simp only [known, Cursor.next, nil_append, found]
        rfl
    · next noEscape same =>
        obtain ⟨rfl, rfl⟩ := List.cons.inj same
        exact absurd rfl (noEscape d rest rfl)
  | unit hex single =>
    obtain ⟨between, unicode⟩ := gives_readUnicode_unit hex single rest
      (offset + '\\'.utf8Size + 'u'.utf8Size)
    obtain ⟨offset', found⟩ := later between
    refine ⟨offset', ?_⟩
    rw [cons_append, cons_append, readChars]
    simp only [Cursor.next, unicode, bind, Except.bind, found]
    rfl
  | @pair hs ls _ _ first second leads ends =>
    obtain ⟨between, unicode⟩ := gives_readUnicode_pair first second leads ends rest
      (offset + '\\'.utf8Size + 'u'.utf8Size)
    obtain ⟨offset', found⟩ := later between
    have text : '\\' :: 'u' :: hs ++ '\\' :: 'u' :: ls ++ rest =
        '\\' :: 'u' :: (hs ++ '\\' :: 'u' :: (ls ++ rest)) := by
      simp
    refine ⟨offset', ?_⟩
    rw [text, readChars]
    simp only [Cursor.next, unicode, bind, Except.bind, found]
    rfl

theorem gives_readChars_of_inside (inside : Inside text cs) (enough : text.length < fuel)
    (rest : List Char) : Gives (readChars fuel) (text ++ '\x22' :: rest) cs rest := by
  induction inside generalizing fuel with
  | nil =>
    obtain ⟨fuel, rfl⟩ := Nat.exists_eq_add_one_of_ne_zero (Nat.ne_of_gt enough)
    intro offset
    rw [nil_append, readChars]
    exact ⟨_, rfl⟩
  | @cons text texts c cs first _ ih =>
    obtain ⟨fuel, rfl⟩ :=
      Nat.exists_eq_add_one_of_ne_zero (Nat.ne_of_gt (Nat.zero_lt_of_lt enough))
    rw [append_assoc]
    refine gives_readChars_of_spells first (ih ?_)
    have := first.length_pos
    rw [length_append] at enough
    omega

theorem inside_of_readChars (found : readChars fuel here = .ok (cs, after)) :
    ∃ text, here.rest = text ++ '\x22' :: after.rest ∧ Inside text cs := by
  induction fuel generalizing here cs with
  | zero => cases found
  | succ fuel ih =>
    rw [readChars] at found
    split at found
    · cases found
    · next rest text =>
        cases found
        refine ⟨[], ?_, .nil⟩
        rw [Cursor.next, text]
        rfl
    · cases found
    · next rest text =>
        obtain ⟨⟨c, between⟩, unicode, found⟩ := bind_eq_ok found
        obtain ⟨⟨cs, last⟩, later, found⟩ := bind_eq_ok found
        cases found
        obtain ⟨digits, front, spells⟩ := spells_of_readUnicode unicode
        obtain ⟨texts, behind, inside⟩ := ih later
        refine ⟨_, ?_, .cons spells inside⟩
        simp only [Cursor.next, text] at front behind
        simp [text, front, behind]
    · next d rest _ text =>
        split at found
        · next c known =>
            obtain ⟨⟨cs, last⟩, later, found⟩ := bind_eq_ok found
            cases found
            obtain ⟨texts, behind, inside⟩ := ih later
            refine ⟨_, ?_, .cons (.short known) inside⟩
            simp only [Cursor.next, text] at behind
            simp [text, behind]
        · cases found
    · next c rest noQuote noEnd noUnicode noEscape text =>
        split at found
        · cases found
        · next printed =>
            obtain ⟨⟨cs, last⟩, later, found⟩ := bind_eq_ok found
            cases found
            obtain ⟨texts, behind, inside⟩ := ih later
            have quote : c ≠ '\x22' := fun same => noQuote same
            have backslash : c ≠ '\\' := Token.ne_backslash noEnd noEscape
            refine ⟨_, ?_, .cons (.plain quote backslash (Nat.not_lt.mp printed)) inside⟩
            simp only [Cursor.next, text] at behind
            simp [text, behind]

/-- Spellings are read as their characters, whatever stands behind the closing quote. -/
theorem gives_readString_of_inside (inside : Inside text s.toList) (rest : List Char) :
    Gives readString (text ++ '\x22' :: rest) s rest := by
  intro offset
  have enough : text.length < (text ++ '\x22' :: rest).length + 1 := by
    rw [length_append]
    omega
  obtain ⟨offset', found⟩ := gives_readChars_of_inside inside enough rest offset
  refine ⟨offset', ?_⟩
  unfold readString
  simp only [found, bind, Except.bind, String.ofList_toList]
  rfl

/-- What is read as a string is spelled. -/
theorem inside_of_readString (found : readString here = .ok (s, after)) :
    ∃ text, here.rest = text ++ '\x22' :: after.rest ∧ Inside text s.toList := by
  unfold readString at found
  obtain ⟨⟨cs, last⟩, chars, found⟩ := bind_eq_ok found
  cases found
  rw [String.toList_ofList]
  exact inside_of_readChars chars

/-! ## The reader of programs -/

theorem standsFor_of_isHex (hex : IsHex ds n) : Token.StandsFor ds ds := by
  obtain ⟨-, values, digits, -⟩ := hex
  have each := exists_hexValue? digits
  clear digits
  induction ds with
  | nil => exact Token.standsFor_nil
  | cons d ds ih =>
    obtain ⟨⟨n, first⟩, later⟩ := forall_mem_cons.mp each
    exact (standsFor_of_hexValue? first).append (ih later)

theorem Spells.exists_standsFor (spells : Spells text c) : ∃ value, Token.StandsFor text value := by
  cases spells with
  | plain quote backslash printed =>
    refine ⟨[c], Token.standsFor_plain quote backslash ?_⟩
    rintro rfl
    revert printed
    decide
  | short known => exact ⟨_, Token.standsFor_backslash _⟩
  | unit hex single => exact ⟨_, (Token.standsFor_backslash 'u').append (standsFor_of_isHex hex)⟩
  | pair first second leads ends =>
    exact ⟨_, ((Token.standsFor_backslash 'u').append (standsFor_of_isHex first)).append
      ((Token.standsFor_backslash 'u').append (standsFor_of_isHex second))⟩

/-- In code the spellings have a value, too, perhaps another one. -/
theorem Inside.exists_standsFor (inside : Inside text cs) :
    ∃ value, Token.StandsFor text value := by
  induction inside with
  | nil => exact ⟨_, Token.standsFor_nil⟩
  | cons first _ ih =>
    obtain ⟨value, here⟩ := first.exists_standsFor
    obtain ⟨values, later⟩ := ih
    exact ⟨_, here.append later⟩

/-- So in code they are one string with the same end. -/
theorem Inside.exists_read (inside : Inside text cs) :
    ∃ value, ∀ operand rest, Token.read operand '\x22' (text ++ '\x22' :: rest) =
      ⟨.string value, text.length + 1⟩ := by
  obtain ⟨value, stands⟩ := inside.exists_standsFor
  refine ⟨String.ofList value, fun operand rest => ?_⟩
  rw [Token.read_string rfl, stands, Token.readString_cons (by decide) (by decide)]
  simp [Token.Reading.map, Token.Reading.later, Token.Kind.ofString, Nat.add_comm]

end Tarkib.Json
