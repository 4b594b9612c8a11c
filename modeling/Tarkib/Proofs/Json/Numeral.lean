import Tarkib.Proofs.Json.Quotation

/-!
# Numbers of documents

A numeral is a run of digits without a needless zero in front, perhaps with a fraction and an
exponent. The reader of numbers takes exactly numerals. The reader of programs allows more in a
number, letters for instance, but it takes a numeral as a whole.
-/

namespace Tarkib.Json

open List

variable {rest ds : List Char}

/-! ## What ends a word -/

def dividers : List Char :=
  [' ', '\n', '\t', '\r', ',', ':', ']', '\x7d', ';']

/-- The text is empty or starts with a divider. -/
def Divided (rest : List Char) : Prop :=
  ∀ c ∈ rest.head?, c ∈ dividers

variable {p : Char → Bool} {c : Char} {here after : Cursor} {negative : Bool} {significand : Nat}
  {exponent : Int} {x : Number}

theorem all_of_isBlank (checked : [' ', '\n', '\t', '\r'].all p = true)
    (blank : Cursor.isBlank c = true) : p c = true := by
  refine all_eq_true.mp checked c ?_
  simpa [Cursor.isBlank, or_assoc] using blank

theorem mem_dividers_of_isBlank (blank : Cursor.isBlank c = true) : c ∈ dividers :=
  of_decide_eq_true (all_of_isBlank (p := fun c => decide (c ∈ dividers)) (by decide) blank)

theorem Divided.any_head? (divided : Divided rest) (none : dividers.all (fun c => !p c) = true) :
    rest.head?.any p = false := by
  cases rest with
  | nil => rfl
  | cons c rest =>
    have other := all_eq_true.mp none c (divided c rfl)
    simpa using other

/-! ## Digits -/

/-- A run of digits that is not empty. -/
structure Digits where
  chars : List Char
  present : chars ≠ []
  all : ∀ c ∈ chars, c.isDigit = true

namespace Digits

variable (ds : Digits) (stops : rest.head?.any Char.isDigit = false)
include stops

theorem takeWhile_append : (ds.chars ++ rest).takeWhile Char.isDigit = ds.chars := by
  rw [takeWhile_append_of_pos ds.all]
  cases rest with
  | nil => simp
  | cons c rest => simpa using stops

theorem dropWhile_append : (ds.chars ++ rest).dropWhile Char.isDigit = rest := by
  rw [dropWhile_append_of_pos ds.all]
  cases rest with
  | nil => rfl
  | cons c rest => exact dropWhile_cons_of_neg (by simpa using stops)

theorem digits_mk (offset : Nat) : (Cursor.mk (ds.chars ++ rest) offset).digits = ds.chars :=
  ds.takeWhile_append stops

theorem skipDigits_mk (offset : Nat) :
    (Cursor.mk (ds.chars ++ rest) offset).skipDigits = ⟨rest, offset + ds.chars.length⟩ := by
  rw [Cursor.skipDigits, ds.digits_mk stops, ds.dropWhile_append stops]

end Digits

theorem exists_digits (present : here.digits ≠ []) :
    ∃ ds : Digits, here.digits = ds.chars ∧ here.rest = ds.chars ++ here.skipDigits.rest :=
  ⟨⟨here.digits, present, fun _ member => mem_takeWhile_imp member⟩, rfl,
    takeWhile_append_dropWhile.symm⟩

/-! ## Exponents -/

/-- An exponent as it is written. -/
structure Exponent where
  mark : Char
  isMark : mark = 'e' ∨ mark = 'E'
  sign : List Char
  isSign : sign = [] ∨ sign = ['+'] ∨ sign = ['-']
  digits : Digits

namespace Exponent

def text (e : Exponent) : List Char :=
  e.mark :: e.sign ++ e.digits.chars

def isNegative (e : Exponent) : Bool :=
  e.sign == ['-']

def scale? (negative : Bool) (significand : Nat) (exponent : Int) (e : Exponent) : Option Number :=
  match (exponentDigits 0 e.digits.chars).1 with
  | some value =>
    let shift : Int := if e.isNegative then -value else value
    (scaleToDouble significand (exponent + shift)).map (signedDouble negative)
  | none =>
    if significand != 0 && !e.isNegative then none else some (signedDouble negative 0)

end Exponent

theorem finishDouble_eq_ok_iff :
    finishDouble negative significand exponent here = .ok (x, after) ↔
      (scaleToDouble significand exponent).map (signedDouble negative) = some x ∧ after = here := by
  unfold finishDouble
  cases scaleToDouble significand exponent with
  | none => simp
  | some y => simp [eq_comm]

/-- An exponent is read as its value. -/
theorem gives_readExponent {e : Exponent} (scaled : e.scale? negative significand exponent = some x)
    (divided : Divided rest) :
    Gives (readExponent negative significand exponent) (e.text ++ rest) x rest := by
  have stops : rest.head?.any Char.isDigit = false := divided.any_head? (by decide)
  obtain ⟨mark, isMark, sign, isSign, digits⟩ := e
  obtain ⟨d, ds, chars⟩ := exists_cons_of_ne_nil digits.present
  have digit : d.isDigit = true := digits.all d (by simp [chars])
  have noMinus : d ≠ '-' := by
    rintro rfl
    cases digit
  have noPlus : d ≠ '+' := by
    rintro rfl
    cases digit
  have taken (offset : Nat) : (Cursor.mk (d :: (ds ++ rest)) offset).digits = d :: ds := by
    rw [← cons_append, ← chars, digits.digits_mk stops]
  have skipped (offset : Nat) : (Cursor.mk (d :: (ds ++ rest)) offset).skipDigits =
      ⟨rest, offset + (d :: ds).length⟩ := by
    rw [← cons_append, ← chars, digits.skipDigits_mk stops]
  intro offset
  unfold Exponent.scale? Exponent.isNegative at scaled
  unfold readExponent Exponent.text
  rw [chars] at scaled
  -- The sign only decides where the digits start.
  rcases isSign with rfl | rfl | rfl
  all_goals
    simp only [Cursor.next, cons_append, nil_append, head?_cons, chars,
      Option.some_beq_some, beq_eq_false_iff_ne.mpr noMinus, beq_eq_false_iff_ne.mpr noPlus,
      Bool.or_self, Bool.false_eq_true, if_false, beq_self_eq_true, Bool.or_true, Bool.true_or,
      if_true, Char.reduceBEq, taken, skipped, digit]
    rcases value : exponentDigits 0 (d :: ds) with ⟨_ | n, count⟩
    · rw [value] at scaled
      dsimp only at scaled ⊢
      split at scaled
      · cases scaled
      · next finite =>
          cases scaled
          exact ⟨_, if_neg finite⟩
    · rw [value] at scaled
      exact ⟨_, finishDouble_eq_ok_iff.mpr ⟨scaled, rfl⟩⟩

theorem exists_sign (here : Cursor) :
    ∃ sign, (sign = [] ∨ sign = ['+'] ∨ sign = ['-']) ∧
      (here.rest.head? == some '-') = (sign == ['-']) ∧
      here.rest = sign ++ (if here.rest.head? == some '-' || here.rest.head? == some '+' then
        here.next else here).rest := by
  by_cases minus : here.rest.head? = some '-'
  · obtain ⟨rest, text⟩ := head?_eq_some_iff.mp minus
    exact ⟨['-'], .inr (.inr rfl), by simp [minus], by simp [text, Cursor.next]⟩
  · by_cases plus : here.rest.head? = some '+'
    · obtain ⟨rest, text⟩ := head?_eq_some_iff.mp plus
      exact ⟨['+'], .inr (.inl rfl), by simp [plus], by simp [text, Cursor.next]⟩
    · exact ⟨[], .inl rfl, by simpa using minus, by simp [minus, plus]⟩

/-- What is read as an exponent is one. -/
theorem exponent_of_readExponent (marked : atExponent here = true)
    (found : readExponent negative significand exponent here = .ok (x, after)) :
    ∃ e : Exponent, here.rest = e.text ++ after.rest ∧
      e.scale? negative significand exponent = some x := by
  obtain ⟨mark, isMark, text⟩ : ∃ mark, (mark = 'e' ∨ mark = 'E') ∧
      here.rest = mark :: here.next.rest := by
    simp only [atExponent, Bool.or_eq_true, beq_iff_eq, head?_eq_some_iff] at marked
    rcases marked with ⟨rest, text⟩ | ⟨rest, text⟩
    · exact ⟨'e', .inl rfl, by simp [Cursor.next, text]⟩
    · exact ⟨'E', .inr rfl, by simp [Cursor.next, text]⟩
  obtain ⟨sign, isSign, isMinus, behind⟩ := exists_sign here.next
  unfold readExponent at found
  dsimp only at found
  rw [isMinus] at found behind
  generalize (if (sign == ['-']) || here.next.rest.head? == some '+' then here.next.next
    else here.next) = start at found behind
  split at found
  · cases found
  · next c rest first =>
      split at found
      · next digit =>
          have present : start.digits ≠ [] := by simp [Cursor.digits, first, digit]
          obtain ⟨ds, digits, split⟩ := exists_digits present
          rw [digits] at found
          let e : Exponent := ⟨mark, isMark, sign, isSign, ds⟩
          have outcome : after = start.skipDigits ∧
              e.scale? negative significand exponent = some x := by
            unfold Exponent.scale? Exponent.isNegative
            rcases value : exponentDigits 0 ds.chars with ⟨_ | n, count⟩
            · rw [value] at found
              dsimp only at found
              split at found
              · cases found
              · next finite =>
                  cases found
                  exact ⟨rfl, if_neg finite⟩
            · rw [value] at found
              obtain ⟨scaled, rfl⟩ := finishDouble_eq_ok_iff.mp found
              exact ⟨rfl, scaled⟩
          refine ⟨e, ?_, outcome.2⟩
          rw [text, behind, split, outcome.1]
          simp [Exponent.text, e]
      · cases found

/-! ## Numerals -/

/-- A number as it is written, without its sign. -/
structure Numeral where
  whole : Digits
  noZeros : whole.chars.head? = some '0' → whole.chars = ['0']
  fraction : Option Digits
  exponent : Option Exponent

/-- The number of an integer: one of 64 bits if it fits, and a double if not. -/
def integer (negative : Bool) (significand : Nat) : Number :=
  if !negative then .natural significand
  else if significand == 0 || 0x8000000000000000 < significand then
    signedDouble true significand.toUInt64.toFloat
  else .negative significand

def scaled? (negative : Bool) (significand : Nat) (exponent : Int) :
    Option Exponent → Option Number
  | none => (scaleToDouble significand exponent).map (signedDouble negative)
  | some e => e.scale? negative significand exponent

namespace Numeral

def text (n : Numeral) : List Char :=
  n.whole.chars ++ (n.fraction.elim [] fun ds => '.' :: ds.chars) ++
    n.exponent.elim [] Exponent.text

def value? (negative : Bool) (n : Numeral) : Option Number :=
  let (significand, count) := appendDigits 0 n.whole.chars
  let dropped := n.whole.chars.length - count
  match n.fraction with
  | some ds =>
    let (longer, more) := appendDigits significand ds.chars
    scaled? negative longer (dropped - more) n.exponent
  | none =>
    if n.exponent.isSome || dropped != 0 then scaled? negative significand dropped n.exponent
    else some (integer negative significand)

end Numeral

/-! ## Reading numerals -/

theorem atExponent_eq (here : Cursor) :
    atExponent here = here.rest.head?.any fun c => c == 'e' || c == 'E' := by
  unfold atExponent
  cases here.rest <;> rfl

theorem atExponent_of_divided (divided : Divided rest) (offset : Nat) :
    atExponent ⟨rest, offset⟩ = false := by
  rw [atExponent_eq]
  exact divided.any_head? (by decide)

theorem Exponent.atExponent_text (e : Exponent) (rest : List Char) (offset : Nat) :
    atExponent ⟨e.text ++ rest, offset⟩ = true := by
  rw [atExponent_eq]
  rcases e.isMark with mark | mark <;> simp [text, mark]

theorem gives_readAfterDigits {written : Option Exponent}
    (scaled : scaled? negative significand exponent written = some x) (divided : Divided rest) :
    Gives (readAfterDigits negative significand exponent)
      (written.elim [] Exponent.text ++ rest) x rest := by
  intro offset
  unfold readAfterDigits
  cases written with
  | none =>
    rw [Option.elim_none, nil_append, atExponent_of_divided divided]
    exact ⟨offset, finishDouble_eq_ok_iff.mpr ⟨scaled, rfl⟩⟩
  | some e =>
    rw [Option.elim_some, e.atExponent_text]
    exact gives_readExponent scaled divided offset

theorem scaled_of_readAfterDigits
    (found : readAfterDigits negative significand exponent here = .ok (x, after)) :
    ∃ written : Option Exponent, here.rest = written.elim [] Exponent.text ++ after.rest ∧
      scaled? negative significand exponent written = some x := by
  unfold readAfterDigits at found
  split at found
  · next marked =>
      obtain ⟨e, text, scaled⟩ := exponent_of_readExponent marked found
      exact ⟨some e, text, scaled⟩
  · obtain ⟨scaled, rfl⟩ := finishDouble_eq_ok_iff.mp found
    exact ⟨none, rfl, scaled⟩

theorem Numeral.any_head?_exponent (written : Option Exponent) (divided : Divided rest) :
    (written.elim [] Exponent.text ++ rest).head?.any Char.isDigit = false := by
  cases written with
  | none => exact divided.any_head? (by decide)
  | some e =>
    rcases e.isMark with mark | mark <;> simp [Exponent.text, mark]

theorem gives_readFraction {ds : Digits} {written : Option Exponent}
    (scaled : scaled? negative (appendDigits significand ds.chars).1
      (exponent - (appendDigits significand ds.chars).2) written = some x)
    (divided : Divided rest) :
    Gives (readFraction negative significand exponent)
      ('.' :: (ds.chars ++ (written.elim [] Exponent.text ++ rest))) x rest := by
  have stops := Numeral.any_head?_exponent written divided
  intro offset
  obtain ⟨offset', found⟩ := gives_readAfterDigits scaled divided
    (offset + '.'.utf8Size + ds.chars.length)
  refine ⟨offset', ?_⟩
  unfold readFraction
  simp only [Cursor.next, ds.digits_mk stops, ds.skipDigits_mk stops]
  split
  · next none => exact absurd none ds.present
  · exact found

theorem fraction_of_readFraction (point : here.rest.head? = some '.')
    (found : readFraction negative significand exponent here = .ok (x, after)) :
    ∃ (ds : Digits) (written : Option Exponent),
      here.rest = '.' :: (ds.chars ++ (written.elim [] Exponent.text ++ after.rest)) ∧
      scaled? negative (appendDigits significand ds.chars).1
        (exponent - (appendDigits significand ds.chars).2) written = some x := by
  obtain ⟨rest, text⟩ := head?_eq_some_iff.mp point
  unfold readFraction at found
  dsimp only at found
  split at found
  · cases found
  · next present =>
      obtain ⟨written, left, scaled⟩ := scaled_of_readAfterDigits found
      obtain ⟨ds, digits, split⟩ := exists_digits present
      rw [digits] at scaled
      refine ⟨ds, written, ?_, scaled⟩
      rw [text, ← left, ← split, Cursor.next, text]

theorem skipDigits_stops (here : Cursor) :
    here.skipDigits.rest.head?.any Char.isDigit = false := by
  have stops := head?_dropWhile_not Char.isDigit here.rest
  unfold Cursor.skipDigits
  dsimp only
  split at stops
  · next d first => simpa [first] using stops
  · next none => rw [none]; rfl

theorem readNumber_digits (negative : Bool) (ds : Digits)
    (noZeros : ds.chars.head? = some '0' → ds.chars = ['0'])
    (stops : rest.head?.any Char.isDigit = false) (offset : Nat) :
    readNumber negative ⟨ds.chars ++ rest, offset⟩ =
      let significand := (appendDigits 0 ds.chars).1
      let dropped := ds.chars.length - (appendDigits 0 ds.chars).2
      let after : Cursor := ⟨rest, offset + ds.chars.length⟩
      if rest.head? == some '.' then readFraction negative significand dropped after
      else if atExponent after then readExponent negative significand dropped after
      else if dropped != 0 then finishDouble negative significand dropped after
      else .ok (integer negative significand, after) := by
  obtain ⟨d, more, chars⟩ := exists_cons_of_ne_nil ds.present
  have digit : d.isDigit = true := ds.all d (by simp [chars])
  have noZero : (d == '0' && (((more ++ rest).head?.map Char.isDigit).getD false)) = false := by
    rw [← Bool.not_eq_true, Bool.and_eq_true, beq_iff_eq]
    rintro ⟨rfl, again⟩
    obtain ⟨_, rfl⟩ := List.cons.inj (chars.symm.trans (noZeros (by rw [chars]; rfl)))
    cases first : rest.head? with
    | none => simp [first] at again
    | some c =>
      rw [first] at stops
      simp [first, show c.isDigit = false from stops] at again
  have taken : (Cursor.mk (d :: (more ++ rest)) offset).digits = d :: more := by
    rw [← cons_append, ← chars, ds.digits_mk stops]
  have skipped : (Cursor.mk (d :: (more ++ rest)) offset).skipDigits =
      ⟨rest, offset + (d :: more).length⟩ := by
    rw [← cons_append, ← chars, ds.skipDigits_mk stops]
  unfold readNumber integer
  simp only [chars, cons_append, digit, noZero, Bool.not_true, Bool.false_eq_true, if_false,
    taken, skipped]
  repeat' split
  all_goals rfl

/-- A numeral is read as its value, if the text behind it is divided from it. -/
theorem gives_readNumber {n : Numeral} (value : n.value? negative = some x)
    (divided : Divided rest) :
    Gives (readNumber negative) (n.text ++ rest) x rest := by
  obtain ⟨whole, noZeros, fraction, exponent⟩ := n
  have noPoint : (rest.head? == some '.') = false := by
    have none : rest.head?.any (· == '.') = false := divided.any_head? (by decide)
    cases first : rest.head? <;> simp_all
  intro offset
  unfold Numeral.value? at value
  unfold Numeral.text
  cases fraction with
  | some ds =>
    simp only [Option.elim_some, append_assoc, cons_append]
    rw [readNumber_digits negative whole noZeros rfl]
    exact gives_readFraction value divided _
  | none =>
    simp only [Option.elim_none, append_nil, append_assoc]
    rw [readNumber_digits negative whole noZeros (Numeral.any_head?_exponent exponent divided)]
    cases exponent with
    | some e =>
      have marked : ((e.text ++ rest).head? == some '.') = false := by
        rcases e.isMark with mark | mark <;> simp [Exponent.text, mark]
      simp only [Option.elim_some, marked, e.atExponent_text]
      exact gives_readExponent value divided _
    | none =>
      simp only [Option.elim_none, nil_append, noPoint, atExponent_of_divided divided]
      simp only [Option.isSome_none, Bool.false_or] at value
      split at value
      · next cut =>
          rw [if_neg (by decide), if_neg (by decide), if_pos cut]
          exact ⟨_, finishDouble_eq_ok_iff.mpr ⟨value, rfl⟩⟩
      · next fits =>
          cases value
          rw [if_neg (by decide), if_neg (by decide), if_neg fits]
          exact ⟨_, rfl⟩

/-- What is read as a number is a numeral. -/
theorem numeral_of_readNumber (found : readNumber negative here = .ok (x, after)) :
    ∃ n : Numeral, here.rest = n.text ++ after.rest ∧ n.value? negative = some x := by
  obtain ⟨ds, noZeros, text⟩ : ∃ ds : Digits,
      (ds.chars.head? = some '0' → ds.chars = ['0']) ∧
        here.rest = ds.chars ++ here.skipDigits.rest := by
    unfold readNumber at found
    split at found
    · cases found
    · next c cs first =>
        split at found
        · cases found
        · next digit =>
            split at found
            · cases found
            · next noZeros =>
                have isDigit : c.isDigit = true := by simpa using digit
                have chars : here.digits = c :: cs.takeWhile Char.isDigit := by
                  rw [Cursor.digits, first, takeWhile_cons_of_pos isDigit]
                obtain ⟨ds, digits, text⟩ := exists_digits (chars ▸ cons_ne_nil _ _)
                refine ⟨ds, fun zero => ?_, text⟩
                rw [← digits, chars] at zero ⊢
                obtain rfl := Option.some.inj zero
                cases cs with
                | nil => rfl
                | cons d more => simp_all
  have stops := skipDigits_stops here
  obtain ⟨rest, offset⟩ := here
  generalize (Cursor.mk rest offset).skipDigits.rest = behind at text stops
  dsimp only at text
  subst text
  rw [readNumber_digits negative ds noZeros stops] at found
  dsimp only at found
  split at found
  · next point =>
      obtain ⟨more, written, left, scaled⟩ := fraction_of_readFraction (eq_of_beq point) found
      dsimp only at left
      exact ⟨⟨ds, noZeros, some more, written⟩, by simp [Numeral.text, left], scaled⟩
  split at found
  · next marked =>
      obtain ⟨e, left, scaled⟩ := exponent_of_readExponent marked found
      dsimp only at left
      exact ⟨⟨ds, noZeros, none, some e⟩, by simp [Numeral.text, left], scaled⟩
  split at found
  · next cut =>
      obtain ⟨scaled, rfl⟩ := finishDouble_eq_ok_iff.mp found
      exact ⟨⟨ds, noZeros, none, none⟩, by simp [Numeral.text], (if_pos cut).trans scaled⟩
  · next fits =>
      cases found
      exact ⟨⟨ds, noZeros, none, none⟩, by simp [Numeral.text], if_neg fits⟩

/-! ## Numerals in programs -/

open Token (numberSize numberMore isNumberPart)

theorem numberSize_of_divided (divided : Divided rest) (hex : Bool) : numberSize hex rest = 0 := by
  rw [← Token.numberMore_false, Token.numberMore_eq_zero_iff]
  exact divided.any_head? (by decide)

theorem numberSize_digits (digits : ∀ c ∈ ds, c.isDigit = true) (rest : List Char) :
    numberSize false (ds ++ rest) = numberSize false rest + ds.length := by
  induction ds with
  | nil => rfl
  | cons c ds ih =>
    obtain ⟨digit, later⟩ := forall_mem_cons.mp digits
    have part : isNumberPart c = true := by simp [isNumberPart, Char.isAlphanum, digit]
    have noMark : ((c == 'e' || c == 'E') && !false) = false := by
      rw [Bool.not_false, Bool.and_true, ← Bool.not_eq_true, Bool.or_eq_true, beq_iff_eq,
        beq_iff_eq]
      rintro (rfl | rfl) <;> cases digit
    rw [cons_append, Token.numberSize_part part noMark, ih later, length_cons, Nat.add_assoc]

theorem Exponent.numberSize_text (e : Exponent) (divided : Divided rest) :
    numberSize false (e.text ++ rest) = e.text.length := by
  have digits := numberSize_digits e.digits.all rest
  rw [numberSize_of_divided divided, Nat.zero_add] at digits
  have part : isNumberPart e.mark = true := by
    rcases e.isMark with mark | mark <;> rw [mark] <;> decide
  have isMark : ((e.mark == 'e' || e.mark == 'E') && !false) = true := by
    rcases e.isMark with mark | mark <;> rw [mark] <;> decide
  have signed : numberMore false true (e.sign ++ e.digits.chars ++ rest) =
      (e.sign ++ e.digits.chars).length := by
    rcases e.isSign with sign | sign | sign
    · rw [sign, nil_append, Token.numberMore_of_no_sign, digits]
      all_goals
        intro ds text
        obtain ⟨d, more, chars⟩ := exists_cons_of_ne_nil e.digits.present
        have digit := e.digits.all d (by simp [chars])
        rw [chars] at text
        cases text
        cases digit
    · rw [sign]
      simpa [numberMore] using digits
    · rw [sign]
      simpa [numberMore] using digits
  rw [text, cons_append, cons_append, Token.numberSize_mark part isMark, signed, length_cons]

theorem noSpace_of_isDigit (digit : c.isDigit = true) : Token.isSpace c = false := by
  have zero : '0'.val.toNat = 48 ∧ '9'.val.toNat = 57 := by decide
  have val : c.toNat = c.val.toNat := rfl
  simp only [Char.isDigit, ge_iff_le, UInt32.le_iff_toNat_le, zero, Bool.and_eq_true,
    decide_eq_true_eq] at digit
  have mark : c ≠ '\ufeff' := by
    rintro rfl
    revert digit
    decide
  simp [Token.isSpace, Text.isBlank, Text.inRanges, Text.blankRanges, mark]
  omega

namespace Numeral

def behindWhole (n : Numeral) : List Char :=
  (n.fraction.elim [] fun ds => '.' :: ds.chars) ++ n.exponent.elim [] Exponent.text

theorem numberSize_behindWhole (n : Numeral) (divided : Divided rest) :
    numberSize false (n.behindWhole ++ rest) = n.behindWhole.length := by
  have last : numberSize false (n.exponent.elim [] Exponent.text ++ rest) =
      (n.exponent.elim [] Exponent.text).length := by
    cases n.exponent with
    | none => exact numberSize_of_divided divided false
    | some e => exact e.numberSize_text divided
  unfold behindWhole
  cases n.fraction with
  | none => exact last
  | some ds =>
    rw [Option.elim_some, cons_append, cons_append, append_assoc,
      Token.numberSize_part rfl rfl, numberSize_digits ds.all, last]
    simp [Nat.add_comm]

theorem isHexadecimal_eq_false {n : Numeral} {d : Char} (chars : n.whole.chars = d :: ds)
    (divided : Divided rest) : Token.isHexadecimal d (ds ++ (n.behindWhole ++ rest)) = false := by
  by_cases zero : d = '0'
  · obtain ⟨_, rfl⟩ := List.cons.inj (chars.symm.trans (n.noZeros (by simp [chars, zero])))
    have letter : (n.behindWhole ++ rest).head?.any (fun c => c == 'x' || c == 'X') = false := by
      unfold behindWhole
      cases n.fraction with
      | some ds => rfl
      | none =>
        cases n.exponent with
        | some e => rcases e.isMark with mark | mark <;> simp [Exponent.text, mark]
        | none => exact divided.any_head? (by decide)
    rw [Token.isHexadecimal, nil_append]
    cases first : (n.behindWhole ++ rest).head? <;> simp_all
  · simp [Token.isHexadecimal, zero]

/-- In code a numeral is one token, and its end is the same. -/
theorem exists_read (n : Numeral) :
    ∃ c body, n.text = c :: body ∧ c.isDigit = true ∧ ∀ operand rest, Divided rest →
      Token.read operand c (body ++ rest) = ⟨.number, body.length⟩ := by
  obtain ⟨d, ds, chars⟩ := exists_cons_of_ne_nil n.whole.present
  have all := n.whole.all
  rw [chars] at all
  obtain ⟨digit, later⟩ := forall_mem_cons.mp all
  refine ⟨d, ds ++ n.behindWhole, by simp [text, behindWhole, chars], digit, ?_⟩
  intro operand rest divided
  rw [append_assoc, Token.read_number (noSpace_of_isDigit digit) (by simp [digit]),
    isHexadecimal_eq_false chars divided, numberSize_digits later,
    n.numberSize_behindWhole divided, length_append, Nat.add_comm]

end Numeral

end Tarkib.Json
