import Mathlib.Data.List.TakeWhile
import Tarkib.Proofs.Token.Literal
import Tarkib.Token.Scan

/-!
# Tokens in another place

What a token is depends on the text behind it only where that text could go on with the token
(`Kind.runsInto`): letters go on with words and with the flags of regular expressions, a number goes
on with what is part of a number, and with a sign if an exponent mark is the last that it has, an
operator with characters that make it a longer one, a point with a digit, and a slash with what
makes it the start of a comment.
-/

namespace Tarkib.Token

open Tarkib.Text List

variable {cs : List Char} {operand : Bool}

section Literals

variable {c : Char} {hex : Bool}

/-! ## Regular expressions -/

theorem take_length_takeWhile (p : Char → Bool) (cs : List Char) :
    cs.take (cs.takeWhile p).length = cs.takeWhile p :=
  (prefix_iff_eq_take.mp ( takeWhile_prefix p)).symm

theorem takeWhile_takeWhile_append (p : Char → Bool) (cs behind : List Char) :
    (cs.takeWhile p ++ behind).takeWhile p = cs.takeWhile p ++ behind.takeWhile p :=
  takeWhile_append_of_pos fun _ member => mem_takeWhile_imp member

theorem size_readRegex_le (inClass : Bool) (cs : List Char) :
    (readRegex inClass cs).size ≤ cs.length := by
  fun_induction readRegex inClass cs with
  | case7 inClass c cs =>
    have flags := ( takeWhile_prefix (l := cs) isIdentifierPart).length_le
    simp only [length_cons]
    omega
  | _ => simp <;> omega

theorem readRegex_cons (noFeed : c ≠ '\n') (noEscape : c ≠ '\\') (noOpening : c ≠ '[')
    (noClosing : c ≠ ']') (inClass : Bool) (cs : List Char) :
    readRegex inClass (c :: cs) =
      if c == '/' && !inClass then ⟨true, 1 + (cs.takeWhile isIdentifierPart).length⟩
      else (readRegex inClass cs).later 1 := by
  rw [readRegex]
  · exact noFeed
  · intro backslash
    exact absurd backslash noEscape
  · intro _ _ backslash
    exact absurd backslash noEscape
  · exact noOpening
  · exact noClosing

theorem size_readRegex_ne_zero (some : cs ≠ []) (inClass : Bool) :
    (readRegex inClass cs).size ≠ 0 := by
  fun_cases readRegex inClass cs
  · exact absurd rfl some
  all_goals simp

/-- A regular expression ends where it did. -/
theorem readRegex_take {inClass : Bool}
    (done : (readRegex inClass cs).value = true ∨ (readRegex inClass cs).size < cs.length)
    (behind : List Char) :
    readRegex inClass (cs.take (readRegex inClass cs).size ++ behind) =
      (readRegex inClass cs).later (if (readRegex inClass cs).value then
        (behind.takeWhile isIdentifierPart).length else 0) := by
  have further (r : Reading Bool) (n more : Nat) :
      (r.later more).later n = (r.later n).later more := by
    simp [Reading.later, Nat.add_right_comm]
  fun_induction readRegex inClass cs with
  | case1 | case3 => simp at done
  | case2 => rfl
  | case4 inClass d cs ih | case5 inClass cs ih | case6 inClass cs ih =>
    simp only [Reading.size_later, take_succ_cons, cons_append]
    rw [readRegex, ih (by simpa using done), further]
    rfl
  | case7 inClass c cs noFeed noEnd noEscape noOpening noClosing closes =>
    simp only [Nat.add_comm 1, take_succ_cons, cons_append, take_length_takeWhile]
    rw [readRegex_cons noFeed (ne_backslash noEnd noEscape) noOpening noClosing, if_pos closes,
      takeWhile_takeWhile_append, length_append]
    simp only [Reading.later, if_true, Reading.mk.injEq, true_and]
    omega
  | case8 inClass c cs noFeed noEnd noEscape noOpening noClosing stays ih =>
    simp only [Reading.size_later, take_succ_cons, cons_append]
    rw [readRegex_cons noFeed (ne_backslash noEnd noEscape) noOpening noClosing, if_neg stays,
      ih (by simpa using done), further]
    rfl

/-! ## Numbers -/

theorem numberSize_le (hex : Bool) (cs : List Char) : numberSize hex cs ≤ cs.length := by
  fun_induction numberSize hex cs <;> simp <;> omega

/-- Whether an exponent mark is the last character of a number that is not hexadecimal. -/
def endsInMark (hex : Bool) (body : List Char) : Bool :=
  !hex && (body.getLast? == some 'e' || body.getLast? == some 'E')

def numberMore (hex marked : Bool) (behind : List Char) : Nat :=
  match marked, behind with
  | true, '+' :: ds => numberSize hex ds + 1
  | true, '-' :: ds => numberSize hex ds + 1
  | _, behind => numberSize hex behind

theorem endsInMark_cons (noMark : ((c == 'e' || c == 'E') && !hex) = false) (body : List Char) :
    endsInMark hex (c :: body) = endsInMark hex body := by
  cases body with
  | nil =>
    cases hex <;> simp_all [endsInMark]
  | cons d ds => simp [endsInMark, getLast?_cons_cons]

theorem numberMore_false (hex : Bool) (behind : List Char) :
    numberMore hex false behind = numberSize hex behind := by
  simp [numberMore]

theorem numberMore_of_no_sign (hex marked : Bool) {behind : List Char}
    (noPlus : ∀ ds, behind = '+' :: ds → False) (noMinus : ∀ ds, behind = '-' :: ds → False) :
    numberMore hex marked behind = numberSize hex behind := by
  rw [numberMore]
  · intro ds _
    exact noPlus ds
  · intro ds _
    exact noMinus ds

theorem numberSize_mark (part : isNumberPart c = true)
    (mark : ((c == 'e' || c == 'E') && !hex) = true) (cs : List Char) :
    numberSize hex (c :: cs) = numberMore hex true cs + 1 := by
  rw [numberSize.eq_def]
  simp only [part, mark, if_true]
  split
  · rfl
  · rfl
  · next noPlus noMinus => rw [numberMore_of_no_sign hex true noPlus noMinus]

theorem numberSize_part (part : isNumberPart c = true)
    (noMark : ((c == 'e' || c == 'E') && !hex) = false) (cs : List Char) :
    numberSize hex (c :: cs) = numberSize hex cs + 1 := by
  rw [numberSize.eq_def]
  simp [part, noMark]

/-- A number goes on with what follows its last character. -/
theorem numberSize_take (hex : Bool) (cs behind : List Char) :
    numberSize hex (cs.take (numberSize hex cs) ++ behind) =
      numberSize hex cs +
        numberMore hex (endsInMark hex (cs.take (numberSize hex cs))) behind := by
  have noMark_sign : ∀ c, c = '+' ∨ c = '-' → ((c == 'e' || c == 'E') && !hex) = false := by
    rintro c (rfl | rfl) <;> rfl
  have last (c d : Char) (ds : List Char) :
      endsInMark hex (c :: d :: ds) = endsInMark hex (d :: ds) := by
    simp [endsInMark, getLast?_cons_cons]
  fun_induction numberSize hex cs with
  | case1 => simp [endsInMark, numberMore_false]
  | case2 c part mark ds ih =>
    simp only [take_succ_cons, cons_append]
    rw [numberSize_mark part mark, last, endsInMark_cons (noMark_sign '+' (.inl rfl))]
    simp only [numberMore, ih]
    omega
  | case3 c part mark ds ih =>
    simp only [take_succ_cons, cons_append]
    rw [numberSize_mark part mark, last, endsInMark_cons (noMark_sign '-' (.inr rfl))]
    simp only [numberMore, ih]
    omega
  | case4 c part mark cs noPlus noMinus ih =>
    simp only [take_succ_cons, cons_append]
    have marked : endsInMark hex [c] = true := by simpa [endsInMark, and_comm] using mark
    rw [numberSize_mark part mark]
    cases cs with
    | nil => simp [marked, numberSize, Nat.add_comm]
    | cons d ds =>
      cases size : numberSize hex (d :: ds) with
      | zero => simp [marked, Nat.add_comm]
      | succ n =>
        -- The character behind the mark is part of the number, so it is no sign.
        rw [size] at ih
        simp only [take_succ_cons, cons_append] at ih ⊢
        rw [numberMore_of_no_sign, ih, last]
        · omega
        · rintro es equal
          cases equal
          exact noPlus ds rfl
        · rintro es equal
          cases equal
          exact noMinus ds rfl
  | case5 c cs part noMark ih =>
    simp only [take_succ_cons, cons_append]
    rw [endsInMark_cons (by simpa using noMark), numberSize.eq_def]
    simp only [part, noMark, if_true, ih]
    simp
    omega
  | case6 c cs => simp [endsInMark, numberMore_false]

/-- The characters that a number goes on with: its own parts, and a sign behind an exponent mark. -/
def goesOnWith (marked : Bool) (c : Char) : Bool :=
  isNumberPart c || (marked && (c == '+' || c == '-'))

theorem numberMore_eq_zero_iff (hex marked : Bool) (behind : List Char) :
    numberMore hex marked behind = 0 ↔ behind.head?.any (goesOnWith marked) = false := by
  have part (c : Char) (cs : List Char) :
      numberSize hex (c :: cs) = 0 ↔ isNumberPart c = false := by
    rw [numberSize.eq_def]
    simp only
    split
    · next part =>
        split
        · split <;> simp [part]
        · simp [part]
    · next noPart => simp [noPart]
  unfold numberMore
  split
  · simp [goesOnWith]
  · simp [goesOnWith]
  · next noPlus noMinus =>
      cases behind with
      | nil => simp [numberSize]
      | cons c cs =>
        rw [part]
        cases marked with
        | false => simp [goesOnWith]
        | true =>
          have plus : c ≠ '+' := fun equal => noPlus cs rfl (by rw [equal])
          have minus : c ≠ '-' := fun equal => noMinus cs rfl (by rw [equal])
          simp [goesOnWith, plus, minus]

end Literals

/-! ## Operators -/

theorem operators_sorted : operators.Pairwise fun first later => later.length ≤ first.length := by
  decide

theorem one_lt_length_of_mem_operators : ∀ op ∈ operators, 1 < op.length := by
  decide

/-- What is read as an operator or delimiter: the longest operator that fits, or else one character.
-/
structure IsPunctReading (c : Char) (cs : List Char) (r : Reading Kind) : Prop where
  size_le : r.size ≤ cs.length
  value : r.value = .punct (String.ofList (c :: cs.take r.size))
  operator : r.size = 0 ∨ String.ofList (c :: cs.take r.size) ∈ operators
  longest : ∀ op ∈ operators, op.toList <+: c :: cs → op.length ≤ r.size + 1

/-- The longest operator is read. -/
theorem readPunct_spec (c : Char) (cs : List Char) : IsPunctReading c cs (readPunct c cs) := by
  unfold readPunct
  cases found : operators.find? fun op => op.toList.isPrefixOf (c :: cs) with
  | none =>
    refine ⟨Nat.zero_le _, ?_, .inl rfl, ?_⟩
    · simp only [take_zero, String.singleton_eq_ofList]
    · intro op member fits
      have none := find?_eq_none.mp found op member
      exact absurd ( isPrefixOf_iff_prefix.mpr fits) none
  | some op =>
    obtain ⟨fits, before, after, split, passed⟩ := find?_eq_some_iff_append.mp found
    have member : op ∈ operators := mem_of_find?_eq_some found
    have long := one_lt_length_of_mem_operators op member
    rw [ isPrefixOf_iff_prefix] at fits
    obtain ⟨n, size⟩ : ∃ n, op.length = n + 1 := ⟨op.length - 1, by omega⟩
    have text : op.toList = c :: cs.take n := by
      rw [prefix_iff_eq_take.mp fits, String.length_toList, size, take_succ_cons]
    have whole : String.ofList (c :: cs.take n) = op := by rw [← text, String.ofList_toList]
    refine ⟨?_, ?_, ?_, ?_⟩
    · have shorter := fits.length_le
      rw [String.length_toList, length_cons] at shorter
      simp only
      omega
    · simp only [size, Nat.add_sub_cancel, whole]
    · simp only [size, Nat.add_sub_cancel, whole]
      exact .inr member
    · intro other known otherFits
      have order := operators_sorted
      rw [split, pairwise_append, pairwise_cons] at order
      rw [split] at known
      simp only [size, Nat.add_sub_cancel]
      rw [← size]
      rcases mem_append.mp known with early | late
      · have missed := passed other early
        rw [← isPrefixOf_iff_prefix] at otherFits
        simp [otherFits] at missed
      · rcases mem_cons.mp late with rfl | late
        · exact Nat.le_refl _
        · exact order.2.1.1 other late

namespace IsPunctReading

variable {c : Char} {behind : List Char} {r again : Reading Kind} (first : IsPunctReading c cs r)
  (second : IsPunctReading c (cs.take r.size ++ behind) again)
include first second

theorem size_le_size_take : r.size ≤ again.size := by
  have body : (cs.take r.size).length = r.size := length_take_of_le first.size_le
  rcases first.operator with none | member
  · omega
  · have fits :
        (String.ofList (c :: cs.take r.size)).toList <+: c :: (cs.take r.size ++ behind) := by
      rw [String.toList_ofList]
      exact prefix_append (c :: cs.take r.size) behind
    have longest := second.longest _ member fits
    rw [String.length_ofList, length_cons, body] at longest
    omega

omit first in
/-- More is read if a longer operator starts so. -/
theorem size_lt_size_take_iff :
    r.size < again.size ↔
      ∃ op ∈ operators, r.size + 1 < op.length ∧ op.toList <+: c :: (cs.take r.size ++ behind) := by
  constructor
  · intro longer
    have member := second.operator.resolve_left (by omega)
    refine ⟨_, member, ?_, ?_⟩
    · rw [String.length_ofList, length_cons, length_take_of_le second.size_le]
      omega
    · rw [String.toList_ofList, ← take_succ_cons]
      exact take_prefix _ _
  · rintro ⟨op, member, long, fits⟩
    have longest := second.longest op member fits
    omega

theorem eq_of_size_eq (same : again.size = r.size) : again = r := by
  have body : (cs.take r.size ++ behind).take r.size = cs.take r.size := by
    rw [take_append_of_le_length (by simp [first.size_le]), take_take, Nat.min_self]
  cases r
  cases again
  cases same
  have values : _ = _ := second.value.trans (by rw [body, ← first.value])
  simp only [Reading.mk.injEq, and_true]
  exact values

end IsPunctReading

/-! ## Running into what follows -/

/-- Whether a number with this text ends in an exponent mark. -/
def endsInExponent : List Char → Bool
  | [] => false
  | c :: body => endsInMark (isHexadecimal c body) body

/-- Whether a token of this kind and with this text would be read differently directly before the
text `behind`. -/
def Kind.runsInto (kind : Kind) (text behind : List Char) : Bool :=
  match kind with
  | .identifier _ | .regex => behind.head?.any isIdentifierPart
  | .number => behind.head?.any (goesOnWith (endsInExponent text))
  | .punct _ =>
    operators.any (fun op => text.length < op.length && op.toList.isPrefixOf (text ++ behind))
      || (text == ['.'] && behind.head?.any Char.isDigit)
      || (text == ['/'] && behind.head?.any fun c => c == '/' || c == '*')
  | _ => false

/-- Whether the kind is that of a token that is no trivia and no fault. -/
def Kind.isReadable : Kind → Bool
  | .blank | .lineComment | .blockComment | .fault _ => false
  | _ => true

theorem Kind.isSignificant_of_isReadable {kind : Kind} (readable : kind.isReadable = true) :
    kind.isSignificant = true := by
  cases kind with
  | blank | lineComment | blockComment => cases readable
  | _ => rfl

theorem any_head?_eq_false_iff {p : Char → Bool} :
    cs.head?.any p = false ↔ (cs.takeWhile p).length = 0 := by
  cases cs with
  | nil => simp
  | cons c cs => by_cases h : p c <;> simp [h]

/-! ## How far a token goes -/

theorem size_readComment_le (afterStar : Bool) (cs : List Char) :
    (readComment afterStar cs).size ≤ cs.length := by
  fun_induction readComment afterStar cs <;> simp
  omega

/-- A comment that is closed ends where it did. -/
theorem readComment_take {afterStar : Bool}
    (done : (readComment afterStar cs).value = true ∨ (readComment afterStar cs).size < cs.length)
    (behind : List Char) :
    readComment afterStar (cs.take (readComment afterStar cs).size ++ behind) =
      readComment afterStar cs := by
  fun_induction readComment afterStar cs with
  | case1 => simp at done
  | case2 afterStar c cs closes => simp [readComment, closes]
  | case3 afterStar c cs stays ih =>
    simp only [Reading.size_later, take_succ_cons, cons_append]
    rw [readComment, if_neg stays, ih (by simpa using done)]

theorem size_read_le (operand : Bool) (c : Char) (cs : List Char) :
    (read operand c cs).size ≤ cs.length := by
  have words (p : Char → Bool) : (cs.takeWhile p).length ≤ cs.length :=
    ( takeWhile_prefix p).length_le
  unfold read
  split
  · exact words isSpace
  split
  · exact words isLineBody
  split
  · next opens =>
      have comment := size_readComment_le false cs.tail
      cases cs with
      | nil => simp at opens
      | cons d ds => simpa using comment
  split
  · exact size_readRegex_le false cs
  split
  · exact size_readString_le c cs
  split
  · exact size_readTemplate_le .text [] cs
  split
  · exact numberSize_le _ cs
  split
  · exact words isIdentifierPart
  split
  · exact (readPunct_spec c cs).size_le
  · exact Nat.zero_le _

/-! ## The readers

Which reader takes over depends on the first character, and for a slash and a point also on the
second one. -/

section Readers

variable {c : Char}

theorem read_regex (noLine : cs.head? ≠ some '/') (noBlock : cs.head? ≠ some '*') :
    read true '/' cs =
      (readRegex false cs).map fun closed => if closed then .regex else .fault .openRegex := by
  have noSpace : isSpace '/' = false := by decide
  simp [read, noSpace, noLine, noBlock]

theorem read_string (quote : (c == '\x22' || c == '\x27') = true) :
    read operand c cs = (readString c cs).map Kind.ofString := by
  rw [Bool.or_eq_true, beq_iff_eq, beq_iff_eq] at quote
  have noSpace : isSpace '\x22' = false ∧ isSpace '\x27' = false := by decide
  rcases quote with rfl | rfl
  · simp [read, noSpace.1]
  · simp [read, noSpace.2]

theorem read_template :
    read operand '\x60' cs = (readTemplate .text [] cs).map Kind.ofTemplate := by
  have noSpace : isSpace '\x60' = false := by decide
  simp [read, noSpace]

theorem read_number (noSpace : isSpace c = false)
    (digit : (c.isDigit || (c == '.' && (cs.head?.map Char.isDigit).getD false)) = true) :
    read operand c cs = ⟨.number, numberSize (isHexadecimal c cs) cs⟩ := by
  have others : c ≠ '/' ∧ c ≠ '\x22' ∧ c ≠ '\x27' ∧ c ≠ '\x60' := by
    refine ⟨?_, ?_, ?_, ?_⟩ <;> rintro rfl <;> simp at digit
  simp only [read, noSpace]
  simp [others, digit]

theorem read_identifier (noSpace : isSpace c = false) (noDigit : c.isDigit = false)
    (start : isIdentifierStart c = true) :
    read operand c cs =
      ⟨.identifier (String.ofList (c :: cs.takeWhile isIdentifierPart)),
        (cs.takeWhile isIdentifierPart).length⟩ := by
  have others : c ≠ '/' ∧ c ≠ '\x22' ∧ c ≠ '\x27' ∧ c ≠ '\x60' ∧ c ≠ '.' := by
    refine ⟨?_, ?_, ?_, ?_, ?_⟩ <;> rintro rfl <;> exact absurd start (by decide +kernel)
  simp [read, noSpace, noDigit, start, others]

/-- The first characters of words that are operators, delimiters or nothing at all. -/
structure OpensNoLiteral (c : Char) : Prop where
  noSpace : isSpace c = false
  noString : (c == '\x22' || c == '\x27') = false
  noTemplate : (c == '\x60') = false
  noDigit : c.isDigit = false
  noIdentifier : isIdentifierStart c = false

theorem read_punct (opens : OpensNoLiteral c) (punct : isAsciiPunctuation c = true)
    (slash : c = '/' → operand = false ∧ cs.head? ≠ some '/' ∧ cs.head? ≠ some '*')
    (point : c = '.' → cs.head?.any Char.isDigit = false) :
    read operand c cs = readPunct c cs := by
  have noComment : (c == '/' && cs.head? == some '/') = false ∧
      (c == '/' && cs.head? == some '*') = false ∧ (c == '/' && operand) = false := by
    by_cases isSlash : c = '/'
    · simp [slash isSlash]
    · simp [isSlash]
  have noNumber : (c == '.' && (cs.head?.map Char.isDigit).getD false) = false := by
    by_cases isPoint : c = '.'
    · have := point isPoint
      cases head : cs.head? <;> simp_all
    · simp [isPoint]
  obtain ⟨noSpace, noString, noTemplate, noDigit, noIdentifier⟩ := opens
  simp [read, noSpace, noString, noTemplate, noDigit, noIdentifier, punct, noComment, noNumber]

theorem read_stray (opens : OpensNoLiteral c) (noPunct : isAsciiPunctuation c = false) :
    read operand c cs = ⟨.stray c, 0⟩ := by
  have others : c ≠ '/' ∧ c ≠ '.' := by
    refine ⟨?_, ?_⟩ <;> rintro rfl <;> exact absurd noPunct (by decide)
  obtain ⟨noSpace, noString, noTemplate, noDigit, noIdentifier⟩ := opens
  simp [read, noSpace, noString, noTemplate, noDigit, noIdentifier, noPunct, others]

/-- How a text can start, and so which reader takes over. -/
inductive Opening (operand : Bool) (c : Char) (cs : List Char) : Prop where
  | blank (space : isSpace c = true)
  | comment (slash : c = '/') (opens : (cs.head?.any fun c => c == '/' || c == '*') = true)
  | regex (slash : c = '/') (operand : operand = true)
      (noComment : cs.head? ≠ some '/' ∧ cs.head? ≠ some '*')
  | string (quote : (c == '\x22' || c == '\x27') = true)
  | template (mark : c = '\x60')
  | number (noSpace : isSpace c = false)
      (digit : (c.isDigit || (c == '.' && (cs.head?.map Char.isDigit).getD false)) = true)
  | identifier (noSpace : isSpace c = false) (noDigit : c.isDigit = false)
      (start : isIdentifierStart c = true)
  | punct (opens : OpensNoLiteral c) (punct : isAsciiPunctuation c = true)
      (slash : c = '/' → operand = false ∧ cs.head? ≠ some '/' ∧ cs.head? ≠ some '*')
      (point : c = '.' → cs.head?.any Char.isDigit = false)
  | stray (opens : OpensNoLiteral c) (noPunct : isAsciiPunctuation c = false)

/-- Every token starts in one of these ways. -/
theorem opening (operand : Bool) (c : Char) (cs : List Char) : Opening operand c cs := by
  cases noSpace : isSpace c with
  | true => exact .blank noSpace
  | false =>
  cases noString : (c == '\x22' || c == '\x27') with
  | true => exact .string noString
  | false =>
  cases noTemplate : (c == '\x60') with
  | true => exact .template (beq_iff_eq.mp noTemplate)
  | false =>
  cases noNumber : c.isDigit || (c == '.' && (cs.head?.map Char.isDigit).getD false) with
  | true => exact .number noSpace noNumber
  | false =>
  rw [Bool.or_eq_false_iff] at noNumber
  cases noIdentifier : isIdentifierStart c with
  | true => exact .identifier noSpace noNumber.1 noIdentifier
  | false =>
  have opens : OpensNoLiteral c := ⟨noSpace, noString, noTemplate, noNumber.1, noIdentifier⟩
  cases punct : isAsciiPunctuation c with
  | false => exact .stray opens punct
  | true =>
  have point : c = '.' → cs.head?.any Char.isDigit = false := by
    rintro rfl
    have noDigit := noNumber.2
    cases head : cs.head? <;> simp_all
  by_cases slash : c = '/'
  · cases comment : cs.head?.any fun c => c == '/' || c == '*' with
    | true => exact .comment slash comment
    | false =>
      have noComment : cs.head? ≠ some '/' ∧ cs.head? ≠ some '*' := by
        cases head : cs.head? <;> simp_all
      cases operand with
      | true => exact .regex slash rfl noComment
      | false => exact .punct opens punct (fun _ => ⟨rfl, noComment⟩) point
  · exact .punct opens punct (fun equal => absurd equal slash) point

theorem noSpace_of_readable (readable : (read operand c cs).value.isReadable = true) :
    isSpace c = false := by
  rw [← Bool.not_eq_true]
  intro space
  simp [read, space, Kind.isReadable] at readable

theorem read_lineComment (cs : List Char) :
    read operand '/' ('/' :: cs) = ⟨.lineComment, (('/' :: cs).takeWhile isLineBody).length⟩ := by
  have noSpace : isSpace '/' = false := by decide
  simp [read, noSpace]

theorem read_blockComment (cs : List Char) :
    read operand '/' ('*' :: cs) =
      ((readComment false cs).map fun closed =>
        if closed then .blockComment else .fault .openComment).later 1 := by
  have noSpace : isSpace '/' = false := by decide
  simp [read, noSpace]

theorem exists_second (opens : (cs.head?.any fun c => c == '/' || c == '*') = true) :
    ∃ ds, cs = '/' :: ds ∨ cs = '*' :: ds := by
  cases cs with
  | nil => simp at opens
  | cons d ds => exact ⟨ds, by simpa using opens⟩

theorem isReadable_read_comment (opens : (cs.head?.any fun c => c == '/' || c == '*') = true) :
    (read operand '/' cs).value.isReadable = false := by
  obtain ⟨ds, rfl | rfl⟩ := exists_second opens
  · rw [read_lineComment]
    rfl
  · rw [read_blockComment]
    cases closed : (readComment false ds).value <;> simp [closed, Kind.isReadable]

theorem isSignificant_read (noSpace : isSpace c = false)
    (noComment : c = '/' → (cs.head?.any fun c => c == '/' || c == '*') = false) :
    (read operand c cs).value.isSignificant = true := by
  cases opening operand c cs with
  | blank space =>
    rw [noSpace] at space
    cases space
  | comment slash opens =>
    rw [noComment slash] at opens
    cases opens
  | regex slash operand apart =>
    subst slash operand
    rw [read_regex apart.1 apart.2]
    cases closed : (readRegex false cs).value <;> simp [closed, Kind.isSignificant]
  | string quote =>
    rw [read_string quote]
    cases closed : (readString c cs).value <;> simp [closed, Kind.ofString, Kind.isSignificant]
  | template mark =>
    subst mark
    rw [read_template]
    cases closed : (readTemplate .text [] cs).value <;>
      simp [closed, Kind.ofTemplate, Kind.isSignificant]
  | number noSpace digit =>
    rw [read_number noSpace digit]
    rfl
  | identifier noSpace noDigit start =>
    rw [read_identifier noSpace noDigit start]
    rfl
  | punct opens punct slash point =>
    rw [read_punct opens punct slash point, (readPunct_spec c cs).value]
    rfl
  | stray opens noPunct =>
    rw [read_stray opens noPunct]
    rfl

end Readers

/-! ## One token before another text -/

/-- Reading again gives more if the token runs into what follows, and the same otherwise. -/
def Rereads (first again : Reading Kind) (runs : Bool) : Prop :=
  if runs then first.size < again.size else again = first

theorem rereads_true {first again : Reading Kind} :
    Rereads first again true ↔ first.size < again.size := by
  simp [Rereads]

theorem rereads_false {first again : Reading Kind} : Rereads first again false ↔ again = first := by
  simp [Rereads]

theorem rereads_of_add {first again : Reading Kind} {runs : Bool} {more : Nat}
    (size : again.size = first.size + more) (apart : runs = false ↔ more = 0)
    (same : more = 0 → again = first) : Rereads first again runs := by
  unfold Rereads
  cases runs with
  | false => exact same (apart.mp rfl)
  | true =>
    have some : more ≠ 0 := fun none => by cases apart.mpr none
    simp only [if_true]
    omega

/-- The token at the start of `c :: cs`, cut off where it ends and put before the text `behind`, is
read again as it was exactly if it does not run into that text. -/
def RereadsBefore (operand : Bool) (c : Char) (cs behind : List Char) : Prop :=
  let first := read operand c cs
  Rereads first (read operand c (cs.take first.size ++ behind))
    (first.value.runsInto (c :: cs.take first.size) behind)

section Rereads

variable {c : Char} (behind : List Char)

theorem rereadsBefore_string (quote : (c == '\x22' || c == '\x27') = true)
    (readable : (read operand c cs).value.isReadable = true) :
    RereadsBefore operand c cs behind := by
  unfold RereadsBefore
  rw [read_string quote] at readable ⊢
  cases value : (readString c cs).value with
  | none =>
    simp only [Reading.value_map, value] at readable
    cases readable
  | some v =>
    simp only [Reading.value_map, Reading.size_map, value]
    refine rereads_false.mpr ?_
    rw [read_string quote, readString_take (.inl (by rw [value]; rfl))]

theorem rereadsBefore_template (readable : (read operand '\x60' cs).value.isReadable = true) :
    RereadsBefore operand '\x60' cs behind := by
  unfold RereadsBefore
  rw [read_template] at readable ⊢
  cases value : (readTemplate .text [] cs).value with
  | error problem =>
    simp only [Reading.value_map, value] at readable
    cases readable
  | ok v =>
    simp only [Reading.value_map, Reading.size_map, value]
    refine rereads_false.mpr ?_
    rw [read_template, readTemplate_take (.inl (by rw [value]; rfl))]

theorem rereadsBefore_regex (noComment : cs.head? ≠ some '/' ∧ cs.head? ≠ some '*')
    (readable : (read true '/' cs).value.isReadable = true) : RereadsBefore true '/' cs behind := by
  unfold RereadsBefore
  rw [read_regex noComment.1 noComment.2] at readable ⊢
  cases closed : (readRegex false cs).value with
  | false =>
    simp only [Reading.value_map, closed] at readable
    cases readable
  | true =>
    have some : cs ≠ [] := by
      rintro rfl
      cases closed
    have head := head?_take_append (size_readRegex_ne_zero some false) (size_readRegex_le false cs)
      behind
    simp only [Reading.value_map, Reading.size_map, closed, if_true, Kind.runsInto]
    rw [read_regex (head ▸ noComment.1) (head ▸ noComment.2), readRegex_take (.inl closed),
      if_pos closed]
    refine rereads_of_add rfl any_head?_eq_false_iff fun none => ?_
    rw [none]
    rfl

theorem rereadsBefore_identifier (noSpace : isSpace c = false) (noDigit : c.isDigit = false)
    (start : isIdentifierStart c = true) : RereadsBefore operand c cs behind := by
  unfold RereadsBefore
  simp only [read_identifier noSpace noDigit start, take_length_takeWhile,
    takeWhile_takeWhile_append, Kind.runsInto]
  refine rereads_of_add ?_ any_head?_eq_false_iff fun none => ?_
  · simp only [length_append]
  · rw [length_eq_zero_iff.mp none, append_nil]

theorem isHexadecimal_congr {ds : List Char} (same : cs.head? = ds.head?) :
    isHexadecimal c cs = isHexadecimal c ds := by
  simp only [isHexadecimal, same]

theorem numberSize_ne_zero (hex : Bool) (digit : cs.head?.any Char.isDigit = true) :
    numberSize hex cs ≠ 0 := by
  rw [← numberMore_false, Ne, numberMore_eq_zero_iff]
  cases cs with
  | nil => simp at digit
  | cons d ds =>
    have part : d.isDigit = true := by simpa using digit
    simp [goesOnWith, isNumberPart, Char.isAlphanum, part]

/-- A number before another text. -/
theorem rereadsBefore_number (noSpace : isSpace c = false)
    (digit : (c.isDigit || (c == '.' && (cs.head?.map Char.isDigit).getD false)) = true) :
    RereadsBefore operand c cs behind := by
  unfold RereadsBefore
  simp only [read_number noSpace digit, Kind.runsInto]
  by_cases none : numberSize (isHexadecimal c cs) cs = 0
  · have first : c.isDigit = true := by
      cases isDigit : c.isDigit with
      | true => rfl
      | false =>
        refine absurd none (numberSize_ne_zero _ ?_)
        cases head : cs.head? <;> simp_all
    simp only [none, take_zero, nil_append]
    rw [read_number noSpace (by simp [first]), ← numberMore_false]
    have unmarked : endsInExponent [c] = false := by simp [endsInExponent, endsInMark]
    rw [unmarked]
    refine rereads_of_add (Nat.zero_add _).symm (numberMore_eq_zero_iff _ _ _).symm fun zero => ?_
    simp only [Reading.mk.injEq, true_and]
    exact zero
  · have head := head?_take_append none (numberSize_le _ cs)
    have hexadecimal (more : List Char) := isHexadecimal_congr (c := c) (head more)
    rw [read_number noSpace (by rwa [head]), hexadecimal, numberSize_take]
    have marked : endsInExponent (c :: cs.take (numberSize (isHexadecimal c cs) cs)) =
        endsInMark (isHexadecimal c cs) (cs.take (numberSize (isHexadecimal c cs) cs)) := by
      have bare := hexadecimal []
      rw [append_nil] at bare
      rw [endsInExponent, bare]
    rw [marked]
    refine rereads_of_add rfl (numberMore_eq_zero_iff _ _ _).symm fun zero => ?_
    rw [zero]
    rfl

theorem rereads_readPunct (c : Char) (cs behind : List Char) :
    Rereads (readPunct c cs) (readPunct c (cs.take (readPunct c cs).size ++ behind))
      (operators.any fun op =>
        (c :: cs.take (readPunct c cs).size).length < op.length &&
          op.toList.isPrefixOf (c :: cs.take (readPunct c cs).size ++ behind)) := by
  have first := readPunct_spec c cs
  have second := readPunct_spec c (cs.take (readPunct c cs).size ++ behind)
  have longer := second.size_lt_size_take_iff
  have atLeast := first.size_le_size_take second
  rw [length_cons, length_take_of_le first.size_le]
  unfold Rereads
  split
  · next fits =>
      refine longer.mpr ?_
      simpa [ isPrefixOf_iff_prefix] using fits
  · next none =>
      refine first.eq_of_size_eq second ?_
      have noLonger : ¬ (readPunct c cs).size <
          (readPunct c (cs.take (readPunct c cs).size ++ behind)).size := by
        intro more
        refine none ?_
        simpa [ isPrefixOf_iff_prefix] using longer.mp more
      omega

theorem size_read_point_ne_zero (digit : cs.head?.any Char.isDigit = true) :
    (read operand '.' cs).size ≠ 0 := by
  have noSpace : isSpace '.' = false := by decide
  rw [read_number noSpace (by cases head : cs.head? <;> simp_all)]
  exact numberSize_ne_zero _ digit

theorem size_read_comment_ne_zero (opens : (cs.head?.any fun c => c == '/' || c == '*') = true) :
    (read operand '/' cs).size ≠ 0 := by
  obtain ⟨ds, rfl | rfl⟩ := exists_second opens
  · have body : isLineBody '/' = true := by decide
    simp [read_lineComment, body]
  · simp [read_blockComment]

/-- An operator before another text. -/
theorem rereadsBefore_punct (opens : OpensNoLiteral c) (punct : isAsciiPunctuation c = true)
    (slash : c = '/' → operand = false ∧ cs.head? ≠ some '/' ∧ cs.head? ≠ some '*')
    (point : c = '.' → cs.head?.any Char.isDigit = false) : RereadsBefore operand c cs behind := by
  unfold RereadsBefore
  have first := readPunct_spec c cs
  simp only [read_punct opens punct slash point]
  rw [first.value, Kind.runsInto]
  have alone (d : Char) (text : c :: cs.take (readPunct c cs).size = [d]) :
      c = d ∧ (readPunct c cs).size = 0 := by
    rw [List.cons.injEq, take_eq_nil_iff] at text
    refine ⟨text.1, text.2.elim id fun none => ?_⟩
    subst none
    exact Nat.le_zero.mp first.size_le
  -- Only a point and a slash can become something that is no operator: a number or a comment.
  by_cases number :
      (c :: cs.take (readPunct c cs).size == ['.'] && behind.head?.any Char.isDigit) = true
  · simp only [number, Bool.or_true, Bool.true_or]
    rw [Bool.and_eq_true, beq_iff_eq] at number
    obtain ⟨rfl, none⟩ := alone '.' number.1
    rw [rereads_true, none]
    exact Nat.pos_of_ne_zero (size_read_point_ne_zero number.2)
  · by_cases comment : (c :: cs.take (readPunct c cs).size == ['/'] &&
        behind.head?.any fun c => c == '/' || c == '*') = true
    · simp only [comment, Bool.or_true]
      rw [Bool.and_eq_true, beq_iff_eq] at comment
      obtain ⟨rfl, none⟩ := alone '/' comment.1
      rw [rereads_true, none]
      exact Nat.pos_of_ne_zero (size_read_comment_ne_zero comment.2)
    · rw [Bool.not_eq_true] at number comment
      rw [number, comment, Bool.or_false, Bool.or_false, read_punct opens punct]
      · exact rereads_readPunct c cs behind
      · rintro rfl
        refine ⟨(slash rfl).1, ?_⟩
        by_cases none : (readPunct '/' cs).size = 0
        · rw [none] at comment ⊢
          cases head : behind.head? <;> simp_all
        · rw [head?_take_append none first.size_le]
          exact (slash rfl).2
      · rintro rfl
        by_cases none : (readPunct '.' cs).size = 0
        · rw [none] at number ⊢
          simpa using number
        · rw [head?_take_append none first.size_le]
          exact point rfl

theorem rereadsBefore_stray (opens : OpensNoLiteral c) (noPunct : isAsciiPunctuation c = false) :
    RereadsBefore operand c cs behind := by
  unfold RereadsBefore
  simp only [read_stray opens noPunct, Kind.runsInto]
  exact rereads_false.mpr rfl

theorem rereadsBefore_of_readable (readable : (read operand c cs).value.isReadable = true) :
    RereadsBefore operand c cs behind := by
  cases opening operand c cs with
  | blank space =>
    rw [noSpace_of_readable readable] at space
    cases space
  | comment slash opens =>
    subst slash
    rw [isReadable_read_comment opens] at readable
    cases readable
  | regex slash operand noComment =>
    subst slash operand
    exact rereadsBefore_regex behind noComment readable
  | string quote => exact rereadsBefore_string behind quote readable
  | template mark =>
    subst mark
    exact rereadsBefore_template behind readable
  | number noSpace digit => exact rereadsBefore_number behind noSpace digit
  | identifier noSpace noDigit start => exact rereadsBefore_identifier behind noSpace noDigit start
  | punct opens punct slash point => exact rereadsBefore_punct behind opens punct slash point
  | stray opens noPunct => exact rereadsBefore_stray behind opens noPunct

variable {behind}

/-- A token is read again before a text that it does not run into. -/
theorem read_take_of_apart (readable : (read operand c cs).value.isReadable = true)
    (apart : (read operand c cs).value.runsInto (c :: cs.take (read operand c cs).size) behind =
      false) :
    read operand c (cs.take (read operand c cs).size ++ behind) = read operand c cs := by
  have again := rereadsBefore_of_readable behind readable
  simp only [RereadsBefore, apart] at again
  exact rereads_false.mp again

/-- Otherwise more is read. -/
theorem size_read_take_of_runsInto (readable : (read operand c cs).value.isReadable = true)
    (runs : (read operand c cs).value.runsInto (c :: cs.take (read operand c cs).size) behind =
      true) :
    (read operand c cs).size <
      (read operand c (cs.take (read operand c cs).size ++ behind)).size := by
  have again := rereadsBefore_of_readable behind readable
  simp only [RereadsBefore, runs] at again
  exact rereads_true.mp again

end Rereads

/-! ## The words of a text -/

/-- The kinds and texts of the words among the tokens, in order. -/
def words (tokens : List Token) : List (Kind × String) :=
  (significant tokens).map fun t => (t.kind, t.text)

/-- The words of a text. -/
def wordsOf (operand : Bool) (cs : List Char) : List (Kind × String) :=
  words (scanFrom operand 0 cs)

theorem words_cons_of_significant {t : Token} (word : t.isSignificant = true) (ts : List Token) :
    words (t :: ts) = (t.kind, t.text) :: words ts := by
  simp [words, significant, word]

theorem words_cons_of_trivia {t : Token} (trivia : t.isSignificant = false) (ts : List Token) :
    words (t :: ts) = words ts := by
  simp [words, significant, trivia]

/-- The words among the tokens are those of the text. -/
theorem words_scanFrom (operand : Bool) (start : Nat) (cs : List Char) :
    words (scanFrom operand start cs) = wordsOf operand cs := by
  suffices moved : ∀ other,
      words (scanFrom operand start cs) = words (scanFrom operand other cs) from moved 0
  fun_induction scanFrom operand start cs with
  | case1 operand start =>
    intro other
    rw [scanFrom]
  | case2 operand start c cs reading token operand' ih =>
    intro other
    rw [scanFrom.eq_def operand other]
    dsimp only
    cases word : token.isSignificant with
    | true =>
      rw [words_cons_of_significant word, words_cons_of_significant (by exact word), ih]
      rfl
    | false =>
      rw [words_cons_of_trivia word, words_cons_of_trivia (by exact word), ih]
      rfl

theorem wordsOf_cons_of_significant {c : Char}
    (word : (read operand c cs).value.isSignificant = true) :
    wordsOf operand (c :: cs) =
      ((read operand c cs).value, String.ofList (c :: cs.take (read operand c cs).size)) ::
        wordsOf (read operand c cs).value.precedesExpression
          (cs.drop (read operand c cs).size) := by
  rw [wordsOf, scanFrom]
  dsimp only
  rw [words_cons_of_significant (by exact word), words_scanFrom]
  simp only [isSignificant, word, if_true]

theorem wordsOf_cons_of_trivia {c : Char}
    (trivia : (read operand c cs).value.isSignificant = false) :
    wordsOf operand (c :: cs) = wordsOf operand (cs.drop (read operand c cs).size) := by
  rw [wordsOf, scanFrom]
  dsimp only
  rw [words_cons_of_trivia (by exact trivia), words_scanFrom]
  simp [isSignificant, trivia]

theorem wordsOf_dropWhile (operand : Bool) (cs : List Char) :
    wordsOf operand (cs.dropWhile isSpace) = wordsOf operand cs := by
  cases cs with
  | nil => rfl
  | cons c cs =>
    cases space : isSpace c with
    | false => rw [dropWhile_cons_of_neg (by simp [space])]
    | true =>
      have blank : read operand c cs = ⟨.blank, (cs.takeWhile isSpace).length⟩ := by
        simp [read, space]
      have rest := congrArg (List.drop (cs.takeWhile isSpace).length)
        (takeWhile_append_dropWhile (p := isSpace) (l := cs))
      rw [drop_left] at rest
      rw [dropWhile_cons_of_pos space, wordsOf_cons_of_trivia (by rw [blank]; rfl), blank,
        rest]

theorem wordsOf_append {blank : List Char} (spaces : ∀ c ∈ blank, isSpace c = true)
    (operand : Bool) (cs : List Char) : wordsOf operand (blank ++ cs) = wordsOf operand cs := by
  rw [← wordsOf_dropWhile operand (blank ++ cs), dropWhile_append_of_pos spaces, wordsOf_dropWhile]

end Tarkib.Token
