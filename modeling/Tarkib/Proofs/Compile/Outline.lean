import Tarkib.Proofs.Compile.Brackets
import Tarkib.Proofs.Token.Lines

/-!
# The outline of a text

In a text without slashes and templates brackets can be found without reading words: outside strings
every bracket character is a bracket, since no other word has one inside. What is found in this way
is the outline of the text.
-/

namespace Tarkib.Compile

open Tarkib.Token Tarkib.Text List

variable {c : Char} {taken : List Char}

def isBracketChar (c : Char) : Bool :=
  ['(', ')', '[', ']', '\x7b', '\x7d'].contains c

def opensString (c : Char) : Bool :=
  c == '\x22' || c == '\x27'

def opensOther (c : Char) : Bool :=
  c == '/' || c == '\x60'

/-- The brackets of a text. Strings are passed over; there is no outline if one of them is not
closed or if the text has slashes or templates. -/
def outline (cs : List Char) : Option (List Kind) :=
  match cs with
  | [] => some []
  | c :: cs =>
    if opensString c then
      if (readString c cs).value.isSome then outline (cs.drop (readString c cs).size) else none
    else if opensOther c then none
    else if isBracketChar c then (outline cs).map (.punct (String.singleton c) :: ·)
    else outline cs
termination_by cs.length
decreasing_by all_goals simp only [length_cons, length_drop]; omega

/-! ## Characters inside words -/

def outlineChars : List Char :=
  ['\x22', '\x27', '/', '\x60', '(', ')', '[', ']', '\x7b', '\x7d']

def isDull (c : Char) : Bool :=
  !outlineChars.contains c

theorem isDull_iff : isDull c = true ↔
    opensString c = false ∧ opensOther c = false ∧ isBracketChar c = false := by
  simp [isDull, outlineChars, opensString, opensOther, isBracketChar, and_assoc]

theorem isDull_of_class {p : Char → Bool} (none : outlineChars.all (!p ·) = true)
    (member : p c = true) : isDull c = true := by
  rw [isDull, Bool.not_eq_true', ← Bool.not_eq_true, contains_iff_mem]
  intro inside
  have outside := all_eq_true.mp none c inside
  rw [member] at outside
  cases outside

theorem isDull_of_isSpace (space : isSpace c = true) : isDull c = true :=
  isDull_of_class (by decide) space

theorem isDull_of_isIdentifierPart (part : isIdentifierPart c = true) : isDull c = true :=
  isDull_of_class (by decide +kernel) part

theorem isDull_of_mem_take_numberSize (hex : Bool) (cs : List Char) :
    ∀ c ∈ cs.take (numberSize hex cs), isDull c = true := by
  have part {c : Char} (part : isNumberPart c = true) : isDull c = true :=
    isDull_of_class (by decide) part
  have signs : isDull '+' = true ∧ isDull '-' = true := by decide
  fun_induction numberSize hex cs with
  | case1 => simp
  | case2 c ds here mark ih => simp_all
  | case3 c ds here mark ih => simp_all
  | case4 c cs here mark noPlus noMinus ih => simp_all
  | case5 c cs here noMark ih => simp_all
  | case6 => simp

theorem isDull_of_mem_operators (noSlash : c ≠ '/')
    (member : String.ofList (c :: taken) ∈ operators) : ∀ d ∈ c :: taken, isDull d = true := by
  have checked : operators.all
      (fun op => op.toList.head? == some '/' || op.toList.all isDull) = true := by
    decide
  have here := all_eq_true.mp checked _ member
  rw [String.toList_ofList, head?_cons, Bool.or_eq_true, beq_iff_eq, Option.some.injEq] at here
  exact all_eq_true.mp (here.resolve_left noSlash)

theorem outline_append_of_isDull {front : List Char} (dull : ∀ c ∈ front, isDull c = true)
    (cs : List Char) : outline (front ++ cs) = outline cs := by
  induction front with
  | nil => rfl
  | cons c front ih =>
    obtain ⟨here, later⟩ := forall_mem_cons.mp dull
    obtain ⟨noString, noOther, noBracket⟩ := isDull_iff.mp here
    rw [cons_append, outline]
    simp only [noString, noOther, noBracket, Bool.false_eq_true, if_false]
    exact ih later

/-! ## One token -/

/-- What the outline has to know of a token: it has an end, no character behind the first one has a
meaning, and it is a bracket exactly if the first one is a bracket. -/
structure Outlined (c : Char) (taken : List Char) (kind : Kind) : Prop where
  ends : kind.isFault = false
  dull : ∀ d ∈ taken, isDull d = true
  bracket : isBracketChar c = true → kind = .punct (String.singleton c)
  plain : isBracketChar c = false → isPlain kind = true

theorem outlined_of_notPunct {kind : Kind} (noBracket : isBracketChar c = false)
    (ends : kind.isFault = false) (plain : isPlain kind = true)
    (dull : ∀ d ∈ taken, isDull d = true) : Outlined c taken kind := by
  refine ⟨ends, dull, fun bracket => ?_, fun _ => plain⟩
  rw [noBracket] at bracket
  cases bracket

theorem isPlain_punct (noBracket : isBracketChar c = false) (taken : List Char) :
    isPlain (.punct (String.ofList (c :: taken))) = true := by
  have other (s : String) (bracket : (s.toList.head?.any isBracketChar) = true) :
      Kind.punct (String.ofList (c :: taken)) ≠ .punct s := by
    intro same
    rw [← Kind.punct.inj same, String.toList_ofList, head?_cons, Option.any_some,
      noBracket] at bracket
    cases bracket
  have brackets (b : Bracket) : b.opening.toList.head?.any isBracketChar = true ∧
      b.closing.toList.head?.any isBracketChar = true := by
    cases b <;> decide
  rw [isPlain_iff]
  constructor
  · cases opens : Bracket.openedBy? (.punct (String.ofList (c :: taken))) with
    | none => rfl
    | some b => exact absurd (Bracket.eq_of_openedBy? opens) (other _ (brackets b).1)
  · cases closes : Bracket.closedBy? (.punct (String.ofList (c :: taken))) with
    | none => rfl
    | some b => exact absurd (Bracket.eq_of_closedBy? closes) (other _ (brackets b).2)

/-- A word takes away what its outline says. -/
theorem outlined_read (noString : opensString c = false) (noOther : opensOther c = false)
    (operand : Bool) (cs : List Char) :
    Outlined c (cs.take (read operand c cs).size) (read operand c cs).value := by
  have noSlash : c ≠ '/' := by
    rintro rfl
    cases noOther
  cases opening operand c cs with
  | blank space =>
    have blank : read operand c cs = ⟨.blank, (cs.takeWhile isSpace).length⟩ := by
      simp [Token.read, space]
    rw [blank, take_length_takeWhile]
    exact outlined_of_notPunct (isDull_iff.mp (isDull_of_isSpace space)).2.2 rfl rfl
      fun d member => isDull_of_isSpace (mem_takeWhile_imp member)
  | comment slash opens | regex slash operand apart => exact absurd slash noSlash
  | string quote =>
    rw [opensString] at noString
    rw [noString] at quote
    cases quote
  | template mark =>
    subst mark
    cases noOther
  | number noSpace digit =>
    have start : (c.isDigit || c == '.') = true := by
      rw [Bool.or_eq_true, Bool.and_eq_true] at digit
      rw [Bool.or_eq_true]
      exact digit.imp_right And.left
    have dull : isDull c = true :=
      isDull_of_class (p := fun c => c.isDigit || c == '.') (by decide) start
    rw [read_number noSpace digit]
    exact outlined_of_notPunct (isDull_iff.mp dull).2.2 rfl rfl
      (isDull_of_mem_take_numberSize _ cs)
  | identifier noSpace noDigit start =>
    have part : isIdentifierPart c = true := by simp [isIdentifierPart, start]
    rw [read_identifier noSpace noDigit start, take_length_takeWhile]
    exact outlined_of_notPunct (isDull_iff.mp (isDull_of_isIdentifierPart part)).2.2 rfl
      (by simp [isPlain, Bracket.openedBy?, Bracket.closedBy?])
      fun d member => isDull_of_isIdentifierPart (mem_takeWhile_imp member)
  | punct opens punct slash point =>
    have spec := readPunct_spec c cs
    rw [read_punct opens punct slash point, spec.value]
    rcases spec.operator with none | member
    · rw [none, take_zero]
      refine ⟨rfl, by simp, fun _ => ?_, fun noBracket => isPlain_punct noBracket []⟩
      rw [String.singleton_eq_ofList]
    · have dull := isDull_of_mem_operators noSlash member
      obtain ⟨here, later⟩ := forall_mem_cons.mp dull
      exact outlined_of_notPunct (isDull_iff.mp here).2.2 rfl
        (isPlain_punct (isDull_iff.mp here).2.2 _) later
  | stray opens noPunct =>
    have dull : isDull c = true :=
      isDull_of_class (p := fun c => !isAsciiPunctuation c) (by decide) (by simp [noPunct])
    rw [read_stray opens noPunct]
    exact outlined_of_notPunct (isDull_iff.mp dull).2.2 rfl rfl (by simp)

/-! ## All words -/

def bracketsOf (ws : List (Kind × String)) : List Kind :=
  (ws.map Prod.fst).filter (!isPlain ·)

theorem bracketsOf_cons (w : Kind × String) (ws : List (Kind × String)) :
    bracketsOf (w :: ws) = if isPlain w.1 then bracketsOf ws else w.1 :: bracketsOf ws := by
  cases plain : isPlain w.1 <;> simp [bracketsOf, plain]

theorem openAfter_bracketsOf (stack : List Bracket) (ws : List (Kind × String)) :
    openAfter stack (bracketsOf ws) = openAfter stack (ws.map Prod.fst) := by
  induction ws generalizing stack with
  | nil => rfl
  | cons w ws ih =>
    cases plain : isPlain w.1 with
    | true =>
      rw [bracketsOf_cons, plain, if_pos rfl, ih, map_cons, openAfter_plain _ _ plain]
    | false =>
      rw [bracketsOf_cons, plain, if_neg Bool.false_ne_true, map_cons]
      simp only [openAfter, ih]

theorem isPlain_singleton (bracket : isBracketChar c = true) :
    isPlain (.punct (String.singleton c)) = false := by
  have all : ['(', ')', '[', ']', '\x7b', '\x7d'].all
      (fun c => !isPlain (.punct (String.singleton c))) = true := by
    decide
  exact Bool.not_eq_true' _ ▸ all_eq_true.mp all c (contains_iff_mem.mp bracket)

/-- If a text has an outline, all its words can be read, and the brackets among them are those of
the outline. -/
theorem wordsOf_of_outline {cs : List Char} {brackets : List Kind}
    (found : outline cs = some brackets) (operand : Bool) :
    (∀ w ∈ wordsOf operand cs, w.1.isReadable = true) ∧
      bracketsOf (wordsOf operand cs) = brackets := by
  induction size : cs.length using Nat.strong_induction_on generalizing operand cs brackets with
  | _ n ih =>
  subst size
  cases cs with
  | nil =>
    rw [outline] at found
    cases found
    simp [bracketsOf]
  | cons c cs =>
    have shorter (m : Nat) : (cs.drop m).length < (c :: cs).length := by
      rw [length_drop, length_cons]
      omega
    rw [outline] at found
    cases quote : opensString c with
    | true =>
      rw [quote, if_pos rfl] at found
      split at found
      · next closed =>
          obtain ⟨value, text⟩ := Option.isSome_iff_exists.mp closed
          have string : read operand c cs =
              ⟨.string (String.ofList value), (readString c cs).size⟩ := by
            rw [read_string quote, Reading.map, text]
            rfl
          have word : (read operand c cs).value.isSignificant = true := by
            rw [string]
            rfl
          obtain ⟨readable, brackets⟩ := ih _ (shorter _) found
            (read operand c cs).value.precedesExpression rfl
          rw [wordsOf_cons_of_significant word, string]
          rw [string] at readable brackets
          exact ⟨forall_mem_cons.mpr ⟨rfl, readable⟩, brackets⟩
      · cases found
    | false =>
      rw [quote, if_neg Bool.false_ne_true] at found
      cases other : opensOther c with
      | true =>
        rw [other, if_pos rfl] at found
        cases found
      | false =>
        have token := outlined_read quote other operand cs
        have skipped := outline_append_of_isDull token.dull (cs.drop (read operand c cs).size)
        rw [take_append_drop] at skipped
        rw [other, if_neg Bool.false_ne_true, skipped] at found
        cases bracket : isBracketChar c with
        | true =>
          rw [bracket, if_pos rfl] at found
          obtain ⟨later, rest, rfl⟩ := Option.map_eq_some_iff.mp found
          have kind := token.bracket bracket
          have word : (read operand c cs).value.isSignificant = true := by rw [kind]; rfl
          obtain ⟨readable, brackets⟩ := ih _ (shorter _) rest _ rfl
          rw [wordsOf_cons_of_significant word, bracketsOf_cons, brackets, kind,
            isPlain_singleton bracket]
          exact ⟨forall_mem_cons.mpr ⟨rfl, kind ▸ readable⟩, rfl⟩
        | false =>
          rw [bracket, if_neg Bool.false_ne_true] at found
          have plain := token.plain bracket
          cases word : (read operand c cs).value.isSignificant with
          | true =>
            obtain ⟨readable, brackets⟩ := ih _ (shorter _) found _ rfl
            have here := Kind.isReadable_of_isSignificant word token.ends
            rw [wordsOf_cons_of_significant word, bracketsOf_cons, brackets, plain]
            exact ⟨forall_mem_cons.mpr ⟨here, readable⟩, rfl⟩
          | false =>
            rw [wordsOf_cons_of_trivia word]
            exact ih _ (shorter _) found operand rfl

end Tarkib.Compile
