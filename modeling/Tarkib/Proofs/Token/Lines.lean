import Tarkib.Proofs.Token.Locality

/-!
# Texts that are kept apart

Blanks and marks such as parentheses, braces, commas and colons go on with no token (`stops`). A
comment up to the end of its line needs a line feed. The only thing that goes over from one text to
the next one is whether an expression may follow.
-/

namespace Tarkib.Token

open Tarkib.Text List

variable {stop : Char} {p : Char → Bool}

/-! ## What ends a token -/

/-- Characters that go on with no token. -/
def stops : List Char :=
  ['\n', ' ', '(', ')', '\x7b', '\x7d', ',', ';', ':']

theorem stops_spec (stops : stop ∈ stops) :
    isIdentifierPart stop = false ∧ stop.isDigit = false ∧
      (∀ marked, goesOnWith marked stop = false) ∧ (stop == '/' || stop == '*') = false ∧
      ∀ op ∈ operators, stop ∉ op.toList := by
  have checked : Token.stops.all (fun c => !isIdentifierPart c && !c.isDigit &&
      !goesOnWith true c && !goesOnWith false c && !(c == '/' || c == '*') &&
      operators.all (!·.toList.contains c)) = true := by
    decide +kernel
  have here := all_eq_true.mp checked stop stops
  simp only [Bool.and_eq_true, Bool.not_eq_true', all_eq_true, contains_eq_mem,
    decide_eq_false_iff_not] at here
  obtain ⟨⟨⟨⟨⟨part, digit⟩, marked⟩, unmarked⟩, comment⟩, operator⟩ := here
  exact ⟨part, digit, fun b => by cases b <;> assumption, comment, operator⟩

theorem isPrefixOf_append_stop {text : List Char} (free : stop ∉ text) (cs rest : List Char) :
    text.isPrefixOf (cs ++ stop :: rest) = text.isPrefixOf cs := by
  induction cs generalizing text with
  | nil =>
    cases text with
    | nil => rfl
    | cons d text =>
      have other : (d == stop) = false :=
        beq_eq_false_iff_ne.mpr fun same => free (same ▸ mem_cons_self)
      simp [List.isPrefixOf, other]
  | cons c cs ih =>
    cases text with
    | nil => rfl
    | cons d text =>
      have later := ih fun member => free (mem_cons_of_mem _ member)
      simp only [cons_append, List.isPrefixOf, later]

theorem any_head?_append_stop (other : p stop = false) (cs rest : List Char) :
    (cs ++ stop :: rest).head?.any p = cs.head?.any p := by
  cases cs with
  | nil => exact other
  | cons c cs => rfl

theorem Kind.runsInto_append_stop (stops : stop ∈ stops) (kind : Kind) (text cs rest : List Char) :
    kind.runsInto text (cs ++ stop :: rest) = kind.runsInto text cs := by
  obtain ⟨noPart, noDigit, noNumber, noComment, noOperator⟩ := stops_spec stops
  have letters := any_head?_append_stop noPart cs rest
  have digits := any_head?_append_stop noDigit cs rest
  have comments := any_head?_append_stop (p := fun c => c == '/' || c == '*') noComment cs rest
  have numbers (marked : Bool) := any_head?_append_stop (noNumber marked) cs rest
  have longer (op : String) (member : op ∈ operators) :
      op.toList.isPrefixOf (text ++ (cs ++ stop :: rest)) = op.toList.isPrefixOf (text ++ cs) := by
    rw [← append_assoc, isPrefixOf_append_stop (noOperator op member)]
  cases kind with
  | identifier | regex => exact letters
  | number => exact numbers _
  | punct =>
    have operator : (operators.any fun op =>
          text.length < op.length && op.toList.isPrefixOf (text ++ (cs ++ stop :: rest))) =
        operators.any fun op =>
          text.length < op.length && op.toList.isPrefixOf (text ++ cs) := by
      rw [Bool.eq_iff_iff, any_eq_true, any_eq_true]
      refine exists_congr fun op => and_congr_right fun member => ?_
      rw [longer op member]
    simp only [Kind.runsInto, operator, digits, comments]
  | _ => rfl

/-! ## One token -/

section Read

variable {operand : Bool} {c : Char} {cs : List Char}

theorem runsInto_drop_read (readable : (read operand c cs).value.isReadable = true) :
    (read operand c cs).value.runsInto (c :: cs.take (read operand c cs).size)
      (cs.drop (read operand c cs).size) = false := by
  rw [← Bool.not_eq_true]
  intro runs
  have more := size_read_take_of_runsInto readable runs
  rw [take_append_drop] at more
  exact Nat.lt_irrefl _ more

/-- Whether the kind is that of a literal or comment without an end. -/
def Kind.isFault : Kind → Bool
  | .fault _ => true
  | _ => false

theorem Kind.isReadable_of_isSignificant {kind : Kind} (word : kind.isSignificant = true)
    (ends : kind.isFault = false) : kind.isReadable = true := by
  cases kind with
  | blank | lineComment | blockComment => cases word
  | fault => cases ends
  | _ => rfl

/-- Before such a character a token is read as at the end of the text. -/
theorem read_append_stop (stops : stop ∈ stops) (noSpace : isSpace c = false)
    (ends : (read operand c cs).value.isFault = false) (line : isLineBody stop = false ∨ c ≠ '/')
    (rest : List Char) : read operand c (cs ++ stop :: rest) = read operand c cs := by
  by_cases comment : c = '/' ∧ (cs.head?.any fun c => c == '/' || c == '*') = true
  · obtain ⟨rfl, opens⟩ := comment
    obtain ⟨ds, rfl | rfl⟩ := exists_second opens
    · have feed : isLineBody stop = false := by simpa using line
      rw [cons_append, read_lineComment, read_lineComment, ← cons_append, List.takeWhile_append]
      split
      · rw [takeWhile_cons_of_neg (by simp [feed]), append_nil]
        simp_all
      · rfl
    · have closed : (readComment false ds).value = true := by
        rw [read_blockComment] at ends
        cases value : (readComment false ds).value with
        | true => rfl
        | false => simp [value, Kind.isFault] at ends
      have again := readComment_take (.inl closed)
        (ds.drop (readComment false ds).size ++ stop :: rest)
      rw [← append_assoc, take_append_drop] at again
      rw [cons_append, read_blockComment, read_blockComment, again]
  · have word : (read operand c cs).value.isSignificant = true := by
      refine isSignificant_read noSpace fun slash => ?_
      rw [← Bool.not_eq_true]
      exact fun opens => comment ⟨slash, opens⟩
    have readable := Kind.isReadable_of_isSignificant word ends
    have apart := runsInto_drop_read readable
    rw [← Kind.runsInto_append_stop stops _ _ _ rest] at apart
    have again := read_take_of_apart readable apart
    rwa [← append_assoc, take_append_drop] at again

def isAlone (p : Char → Bool) (c : Char) : Bool :=
  decide (c.toNat < 128) && !(c == '$' || c == '_' || c.isAlpha) && !isSpace c &&
    !(c == '\x22' || c == '\x27') && c != '\x60' && !c.isDigit && isAsciiPunctuation c &&
    c != '/' && operators.all fun op => op.toList.head? != some c || !(op.toList.drop 1).head?.any p

theorem read_alone (alone : isAlone p c = true) (next : cs.head?.all p = true)
    (point : c = '.' → cs.head?.any Char.isDigit = false) :
    read operand c cs = ⟨.punct (String.singleton c), 0⟩ := by
  simp only [isAlone, Bool.and_eq_true, decide_eq_true_eq, Bool.not_eq_true', bne_iff_ne, ne_eq,
    all_eq_true, Bool.or_eq_true] at alone
  obtain ⟨⟨⟨⟨⟨⟨⟨⟨ascii, noLetter⟩, noSpace⟩, noString⟩, noTemplate⟩, noDigit⟩, punct⟩, noSlash⟩,
    shorter⟩ := alone
  have opens : OpensNoLiteral c := by
    refine ⟨noSpace, noString, beq_eq_false_iff_ne.mpr noTemplate, noDigit, ?_⟩
    rw [isIdentifierStart_of_ascii ascii, noLetter]
  have spec := readPunct_spec c cs
  have size : (readPunct c cs).size = 0 := by
    refine spec.operator.elim id fun member => ?_
    have other := shorter _ member
    cases length : (readPunct c cs).size with
    | zero => rfl
    | succ n =>
      have inside := spec.size_le
      cases cs with
      | nil => rw [length] at inside; cases inside
      | cons d ds =>
        have fits : p d = true := next
        rw [length] at other
        simp [fits] at other
  have value : (readPunct c cs).value = .punct (String.singleton c) := by
    rw [spec.value, size, take_zero, String.singleton_eq_ofList]
  rw [read_punct opens punct (absurd · noSlash) point, ← value, ← size]

end Read

/-! ## All words -/

/-- Whether an expression may stand behind the words, if `operand` says whether one may stand in
front of them. -/
def operandAfter (operand : Bool) (ws : List (Kind × String)) : Bool :=
  ws.foldl (fun _ w => w.1.precedesExpression) operand

theorem wordsOf_cons_of_isSpace {c : Char} (space : isSpace c = true) (operand : Bool)
    (cs : List Char) : wordsOf operand (c :: cs) = wordsOf operand cs := by
  have blank : ∀ d ∈ [c], isSpace d = true := by simpa using space
  exact wordsOf_append blank operand cs

@[simp]
theorem wordsOf_nil (operand : Bool) : wordsOf operand [] = [] := by
  simp [wordsOf, scanFrom, words, significant]

theorem isFault_read_of_words {operand : Bool} {c : Char} {cs : List Char}
    (readable : ∀ w ∈ wordsOf operand (c :: cs), w.1.isReadable = true) :
    (read operand c cs).value.isFault = false := by
  cases kind : (read operand c cs).value with
  | fault f =>
    have word : (read operand c cs).value.isSignificant = true := by rw [kind]; rfl
    rw [wordsOf_cons_of_significant word, forall_mem_cons, kind] at readable
    cases readable.1
  | _ => rfl

/-- The words of a text and of one that starts with such a character are those of both. -/
theorem wordsOf_append_stop (stops : stop ∈ stops) (operand : Bool) (cs rest : List Char)
    (readable : ∀ w ∈ wordsOf operand cs, w.1.isReadable = true)
    (line : isLineBody stop = false ∨ '/' ∉ cs) :
    wordsOf operand (cs ++ stop :: rest) =
      wordsOf operand cs ++ wordsOf (operandAfter operand (wordsOf operand cs)) (stop :: rest) := by
  -- The induction is on the length: a token takes several characters at once.
  induction size : cs.length using Nat.strong_induction_on generalizing operand cs with
  | _ n ih =>
  subst size
  cases cs with
  | nil => rw [nil_append, wordsOf_nil]; rfl
  | cons c cs =>
    have first : isLineBody stop = false ∨ c ≠ '/' :=
      line.imp_right fun free same => free (same ▸ mem_cons_self)
    have later (n : Nat) : isLineBody stop = false ∨ '/' ∉ cs.drop n :=
      line.imp_right fun free member =>
        free (mem_cons_of_mem _ ((drop_sublist n cs).subset member))
    cases space : isSpace c with
    | true =>
      rw [wordsOf_cons_of_isSpace space] at readable
      rw [cons_append, wordsOf_cons_of_isSpace space, wordsOf_cons_of_isSpace space]
      exact ih cs.length (by simp) operand cs readable (later 0) rfl
    | false =>
      have size := size_read_le operand c cs
      have shorter : (cs.drop (read operand c cs).size).length < (c :: cs).length := by
        rw [length_drop, length_cons]
        omega
      have same := read_append_stop stops space (isFault_read_of_words readable) first rest
      cases word : (read operand c cs).value.isSignificant with
      | true =>
        rw [wordsOf_cons_of_significant word, forall_mem_cons] at readable
        rw [cons_append, wordsOf_cons_of_significant (by rwa [same]), same,
          wordsOf_cons_of_significant word, take_append_of_le_length size,
          drop_append_of_le_length size, ih _ shorter _ _ readable.2 (later _) rfl]
        rfl
      | false =>
        rw [wordsOf_cons_of_trivia word] at readable
        rw [cons_append, wordsOf_cons_of_trivia (by rwa [same]), same,
          wordsOf_cons_of_trivia word, drop_append_of_le_length size,
          ih _ shorter _ _ readable (later _) rfl]

/-- A line feed keeps texts apart whatever they are. -/
theorem wordsOf_append_feed (operand : Bool) (cs rest : List Char)
    (readable : ∀ w ∈ wordsOf operand cs, w.1.isReadable = true) :
    wordsOf operand (cs ++ '\n' :: rest) =
      wordsOf operand cs ++ wordsOf (operandAfter operand (wordsOf operand cs)) rest := by
  rw [wordsOf_append_stop (by decide) operand cs rest readable (.inl (by decide)),
    wordsOf_cons_of_isSpace (by decide)]

end Tarkib.Token
