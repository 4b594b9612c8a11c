import Mathlib.Data.List.Chain
import Tarkib.Proofs.Bundle.Words
import Tarkib.Proofs.Minify.Words

/-!
# Codes whose words stay apart

Shortening puts words directly one behind the other. Names are kept apart by the space that is left
between them, and strings end with their quote. So it matters before which words the operators
stand, and that can be seen from the words alone (`Chained`). Words that start with a character that
goes on with no operator can follow any others (`Loose`).
-/

namespace Tarkib.Minify

open Tarkib.Token Tarkib.Text Tarkib.Bundle List

/-! ## Operators and what follows -/

def isFresh (c : Char) : Bool :=
  !c.isDigit && c != '/' && c != '*' && operators.all fun op => !(op.toList.drop 1).contains c

def isFinal (text : String) : Bool :=
  text != "." && text != "/" && operators.all fun op => !text.toList.isPrefixOf op.toList

def isBasic : Kind → Bool
  | .identifier _ | .string _ | .punct _ => true
  | _ => false

/-- Whether the first word stays what it is in front of the second one: an operator does if nothing
goes on with it, or if the second word starts with a character that goes on with no operator. -/
def staysBefore (first second : Kind × String) : Bool :=
  match first.1 with
  | .punct _ => isFinal first.2 || second.2.toList.head?.any isFresh
  | _ => true

section Operators

variable {symbol : String} {text behind : List Char}

theorem runsInto_punct_nil : (Kind.punct symbol).runsInto text [] = false := by
  have longer : (operators.any fun op =>
      text.length < op.length && op.toList.isPrefixOf (text ++ [])) = false := by
    rw [any_eq_false]
    intro op _ fits
    rw [Bool.and_eq_true, decide_eq_true_iff, append_nil, isPrefixOf_iff_prefix] at fits
    have size := fits.2.length_le
    rw [String.length_toList] at size
    omega
  simp only [Kind.runsInto, longer]
  simp

theorem runsInto_punct_of_isFinal (final : isFinal (String.ofList text) = true) :
    (Kind.punct symbol).runsInto text behind = false := by
  simp only [isFinal, Bool.and_eq_true, bne_iff_ne, ne_eq, all_eq_true, Bool.not_eq_true',
    String.toList_ofList] at final
  obtain ⟨⟨noPoint, noSlash⟩, final⟩ := final
  have point : text ≠ ['.'] := fun same => noPoint (by rw [same])
  have slash : text ≠ ['/'] := fun same => noSlash (by rw [same])
  have longer : (operators.any fun op =>
      text.length < op.length && op.toList.isPrefixOf (text ++ behind)) = false := by
    rw [any_eq_false]
    intro op member fits
    rw [Bool.and_eq_true, decide_eq_true_iff, isPrefixOf_iff_prefix] at fits
    have front : text <+: op.toList := by
      refine prefix_of_prefix_length_le (prefix_append text behind) fits.2 ?_
      rw [String.length_toList]
      omega
    have none := final op member
    rw [ isPrefixOf_iff_prefix.mpr front] at none
    cases none
  simp [Kind.runsInto, longer, point, slash]

theorem runsInto_punct_of_isFresh {c : Char} (written : text ≠ []) (fresh : isFresh c = true) :
    (Kind.punct symbol).runsInto text (c :: behind) = false := by
  simp only [isFresh, Bool.and_eq_true, Bool.not_eq_true', bne_iff_ne, ne_eq, all_eq_true,
    contains_eq_mem, decide_eq_false_iff_not] at fresh
  obtain ⟨⟨⟨noDigit, noSlash⟩, noStar⟩, noOperator⟩ := fresh
  have longer : (operators.any fun op =>
      text.length < op.length && op.toList.isPrefixOf (text ++ c :: behind)) = false := by
    rw [any_eq_false]
    intro op member fits
    rw [Bool.and_eq_true, decide_eq_true_iff, isPrefixOf_iff_prefix] at fits
    refine noOperator op member ?_
    -- The operator has the text in front and then the character.
    have front : text ++ [c] <+: op.toList := by
      refine prefix_of_prefix_length_le ⟨behind, by simp⟩ fits.2 ?_
      rw [String.length_toList, length_append, length_singleton]
      omega
    obtain ⟨rest, spelled⟩ := front
    obtain ⟨d, ds, rfl⟩ := exists_cons_of_ne_nil written
    rw [← spelled]
    simp
  simp [Kind.runsInto, longer, noDigit, noSlash, noStar]

end Operators

/-! ## Names and what follows -/

variable {c : Char} {operand operand' : Bool} {cs : List Char} {source : String} {start stop : Nat}
  {rest : List Piece} {w : Kind × String} {us vs : List (Kind × String)}

theorem isIdentifierPart_of_ascii (ascii : c.toNat < 128) :
    isIdentifierPart c = (c == '$' || c == '_' || c.isAlpha || c.isDigit) := by
  have beyond : 128 ≤ markRuns.headD 0 := by decide
  have none : inRuns markRuns c = false := inRuns_of_lt (ascii.trans_le beyond)
  have joiners : (c == '\u200c') = false ∧ (c == '\u200d') = false := by
    constructor <;> · rw [beq_eq_false_iff_ne]; rintro rfl; exact absurd ascii (by decide)
  rw [isIdentifierPart, isIdentifierStart_of_ascii ascii, none, joiners.1, joiners.2]
  simp

theorem isWordChar_of_isIdentifierPart (part : isIdentifierPart c = true) :
    isWordChar c = true := by
  by_cases ascii : c.toNat < 128
  · rw [isIdentifierPart_of_ascii ascii] at part
    simp only [isWordChar, Char.isAlphanum]
    grind
  · have beyond : 127 < c.toNat := by omega
    simp [isWordChar, beyond]

theorem exists_getLast?_identifier {text : String}
    (name : (read operand c cs).value = .identifier text) :
    ∃ last, (c :: cs.take (read operand c cs).size).getLast? = some last ∧
      isIdentifierPart last = true := by
  have opens : opensName c = true := by
    have starts := startsWith_read operand c cs
    rwa [name] at starts
  obtain ⟨start, noSpace, noDigit⟩ := opensName_iff.mp opens
  have parts : ∀ d ∈ c :: cs.takeWhile isIdentifierPart, isIdentifierPart d = true := by
    refine forall_mem_cons.mpr ⟨by simp [isIdentifierPart, start], ?_⟩
    exact fun d member => mem_takeWhile_imp member
  rw [read_identifier noSpace noDigit start, take_length_takeWhile]
  exact ⟨_, getLast?_eq_some_getLast (cons_ne_nil _ _), parts _ (getLast_mem _)⟩

/-! ## The shortened text -/

theorem head?_textOf_cases (before : Option Token) (apart operand : Bool) (start : Nat)
    (cs : List Char) (pieces : List Piece)
    (shortened : piecesFrom source before apart (scanFrom operand start cs) = .ok pieces) :
    textOf pieces = [] ∨ (textOf pieces).head? = some '\n' ∨ (textOf pieces).head? = some ' ' ∨
      ∃ w ∈ (wordsOf operand cs).head?, ∃ c ∈ w.2.toList.head?,
        (textOf pieces).head? = some c := by
  fun_induction scanFrom operand start cs generalizing before apart pieces with
  | case1 =>
    cases shortened
    exact .inl textOf_nil
  | case2 operand start d cs reading token operand' ih =>
    cases step_of_pieces shortened with
    | feeds trivia count rest further feeds here =>
      obtain ⟨n, rfl⟩ := Nat.exists_eq_succ_of_ne_zero feeds
      rw [here, textOf_cons]
      exact .inr (.inl (by simp [Piece.text, replicate_succ]))
    | skipped trivia further =>
      have same : operand' = operand := by simp [operand', trivia]
      have later := ih _ _ _ further
      rw [same] at later
      rwa [wordsOf_cons_of_trivia trivia]
    | kept readable rest further here =>
      have word : reading.value.isSignificant = true :=
        Kind.isSignificant_of_isReadable readable
      split at here
      · rw [here, textOf_cons]
        exact .inr (.inr (.inl (by simp [Piece.text])))
      · rw [here, textOf_cons, wordsOf_cons_of_significant word]
        refine .inr (.inr (.inr ⟨_, rfl, d, by simp, ?_⟩))
        simp [Piece.text, token]

theorem runsInto_name {text : String} (name : (read operand c cs).value = .identifier text)
    (further : piecesFrom source
      (some ⟨(read operand c cs).value, String.ofList (c :: cs.take (read operand c cs).size),
        start⟩) false (scanFrom operand' stop (cs.drop (read operand c cs).size)) = .ok rest) :
    (Kind.identifier text).runsInto (c :: cs.take (read operand c cs).size) (textOf rest) =
      false := by
  have letter : isIdentifierPart '\n' = false ∧ isIdentifierPart ' ' = false :=
    ⟨(stops_spec (by decide)).1, (stops_spec (by decide)).1⟩
  cases first : (textOf rest).head? with
  | none => rw [Kind.runsInto, first]; rfl
  | some d =>
    rw [Kind.runsInto, first, Option.any_some]
    rcases head?_textOf further first with rfl | rfl | ⟨_, next⟩ | ⟨b, head, close⟩
    · exact letter.1
    · exact letter.2
    · have readable : (read operand c cs).value.isReadable = true := by rw [name]; rfl
      have apart := runsInto_drop_read readable
      rwa [name, Kind.runsInto, next] at apart
    · -- Two letters would have been set apart by a space.
      rw [← Bool.not_eq_true]
      intro part
      obtain ⟨last, found, letter⟩ := exists_getLast?_identifier name
      rw [needsSpace, String.toList_ofList, found, head] at close
      simp [isWordChar_of_isIdentifierPart letter, isWordChar_of_isIdentifierPart part] at close

theorem runsInto_symbol {before : Option Token} {symbol : String} {text : List Char}
    (written : text ≠ []) (stays : ∀ w ∈ (wordsOf operand cs).head?,
      staysBefore (.punct symbol, String.ofList text) w = true)
    (further : piecesFrom source before false (scanFrom operand start cs) = .ok rest) :
    (Kind.punct symbol).runsInto text (textOf rest) = false := by
  have blank (stop : Char) (stops : stop ∈ stops) (first : (textOf rest).head? = some stop) :
      (Kind.punct symbol).runsInto text (textOf rest) = false := by
    obtain ⟨more, spelled⟩ := head?_eq_some_iff.mp first
    rw [spelled, ← nil_append (stop :: more), Kind.runsInto_append_stop stops, runsInto_punct_nil]
  rcases head?_textOf_cases _ _ _ _ _ _ further with none | feed | space | ⟨w, first, c, head, same⟩
  · rw [none, runsInto_punct_nil]
  · exact blank '\n' (by decide) feed
  · exact blank ' ' (by decide) space
  · have here := stays w first
    rw [staysBefore, Bool.or_eq_true] at here
    rcases here with final | fresh
    · exact runsInto_punct_of_isFinal final
    · obtain ⟨more, spelled⟩ := head?_eq_some_iff.mp same
      rw [show w.2.toList.head? = some c from head, Option.any_some] at fresh
      rw [spelled]
      exact runsInto_punct_of_isFresh written fresh

/-- A word that stays before the next one does not run into it. -/
theorem runsInto_word (basic : isBasic (read operand c cs).value = true)
    (stays : ∀ w ∈ (wordsOf operand' (cs.drop (read operand c cs).size)).head?,
      staysBefore ((read operand c cs).value,
        String.ofList (c :: cs.take (read operand c cs).size)) w = true)
    (further : piecesFrom source
      (some ⟨(read operand c cs).value, String.ofList (c :: cs.take (read operand c cs).size),
        start⟩) false (scanFrom operand' stop (cs.drop (read operand c cs).size)) = .ok rest) :
    (read operand c cs).value.runsInto (c :: cs.take (read operand c cs).size) (textOf rest) =
      false := by
  cases kind : (read operand c cs).value with
  | identifier name => exact runsInto_name kind further
  | string value => rfl
  | punct symbol => exact runsInto_symbol (cons_ne_nil _ _) (kind ▸ stays) further
  | _ =>
    rw [kind] at basic
    cases basic

/-- In a chain no word runs into the text behind it. -/
theorem runsTogether_of_isChain (before : Option Token) (apart operand : Bool) (start : Nat)
    (cs : List Char) (pieces : List Piece)
    (shortened : piecesFrom source before apart (scanFrom operand start cs) = .ok pieces)
    (basic : ∀ w ∈ wordsOf operand cs, isBasic w.1 = true)
    (chain : (wordsOf operand cs).IsChain fun v w => staysBefore v w = true) :
    runsTogether pieces = false := by
  fun_induction scanFrom operand start cs generalizing before apart pieces with
  | case1 =>
    cases shortened
    rfl
  | case2 operand start d cs reading token operand' ih =>
    cases step_of_pieces shortened with
    | feeds trivia count rest further feeds here =>
      have same : operand' = operand := by simp [operand', trivia]
      rw [wordsOf_cons_of_trivia trivia] at basic chain
      have later := ih _ _ _ further (same ▸ basic) (same ▸ chain)
      subst here
      exact later
    | skipped trivia further =>
      have same : operand' = operand := by simp [operand', trivia]
      rw [wordsOf_cons_of_trivia trivia] at basic chain
      exact ih _ _ _ further (same ▸ basic) (same ▸ chain)
    | kept readable rest further here =>
      have word : reading.value.isSignificant = true :=
        Kind.isSignificant_of_isReadable readable
      have same : reading.value.precedesExpression = operand' := by
        simp [operand', token, isSignificant, word]
      rw [wordsOf_cons_of_significant word, same] at basic chain
      obtain ⟨basicHere, basicLater⟩ := forall_mem_cons.mp basic
      obtain ⟨stays, chainLater⟩ := isChain_cons.mp chain
      have apart : token.kind.runsInto token.text.toList (textOf rest) = false := by
        have text : token.text.toList = d :: cs.take reading.size := by simp [token]
        rw [text]
        exact runsInto_word basicHere stays further
      have later := ih _ _ _ further basicLater chainLater
      have kept : runsTogether (.token token :: rest) = false := by
        rw [runsTogether, apart, later]
        rfl
      split at here <;> subst here <;> exact kept

/-! ## Words that stay apart -/

/-- Names, strings and operators, each of which stays what it is before the next one. -/
structure Chained (ws : List (Kind × String)) : Prop where
  basic : ∀ w ∈ ws, isBasic w.1 = true
  stays : ws.IsChain fun v w => staysBefore v w = true

/-- Such words, the first of which goes on with no operator. They can follow any others. -/
structure Loose (ws : List (Kind × String)) : Prop extends Chained ws where
  fresh : ∀ w ∈ ws.head?, w.2.toList.head?.any isFresh = true

instance (ws : List (Kind × String)) : Decidable (Chained ws) :=
  decidable_of_iff (_ ∧ _) ⟨fun both => ⟨both.1, both.2⟩, fun chained => ⟨chained.1, chained.2⟩⟩

instance (ws : List (Kind × String)) : Decidable (Loose ws) :=
  decidable_of_iff (Chained ws ∧ _) ⟨fun both => ⟨both.1, both.2⟩, fun loose => ⟨loose.1, loose.2⟩⟩

theorem staysBefore_of_fresh (fresh : w.2.toList.head?.any isFresh = true) (v : Kind × String) :
    staysBefore v w = true := by
  rw [staysBefore]
  split
  · rw [fresh, Bool.or_true]
  · rfl

theorem Chained.append (first : Chained us) (second : Loose vs) :
    Chained (us ++ vs) where
  basic := forall_mem_append.mpr ⟨first.basic, second.basic⟩
  stays := isChain_append.mpr ⟨first.stays, second.stays,
    fun v _ w head => staysBefore_of_fresh (second.fresh w head) v⟩

theorem loose_nil : Loose [] where
  basic := by simp
  stays := .nil
  fresh := by simp

theorem Loose.append (first : Loose us) (second : Loose vs) :
    Loose (us ++ vs) where
  toChained := first.toChained.append second
  fresh := by
    cases us with
    | nil => exact second.fresh
    | cons u us => exact first.fresh

theorem isFresh_of_opensName (opens : opensName c = true) : isFresh c = true := by
  obtain ⟨start, _, noDigit⟩ := opensName_iff.mp opens
  have operator : operators.all (fun op => !(op.toList.drop 1).contains c) = true := by
    rw [all_eq_true]
    intro op member
    rw [Bool.not_eq_true', contains_eq_mem, decide_eq_false_iff_not]
    intro inside
    have other := uniform_opensName.operator op member c ((drop_sublist 1 _).subset inside)
    rw [opens] at other
    cases other
  have slash : c ≠ '/' := ne_of_isIdentifierStart start (by decide) (by decide)
  have star : c ≠ '*' := ne_of_isIdentifierStart start (by decide) (by decide)
  rw [isFresh, operator, noDigit, bne_iff_ne.mpr slash, bne_iff_ne.mpr star]
  rfl

theorem Chained.cons {ws : List (Kind × String)} (rest : Chained ws) (basic : isBasic w.1 = true)
    (plain : ∀ symbol, w.1 ≠ .punct symbol) (fresh : w.2.toList.head?.any isFresh = true) :
    Loose (w :: ws) where
  basic := forall_mem_cons.mpr ⟨basic, rest.basic⟩
  stays := by
    refine isChain_cons.mpr ⟨fun v _ => ?_, rest.stays⟩
    rw [staysBefore]
    split
    · next symbol same => exact absurd same (plain symbol)
    · rfl
  fresh := by simpa using fresh

/-- A code of such words is shortened to a code of the same words. -/
theorem exists_minify_of_chained (chained : Chained (words (scan source))) :
    ∃ out, minify source = .ok out ∧ words (scan out) = words (scan source) := by
  obtain ⟨basic, chain⟩ := chained
  have readable : ∀ w ∈ words (scan source), w.1.isReadable = true := by
    intro w member
    have here := basic w member
    cases kind : w.1 <;> first | rfl | (rw [kind] at here; cases here)
  obtain ⟨out, shortened⟩ := exists_minify (forall_isFault_iff.mpr readable)
  refine ⟨out, shortened, ?_⟩
  cases made : piecesFrom source none false (scan source) with
  | error problem =>
    rw [minify, made] at shortened
    cases shortened
  | ok pieces =>
    rw [minify, made] at shortened
    have text : out.toList = textOf pieces := by
      cases shortened
      rfl
    rw [words_scan] at basic chain
    rw [words_scan, words_scan, text, wordsOf_textOf_iff made]
    exact runsTogether_of_isChain _ _ _ _ _ _ made basic chain

end Tarkib.Minify
