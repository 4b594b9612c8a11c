import Tarkib.Minify
import Tarkib.Proofs.Fallible
import Tarkib.Proofs.Token.Read

/-!
# What shortening does to the words

Shortening a code takes out what stands between its words, and it leaves a space where it finds that
two words would run into one another. The finding is not always right. A number that ends in a
point, in an exponent mark or in a sign, a regular expression without flags, and an operator or a
point before what makes it another one are all put directly before the next word.
-/

namespace Tarkib.Minify

open Tarkib.Token Tarkib.Text List

/-! ## Pieces and their text -/

/-- The text that pieces make up. -/
def textOf (pieces : List Piece) : List Char :=
  (String.join (pieces.map Piece.text)).toList

theorem textOf_nil : textOf [] = [] := by
  simp [textOf]

theorem textOf_cons (p : Piece) (pieces : List Piece) :
    textOf (p :: pieces) = p.text.toList ++ textOf pieces := by
  simp [textOf]

@[simp]
theorem lineFeedCount_feeds (count : Nat) : lineFeedCount (Piece.feeds count).text = count := by
  simp [Piece.text, lineFeedCount]

/-- Whether some word stands directly before a text that goes on with it. -/
def runsTogether : List Piece → Bool
  | [] => false
  | .token t :: pieces => t.kind.runsInto t.text.toList (textOf pieces) || runsTogether pieces
  | _ :: pieces => runsTogether pieces

/-- Whether a code can be shortened so that no two words run together. -/
def staysApart (source : String) : Bool :=
  match piecesFrom source none false (scan source) with
  | .ok pieces => !runsTogether pieces
  | .error _ => false

/-! ## One token of the code -/

/-- What becomes of the next token, if the code can be shortened at all: trivia with line feeds
become these, other trivia only set words apart, and a word is kept, with or without a space. -/
inductive Step (source : String) (before : Option Token) (apart : Bool) (t : Token)
    (ts : List Token) (pieces : List Piece) : Prop where
  | feeds (trivia : t.isSignificant = false) (count : Nat) (rest : List Piece)
      (further : piecesFrom source none false ts = .ok rest) (feeds : count ≠ 0)
      (here : pieces = .feeds count :: rest) (all : count = lineFeedCount t.text)
  | skipped (trivia : t.isSignificant = false)
      (further : piecesFrom source before true ts = .ok pieces) (none : lineFeedCount t.text = 0)
  | kept (readable : t.kind.isReadable = true) (rest : List Piece)
      (further : piecesFrom source (some t) false ts = .ok rest)
      (here : pieces = if apart && (before.map (needsSpace · t)).getD false then
        .space :: .token t :: rest else .token t :: rest)

variable {source : String} {before : Option Token} {apart operand operand' : Bool} {t : Token}
  {pieces rest : List Piece} {start stop : Nat} {cs : List Char} {c : Char}

theorem step_of_pieces {ts : List Token}
    (shortened : piecesFrom source before apart (t :: ts) = .ok pieces) :
    Step source before apart t ts pieces := by
  have trivia (kind : t.kind.isSignificant = false)
      (shortened : (if 0 < lineFeedCount t.text then
          (piecesFrom source none false ts).map (.feeds (lineFeedCount t.text) :: ·)
        else piecesFrom source before true ts) = .ok pieces) :
      Step source before apart t ts pieces := by
    split at shortened
    · next some =>
        obtain ⟨rest, further, here⟩ := exists_ok_of_map shortened
        exact .feeds kind _ rest further (Nat.ne_of_gt some) here rfl
    · next none => exact .skipped kind shortened (Nat.eq_zero_of_not_pos none)
  unfold piecesFrom at shortened
  cases kind : t.kind with
  | blank | lineComment | blockComment =>
    rw [kind] at shortened
    exact trivia (by rw [kind]; rfl) shortened
  | fault problem =>
    rw [kind] at shortened
    cases shortened
  | _ =>
    rw [kind] at shortened
    obtain ⟨rest, further, here⟩ := exists_ok_of_map shortened
    exact .kept (by rw [kind]; rfl) rest further here

/-! ## What stands behind a word -/

theorem head?_textOf
    (shortened : piecesFrom source (some t) apart (scanFrom operand start cs) = .ok pieces)
    (first : (textOf pieces).head? = some c) :
    c = '\n' ∨ c = ' ' ∨ (apart = false ∧ cs.head? = some c) ∨
      ∃ b : Token, b.text.toList.head? = some c ∧ needsSpace t b = false := by
  revert apart pieces
  fun_induction scanFrom operand start cs with
  | case1 operand start =>
    intro apart pieces shortened first
    cases shortened
    rw [textOf_nil] at first
    cases first
  | case2 operand start d cs reading token =>
    rename_i operand' ih
    intro apart pieces shortened first
    have head (more : List Char) : (token.text.toList ++ more).head? = some d := by simp [token]
    cases step_of_pieces shortened with
    | feeds trivia count rest further feeds here =>
      subst here
      obtain ⟨n, rfl⟩ := Nat.exists_eq_succ_of_ne_zero feeds
      rw [textOf_cons] at first
      refine .inl ?_
      simpa [Piece.text, replicate_succ] using first.symm
    | skipped trivia further =>
      rcases ih further first with feed | space | ⟨impossible, _⟩ | next
      · exact .inl feed
      · exact .inr (.inl space)
      · cases impossible
      · exact .inr (.inr (.inr next))
    | kept readable rest further here =>
      split at here
      · subst here
        rw [textOf_cons] at first
        refine .inr (.inl ?_)
        simpa [Piece.text] using first.symm
      · next unspaced =>
          subst here
          rw [textOf_cons, Piece.text, head, Option.some.injEq] at first
          subst first
          cases apart with
          | false => exact .inr (.inr (.inl ⟨rfl, rfl⟩))
          | true =>
            refine .inr (.inr (.inr ⟨token, ?_, ?_⟩))
            · simpa using head []
            · simpa using unspaced

theorem noComment_of_kept (readable : (read operand '/' cs).value.isReadable = true)
    (further : piecesFrom source
      (some ⟨(read operand '/' cs).value,
        String.ofList ('/' :: cs.take (read operand '/' cs).size), start⟩) false
      (scanFrom operand' stop (cs.drop (read operand '/' cs).size)) = .ok rest) :
    ((cs.take (read operand '/' cs).size ++ textOf rest).head?.any
      fun c => c == '/' || c == '*') = false := by
  have own : (cs.head?.any fun c => c == '/' || c == '*') = false := by
    rw [← Bool.not_eq_true]
    intro opens
    rw [isReadable_read_comment opens] at readable
    cases readable
  by_cases alone : (read operand '/' cs).size = 0
  · rw [alone] at further ⊢
    simp only [take_zero, drop_zero, nil_append] at further ⊢
    cases first : (textOf rest).head? with
    | none => rfl
    | some c =>
      rcases head?_textOf further first with rfl | rfl | ⟨_, same⟩ | ⟨b, head, close⟩
      · rfl
      · rfl
      · rwa [← same]
      · simp only [needsSpace, String.toList_ofList, getLast?_singleton, head,
          Bool.or_eq_false_iff] at close
        simpa using close.2
  · rwa [head?_take_append alone (size_read_le operand '/' cs)]

/-! ## The words that are left -/

/-- A word is read again exactly if it does not run into the text behind it. -/
theorem wordsOf_kept_eq_iff {following : List (Kind × String)}
    (readable : (read operand c cs).value.isReadable = true) (further : piecesFrom source
      (some ⟨(read operand c cs).value, String.ofList (c :: cs.take (read operand c cs).size),
        start⟩) false (scanFrom operand' stop (cs.drop (read operand c cs).size)) = .ok rest) :
    wordsOf operand (c :: cs.take (read operand c cs).size ++ textOf rest) =
        ((read operand c cs).value, String.ofList (c :: cs.take (read operand c cs).size)) ::
          following ↔
      (read operand c cs).value.runsInto (c :: cs.take (read operand c cs).size) (textOf rest) =
        false ∧
      wordsOf (read operand c cs).value.precedesExpression (textOf rest) = following := by
  have body : (cs.take (read operand c cs).size).length = (read operand c cs).size :=
    length_take_of_le (size_read_le operand c cs)
  have word : (read operand c
      (cs.take (read operand c cs).size ++ textOf rest)).value.isSignificant = true := by
    refine isSignificant_read (noSpace_of_readable readable) ?_
    rintro rfl
    exact noComment_of_kept readable further
  rw [cons_append, wordsOf_cons_of_significant word]
  cases runs : (read operand c cs).value.runsInto (c :: cs.take (read operand c cs).size)
      (textOf rest) with
  | false =>
    rw [read_take_of_apart readable runs, take_left' body, drop_left' body]
    simp only [List.cons.injEq, true_and]
  | true =>
    have longer := size_read_take_of_runsInto readable runs
    refine ⟨fun same => ?_, fun impossible => by cases impossible.1⟩
    have texts := congrArg List.length
      (String.ofList_injective (Prod.mk.inj (List.cons.inj same).1).2)
    rw [length_cons, length_cons, length_take_of_le (size_read_le _ _ _), body]
      at texts
    omega

/-- The words are read again exactly if this is so everywhere. -/
theorem wordsOf_textOf_iff
    (shortened : piecesFrom source before apart (scanFrom operand start cs) = .ok pieces) :
    wordsOf operand (textOf pieces) = wordsOf operand cs ↔ runsTogether pieces = false := by
  have feed : isSpace '\n' = true := by decide
  have space : isSpace ' ' = true := by decide
  revert before apart pieces
  -- Trivia leave open whether an expression may follow, so both texts are read in the same state.
  fun_induction scanFrom operand start cs with
  | case1 operand start =>
    intro before apart pieces shortened
    cases shortened
    simp [textOf_nil, runsTogether]
  | case2 operand start d cs reading =>
    rename_i token operand' ih
    intro before apart pieces shortened
    cases step_of_pieces shortened with
    | feeds trivia count rest further feeds here =>
      have same : operand' = operand := by simp [operand', trivia]
      have rest_iff := ih further
      have blank : ∀ c ∈ (Piece.feeds count).text.toList, isSpace c = true := by
        simp [Piece.text, feed]
      rw [same] at rest_iff
      rw [here, textOf_cons, wordsOf_append blank, wordsOf_cons_of_trivia trivia, runsTogether]
      · exact rest_iff
      · simp
    | skipped trivia further =>
      have same : operand' = operand := by simp [operand', trivia]
      have rest_iff := ih further
      rw [same] at rest_iff
      rw [wordsOf_cons_of_trivia trivia]
      exact rest_iff
    | kept readable rest further here =>
      have word : reading.value.isSignificant = true :=
        Kind.isSignificant_of_isReadable readable
      have same : operand' = reading.value.precedesExpression := by
        simp [operand', token, isSignificant, word]
      have rest_iff : wordsOf operand' (textOf rest) = wordsOf operand' (cs.drop reading.size) ↔
          runsTogether rest = false := ih further
      rw [same] at rest_iff
      have kept : wordsOf operand (textOf (.token token :: rest)) = wordsOf operand (d :: cs) ↔
          runsTogether (.token token :: rest) = false := by
        have text : token.text.toList = d :: cs.take reading.size := by simp [token]
        rw [textOf_cons, Piece.text, text, wordsOf_cons_of_significant word,
          wordsOf_kept_eq_iff readable further, rest_iff, runsTogether, Bool.or_eq_false_iff, text]
      split at here
      · have blank : ∀ c ∈ Piece.space.text.toList, isSpace c = true := by
          simp [Piece.text, space]
        rw [here, textOf_cons, wordsOf_append blank, runsTogether]
        · exact kept
        · simp
      · rw [here]
        exact kept

/-- **Which words survive.** The words of a shortened code are those of the code, with the same
kinds and texts in the same order, exactly if no word of the shortened text stands directly before a
text that goes on with it. -/
theorem words_minify_iff {source out : String} (shortened : minify source = .ok out) :
    words (scan out) = words (scan source) ↔ staysApart source = true := by
  cases made : piecesFrom source none false (scan source) with
  | error problem =>
    rw [minify, made] at shortened
    cases shortened
  | ok pieces =>
    rw [minify, made] at shortened
    have text : out.toList = textOf pieces := by
      cases shortened
      rfl
    rw [staysApart, made, scan, scan, words_scanFrom, words_scanFrom, text, wordsOf_textOf_iff made]
    simp

/-- A conditional expression, shortened so that its question mark and the number behind it are read
as an optional link. -/
theorem words_minify_iff_question :
    minify "x = a ? .5 : b" = .ok "x=a?.5:b" ∧
      words (scan "x=a?.5:b") ≠ words (scan "x = a ? .5 : b") := by
  have shortened : minify "x = a ? .5 : b" = .ok "x=a?.5:b" := by decide +kernel
  have together : staysApart "x = a ? .5 : b" ≠ true := by decide +kernel
  exact ⟨shortened, fun same => together ((words_minify_iff shortened).mp same)⟩

end Tarkib.Minify
