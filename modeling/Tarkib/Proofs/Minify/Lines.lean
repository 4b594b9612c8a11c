import Tarkib.Proofs.Compile.Lines
import Tarkib.Proofs.Minify.Words

/-!
# Shortened code keeps its lines

What stands between two words of a code is replaced by a gap: the line feeds of the trivia, and a
space where the words would run together. Line feeds inside a word are kept with the word. Hence
every word of the shortened code stands on the line that it had.
-/

namespace Tarkib.Minify

open Tarkib.Compile Tarkib.Text Tarkib.Token

/-! ## Gaps -/

/-- There are only spaces and line feeds in the text. -/
def IsGap (text : String) : Prop :=
  ∀ c ∈ text.toList, c = ' ' ∨ c = '\n'

theorem isGap_empty : IsGap "" := by
  simp [IsGap]

theorem isGap_space : IsGap Piece.space.text := by
  simp [IsGap, Piece.text]

theorem isGap_feeds (count : Nat) : IsGap (Piece.feeds count).text := by
  simp [IsGap, Piece.text]

theorem IsGap.append {s t : String} (first : IsGap s) (second : IsGap t) : IsGap (s ++ t) := by
  rw [IsGap, String.toList_append]
  exact List.forall_mem_append.mpr ⟨first, second⟩

/-! ## Words and what stands in front of them -/

/-- The word is kept, and in front of it stands a gap with the line feeds that were there. -/
structure Keeps (original kept : Lexeme) : Prop where
  token : kept.token = original.token
  gap : IsGap kept.lead
  feeds : lineFeedCount kept.lead = lineFeedCount original.lead

/-- The words are the same in the same order, and the texts in front of them have the same line
feeds. -/
theorem exists_kept {source : String} (lead : String) (ts : List Token) (gap : String)
    (isGap : IsGap gap) (feeds : lineFeedCount gap = lineFeedCount lead) (before : Option Token)
    (apart : Bool) (pieces : List Piece)
    (shortened : piecesFrom source before apart ts = .ok pieces) :
    ∃ ls trailing, List.Forall₂ Keeps (Lexeme.splitFrom lead ts).1 ls ∧ IsGap trailing ∧
      lineFeedCount trailing = lineFeedCount (Lexeme.splitFrom lead ts).2 ∧
      gap ++ String.join (pieces.map Piece.text) = covered ls ++ trailing := by
  fun_induction Lexeme.splitFrom lead ts generalizing gap before apart pieces with
  | case1 lead =>
    cases shortened
    exact ⟨[], gap, .nil, isGap, feeds, by simp⟩
  | case2 lead t ts word lexemes trailing split ih =>
    cases step_of_pieces shortened with
    | feeds trivia | skipped trivia =>
      rw [word] at trivia
      cases trivia
    | kept readable rest further here =>
      obtain ⟨ls, ending, keeps, isGap', feeds', text⟩ :=
        ih "" isGap_empty rfl (some t) false rest further
      simp only [split] at keeps feeds'
      rw [String.empty_append] at text
      split at here
      · refine ⟨⟨gap ++ Piece.space.text, t⟩ :: ls, ending, .cons ⟨rfl, ?_, ?_⟩ keeps, isGap',
          feeds', ?_⟩
        · exact isGap.append isGap_space
        · rw [lineFeedCount_append, feeds]
          rfl
        · simp [here, text, Piece.text, String.append_assoc]
      · refine ⟨⟨gap, t⟩ :: ls, ending, .cons ⟨rfl, isGap, feeds⟩ keeps, isGap', feeds', ?_⟩
        simp [here, text, Piece.text, String.append_assoc]
  | case3 lead t ts trivia ih =>
    cases step_of_pieces shortened with
    | feeds _ count rest further _ here all =>
      subst here
      have more : lineFeedCount (gap ++ (Piece.feeds count).text) =
          lineFeedCount (lead ++ t.text) := by
        rw [lineFeedCount_append, lineFeedCount_append, feeds, lineFeedCount_feeds, all]
      obtain ⟨ls, ending, keeps, isGap', feeds', text⟩ :=
        ih _ (isGap.append (isGap_feeds count)) more none false rest further
      refine ⟨ls, ending, keeps, isGap', feeds', ?_⟩
      rw [← text, List.map_cons, String.join_cons, String.append_assoc]
    | skipped _ further none =>
      have same : lineFeedCount gap = lineFeedCount (lead ++ t.text) := by
        rw [lineFeedCount_append, feeds, none, Nat.add_zero]
      exact ih gap isGap same before true pieces further
    | kept readable =>
      exact absurd (Kind.isSignificant_of_isReadable readable) trivia

theorem keeps_spec {originals ls : List Lexeme} (keeps : List.Forall₂ Keeps originals ls) :
    ls.map Lexeme.token = originals.map Lexeme.token ∧ (∀ l ∈ ls, IsGap l.lead) ∧
      lineFeedCount (covered ls) = lineFeedCount (covered originals) := by
  induction keeps with
  | nil => exact ⟨rfl, List.forall_mem_nil _, rfl⟩
  | cons here _ ih =>
    obtain ⟨tokens, gaps, feeds⟩ := ih
    refine ⟨?_, List.forall_mem_cons.mpr ⟨here.gap, gaps⟩, ?_⟩
    · rw [List.map_cons, List.map_cons, here.token, tokens]
    · simp [here.token, here.feeds, feeds]

/-- So every word stands behind as many line feeds as before. -/
theorem exists_front {originals ls : List Lexeme} (keeps : List.Forall₂ Keeps originals ls)
    {start : Nat} (placed : Lexeme.Placed start originals) (before : List Lexeme) (l : Lexeme)
    (behind : List Lexeme) (parts : ls = before ++ l :: behind) :
    ∃ front rest, covered originals = front ++ rest ∧
      l.token.start = start + front.utf8ByteSize ∧
      lineFeedCount (covered before ++ l.lead) = lineFeedCount front := by
  induction keeps generalizing start before with
  | nil => simp at parts
  | @cons original kept originals ls here _ ih =>
    obtain ⟨first, later⟩ := placed
    cases before with
    | nil =>
      obtain ⟨rfl, _⟩ := List.cons.inj parts
      refine ⟨original.lead, original.token.text ++ covered originals, ?_, ?_, ?_⟩
      · rw [covered_cons, String.append_assoc]
      · rw [here.token, first]
      · rw [covered_nil, String.empty_append, here.feeds]
    | cons _ before =>
      obtain ⟨rfl, inner⟩ := List.cons.inj parts
      obtain ⟨front, rest, split, offset, feeds⟩ := ih later before inner
      refine ⟨original.lead ++ original.token.text ++ front, rest, ?_, ?_, ?_⟩
      · rw [covered_cons, split, ← String.append_assoc]
      · rw [offset, stop, first, String.utf8ByteSize_append, String.utf8ByteSize_append]
        omega
      · rw [covered_cons, String.append_assoc, lineFeedCount_append, feeds, lineFeedCount_append,
          lineFeedCount_append, lineFeedCount_append, here.token, here.feeds]

/-! ## The code -/

/-- **Shortening keeps every word on its line.** If a code can be shortened, the shortened text is
made of the texts of its words, unchanged and in their order, with only spaces and line feeds
between them. In front of every word there are as many line feeds as in the code in front of the
offset where the word starts, and both texts have equally many line feeds. -/
theorem minify_keeps_lines {source out : String} (shortened : minify source = .ok out) :
    ∃ (ls : List Lexeme) (trailing : String),
      ls.map Lexeme.token = significant (scan source) ∧ out = covered ls ++ trailing ∧
      (∀ l ∈ ls, IsGap l.lead) ∧ IsGap trailing ∧
      (∀ before l behind, ls = before ++ l :: behind →
        lineFeedCount (covered before ++ l.lead) =
          lineFeedCount (String.ofList (takeBytes l.token.start source.toList))) ∧
      lineFeedCount out = lineFeedCount source := by
  obtain ⟨pieces, made, rfl⟩ := exists_ok_of_map shortened
  obtain ⟨ls, trailing, keeps, isGap, feeds, text⟩ :=
    exists_kept "" (scan source) "" isGap_empty rfl none false pieces made
  have whole : covered (Lexeme.splitFrom "" (scan source)).1 ++
      (Lexeme.splitFrom "" (scan source)).2 = source := by
    rw [Lexeme.covered_splitFrom, concat_scan, String.empty_append]
  obtain ⟨tokens, gaps, kept⟩ := keeps_spec keeps
  rw [String.empty_append] at text
  refine ⟨ls, trailing, ?_, text, gaps, isGap, ?_, ?_⟩
  · rw [tokens, Lexeme.token_splitFrom]
  · intro before l behind parts
    obtain ⟨front, rest, split, start, same⟩ :=
      exists_front keeps (Lexeme.placed_splitFrom (placed_scan source)) before l behind parts
    rw [same, start, Nat.zero_add, ← byteLength_toList, ← whole, split, String.append_assoc,
      String.toList_append, takeBytes_byteLength_append, String.ofList_toList]
  · rw [text, lineFeedCount_append, kept, feeds, ← lineFeedCount_append, whole]

/-- Line feeds in a comment, inside a template and at the end of a line. -/
theorem minify_keeps_lines_template :
    let source := "a = /* one\ntwo */ \x60x\ny\x60 // three\n  + +b"
    let out := "a=\n\x60x\ny\x60\n+ +b"
    minify source = .ok out ∧ lineFeedCount out = 3 ∧
      ∃ (ls : List Lexeme) (trailing : String), out = covered ls ++ trailing ∧
        (ls.map Lexeme.token).map Token.text = ["a", "=", "\x60x\ny\x60", "+", "+", "b"] ∧
        ∀ l ∈ ls, IsGap l.lead := by
  intro source out
  have computed : minify source = .ok out ∧ lineFeedCount source = 3 ∧
      (significant (scan source)).map Token.text = ["a", "=", "\x60x\ny\x60", "+", "+", "b"] := by
    decide +kernel
  obtain ⟨shortened, count, texts⟩ := computed
  obtain ⟨ls, trailing, tokens, text, gaps, _, _, feeds⟩ := minify_keeps_lines shortened
  exact ⟨shortened, feeds.trans count, ls, trailing, text, by rw [tokens, texts], gaps⟩

end Tarkib.Minify
