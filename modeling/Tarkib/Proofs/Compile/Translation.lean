import Tarkib.Proofs.Compile.Lines
import Tarkib.Proofs.Token.Renaming

/-!
# Translated words

If a module has no declaration that is replaced, lowering goes through its tokens one by one and
writes a text for each of them (`translation`). The words and what they stand for are a dictionary
in the sense of the scanner, so the code has the tokens of the source but for the words that are
translated.
-/

namespace Tarkib.Compile

open Tarkib.Text Tarkib.Token
open List hiding concat concat_cons

variable {ctx : Context} {l : Lexeme} {ts : List Token} {name : String}

/-! ## What is written for tokens -/

/-- The words that are translated in a source of the given kind, and what they stand for. -/
def dictionary : SourceKind → List (String × String)
  | .somon => keywords ++ consoleMembers
  | _ => []

/-- A slash opens a regular expression behind a word and its translation, or behind neither. -/
theorem isDictionary (kind : SourceKind) : IsDictionary (dictionary kind) := by
  cases kind <;> decide

/-- What is written for a token between the given ones. -/
def tokenText (ctx : Context) (before : List Token) (next : Option Token) (t : Token) : String :=
  match t.kind with
  | .identifier name => identifierText ctx before next name
  | _ => t.text

/-- What is written for tokens, trivia included. The significant tokens in front of them come last
one first. -/
def translation (ctx : Context) (before : List Token) : List Token → List String
  | [] => []
  | t :: ts =>
    if t.isSignificant then
      tokenText ctx before (significant ts).head? t :: translation ctx (t :: before) ts
    else t.text :: translation ctx before ts

theorem renames_lookup {words table : List (String × String)} (known : table ⊆ words) {t : Token}
    (word : t.kind = .identifier name) (spelled : name = t.text) :
    Renames words t ((table.lookup name).getD name) := by
  cases found : table.lookup name with
  | none =>
    rw [Option.getD_none, spelled]
    exact .kept
  | some text =>
    obtain ⟨front, behind, rfl, _⟩ := List.lookup_eq_some_iff.mp found
    exact .renamed word (known (by simp))

section Translation

variable {kind : SourceKind} (somon : ctx.inSomon = (kind == .somon))

include somon

theorem renames_tokenText (before : List Token) (next : Option Token) {t : Token}
    (spelled : t.kind.Spelled t.text) :
    Renames (dictionary kind) t (tokenText ctx before next t) := by
  unfold tokenText
  split
  · next name word =>
      rw [word] at spelled
      have spelled : name = t.text := spelled
      have same : Renames (dictionary kind) t name := spelled ▸ .kept
      have tables (inSomon : ctx.inSomon = true) :
          keywords ⊆ dictionary kind ∧ consoleMembers ⊆ dictionary kind := by
        rw [somon, beq_iff_eq] at inSomon
        subst inSomon
        exact ⟨subset_append_left _ _, subset_append_right _ _⟩
      unfold identifierText
      split_ifs with dot member key inSomon
      · rw [Bool.and_eq_true] at member
        exact renames_lookup (tables member.1).2 word spelled
      · exact same
      · exact same
      · exact renames_lookup (tables inSomon).1 word spelled
      · exact same
  · exact .kept

theorem forall₂_translation (before : List Token) (spelled : ∀ t ∈ ts, t.kind.Spelled t.text) :
    List.Forall₂ (Renames (dictionary kind)) ts (translation ctx before ts) := by
  induction ts generalizing before with
  | nil => exact .nil
  | cons t ts ih =>
    obtain ⟨here, later⟩ := forall_mem_cons.mp spelled
    rw [translation]
    split
    · exact .cons (renames_tokenText somon before _ here) (ih _ later)
    · exact .cons .kept (ih _ later)

end Translation

theorem join_eq_concat {texts : List String} (fits : List.Forall₂ (Renames []) ts texts) :
    String.join texts = concat ts := by
  induction fits with
  | nil => rfl
  | cons here _ ih =>
    cases here with
    | kept => rw [String.join_cons, ih, concat_cons]
    | renamed _ known => cases known

/-! ## Lowering without declarations -/

/-- The item is that of a token: there is no problem, and no declaration is replaced. -/
def Item.Copies (item : Item) : Prop :=
  item.problems = [] ∧ ∀ text, Segment.inserted text ∉ item.segments

section Copies

variable {before : List Token} {number : Nat} {rest : List Lexeme}

theorem not_copies_lowerImport : ¬ (lowerImport ctx number l rest).item.Copies := by
  unfold lowerImport
  split
  · rintro ⟨quiet, _⟩
    cases quiet
  · next parsed _ =>
      rintro ⟨_, plain⟩
      exact plain (parsed.value.lower number) (by simp [replaced])

theorem not_copies_lowerExport : ¬ (lowerExport ctx l rest).item.Copies := by
  unfold lowerExport
  split
  · rintro ⟨quiet, _⟩
    cases quiet
  · next parsed _ =>
      split
      · next _ next _ _ _ =>
          rintro ⟨_, plain⟩
          exact plain (lineFeeds (l.token.text ++ next.lead)) (by simp)
      · rintro ⟨_, plain⟩
        exact plain parsed.value.lower (by simp [replaced])

/-- A step that replaces nothing writes one token. -/
theorem lowerFirst_of_copies (copies : (lowerFirst ctx before number l rest).item.Copies) :
    lowerFirst ctx before number l rest =
      { item := lowerToken ctx before l (rest.head?.map Lexeme.token) } := by
  unfold lowerFirst at copies ⊢
  split_ifs at copies ⊢
  · exact absurd copies not_copies_lowerImport
  · exact absurd copies not_copies_lowerExport
  · rfl

theorem segments_of_copies {next : Option Token} (copies : (lowerToken ctx before l next).Copies) :
    (lowerToken ctx before l next).segments =
      [.trivia l.lead, .token l.token (tokenText ctx before next l.token)] := by
  obtain ⟨quiet, _⟩ := copies
  unfold lowerToken at quiet ⊢
  unfold tokenText
  dsimp only at quiet ⊢
  cases kind : l.token.kind with
  | fault fault | stray c => simp [kind] at quiet
  | _ => rfl

theorem exports_lowerToken (next : Option Token) :
    (lowerToken ctx before l next).exports = [] ∧
      (lowerToken ctx before l next).isExport = false := by
  unfold lowerToken
  dsimp only
  split <;> exact ⟨rfl, rfl⟩

theorem lowerFrom_of_copies (copies : (lowerFirst ctx before number l rest).item.Copies) :
    lowerFrom ctx before number (l :: rest) =
      lowerToken ctx before l (rest.head?.map Lexeme.token) ::
        lowerFrom ctx (l.token :: before) number rest := by
  rw [lowerFrom, lowerFirst_of_copies copies]
  simp

/-- Whether a declaration starts with a lexeme. -/
def startsDeclaration (before : List Token) (l : Lexeme) (rest : List Lexeme) : Bool :=
  startsStatement before l && (startsImport l rest || l.token.isWord exportWords)

theorem lowerFrom_of_token (ctx : Context) (number : Nat)
    (token : startsDeclaration before l rest = false) :
    lowerFrom ctx before number (l :: rest) =
      lowerToken ctx before l (rest.head?.map Lexeme.token) ::
        lowerFrom ctx (l.token :: before) number rest := by
  have first : lowerFirst ctx before number l rest =
      { item := lowerToken ctx before l (rest.head?.map Lexeme.token) } := by
    unfold startsDeclaration at token
    unfold lowerFirst
    cases statement : startsStatement before l with
    | false => rfl
    | true =>
      simp only [statement, Bool.true_and, Bool.or_eq_false_iff] at token
      simp [token]
  rw [lowerFrom, first]
  simp

theorem lowerToken_identifier (word : l.token.kind = .identifier name) (next : Option Token) :
    lowerToken ctx before l next =
      let text := identifierText ctx before next name
      { segments := [.trivia l.lead, .token l.token text]
        warnings := identifierWarnings ctx before next l.token text } := by
  unfold lowerToken
  dsimp only
  rw [word]

theorem startsDeclaration_of_name (noName : l.token.name? = none) :
    startsDeclaration before l rest = false := by
  have noWord (names : List String) : l.token.isWord names = false := by
    unfold name? at noName
    unfold isWord
    cases kind : l.token.kind with
    | identifier name => simp [kind] at noName
    | _ => rfl
  simp [startsDeclaration, startsImport, noWord]

end Copies

theorem written_lowerFrom (before : List Token) (number : Nat) (lead : String) (ts : List Token)
    (copies : ∀ item ∈ lowerFrom ctx before number (Lexeme.splitFrom lead ts).1, item.Copies) :
    written ((lowerFrom ctx before number (Lexeme.splitFrom lead ts).1).flatMap Item.segments) ++
        (Lexeme.splitFrom lead ts).2 = lead ++ String.join (translation ctx before ts) ∧
      ∀ item ∈ lowerFrom ctx before number (Lexeme.splitFrom lead ts).1,
        item.exports = [] ∧ item.isExport = false := by
  fun_induction Lexeme.splitFrom lead ts generalizing before with
  | case1 lead =>
    rw [lowerFrom, translation]
    simp
  | case2 lead t ts word lexemes trailing split ih =>
    have next : lexemes.head?.map Lexeme.token = (significant ts).head? := by
      have tokens := Lexeme.token_splitFrom "" ts
      rw [split] at tokens
      rw [← tokens, head?_map]
    have first : (lowerFirst ctx before number ⟨lead, t⟩ lexemes).item.Copies := by
      apply copies
      rw [lowerFrom]
      exact mem_cons_self
    have items := lowerFrom_of_copies first
    rw [lowerFirst_of_copies first] at first
    rw [items, forall_mem_cons] at copies
    simp only [split] at ih
    obtain ⟨text, exports⟩ := ih (t :: before) copies.2
    rw [items]
    refine ⟨?_, forall_mem_cons.mpr ⟨exports_lowerToken _, exports⟩⟩
    rw [flatMap_cons, segments_of_copies first, written_append, String.append_assoc, text,
      translation, if_pos word, String.join_cons, next]
    simp [Segment.text, String.append_assoc]
  | case3 lead t ts trivia ih =>
    obtain ⟨text, exports⟩ := ih before copies
    refine ⟨?_, exports⟩
    rw [text, translation, if_neg trivia, String.join_cons, String.append_assoc]

/-! ## Modules without declarations -/

/-- The items of a source. -/
def moduleItems (options : Options) (source : String) : List Item :=
  lowerFrom ⟨source, options.target, options.kind == .somon⟩ [] 0
    (Lexeme.splitFrom "" (scan source)).1

section Module

variable {options : Options} {source : String}

theorem segments_lowerModule : (lowerModule options source).segments =
    (moduleItems options source).flatMap Item.segments ++
      [.trivia (Lexeme.splitFrom "" (scan source)).2] := rfl

theorem trailer_lowerModule : (lowerModule options source).trailer =
    String.join ((splitExports [] ((moduleItems options source).flatMap Item.exports)).1.map
      fun b => s!"\nexports.{b.outer} = {b.inner};") := rfl

theorem problems_lowerModule : (lowerModule options source).problems =
    ((bracketFaults [] (significant (scan source))).map fun entry =>
        Problem.bracket (Position.ofOffset source entry.1) entry.2) ++
      (moduleItems options source).flatMap Item.problems ++
      (if options.typeCheck then
        (splitExports [] ((moduleItems options source).flatMap Item.exports)).2.map
          Problem.duplicateExport
      else []) := rfl

theorem code_of_exports_nil (none : (moduleItems options source).flatMap Item.exports = []) :
    (lowerModule options source).code = (lowerModule options source).header ++
      (written ((moduleItems options source).flatMap Item.segments) ++
        (Lexeme.splitFrom "" (scan source)).2) := by
  have trailer : (lowerModule options source).trailer = "" := by
    rw [trailer_lowerModule, none]
    rfl
  rw [Lowered.code, Lowered.body, trailer, String.append_empty]
  change _ ++ written (lowerModule options source).segments = _
  rw [segments_lowerModule, written_append, written_cons, written_nil, String.append_empty]
  rfl

section Silent

variable (silent : ∀ item ∈ moduleItems options source, item.exports = [] ∧ item.isExport = false)
include silent

theorem flatMap_exports_of_silent : (moduleItems options source).flatMap Item.exports = [] :=
  flatMap_eq_nil_iff.mpr fun item member => (silent item member).1

theorem header_of_silent :
    (lowerModule options source).header = if options.strict then "\"use strict\"; " else "" := by
  have none : (moduleItems options source).any Item.isExport = false := by
    rw [any_eq_false]
    intro item member
    simp [(silent item member).2]
  change _ ++ (if (moduleItems options source).any Item.isExport then _ else _) = _
  rw [none, if_neg Bool.false_ne_true, String.append_empty]

theorem code_of_silent :
    (lowerModule options source).code = (lowerModule options source).header ++
      (written ((moduleItems options source).flatMap Item.segments) ++
        (Lexeme.splitFrom "" (scan source)).2) :=
  code_of_exports_nil (flatMap_exports_of_silent silent)

theorem problems_of_silent (brackets : bracketFaults [] (significant (scan source)) = [])
    (quiet : ∀ item ∈ moduleItems options source, item.problems = []) :
    (lowerModule options source).problems = [] := by
  rw [problems_lowerModule, brackets, flatMap_eq_nil_iff.mpr quiet,
    flatMap_exports_of_silent silent]
  simp [splitExports]

end Silent

theorem copies_of_quiet (quiet : (lowerModule options source).problems = [])
    (plain : ∀ text, Segment.inserted text ∉ (lowerModule options source).segments) :
    ∀ item ∈ moduleItems options source, item.Copies := by
  intro item member
  constructor
  · rw [problems_lowerModule, append_eq_nil_iff, append_eq_nil_iff] at quiet
    exact flatMap_eq_nil_iff.mp quiet.1.2 item member
  · intro text inside
    apply plain text
    rw [segments_lowerModule]
    exact mem_append_left _ (mem_flatMap.mpr ⟨item, member, inside⟩)

variable (copies : ∀ item ∈ moduleItems options source, item.Copies)

include copies

theorem silent_of_copies :
    ∀ item ∈ moduleItems options source, item.exports = [] ∧ item.isExport = false :=
  (written_lowerFrom [] 0 "" (scan source) copies).2

theorem code_of_copies (loose : options.strict = false) :
    (lowerModule options source).code =
      String.join (translation ⟨source, options.target, options.kind == .somon⟩ []
        (scan source)) := by
  obtain ⟨text, silent⟩ := written_lowerFrom [] 0 "" (scan source) copies
  rw [code_of_silent silent, header_of_silent silent, loose, if_neg Bool.false_ne_true,
    String.empty_append]
  exact text.trans String.empty_append

theorem problems_of_copies (brackets : bracketFaults [] (significant (scan source)) = []) :
    (lowerModule options source).problems = [] :=
  problems_of_silent (silent_of_copies copies) brackets fun item member => (copies item member).1

theorem plain_of_copies :
    ∀ text, Segment.inserted text ∉ (lowerModule options source).segments := by
  intro text member
  rw [segments_lowerModule] at member
  rcases mem_append.mp member with member | member
  · obtain ⟨item, inside, member⟩ := mem_flatMap.mp member
    exact (copies item inside).2 text member
  · simp at member

end Module

/-! ## Simple tokens -/

def isWritable : Kind → Bool
  | .fault _ | .stray _ => false
  | _ => true

def isSimple (t : Token) : Bool :=
  !t.isWord importWords && !t.isWord exportWords && isWritable t.kind

theorem copies_lowerToken (before : List Token) (next : Option Token)
    (writable : isWritable l.token.kind = true) : (lowerToken ctx before l next).Copies := by
  unfold lowerToken
  dsimp only
  split
  · exact ⟨rfl, by simp⟩
  · exact ⟨rfl, by simp⟩
  · next kind =>
      rw [kind] at writable
      cases writable
  · next kind =>
      rw [kind] at writable
      cases writable
  · exact ⟨rfl, by simp⟩

theorem startsDeclaration_of_isSimple (simple : isSimple l.token = true) (before : List Token)
    (rest : List Lexeme) : startsDeclaration before l rest = false := by
  rw [isSimple, Bool.and_eq_true, Bool.and_eq_true] at simple
  simp_all [startsDeclaration, startsImport]

theorem copies_lowerFrom (before : List Token) (number : Nat) {ls : List Lexeme}
    (simple : ∀ l ∈ ls, isSimple l.token = true) :
    ∀ item ∈ lowerFrom ctx before number ls, item.Copies := by
  induction ls generalizing before with
  | nil =>
    rw [lowerFrom]
    exact fun item member => absurd member not_mem_nil
  | cons l ls ih =>
    obtain ⟨here, later⟩ := forall_mem_cons.mp simple
    have writable : isWritable l.token.kind = true := by
      rw [isSimple, Bool.and_eq_true] at here
      exact here.2
    rw [lowerFrom_of_token ctx number (startsDeclaration_of_isSimple here before ls),
      forall_mem_cons]
    exact ⟨copies_lowerToken before _ writable, ih _ later⟩

theorem copies_of_simple (options : Options) {source : String}
    (simple : ∀ t ∈ significant (scan source), isSimple t = true) :
    ∀ item ∈ moduleItems options source, item.Copies := by
  refine copies_lowerFrom [] 0 fun l member => simple _ ?_
  rw [← Lexeme.token_splitFrom "" (scan source)]
  exact mem_map_of_mem member

/-- The tokens of a call whose argument is written as the given text. -/
def callTokens (s text : String) : List Token :=
  [⟨.identifier "require", "require", 0⟩, ⟨.punct "(", "(", 7⟩, ⟨.string s, text, 8⟩,
    ⟨.punct ")", ")", 8 + text.utf8ByteSize⟩]

/-- A call alone is compiled to itself. -/
theorem compile_call {source s text : String} (scanned : scan source = callTokens s text) :
    compile { kind := .javascript } source = ⟨source, [], []⟩ := by
  have code : String.join ((scan source).map Token.text) = source := concat_scan source
  have lexemes : Lexeme.split (scan source) = ((scan source).map (⟨"", ·⟩), "") := by
    rw [scanned]
    rfl
  have closed : bracketFaults [] (significant (scan source)) = [] := by
    rw [scanned]
    rfl
  have items : lowerFrom ⟨source, .es2020, SourceKind.javascript == .somon⟩ [] 0
      ((scan source).map (⟨"", ·⟩)) =
        (scan source).map fun t => { segments := [.trivia "", .token t t.text] } := by
    rw [scanned]
    simp only [callTokens, map_cons, map_nil]
    rw [lowerFrom_of_token _ _ rfl, lowerFrom_of_token _ _ (startsDeclaration_of_name rfl),
      lowerFrom_of_token _ _ (startsDeclaration_of_name rfl),
      lowerFrom_of_token _ _ (startsDeclaration_of_name rfl), lowerFrom]
    rfl
  rw [compile, generate, lowerModule, lexemes]
  simp only [closed, items]
  rw [scanned] at code ⊢
  simpa [callTokens, splitExports, Lowered.code, Lowered.body, Segment.text] using code

/-- **Words are translated one by one.** Let a source of Somon or JavaScript be compiled without
problems, strictness and shortening, let no declaration of it be replaced, and let no name stand
directly behind a number. Then the code is the translation of the tokens, one behind the other, in
which only words of the dictionary are replaced by what they stand for; nothing is for JavaScript,
whose code is the source. The tokens of the code are the texts of the translation: their kinds and
texts are those of the source but for the replaced words, which are names again. -/
theorem compile_translates_words {options : Options} {source : String}
    (code : options.kind ≠ .json) (long : options.minify = false)
    (loose : options.strict = false) (usable : (compile options source).isUsable = true)
    (plain : ∀ text, Segment.inserted text ∉ (lowerModule options source).segments)
    (apart : NumbersApart (scan source)) :
    let ctx : Context := ⟨source, options.target, options.kind == .somon⟩
    let texts := translation ctx [] (scan source)
    let words := dictionary options.kind
    (compile options source).code = String.join texts ∧
      List.Forall₂ (Renames words) (scan source) texts ∧
      (options.kind = .javascript → (compile options source).code = source) ∧
      (scan (compile options source).code).map Token.text = texts ∧
      List.Forall₂ (Renamed words) (scan source) (scan (compile options source).code) := by
  intro ctx texts words
  have quiet : (lowerModule options source).problems = [] := by
    rw [compile_eq_lowered code long] at usable
    exact List.isEmpty_iff.mp usable
  have translated : (compile options source).code = String.join texts := by
    rw [code_compile code long, code_of_copies (copies_of_quiet quiet plain) loose]
  have fits : List.Forall₂ (Renames words) (scan source) texts :=
    forall₂_translation rfl [] fun t member => spelled_of_mem_scan source t member
  obtain ⟨spelled, renamed⟩ := exists_renamed (isDictionary options.kind) texts fits apart 0
  refine ⟨translated, fits, ?_, ?_, ?_⟩
  · intro javascript
    have none : words = [] := by
      change dictionary options.kind = []
      rw [javascript]
      rfl
    rw [translated, join_eq_concat (none ▸ fits), concat_scan]
  · rw [translated]
    exact spelled
  · rw [translated]
    exact renamed

/-- A slash opens a regular expression behind the word and behind its translation. What looks like a
word inside the regular expression stays, and so does a member. -/
theorem compile_translates_words_regex :
    let source := "бозгашт /нав/.нав"
    let code := "return /нав/.нав"
    (compile {} source).code = code ∧
      (scan code).map Token.text = ["return", " ", "/нав/", ".", "нав"] ∧
      List.Forall₂ (Renamed (keywords ++ consoleMembers)) (scan source) (scan code) := by
  intro source code
  have kind : ({} : Options).kind ≠ .json := by decide
  have scanned : scan source = [⟨.identifier "бозгашт", "бозгашт", 0⟩, ⟨.blank, " ", 14⟩,
      ⟨.regex, "/нав/", 15⟩, ⟨.punct ".", ".", 23⟩, ⟨.identifier "нав", "нав", 24⟩] := by
    decide +kernel
  have simple : ∀ t ∈ significant (scan source), isSimple t = true := by
    rw [scanned]
    decide +kernel
  have brackets : bracketFaults [] (significant (scan source)) = [] := by
    rw [scanned]
    decide +kernel
  have apart : NumbersApart (scan source) := by
    rw [scanned]
    decide +kernel
  have copies := copies_of_simple {} simple
  have usable : (compile {} source).isUsable = true := by
    rw [compile_eq_lowered kind rfl]
    exact List.isEmpty_iff.mpr (problems_of_copies copies brackets)
  obtain ⟨translated, _, _, spelled, renamed⟩ :=
    compile_translates_words kind rfl rfl usable (plain_of_copies copies) apart
  have texts : translation ⟨source, .es2020, true⟩ [] (scan source) =
      ["return", " ", "/нав/", ".", "нав"] := by
    rw [scanned]
    decide +kernel
  have written : (compile {} source).code = code := by
    rw [translated]
    exact congrArg String.join texts
  rw [written] at spelled renamed
  exact ⟨written, spelled.trans texts, renamed⟩

end Tarkib.Compile
