import Tarkib.Bundle.Layout
import Tarkib.Minify
import Tarkib.Proofs.Compile.Outline

/-!
# The words of a bundle

Every module stands in a bundle on lines of its own, and a line feed keeps texts apart. The only
thing that could go over from one text to the next one is whether a slash opens a regular
expression. Behind the opening brace of a module it does, as at the start of a code that is read
alone, and no other text starts with a slash.
-/

namespace Tarkib

open Tarkib.Token Tarkib.Text Tarkib.Compile List

/-! ## Words that can be read -/

namespace Token

/-- A code can be read if all its words can. -/
theorem forall_isFault_iff {tokens : List Token} :
    (∀ t ∈ tokens, t.kind.isFault = false) ↔ ∀ w ∈ words tokens, w.1.isReadable = true := by
  constructor
  · intro ends w member
    obtain ⟨t, inside, rfl⟩ := mem_map.mp member
    obtain ⟨listed, word⟩ := mem_filter.mp inside
    exact Kind.isReadable_of_isSignificant word (ends t listed)
  · intro readable t member
    cases kind : t.kind with
    | fault fault =>
      have word : t.isSignificant = true := by rw [isSignificant, kind]; rfl
      have unreadable := readable (t.kind, t.text)
        (mem_map.mpr ⟨t, mem_filter.mpr ⟨member, word⟩, rfl⟩)
      rw [kind] at unreadable
      cases unreadable
    | _ => rfl

theorem words_scan (source : String) : words (scan source) = wordsOf true source.toList :=
  words_scanFrom true 0 source.toList

theorem map_fst_words (tokens : List Token) :
    (words tokens).map Prod.fst = (significant tokens).map Token.kind := by
  rw [words, map_map]
  rfl

end Token

namespace Minify

theorem exists_ok_map {f : List Piece → List Piece} {r : Except Problem (List Piece)}
    (made : ∃ pieces, r = .ok pieces) : ∃ pieces, r.map f = .ok pieces := by
  obtain ⟨pieces, rfl⟩ := made
  exact ⟨f pieces, rfl⟩

theorem exists_pieces {ts : List Token} (ends : ∀ t ∈ ts, t.kind.isFault = false) (source : String)
    (before : Option Token) (apart : Bool) :
    ∃ pieces, piecesFrom source before apart ts = .ok pieces := by
  fun_induction piecesFrom source before apart ts with
  | case1 => exact ⟨[], rfl⟩
  | case8 before apart t ts problem kind =>
    have here := ends t mem_cons_self
    rw [kind] at here
    cases here
  | case2 | case4 | case6 | case9 =>
    rename_i ih
    exact exists_ok_map (ih (forall_mem_cons.mp ends).2)
  | case3 | case5 | case7 =>
    rename_i ih
    exact ih (forall_mem_cons.mp ends).2

/-- A code that can be read can be shortened. -/
theorem exists_minify {source : String} (ends : ∀ t ∈ scan source, t.kind.isFault = false) :
    ∃ out, minify source = .ok out := by
  obtain ⟨pieces, made⟩ := exists_pieces ends source none false
  exact ⟨_, by rw [minify, made]; rfl⟩

end Minify

namespace Bundle

variable {parts : List Part}

/-! ## Quoted texts and marks -/

/-- The word for an operator or a delimiter. -/
def symbol (s : String) : Kind × String :=
  (.punct s, s)

/-- The word for a name. -/
def name (s : String) : Kind × String :=
  (.identifier s, s)

theorem wordsOf_quote (s : String) (operand : Bool) (rest : List Char) :
    wordsOf operand ((Json.quote s).toList ++ rest) =
      words (scan (Json.quote s)) ++ wordsOf false rest := by
  obtain ⟨body, spelled, reads⟩ := read_quote s
  have found := reads operand rest
  have word : (read operand '\x22' (body ++ rest)).value.isSignificant = true := by rw [found]; rfl
  rw [scan_quote, spelled, cons_append, wordsOf_cons_of_significant word, found,
    take_left, drop_left, ← spelled, String.ofList_toList]
  rfl

theorem exists_words_quote (s : String) :
    ∃ value, words (scan (Json.quote s)) = [(.string value, Json.quote s)] :=
  ⟨requoted s, by rw [scan_quote]; rfl⟩

def marks : List Char :=
  ['(', ')', '\x7b', '\x7d', ',', ';']

theorem read_mark {c : Char} (mark : c ∈ marks) (operand : Bool) (cs : List Char) :
    read operand c cs = ⟨.punct (String.singleton c), 0⟩ := by
  have checked : marks.all (fun c => isAlone (fun _ => true) c && c != '.') = true := by
    decide
  have here := all_eq_true.mp checked c mark
  rw [Bool.and_eq_true, bne_iff_ne] at here
  exact read_alone here.1 (by cases cs <;> rfl) (absurd · here.2)

theorem wordsOf_mark {c : Char} (mark : c ∈ marks) (operand : Bool) (cs : List Char) :
    wordsOf operand (c :: cs) = symbol (String.singleton c) ::
      wordsOf (Kind.precedesExpression (.punct (String.singleton c))) cs := by
  have found := read_mark mark operand cs
  have word : (read operand c cs).value.isSignificant = true := by rw [found]; rfl
  rw [wordsOf_cons_of_significant word, found, take_zero, drop_zero, ← String.singleton_eq_ofList]
  rfl

/-! ## Modules -/

/-- The words between the id and the code of a module. -/
def headerWords : List (Kind × String) :=
  [symbol ":", name "function", symbol "(", name "module", symbol ",", name "exports", symbol ",",
    name "require", symbol ")", symbol "\x7b"]

/-- The words of a module in the table. -/
def Part.words (p : Part) : List (Kind × String) :=
  Token.words (scan (Json.quote p.id)) ++ headerWords ++ Token.words (scan p.code) ++
    [symbol "\x7d"]

theorem wordsOf_header :
    wordsOf false ": function (module, exports, require) \x7b".toList = headerWords := by
  decide +kernel

/-- The words of a module in a bundle are those of its code, with its id and the words of a function
around them. -/
theorem wordsOf_text {p : Part} (ends : ∀ t ∈ scan p.code, t.kind.isFault = false)
    (operand : Bool) (rest : List Char) :
    wordsOf operand (p.text.toList ++ rest) = p.words ++ wordsOf false rest := by
  have readable := forall_isFault_iff.mp ends
  rw [words_scan] at readable
  have spelled : p.text.toList ++ rest = (Json.quote p.id).toList ++
      (": function (module, exports, require) \x7b".toList ++
        '\n' :: (p.code.toList ++ '\n' :: '\x7d' :: rest)) := by
    simp [Part.text, header]
  have opened : ∀ w ∈ headerWords, w.1.isReadable = true := by decide
  have start : operandAfter false headerWords = true := by decide
  rw [spelled, wordsOf_quote, wordsOf_append_feed false _ _ (wordsOf_header ▸ opened),
    wordsOf_header, start, wordsOf_append_feed true _ _ readable, wordsOf_mark (by decide),
    ← words_scan]
  simp only [Part.words, append_assoc, singleton_append]
  rfl

/-- The text of the table of modules. -/
def table (parts : List Part) : List Char :=
  [','].intercalate (parts.map fun p => '\n' :: p.text.toList)

theorem wordsOf_table
    (ends : ∀ p ∈ parts, ∀ t ∈ scan p.code, t.kind.isFault = false) (operand : Bool)
    (rest : List Char) : ∃ behind,
    wordsOf operand (table parts ++ '\n' :: rest) =
      [symbol ","].intercalate (parts.map Part.words) ++ wordsOf behind rest := by
  have feed : isSpace '\n' = true := by decide
  induction parts generalizing operand with
  | nil => exact ⟨operand, wordsOf_cons_of_isSpace feed operand rest⟩
  | cons p parts ih =>
    obtain ⟨here, later⟩ := forall_mem_cons.mp ends
    cases parts with
    | nil =>
      refine ⟨false, ?_⟩
      simp only [table, map_cons, map_nil, intercalate_singleton, cons_append]
      rw [wordsOf_cons_of_isSpace feed, wordsOf_text here, wordsOf_cons_of_isSpace feed]
    | cons q parts =>
      obtain ⟨behind, rest⟩ := ih later true
      refine ⟨behind, ?_⟩
      simp only [table, map_cons, intercalate_cons_cons, cons_append, append_assoc] at rest ⊢
      rw [wordsOf_cons_of_isSpace feed, wordsOf_text here, wordsOf_mark (by decide),
        nil_append, nil_append, ← rest]
      rfl

/-! ## The loader -/

/-- The lines of the loader as lists of characters. That a text is made of given characters is seen
at once, while finding its characters by evaluation takes long. -/
def loaderRows : { rows : List (List Char) // loaderLines = rows.map String.ofList } :=
  ⟨[_, _, _, _, _, _, _, _, _, _, _, _, _, _, _, _, _, _, _, _], rfl⟩

theorem outline_loader : (outline (['\n'].intercalate (loaderLines.map String.toList))).bind
    (openAfter []) = some [.curly, .round] := by
  have rows : loaderLines.map String.toList = loaderRows.1 := by
    refine (congrArg (List.map String.toList) loaderRows.2).trans ?_
    rw [map_map]
    exact map_id'' (fun _ => String.toList_ofList) _
  rw [rows]
  decide +kernel

/-- The loader can be read, and it leaves a brace and a parenthesis open. -/
theorem loader_spec :
    (∀ w ∈ wordsOf true loader.toList, w.1.isReadable = true) ∧
      openAfter [] ((words (scan loader)).map Prod.fst) = some [.curly, .round] := by
  have spelled : loader.toList = ['\n'].intercalate (loaderLines.map String.toList) := by
    rw [loader, String.toList_intercalate]
    rfl
  obtain ⟨brackets, found, opened⟩ := Option.bind_eq_some_iff.mp outline_loader
  rw [← spelled] at found
  obtain ⟨readable, same⟩ := wordsOf_of_outline found true
  rw [words_scan, ← openAfter_bracketsOf, same]
  exact ⟨readable, opened⟩

/-! ## Bundles -/

/-- The words behind the table of modules. -/
def footerWords (entry : String) : List (Kind × String) :=
  symbol "\x7d" :: symbol "," :: words (scan (Json.quote entry)) ++ [symbol ")", symbol ";"]

theorem wordsOf_footer (entry : String) (operand : Bool) :
    wordsOf operand ('\x7d' :: ',' :: ' ' :: ((Json.quote entry).toList ++ [')', ';', '\n'])) =
      footerWords entry := by
  have feed : isSpace '\n' = true := by decide
  have space : isSpace ' ' = true := by decide
  rw [wordsOf_mark (by decide), wordsOf_mark (by decide), wordsOf_cons_of_isSpace space,
    wordsOf_quote, wordsOf_mark (by decide), wordsOf_mark (by decide),
    wordsOf_cons_of_isSpace feed, wordsOf_nil]
  rfl

/-- The words of a bundle. -/
def bundleWords (parts : List Part) (entry : String) : List (Kind × String) :=
  words (scan loader) ++ [symbol ","].intercalate (parts.map Part.words) ++ footerWords entry

/-- The words of a bundle: the loader, the modules one by one, and the end. -/
theorem words_scan_render
    (ends : ∀ p ∈ parts, ∀ t ∈ scan p.code, t.kind.isFault = false) (entry : String) :
    words (scan (render parts entry)) = bundleWords parts entry := by
  have spelled : (render parts entry).toList = loader.toList ++ (table parts ++ '\n' ::
      '\x7d' :: ',' :: ' ' :: ((Json.quote entry).toList ++ [')', ';', '\n'])) := by
    have rows : String.toList ∘ (fun p : Part => "\n" ++ p.text) =
        fun p => '\n' :: p.text.toList := by
      funext p
      simp
    simp [render, table, String.toList_intercalate, rows]
  have footer (operand : Bool) := wordsOf_footer entry operand
  have feed : isSpace '\n' = true := by decide
  obtain ⟨readable, _⟩ := loader_spec
  -- Every table starts with a line feed, the empty one with that in front of the footer.
  obtain ⟨rest, start⟩ : ∃ rest, table parts ++ '\n' :: '\x7d' :: ',' :: ' ' ::
      ((Json.quote entry).toList ++ [')', ';', '\n']) = '\n' :: rest := by
    cases parts with
    | nil => exact ⟨_, rfl⟩
    | cons p parts => cases parts <;> exact ⟨_, rfl⟩
  obtain ⟨behind, words⟩ := wordsOf_table ends (operandAfter true (wordsOf true loader.toList))
    ('\x7d' :: ',' :: ' ' :: ((Json.quote entry).toList ++ [')', ';', '\n']))
  rw [start, wordsOf_cons_of_isSpace feed, footer] at words
  rw [words_scan, spelled, start, wordsOf_append_feed true _ _ readable, words, bundleWords,
    words_scan, append_assoc]

theorem isReadable_bundleWords
    (ends : ∀ p ∈ parts, ∀ t ∈ scan p.code, t.kind.isFault = false) (entry : String) :
    ∀ w ∈ bundleWords parts entry, w.1.isReadable = true := by
  have quoted (s : String) : ∀ w ∈ words (scan (Json.quote s)), w.1.isReadable = true := by
    obtain ⟨value, quote⟩ := exists_words_quote s
    simp [quote, Kind.isReadable]
  have header : ∀ w ∈ headerWords, w.1.isReadable = true := by decide
  have mark (s : String) : (symbol s).1.isReadable = true := rfl
  have table : ∀ w ∈ [symbol ","].intercalate (parts.map Part.words), w.1.isReadable = true := by
    induction parts with
    | nil => simp
    | cons p parts ih =>
      obtain ⟨here, later⟩ := forall_mem_cons.mp ends
      have part : ∀ w ∈ p.words, w.1.isReadable = true := by
        simp only [Part.words, forall_mem_append, forall_mem_singleton]
        exact ⟨⟨⟨quoted _, header⟩, forall_isFault_iff.mp here⟩, mark _⟩
      cases parts with
      | nil => simpa using part
      | cons q parts =>
        rw [map_cons, map_cons, intercalate_cons_cons, ← map_cons]
        simp only [forall_mem_append, forall_mem_singleton]
        exact ⟨⟨part, mark _⟩, ih later⟩
  have footer : ∀ w ∈ footerWords entry, w.1.isReadable = true := by
    simp only [footerWords, cons_append, forall_mem_cons, forall_mem_append]
    exact ⟨mark _, mark _, quoted _, mark _, mark _, by simp⟩
  have loader := loader_spec.1
  rw [← words_scan] at loader
  simp only [bundleWords, forall_mem_append]
  exact ⟨⟨loader, table⟩, footer⟩

theorem openAfter_words {p : Part}
    (balanced : Balanced ((significant (scan p.code)).map Token.kind)) (stack : List Bracket) :
    openAfter stack (p.words.map Prod.fst) = some stack := by
  obtain ⟨value, quote⟩ := exists_words_quote p.id
  have opened : openAfter stack (headerWords.map Prod.fst) = some (.curly :: stack) := rfl
  rw [Part.words, quote, map_append, map_append, map_append, map_fst_words,
    append_assoc, append_assoc, openAfter_append, map_singleton,
    openAfter_plain _ _ (by rfl), openAfter, Option.bind_some, openAfter_append, opened,
    Option.bind_some, openAfter_append, balanced.openAfter_eq]
  exact openAfter_closing stack [] .curly

/-- The table of modules is balanced if they are. -/
theorem openAfter_table
    (balanced : ∀ p ∈ parts, Balanced ((significant (scan p.code)).map Token.kind))
    (stack : List Bracket) :
    openAfter stack (([symbol ","].intercalate (parts.map Part.words)).map Prod.fst) =
      some stack := by
  induction parts with
  | nil => rfl
  | cons p parts ih =>
    obtain ⟨here, later⟩ := forall_mem_cons.mp balanced
    cases parts with
    | nil =>
      rw [map_singleton, intercalate_singleton]
      exact openAfter_words here stack
    | cons q parts =>
      rw [map_cons, map_cons, intercalate_cons_cons, ← map_cons, map_append, map_append,
        append_assoc, openAfter_append, openAfter_words here, Option.bind_some]
      exact ih later

/-- **Modules stay what they are.** The words of a bundle are those of the loader, those of each
module in order, with a comma between two of them, and those of the end. A module has the string of
its id, the words that open a function, the words of its own code and a closing brace. So a bundle
of codes that can be read can be shortened, and a bundle of balanced codes is balanced. -/
theorem words_render {parts : List Part}
    (ends : ∀ p ∈ parts, ∀ t ∈ scan p.code, t.kind.isFault = false) (entry : String) :
    words (scan (render parts entry)) = words (scan loader) ++
        [symbol ","].intercalate (parts.map fun p => words (scan (Json.quote p.id)) ++
          headerWords ++ words (scan p.code) ++ [symbol "\x7d"]) ++
        (symbol "\x7d" :: symbol "," :: words (scan (Json.quote entry)) ++
          [symbol ")", symbol ";"]) ∧
      (∀ s, ∃ value, words (scan (Json.quote s)) = [(.string value, Json.quote s)]) ∧
      (∃ out, Minify.minify (render parts entry) = .ok out) ∧
      ((∀ p ∈ parts, Balanced ((significant (scan p.code)).map Token.kind)) →
        Balanced ((significant (scan (render parts entry))).map Token.kind)) := by
  have whole := words_scan_render ends entry
  refine ⟨whole, exists_words_quote, Minify.exists_minify (forall_isFault_iff.mpr ?_), ?_⟩
  · rw [whole]
    exact isReadable_bundleWords ends entry
  · intro balanced
    obtain ⟨value, quote⟩ := exists_words_quote entry
    have closed : openAfter [.curly, .round] ((footerWords entry).map Prod.fst) = some [] := by
      rw [footerWords, quote]
      rfl
    rw [balanced_iff_openAfter, ← map_fst_words, whole, bundleWords, map_append,
      map_append, append_assoc, openAfter_append, loader_spec.2, Option.bind_some,
      openAfter_append, openAfter_table balanced, Option.bind_some, closed]

/-- Codes that could go on into the text around them: a regular expression at the start, a comment
up to the end, a brace in a string. -/
def edgeParts : List Part :=
  [⟨"./a.js", "/[(]/.test(b) // \x7b"⟩, ⟨"./b.js", "'\x7d'"⟩]

theorem words_render_edgeParts :
    (∀ p ∈ edgeParts, ∀ t ∈ scan p.code, t.kind.isFault = false) ∧
      (∃ out, Minify.minify (render edgeParts "./a.js") = .ok out) ∧
      Balanced ((significant (scan (render edgeParts "./a.js"))).map Token.kind) := by
  have checked : ∀ p ∈ edgeParts, (∀ t ∈ scan p.code, t.kind.isFault = false) ∧
      openAfter [] ((significant (scan p.code)).map Token.kind) = some [] := by
    decide +kernel
  have ends : ∀ p ∈ edgeParts, ∀ t ∈ scan p.code, t.kind.isFault = false :=
    fun p member => (checked p member).1
  obtain ⟨_, _, shortened, balanced⟩ := words_render ends "./a.js"
  exact ⟨ends, shortened,
    balanced fun p member => balanced_iff_openAfter.mpr (checked p member).2⟩

end Bundle
end Tarkib
