import Tarkib.Proofs.Compile.ImportSyntax
import Tarkib.Proofs.Compile.Translation

/-!
# Keys of objects

A name between a brace or a comma and a colon is a key, and keys are not translated. But a statement
may start behind a brace, too, and that is looked at first: a key directly behind the brace that is
spelled like a word for imports or exports is taken for the start of a declaration. There is a colon
behind it, so that the declaration is malformed. The word is copied then as well, and a problem is
reported. Behind a comma no statement starts.
-/

namespace Tarkib.Compile

open Token Tarkib.Bundle Tarkib.Text List

variable {ls : List Lexeme} {problems : List Problem} {options : Options} {marks : Bool}
  {l : Lexeme} {keys : List Identifier} {source text : String}

/-! ## The declaration of an object -/

/-- The entries of an object with the given keys, as they are written. -/
def entriesText (keys : List Identifier) : String :=
  String.intercalate ", " (keys.map fun key => key.val ++ ": 1")

/-- The declaration of an object with the given keys, behind its keyword. -/
def objectText (keys : List Identifier) : String :=
  " о = \x7b " ++ entriesText keys ++ " \x7d;"

def restText : List Identifier → String
  | [] => ": 1" ++ " " ++ "\x7d" ++ ";"
  | key :: keys => ": 1" ++ "," ++ " " ++ (key.val ++ restText keys)

theorem objectText_cons (key : Identifier) (keys : List Identifier) :
    objectText (key :: keys) = " о = \x7b " ++ (key.val ++ restText keys) := by
  have entries : entriesText (key :: keys) ++ " \x7d;" = key.val ++ restText keys := by
    induction keys generalizing key with
    | nil =>
      rw [entriesText, map_singleton, String.intercalate_singleton, String.append_assoc]
      rfl
    | cons next keys ih =>
      have comma : ", " = "," ++ " " := rfl
      have further := ih next
      rw [entriesText, map_cons] at further
      rw [entriesText, map_cons, map_cons, String.intercalate_cons_cons,
        String.append_assoc, further, restText, comma]
      simp only [String.append_assoc]
  rw [objectText, String.append_assoc, entries]

def one : Kind × String :=
  (.number, "1")

def restWords : List Identifier → List (Kind × String)
  | [] => [symbol ":", one, symbol "\x7d", symbol ";"]
  | key :: keys => [symbol ":", one, symbol ",", name key] ++ restWords keys

theorem reads_value (stop : Char) (stops : stop ∈ stops) {vs : List (Kind × String)}
    (last : Reads (String.singleton stop) vs) :
    Reads (": 1" ++ String.singleton stop) ([symbol ":", one] ++ vs) := by
  have computed : '/' ∉ ": 1".toList ∧ wordsOf true ": 1".toList = [symbol ":", one] := by
    decide +kernel
  exact reads_append_stop stops computed.1 computed.2 (by decide) last

theorem reads_restText (keys : List Identifier) : Reads (restText keys) (restWords keys) := by
  induction keys with
  | nil =>
    have brace : Reads "\x7d" [symbol "\x7d"] := reads_symbol (by decide)
    have semicolon : Reads ";" [symbol ";"] := reads_symbol (by decide)
    have value : Reads (": 1" ++ " ") [symbol ":", one] := reads_value ' ' (by decide) reads_space
    exact (value.append brace).append semicolon
  | cons key keys ih =>
    have comma : Reads "," [symbol ","] := reads_symbol (by decide)
    have value : Reads (": 1" ++ ",") [symbol ":", one, symbol ","] :=
      reads_value ',' (by decide) comma
    have starts : (restText keys).toList.head? = some ':' := by
      cases keys <;> simp [restText]
    have entry := (readsApart_name key.property).append ih starts (by decide)
    exact (value.append reads_space).append entry

theorem noFeed_identifier (key : Identifier) : '\n' ∉ key.val.toList := by
  have feed : isIdentifierPart '\n' = false := (stops_spec (by decide)).1
  have name := key.property
  rw [isName] at name
  cases letters : key.val.toList with
  | nil => exact not_mem_nil
  | cons c body =>
    rw [letters, Bool.and_eq_true, all_eq_true, opensName_iff] at name
    have first : isIdentifierPart c = true := by simp [isIdentifierPart, name.1.1]
    rw [mem_cons, not_or]
    constructor
    · rintro rfl
      simp [feed] at first
    · intro inside
      have part := name.2 _ inside
      simp [feed] at part

theorem noFeed_restText (keys : List Identifier) : '\n' ∉ (restText keys).toList := by
  induction keys with
  | nil => decide
  | cons key keys ih =>
    simp only [restText, String.toList_append, mem_append, not_or]
    exact ⟨⟨⟨by decide, by decide⟩, by decide⟩, noFeed_identifier key, ih⟩

theorem openAfter_restWords (keys : List Identifier) :
    openAfter [.curly] ((restWords keys).map Prod.fst) = some [] := by
  have value : KeepsOpen [symbol ":", one] := (keepsOpen_nil.cons rfl).cons rfl
  induction keys with
  | nil =>
    have split : restWords [] = [symbol ":", one] ++ [symbol "\x7d", symbol ";"] := rfl
    rw [split, map_append, openAfter_append, value, Option.bind_some]
    rfl
  | cons key keys ih =>
    have entry : KeepsOpen [symbol ",", name key] := (keepsOpen_nil.cons rfl).cons rfl
    have split : restWords (key :: keys) =
        [symbol ":", one] ++ [symbol ",", name key] ++ restWords keys := rfl
    rw [split, map_append, openAfter_append, value.append entry, Option.bind_some, ih]

/-! ## Scanning -/

def openingTokens : List Token := [
  ⟨.identifier "собит", "собит", 0⟩, ⟨.blank, " ", 10⟩, ⟨.identifier "о", "о", 11⟩,
  ⟨.blank, " ", 13⟩, ⟨.punct "=", "=", 14⟩, ⟨.blank, " ", 15⟩, ⟨.punct "\x7b", "\x7b", 16⟩,
  ⟨.blank, " ", 17⟩]

theorem scanFrom_spaced {operand : Bool} {c : Char} {body : List Char} (kind : Kind)
    (alone : Token.read operand c body = ⟨kind, body.length⟩) (word : kind.isReadable = true)
    (noSlash : c ≠ '/') {rest : List Char} (starts : rest.head?.any isSpace = false)
    (start : Nat) :
    scanFrom operand start (c :: body ++ ' ' :: rest) =
      ⟨kind, String.ofList (c :: body), start⟩ ::
        ⟨.blank, " ", start + (String.ofList (c :: body)).utf8ByteSize⟩ ::
        scanFrom kind.precedesExpression
          (start + (String.ofList (c :: body)).utf8ByteSize + 1) rest := by
  have readable : (Token.read operand c body).value.isReadable = true := by rw [alone]; exact word
  have ends : (Token.read operand c body).value.isFault = false := by
    rw [alone]
    cases kind <;> first | rfl | cases word
  have inside : Token.read operand c (body ++ ' ' :: rest) = ⟨kind, body.length⟩ := by
    rw [read_append_stop (by decide) (noSpace_of_readable readable) ends (.inr noSlash), alone]
  have space : isSpace ' ' = true := by decide
  have blank : Token.read kind.precedesExpression ' ' ([] ++ rest) =
      ⟨.blank, ([] : List Char).length⟩ := by
    rw [any_head?_eq_false_iff] at starts
    simp [Token.read, space, starts]
  rw [scanFrom_of_read inside, if_pos (Kind.isSignificant_of_isReadable word)]
  exact congrArg _ (scanFrom_of_read blank _)

theorem scan_object (key : Identifier) (keys : List Identifier) :
    ∃ operand start, scan ("собит" ++ objectText (key :: keys)) =
      openingTokens ++ ⟨.identifier key.val, key.val, 18⟩ ::
        scanFrom operand start (restText keys).toList := by
  obtain ⟨c, body, spelled, opens, readKey⟩ := read_of_isName key.property
  have noSpace : isSpace c = false := (opensName_iff.mp opens).2.1
  have starts : (restText keys).toList.head?.any isIdentifierPart = false := by
    have colon : isIdentifierPart ':' = false := (stops_spec (by decide)).1
    cases keys <;> simp [restText, colon]
  have letters : ("собит" ++ objectText (key :: keys)).toList =
      'с' :: "обит".toList ++ ' ' :: ('о' :: [] ++ ' ' :: ('=' :: [] ++ ' ' :: ('\x7b' :: [] ++
        ' ' :: (c :: body ++ (restText keys).toList)))) := by
    rw [objectText_cons, spelled]
    simp
  have apart : isSpace 'о' = false ∧ isSpace '=' = false ∧ isSpace '\x7b' = false := by
    decide
  -- What follows is a variable, so the words in front of it are read one by one.
  rw [scan, letters,
    scanFrom_spaced (.identifier "собит") (by decide) rfl (by decide) (by exact apart.1),
    scanFrom_spaced (.identifier "о") (by decide) rfl (by decide) (by exact apart.2.1),
    scanFrom_spaced (.punct "=") (by decide +kernel) rfl (by decide) (by exact apart.2.2),
    scanFrom_spaced (.punct "\x7b") (by decide +kernel) rfl (by decide) (by exact noSpace),
    scanFrom_of_read (readKey _ _ starts), ← spelled]
  exact ⟨_, _, rfl⟩

/-! ## What lowering yields -/

/-- The items write the text and report the problems, they export no names, and they mark the module
as one with exports or not. -/
structure Yields (items : List Item) (text : String) (problems : List Problem) (marks : Bool) :
    Prop where
  text_eq : written (items.flatMap Item.segments) = text
  problems_eq : items.flatMap Item.problems = problems
  exports_eq : items.flatMap Item.exports = []
  marks_eq : items.any Item.isExport = marks

theorem yields_nil : Yields [] "" [] false :=
  ⟨rfl, rfl, rfl, rfl⟩

section Yields

variable {ctx : Context} {before : List Token} {number : Nat} {rest : List Lexeme}
  (further : Yields (lowerFrom ctx (l.token :: before) number rest) text problems marks)
include further

theorem Yields.token (token : startsDeclaration before l rest = false)
    (writable : isWritable l.token.kind = true) :
    Yields (lowerFrom ctx before number (l :: rest))
      (l.lead ++ tokenText ctx before (rest.head?.map Lexeme.token) l.token ++ text) problems
      marks := by
  rw [lowerFrom_of_token ctx number token]
  have copies : (lowerToken ctx before l (rest.head?.map Lexeme.token)).Copies :=
    copies_lowerToken before _ writable
  constructor
  · rw [flatMap_cons, segments_of_copies copies, written_append, further.text_eq]
    simp [Segment.text]
  · rw [flatMap_cons, copies.1, further.problems_eq, nil_append]
  · rw [flatMap_cons, (exports_lowerToken _).1, further.exports_eq, nil_append]
  · rw [any_cons, (exports_lowerToken _).2, further.marks_eq, Bool.false_or]

/-- A word that is no name is copied. -/
theorem Yields.copied (noName : l.token.name? = none) (writable : isWritable l.token.kind = true) :
    Yields (lowerFrom ctx before number (l :: rest)) (l.lead ++ l.token.text ++ text) problems
      marks := by
  have copied : tokenText ctx before (rest.head?.map Lexeme.token) l.token = l.token.text := by
    unfold Token.name? at noName
    unfold tokenText
    cases kind : l.token.kind with
    | identifier name => simp [kind] at noName
    | _ => rfl
  have whole := further.token (startsDeclaration_of_name noName) writable
  rwa [copied] at whole

theorem Yields.name {name spelled : String} (word : l.token.kind = .identifier name)
    (token : startsDeclaration before l rest = false)
    (translated : identifierText ctx before (rest.head?.map Lexeme.token) name = spelled) :
    Yields (lowerFrom ctx before number (l :: rest)) (l.lead ++ spelled ++ text) problems
      marks := by
  have same : tokenText ctx before (rest.head?.map Lexeme.token) l.token = spelled := by
    rw [tokenText, word, ← translated]
  have whole := further.token token (by rw [word]; rfl)
  rwa [same] at whole

/-- A key is copied, whatever name it is. -/
theorem Yields.key {name : String} (word : l.token.kind = .identifier name)
    (token : startsDeclaration before l rest = false) (noMember : afterDot before = false)
    (key : isKey before (rest.head?.map Lexeme.token) = true) :
    Yields (lowerFrom ctx before number (l :: rest)) (l.lead ++ name ++ text) problems marks :=
  further.name word token (by simp [identifierText, noMember, key])

/-- A malformed declaration is copied and reported. -/
theorem Yields.malformed {kind : DeclarationKind} {mark : Bool}
    (first : lowerFirst ctx before number l rest = { item := malformed ctx l kind mark }) :
    Yields (lowerFrom ctx before number (l :: rest)) (l.lead ++ l.token.text ++ text)
      (.malformed (ctx.position l.token) kind :: problems) (mark || marks) := by
  have items : lowerFrom ctx before number (l :: rest) =
      Compile.malformed ctx l kind mark :: lowerFrom ctx (l.token :: before) number rest := by
    rw [lowerFrom, first]
    simp
  rw [items]
  constructor
  · rw [flatMap_cons, written_append, further.text_eq]
    simp [Compile.malformed, Segment.text]
  · rw [flatMap_cons, further.problems_eq]
    rfl
  · rw [flatMap_cons, further.exports_eq]
    rfl
  · rw [any_cons, further.marks_eq]
    rfl

end Yields

/-- What stands in front of the code of a module with exports. -/
def exportMark (marks : Bool) : String :=
  if marks then "Object.defineProperty(exports, \"__esModule\", \x7b value: true \x7d); " else ""

theorem Yields.code_eq (yields : Yields (moduleItems options source) text problems marks)
    (loose : options.strict = false) :
    (lowerModule options source).code =
      exportMark marks ++ (text ++ (Lexeme.splitFrom "" (scan source)).2) := by
  have header : (lowerModule options source).header = exportMark marks := by
    rw [← yields.marks_eq]
    change (if options.strict then _ else _) ++ _ = _
    rw [loose, if_neg Bool.false_ne_true, String.empty_append]
    rfl
  rw [code_of_exports_nil yields.exports_eq, header, yields.text_eq]

theorem Yields.problems_of_brackets
    (yields : Yields (moduleItems options source) text problems marks)
    (brackets : bracketFaults [] (significant (scan source)) = []) :
    (lowerModule options source).problems = problems := by
  rw [problems_lowerModule, brackets, yields.problems_eq, yields.exports_eq]
  simp [splitExports]

/-! ## Lowering the object -/

theorem spell_lexemes {w : Kind × String} {ws : List (Kind × String)}
    (spell : Spell (ls.map Lexeme.token) (w :: ws)) :
    ∃ lead start more, ls = ⟨lead, ⟨w.1, w.2, start⟩⟩ :: more ∧
      Spell (more.map Lexeme.token) ws := by
  obtain ⟨start, us, split, rest⟩ := spell_cons.mp spell
  obtain ⟨⟨lead, t⟩, more, rfl, first, rfl⟩ := map_eq_cons_iff.mp split
  dsimp only at first
  subst first
  exact ⟨lead, start, more, rfl, rest⟩

theorem exists_colon (spell : Spell (ls.map Lexeme.token) (restWords keys)) :
    ∃ lead start more, ls = ⟨lead, ⟨.punct ":", ":", start⟩⟩ :: more := by
  have colon : ∃ ws, restWords keys = symbol ":" :: ws := by cases keys <;> exact ⟨_, rfl⟩
  obtain ⟨ws, split⟩ := colon
  rw [split] at spell
  obtain ⟨lead, start, more, rfl, _⟩ := spell_lexemes spell
  exact ⟨lead, start, more, rfl⟩

/-- Behind a comma no declaration starts. -/
theorem startsDeclaration_comma (flat : '\n' ∉ l.lead.toList) (start : Nat) (before : List Token)
    (rest : List Lexeme) :
    startsDeclaration (⟨.punct ",", ",", start⟩ :: before) l rest = false := by
  have sameLine : l.startsLine = false := by
    rw [Lexeme.startsLine, String.contains_char_eq]
    simpa using flat
  simp [startsDeclaration, startsStatement, sameLine, Token.isPunct]

theorem yields_rest (ctx : Context) (number : Nat) (keys : List Identifier) (before : List Token)
    (spell : Spell (ls.map Lexeme.token) (restWords keys)) (flat : '\n' ∉ (covered ls).toList) :
    Yields (lowerFrom ctx before number ls) (covered ls) [] false := by
  induction keys generalizing before ls with
  | nil =>
    obtain ⟨_, _, _, rfl, behindColon⟩ := spell_lexemes spell
    obtain ⟨_, _, _, rfl, behindValue⟩ := spell_lexemes behindColon
    obtain ⟨_, _, _, rfl, behindBrace⟩ := spell_lexemes behindValue
    obtain ⟨_, _, _, rfl, atEnd⟩ := spell_lexemes behindBrace
    rw [spell_nil, map_eq_nil_iff] at atEnd
    subst atEnd
    simp only [covered_cons]
    refine Yields.copied (.copied (.copied (.copied ?_ rfl rfl) rfl rfl) rfl rfl) rfl rfl
    rw [lowerFrom]
    exact yields_nil
  | cons key keys ih =>
    obtain ⟨_, _, _, rfl, behindColon⟩ := spell_lexemes spell
    obtain ⟨_, _, _, rfl, behindValue⟩ := spell_lexemes behindColon
    obtain ⟨_, _, _, rfl, behindComma⟩ := spell_lexemes behindValue
    obtain ⟨_, _, _, rfl, behindKey⟩ := spell_lexemes behindComma
    simp only [covered_cons] at flat ⊢
    simp only [String.toList_append, mem_append, not_or] at flat
    obtain ⟨_, _, _, ⟨leadFlat, _⟩, moreFlat⟩ := flat
    obtain ⟨_, _, _, rfl⟩ := exists_colon behindKey
    -- The key is on the line of its comma, so no statement starts there.
    refine Yields.copied (.copied (.copied (.key ?_ rfl ?_ rfl rfl) rfl rfl) rfl rfl) rfl rfl
    · exact ih _ behindKey moreFlat
    · exact startsDeclaration_comma leadFlat _ _ _

def keyProblems (key : String) (position : Position) : List Problem :=
  if key ∈ importWords then [.malformed position .imports]
  else if key ∈ exportWords then [.malformed position .exports]
  else []

section FirstKey

variable (ctx : Context) (before : List Token) (number brace : Nat)

section Colon

variable {lead : String} {start : Nat} {more : List Lexeme}

theorem startsImport_colon :
    startsImport l (⟨lead, ⟨.punct ":", ":", start⟩⟩ :: more) = l.token.isWord importWords :=
  Bool.and_true _

theorem lowerFirst_import (word : l.token.isWord importWords = true) :
    lowerFirst ctx (⟨.punct "\x7b", "\x7b", brace⟩ :: before) number l
      (⟨lead, ⟨.punct ":", ":", start⟩⟩ :: more) = { item := malformed ctx l .imports false } := by
  rw [lowerFirst, startsImport_colon, word]
  rfl

theorem lowerFirst_export (noImport : l.token.isWord importWords = false)
    (word : l.token.isWord exportWords = true) :
    lowerFirst ctx (⟨.punct "\x7b", "\x7b", brace⟩ :: before) number l
      (⟨lead, ⟨.punct ":", ":", start⟩⟩ :: more) = { item := malformed ctx l .exports true } := by
  rw [lowerFirst, startsImport_colon, noImport, word]
  rfl

end Colon

theorem yields_firstKey (key : Identifier) (start : Nat)
    (spell : Spell (ls.map Lexeme.token) (restWords keys)) (flat : '\n' ∉ (covered ls).toList) :
    let t : Token := ⟨.identifier key.val, key.val, start⟩
    Yields (lowerFrom ctx (⟨.punct "\x7b", "\x7b", brace⟩ :: before) number (⟨" ", t⟩ :: ls))
      (" " ++ key.val ++ covered ls) (keyProblems key.val (ctx.position t))
      (decide (key.val ∈ exportWords)) := by
  intro t
  have further :=
    yields_rest ctx number keys (t :: ⟨.punct "\x7b", "\x7b", brace⟩ :: before) spell flat
  obtain ⟨lead, colon, more, rfl⟩ := exists_colon spell
  have isWord (names : List String) : t.isWord names = decide (key.val ∈ names) :=
    contains_eq_mem _ _
  -- Behind the brace a statement starts, so the words for declarations are looked for first.
  by_cases imports : key.val ∈ importWords
  · have apart : ∀ word ∈ importWords, word ∉ exportWords := by decide
    rw [keyProblems, if_pos imports, decide_eq_false (apart _ imports)]
    exact further.malformed (lowerFirst_import _ _ _ _ (by rw [isWord, decide_eq_true imports]))
  · by_cases exports : key.val ∈ exportWords
    · rw [keyProblems, if_neg imports, if_pos exports, decide_eq_true exports]
      exact further.malformed (lowerFirst_export _ _ _ _ (by rw [isWord, decide_eq_false imports])
        (by rw [isWord, decide_eq_true exports]))
    · rw [keyProblems, if_neg imports, if_neg exports, decide_eq_false exports]
      refine further.key rfl ?_ rfl rfl
      simp [startsDeclaration, startsImport, isWord, imports, exports]

end FirstKey

/-! ## The object in a module -/

def openingLexemes : List Lexeme := [
  ⟨"", ⟨.identifier "собит", "собит", 0⟩⟩, ⟨" ", ⟨.identifier "о", "о", 11⟩⟩,
  ⟨" ", ⟨.punct "=", "=", 14⟩⟩, ⟨" ", ⟨.punct "\x7b", "\x7b", 16⟩⟩]

theorem splitFrom_object (key : Identifier) (keys : List Identifier) :
    ∃ ls trailing, Lexeme.splitFrom "" (scan ("собит" ++ objectText (key :: keys))) =
        (openingLexemes ++ ⟨" ", ⟨.identifier key.val, key.val, 18⟩⟩ :: ls, trailing) ∧
      Spell (ls.map Lexeme.token) (restWords keys) ∧ covered ls ++ trailing = restText keys := by
  obtain ⟨operand, start, scanned⟩ := scan_object key keys
  let tail := scanFrom operand start (restText keys).toList
  refine ⟨(Lexeme.splitFrom "" tail).1, (Lexeme.splitFrom "" tail).2, ?_, ?_, ?_⟩
  · rw [scanned]
    rfl
  · have words := reads_restText keys operand []
    rw [wordsOf_nil, append_nil, append_nil, ← words_scanFrom operand start] at words
    rw [Lexeme.token_splitFrom]
    exact words
  · rw [Lexeme.covered_splitFrom, String.empty_append, ← String.toList_inj]
    exact toList_concat_scanFrom operand start _

theorem yields_opening {ctx : Context} (somon : ctx.inSomon = true) {rest : List Lexeme}
    {text : String} (further : Yields
      (lowerFrom ctx (openingLexemes.map Lexeme.token).reverse 0 rest) text problems marks) :
    Yields (lowerFrom ctx [] 0 (openingLexemes ++ rest)) ("const о = \x7b" ++ text) problems
      marks := by
  have translated : keywords.lookup "собит" = some "const" ∧ keywords.lookup "о" = none := by
    decide
  have whole : Yields (lowerFrom ctx [] 0 (openingLexemes ++ rest))
      ("" ++ "const" ++ (" " ++ "о" ++ (" " ++ "=" ++ (" " ++ "\x7b" ++ text)))) problems
      marks := by
    refine .name (.name ((further.copied rfl rfl).copied rfl rfl) rfl ?_ ?_) rfl ?_ ?_
    · exact startsDeclaration_of_isSimple (by decide) _ _
    · simp [identifierText, afterDot, isDot, Token.isPunct, isKey, translated]
    · exact startsDeclaration_of_isSimple (by decide) _ _
    · simp [identifierText, afterDot, isKey, somon, translated]
  simpa [← String.append_assoc] using whole

/-- The entries of an object are written as they are, whatever names the keys are. -/
theorem yields_object (somon : options.kind = .somon) (key : Identifier) (keys : List Identifier) :
    let source := "собит" ++ objectText (key :: keys)
    ∃ text, text ++ (Lexeme.splitFrom "" (scan source)).2 = "const" ++ objectText (key :: keys) ∧
      Yields (moduleItems options source) text (keyProblems key.val ⟨1, 13⟩)
        (decide (key.val ∈ exportWords)) := by
  intro source
  obtain ⟨ls, trailing, split, spell, whole⟩ := splitFrom_object key keys
  have flat : '\n' ∉ (covered ls).toList := by
    have none := noFeed_restText keys
    rw [← whole, String.toList_append, mem_append, not_or] at none
    exact none.1
  have place : Position.ofOffset source 18 = ⟨1, 13⟩ := by
    have front : source.toList = "собит о = \x7b ".toList ++ (key.val ++ restText keys).toList := by
      rw [← String.toList_append]
      simp [source, objectText_cons]
    have size : byteLength "собит о = \x7b ".toList = 18 := by decide
    rw [Position.ofOffset, front, ← size, takeBytes_byteLength_append]
    decide
  have further := yields_firstKey ⟨source, options.target, options.kind == .somon⟩
    [⟨.punct "=", "=", 14⟩, ⟨.identifier "о", "о", 11⟩, ⟨.identifier "собит", "собит", 0⟩] 0 16 key
    18 spell flat
  refine ⟨"const о = \x7b" ++ (" " ++ key.val ++ covered ls), ?_, ?_⟩
  · rw [split, objectText_cons, ← whole]
    simp [← String.append_assoc]
  · rw [moduleItems, split, ← place]
    exact yields_opening (by rw [somon]; rfl) further

theorem bracketFaults_object (key : Identifier) (keys : List Identifier) :
    bracketFaults [] (significant (scan ("собит" ++ objectText (key :: keys)))) = [] := by
  obtain ⟨ls, trailing, split, spell, _⟩ := splitFrom_object key keys
  rw [bracketFaults_eq_nil_iff, balanced_iff_openAfter, ← Lexeme.token_splitFrom "", split]
  have kinds : (ls.map Lexeme.token).map Token.kind = (restWords keys).map Prod.fst := by
    rw [← spell]
    simp
  rw [map_append, map_append, map_cons, map_cons, kinds]
  exact openAfter_restWords keys

/-- **Only the first key of an object can be taken for something else.** Whatever names the keys
are, the declaration of an object is compiled to the same declaration with the keyword translated.
No problem is reported if and only if the first key is no word that starts imports or exports. With
such a word the declaration that it seems to start is reported as malformed, and if it is one for
exports, the module is marked as one that has exports. -/
theorem object_keys_kept_iff (options : Options) (somon : options.kind = .somon)
    (long : options.minify = false) (loose : options.strict = false) (key : Identifier)
    (keys : List Identifier) :
    let output := compile options ("собит" ++ objectText (key :: keys))
    (output.problems = [] ∧ output.code = "const" ++ objectText (key :: keys) ↔
        key.val ∉ importWords ∧ key.val ∉ exportWords) ∧
      output.problems.map Problem.message =
        (if key.val ∈ importWords then ["1:13: SyntaxError: malformed import declaration"]
        else if key.val ∈ exportWords then ["1:13: SyntaxError: malformed export declaration"]
        else []) ∧
      output.code = exportMark (decide (key.val ∈ exportWords)) ++
        ("const" ++ objectText (key :: keys)) := by
  intro output
  obtain ⟨text, whole, yields⟩ := yields_object somon key keys
  have code : output.code = exportMark (decide (key.val ∈ exportWords)) ++
      ("const" ++ objectText (key :: keys)) := by
    rw [← whole, ← yields.code_eq loose]
    exact code_compile (by rw [somon]; decide) long
  have problems : output.problems = keyProblems key.val ⟨1, 13⟩ := by
    rw [← yields.problems_of_brackets (bracketFaults_object key keys)]
    exact congrArg Output.problems (compile_eq_lowered (by rw [somon]; decide) long)
  refine ⟨?_, ?_, code⟩
  · rw [problems, code, keyProblems]
    split_ifs with imports exports
    · simp [imports]
    · simp [exports]
    · simp [imports, exports, exportMark]
  · rw [problems, keyProblems]
    split_ifs
    · rfl
    · rfl
    · rfl

/-- The same two keys in both orders: only as the first one the word for imports is reported. -/
theorem object_keys_kept_iff_import :
    (compile {} "собит о = \x7b import: 1, агар: 1 \x7d;").problems.map Problem.message =
        ["1:13: SyntaxError: malformed import declaration"] ∧
      (compile {} "собит о = \x7b агар: 1, import: 1 \x7d;").problems = [] ∧
      (compile {} "собит о = \x7b агар: 1, import: 1 \x7d;").code =
        "const о = \x7b агар: 1, import: 1 \x7d;" := by
  let word : Identifier := ⟨"import", by decide +kernel⟩
  let other : Identifier := ⟨"агар", by decide +kernel⟩
  have first := (object_keys_kept_iff {} rfl rfl rfl word [other]).2.1
  have second := (object_keys_kept_iff {} rfl rfl rfl other [word]).1.mpr (by decide)
  exact ⟨first, second⟩

end Tarkib.Compile
