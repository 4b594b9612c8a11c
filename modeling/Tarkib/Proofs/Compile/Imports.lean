import Tarkib.Proofs.Compile.ImportSyntax
import Tarkib.Proofs.Compile.Translation
import Tarkib.Proofs.Minify.Apart
import Tarkib.Proofs.Require.Words

/-!
# Imports become calls

An import declaration is lowered to statements that call `require`. Its text, and with it the text
of a whole module of imports, is put together from passages: texts whose words are known wherever
they stand, do not run together with those in front of them, and hold known specifiers. The words of
passages can be told apart without the blank space between them, so shortening the code keeps them.
-/

namespace Tarkib.Compile

open Token Tarkib.Bundle Minify Require Tarkib.Text List

variable {source value : String} {names : List Binding} {behind : List Char} {ls : List Lexeme}
  {l : Lexeme}

/-! ## Passages -/

/-- A text that is read as words which can follow any others, and among which the given specifiers
are found. -/
def Passage (text : String) (found : List String) : Prop :=
  ∃ ws, Reads text ws ∧ Loose ws ∧ Finds (ws.map Prod.fst) found

section Passage

variable {s t : String} {found found' : List String}

/-- Passages can be put one behind the other. -/
theorem Passage.append (first : Passage s found) (second : Passage t found') :
    Passage (s ++ t) (found ++ found') := by
  obtain ⟨us, reads, loose, finds⟩ := first
  obtain ⟨vs, reads', loose', finds'⟩ := second
  refine ⟨us ++ vs, reads.append reads', loose.append loose', ?_⟩
  rw [map_append]
  exact finds.append finds'

theorem passage_blank (blank : ∀ c ∈ s.toList, isSpace c = true) : Passage s [] :=
  ⟨[], reads_blanks blank, loose_nil, finds_nil⟩

theorem passage_empty : Passage "" [] :=
  ⟨[], reads_empty, loose_nil, finds_nil⟩

theorem passage_space : Passage " " [] :=
  ⟨[], reads_space, loose_nil, finds_nil⟩

theorem passage_symbol (mark : s ∈ marks.map String.singleton) : Passage s [] := by
  have checked : (marks.map String.singleton).all (fun text =>
      decide (Loose [symbol text]) && !rebindsKind (.punct text)) = true := by
    decide
  have here := all_eq_true.mp checked s mark
  rw [Bool.and_eq_true, decide_eq_true_iff, Bool.not_eq_true'] at here
  exact ⟨[symbol s], reads_symbol mark, here.1, finds_punct here.2⟩

def EndsName (text : String) : Prop :=
  ∃ d ws, text.toList.head? = some d ∧ d ∈ stops ∧ Reads text ws ∧ Chained ws ∧
    ∀ name, Finds (.identifier name :: ws.map Prod.fst) []

def namesEnd : List String :=
  ["=", ":", ",", ";", ")", "\x7d"]

theorem namesEnd_spec (mark : String) (plain : mark ∈ namesEnd) :
    Chained [symbol mark] ∧ Finds [.punct mark] [] ∧
      ∀ name, Finds [.identifier name, .punct mark] [] := by
  have checked : namesEnd.all (fun mark => decide (Chained [symbol mark]) &&
      !rebindsKind (.punct mark) && mark != "(") = true := by
    decide
  have here := all_eq_true.mp checked mark plain
  simp only [Bool.and_eq_true, decide_eq_true_eq, Bool.not_eq_true', bne_iff_ne] at here
  obtain ⟨⟨chained, noMember⟩, noCall⟩ := here
  exact ⟨chained, finds_punct noMember, fun name => finds_name name noMember noCall⟩

theorem endsName_of_reads {text mark : String} {d : Char} (starts : text.toList.head? = some d)
    (stop : d ∈ stops) (reads : Reads text [symbol mark]) (plain : mark ∈ namesEnd) :
    EndsName text := by
  obtain ⟨chained, _, finds⟩ := namesEnd_spec mark plain
  exact ⟨d, _, starts, stop, reads, chained, finds⟩

/-- A name is a passage where something follows that ends it. -/
theorem passage_name {name : String} (isName : isName name = true) (follows : EndsName t) :
    Passage (name ++ t) [] := by
  obtain ⟨d, ws, starts, stop, reads, chained, finds⟩ := follows
  obtain ⟨c, body, spelled, opens, _⟩ := read_of_isName isName
  have fresh : name.toList.head?.any isFresh = true := by
    rw [spelled, String.toList_ofList]
    exact isFresh_of_opensName opens
  exact ⟨_, (readsApart_name isName).append reads starts stop,
    chained.cons rfl (fun _ => by simp [Bundle.name]) fresh, finds name⟩

theorem reads_equals : Reads " = " [symbol "="] := by
  have equals : Reads ("=" ++ " ") [symbol "="] := reads_fixed_space (by simp [fixedTexts])
  have spaced := reads_space.append equals
  exact spaced

theorem endsName_equals : EndsName " = " :=
  endsName_of_reads rfl (by decide) reads_equals (by decide)

theorem endsName_colon : EndsName ": " := by
  have colon : Reads (":" ++ " ") [symbol ":"] := reads_fixed_space (by simp [fixedTexts])
  exact endsName_of_reads rfl (by decide) colon (by decide)

theorem endsName_comma : EndsName ", " :=
  endsName_of_reads rfl (by decide) reads_comma (by decide)

theorem endsName_semicolon : EndsName ";" :=
  endsName_of_reads rfl (by decide) (reads_symbol (by decide)) (by decide)

theorem endsName_parenthesis : EndsName ")" :=
  endsName_of_reads rfl (by decide) (reads_symbol (by decide)) (by decide)

theorem endsName_closing : EndsName " \x7d = " := by
  have whole := reads_closing.append reads_equals
  obtain ⟨_, _, brace⟩ := namesEnd_spec "\x7d" (by decide)
  obtain ⟨_, equals, _⟩ := namesEnd_spec "=" (by decide)
  exact ⟨' ', _, rfl, by decide, whole, by decide, fun name => (brace name).append equals⟩

end Passage

/-! ## The text of an import -/

/-- What is bound and imported is written properly: names are names, and the source is a literal
with the given value. -/
structure Import.Proper (d : Import) (value : String) : Prop where
  main : ∀ name ∈ d.main?, isName name = true
  whole : ∀ name ∈ d.whole?, isName name = true
  names : ∀ b ∈ d.names, isName b.outer = true ∧ isName b.inner = true
  source : IsLiteral d.source value

/-- A name that is exported under a key is a name. -/
theorem isName_exportName {text : String} (isName : isName text = true) :
    Token.isName (exportName text) = true := by
  unfold exportName
  split
  · decide
  · exact isName

theorem isName_main {clause : ImportClause} {bound : String} (found : clause.main? = some bound) :
    isName bound = true := by
  cases clause with
  | main name | both name _ =>
    obtain rfl := Option.some.inj found
    exact name.property.1
  | others _ => cases found

theorem isName_bindings (bindings : ImportBindings) :
    (∀ bound ∈ bindings.whole?, isName bound = true) ∧
      ∀ b ∈ bindings.list, isName b.outer = true ∧ isName b.inner = true := by
  cases bindings with
  | whole as_ bound => simp [ImportBindings.whole?, ImportBindings.list, bound.property]
  | listed names =>
    refine ⟨by simp [ImportBindings.whole?], fun b member => ?_⟩
    obtain ⟨⟨outer, inner?⟩, _, rfl⟩ := mem_map.mp member
    have lookup := isName_exportName outer.property
    cases inner? with
    | none => exact ⟨lookup, lookup⟩
    | some inner => exact ⟨lookup, inner.2.property⟩

/-- All names in a declaration are names, and its literal is one. -/
theorem proper_import (d : ImportDeclaration) : d.import_.Proper d.source.value where
  main bound found := by
    obtain ⟨clause, _, main⟩ := Option.bind_eq_some_iff.mp found
    exact isName_main main
  whole bound found := by
    obtain ⟨bindings, _, whole⟩ := Option.bind_eq_some_iff.mp found
    exact (isName_bindings bindings).1 bound whole
  names b member := by
    rw [ImportDeclaration.import_] at member
    cases found : d.clause?.bind (·.1.bindings?) with
    | none => simp [found] at member
    | some bindings => exact (isName_bindings bindings).2 b (by simpa [found] using member)
  source := d.source.isLiteral

theorem isName_shared (number : Nat) : isName s!"__somon_import_{number}" = true := by
  have letters : (s!"__somon_import_{number}").toList =
      '_' :: ("_somon_import_".toList ++ Nat.toDigits 10 number) := by
    change ("__somon_import_" ++ toString number).toList = _
    simp
  have fixed : opensName '_' = true ∧ "_somon_import_".toList.all isIdentifierPart = true := by
    decide
  have digits : (Nat.toDigits 10 number).all isIdentifierPart = true := by
    rw [all_eq_true]
    intro c member
    simp [isIdentifierPart, Nat.isDigit_of_mem_toDigits (by decide) (by decide) member]
  rw [isName, letters]
  simp only [fixed.1, all_append, fixed.2, digits, Bool.and_self]

theorem passage_const : Passage "const " [] := by
  have isConst : isName "const" = true := by decide
  refine ⟨_, (readsApart_name isConst).spaced, by decide, fun rest => ?_⟩
  exact specifiersOf_cons_of_ne (by decide) false rest

/-- A call of `require` holds the specifier of its literal. -/
theorem passage_call (literal : IsLiteral source value) :
    Passage ("require(" ++ source ++ ")") [value] := by
  have isRequire : isName "require" = true := by decide
  have opening : Reads "(" [symbol "("] := reads_symbol (by decide)
  have closing : Reads ")" [symbol ")"] := reads_symbol (by decide)
  have word := (readsApart_name isRequire).append opening (d := '(') rfl (by decide)
  obtain ⟨c, body, letters, quote, _⟩ := literal.exists_read
  have loose : Loose [name "require", symbol "(", (.string value, source), symbol ")"] := by
    have final : isFinal "(" = true := by decide
    have inner : Chained [symbol "(", (.string value, source), symbol ")"] := by
      constructor
      · simp [symbol, isBasic]
      · simp [staysBefore, symbol, final]
    exact inner.cons rfl (by simp [name]) (by decide)
  exact ⟨_, (word.append literal.reads).append closing, loose, finds_call value⟩

theorem passage_defaultOf : Passage Import.defaultOf [] := by
  have closing : Reads (String.singleton ')') [symbol ")"] := reads_mark (by decide)
  have reads := reads_fixed ')' (mem_of_getElem? (i := 3) (by rfl)) (by decide) closing
  refine ⟨_, reads, by decide, fun rest => ?_⟩
  rfl

/-! ### Statements -/

def Expression (text : String) (found : List String) : Prop :=
  Passage (text ++ ";") found ∧ Passage (text ++ ")") found

theorem expression_call (literal : IsLiteral source value) :
    Expression ("require(" ++ source ++ ")") [value] := by
  have call := passage_call literal
  exact ⟨call.append (passage_symbol (by decide)), call.append (passage_symbol (by decide))⟩

/-- The name that several statements share for a module is an expression without specifiers. -/
theorem expression_shared (number : Nat) : Expression s!"__somon_import_{number}" [] :=
  ⟨passage_name (isName_shared number) endsName_semicolon,
    passage_name (isName_shared number) endsName_parenthesis⟩

section Statements

variable {found : List String}

/-- The statement that binds a whole module. -/
theorem passage_whole {name : String} (isName : isName name = true)
    (expression : Expression value found) : Passage s!"const {name} = {value};" found := by
  have whole := (passage_const.append (passage_name isName endsName_equals)).append expression.1
  change Passage ("const " ++ name ++ " = " ++ value ++ ";") found
  simpa [String.append_assoc] using whole

/-- The statement that binds the default export. -/
theorem passage_main {name : String} (isName : isName name = true)
    (expression : Expression value found) :
    Passage s!"const {name} = {Import.defaultOf}({value});" found := by
  have opening : Passage "(" [] := passage_symbol (by decide)
  have semicolon : Passage ";" [] := passage_symbol (by decide)
  have function := passage_defaultOf.append opening
  have whole := (passage_const.append (passage_name isName endsName_equals)).append
    ((function.append expression.2).append semicolon)
  change Passage ("const " ++ name ++ " = " ++ Import.defaultOf ++ "(" ++ value ++ ");") found
  have split : ");" = ")" ++ ";" := rfl
  rw [split]
  simpa [String.append_assoc] using whole

theorem passage_field {b : Binding} {t : String} (outer : isName b.outer = true)
    (inner : isName b.inner = true) (follows : EndsName t) : Passage (Import.field b ++ t) [] := by
  unfold Import.field
  split
  · exact passage_name inner follows
  · have whole := (passage_name outer endsName_colon).append (passage_name inner follows)
    change Passage (b.outer ++ ": " ++ b.inner ++ t) []
    simpa [String.append_assoc] using whole

theorem passage_fields (written : names ≠ [])
    (proper : ∀ b ∈ names, isName b.outer = true ∧ isName b.inner = true) :
    Passage (String.intercalate ", " (names.map Import.field) ++ " \x7d = ") [] := by
  induction names with
  | nil => exact absurd rfl written
  | cons b names ih =>
    obtain ⟨here, later⟩ := forall_mem_cons.mp proper
    cases names with
    | nil => exact passage_field here.1 here.2 endsName_closing
    | cons next names =>
      have rest := ih (cons_ne_nil _ _) later
      have whole := (passage_field here.1 here.2 endsName_comma).append rest
      simpa [String.intercalate_cons_cons, String.append_assoc] using whole

/-- The statement that binds a list of names. -/
theorem passage_names (written : names ≠ [])
    (proper : ∀ b ∈ names, isName b.outer = true ∧ isName b.inner = true)
    (expression : Expression value found) {fields : String}
    (listed : fields = String.intercalate ", " (names.map Import.field)) :
    Passage s!"const \x7b {fields} \x7d = {value};" found := by
  have brace : Passage "\x7b" [] := passage_symbol (by decide)
  have opening := passage_const.append (brace.append passage_space)
  have fields' := passage_fields written proper
  rw [← listed] at fields'
  have whole := (opening.append fields').append expression.1
  change Passage ("const \x7b " ++ fields ++ " \x7d = " ++ value ++ ";") found
  simpa [String.append_assoc] using whole

end Statements

def Import.statements (d : Import) (value : String) (number : Nat) : List (String × List String) :=
  let call := s!"require({d.source})"
  let shared := s!"__somon_import_{number}"
  let expression := if d.isShared then shared else call
  let found := if d.isShared then [] else [value]
  let names := String.intercalate ", " (d.names.map field)
  (if d.isShared then [(s!"const {shared} = {call};", [value])] else [])
    ++ d.whole?.toList.map (fun name => (s!"const {name} = {expression};", found))
    ++ d.main?.toList.map (fun name => (s!"const {name} = {defaultOf}({expression});", found))
    ++ (if d.names.isEmpty then [] else [(s!"const \x7b {names} \x7d = {expression};", found)])

section Lower

variable {d : Import}

/-- A declaration that binds something is lowered to its statements. -/
theorem lower_of_bindings (value : String) (bound : d.bindingCount ≠ 0) (number : Nat) :
    d.lower number = String.intercalate " " ((d.statements value number).map Prod.fst) := by
  rw [Import.lower, if_neg bound]
  simp only [Import.statements, map_append, map_map, Function.comp_def]
  congr 1
  split <;> split <;> rfl

/-- The statements of a declaration hold its specifier once. -/
theorem flatMap_statements (value : String) (bound : d.bindingCount ≠ 0) (number : Nat) :
    (d.statements value number).flatMap Prod.snd = [value] := by
  obtain ⟨main?, whole?, names, source⟩ := d
  cases main? <;> cases whole? <;> cases names <;>
    simp_all [Import.statements, Import.isShared, Import.bindingCount]

theorem passage_statements (proper : d.Proper value) (number : Nat) :
    ∀ part ∈ d.statements value number, Passage part.1 part.2 := by
  have expression : Expression
      (if d.isShared then s!"__somon_import_{number}" else s!"require({d.source})")
      (if d.isShared then [] else [value]) := by
    split
    · exact expression_shared number
    · exact expression_call proper.source
  simp only [Import.statements, forall_mem_append]
  refine ⟨⟨⟨?_, ?_⟩, ?_⟩, ?_⟩
  · split
    · exact forall_mem_singleton.mpr
        (passage_whole (isName_shared number) (expression_call proper.source))
    · exact forall_mem_nil _
  · intro part member
    obtain ⟨name, found, rfl⟩ := mem_map.mp member
    exact passage_whole (proper.whole name (Option.mem_toList.mp found)) expression
  · intro part member
    obtain ⟨name, found, rfl⟩ := mem_map.mp member
    exact passage_main (proper.main name (Option.mem_toList.mp found)) expression
  · split
    · exact forall_mem_nil _
    · next written =>
        have written : d.names ≠ [] := fun none => written (List.isEmpty_iff.mpr none)
        exact forall_mem_singleton.mpr (passage_names written proper.names expression rfl)

theorem passage_intercalate (parts : List (String × List String))
    (each : ∀ part ∈ parts, Passage part.1 part.2) :
    Passage (String.intercalate " " (parts.map Prod.fst)) (parts.flatMap Prod.snd) := by
  induction parts with
  | nil => exact passage_empty
  | cons part parts ih =>
    obtain ⟨here, later⟩ := forall_mem_cons.mp each
    cases parts with
    | nil => simpa using here
    | cons next parts =>
      have whole := here.append (passage_space.append (ih later))
      simpa [String.intercalate_cons_cons, String.append_assoc] using whole

/-- A declaration is lowered to a passage with its own specifier and no other. -/
theorem passage_lower (proper : d.Proper value) (number : Nat) :
    Passage (d.lower number) [value] := by
  by_cases bound : d.bindingCount = 0
  · rw [Import.lower, if_pos bound]
    exact (expression_call proper.source).1
  · have whole := passage_intercalate _ (passage_statements proper number)
    rwa [flatMap_statements value bound, ← lower_of_bindings value bound] at whole

theorem head?_of_mem_statements {number : Nat} {part : String × List String}
    (member : part ∈ d.statements value number) : part.1.toList.head? = some 'c' := by
  simp only [Import.statements, mem_append, mem_map, mem_ite_nil_left,
    mem_ite_nil_right, mem_singleton] at member
  rcases member with ((⟨_, rfl⟩ | ⟨_, _, rfl⟩) | ⟨_, _, rfl⟩) | ⟨_, rfl⟩ <;>
    simp only [String.append_assoc, String.toList_append, head?_append, Option.or_eq_some_iff] <;>
    exact Or.inl rfl

theorem head?_lower (d : Import) (number : Nat) :
    (d.lower number).toList.head?.any opensName = true := by
  by_cases bound : d.bindingCount = 0
  · rw [Import.lower, if_pos bound]
    have letter : opensName 'r' = true := by decide
    simp only [String.toList_append, head?_append]
    exact letter
  · have one := flatMap_statements "" bound number
    rw [lower_of_bindings "" bound]
    have letter : opensName 'c' = true := by decide
    cases parts : d.statements "" number with
    | nil => simp [parts] at one
    | cons part rest =>
      have first := head?_of_mem_statements (parts ▸ mem_cons_self)
      cases rest <;> simp [first, letter]

end Lower

/-! ## The code of a module -/

/-- Blank space and comments in front of a passage stay. -/
theorem Skips.passage {lead text : String} {found : List String} (skips : Skips lead.toList behind)
    (opens : behind.head?.any opensName = true) (passage : Passage text found)
    (opens' : text.toList.head?.any opensName = true) : Passage (lead ++ text) found := by
  obtain ⟨ws, reads, loose, finds⟩ := passage
  refine ⟨ws, fun operand rest => ?_, loose, finds⟩
  rw [← reads, String.toList_append, append_assoc]
  refine skips operand _ ?_
  obtain ⟨c, cs, rfl, first⟩ : ∃ c cs, behind = c :: cs ∧ opensName c = true := by
    cases behind <;> simp_all
  obtain ⟨d, ds, letters, second⟩ : ∃ d ds, text.toList = d :: ds ∧ opensName d = true := by
    cases letters : text.toList <;> simp_all
  rw [letters]
  exact .opens first second _ _

theorem passage_lineFeeds (text : String) : Passage (lineFeeds text) [] := by
  refine passage_blank fun c member => ?_
  obtain ⟨_, rfl⟩ : c ∈ text.toList ∧ c = '\n' := by simpa [lineFeeds] using member
  decide

theorem exists_body (d : ImportDeclaration) : ∃ w ws, d.body = w :: ws ∧
    w.1 ≠ .punct "(" ∧ w.1 ≠ .punct "." := by
  obtain ⟨keyword, clause?, source⟩ := d
  cases clause? with
  | none => exact ⟨_, _, rfl, by simp [Literal.word], by simp [Literal.word]⟩
  | some clause =>
    obtain ⟨clause, from_⟩ := clause
    have bindings (b : ImportBindings) : ∃ w ws, b.words = w :: ws ∧
        w.1 ≠ .punct "(" ∧ w.1 ≠ .punct "." := by
      cases b <;> exact ⟨_, _, rfl, by decide, by decide⟩
    cases clause with
    | main bound | both bound _ => exact ⟨_, _, rfl, by simp [name], by simp [name]⟩
    | others b =>
      obtain ⟨w, ws, starts, noCall, noMember⟩ := bindings b
      refine ⟨w, ws ++ [name from_, source.word, symbol ";"], ?_, noCall, noMember⟩
      simp [ImportDeclaration.body, ImportClause.words, starts]

/-- A declaration is lowered as a whole, and lowering goes on behind it. -/
theorem lowerFrom_declaration (ctx : Context) {before : List Token} (number : Nat)
    (d : ImportDeclaration) (more : List Lexeme) (statement : ∀ l, startsStatement before l = true)
    (keyword : (l.token.kind, l.token.text) = name d.keyword)
    (spell : Spell (ls.map Lexeme.token) d.body) :
    ∃ number' before', (∀ l, startsStatement before' l = true) ∧
      lowerFrom ctx before number (l :: (ls ++ more)) =
        { segments := replaced l ls (d.import_.lower number) } ::
          lowerFrom ctx before' number' more := by
  have kind : l.token.kind = .identifier d.keyword := congrArg Prod.fst keyword
  have starts : startsImport l (ls ++ more) = true := by
    obtain ⟨w, ws, body, noCall, noMember⟩ := exists_body d
    rw [body, spell_cons] at spell
    obtain ⟨start, us, tokens, _⟩ := spell
    obtain ⟨next, rest, rfl, here, _⟩ := map_eq_cons_iff.mp tokens
    simp [startsImport, isWord, kind, d.keyword.property, isPunct, here, noCall, noMember]
  have parsed := parse?_body d spell (more.map Lexeme.token)
  rw [← map_append, length_map] at parsed
  have step : lowerFirst ctx before number l (ls ++ more) =
      { item := { segments := replaced l ls (d.import_.lower number) }
        size := ls.length
        usesShared := d.import_.isShared } := by
    rw [lowerFirst, statement, starts, Bool.and_self, if_pos rfl, lowerImport, parsed]
    simp
  rw [lowerFrom, step]
  simp only [take_left, drop_left, Bool.false_eq_true, if_false]
  refine ⟨_, _, fun next => ?_, rfl⟩
  rw [ImportDeclaration.body, append_cons, spell_append] at spell
  obtain ⟨us, last, tokens, _, ending⟩ := spell
  obtain ⟨start, rfl⟩ : ∃ start, last = [⟨.punct ";", ";", start⟩] := by
    simpa [spell_cons, spell_nil, symbol] using ending
  simp [tokens, startsStatement, isPunct]

theorem passage_replaced (d : ImportDeclaration) (number : Nat) (ls : List Lexeme)
    (keyword : l.token.text = d.keyword)
    (skips : Skips l.lead.toList (l.token.text.toList ++ behind)) :
    Passage (written (replaced l ls (d.import_.lower number))) [d.source.value] := by
  obtain ⟨c, body, letters, opens, _⟩ := read_of_isName
    (isName_of_mem d.keyword.property (by decide))
  have first : (l.token.text.toList ++ behind).head?.any opensName = true := by
    simpa [keyword, letters] using opens
  have call := skips.passage first (passage_lower (proper_import d) number) (head?_lower _ number)
  have whole := call.append (passage_lineFeeds (l.token.text ++ covered ls))
  simpa [written, replaced, Segment.text, String.join, String.append_assoc] using whole

/-- One declaration after the other is lowered to a passage with the specifiers of all. -/
theorem passage_lowerFrom (ctx : Context) (declarations : List ImportDeclaration)
    (before : List Token) (number : Nat) (statement : ∀ l, startsStatement before l = true)
    (spell : Spell (ls.map Lexeme.token) (declarations.flatMap ImportDeclaration.words))
    (leads : ∀ l ∈ ls, ∃ behind, Skips l.lead.toList (l.token.text.toList ++ behind)) :
    Passage (written ((lowerFrom ctx before number ls).flatMap Item.segments))
        (declarations.map (·.source.value)) ∧
      ∀ item ∈ lowerFrom ctx before number ls, ∃ segments, item = { segments } := by
  induction declarations generalizing before number ls with
  | nil =>
    obtain rfl : ls = [] := map_eq_nil_iff.mp (spell_nil.mp spell)
    rw [lowerFrom]
    exact ⟨passage_empty, forall_mem_nil _⟩
  | cons d declarations ih =>
    rw [flatMap_cons, spell_append] at spell
    obtain ⟨here, later, split, first, behind⟩ := spell
    obtain ⟨start, us, rfl, body⟩ := spell_cons.mp first
    obtain ⟨l, rest, rfl, token, split⟩ := map_eq_cons_iff.mp split
    obtain ⟨inside, more, rfl, rfl, rfl⟩ := map_eq_append_iff.mp split
    obtain ⟨lead, leads⟩ := forall_mem_cons.mp leads
    obtain ⟨_, skips⟩ := lead
    obtain ⟨number', before', statement', lowered⟩ := lowerFrom_declaration ctx number d more
      statement (by rw [token]) body
    have text : l.token.text = d.keyword := by rw [token]; rfl
    obtain ⟨passage, quiet⟩ := ih before' number' statement' behind
      (forall_mem_append.mp leads).2
    rw [lowered]
    refine ⟨?_, forall_mem_cons.mpr ⟨⟨_, rfl⟩, quiet⟩⟩
    rw [flatMap_cons, written_append]
    exact (passage_replaced d number inside text skips).append passage

theorem passage_header (strict : Bool) :
    Passage (if strict then "\"use strict\"; " else "") [] := by
  cases strict with
  | false => exact passage_empty
  | true =>
    have directive : IsLiteral "\"use strict\"" "use strict" := by decide +kernel
    have semicolon : Reads ";" [symbol ";"] := reads_symbol (by decide)
    have reads := directive.reads.append (semicolon.append reads_space)
    exact ⟨_, reads, by decide, fun _ => rfl⟩

section Module

variable {declarations : List ImportDeclaration}
  (reads : words (scan source) = declarations.flatMap ImportDeclaration.words)
include reads

theorem bracketFaults_imports : bracketFaults [] (significant (scan source)) = [] := by
  have keeps : KeepsOpen (declarations.flatMap ImportDeclaration.words) := by
    clear reads
    induction declarations with
    | nil => exact keepsOpen_nil
    | cons d declarations ih => exact (keepsOpen_declaration d).append ih
  rw [bracketFaults_eq_nil_iff, ← map_fst_words, reads, balanced_iff_openAfter]
  exact keeps []

/-- A module of imports is lowered without problems. -/
theorem lowerModule_imports (options : Options) :
    (lowerModule options source).problems = [] ∧
      ∃ ws, words (scan (lowerModule options source).code) = ws ∧ Chained ws ∧
        Finds (ws.map Prod.fst) (declarations.map (·.source.value)) := by
  have spell : Spell ((Lexeme.splitFrom "" (scan source)).1.map Lexeme.token)
      (declarations.flatMap ImportDeclaration.words) := by
    rw [Lexeme.token_splitFrom]
    exact reads
  obtain ⟨leads, trailing⟩ := skips_splitFrom "" true 0 source.toList (skips_nil _)
  obtain ⟨passage, plain⟩ := passage_lowerFrom
    ⟨source, options.target, options.kind == .somon⟩ declarations [] 0 (fun _ => rfl) spell leads
  have silent : ∀ item ∈ moduleItems options source,
      item.exports = [] ∧ item.isExport = false := by
    intro item member
    obtain ⟨_, rfl⟩ := plain item member
    exact ⟨rfl, rfl⟩
  have quiet : ∀ item ∈ moduleItems options source, item.problems = [] := by
    intro item member
    obtain ⟨_, rfl⟩ := plain item member
    rfl
  refine ⟨problems_of_silent silent (bracketFaults_imports reads) quiet, ?_⟩
  obtain ⟨ws, whole, loose, finds⟩ := (passage_header options.strict).append passage
  have ending (operand : Bool) :
      wordsOf operand (Lexeme.splitFrom "" (scan source)).2.toList = [] := by
    have skipped := trailing operand [] .nil
    rwa [append_nil, wordsOf_nil] at skipped
  refine ⟨ws, ?_, loose.toChained, finds⟩
  rw [code_of_silent silent, header_of_silent silent, words_scan, ← String.append_assoc,
    String.toList_append]
  refine (whole true _).trans ?_
  rw [ending, append_nil]

end Module

/-- **Import declarations become the calls for their modules.** A list of declarations can be
written one on a line, and a source with their words, whatever blank space and comments stand
between them, is compiled without problems. The specifiers that are found in the code are the
values of their literals, in their order and each once. -/
theorem imports_become_requires (options : Options) (code : options.kind ≠ .json)
    (declarations : List ImportDeclaration) :
    words (scan (importText declarations)) = declarations.flatMap ImportDeclaration.words ∧
      ∀ source, words (scan source) = declarations.flatMap ImportDeclaration.words →
        (compile options source).problems = [] ∧
          Require.specifiers (compile options source).code =
            (declarations.map (·.source.value)).eraseDups := by
  refine ⟨words_importText declarations, fun source reads => ?_⟩
  obtain ⟨problems, ws, codeWords, chained, finds⟩ := lowerModule_imports reads options
  have found (text : String) (same : words (scan text) = ws) :
      Require.specifiers text = (declarations.map (·.source.value)).eraseDups := by
    have all := finds []
    rw [append_nil, specifiersOf, append_nil] at all
    rw [specifiers_eq, same, all]
  have generated : generate options source = _ := generate_eq_lowered code
  cases short : options.minify with
  | false =>
    rw [compile_eq_lowered code short]
    exact ⟨problems, found _ codeWords⟩
  | true =>
    obtain ⟨out, minified, kept⟩ := exists_minify_of_chained (codeWords ▸ chained)
    have shortened : compile options source =
        ⟨out, [], (lowerModule options source).warnings⟩ := by
      rw [compile, if_pos short, generated, problems]
      simp [shorten, Output.isUsable, minified]
    rw [shortened]
    exact ⟨rfl, found out (kept.trans codeWords)⟩

theorem imports_become_requires_shared :
    let options : Options := { minify := true, strict := true }
    let declarations : List ImportDeclaration := [
      ⟨⟨"воридот", by decide⟩,
        some (.both ⟨"require", by decide +kernel⟩
          (.listed [⟨⟨"from", by decide +kernel⟩,
            some (⟨"as", by decide⟩, ⟨"ҳамчун", by decide +kernel⟩)⟩]), ⟨"аз", by decide⟩),
        ⟨"'./m'", "./m", by decide +kernel⟩⟩,
      ⟨⟨"import", by decide⟩, none, ⟨"\"n\"", "n", by decide +kernel⟩⟩,
      ⟨⟨"import", by decide⟩,
        some (.main ⟨"m", by decide +kernel⟩, ⟨"from", by decide⟩),
        ⟨"\"./m\"", "./m", by decide +kernel⟩⟩]
    (compile options (importText declarations)).problems = [] ∧
      Require.specifiers (compile options (importText declarations)).code = ["./m", "n"] := by
  intro options declarations
  obtain ⟨reads, compiled⟩ := imports_become_requires options (by decide) declarations
  obtain ⟨problems, found⟩ := compiled _ reads
  exact ⟨problems, found.trans (by decide)⟩

end Tarkib.Compile
