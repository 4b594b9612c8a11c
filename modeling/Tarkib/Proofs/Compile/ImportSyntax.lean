import Tarkib.Proofs.Compile.Spelling

/-!
# Import declarations and how they are written

An import declaration imports a module for its effects only, or it binds its default export, its
other exports, or both, and the other exports are the whole module under a name or a list of names
each of which may get another one. Keywords have two spellings. `ImportDeclaration` is this grammar;
its names, keywords and literals are proper ones by their types.
-/

namespace Tarkib.Compile

open Token Tarkib.Bundle List

/-! ## Declarations -/

/-- A text that is a name. -/
abbrev Identifier := { text : String // isName text = true }

/-- One of the spellings of a keyword. -/
abbrev Keyword (spellings : List String) := { text : String // text ∈ spellings }

/-- A string as it is written, and its value. -/
structure Literal where
  text : String
  value : String
  isLiteral : IsLiteral text value

/-- A name to be imported, and perhaps the name it gets here. -/
structure ImportedName where
  outer : Identifier
  inner? : Option (Keyword asWords × Identifier)

/-- The whole module under a name, or some of its names. -/
inductive ImportBindings where
  | whole (as_ : Keyword asWords) (name : Identifier)
  | listed (names : List ImportedName)

/-- A name for the default export. The word in front of the module is none. -/
abbrev MainName := { text : String // isName text = true ∧ text ∉ fromWords }

/-- What an import declaration binds: the default export, other exports, or both. -/
inductive ImportClause where
  | main (name : MainName)
  | others (bindings : ImportBindings)
  | both (name : MainName) (bindings : ImportBindings)

/-- An import declaration. One without a clause imports a module for its effects only. -/
structure ImportDeclaration where
  keyword : Keyword importWords
  clause? : Option (ImportClause × Keyword fromWords)
  source : Literal

theorem isName_of_mem {text : String} {spellings : List String} (member : text ∈ spellings)
    (keyword : spellings ∈ [importWords, fromWords, asWords]) : isName text = true := by
  have checked : ([importWords, fromWords, asWords].flatten.all isName) = true := by decide +kernel
  exact all_eq_true.mp checked text (mem_flatten.mpr ⟨spellings, keyword, member⟩)

/-! ## What they mean -/

/-- The name of an export. All words for the default export stand for one name. -/
def exportName (text : String) : String :=
  if defaultWords.contains text then "default" else text

/-- The export that is meant and the name that it is bound to. -/
def ImportedName.binding (n : ImportedName) : Binding :=
  ⟨exportName n.outer, (n.inner?.map fun inner => inner.2.val).getD (exportName n.outer)⟩

/-- The name that the whole module is bound to, if there is one. -/
def ImportBindings.whole? : ImportBindings → Option String
  | .whole _ name => some name
  | .listed _ => none

def ImportBindings.list : ImportBindings → List Binding
  | .whole _ _ => []
  | .listed names => names.map ImportedName.binding

/-- The name that the default export is bound to, if there is one. -/
def ImportClause.main? : ImportClause → Option String
  | .main name | .both name _ => some name
  | .others _ => none

def ImportClause.bindings? : ImportClause → Option ImportBindings
  | .main _ => none
  | .others bindings | .both _ bindings => some bindings

/-- What parsing finds. -/
def ImportDeclaration.import_ (d : ImportDeclaration) : Import :=
  let bindings? := d.clause?.bind (·.1.bindings?)
  { main? := d.clause?.bind (·.1.main?)
    whole? := bindings?.bind ImportBindings.whole?
    names := (bindings?.map ImportBindings.list).getD []
    source := d.source.text }

/-! ## Their words -/

/-- The word for a string literal. -/
def Literal.word (l : Literal) : Kind × String :=
  (.string l.value, l.text)

def ImportedName.words (n : ImportedName) : List (Kind × String) :=
  name n.outer :: (n.inner?.map fun inner => [name inner.1, name inner.2]).getD []

def ImportBindings.words : ImportBindings → List (Kind × String)
  | .whole as_ bound => [symbol "*", name as_, name bound]
  | .listed names =>
    symbol "\x7b" :: [symbol ","].intercalate (names.map ImportedName.words) ++ [symbol "\x7d"]

def ImportClause.words : ImportClause → List (Kind × String)
  | .main bound => [name bound]
  | .others bindings => bindings.words
  | .both bound bindings => name bound :: symbol "," :: bindings.words

/-- The words behind the keyword. -/
def ImportDeclaration.body (d : ImportDeclaration) : List (Kind × String) :=
  (d.clause?.map fun clause => clause.1.words ++ [name clause.2]).getD [] ++
    [d.source.word, symbol ";"]

/-- The words of a declaration, with the semicolon behind it. -/
def ImportDeclaration.words (d : ImportDeclaration) : List (Kind × String) :=
  name d.keyword :: d.body

/-! ## Parsing -/

/-- The tokens have the kinds and texts of the words. -/
def Spell (ts : List Token) (ws : List (Kind × String)) : Prop :=
  ts.map (fun t => (t.kind, t.text)) = ws

variable {ts : List Token} {w : Kind × String} {ws vs : List (Kind × String)}

theorem spell_nil : Spell ts [] ↔ ts = [] := by
  simp [Spell]

theorem spell_cons :
    Spell ts (w :: ws) ↔ ∃ start us, ts = ⟨w.1, w.2, start⟩ :: us ∧ Spell us ws := by
  constructor
  · intro spell
    obtain ⟨t, us, rfl, rfl, rest⟩ := map_eq_cons_iff.mp spell
    exact ⟨t.start, us, rfl, rest⟩
  · rintro ⟨start, us, rfl, rest⟩
    rw [Spell, map_cons, ← rest]

theorem spell_append :
    Spell ts (ws ++ vs) ↔ ∃ us us', ts = us ++ us' ∧ Spell us ws ∧ Spell us' vs := by
  constructor
  · intro spell
    obtain ⟨us, us', rfl, first, second⟩ := map_eq_append_iff.mp spell
    exact ⟨us, us', rfl, first, second⟩
  · rintro ⟨us, us', rfl, first, second⟩
    rw [Spell, map_append, first, second]

theorem parseNames_brace (start : Nat) (more : List Token) :
    parseNames (⟨.punct "\x7d", "\x7d", start⟩ :: more) = some ⟨[], 1⟩ := by
  rw [parseNames.eq_def]
  rfl

theorem parseNames_append (n : ImportedName) (spell : Spell ts n.words) (start : Nat)
    (more : List Token) :
    parseNames (ts ++ ⟨.punct ",", ",", start⟩ :: more) =
        (parseNames more).map (.later (ts.length + 1) (n.binding :: ·)) ∧
      parseNames (ts ++ ⟨.punct "\x7d", "\x7d", start⟩ :: more) =
        some ⟨[n.binding], ts.length + 1⟩ := by
  obtain ⟨outer, inner?⟩ := n
  cases inner? with
  | none =>
    obtain ⟨s, rfl⟩ : ∃ s, ts = [⟨.identifier outer, outer, s⟩] := by
      simpa [ImportedName.words, spell_cons, spell_nil, name] using spell
    constructor
    · simp [parseNames, isPunct, name?, isWord, ImportedName.binding, exportName]
    · simp [parseNames, isPunct, name?, isWord, ImportedName.binding, exportName,
        parseNames_brace, Parsed.later]
  | some inner =>
    obtain ⟨as_, inner⟩ := inner
    obtain ⟨s, s', s'', rfl⟩ : ∃ s s' s'', ts = [⟨.identifier outer, outer, s⟩,
        ⟨.identifier as_, as_, s'⟩, ⟨.identifier inner, inner, s''⟩] := by
      simpa [ImportedName.words, spell_cons, spell_nil, name] using spell
    have asWord := as_.property
    constructor
    · simp [parseNames, isPunct, name?, isWord, ImportedName.binding, exportName, asWord]
    · simp [parseNames, isPunct, name?, isWord, ImportedName.binding, exportName, asWord,
        parseNames_brace, Parsed.later]

/-- A list of names is parsed as the names. -/
theorem parseNames_words (names : List ImportedName)
    (spell : Spell ts ([symbol ","].intercalate (names.map ImportedName.words) ++
      [symbol "\x7d"])) (more : List Token) :
    parseNames (ts ++ more) = some ⟨names.map ImportedName.binding, ts.length⟩ := by
  induction names generalizing ts with
  | nil =>
    obtain ⟨start, rfl⟩ : ∃ start, ts = [⟨.punct "\x7d", "\x7d", start⟩] := by
      simpa [spell_cons, spell_nil, symbol] using spell
    exact parseNames_brace start more
  | cons n names ih =>
    cases names with
    | nil =>
      rw [map_singleton, intercalate_singleton, spell_append] at spell
      obtain ⟨us, us', rfl, first, last⟩ := spell
      obtain ⟨start, rfl⟩ : ∃ start, us' = [⟨.punct "\x7d", "\x7d", start⟩] := by
        simpa [spell_cons, spell_nil, symbol] using last
      rw [append_assoc, singleton_append, (parseNames_append n first start more).2, length_append]
      rfl
    | cons m names =>
      rw [map_cons, map_cons, intercalate_cons_cons, ← map_cons,
        append_assoc, append_assoc, spell_append] at spell
      obtain ⟨us, us', rfl, first, later⟩ := spell
      obtain ⟨start, rest, rfl, behind⟩ := spell_cons.mp later
      have step := (parseNames_append n first start (rest ++ more)).1
      rw [append_assoc, cons_append]
      refine step.trans ?_
      rw [ih behind, length_append, length_cons]
      simp [Parsed.later, Nat.add_left_comm]

theorem parseBindings_words (b : ImportBindings) (spell : Spell ts b.words) (more : List Token) :
    Import.parseBindings (ts ++ more) = some ⟨(b.whole?, b.list), ts.length⟩ := by
  cases b with
  | whole as_ bound =>
    obtain ⟨s, s', s'', rfl⟩ : ∃ s s' s'', ts = [⟨.punct "*", "*", s⟩,
        ⟨.identifier as_, as_, s'⟩, ⟨.identifier bound, bound, s''⟩] := by
      simpa [ImportBindings.words, spell_cons, spell_nil, name, symbol] using spell
    have asWord := as_.property
    simp [Import.parseBindings, startsWith, parseStarAs, isPunct, isWord, name?, asWord,
      Parsed.later, ImportBindings.whole?, ImportBindings.list]
  | listed names =>
    obtain ⟨start, us, rfl, inside⟩ := spell_cons.mp spell
    have braces := parseNames_words names inside more
    simp [Import.parseBindings, startsWith, parseBraces, isPunct, symbol, braces, Parsed.later,
      ImportBindings.whole?, ImportBindings.list]

theorem parseFrom_words (from_ : Keyword fromWords) (source : Literal)
    (spell : Spell ts [name from_, source.word, symbol ";"]) (more : List Token) :
    parseFrom (ts ++ more) = some ⟨source.text, ts.length⟩ := by
  obtain ⟨s, s', s'', rfl⟩ : ∃ s s' s'', ts = [⟨.identifier from_, from_, s⟩,
      ⟨.string source.value, source.text, s'⟩, ⟨.punct ";", ";", s''⟩] := by
    simpa [spell_cons, spell_nil, name, symbol, Literal.word] using spell
  have fromWord := from_.property
  simp [parseFrom, isWord, stringText?, semicolonSize, startsWith, isPunct, fromWord]

theorem parse?_append (first middle last more : List Token) {main? : Option String}
    {bindings : Option String × List Binding} {source : String}
    (noString : stringText? (first ++ (middle ++ (last ++ more))) = none)
    (main : Import.parseDefault (first ++ (middle ++ (last ++ more))) = ⟨main?, first.length⟩)
    (others : Import.parseBindings (middle ++ (last ++ more)) = some ⟨bindings, middle.length⟩)
    (from_ : parseFrom (last ++ more) = some ⟨source, last.length⟩) :
    Import.parse? (first ++ (middle ++ (last ++ more))) =
      some ⟨⟨main?, bindings.1, bindings.2, source⟩, (first ++ (middle ++ last)).length⟩ := by
  have behindMain : (first ++ (middle ++ (last ++ more))).drop first.length =
      middle ++ (last ++ more) :=
    drop_left
  have behindOthers : (first ++ (middle ++ (last ++ more))).drop (first.length + middle.length) =
      last ++ more := by
    rw [← drop_drop, behindMain, drop_left]
  rw [Import.parse?, noString]
  simp only [main, behindMain, others, behindOthers, from_, Option.bind_eq_bind, Option.bind_some,
    length_append, Nat.add_assoc]
  rfl

theorem parseBindings_nil (from_ : Keyword fromWords) (start : Nat) (more : List Token) :
    Import.parseBindings (⟨.identifier from_, from_, start⟩ :: more) = some ⟨(none, []), 0⟩ := by
  simp [Import.parseBindings, startsWith, isPunct]

theorem parseDefault_main (bound : MainName) (start : Nat) (more : List Token) :
    Import.parseDefault (⟨.identifier bound, bound, start⟩ :: more) =
      ⟨some bound.val, if startsWith "," more then 2 else 1⟩ := by
  have noFrom := bound.property.2
  simp [Import.parseDefault, name?, noFrom]

theorem parse_bindings_first (b : ImportBindings) (spell : Spell ts b.words) (more : List Token) :
    stringText? (ts ++ more) = none ∧ Import.parseDefault (ts ++ more) = ⟨none, 0⟩ := by
  cases b with
  | whole as_ bound | listed names =>
    obtain ⟨start, us, rfl, inside⟩ := spell_cons.mp spell
    exact ⟨rfl, rfl⟩

/-- The words of a declaration are parsed as what it means. -/
theorem parse?_body (d : ImportDeclaration) (spell : Spell ts d.body) (more : List Token) :
    Import.parse? (ts ++ more) = some ⟨d.import_, ts.length⟩ := by
  obtain ⟨keyword, clause?, source⟩ := d
  cases clause? with
  | none =>
    obtain ⟨s, s', rfl⟩ : ∃ s s', ts = [⟨.string source.value, source.text, s⟩,
        ⟨.punct ";", ";", s'⟩] := by
      simpa [ImportDeclaration.body, spell_cons, spell_nil, symbol, Literal.word] using spell
    rfl
  | some clause =>
    obtain ⟨clause, from_⟩ := clause
    have words : ImportDeclaration.body ⟨keyword, some (clause, from_), source⟩ =
        clause.words ++ [name from_, source.word, symbol ";"] := by
      simp [ImportDeclaration.body]
    rw [words, spell_append] at spell
    obtain ⟨us, last, rfl, inside, ending⟩ := spell
    have module := parseFrom_words from_ source ending more
    cases clause with
    | main bound =>
      obtain ⟨start, rfl⟩ : ∃ start, us = [⟨.identifier bound, bound, start⟩] := by
        simpa [ImportClause.words, spell_cons, spell_nil, name] using inside
      obtain ⟨start', ends, rfl, _⟩ := spell_cons.mp ending
      rw [append_assoc]
      exact parse?_append [_] [] _ more rfl (parseDefault_main bound start _)
        (parseBindings_nil from_ start' _) module
    | others b =>
      obtain ⟨noString, noMain⟩ := parse_bindings_first b inside (last ++ more)
      rw [append_assoc]
      exact parse?_append [] us last more noString noMain
        (parseBindings_words b inside (last ++ more)) module
    | both bound b =>
      obtain ⟨start, start', others, rfl, bindings⟩ : ∃ start start' others,
          us = [⟨.identifier bound, bound, start⟩, ⟨.punct ",", ",", start'⟩] ++ others ∧
            Spell others b.words := by
        simpa [ImportClause.words, spell_cons, name, symbol] using inside
      rw [append_assoc, append_assoc]
      exact parse?_append _ others last more rfl (parseDefault_main bound start _)
        (parseBindings_words b bindings (last ++ more)) module

/-! ## Brackets -/

theorem intercalate_induction {α : Type} {motive : List α → Prop} {sep : List α}
    (nil : motive []) (append : ∀ a b, motive a → motive b → motive (a ++ (sep ++ b)))
    (parts : List (List α)) (each : ∀ part ∈ parts, motive part) :
    motive (sep.intercalate parts) := by
  induction parts with
  | nil => exact nil
  | cons part parts ih =>
    obtain ⟨here, later⟩ := forall_mem_cons.mp each
    cases parts with
    | nil => rwa [intercalate_singleton]
    | cons next parts =>
      rw [intercalate_cons_cons, append_assoc]
      exact append _ _ here (ih later)

/-- Words that leave open what was open before them. -/
def KeepsOpen (ws : List (Kind × String)) : Prop :=
  ∀ stack, openAfter stack (ws.map Prod.fst) = some stack

theorem keepsOpen_nil : KeepsOpen [] :=
  fun _ => rfl

theorem KeepsOpen.append {us : List (Kind × String)} (first : KeepsOpen us)
    (second : KeepsOpen vs) : KeepsOpen (us ++ vs) := by
  intro stack
  rw [map_append, openAfter_append, first, Option.bind_some, second]

theorem keepsOpen_plain (plain : isPlain w.1 = true) : KeepsOpen [w] := by
  intro stack
  rw [map_singleton, openAfter_plain _ _ plain, openAfter]

theorem KeepsOpen.cons (rest : KeepsOpen ws) (plain : isPlain w.1 = true) : KeepsOpen (w :: ws) :=
  (keepsOpen_plain plain).append rest

theorem keepsOpen_importedName (n : ImportedName) : KeepsOpen n.words := by
  obtain ⟨outer, inner?⟩ := n
  cases inner? with
  | none => exact keepsOpen_nil.cons rfl
  | some inner => exact ((keepsOpen_nil.cons rfl).cons rfl).cons rfl

theorem keepsOpen_bindings (b : ImportBindings) : KeepsOpen b.words := by
  cases b with
  | whole as_ bound => exact ((keepsOpen_nil.cons rfl).cons rfl).cons rfl
  | listed names =>
    have inside : KeepsOpen ([symbol ","].intercalate (names.map ImportedName.words)) := by
      refine intercalate_induction keepsOpen_nil (fun a b first second => ?_) _ ?_
      · exact first.append (second.cons rfl)
      · intro part member
        obtain ⟨n, _, rfl⟩ := mem_map.mp member
        exact keepsOpen_importedName n
    intro stack
    have step : openAfter stack ((ImportBindings.listed names).words.map Prod.fst) =
        openAfter (.curly :: stack) (([symbol ","].intercalate (names.map ImportedName.words) ++
          [symbol "\x7d"]).map Prod.fst) :=
      openAfter_opening stack _ .curly
    rw [step, map_append, openAfter_append, inside, Option.bind_some]
    exact openAfter_closing stack [] .curly

/-- The words of a declaration leave no bracket open. -/
theorem keepsOpen_declaration (d : ImportDeclaration) : KeepsOpen d.words := by
  have ending : KeepsOpen [d.source.word, symbol ";"] := (keepsOpen_nil.cons rfl).cons rfl
  obtain ⟨keyword, clause?, source⟩ := d
  refine KeepsOpen.cons (KeepsOpen.append ?_ ending) rfl
  cases clause? with
  | none => exact keepsOpen_nil
  | some clause =>
    obtain ⟨clause, from_⟩ := clause
    refine KeepsOpen.append ?_ (keepsOpen_nil.cons rfl)
    cases clause with
    | main bound => exact keepsOpen_nil.cons rfl
    | others b => exact keepsOpen_bindings b
    | both bound b => exact ((keepsOpen_bindings b).cons rfl).cons rfl

/-! ## Their texts -/

def ImportedName.text (n : ImportedName) : String :=
  n.outer ++ (n.inner?.map fun inner => " " ++ inner.1 ++ " " ++ inner.2).getD ""

def ImportBindings.text : ImportBindings → String
  | .whole as_ bound => "* " ++ as_ ++ " " ++ bound
  | .listed names => "\x7b " ++ String.intercalate ", " (names.map ImportedName.text) ++ " \x7d"

def ImportClause.text : ImportClause → String
  | .main bound => bound
  | .others b => b.text
  | .both bound b => bound ++ ", " ++ b.text

/-- A declaration as it is usually written. -/
def ImportDeclaration.text (d : ImportDeclaration) : String :=
  d.keyword ++ " " ++
    (d.clause?.map fun clause => clause.1.text ++ " " ++ clause.2 ++ " ").getD "" ++
    d.source.text ++ ";"

/-- Declarations as they are written, each on a line of its own. -/
def importText (declarations : List ImportDeclaration) : String :=
  String.join (declarations.map fun d => d.text ++ "\n")

theorem readsApart_importedName (n : ImportedName) : ReadsApart n.text n.words := by
  obtain ⟨outer, inner?⟩ := n
  have first := readsApart_name outer.property
  cases inner? with
  | none => simpa [ImportedName.text, ImportedName.words] using first
  | some inner =>
    obtain ⟨as_, inner⟩ := inner
    have second := (readsApart_name (isName_of_mem as_.property (by simp))).spaced
    have whole := first.spaced.append_apart (second.append_apart (readsApart_name inner.property))
    simpa [ImportedName.text, ImportedName.words, String.append_assoc] using whole

theorem readsApart_bindings (b : ImportBindings) : ReadsApart b.text b.words := by
  cases b with
  | whole as_ bound =>
    have star : Reads ("*" ++ " ") [symbol "*"] := reads_fixed_space (by simp [fixedTexts])
    have second := (readsApart_name (isName_of_mem as_.property (by simp))).spaced
    have whole := star.append_apart (second.append_apart (readsApart_name bound.property))
    simpa [ImportBindings.text, ImportBindings.words, String.append_assoc] using whole
  | listed names =>
    have inside : ReadsApart (String.intercalate ", " (names.map ImportedName.text))
        ([symbol ","].intercalate (names.map ImportedName.words)) :=
      readsApart_intercalate fun n _ => readsApart_importedName n
    exact ((reads_opening.append_apart inside).append reads_closing (d := ' ') rfl
      (by decide)).apart

theorem readsApart_clause (clause : ImportClause) : ReadsApart clause.text clause.words := by
  cases clause with
  | main bound => exact readsApart_name bound.property.1
  | others b => exact readsApart_bindings b
  | both bound b =>
    have first := (readsApart_name bound.property.1).append reads_comma (d := ',') rfl (by decide)
    exact first.append_apart (readsApart_bindings b)

theorem reads_declaration (d : ImportDeclaration) : Reads d.text d.words := by
  obtain ⟨keyword, clause?, source⟩ := d
  have first := (readsApart_name (isName_of_mem keyword.property (by simp))).spaced
  have semicolon : Reads ";" [symbol ";"] := reads_symbol (by decide)
  have middle : Reads
      ((clause?.map fun clause => clause.1.text ++ " " ++ clause.2 ++ " ").getD "")
      ((clause?.map fun clause => clause.1.words ++ [name clause.2]).getD []) := by
    cases clause? with
    | none => exact reads_empty
    | some clause =>
      have from_ := (readsApart_name (isName_of_mem clause.2.property (by simp))).spaced
      have whole := (readsApart_clause clause.1).spaced.append from_
      simpa [String.append_assoc] using whole
  have whole := ((first.append middle).append source.isLiteral.reads).append semicolon
  rw [append_assoc, append_assoc] at whole
  exact whole

/-- Written on lines of their own, declarations are read as their words. -/
theorem words_importText (declarations : List ImportDeclaration) :
    words (scan (importText declarations)) = declarations.flatMap ImportDeclaration.words := by
  have feed : Reads "\n" [] := reads_blanks (all_eq_true.mp (by decide +kernel))
  refine Reads.words_eq ?_
  induction declarations with
  | nil => exact reads_empty
  | cons d declarations ih =>
    rw [importText, map_cons, String.join_cons, flatMap_cons]
    have line := (reads_declaration d).append feed
    rw [append_nil] at line
    exact line.append ih

end Tarkib.Compile
