import Tarkib.Proofs.Compile.Declarative

/-!
# Members of the console

A name behind a dot is a member. It is translated if the word in front of the dot is spelled like
the console, whatever was written for that word.

**Declarations.** No declaration goes over a dot, and none ends with the word for the console. So
what is written for a member and for the word in front of the dot can be read off from the tokens in
front of them.

**Chains.** The word for the console is itself a member if it stands behind a dot, and then it is
copied. The member behind it is translated all the same.
-/

namespace Tarkib.Compile

open Tarkib.Text Tarkib.Token List

variable {t : Token} {name : String}

/-! ## Tokens that no declaration goes over -/

theorem kind_of_isDot (dot : isDot t = true) : t.kind = .punct "." ∨ t.kind = .punct "?." := by
  simpa [isDot, isPunct] using dot

theorem isDot_of_isDeclarative (declarative : isDeclarative t.kind = true) : isDot t = false := by
  rw [← Bool.not_eq_true]
  intro dot
  rcases kind_of_isDot dot with kind | kind <;> simp [kind, isDeclarative] at declarative

theorem not_console_of_ends (ends : endsDeclaration t.kind = true) :
    t.isWord [consoleWord] = false := by
  unfold isWord
  cases kind : t.kind with
  | identifier name =>
    rw [kind] at ends
    rw [← Bool.not_eq_true]
    intro console
    have same : name = consoleWord := by simpa using console
    rw [same] at ends
    exact absurd ends (by decide)
  | _ => rfl

def StandsFree (t : Token) (behind : List Token) : Prop :=
  isDot t = true ∨ t.isWord [consoleWord] = true ∧ behind.head?.any isDot = true

theorem StandsFree.exists_front {us remaining front behind : List Token}
    (free : StandsFree t behind) (declarative : Declarative us) (ends : Ends us)
    (split : us ++ remaining = front ++ t :: behind) :
    ∃ more, front = us ++ more ∧ remaining = more ++ t :: behind := by
  have noDot {u : Token} (member : u ∈ us) (dot : isDot u = true) : False := by
    rw [isDot_of_isDeclarative (declarative u member)] at dot
    cases dot
  rcases append_eq_append_iff.mp split with ⟨more, rfl, rfl⟩ | ⟨inside, taken, rest⟩
  · exact ⟨more, rfl, rfl⟩
  -- Otherwise the declaration starts with `front` and goes on with `inside`.
  cases inside with
  | nil => exact ⟨[], by simpa using taken.symm, by simpa using rest.symm⟩
  | cons u inside =>
    obtain ⟨rfl, rfl⟩ := List.cons.inj rest
    rcases free with dot | ⟨console, next⟩
    · exact (noDot (by simp [taken]) dot).elim
    · cases inside with
      | nil =>
        obtain ⟨before, last, whole, found⟩ := ends
        obtain ⟨_, same⟩ := append_inj' (taken.symm.trans whole) rfl
        obtain rfl := singleton_inj.mp same
        rw [not_console_of_ends found] at console
        cases console
      | cons d inside =>
        have dot : isDot d = true := by simpa using next
        exact (noDot (by simp [taken]) dot).elim

theorem takes_lowerFirst (ctx : Context) (before : List Token) (number : Nat) (l : Lexeme)
    (rest : List Lexeme) :
    let step := lowerFirst ctx before number l rest
    step.size = 0 ∨ Declarative ((rest.take step.size).map Lexeme.token) ∧
      Ends ((rest.take step.size).map Lexeme.token) := by
  intro step
  change (lowerFirst ctx before number l rest).size = 0 ∨ _
  unfold step lowerFirst
  split
  · unfold lowerImport
    split
    · exact .inl rfl
    · next parsed import_ =>
        rw [map_take]
        exact .inr ⟨declarative_parse_import import_, ends_parse_import import_⟩
  split
  · unfold lowerExport
    split
    · exact .inl rfl
    · next parsed export_ =>
        split
        · exact .inl rfl
        · by_cases none : parsed.size = 0
          · exact .inl none
          · exact .inr ⟨declarative_parse_export export_, ends_parse_export export_ none⟩
  · exact .inl rfl

/-- The run reaches a token that no declaration takes at the start of a step, with all tokens in
front of it at hand. -/
theorem exists_lowerFrom_split (ctx : Context) (before : List Token) (number : Nat)
    (ls : List Lexeme) {behind : List Token} (free : StandsFree t behind) :
    ∀ front, ls.map Lexeme.token = front ++ t :: behind →
      ∃ items number' lead rest, rest.map Lexeme.token = behind ∧
        lowerFrom ctx before number ls =
          items ++ lowerFrom ctx (front.reverse ++ before) number' (⟨lead, t⟩ :: rest) := by
  fun_induction lowerFrom ctx before number ls with
  | case1 =>
    intro front split
    simp at split
  | case2 before number l rest step before' number' remaining ih =>
    intro front split
    cases front with
    | nil =>
      obtain ⟨rfl, tokens⟩ := List.cons.inj split
      refine ⟨[], number, l.lead, rest, tokens, ?_⟩
      rw [lowerFrom]
      rfl
    | cons u front =>
      obtain ⟨rfl, tokens⟩ := List.cons.inj split
      have left : remaining.map Lexeme.token = (rest.map Lexeme.token).drop step.size :=
        map_token_remaining step rest
      have whole : (rest.take step.size).map Lexeme.token ++ remaining.map Lexeme.token =
          front ++ t :: behind := by
        rw [left, map_take, take_append_drop]
        exact tokens
      obtain ⟨more, rfl, further⟩ : ∃ more,
          front = (rest.take step.size).map Lexeme.token ++ more ∧
            remaining.map Lexeme.token = more ++ t :: behind := by
        rcases takes_lowerFirst ctx before number l rest with none | ⟨declarative, ends⟩
        · have none : step.size = 0 := none
          rw [none] at whole ⊢
          exact ⟨front, by simp, by simpa using whole⟩
        · exact free.exists_front declarative ends whole
      obtain ⟨items, number'', lead, rest', behind', run⟩ := ih more further
      refine ⟨step.item :: items, number'', lead, rest', behind', ?_⟩
      rw [run]
      simp [before']

/-! ## What is written -/

section Written

variable (ctx : Context) (before : List Token) (number : Nat) {ls : List Lexeme}
  {front behind : List Token}

theorem writes_identifier {l : Lexeme} {rest : List Lexeme} (word : l.token.kind = .identifier name)
    (token : startsDeclaration before l rest = false) :
    Segment.token l.token (identifierText ctx before (rest.head?.map Lexeme.token) name) ∈
      (lowerFrom ctx before number (l :: rest)).flatMap Item.segments := by
  rw [lowerFrom_of_token ctx number token, flatMap_cons, lowerToken_identifier word]
  exact mem_append_left _ (mem_cons_of_mem _ mem_cons_self)

/-- What is written for the word for the console in front of a dot. -/
theorem writes_console {receiver dot : Token}
    (split : ls.map Lexeme.token = front ++ receiver :: dot :: behind) (isDot_ : isDot dot = true)
    (console : receiver.kind = .identifier consoleWord) :
    Segment.token receiver
        (identifierText ctx (front.reverse ++ before) (some dot) consoleWord) ∈
      (lowerFrom ctx before number ls).flatMap Item.segments := by
  have free : StandsFree receiver (dot :: behind) := .inr ⟨by simp [isWord, console], isDot_⟩
  obtain ⟨items, number', lead, rest, tokens, run⟩ :=
    exists_lowerFrom_split ctx before number ls free front split
  obtain ⟨next, rest, rfl, rfl, _⟩ := map_eq_cons_iff.mp tokens
  rw [run, flatMap_append]
  have simple : isSimple receiver = true := by
    rw [isSimple, isWord, isWord, console]
    decide
  exact mem_append_right _ (writes_identifier _ _ _ (l := ⟨lead, receiver⟩) console
    (startsDeclaration_of_isSimple simple _ _))

/-- What is written for a member. -/
theorem writes_member {dot member : Token}
    (split : ls.map Lexeme.token = front ++ dot :: member :: behind) (isDot_ : isDot dot = true)
    (word : member.kind = .identifier name) :
    Segment.token member
        (identifierText ctx (dot :: (front.reverse ++ before)) behind.head? name) ∈
      (lowerFrom ctx before number ls).flatMap Item.segments := by
  obtain ⟨items, number', lead, rest, tokens, run⟩ :=
    exists_lowerFrom_split ctx before number ls (.inl isDot_) front split
  obtain ⟨l, rest, rfl, rfl, rfl⟩ := map_eq_cons_iff.mp tokens
  have noName : dot.name? = none := by
    rcases kind_of_isDot isDot_ with kind | kind <;> simp [name?, kind]
  rw [run, flatMap_append, lowerFrom_of_token ctx number' (startsDeclaration_of_name noName),
    flatMap_cons, head?_map]
  refine mem_append_right _ (mem_append_right _ (writes_identifier _ _ _ word ?_))
  have noStatement : startsStatement (dot :: (front.reverse ++ before)) l = false := by
    rcases kind_of_isDot isDot_ with kind | kind <;> simp [startsStatement, isPunct, kind]
  rw [startsDeclaration, noStatement, Bool.false_and]

end Written

/-- The text of a member behind the tokens `front` and a dot. -/
def memberText (front : List Token) (name : String) : String :=
  if front.getLast?.any (·.isWord [consoleWord]) then (consoleMembers.lookup name).getD name
  else name

def consoleText (front : List Token) : String :=
  if front.getLast?.any isDot then consoleWord else "console"

section Texts

variable {ctx : Context} (somon : ctx.inSomon = true) {dot : Token} (isDot_ : isDot dot = true)
  (front : List Token)
include somon isDot_

theorem identifierText_member (next : Option Token) (name : String) :
    identifierText ctx (dot :: front.reverse) next name = memberText front name := by
  rw [memberText, ← head?_reverse]
  cases front.reverse with
  | nil => simp [identifierText, afterDot, afterConsoleDot, isDot_]
  | cons receiver others =>
    cases console : receiver.isWord [consoleWord] <;>
      simp [identifierText, afterDot, afterConsoleDot, isDot_, somon, console]

theorem identifierText_console :
    identifierText ctx front.reverse (some dot) consoleWord = consoleText front := by
  have noColon : dot.isPunct ":" = false := by
    rcases kind_of_isDot isDot_ with kind | kind <;> simp [isPunct, kind]
  have member : consoleMembers.lookup consoleWord = none := by decide
  have keyword : keywords.lookup consoleWord = some "console" := by decide
  rw [consoleText, ← head?_reverse]
  cases front.reverse with
  | nil => simp [identifierText, afterDot, isKey, somon, keyword]
  | cons last others =>
    cases behindDot : isDot last <;>
      simp [identifierText, afterDot, isKey, somon, keyword, member, noColon, behindDot]

end Texts

/-! ## Modules -/

theorem text_unique {segments : List Segment} {text other : String}
    (distinct : (segments.filterMap Segment.token?).Nodup) (first : Segment.token t text ∈ segments)
    (second : Segment.token t other ∈ segments) : other = text := by
  obtain ⟨before, behind, rfl⟩ := append_of_mem first
  rw [filterMap_append, nodup_append] at distinct
  obtain ⟨_, later, apart⟩ := distinct
  have here : (Segment.token t text :: behind).filterMap Segment.token? =
      t :: behind.filterMap Segment.token? := rfl
  rw [here] at later apart
  rcases mem_append.mp second with early | late
  · exact absurd rfl (apart t (mem_filterMap_token?.mpr ⟨_, early⟩) t mem_cons_self)
  · rcases mem_cons.mp late with same | late
    · exact (Segment.token.inj same).2
    · exact absurd (mem_filterMap_token?.mpr ⟨_, late⟩) (nodup_cons.mp later).1

theorem mem_segments_iff {options : Options} {source : String} {text : String}
    (found : Segment.token t text ∈ (moduleItems options source).flatMap Item.segments)
    (other : String) :
    Segment.token t other ∈ (lowerModule options source).segments ↔ other = text := by
  have inside : Segment.token t text ∈ (lowerModule options source).segments := by
    rw [segments_lowerModule]
    exact mem_append_left _ found
  refine ⟨text_unique ?_ inside, fun same => same ▸ inside⟩
  obtain ⟨ls, segments, trailing, gone, lowers, written_, tokens, _⟩ :=
    lowers_lowerModule options source
  have distinct := nodup_significant_scan source
  rw [← tokens, lowers.perm.nodup_iff] at distinct
  have none : [Segment.trivia trailing].filterMap Segment.token? = [] := rfl
  rw [written_, filterMap_append, none, append_nil]
  exact (nodup_append.mp distinct).1

/-- Only behind the word for the console is a member translated. -/
theorem console_of_memberText {front : List Token} (translated : memberText front name ≠ name) :
    ∃ others receiver, front = others ++ [receiver] ∧
      receiver.kind = .identifier consoleWord := by
  cases last : front.getLast? with
  | none => simp [memberText, last] at translated
  | some receiver =>
    obtain ⟨others, rfl⟩ := getLast?_eq_some_iff.mp last
    refine ⟨others, receiver, rfl, ?_⟩
    cases kind : receiver.kind with
    | identifier word =>
      obtain ⟨rfl, _⟩ : word = consoleWord ∧ (consoleMembers.lookup name).getD name ≠ name := by
        simpa [memberText, isWord, kind] using translated
      rfl
    | _ => simp [memberText, isWord, kind] at translated

/-- **Members are translated by the spelling in front of the dot.** Take a name behind a dot in a
source of Somon. It is written once, and as it is unless the token in front of the dot is the word
for the console and the name is that of a member of the console; then it is translated. A translated
member belongs to a word that is written as `console`, as it should, exactly if that word does not
stand behind a dot itself. -/
theorem member_translated_iff {options : Options} {source : String}
    (somon : options.kind = .somon) {front behind : List Token} {dot member : Token}
    {name : String} (tokens : significant (scan source) = front ++ dot :: member :: behind)
    (follows : isDot dot = true) (word : member.kind = .identifier name) :
    let m := lowerModule options source
    (generate options source).code = m.header ++ written m.segments ++ m.trailer ∧
      (∀ text, Segment.token member text ∈ m.segments ↔ text = memberText front name) ∧
      ((memberText front name = name ∨
          ∃ receiver ∈ front.getLast?, Segment.token receiver "console" ∈ m.segments) ↔
        memberText front name = name ∨ front.dropLast.getLast?.any isDot = false) := by
  intro m
  let ctx : Context := ⟨source, options.target, options.kind == .somon⟩
  have inSomon : ctx.inSomon = true := by simp [ctx, somon]
  have lexemes : (Lexeme.splitFrom "" (scan source)).1.map Lexeme.token =
      front ++ dot :: member :: behind := by
    rw [Lexeme.token_splitFrom, tokens]
  refine ⟨?_, ?_, ?_⟩
  · rw [generate_eq_lowered (by simp [somon])]
    rfl
  · have here := writes_member ctx [] 0 lexemes follows word
    rw [append_nil, identifierText_member inSomon follows] at here
    exact mem_segments_iff here
  · by_cases same : memberText front name = name
    · simp only [same, true_or]
    -- A translated member has the word for the console in front of its dot.
    obtain ⟨others, receiver, rfl, console⟩ := console_of_memberText same
    rw [append_assoc, singleton_append] at lexemes
    have here := writes_console ctx [] 0 lexemes follows console
    rw [append_nil, identifierText_console inSomon follows] at here
    have only := mem_segments_iff here "console"
    have other : ¬ "console" = consoleWord := by decide
    simp only [same, false_or, getLast?_concat, Option.mem_some_iff, exists_eq_left',
      dropLast_concat]
    rw [only, consoleText]
    cases others.getLast?.any isDot <;> simp [other]

/-- A member that is spelled like the console is copied, and its own member is translated. -/
theorem member_translated_iff_chain :
    let source := "а.чоп.сабт"
    let receiver : Token := ⟨.identifier "чоп", "чоп", 3⟩
    let member : Token := ⟨.identifier "сабт", "сабт", 10⟩
    let m := lowerModule {} source
    (compile {} source).code = "а.чоп.log" ∧ Segment.token member "log" ∈ m.segments ∧
      Segment.token receiver "console" ∉ m.segments := by
  intro source receiver member m
  let front : List Token := [⟨.identifier "а", "а", 0⟩, ⟨.punct ".", ".", 2⟩, receiver]
  have scanned : scan source = front ++ [⟨.punct ".", ".", 9⟩, member] := by decide +kernel
  have tokens : significant (scan source) = front ++ [⟨.punct ".", ".", 9⟩, member] := by
    rw [scanned]
    rfl
  have simple : ∀ t ∈ significant (scan source), isSimple t = true := by
    rw [tokens]
    decide +kernel
  have translated : memberText front "сабт" = "log" := by decide +kernel
  obtain ⟨_, written, only⟩ := member_translated_iff (show ({} : Options).kind = .somon from rfl)
    tokens (by decide) rfl
  refine ⟨?_, (written "log").mpr translated.symm, fun found => ?_⟩
  · rw [code_compile (by decide) rfl, code_of_copies (copies_of_simple {} simple) rfl, scanned]
    decide +kernel
  · have good := only.mp (.inr ⟨receiver, rfl, found⟩)
    revert good
    decide +kernel

end Tarkib.Compile
