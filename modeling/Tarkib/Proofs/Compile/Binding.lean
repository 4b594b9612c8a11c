import Tarkib.Compile.Lower
import Tarkib.Proofs.Compile.Brackets

/-!
# Declarations of variables

A declaration of variables is a list of declarators, with commas between them and a semicolon at the
end. A declarator has a target, which is a name or a pattern, and may give it a value.

**Phrases.** Outside brackets only single words matter. So a value is a list of phrases: words that
are no brackets, commas or semicolons, and balanced groups of words between brackets.

**Patterns.** What a target binds is said by the rules for patterns (`Binds`): a name binds itself,
and a pattern binds what the targets in its fields or elements bind, in order. Keys and default
values bind nothing.
-/

namespace Tarkib.Compile

open Tarkib.Token List

/-- The name stands among the lexemes. -/
def Mentions (ls : List Lexeme) (name : String) : Prop :=
  ∃ l ∈ ls, l.token.kind = .identifier name

theorem Mentions.mono {ls ls' : List Lexeme} {name : String} (stands : Mentions ls name)
    (inside : ls ⊆ ls') : Mentions ls' name := by
  obtain ⟨l, member, named⟩ := stands
  exact ⟨l, inside member, named⟩

/-! ## Phrases -/

/-- A word that is no bracket, comma or semicolon, or balanced words between two brackets. -/
inductive Phrase where
  | word (l : Lexeme) (plain : isPlain l.token.kind = true)
      (inner : l.token.kind ≠ .punct "," ∧ l.token.kind ≠ .punct ";")
  | group (b : Bracket) (opening closing : Lexeme) (inside : List Lexeme)
      (opens : opening.token.kind = .punct b.opening)
      (closes : closing.token.kind = .punct b.closing)
      (balanced : Balanced (inside.map fun l => l.token.kind))

namespace Phrase

/-- The lexemes of a phrase. -/
def lexemes : Phrase → List Lexeme
  | word l _ _ => [l]
  | group _ opening closing inside _ _ _ => opening :: inside ++ [closing]

def first : Phrase → Lexeme
  | word l _ _ => l
  | group _ opening _ _ _ _ _ => opening

def last : Phrase → Lexeme
  | word l _ _ => l
  | group _ _ closing _ _ _ _ => closing

/-- The name that a phrase is, if it is a single word. -/
def name? : Phrase → Option String
  | word l _ _ => l.token.name?
  | group .. => none

theorem lexemes_eq_cons (p : Phrase) : ∃ rest, p.lexemes = p.first :: rest := by
  cases p with
  | word l => exact ⟨[], rfl⟩
  | group => exact ⟨_, rfl⟩

theorem mentions_name (p : Phrase) {name : String} (named : p.name? = some name) :
    Mentions p.lexemes name := by
  cases p with
  | group => cases named
  | word l =>
    refine ⟨l, mem_singleton_self l, ?_⟩
    simp only [name?, Token.name?] at named
    split at named
    · next kind => rw [kind, Option.some.inj named]
    · cases named

end Phrase

/-- The lexemes of phrases. -/
def flatten (ps : List Phrase) : List Lexeme :=
  ps.flatMap Phrase.lexemes

@[simp]
theorem flatten_nil : flatten [] = [] := rfl

@[simp]
theorem flatten_cons (p : Phrase) (ps : List Phrase) :
    flatten (p :: ps) = p.lexemes ++ flatten ps :=
  flatMap_cons

/-- The phrases are a value with an equals sign in front of it, or nothing. -/
def IsInitializer (value : List Phrase) : Prop :=
  ∀ l ∈ (flatten value).head?, l.token.kind = .punct "="

theorem isInitializer_nil : IsInitializer [] := by
  intro l member
  cases member

/-! ## Patterns -/

/-- The parts of patterns that are read as one. -/
inductive PatternPart where
  /-- A name or a pattern. -/
  | target
  /-- A field of an object, or an element of an array. -/
  | one (b : Bracket)
  /-- Fields or elements with commas between them. -/
  | many (b : Bracket)

/-- The lexemes are the given part of a pattern, which binds the names. Braces enclose fields,
square brackets enclose elements. -/
inductive Binds : PatternPart → List Lexeme → List String → Prop where
  | name {l : Lexeme} {name : String} (named : l.token.kind = .identifier name) :
      Binds .target [l] [name]
  | pattern {b : Bracket} {opening closing : Lexeme} {ls : List Lexeme} {names : List String}
      (shape : b = .curly ∨ b = .square) (opens : opening.token.kind = .punct b.opening)
      (closes : closing.token.kind = .punct b.closing) (inside : Binds (.many b) ls names) :
      Binds .target (opening :: ls ++ [closing]) names
  | none (b : Bracket) : Binds (.many b) [] []
  | last {b : Bracket} {ls : List Lexeme} {names : List String} (one : Binds (.one b) ls names) :
      Binds (.many b) ls names
  | more {b : Bracket} {ls rest : List Lexeme} {comma : Lexeme} {names others : List String}
      (one : Binds (.one b) ls names) (divides : comma.token.kind = .punct ",")
      (many : Binds (.many b) rest others) :
      Binds (.many b) (ls ++ comma :: rest) (names ++ others)
  /-- A field that is called like the name it binds. -/
  | short {l : Lexeme} {name : String} {value : List Phrase}
      (named : l.token.kind = .identifier name) (initial : IsInitializer value) :
      Binds (.one .curly) (l :: flatten value) [name]
  | keyed {key : Phrase} {colon : Lexeme} {ls : List Lexeme} {names : List String}
      {value : List Phrase} (divides : colon.token.kind = .punct ":")
      (target : Binds .target ls names) (initial : IsInitializer value) :
      Binds (.one .curly) (key.lexemes ++ colon :: ls ++ flatten value) names
  | hole : Binds (.one .square) [] []
  | element {ls : List Lexeme} {names : List String} {value : List Phrase}
      (target : Binds .target ls names) (initial : IsInitializer value) :
      Binds (.one .square) (ls ++ flatten value) names
  /-- The fields or elements that are left. -/
  | rest {b : Bracket} {dots : Lexeme} {ls : List Lexeme} {names : List String}
      (spreads : dots.token.kind = .punct "...") (target : Binds .target ls names) :
      Binds (.one b) (dots :: ls) names

namespace Binds

variable {part : PatternPart} {ls : List Lexeme} {names : List String}

/-- A bound name stands among the words of the target. -/
theorem mentions (binds : Binds part ls names) : ∀ name ∈ names, Mentions ls name := by
  induction binds with
  | name named => simpa [Mentions] using named
  | pattern shape opens closes inside ih =>
    exact fun name member => (ih name member).mono fun l found => by simp [found]
  | none | hole => simp
  | last one ih => exact ih
  | more one divides many first later =>
    intro name member
    rcases mem_append.mp member with member | member
    · exact (first name member).mono (subset_append_left _ _)
    · exact (later name member).mono fun l found => by simp [found]
  | short named initial => simp [Mentions, named]
  | keyed divides target initial ih | element target initial ih | rest spreads target ih =>
    exact fun name member => (ih name member).mono fun l found => by simp [found]

theorem exists_name {l : Lexeme} (binds : Binds .target [l] names) :
    ∃ name, l.token.kind = .identifier name ∧ names = [name] := by
  generalize spelled : [l] = ls at binds
  cases binds with
  | name named =>
    obtain rfl := singleton_inj.mp spelled
    exact ⟨_, named, rfl⟩
  | pattern shape opens closes inside =>
    have size := congrArg List.length spelled
    simp at size

end Binds

/-! ## Declarators -/

/-- A target with the names that it binds and the value that it is given, if any. -/
structure Declarator where
  target : Phrase
  names : List String
  binds : Binds .target target.lexemes names
  value : List Phrase
  initial : IsInitializer value

namespace Declarator

/-- The target of a declarator and what stands behind it. -/
def phrases (d : Declarator) : List Phrase :=
  d.target :: d.value

def lexemes (d : Declarator) : List Lexeme :=
  flatten d.phrases

/-- A target that is a name binds this name. -/
theorem name?_target (d : Declarator) {name : String} (named : d.target.name? = some name) :
    d.names = [name] := by
  have binds := d.binds
  cases target : d.target with
  | group =>
    rw [target] at named
    cases named
  | word l =>
    rw [target] at named binds
    obtain ⟨same, kind, names⟩ := binds.exists_name
    simp only [Phrase.name?, Token.name?, kind] at named
    rw [names, Option.some.inj named]

end Declarator

/-- A declaration of variables behind its keyword. -/
inductive Declaration where
  | last (d : Declarator) (stop : Lexeme) (ends : stop.token.kind = .punct ";")
  | more (d : Declarator) (comma : Lexeme) (divides : comma.token.kind = .punct ",")
      (rest : Declaration)

namespace Declaration

def lexemes : Declaration → List Lexeme
  | last d stop _ => d.lexemes ++ [stop]
  | more d comma _ rest => d.lexemes ++ comma :: rest.lexemes

/-- The declarators of a declaration, in their order. -/
def declarators : Declaration → List Declarator
  | last d _ _ => [d]
  | more d _ _ rest => d :: rest.declarators

/-- The names that the declaration binds. -/
def bound : Declaration → List String
  | last d _ _ => d.names
  | more d _ _ rest => d.names ++ rest.bound

theorem mentions_of_declarators {names : Declarator → List String}
    (inside : ∀ d : Declarator, ∀ name ∈ names d, Mentions d.lexemes name) (d : Declaration) :
    ∀ name ∈ d.declarators.flatMap names, Mentions d.lexemes name := by
  induction d with
  | last d stop ends =>
    intro name member
    rw [declarators, flatMap_singleton] at member
    exact (inside d name member).mono (subset_append_left _ _)
  | more d comma divides rest ih =>
    intro name member
    rw [declarators, flatMap_cons] at member
    rcases mem_append.mp member with member | member
    · exact (inside d name member).mono (subset_append_left _ _)
    · exact (ih name member).mono fun l found => by simp [lexemes, found]

theorem mentions_bound (d : Declaration) : ∀ name ∈ d.bound, Mentions d.lexemes name := by
  have bound : d.bound = d.declarators.flatMap Declarator.names := by
    induction d with
    | last d stop ends => exact (flatMap_singleton ..).symm
    | more d comma divides rest ih => rw [Declaration.bound, ih, declarators, flatMap_cons]
  rw [bound]
  refine d.mentions_of_declarators fun d name member => ?_
  exact (d.binds.mentions name member).mono (subset_append_left _ _)

end Declaration

end Tarkib.Compile
