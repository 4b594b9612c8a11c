import Tarkib.Compile.Words
import Tarkib.Token.Basic

/-!
# Declarations of imports and exports

A declaration is parsed from the significant tokens behind its keyword, each of which is kept with
the trivia in front of it. Parsing says what is declared and how many tokens belong to the
declaration; lowering says which statements take its place.

An import becomes a call of `require` whose result is taken apart. An export of a declaration keeps
the declaration and leaves the exporting to the end of the module; other exports become
assignments to `exports`.
-/

namespace Tarkib.Compile

/-- A significant token, and the trivia in front of it. -/
structure Lexeme where
  lead : String
  token : Token
  deriving Repr, DecidableEq, Inhabited

/-- Divides tokens into lexemes and the trivia after the last of them. `lead` is the trivia that
came before. -/
def Lexeme.splitFrom (lead : String) : List Token → List Lexeme × String
  | [] => ([], lead)
  | t :: ts =>
    if t.isSignificant then
      let (lexemes, trailing) := splitFrom "" ts
      (⟨lead, t⟩ :: lexemes, trailing)
    else splitFrom (lead ++ t.text) ts

/-- Divides the tokens of a source into lexemes and the trivia after the last of them. -/
def Lexeme.split (tokens : List Token) : List Lexeme × String :=
  splitFrom "" tokens

/-- Whether a line ends in front of the token. -/
def Lexeme.startsLine (l : Lexeme) : Bool :=
  l.lead.contains '\n'

/-- A name under which something is known outside, and the name it has here. -/
structure Binding where
  outer : String
  inner : String
  deriving Repr, DecidableEq, Inhabited

/-! ## Clauses -/

/-- Something parsed, and the number of tokens it takes. -/
structure Parsed (α : Type) where
  value : α
  size : Nat
  deriving Repr, DecidableEq

/-- What was parsed behind `n` further tokens, changed by `f`. -/
def Parsed.later {α β : Type} (n : Nat) (f : α → β) (p : Parsed α) : Parsed β :=
  ⟨f p.value, p.size + n⟩

/-- Whether the first token, if there is one, is the given operator or delimiter. -/
def startsWith (symbol : String) : List Token → Bool
  | [] => false
  | t :: _ => t.isPunct symbol

/-- The number of tokens that an optional semicolon takes. -/
def semicolonSize (ts : List Token) : Nat :=
  if startsWith ";" ts then 1 else 0

def stringText? : List Token → Option String
  | [] => none
  | t :: _ =>
    match t.kind with
    | .string _ => some t.text
    | _ => none

/-- Parses names behind an opening brace, each with an optional second name, up to the closing
brace. Commas between them may be missing. The word for the default export always names it. -/
def parseNames : List Token → Option (Parsed (List Binding))
  | [] => none
  | t :: ts =>
    if t.isPunct "\x7d" then some ⟨[], 1⟩
    else
      match t.name?, ts with
      | some name, u :: us =>
        let outer := if defaultWords.contains name then "default" else name
        if u.isWord asWords then
          match us with
          | a :: v :: vs =>
            match a.name? with
            | none => none
            | some alias_ =>
              if v.isPunct "," then (parseNames vs).map (.later 4 (⟨outer, alias_⟩ :: ·))
              else (parseNames (v :: vs)).map (.later 3 (⟨outer, alias_⟩ :: ·))
          | _ => none
        else if u.isPunct "," then (parseNames us).map (.later 2 (⟨outer, outer⟩ :: ·))
        else (parseNames (u :: us)).map (.later 1 (⟨outer, outer⟩ :: ·))
      | _, _ => none

def parseBraces : List Token → Option (Parsed (List Binding))
  | [] => none
  | t :: ts => if t.isPunct "\x7b" then (parseNames ts).map (.later 1 id) else none

/-- Parses the module that a declaration refers to, with an optional semicolon. -/
def parseFrom : List Token → Option (Parsed String)
  | [] => none
  | t :: ts =>
    if t.isWord fromWords then
      (stringText? ts).map fun source => ⟨source, 2 + semicolonSize (ts.drop 1)⟩
    else none

def parseStarAs : List Token → Option (Parsed String)
  | star :: as_ :: name :: _ =>
    if star.isPunct "*" && as_.isWord asWords then name.name?.map (⟨·, 3⟩) else none
  | _ => none

/-! ## Imports -/

/-- What an import declaration binds, and the module it imports, as it is written. -/
structure Import where
  /-- The name for the default export. -/
  main? : Option String
  /-- The name for the whole module. -/
  whole? : Option String
  names : List Binding
  source : String
  deriving Repr, DecidableEq, Inhabited

namespace Import

/-- Parses the name bound to the default export, with an optional comma. -/
def parseDefault (ts : List Token) : Parsed (Option String) :=
  match ts with
  | [] => ⟨none, 0⟩
  | t :: rest =>
    match t.name? with
    | some name =>
      if fromWords.contains name then ⟨none, 0⟩
      else ⟨some name, if startsWith "," rest then 2 else 1⟩
    | none => ⟨none, 0⟩

/-- Parses a namespace or names between braces. -/
def parseBindings (ts : List Token) : Option (Parsed (Option String × List Binding)) :=
  if startsWith "*" ts then (parseStarAs ts).map (.later 0 fun name => (some name, []))
  else if startsWith "\x7b" ts then (parseBraces ts).map (.later 0 fun names => (none, names))
  else some ⟨(none, []), 0⟩

/-- Parses an import declaration behind its keyword. -/
def parse? (ts : List Token) : Option (Parsed Import) :=
  match stringText? ts with
  | some source => some ⟨⟨none, none, [], source⟩, 1 + semicolonSize (ts.drop 1)⟩
  | none => do
    let first := parseDefault ts
    let bindings ← parseBindings (ts.drop first.size)
    let size := first.size + bindings.size
    let source ← parseFrom (ts.drop size)
    return ⟨⟨first.value, bindings.value.1, bindings.value.2, source.value⟩, size + source.size⟩

/-- How many kinds of bindings there are. -/
def bindingCount (d : Import) : Nat :=
  d.main?.toList.length + d.whole?.toList.length + (if d.names.isEmpty then 0 else 1)

/-- Whether the module has to be kept in a variable because it is taken apart twice. -/
def isShared (d : Import) : Bool :=
  1 < d.bindingCount

/-- The function that takes the default export of a module, or the module if it marks none. -/
def defaultOf : String :=
  "(function (m) \x7b return m && m.__esModule ? m.default : m; \x7d)"

/-- A name taken out of a module. -/
def field (b : Binding) : String :=
  if b.outer = b.inner then b.inner else s!"{b.outer}: {b.inner}"

/-- The statements that take the place of the declaration. `number` makes the variable for a shared
module unique. -/
def lower (d : Import) (number : Nat) : String :=
  let call := s!"require({d.source})"
  if d.bindingCount = 0 then call ++ ";"
  else
    let shared := s!"__somon_import_{number}"
    let value := if d.isShared then shared else call
    let names := String.intercalate ", " (d.names.map field)
    String.intercalate " " <|
      (if d.isShared then [s!"const {shared} = {call};"] else [])
        ++ d.whole?.toList.map (fun name => s!"const {name} = {value};")
        ++ d.main?.toList.map (fun name => s!"const {name} = {defaultOf}({value});")
        ++ (if d.names.isEmpty then [] else [s!"const \x7b {names} \x7d = {value};"])

end Import

/-! ## Exports -/

inductive Export where
  /-- The value of the expression that follows. -/
  | default
  | declared (names : List String)
  /-- Names bound elsewhere in the module; the outer name is the exported one. -/
  | listed (names : List Binding)
  /-- Names of another module; the inner name is the one it has there. -/
  | listedFrom (names : List Binding) (source : String)
  /-- All names of another module. -/
  | all (source : String)
  /-- Another module under one name. -/
  | allAs (name : String) (source : String)
  deriving Repr, DecidableEq, Inhabited

namespace Export

/-- Whether a line break between two tokens of a declaration of variables ends it: there is none if
a comma or an equals sign stands on one of its sides. -/
def endsBetween (t : Token) (next : Lexeme) : Bool :=
  next.startsLine && !(t.isPunct "," || t.isPunct "=" || next.token.isPunct ","
    || next.token.isPunct "=")

/-- Whether a declaration of variables ends behind the token, in front of the given lexemes. -/
def endsAfter (t : Token) : List Lexeme → Bool
  | [] => false
  | next :: _ => endsBetween t next

/-- What a token does to the reading of a declaration of variables. -/
inductive Effect where
  | stop
  /-- Reading goes on in `depth` brackets; `expecting` says that a name is due. -/
  | go (name? : Option String) (depth : Nat) (expecting : Bool)

/-- Reads one token of a declaration of variables. -/
def effect (depth : Nat) (expecting : Bool) (t : Token) : Effect :=
  match t.kind with
  | .identifier name =>
    if depth = 0 && expecting then .go (some name) depth false else .go none depth expecting
  | .punct symbol =>
    if ["(", "[", "\x7b"].contains symbol then .go none (depth + 1) expecting
    else if [")", "]", "\x7d"].contains symbol then
      if depth = 0 then .stop else .go none (depth - 1) expecting
    else if symbol = "," && depth = 0 then .go none depth true
    else if symbol = ";" && depth = 0 then .stop
    else .go none depth expecting
  | _ => .go none depth expecting

/-- The names that a declaration of variables binds. -/
def declaredNames (depth : Nat) (expecting : Bool) : List Lexeme → List String
  | [] => []
  | l :: ls =>
    match effect depth expecting l.token with
    | .stop => []
    | .go name? depth expecting =>
      name?.toList ++
        if depth = 0 && !expecting && endsAfter l.token ls then []
        else declaredNames depth expecting ls

/-- The name of a function or class, behind the word `first` that starts its declaration. -/
def declaredFunction? (first : Token) (ts : List Token) : Option String :=
  let ts := if first.isWord asyncWords then ts.drop 1 else ts
  let ts := if startsWith "*" ts then ts.drop 1 else ts
  ts.head?.bind Token.name?

/-- A binding read from inside out: the first name is the one that something has here. -/
def turned (b : Binding) : Binding :=
  ⟨b.inner, b.outer⟩

/-- Parses an export declaration behind its keyword. The tokens of a declaration that is kept do not
count. -/
def parse? (ls : List Lexeme) : Option (Parsed Export) :=
  match ls with
  | [] => none
  | l :: rest =>
    let next := l.token
    let ts := rest.map Lexeme.token
    if next.isWord defaultWords then some ⟨.default, 1⟩
    else if next.isWord functionWords || next.isWord classWords || next.isWord asyncWords then
      (declaredFunction? next ts).map fun name => ⟨.declared [name], 0⟩
    else if next.isWord variableWords then some ⟨.declared (declaredNames 0 true rest), 0⟩
    else if next.isPunct "\x7b" then do
      let names ← parseBraces (next :: ts)
      let bindings := names.value.map turned
      match parseFrom ((next :: ts).drop names.size) with
      | some source => return ⟨.listedFrom bindings source.value, names.size + source.size⟩
      | none =>
        return ⟨.listed bindings, names.size + semicolonSize ((next :: ts).drop names.size)⟩
    else if next.isPunct "*" then
      match parseFrom ts with
      | some source => some ⟨.all source.value, 1 + source.size⟩
      | none => do
        let name ← parseStarAs (next :: ts)
        let source ← parseFrom (ts.drop 2)
        return ⟨.allAs name.value source.value, 3 + source.size⟩
    else none

/-- The names that are exported at the end of the module. -/
def atEnd : Export → List Binding
  | .declared names => names.map fun name => ⟨name, name⟩
  | .listed names => names
  | _ => []

/-- The text that takes the place of the declaration. -/
def lower : Export → String
  | .default => "exports.default ="
  | .declared _ => ""
  | .listed _ => ""
  | .listedFrom names source =>
    let assignments := names.map fun b => s!"exports.{b.outer} = m.{b.inner};"
    let body := String.intercalate " " assignments
    s!"(function (m) \x7b {body} \x7d)(require({source}));"
  | .all source => s!"Object.assign(exports, require({source}));"
  | .allAs name source => s!"exports.{name} = require({source});"

end Export

end Tarkib.Compile
