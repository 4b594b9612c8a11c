import Tarkib.Compile.Declaration
import Tarkib.Compile.Diagnostic
import Tarkib.Compile.Options

/-!
# Lowering a module

The lexemes of a source are walked through once. Each becomes an item: the segments of text that it
contributes to the code, and what has to be said or remembered about it. A keyword becomes the word
it stands for, a declaration of imports or exports is replaced as a whole, and every other token and
all trivia are copied. Whatever text is dropped leaves its line feeds behind, so that the code keeps
the lines of the source.
-/

namespace Tarkib.Compile

open Tarkib.Text (Position)

/-! ## Items -/

/-- A stretch of generated code. -/
inductive Segment where
  | trivia (text : String)
  | token (source : Token) (text : String)
  /-- Text that takes the place of a declaration. -/
  | inserted (text : String)
  deriving Repr, DecidableEq, Inhabited

def Segment.text : Segment → String
  | .trivia text => text
  | .token _ text => text
  | .inserted text => text

/-- What becomes of one token or one declaration. -/
structure Item where
  segments : List Segment
  /-- Names to be exported at the end of the module. -/
  exports : List Binding := []
  /-- Whether the module exports something. -/
  isExport : Bool := false
  problems : List Problem := []
  warnings : List Warning := []
  deriving Repr, DecidableEq, Inhabited

/-! ## Tokens -/

/-- What is needed to lower a token besides the tokens around it. -/
structure Context where
  source : String
  target : Target
  /-- Whether keywords are replaced. -/
  inSomon : Bool

def Context.position (ctx : Context) (t : Token) : Position :=
  Position.ofOffset ctx.source t.start

/-- Whether a token refers to a member of what stands before it. -/
def isDot (t : Token) : Bool :=
  t.isPunct "." || t.isPunct "?."

/-- Whether the tokens before, the last one first, end with a dot. -/
def afterDot : List Token → Bool
  | [] => false
  | t :: _ => isDot t

/-- Whether the tokens before, the last one first, end with the console and a dot. -/
def afterConsoleDot : List Token → Bool
  | dot :: receiver :: _ => isDot dot && receiver.isWord [consoleWord]
  | _ => false

/-- Whether an identifier between the given tokens is the key of an object. -/
def isKey (before : List Token) (next : Option Token) : Bool :=
  (next.map (·.isPunct ":")).getD false
    && (before.head?.map fun t => t.isPunct "\x7b" || t.isPunct ",").getD false

/-- What is written for an identifier. Members and keys stay as they are written, but for the
members of the console. -/
def identifierText (ctx : Context) (before : List Token) (next : Option Token) (name : String) :
    String :=
  if afterDot before then
    if ctx.inSomon && afterConsoleDot before then (consoleMembers.lookup name).getD name
    else name
  else if isKey before next then name
  else if ctx.inSomon then (keywords.lookup name).getD name
  else name

/-- Keywords that the oldest language version does not have. -/
def modernWords : List String := ["const", "let", "class"]

/-- The warnings about an identifier, given the word that is written for it. -/
def identifierWarnings (ctx : Context) (before : List Token) (next : Option Token) (t : Token)
    (written : String) : List Warning :=
  if afterDot before || isKey before next then []
  else
    (if written = "var" then [.functionScoped (ctx.position t)] else [])
      ++ (if ctx.target = .es5 && modernWords.contains written then
            [.unavailable (ctx.position t) written]
          else [])

/-- Lowers a token that does not start a declaration. -/
def lowerToken (ctx : Context) (before : List Token) (l : Lexeme) (next : Option Token) : Item :=
  let t := l.token
  let written (text : String) : List Segment := [.trivia l.lead, .token t text]
  match t.kind with
  | .identifier name =>
    let text := identifierText ctx before next name
    { segments := written text, warnings := identifierWarnings ctx before next t text }
  | .punct symbol =>
    let warnings :=
      if symbol = "=>" && ctx.target = .es5 then [Warning.arrowFunction (ctx.position t)] else []
    { segments := written t.text, warnings }
  | .fault fault =>
    { segments := written t.text, problems := [.unreadable (ctx.position t) fault] }
  | .stray c => { segments := written "", problems := [.stray (ctx.position t) c] }
  | _ => { segments := written t.text }

/-! ## Declarations -/

/-- Whether a statement may start with the lexeme. The tokens before come last one first. -/
def startsStatement (before : List Token) (l : Lexeme) : Bool :=
  match before with
  | [] => true
  | t :: _ =>
    [";", "\x7b", "\x7d"].any t.isPunct
      || (l.startsLine &&
            match t.kind with
            | .punct symbol => [")", "]"].contains symbol
            | _ => true)

def covered (ls : List Lexeme) : String :=
  String.join (ls.map fun l => l.lead ++ l.token.text)

/-- The item for a declaration that is replaced. `l` is its keyword and `ls` are its other lexemes.
-/
def replaced (l : Lexeme) (ls : List Lexeme) (text : String) : List Segment :=
  [.trivia l.lead, .inserted text, .inserted (Text.lineFeeds (l.token.text ++ covered ls))]

/-- The item for a keyword whose declaration cannot be understood. -/
def malformed (ctx : Context) (l : Lexeme) (kind : DeclarationKind) (isExport : Bool) : Item :=
  { segments := [.trivia l.lead, .token l.token l.token.text]
    problems := [.malformed (ctx.position l.token) kind]
    isExport }

/-- What becomes of a lexeme and perhaps of those behind it. -/
structure Step where
  item : Item
  /-- The number of further lexemes that are done with. -/
  size : Nat := 0
  /-- Whether the trivia in front of the next lexeme is dropped. -/
  dropsLead : Bool := false
  /-- Whether a variable for a shared module was used. -/
  usesShared : Bool := false

/-- Lowers an import declaration with keyword `l`. -/
def lowerImport (ctx : Context) (number : Nat) (l : Lexeme) (rest : List Lexeme) : Step :=
  match Import.parse? (rest.map Lexeme.token) with
  | none => { item := malformed ctx l .imports false }
  | some parsed =>
    { item := { segments := replaced l (rest.take parsed.size) (parsed.value.lower number) }
      size := parsed.size
      usesShared := parsed.value.isShared }

/-- Lowers an export declaration with keyword `l`. -/
def lowerExport (ctx : Context) (l : Lexeme) (rest : List Lexeme) : Step :=
  match Export.parse? rest with
  | none => { item := malformed ctx l .exports (!rest.isEmpty) }
  | some parsed =>
    match parsed.value, rest with
    | .declared names, next :: _ =>
      { item := {
          segments := [.trivia l.lead, .inserted (Text.lineFeeds (l.token.text ++ next.lead))]
          exports := (Export.declared names).atEnd
          isExport := true }
        dropsLead := true }
    | value, _ =>
      { item := {
          segments := replaced l (rest.take parsed.size) value.lower
          exports := value.atEnd
          isExport := true }
        size := parsed.size }

/-- Whether an import declaration, rather than a call or a member of `import`, starts here. -/
def startsImport (l : Lexeme) (rest : List Lexeme) : Bool :=
  l.token.isWord importWords
    && !((rest.head?.map fun next => next.token.isPunct "(" || next.token.isPunct ".").getD false)

/-- Lowers the first lexeme, and those behind it that belong to its declaration. -/
def lowerFirst (ctx : Context) (before : List Token) (number : Nat) (l : Lexeme)
    (rest : List Lexeme) : Step :=
  if startsStatement before l && startsImport l rest then lowerImport ctx number l rest
  else if startsStatement before l && l.token.isWord exportWords then lowerExport ctx l rest
  else { item := lowerToken ctx before l (rest.head?.map Lexeme.token) }

/-- The lexemes without the trivia in front of the first one. -/
def dropLead : List Lexeme → List Lexeme
  | [] => []
  | l :: ls => { l with lead := "" } :: ls

@[simp]
theorem length_dropLead (ls : List Lexeme) : (dropLead ls).length = ls.length := by
  cases ls <;> rfl

/-- Lowers lexemes. `before` are the tokens in front of them, the last one first, and `number` is
the number of variables for shared modules so far. -/
def lowerFrom (ctx : Context) (before : List Token) (number : Nat) : List Lexeme → List Item
  | [] => []
  | l :: rest =>
    let step := lowerFirst ctx before number l rest
    let before := ((rest.take step.size).map Lexeme.token).reverse ++ l.token :: before
    let number := if step.usesShared then number + 1 else number
    let rest := if step.dropsLead then dropLead (rest.drop step.size) else rest.drop step.size
    step.item :: lowerFrom ctx before number rest
termination_by ls => ls.length
decreasing_by
  simp only [List.length_cons]
  split <;> simp only [length_dropLead, List.length_drop] <;> omega

/-! ## The module -/

/-- The names exported at the end, each once, and the names that occur again. -/
def splitExports : List String → List Binding → List Binding × List String
  | _, [] => ([], [])
  | seen, b :: bs =>
    if seen.contains b.outer then
      let (kept, repeated) := splitExports seen bs
      (kept, b.outer :: repeated)
    else
      let (kept, repeated) := splitExports (b.outer :: seen) bs
      (b :: kept, repeated)

/-- The code of a module in its parts, with what has to be said about it. -/
structure Lowered where
  /-- Directives in front of the code, on its first line. -/
  header : String
  segments : List Segment
  /-- Exports behind the code, each on a line of its own. -/
  trailer : String
  problems : List Problem
  warnings : List Warning
  deriving Repr, DecidableEq, Inhabited

/-- The code without the exports at its end. -/
def Lowered.body (m : Lowered) : String :=
  m.header ++ String.join (m.segments.map Segment.text)

def Lowered.code (m : Lowered) : String :=
  m.body ++ m.trailer

/-- Lowers a module of Somon or plain JavaScript. -/
def lowerModule (options : Options) (source : String) : Lowered :=
  let tokens := Token.scan source
  let ctx : Context := ⟨source, options.target, options.kind == .somon⟩
  let (lexemes, trailing) := Lexeme.split tokens
  let items := lowerFrom ctx [] 0 lexemes
  let (exports, repeated) := splitExports [] (items.flatMap Item.exports)
  let brackets := (bracketFaults [] (significant tokens)).map fun (offset, fault) =>
    Problem.bracket (Position.ofOffset source offset) fault
  { header :=
      (if options.strict then "\"use strict\"; " else "")
        ++ (if items.any Item.isExport then
              "Object.defineProperty(exports, \"__esModule\", \x7b value: true \x7d); "
            else "")
    segments := items.flatMap Item.segments ++ [.trivia trailing]
    trailer := String.join (exports.map fun b => s!"\nexports.{b.outer} = {b.inner};")
    problems := brackets ++ items.flatMap Item.problems
      ++ (if options.typeCheck then repeated.map Problem.duplicateExport else [])
    warnings := items.flatMap Item.warnings
      ++ (if options.typeCheck then [] else repeated.map Warning.duplicateExport) }

end Tarkib.Compile
