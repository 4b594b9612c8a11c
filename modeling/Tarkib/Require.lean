import Tarkib.Text.Position
import Tarkib.Token.Scan

/-!
# Calls of `require`

Generated code refers to other modules by calling the free function `require`. The calls are found
on the significant tokens: the word `require` before an opening parenthesis, unless it is a member
of something or the name of a function being declared. What matters about a call is its argument.
-/

namespace Tarkib

inductive Require.Argument where
  /-- A string, or a template without substitutions, and nothing else. -/
  | literal (specifier : String)
  | substituted
  /-- Any other expression, or none. -/
  | dynamic
  deriving Repr, DecidableEq, Inhabited

structure Require where
  argument : Require.Argument
  /-- The byte offset of the first token of the argument. -/
  start : Nat
  /-- The byte offset after the first token of the argument. -/
  stop : Nat
  /-- The place of the word `require`. -/
  position : Text.Position
  deriving Repr, DecidableEq, Inhabited

namespace Require

/-- The specifier, if the argument is literal. -/
def specifier? (call : Require) : Option String :=
  match call.argument with
  | .literal s => some s
  | _ => none

/-- The argument whose first token is given; `closed` says that the next token closes the call. -/
def Argument.ofToken (first : Token) (closed : Bool) : Argument :=
  match first.kind with
  | .string value => if closed then .literal value else .dynamic
  | .template value false => if closed then .literal value else .dynamic
  | .template _ true => .substituted
  | _ => .dynamic

/-- The call whose opening parenthesis is followed by the given tokens. -/
def ofTokens (source : String) (word : Token) (inside : List Token) : Require :=
  let position := Text.Position.ofOffset source word.start
  match inside with
  | [] => ⟨.dynamic, source.utf8ByteSize, source.utf8ByteSize, position⟩
  | first :: rest =>
    let closed := (rest.head?.map (·.isPunct ")")).getD false
    ⟨.ofToken first closed, first.start, first.stop, position⟩

/-- Whether a token in front of the word `require` makes it something else than the free
function. -/
def rebinds (before : Token) : Bool :=
  before.isPunct "." || before.isPunct "?." || before.isWord ["function"]

/-- The calls among significant tokens; `before` is the token in front of them. -/
def callsFrom (source : String) (before : Option Token) : List Token → List Require
  | [] => []
  | [_] => []
  | t :: u :: rest =>
    let later := callsFrom source (some t) (u :: rest)
    if t.isWord ["require"] && !((before.map rebinds).getD false) && u.isPunct "(" then
      ofTokens source t rest :: later
    else later

/-- All calls of the free function `require` in a code, in order. -/
def calls (source : String) : List Require :=
  callsFrom source none (significant (Token.scan source))

/-- The specifiers of the calls with a literal argument, in order, each once. -/
def specifiers (source : String) : List String :=
  ((calls source).filterMap specifier?).eraseDups

end Require

end Tarkib
