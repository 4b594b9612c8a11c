import Tarkib.Token.Basic

/-!
# Brackets

Round, square and curly brackets have to be nested properly. Only bracket tokens count, so brackets
in literals and comments do not. Every closing bracket takes the last bracket that is still open,
whether it fits or not; at the end nothing may be left open.
-/

namespace Tarkib.Compile

inductive Bracket where
  | round
  | square
  | curly
  deriving Repr, DecidableEq, Inhabited

namespace Bracket

def opening : Bracket → String
  | .round => "("
  | .square => "["
  | .curly => "\x7b"

def closing : Bracket → String
  | .round => ")"
  | .square => "]"
  | .curly => "\x7d"

def opened? (t : Token) : Option Bracket :=
  [Bracket.round, .square, .curly].find? fun b => t.isPunct b.opening

def closed? (t : Token) : Option Bracket :=
  [Bracket.round, .square, .curly].find? fun b => t.isPunct b.closing

end Bracket

/-- What is wrong about a bracket. -/
inductive BracketFault where
  /-- A closing bracket takes an opening bracket of another shape. -/
  | mismatched (closing opening : Bracket) (openedAt : Nat)
  /-- A closing bracket finds nothing open. -/
  | unmatched (closing : Bracket)
  /-- A bracket is never closed. -/
  | unclosed (opening : Bracket)
  deriving Repr, DecidableEq, Inhabited

def BracketFault.message : BracketFault → String
  | .mismatched closing opening openedAt =>
    s!"'{closing.closing}' does not close '{opening.opening}' opened at offset {openedAt}"
  | .unmatched closing => s!"unmatched '{closing.closing}'"
  | .unclosed opening => s!"unclosed '{opening.opening}'"

/-- Finds the faults among tokens. `stack` holds the brackets that are open, the last one first,
with the offsets at which they stand. A fault comes with the offset of its bracket. -/
def bracketFaults (stack : List (Bracket × Nat)) : List Token → List (Nat × BracketFault)
  | [] => stack.reverse.map fun (b, start) => (start, .unclosed b)
  | t :: ts =>
    match Bracket.opened? t, Bracket.closed? t with
    | some b, _ => bracketFaults ((b, t.start) :: stack) ts
    | none, some b =>
      match stack with
      | [] => (t.start, .unmatched b) :: bracketFaults [] ts
      | (top, start) :: stack =>
        if top = b then bracketFaults stack ts
        else (t.start, .mismatched b top start) :: bracketFaults stack ts
    | none, none => bracketFaults stack ts

end Tarkib.Compile
