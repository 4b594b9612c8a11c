import Tarkib.Text.Position
import Tarkib.Token.Scan

/-!
# Removing blank space

Comments and blank space are removed where the tokens around them stay the tokens they are. Line
feeds are kept, also those inside comments, so that every token stays on its line. Where two tokens
would run into one another a single space is left between them.

The text that is left is described first as a list of pieces. A code with an unreadable token is
refused.
-/

namespace Tarkib.Minify

/-- A piece of the shortened text. -/
inductive Piece where
  /-- The line feeds of a stretch of trivia. -/
  | feeds (count : Nat)
  /-- A space that keeps two tokens apart. -/
  | space
  | token (token : Token)
  deriving Repr, DecidableEq

def Piece.text : Piece → String
  | .feeds count => String.ofList (List.replicate count '\n')
  | .space => " "
  | .token t => t.text

/-- An unreadable token stops the shortening. -/
structure Problem where
  position : Text.Position
  fault : Token.Fault
  deriving Repr, DecidableEq, Inhabited

/-- The place and the wording of a problem. -/
def Problem.message (p : Problem) : String :=
  s!"{p.position.render}: {p.fault.message}"

/-- Characters of words. All characters outside ASCII count as such. -/
def isWordChar (c : Char) : Bool :=
  c.isAlphanum || c == '_' || c == '$' || 127 < c.toNat

/-- Whether the token `after` would be read differently directly behind `before`. -/
def needsSpace (before after : Token) : Bool :=
  match before.text.toList.getLast?, after.text.toList.head? with
  | some last, some first =>
    (isWordChar last && isWordChar first)
      || (before.kind == .number && first == '.')
      || [('+', '+'), ('-', '-'), ('/', '/'), ('/', '*')].contains (last, first)
  | _, _ => false

/-- The pieces of the tokens that are left. `before` is the token in front of them on the same line,
and `apart` says that trivia came between. -/
def piecesFrom (source : String) (before : Option Token) (apart : Bool) :
    List Token → Except Problem (List Piece)
  | [] => .ok []
  | t :: ts =>
    match t.kind with
    | .blank | .lineComment | .blockComment =>
      let count := Text.lineFeedCount t.text
      if 0 < count then (piecesFrom source none false ts).map (.feeds count :: ·)
      else piecesFrom source before true ts
    | .fault problem => .error ⟨Text.Position.ofOffset source t.start, problem⟩
    | _ =>
      let spaced := apart && (before.map (needsSpace · t)).getD false
      (piecesFrom source (some t) false ts).map fun rest =>
        if spaced then .space :: .token t :: rest else .token t :: rest

/-- The code without comments and unneeded blank space. -/
def minify (source : String) : Except Problem String :=
  (piecesFrom source none false (Token.scan source)).map fun pieces =>
    String.join (pieces.map Piece.text)

end Tarkib.Minify
