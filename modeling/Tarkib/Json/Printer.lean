import Tarkib.Decimal.Layout
import Tarkib.Json.Quoted
import Tarkib.Json.Value

/-!
# The text of a JSON value

Documents are written without blank space, or with an item or member on each line, indented by two
spaces for each array and object around it. The members of an object come in the order in which the
value holds them.
-/

namespace Tarkib.Json

def Number.render : Number → String
  | .natural n => Decimal.digitText n
  | .negative n => "-" ++ Decimal.digitText n
  | .double x => Decimal.documentText x

mutual

def Value.render : Value → String
  | .null => "null"
  | .bool b => if b then "true" else "false"
  | .number n => n.render
  | .string s => quote s
  | .array items => "[" ++ renderItems items ++ "]"
  | .object members => "\x7b" ++ renderMembers members ++ "\x7d"

/-- The items of an array, divided by commas. -/
def renderItems : List Value → String
  | [] => ""
  | [v] => v.render
  | v :: vs => v.render ++ "," ++ renderItems vs

/-- The members of an object, divided by commas. -/
def renderMembers : List (String × Value) → String
  | [] => ""
  | [(k, v)] => quote k ++ ":" ++ v.render
  | (k, v) :: ms => quote k ++ ":" ++ v.render ++ "," ++ renderMembers ms

end

/-! ## Documents on several lines -/

def newLine (depth : Nat) : String :=
  "\n" ++ String.ofList (List.replicate (2 * depth) ' ')

mutual

/-- The text of a value inside `depth` arrays and objects. -/
def Value.renderAt (depth : Nat) : Value → String
  | .null => "null"
  | .bool b => if b then "true" else "false"
  | .number n => n.render
  | .string s => quote s
  | .array [] => "[]"
  | .array items => "[" ++ itemLines (depth + 1) items ++ newLine depth ++ "]"
  | .object [] => "\x7b\x7d"
  | .object members => "\x7b" ++ memberLines (depth + 1) members ++ newLine depth ++ "\x7d"

def itemLines (depth : Nat) : List Value → String
  | [] => ""
  | [v] => newLine depth ++ v.renderAt depth
  | v :: vs => newLine depth ++ v.renderAt depth ++ "," ++ itemLines depth vs

def memberLines (depth : Nat) : List (String × Value) → String
  | [] => ""
  | [(k, v)] => newLine depth ++ quote k ++ ": " ++ v.renderAt depth
  | (k, v) :: ms =>
    newLine depth ++ quote k ++ ": " ++ v.renderAt depth ++ "," ++ memberLines depth ms

end

def Value.renderLines (v : Value) : String :=
  v.renderAt 0

end Tarkib.Json
