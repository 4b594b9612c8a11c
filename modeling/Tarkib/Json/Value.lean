/-!
# JSON values

Numbers keep apart what the text kept apart: integers of 64 bits, with or without sign, and doubles.
An object is a list of members in ascending order of their keys, each key once.
-/

namespace Tarkib.Json

/-- A number of a JSON document. -/
inductive Number where
  /-- An integer from zero up to, but not including, `2^64`. -/
  | natural (n : Nat)
  /-- The integer `-n`, from `-2^63` up to `-1`. -/
  | negative (n : Nat)
  /-- A number with a fraction or an exponent, or an integer outside the other ranges. -/
  | double (x : Float)
  deriving Repr, BEq, Inhabited

/-- A JSON document. -/
inductive Value where
  | null
  | bool (b : Bool)
  | number (n : Number)
  | string (s : String)
  | array (items : List Value)
  | object (members : List (String × Value))
  deriving Repr, BEq, Inhabited

/-- A natural number as a document. -/
def Value.nat (n : Nat) : Value :=
  .number (.natural n)

/-- Adds a member to members in ascending order of keys; a member with the same key is replaced. -/
def insertMember (key : String) (value : Value) : List (String × Value) → List (String × Value)
  | [] => [(key, value)]
  | (k, v) :: rest =>
    if key < k then (key, value) :: (k, v) :: rest
    else if key = k then (key, value) :: rest
    else (k, v) :: insertMember key value rest

/-- The object with the given members; of several members with one key the last one counts. -/
def Value.ofMembers (members : List (String × Value)) : Value :=
  .object (members.foldl (fun sorted m => insertMember m.1 m.2 sorted) [])

def find? (key : String) (members : List (String × Value)) : Option Value :=
  members.lookup key

end Tarkib.Json
