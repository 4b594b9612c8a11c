import Tarkib.Json.Printer
import Tarkib.Text.Shown

/-!
# Decoding JSON values

A decoder turns a JSON value into a value of another type or names the first thing that does not
fit. Records are decoded from objects, whose members are taken in order and whose unknown members
are passed over, and from arrays, whose items stand for the fields in order. Fields that are missing
keep their default.
-/

namespace Tarkib.Json

/-- Why a value cannot be decoded. -/
inductive Mismatch where
  | type (found : Value) (expected : String)
  /-- A value of the right type that is out of place. -/
  | value (found : Value) (expected : String)
  /-- A name that is none of those allowed. -/
  | variant (found : String) (allowed : List String)
  /-- An array with more items than there are fields. -/
  | length (found : Nat)
  deriving Repr, Inhabited

def Value.named : Value → String
  | .null => "null"
  | .bool b => s!"boolean `{b}`"
  | .number (.double x) => s!"floating point `{Decimal.documentText x}`"
  | .number n => s!"integer `{n.render}`"
  | .string s => s!"string {Text.shown s}"
  | .array _ => "sequence"
  | .object _ => "map"

def Mismatch.message : Mismatch → String
  | .type found expected => s!"invalid type: {found.named}, expected {expected}"
  | .value found expected => s!"invalid value: {found.named}, expected {expected}"
  | .variant found allowed =>
    let names := String.intercalate ", " (allowed.map fun name => "`" ++ name ++ "`")
    s!"unknown variant `{found}`, expected one of {names}"
  | .length found => s!"invalid length {found}, expected fewer elements in array"

def Number.toDouble : Number → Float
  | .natural n => n.toUInt64.toFloat
  | .negative n => -n.toUInt64.toFloat
  | .double x => x

abbrev Decoder (α : Type) := Value → Except Mismatch α

namespace Decoder

def bool : Decoder Bool
  | .bool b => .ok b
  | v => .error (.type v "a boolean")

def string : Decoder String
  | .string s => .ok s
  | v => .error (.type v "a string")

def pathText : Decoder String
  | .string s => .ok s
  | v => .error (.type v "path string")

def natural : Decoder Nat
  | .number (.natural n) => .ok n
  | .number (.negative n) => .error (.value (.number (.negative n)) "u64")
  | v => .error (.type v "u64")

def double : Decoder Float
  | .number n => .ok n.toDouble
  | v => .error (.type v "f64")

/-- Decodes something that may be null. -/
def optional {α : Type} (decode : Decoder α) : Decoder (Option α)
  | .null => .ok none
  | v => (decode v).map some

def list {α : Type} (decode : Decoder α) : Decoder (List α)
  | .array items => items.mapM decode
  | v => .error (.type v "a sequence")

/-- Decodes an object with arbitrary keys. -/
def map {α : Type} (decode : Decoder α) : Decoder (List (String × α))
  | .object members => members.mapM fun (key, v) => (decode v).map fun a => (key, a)
  | v => .error (.type v "a map")

/-- Looks up the value that a name stands for. -/
def named {α : Type} (names : List (String × α)) (name : String) : Except Mismatch α :=
  match names.lookup name with
  | some a => .ok a
  | none => .error (.variant name (names.map Prod.fst))

/-- Decodes a name, which may also stand as the only key of an object with the value null. -/
def oneOf {α : Type} (names : List (String × α)) : Decoder α
  | .string name => named names name
  | .object [(name, v)] => do
    let a ← named names name
    match v with
    | .null => return a
    | v => throw (.type v "unit")
  | .object members => .error (.value (.object members) "map with a single key")
  | v => .error (.type v "string or map")

/-- A field of a record: its key, and how its value is put into the record. -/
structure Field (α : Type) where
  key : String
  set : Value → α → Except Mismatch α

/-- The field that is decoded by `decode` and put into the record by `put`. -/
def Field.of {α β : Type} (key : String) (decode : Decoder β) (put : β → α → α) : Field α :=
  ⟨key, fun v a => (decode v).map fun b => put b a⟩

/-- Takes the members of an object into a record. -/
def fromMembers {α : Type} (fields : List (Field α)) :
    List (String × Value) → α → Except Mismatch α
  | [], a => .ok a
  | (key, v) :: members, a =>
    match fields.find? (·.key == key) with
    | some f => do fromMembers fields members (← f.set v a)
    | none => fromMembers fields members a

/-- Takes the items of an array into a record. -/
def fromItems {α : Type} : List (Field α) → List Value → α → Except Mismatch α
  | f :: fields, v :: items, a => do fromItems fields items (← f.set v a)
  | _, _, a => .ok a

/-- Decodes a record with the given name and fields, starting from its default. -/
def record {α : Type} (name : String) (fields : List (Field α)) (start : α) : Decoder α
  | .object members => fromMembers fields members start
  | .array items => do
    let a ← fromItems fields items start
    if fields.length < items.length then throw (.length items.length) else return a
  | v => .error (.type v ("struct " ++ name))

end Decoder

end Tarkib.Json
