import Tarkib.Json.Quoted

/-!
# Source maps

A source map says for each line of a generated text on which line of which source it started. The
lines are written as groups divided by semicolons. A group is empty or holds four numbers: the
column, the source, the line in the source and the column there. Sources and lines are written as
the difference to the group before, and every number as digits of a variable-length code in base 64.
-/

namespace Tarkib

structure SourceMap.Source where
  id : String
  content : String
  deriving Repr, DecidableEq, Inhabited

/-- Where a generated line comes from: a source, by its number, and a line in it. Both count from
zero. -/
structure SourceMap.Place where
  source : Nat
  line : Nat
  deriving Repr, DecidableEq, Inhabited

/-- The sources, and for each generated line where it comes from, if that is known. -/
structure SourceMap where
  sources : List SourceMap.Source := []
  lines : List (Option SourceMap.Place) := []
  deriving Repr, DecidableEq, Inhabited

namespace SourceMap

/-! ## Recording -/

/-- Adds a source. Its number is the number of sources before. -/
def addSource (m : SourceMap) (source : Source) : SourceMap :=
  { m with sources := m.sources ++ [source] }

/-- Sets the entry with the given number, after adding empty entries up to it. -/
def setLine : Nat → Place → List (Option Place) → List (Option Place)
  | 0, place, [] => [some place]
  | 0, place, _ :: rest => some place :: rest
  | n + 1, place, [] => none :: setLine n place []
  | n + 1, place, entry :: rest => entry :: setLine n place rest

/-- Records where a generated line comes from, in place of what was recorded before. -/
def mapLine (m : SourceMap) (generated : Nat) (place : Place) : SourceMap :=
  { m with lines := setLine generated place m.lines }

/-! ## Writing -/

def digits : List Char :=
  "ABCDEFGHIJKLMNOPQRSTUVWXYZabcdefghijklmnopqrstuvwxyz0123456789+/".toList

def digit (n : Nat) : Char :=
  digits.getD n 'A'

/-- Writes a number as digits of five bits, the lowest first. All digits but the last are marked by
a sixth bit. -/
def encodeNat (n : Nat) : List Char :=
  if n < 32 then [digit n] else digit (n % 32 + 32) :: encodeNat (n / 32)
termination_by n

/-- Words of 64 bits with a sign: the number that differs from `i` by a multiple of `2^64`. -/
def wrap (i : Int) : Int :=
  i.bmod 0x10000000000000000

/-- Writes a number with its sign in the lowest bit. -/
def encodeInt (i : Int) : List Char :=
  encodeNat ((2 * i.natAbs + (if i < 0 then 1 else 0)) % 0x10000000000000000)

/-- The groups of the lines, given the place of the group before. -/
def groups (before : Place) : List (Option Place) → List (List Char)
  | [] => []
  | none :: rest => [] :: groups before rest
  | some place :: rest =>
    let source := wrap (wrap place.source - wrap before.source)
    let line := wrap (wrap place.line - wrap before.line)
    (encodeInt 0 ++ encodeInt source ++ encodeInt line ++ encodeInt 0) :: groups place rest

/-- All groups, divided by semicolons. -/
def mappings (m : SourceMap) : String :=
  String.intercalate ";" ((groups ⟨0, 0⟩ m.lines).map String.ofList)

def quotedList (texts : List String) : String :=
  "[" ++ String.intercalate "," (texts.map Json.quote) ++ "]"

/-- The text of the map. With `inline` it holds the contents of the sources. -/
def render (m : SourceMap) (inline : Bool) : String :=
  "\x7b\"version\":3,\"sources\":" ++ quotedList (m.sources.map Source.id)
    ++ (if inline then ",\"sourcesContent\":" ++ quotedList (m.sources.map Source.content) else "")
    ++ ",\"names\":[],\"mappings\":" ++ Json.quote m.mappings ++ "\x7d"

end SourceMap

end Tarkib
