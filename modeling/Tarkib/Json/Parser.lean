import Tarkib.Json.Value
import Tarkib.Text.Position

/-!
# Reading JSON texts

The reader walks over the characters of the text with the byte offset of the first character that
is left. Failing, it names the problem and the offset at which the text is blamed; the offset is
turned into a line and a column only when the problem is put into words. A column counts the bytes
of the line up to the blamed one.

Nesting is limited. Numbers that are not integers of 64 bits are computed as doubles: the
significand, cut to 64 bits, times or divided by a power of ten.
-/

namespace Tarkib.Json

/-! ## Problems -/

/-- What is wrong with a text that is not a JSON document. -/
inductive Fault where
  | endInValue
  | endInList
  | endInObject
  | endInString
  | expectedColon
  | expectedListEnd
  | expectedObjectEnd
  | expectedWord
  | expectedValue
  | invalidEscape
  | invalidNumber
  | numberOutOfRange
  | controlCharacter
  | keyNotString
  | loneSurrogate
  | trailingComma
  | trailingCharacters
  | endInHexEscape
  | tooDeep
  deriving Repr, DecidableEq, Inhabited

def Fault.message : Fault → String
  | .endInValue => "EOF while parsing a value"
  | .endInList => "EOF while parsing a list"
  | .endInObject => "EOF while parsing an object"
  | .endInString => "EOF while parsing a string"
  | .expectedColon => "expected `:`"
  | .expectedListEnd => "expected `,` or `]`"
  | .expectedObjectEnd => "expected `,` or `\x7d`"
  | .expectedWord => "expected ident"
  | .expectedValue => "expected value"
  | .invalidEscape => "invalid escape"
  | .invalidNumber => "invalid number"
  | .numberOutOfRange => "number out of range"
  | .controlCharacter => "control character (\\u0000-\\u001F) found while parsing a string"
  | .keyNotString => "key must be a string"
  | .loneSurrogate => "lone leading surrogate in hex escape"
  | .trailingComma => "trailing comma"
  | .trailingCharacters => "trailing characters"
  | .endInHexEscape => "unexpected end of hex escape"
  | .tooDeep => "recursion limit exceeded"

/-- A fault, and the number of bytes of the text that were looked at when it was found. -/
structure Problem where
  fault : Fault
  offset : Nat
  deriving Repr, DecidableEq, Inhabited

/-- The line of a byte offset and the number of bytes between the start of that line and the
offset. The offset may lie inside a character. -/
def lineAndBytes (cs : List Char) (offset : Nat) (line bytes : Nat) : Nat × Nat :=
  match cs with
  | [] => (line, bytes + offset)
  | c :: cs =>
    if offset = 0 then (line, bytes)
    else if c = '\n' then lineAndBytes cs (offset - 1) (line + 1) 0
    else lineAndBytes cs (offset - c.utf8Size) line (bytes + min offset c.utf8Size)

/-- The wording of a problem of the given text. -/
def Problem.message (source : String) (p : Problem) : String :=
  let (line, column) := lineAndBytes source.toList p.offset 1 0
  s!"{p.fault.message} at line {line} column {column}"

/-! ## The place of the reader -/

/-- The characters that are left, and the byte offset of the first of them. -/
structure Cursor where
  rest : List Char
  offset : Nat
  deriving Repr, DecidableEq, Inhabited

namespace Cursor

/-- The place after the next character. -/
def next (here : Cursor) : Cursor :=
  match here.rest with
  | [] => here
  | c :: cs => ⟨cs, here.offset + c.utf8Size⟩

def blame (here : Cursor) (fault : Fault) : Problem :=
  ⟨fault, here.offset⟩

/-- Blames the text up to here and the byte that comes next. -/
def blameNext (here : Cursor) (fault : Fault) : Problem :=
  ⟨fault, if here.rest.isEmpty then here.offset else here.offset + 1⟩

def isBlank (c : Char) : Bool :=
  c == ' ' || c == '\n' || c == '\t' || c == '\r'

/-- The place after any blank characters. -/
def skipBlank (here : Cursor) : Cursor :=
  let blank := here.rest.takeWhile isBlank
  ⟨here.rest.dropWhile isBlank, here.offset + blank.length⟩

/-- The digits that come next. -/
def digits (here : Cursor) : List Char :=
  here.rest.takeWhile Char.isDigit

/-- The place after the digits that come next. -/
def skipDigits (here : Cursor) : Cursor :=
  ⟨here.rest.dropWhile Char.isDigit, here.offset + here.digits.length⟩

/-- The place after the next `n` characters, which are ASCII. -/
def skip (here : Cursor) (n : Nat) : Cursor :=
  ⟨here.rest.drop n, here.offset + n⟩

end Cursor

/-! ## Words -/

def readWord : List Char → Cursor → Except Problem Cursor
  | [], here => .ok here
  | w :: ws, here =>
    match here.rest with
    | [] => .error (here.blame .endInValue)
    | c :: _ => if c == w then readWord ws here.next else .error (here.blameNext .expectedWord)

/-! ## Numbers -/

def digitValue (c : Char) : Nat :=
  c.toNat - 48

/-- Whether a number does not fit into 64 bits. -/
def overflows (n : Nat) : Bool :=
  0x10000000000000000 ≤ n

/-- Appends digits to a number for as long as it fits into 64 bits, and returns how many were
appended. -/
def appendDigits (significand : Nat) : List Char → Nat × Nat
  | [] => (significand, 0)
  | c :: cs =>
    let longer := significand * 10 + digitValue c
    if overflows longer then (significand, 0)
    else
      let (result, count) := appendDigits longer cs
      (result, count + 1)

def powerOfTen (n : Nat) : Float :=
  Float.ofScientific 1 false n

/-- The double `f · 10^-n`, divided in steps of the greatest power of ten that a double can hold.
`steps` bounds the number of these steps. -/
def divideByPowerOfTen (f : Float) (n : Nat) : Nat → Float
  | 0 => f / powerOfTen n
  | steps + 1 =>
    if n ≤ 308 || f == 0 then (if f == 0 then f else f / powerOfTen n)
    else divideByPowerOfTen (f / 1e308) (n - 308) steps

/-- The double `significand · 10^exponent`, if it is finite. -/
def scaleToDouble (significand : Nat) (exponent : Int) : Option Float :=
  let f := significand.toUInt64.toFloat
  if 0 ≤ exponent then
    if 308 < exponent then (if f == 0 then some f else none)
    else
      let product := f * powerOfTen exponent.toNat
      if product.isInf then none else some product
  else some (divideByPowerOfTen f exponent.natAbs (exponent.natAbs / 308))

def signedDouble (negative : Bool) (x : Float) : Number :=
  .double (if negative then -x else x)

/-- The number `significand · 10^exponent`, read up to here. -/
def finishDouble (negative : Bool) (significand : Nat) (exponent : Int) (here : Cursor) :
    Except Problem (Number × Cursor) :=
  match scaleToDouble significand exponent with
  | some x => .ok (signedDouble negative x, here)
  | none => .error (here.blame .numberOutOfRange)

/-- Numbers up to this one are exponents; a longer one only tells very large from very small. -/
def greatestExponent : Nat := 0x7fffffff

/-- Reads the digits of an exponent until they exceed the greatest one. Returns the exponent, or
nothing if it is too large, and how many digits were looked at. -/
def exponentDigits (value : Nat) : List Char → Option Nat × Nat
  | [] => (some value, 0)
  | c :: cs =>
    let longer := value * 10 + digitValue c
    if greatestExponent < longer then (none, 1)
    else
      let (result, count) := exponentDigits longer cs
      (result, count + 1)

/-- Reads the exponent of a number, which starts here with its mark. -/
def readExponent (negative : Bool) (significand : Nat) (exponent : Int) (here : Cursor) :
    Except Problem (Number × Cursor) :=
  let marked := here.next
  let negativeExponent := marked.rest.head? == some '-'
  let start := if negativeExponent || marked.rest.head? == some '+' then marked.next else marked
  match start.rest with
  | [] => .error (start.blame .endInValue)
  | c :: _ =>
    if c.isDigit then
      match exponentDigits 0 start.digits with
      | (some value, _) =>
        let shift : Int := if negativeExponent then -value else value
        finishDouble negative significand (exponent + shift) start.skipDigits
      | (none, count) =>
        if significand != 0 && !negativeExponent then
          .error ((start.skip count).blame .numberOutOfRange)
        else .ok (signedDouble negative 0, start.skipDigits)
    else .error (start.blameNext .invalidNumber)

def atExponent (here : Cursor) : Bool :=
  here.rest.head? == some 'e' || here.rest.head? == some 'E'

/-- Goes on after the digits of a number: an exponent may follow. -/
def readAfterDigits (negative : Bool) (significand : Nat) (exponent : Int) (here : Cursor) :
    Except Problem (Number × Cursor) :=
  if atExponent here then readExponent negative significand exponent here
  else finishDouble negative significand exponent here

/-- Reads the fraction of a number, which starts here with its point. Digits that no longer fit are
passed over. -/
def readFraction (negative : Bool) (significand : Nat) (exponent : Int) (here : Cursor) :
    Except Problem (Number × Cursor) :=
  let start := here.next
  match start.digits with
  | [] => .error (start.blameNext (if start.rest.isEmpty then .endInValue else .invalidNumber))
  | ds =>
    let (longer, count) := appendDigits significand ds
    readAfterDigits negative longer (exponent - count) start.skipDigits

def readNumber (negative : Bool) (here : Cursor) : Except Problem (Number × Cursor) :=
  match here.rest with
  | [] => .error (here.blame .endInValue)
  | c :: cs =>
    if !c.isDigit then .error (here.blameNext .invalidNumber)
    else if c == '0' && ((cs.head?.map Char.isDigit).getD false) then
      .error (here.next.blameNext .invalidNumber)
    else
      let ds := here.digits
      let (significand, count) := appendDigits 0 ds
      let dropped := ds.length - count
      let after := here.skipDigits
      if after.rest.head? == some '.' then readFraction negative significand dropped after
      else if atExponent after then readExponent negative significand dropped after
      else if dropped != 0 then finishDouble negative significand dropped after
      else if !negative then .ok (.natural significand, after)
      else if significand == 0 || 0x8000000000000000 < significand then
        .ok (signedDouble true significand.toUInt64.toFloat, after)
      else .ok (.negative significand, after)

/-! ## Strings -/

/-- The value of a hexadecimal digit. -/
def hexValue? (c : Char) : Option Nat :=
  if c.isDigit then some (c.toNat - 48)
  else if 'a' ≤ c && c ≤ 'f' then some (c.toNat - 87)
  else if 'A' ≤ c && c ≤ 'F' then some (c.toNat - 55)
  else none

/-- Reads the four hexadecimal digits of an escape. -/
def readHex (here : Cursor) : Except Problem (Nat × Cursor) :=
  if Text.byteLength (here.rest.take 4) < 4 then
    .error ⟨.endInString, here.offset + Text.byteLength here.rest⟩
  else
    match here.rest.take 4 |>.mapM hexValue? with
    | some ds => .ok (ds.foldl (fun n d => n * 16 + d) 0, here.skip 4)
    | none => .error ⟨.invalidEscape, here.offset + 4⟩

/-- Reads the given character, which must go on a pair of surrogates. -/
def readPairing (c : Char) (here : Cursor) : Except Problem Cursor :=
  match here.rest with
  | [] => .error (here.blame .endInString)
  | d :: _ => if d == c then .ok here.next else .error (here.blameNext .endInHexEscape)

/-- Reads a character given by its hexadecimal number, or by a pair of surrogates. -/
def readUnicode (here : Cursor) : Except Problem (Char × Cursor) := do
  let (high, here) ← readHex here
  if 0xDC00 ≤ high && high ≤ 0xDFFF then throw (here.blame .loneSurrogate)
  if high < 0xD800 || 0xDBFF < high then return (Char.ofNat high, here)
  let here ← readPairing '\\' here
  let here ← readPairing 'u' here
  let (low, here) ← readHex here
  if low < 0xDC00 || 0xDFFF < low then throw (here.blame .loneSurrogate)
  return (Char.ofNat (0x10000 + (high - 0xD800) * 0x400 + (low - 0xDC00)), here)

/-- The character that a backslash and `c` stand for. -/
def shortEscape? (c : Char) : Option Char :=
  match c with
  | '\x22' => some '\x22'
  | '\\' => some '\\'
  | '/' => some '/'
  | 'b' => some '\x08'
  | 'f' => some '\x0c'
  | 'n' => some '\n'
  | 'r' => some '\r'
  | 't' => some '\t'
  | _ => none

/-- Reads a string after its opening quote. `fuel` bounds the number of characters. -/
def readChars : Nat → Cursor → Except Problem (List Char × Cursor)
  | 0, here => .error (here.blame .endInString)
  | fuel + 1, here =>
    match here.rest with
    | [] => .error (here.blame .endInString)
    | '\x22' :: _ => .ok ([], here.next)
    | ['\\'] => .error (here.next.blame .endInString)
    | '\\' :: 'u' :: _ => do
      let (c, here) ← readUnicode here.next.next
      let (cs, here) ← readChars fuel here
      return (c :: cs, here)
    | '\\' :: d :: _ =>
      match shortEscape? d with
      | some c => do
        let (cs, here) ← readChars fuel here.next.next
        return (c :: cs, here)
      | none => .error (here.next.blameNext .invalidEscape)
    | c :: _ =>
      if c.toNat < 0x20 then .error (here.blameNext .controlCharacter)
      else do
        let (cs, here) ← readChars fuel here.next
        return (c :: cs, here)

def readString (here : Cursor) : Except Problem (String × Cursor) := do
  let (cs, here) ← readChars (here.rest.length + 1) here
  return (String.ofList cs, here)

/-! ## Values -/

def readColon (here : Cursor) : Except Problem Cursor :=
  let here := here.skipBlank
  match here.rest with
  | [] => .error (here.blameNext .endInObject)
  | c :: _ => if c == ':' then .ok here.next else .error (here.blameNext .expectedColon)

mutual

/-- Reads a value. `fuel` bounds the number of values, items and members that are read, and `depth`
is the number of further levels of nesting that are allowed, plus one. -/
def readValue (fuel depth : Nat) (here : Cursor) : Except Problem (Value × Cursor) :=
  match fuel with
  | 0 => .error (here.blameNext .endInValue)
  | fuel + 1 =>
    let here := here.skipBlank
    match here.rest with
    | [] => .error (here.blameNext .endInValue)
    | c :: _ =>
      if c == 'n' then do return (.null, ← readWord ['u', 'l', 'l'] here.next)
      else if c == 't' then do return (.bool true, ← readWord ['r', 'u', 'e'] here.next)
      else if c == 'f' then do return (.bool false, ← readWord ['a', 'l', 's', 'e'] here.next)
      else if c == '-' then do
        let (n, here) ← readNumber true here.next
        return (.number n, here)
      else if c.isDigit then do
        let (n, here) ← readNumber false here
        return (.number n, here)
      else if c == '\x22' then do
        let (s, here) ← readString here.next
        return (.string s, here)
      else if c == '[' then
        if depth ≤ 1 then .error (here.blameNext .tooDeep)
        else do
          let (items, here) ← readItems fuel (depth - 1) true here.next
          return (.array items, here)
      else if c == '\x7b' then
        if depth ≤ 1 then .error (here.blameNext .tooDeep)
        else do
          let (members, here) ← readMembers fuel (depth - 1) true here.next
          return (.ofMembers members, here)
      else .error (here.blameNext .expectedValue)

/-- Reads the items of an array up to its closing bracket. `first` says that none came before. -/
def readItems (fuel depth : Nat) (first : Bool) (here : Cursor) :
    Except Problem (List Value × Cursor) :=
  match fuel with
  | 0 => .error (here.blameNext .endInList)
  | fuel + 1 =>
    let here := here.skipBlank
    match here.rest with
    | [] => .error (here.blameNext .endInList)
    | c :: _ =>
      if c == ']' then .ok ([], here.next)
      else if first then do
        let (item, here) ← readValue fuel depth here
        let (items, here) ← readItems fuel depth false here
        return (item :: items, here)
      else if c == ',' then
        let here := here.next.skipBlank
        match here.rest with
        | [] => .error (here.blameNext .endInValue)
        | ']' :: _ => .error (here.blameNext .trailingComma)
        | _ => do
          let (item, here) ← readValue fuel depth here
          let (items, here) ← readItems fuel depth false here
          return (item :: items, here)
      else .error (here.blameNext .expectedListEnd)

/-- Reads the members of an object up to its closing brace. `first` says that none came before. -/
def readMembers (fuel depth : Nat) (first : Bool) (here : Cursor) :
    Except Problem (List (String × Value) × Cursor) :=
  match fuel with
  | 0 => .error (here.blameNext .endInObject)
  | fuel + 1 =>
    let here := here.skipBlank
    match here.rest with
    | [] => .error (here.blameNext .endInObject)
    | c :: _ =>
      if c == '\x7d' then .ok ([], here.next)
      else if first then
        if c == '\x22' then readMember fuel depth here
        else .error (here.blameNext .keyNotString)
      else if c == ',' then
        let here := here.next.skipBlank
        match here.rest with
        | [] => .error (here.blameNext .endInValue)
        | '\x22' :: _ => readMember fuel depth here
        | '\x7d' :: _ => .error (here.blameNext .trailingComma)
        | _ => .error (here.blameNext .keyNotString)
      else .error (here.blameNext .expectedObjectEnd)

/-- Reads a member, which starts here with the quote of its key, and all members after it. -/
def readMember (fuel depth : Nat) (here : Cursor) :
    Except Problem (List (String × Value) × Cursor) :=
  match fuel with
  | 0 => .error (here.blameNext .endInObject)
  | fuel + 1 => do
    let (key, here) ← readString here.next
    let here ← readColon here
    let (value, here) ← readValue fuel depth here
    let (members, here) ← readMembers fuel depth false here
    return ((key, value) :: members, here)

end

/-- One more than the number of arrays and objects that may stand inside one another. -/
def depthLimit : Nat := 128

/-- Reads a text as one JSON document. -/
def parse (source : String) : Except Problem Value := do
  let start : Cursor := ⟨source.toList, 0⟩
  let (value, here) ← readValue (3 * source.length + 3) depthLimit start
  let here := here.skipBlank
  if here.rest.isEmpty then return value else throw (here.blameNext .trailingCharacters)

end Tarkib.Json
