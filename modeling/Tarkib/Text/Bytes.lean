/-!
# Texts as bytes

The names of files are bytes, and only most of them are texts in UTF-8. Bytes are written here as a
text that has one character for each byte, so that paths of bytes are paths like all others.

Bytes are read as text one by one. A byte that cannot go on with the character before it ends that
character, and every character that ends too early is read as one replacement character.
-/

namespace Tarkib.Text

/-- The bytes of a character in UTF-8. -/
def encodeChar (c : Char) : List Char :=
  (String.utf8EncodeChar c).map fun b => Char.ofNat b.toNat

/-- The bytes of a text in UTF-8. -/
def encode (text : String) : String :=
  String.ofList (text.toList.flatMap encodeChar)

/-- A character of which some bytes were read. -/
structure Begun where
  /-- The number of bytes that are still needed. -/
  needed : Nat
  /-- The least byte that can come next. -/
  low : Nat := 0x80
  /-- The greatest byte that can come next. -/
  high : Nat := 0xBF
  /-- The bits that were read. -/
  value : Nat
  deriving Repr, DecidableEq

namespace Begun

/-- The character that a byte begins. Bounds on the second byte rule out characters that are written
too long, surrogates, and values above the greatest code point. -/
def ofByte? (b : Nat) : Option Begun :=
  if b < 0x80 then some { needed := 0, value := b }
  else if 0xC2 ≤ b ∧ b ≤ 0xDF then some { needed := 1, value := b - 0xC0 }
  else if b = 0xE0 then some { needed := 2, low := 0xA0, value := 0 }
  else if b = 0xED then some { needed := 2, high := 0x9F, value := 0xD }
  else if 0xE1 ≤ b ∧ b ≤ 0xEF then some { needed := 2, value := b - 0xE0 }
  else if b = 0xF0 then some { needed := 3, low := 0x90, value := 0 }
  else if b = 0xF4 then some { needed := 3, high := 0x8F, value := 4 }
  else if 0xF1 ≤ b ∧ b ≤ 0xF3 then some { needed := 3, value := b - 0xF0 }
  else none

/-- The character with one more byte, if the byte belongs to it. -/
def next? (p : Begun) (b : Nat) : Option Begun :=
  if p.low ≤ b ∧ b ≤ p.high then
    some { needed := p.needed - 1, value := p.value * 64 + (b - 0x80) }
  else none

end Begun

def replacement : Char := '�'

/-- What is written when a byte has begun a character or gone on with it: the character if it is
complete, and the replacement character if there is none. -/
def settle : Option Begun → List Char × Option Begun
  | none => ([replacement], none)
  | some p => if p.needed = 0 then ([Char.ofNat p.value], none) else ([], some p)

/-- Reads one byte: what is written, and the character that is begun. -/
def readByte : Option Begun → Nat → List Char × Option Begun
  | none, b => settle (Begun.ofByte? b)
  | some p, b =>
    match p.next? b with
    | some q => settle (some q)
    | none => (replacement :: (settle (Begun.ofByte? b)).1, (settle (Begun.ofByte? b)).2)

def decodeFrom : Option Begun → List Nat → List Char
  | none, [] => []
  | some _, [] => [replacement]
  | begun?, b :: bytes => (readByte begun? b).1 ++ decodeFrom (readByte begun? b).2 bytes

/-- The text that bytes are read as. -/
def decode (bytes : String) : String :=
  String.ofList (decodeFrom none (bytes.toList.map Char.toNat))

end Tarkib.Text
