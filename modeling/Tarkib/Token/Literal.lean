import Tarkib.Text.Identifier
import Tarkib.Token.Basic

/-!
# Literals and comments

Each reader here stands behind the characters that open a literal or a comment and says how many
of the characters that follow belong to it, and what it means. None of them can fail: a literal
that is not closed is a fault that covers the text up to where reading gave up.

All readers recurse on the text itself. A template literal may hold substitutions, these may hold
strings and further templates, and so on; the reader keeps the places it is nested in as a list
instead of calling itself, so its recursion stays on the text.
-/

namespace Tarkib.Token

/-- How far a reader went, and what it found. -/
structure Reading (α : Type) where
  /-- What the characters mean. -/
  value : α
  /-- The number of characters that belong to it. -/
  size : Nat
  deriving Repr, DecidableEq

/-- The reading of a text that has `n` further characters in front of it. -/
def Reading.later {α : Type} (n : Nat) (r : Reading α) : Reading α :=
  ⟨r.value, r.size + n⟩

def Reading.map {α β : Type} (f : α → β) (r : Reading α) : Reading β :=
  ⟨f r.value, r.size⟩

/-! ## Comments -/

/-- Characters that a comment to the end of the line may hold. -/
def isLineBody (c : Char) : Bool :=
  c != '\n' && c != '\r'

/-- Reads a block comment after its opening `/*`. `afterStar` says that the character before was a
star. The result tells whether the comment was closed. -/
def readComment (afterStar : Bool) : List Char → Reading Bool
  | [] => ⟨false, 0⟩
  | c :: cs =>
    if afterStar && c == '/' then ⟨true, 1⟩ else (readComment (c == '*') cs).later 1

/-! ## Strings -/

/-- The characters that a backslash and `c` stand for. A backslash before a line feed continues the
string on the next line and stands for nothing. -/
def unescape (c : Char) : List Char :=
  match c with
  | 'n' => ['\n']
  | 't' => ['\t']
  | 'r' => ['\r']
  | '0' => ['\x00']
  | '\n' => []
  | c => [c]

/-- Reads a string after its opening quote. There is no value if a line feed or the end of the text
comes before the closing quote. -/
def readString (quote : Char) : List Char → Reading (Option (List Char))
  | [] => ⟨none, 0⟩
  | '\n' :: _ => ⟨none, 1⟩
  | ['\\'] => ⟨none, 1⟩
  | '\\' :: c :: cs => ((readString quote cs).map (Option.map (unescape c ++ ·))).later 2
  | c :: cs =>
    if c == quote then ⟨some [], 1⟩
    else ((readString quote cs).map (Option.map (c :: ·))).later 1

/-! ## Templates -/

/-- Where a reader of a template literal stands. -/
inductive Level where
  | text
  /-- In a substitution that closes after `depth` closing braces. -/
  | code (depth : Nat)
  /-- In a string inside a substitution. -/
  | quoted (quote : Char)
  deriving Repr, DecidableEq

/-- The fault of a text that ends at the given place. -/
def Level.fault : Level → Fault
  | .quoted _ => .openString
  | _ => .openTemplate

/-- The raw text of a template outside its substitutions, and whether it has any. -/
structure TemplateValue where
  raw : List Char
  hasSubstitutions : Bool
  deriving Repr, DecidableEq

/-- A value with more raw text in front. Only the text of the outermost template is kept. -/
def TemplateValue.add (outer : List Level) (cs : List Char) (v : TemplateValue) : TemplateValue :=
  if outer.isEmpty then ⟨cs ++ v.raw, v.hasSubstitutions⟩ else v

/-- A value that is known to have a substitution. -/
def TemplateValue.substituted (v : TemplateValue) : TemplateValue :=
  ⟨v.raw, true⟩

/-- Reads a template literal after its opening backquote (U+0060). `here` is the innermost place the
reader is in and `outer` are the places around it, innermost first. Escapes are kept as they are
written. -/
def readTemplate (here : Level) (outer : List Level) :
    List Char → Reading (Except Fault TemplateValue)
  | [] => ⟨.error here.fault, 0⟩
  | c :: cs =>
    match here with
    | .text =>
      match c, cs with
      | '\x60', cs =>
        match outer with
        | [] => ⟨.ok ⟨[], false⟩, 1⟩
        | place :: places => (readTemplate place places cs).later 1
      | '\\', [] => ⟨.error .openTemplate, 1⟩
      | '\\', d :: ds =>
        ((readTemplate .text outer ds).map (Except.map (·.add outer ['\\', d]))).later 2
      | '$', '{' :: ds =>
        ((readTemplate (.code 1) (.text :: outer) ds).map (Except.map (·.substituted))).later 2
      | c, cs => ((readTemplate .text outer cs).map (Except.map (·.add outer [c]))).later 1
    | .code depth =>
      match c with
      | '{' => (readTemplate (.code (depth + 1)) outer cs).later 1
      | '}' =>
        match depth, outer with
        | 1, place :: places => (readTemplate place places cs).later 1
        | depth, outer => (readTemplate (.code (depth - 1)) outer cs).later 1
      | '\x60' => (readTemplate .text (.code depth :: outer) cs).later 1
      | c =>
        if c == '\x22' || c == '\x27' then
          (readTemplate (.quoted c) (.code depth :: outer) cs).later 1
        else (readTemplate (.code depth) outer cs).later 1
    | .quoted quote =>
      match c, cs with
      | '\n', _ => ⟨.error .openString, 1⟩
      | '\\', [] => ⟨.error .openString, 1⟩
      | '\\', _ :: ds => (readTemplate (.quoted quote) outer ds).later 2
      | c, cs =>
        if c == quote then
          match outer with
          | [] => ⟨.error .openTemplate, 1⟩
          | place :: places => (readTemplate place places cs).later 1
        else (readTemplate (.quoted quote) outer cs).later 1

/-! ## Regular expressions and numbers -/

/-- Reads a regular expression after its opening slash, flags included. `inClass` says that the
reader is between square brackets, where a slash does not close. The result tells whether the
expression was closed. -/
def readRegex (inClass : Bool) : List Char → Reading Bool
  | [] => ⟨false, 0⟩
  | '\n' :: _ => ⟨false, 1⟩
  | ['\\'] => ⟨false, 1⟩
  | '\\' :: _ :: cs => (readRegex inClass cs).later 2
  | '[' :: cs => (readRegex true cs).later 1
  | ']' :: cs => (readRegex false cs).later 1
  | c :: cs =>
    if c == '/' && !inClass then ⟨true, 1 + (cs.takeWhile Text.isIdentifierPart).length⟩
    else (readRegex inClass cs).later 1

/-- Characters that a number goes on with: digits, letters for radix, exponent and suffix, digit
separators and the point. -/
def isNumberPart (c : Char) : Bool :=
  c.isAlphanum || c == '_' || c == '.'

/-- The number of characters by which a number goes on. A sign belongs to it directly after the
exponent mark of a number that is not hexadecimal. -/
def numberSize (hex : Bool) : List Char → Nat
  | [] => 0
  | c :: cs =>
    if isNumberPart c then
      if (c == 'e' || c == 'E') && !hex then
        match cs with
        | '+' :: ds => numberSize hex ds + 2
        | '-' :: ds => numberSize hex ds + 2
        | cs => numberSize hex cs + 1
      else numberSize hex cs + 1
    else 0

/-- Whether a number that starts with `c`, followed by `cs`, is hexadecimal. -/
def isHexadecimal (c : Char) (cs : List Char) : Bool :=
  c == '0' && (cs.head? == some 'x' || cs.head? == some 'X')

end Tarkib.Token
