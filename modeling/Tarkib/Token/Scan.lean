import Tarkib.Text.Blank
import Tarkib.Token.Literal

/-!
# From text to tokens

A source is read from left to right. The first character of what is left decides which reader
takes over, the reader says how many characters belong to the token, and the rest is read on.
Since every token takes at least its first character, reading ends.

One question needs a look back: a slash after an operand divides, and anywhere else opens a regular
expression. Whether the last significant token leaves room for an expression is the only thing
remembered between tokens.

The tokens of a source cover it without gaps and in order (`concat_scan`).
-/

namespace Tarkib.Token

open Tarkib.Text

/-! ## Classes of characters and words -/

/-- Blank characters of a source: those of any text, and the byte order mark. -/
def isSpace (c : Char) : Bool :=
  isBlank c || c == '\ufeff'

def isAsciiPunctuation (c : Char) : Bool :=
  inRanges [(0x21, 0x2F), (0x3A, 0x40), (0x5B, 0x60), (0x7B, 0x7E)] c

/-- Operators of more than one character. An earlier one in the list is preferred, so that the
longest one that fits is taken. -/
def operators : List String := [
  ">>>=", "...", "===", "!==", "**=", "<<=", ">>=", ">>>", "&&=", "||=", "??=", "=>", "==",
  "!=", "<=", ">=", "&&", "||", "??", "?.", "++", "--", "+=", "-=", "*=", "/=", "%=", "&=",
  "|=", "^=", "**", "<<", ">>"]

/-- Words after which an expression follows, so that a slash opens a regular expression. -/
def wordsBeforeExpression : List String := [
  "return", "typeof", "case", "do", "else", "in", "of", "new", "delete", "void", "throw",
  "instanceof", "yield", "await", "бозгашт", "партофтан", "нав", "вагарна", "интизор"]

/-- Whether a slash after a token of this kind opens a regular expression. -/
def Kind.precedesExpression : Kind → Bool
  | .identifier name => wordsBeforeExpression.contains name
  | .punct symbol => !([")", "]", "\x7d", "++", "--"].contains symbol)
  | .number | .string _ | .template _ _ | .regex => false
  | _ => true

/-! ## One token -/

def Kind.ofString : Option (List Char) → Kind
  | some value => .string (String.ofList value)
  | none => .fault .openString

def Kind.ofTemplate : Except Fault TemplateValue → Kind
  | .ok value => .template (String.ofList value.raw) value.hasSubstitutions
  | .error problem => .fault problem

/-- The operator or delimiter at the start of `c :: cs`. -/
def readPunct (c : Char) (cs : List Char) : Reading Kind :=
  match operators.find? fun op => op.toList.isPrefixOf (c :: cs) with
  | some op => ⟨.punct op, op.length - 1⟩
  | none => ⟨.punct (String.singleton c), 0⟩

/-- Reads the token that starts with `c`, where `cs` follows. The size counts the characters after
`c`. `operand` says that an expression may stand here, so that a slash opens a regular expression.
-/
def read (operand : Bool) (c : Char) (cs : List Char) : Reading Kind :=
  if isSpace c then ⟨.blank, (cs.takeWhile isSpace).length⟩
  else if c == '/' && cs.head? == some '/' then
    ⟨.lineComment, (cs.takeWhile isLineBody).length⟩
  else if c == '/' && cs.head? == some '*' then
    ((readComment false cs.tail).map fun closed =>
      if closed then .blockComment else .fault .openComment).later 1
  else if c == '/' && operand then
    (readRegex false cs).map fun closed => if closed then .regex else .fault .openRegex
  else if c == '\x22' || c == '\x27' then (readString c cs).map Kind.ofString
  else if c == '\x60' then (readTemplate .text [] cs).map Kind.ofTemplate
  else if c.isDigit || (c == '.' && (cs.head?.map Char.isDigit).getD false) then
    ⟨.number, numberSize (isHexadecimal c cs) cs⟩
  else if isIdentifierStart c then
    let more := cs.takeWhile isIdentifierPart
    ⟨.identifier (String.ofList (c :: more)), more.length⟩
  else if isAsciiPunctuation c then readPunct c cs
  else ⟨.stray c, 0⟩

/-! ## All tokens -/

/-- The tokens of the characters that are left, the first of which stands at byte offset `start`. -/
def scanFrom (operand : Bool) (start : Nat) : List Char → List Token
  | [] => []
  | c :: cs =>
    let reading := read operand c cs
    let token : Token := ⟨reading.value, String.ofList (c :: cs.take reading.size), start⟩
    let operand := if token.isSignificant then token.kind.precedesExpression else operand
    token :: scanFrom operand token.stop (cs.drop reading.size)
termination_by cs => cs.length
decreasing_by simp only [List.length_cons, List.length_drop]; omega

def scan (source : String) : List Token :=
  scanFrom true 0 source.toList

theorem toList_concat_scanFrom (operand : Bool) (start : Nat) (cs : List Char) :
    (concat (scanFrom operand start cs)).toList = cs := by
  fun_induction scanFrom operand start cs with
  | case1 => simp [concat]
  | case2 operand start c cs reading token operand' ih =>
    simp only [concat, List.map_cons, String.join_cons, String.toList_append] at ih ⊢
    rw [ih]
    simp [token]

/-- The texts of the tokens, one after the other, are the source. -/
theorem concat_scan (source : String) : concat (scan source) = source := by
  apply String.toList_inj.mp
  exact toList_concat_scanFrom true 0 source.toList

end Tarkib.Token
