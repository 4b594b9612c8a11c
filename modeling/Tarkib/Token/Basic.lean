/-!
# Tokens

A token is a stretch of source text together with what it means. Blank space and comments are
tokens too, so the texts of the tokens of a source, put one after the other, are the source.
Text that cannot be read is a token as well: a character that starts nothing, or a literal or
comment that never ends. Reading a source therefore never fails; whoever consumes the tokens
decides what to do about the faults among them.

Tokens are divided into trivia, which only separate, and significant tokens, which are the words of
the program.
-/

namespace Tarkib

/-- A literal or comment that the text ends, or a line end interrupts, before it is closed. -/
inductive Token.Fault where
  | openComment
  | openString
  | openTemplate
  | openRegex
  deriving Repr, DecidableEq, Inhabited

def Token.Fault.message : Token.Fault → String
  | .openComment => "unterminated block comment"
  | .openString => "unterminated string literal"
  | .openTemplate => "unterminated template literal"
  | .openRegex => "unterminated regular expression literal"

/-- What a stretch of source text means. -/
inductive Token.Kind where
  /-- A run of blank characters and byte order marks. -/
  | blank
  | lineComment
  /-- A comment between `/*` and `*/`. -/
  | blockComment
  | identifier (name : String)
  /-- A numeric literal. -/
  | number
  /-- A quoted string, with its escapes decoded. -/
  | string (value : String)
  /-- A template literal: its raw text outside substitutions, and whether it has any. -/
  | template (value : String) (hasSubstitutions : Bool)
  /-- A regular expression literal with its flags. -/
  | regex
  /-- An operator or a delimiter. -/
  | punct (symbol : String)
  /-- A character that starts no token. -/
  | stray (c : Char)
  /-- A literal or comment without an end. -/
  | fault (fault : Token.Fault)
  deriving Repr, DecidableEq, Inhabited

/-- A stretch of source text, with the byte offset at which it starts. -/
structure Token where
  kind : Token.Kind
  text : String
  start : Nat
  deriving Repr, DecidableEq, Inhabited

namespace Token

/-- Whether tokens of this kind are words of the program rather than trivia. -/
def Kind.isSignificant : Kind → Bool
  | .blank | .lineComment | .blockComment => false
  | _ => true

/-- Whether the token is a word of the program rather than trivia. -/
def isSignificant (t : Token) : Bool :=
  t.kind.isSignificant

/-- The byte offset after the token. -/
def stop (t : Token) : Nat :=
  t.start + t.text.utf8ByteSize

/-- Whether the token is the given operator or delimiter. -/
def isPunct (t : Token) (symbol : String) : Bool :=
  t.kind == .punct symbol

def name? (t : Token) : Option String :=
  match t.kind with
  | .identifier name => some name
  | _ => none

/-- Whether the token is an identifier and its name is one of those given. -/
def isWord (t : Token) (names : List String) : Bool :=
  match t.kind with
  | .identifier name => names.contains name
  | _ => false

end Token

/-- The words of the program among the tokens. -/
def significant (tokens : List Token) : List Token :=
  tokens.filter Token.isSignificant

/-- The text that the tokens cover. -/
def Token.concat (tokens : List Token) : String :=
  String.join (tokens.map Token.text)

end Tarkib
