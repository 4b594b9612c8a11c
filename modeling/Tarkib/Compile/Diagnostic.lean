import Tarkib.Compile.Brackets
import Tarkib.Json.Parser
import Tarkib.Minify

/-!
# Diagnostics

Compiling a source always yields code. Problems make that code unusable, warnings do not. Each is
kept as its cause, and put into words by one function.
-/

namespace Tarkib.Compile

open Tarkib.Text (Position)

/-- The two declarations that are lowered. -/
inductive DeclarationKind where
  | imports
  | exports
  deriving Repr, DecidableEq, Inhabited

def DeclarationKind.word : DeclarationKind → String
  | .imports => "import"
  | .exports => "export"

/-- What makes generated code unusable. -/
inductive Problem where
  /-- A bracket without its partner. -/
  | bracket (position : Position) (fault : BracketFault)
  /-- A literal or comment without an end. -/
  | unreadable (position : Position) (fault : Token.Fault)
  /-- A character that starts no token. -/
  | stray (position : Position) (c : Char)
  /-- A declaration of imports or exports that cannot be understood. -/
  | malformed (position : Position) (kind : DeclarationKind)
  | duplicateExport (name : String)
  | notJson (message : String)
  /-- Generated code that cannot be shortened. -/
  | notShortened (problem : Minify.Problem)
  deriving Repr, DecidableEq, Inhabited

def Problem.message : Problem → String
  | .bracket position fault => s!"{position.render}: SyntaxError: {fault.message}"
  | .unreadable position fault => s!"{position.render}: SyntaxError: {fault.message}"
  | .stray position c => s!"{position.render}: SyntaxError: unexpected character '{c}'"
  | .malformed position kind =>
    s!"{position.render}: SyntaxError: malformed {kind.word} declaration"
  | .duplicateExport name => s!"1:1: TypeError: duplicate export '{name}'"
  | .notJson message => s!"Invalid JSON module: {message}"
  | .notShortened problem => s!"Minification failed: {problem.message}"

/-- What is worth saying about a source whose code is usable. -/
inductive Warning where
  /-- An arrow function for a language version without them. -/
  | arrowFunction (position : Position)
  /-- A declaration whose names live in the whole function. -/
  | functionScoped (position : Position)
  /-- A keyword that the language version does not have. -/
  | unavailable (position : Position) (word : String)
  | duplicateExport (name : String)
  deriving Repr, DecidableEq, Inhabited

def Warning.message : Warning → String
  | .arrowFunction position => s!"{position.render}: arrow functions are not available in es5"
  | .functionScoped position =>
    s!"{position.render}: 'var' declarations are function-scoped; prefer 'тағйирёбанда'"
  | .unavailable position word => s!"{position.render}: '{word}' is not available in es5"
  | .duplicateExport name => s!"duplicate export '{name}'"

end Tarkib.Compile
