import Tarkib.Path.Basic

/-!
# What is compiled, and for whom

A source is Somon, plain JavaScript or JSON, told by the extension of its path. The generated code
is meant for one of four language versions.
-/

namespace Tarkib.Compile

/-- The language version of generated code. -/
inductive Target where
  | es5
  | es2015
  | es2020
  | esnext
  deriving Repr, DecidableEq

instance : Inhabited Target := ⟨.es2020⟩

/-- The name of a language version. -/
def Target.name : Target → String
  | .es5 => "es5"
  | .es2015 => "es2015"
  | .es2020 => "es2020"
  | .esnext => "esnext"

/-- The names that stand for language versions. -/
def Target.names : List (String × Target) :=
  [("es5", .es5), ("es2015", .es2015), ("es6", .es2015), ("es2020", .es2020), ("esnext", .esnext)]

/-- A name that stands for no language version. -/
structure UnknownTarget where
  name : String
  deriving Repr, DecidableEq, Inhabited

/-- The wording of an unknown name. -/
def UnknownTarget.message (u : UnknownTarget) : String :=
  s!"unknown target '{u.name}'"

/-- The language version with the given name, in any case of its letters. -/
def Target.parse (name : String) : Except UnknownTarget Target :=
  let lower := name.map Char.toLower
  match Target.names.lookup lower with
  | some target => .ok target
  | none => .error ⟨lower⟩

inductive SourceKind where
  | somon
  | javascript
  | json
  deriving Repr, DecidableEq, Inhabited

def SourceKind.name : SourceKind → String
  | .somon => "somon"
  | .javascript => "javascript"
  | .json => "json"

def javascriptExtensions : List String := ["js", "cjs", "mjs"]

def SourceKind.ofPath (path : Path) : SourceKind :=
  match path.extension? with
  | some extension =>
    if javascriptExtensions.contains extension then .javascript
    else if extension = "json" then .json
    else .somon
  | none => .somon

/-- How a source is compiled. -/
structure Options where
  target : Target := .es2020
  /-- Remove comments and unneeded blank space. -/
  minify : Bool := false
  /-- Report what only a look at the whole module shows as an error. -/
  typeCheck : Bool := true
  /-- Start the code with the directive for strict mode. -/
  strict : Bool := false
  /-- The longest time in milliseconds that compiling may take. -/
  timeoutMs : Nat := 30000
  kind : SourceKind := .somon
  deriving Repr, DecidableEq, Inhabited

end Tarkib.Compile
