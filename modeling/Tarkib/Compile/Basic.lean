import Tarkib.Compile.Lower

/-!
# Compiling a source

Somon and JavaScript are lowered; JSON becomes the export of its text. If asked for, usable code is
shortened afterwards.
-/

namespace Tarkib.Compile

/-- The result of compiling a source. The code is usable if there are no problems. -/
structure Output where
  code : String
  problems : List Problem
  warnings : List Warning
  deriving Repr, DecidableEq, Inhabited

def Output.isUsable (output : Output) : Bool :=
  output.problems.isEmpty

/-- The wording of the problems. -/
def Output.errors (output : Output) : List String :=
  output.problems.map Problem.message

/-- The wording of the warnings. -/
def Output.remarks (output : Output) : List String :=
  output.warnings.map Warning.message

/-- Compiles a JSON text: the module exports its value. -/
def compileJson (source : String) : Output :=
  match Json.parse source with
  | .ok _ => ⟨s!"module.exports = {Text.trim source};", [], []⟩
  | .error problem => ⟨"", [.notJson (problem.message source)], []⟩

/-- Compiles a source without shortening the code. -/
def generate (options : Options) (source : String) : Output :=
  match options.kind with
  | .json => compileJson source
  | _ =>
    let lowered := lowerModule options source
    ⟨lowered.code, lowered.problems, lowered.warnings⟩

/-- Shortens usable code. -/
def shorten (output : Output) : Output :=
  if output.isUsable then
    match Minify.minify output.code with
    | .ok code => { output with code }
    | .error problem => { output with problems := [.notShortened problem] }
  else output

def compile (options : Options) (source : String) : Output :=
  let output := generate options source
  if options.minify then shorten output else output

end Tarkib.Compile
