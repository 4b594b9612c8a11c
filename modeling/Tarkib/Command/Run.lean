import Tarkib.Command.Arguments
import Tarkib.Service

/-!
# Running commands

A command starts a service with the configuration of the project, lets it work and shows the result.
Running a command is a function of the project: it yields what is printed, whether the command has
succeeded, and the project with the files that were written.
-/

namespace Tarkib.Command

/-! ## Colours -/

inductive Colour where
  | red
  | green
  | yellow
  | cyan
  deriving Repr, DecidableEq, Inhabited

/-- The number by which a terminal knows a colour. -/
def Colour.code : Colour → String
  | .red => "31"
  | .green => "32"
  | .yellow => "33"
  | .cyan => "36"

def coloured (c : Colour) (word : String) : String :=
  "\x1b[" ++ c.code ++ "m" ++ word ++ "\x1b[39m"

def bold (c : Colour) (word : String) : String :=
  "\x1b[1m" ++ coloured c word ++ "\x1b[0m"

/-! ## Output -/

/-- What a command has done so far: what was printed, and the project. -/
structure Output where
  out : String := ""
  err : String := ""
  project : Project
  deriving Inhabited

/-- Why a command fails. -/
inductive Failure where
  | service (e : Error)
  /-- A directory cannot be created. -/
  | directory (fault : Project.Fault)
  /-- A file cannot be written. -/
  | file (path : Path) (fault : Project.Fault)
  deriving Inhabited

def Failure.message : Failure → String
  | .service e => e.message
  | .directory fault => fault.message
  | .file path fault => s!"cannot write {path.text}: {fault.message}"

namespace Output

def print (o : Output) (text : String) : Output :=
  { o with out := o.out ++ text }

def printLine (o : Output) (text : String) : Output :=
  o.print (text ++ "\n")

/-- Prints a line of a message. -/
def report (o : Output) (text : String) : Output :=
  { o with err := o.err ++ text ++ "\n" }

def warn (o : Output) (text : String) : Output :=
  o.report (bold .yellow "warning" ++ ": " ++ text)

def warnAll (o : Output) (texts : List String) : Output :=
  texts.foldl warn o

/-- Prints an error that was found. -/
def complain (o : Output) (text : String) : Output :=
  o.report (bold .red "error" ++ ": " ++ text)

def write (o : Output) (path : Path) (text : String) : Except (Output × Failure) Output :=
  match o.project.write path text.toUTF8 with
  | .ok project => .ok { o with project }
  | .error fault => .error (o, .file path fault)

/-- Says that a file was written. -/
def wrote (o : Output) (path : Path) : Output :=
  o.printLine (coloured .green "wrote" ++ " " ++ path.text)

/-- Creates the directory of a file. -/
def prepare (o : Output) (path : Path) : Except (Output × Failure) Output :=
  match path.parent? with
  | none => .ok o
  | some parent =>
    match o.project.createDirectory parent with
    | (project, .ok ()) => .ok { o with project }
    | (project, .error fault) => .error ({ o with project }, .directory fault)

end Output

/-- The result of a step of a command: it goes on, or fails after what it has done. -/
abbrev Step := Except (Output × Failure) Output

/-! ## The commands -/

/-- The path in `outDir` to which the code of a module is written, if the module lies in the
directory `root` of the entry or below. -/
def target? (root outDir : Path) (m : Compiled) : Option Path := do
  let id ← Bundle.id? root m.id
  let relative ← id.dropPrefix? "./"
  return (outDir.join relative.toString).withExtension "js"

def writeModule (root outDir : Path) (o : Output) (m : Compiled) : Step :=
  match target? root outDir m with
  | none => .ok (o.warn s!"{m.id.text} is outside the entry directory; skipped")
  | some target => do
    let o ← o.prepare target
    let o ← o.write target m.code
    return o.wrote target

/-- Shows the result of compiling: the code of the entry is printed, or the code of all modules is
written into a directory. -/
def showCompilation (outDir : Option Path) (c : Compilation) (o : Output) : Step :=
  let o := o.warnAll c.warnings
  match outDir with
  | none =>
    match c.modules.getLast? with
    | some entry => .ok (o.printLine entry.code)
    | none => .ok o
  | some outDir =>
    c.modules.foldlM (writeModule (c.entry.parent?.getD c.entry) outDir) o

/-- Writes the source map of a bundle. Returns the line that refers to it. -/
def writeMap (output : Path) (map : Option String) (o : Output) :
    Except (Output × Failure) (Output × String) :=
  match map with
  | none => .ok (o, "")
  | some text => do
    let path : Path := ⟨output.text ++ ".map"⟩
    let o ← o.write path text
    return (o.wrote path, "//# sourceMappingURL=" ++ path.fileName?.getD "" ++ "\n")

/-- Shows a bundle: it is printed, or written into a file. -/
def showBundle (output : Option Path) (b : Bundle) (o : Output) : Step :=
  match output with
  | none => .ok (o.print b.code)
  | some output => do
    let (o, reference) ← writeMap output b.map o
    let o ← o.write output (b.code ++ reference)
    return o.wrote output

/-- How a command ends that has not failed. -/
inductive Ending where
  | success
  /-- Something is not in order. -/
  | problems
  /-- The program has panicked; the message of the runtime is not part of the output. -/
  | panicked (p : Health.Panic)
  deriving Repr, DecidableEq, Inhabited

def Ending.exit : Ending → Nat
  | .success => 0
  | .problems => 1
  | .panicked _ => 101

/-- Shows the result of a check, and whether everything is in order. -/
def showCheck (c : Compilation) (problems : List String) (o : Output) : Output × Ending :=
  let errors := c.errors ++ problems
  let o := errors.foldl Output.complain (o.warnAll c.warnings)
  if errors.isEmpty then
    (o.printLine (bold .green "ok" ++
      s!" {c.modules.length} modules, {c.externals.length} external dependencies"), .success)
  else (o, .problems)

def showRebuild (result : Except Error Compilation) (o : Output) : Output :=
  match result with
  | .ok c =>
    (o.warnAll c.warnings).printLine (bold .green "compiled" ++ s!" {c.modules.length} modules")
  | .error e => o.complain e.message

/-- A step that cannot fail by itself, with its success. -/
def done (o : Output) : Except (Output × Failure) (Output × Ending) :=
  .ok (o, .success)

def failWith {α : Type} (o : Output) (e : Error) : Except (Output × Failure) α :=
  .error (o, .service e)

/-- Watches a module. The project does not change while a command runs, so there is nothing to
report after the first compilation. -/
def runWatch (s : Service) (o : Output) (entry : Path) :
    Except (Output × Failure) (Output × Ending) := do
  let mut s := s
  let mut o := o
  if s.config.managementServer then
    match s.serve with
    | .error e => failWith o e
    | .ok served =>
      s := served
      o := o.printLine
        (coloured .cyan "management" ++ s!" http://127.0.0.1:{s.config.managementPort}")
  let (compiled, result) := s.compile o.project 0 entry
  o := showRebuild result o
  match compiled.watch o.project 0 entry with
  | (_, .error e) => failWith o e
  | (_, .ok _) => done (o.printLine (bold .cyan "watching" ++ " " ++ entry.text))

def showHealth (s : Service) (memory : Option Nat) (o : Output) : Output × Ending :=
  match s.health o.project 0 memory with
  | (_, .error p) => (o, .panicked p)
  | (s, .ok report) =>
    let state := document
      [("health", report.document), ("statistics", (s.statistics 0).document)]
    (o.printLine state.renderLines, .success)

def bundleRequest (c : Config.Compilation) (entry : Path) (minify sourceMap inlineSources : Bool)
    (externals : List String) : Bundle.Request where
  entry
  minify := minify || c.minify
  sourceMaps := sourceMap || c.sourceMap
  inlineSources
  externals

/-- Runs a command with a service. -/
def runWith (s : Service) (memory : Option Nat) (o : Output) :
    Command → Except (Output × Failure) (Output × Ending)
  | .compile file outDir =>
    match s.compile o.project 0 file with
    | (_, .error e) => failWith o e
    | (_, .ok c) => do done (← showCompilation (outDir.or s.config.compilation.outDir) c o)
  | .bundle entry output minify sourceMap inlineSources externals =>
    let c := s.config.compilation
    match s.bundle o.project 0 (bundleRequest c entry minify sourceMap inlineSources externals) with
    | (_, .error e) => failWith o e
    | (_, .ok b) => do done (← showBundle (output.or c.output) b o)
  | .check file =>
    match s.compile o.project 0 file with
    | (_, .error e) => failWith o e
    | (s, .ok c) => .ok (showCheck c (s.problems o.project) o)
  | .watch entry => runWatch s o entry
  | .health => .ok (showHealth s memory o)

/-! ## The configuration -/

/-- The configuration file that is used if it is there. -/
def defaultConfig : Path := ⟨"somon.json"⟩

/-- The configuration file that is used, if any. -/
def configPath? (project : Project) (given : Option Path) : Option Path :=
  match given with
  | some path => some path
  | none => if project.isFile defaultConfig then some defaultConfig else none

def indentRest (text : String) : String :=
  String.ofList (text.toList.flatMap fun c =>
    if c = '\n' then "\n    ".toList else [c])

/-- The message about a configuration that cannot be loaded. -/
def configMessage (path : Path) (e : Error) : String :=
  s!"Error: failed to load configuration from {path.text}\n\nCaused by:\n    " ++
    indentRest e.message

def startService (project : Project) (given : Option Path) : Except String Service := do
  let config ←
    match configPath? project given with
    | none => pure {}
    | some path =>
      match Config.ofFile project path with
      | .ok config => pure config
      | .error e => throw (configMessage path e)
  match Service.start config true with
  | .ok s => return s
  | .error e => throw ("Error: " ++ e.message)

/-! ## Command lines -/

/-- What a command line has done: its exit code, and what was printed and written. -/
structure Result where
  exit : Nat
  out : String := ""
  err : String := ""
  project : Project
  deriving Inhabited

def versionText : String := "somon " ++ Health.Report.version ++ "\n"

/-- The text that says how commands are used. -/
def usageText : String :=
  "Usage: somon [OPTIONS] <COMMAND>\n\nCommands: compile, bundle, check, watch, health\n"

/-- Runs a command that was understood. -/
def runInvocation (project : Project) (memory : Option Nat) (i : Invocation) : Result :=
  match startService project i.config with
  | .error message => { exit := 1, err := message ++ "\n", project }
  | .ok s =>
    match runWith (s.sample memory).1 memory { project } i.command with
    | .ok (o, ending) =>
      { exit := ending.exit, out := o.out, err := o.err, project := o.project }
    | .error (o, failure) =>
      let o := o.report (bold .red "Error" ++ ": " ++ failure.message)
      { exit := 1, out := o.out, err := o.err, project := o.project }

/-- Runs a command line in a project, given the memory in use, if it is known. -/
def run (project : Project) (memory : Option Nat) (arguments : List String) : Result :=
  match parse arguments with
  | .ok i => runInvocation project memory i
  | .error .version => { exit := 0, out := versionText, project }
  | .error .help => { exit := 0, out := usageText, project }
  | .error .usage => { exit := 2, err := usageText, project }

end Tarkib.Command
