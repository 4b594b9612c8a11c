import Tarkib.Breaker
import Tarkib.Compile.Diagnostic
import Tarkib.Config.Check
import Tarkib.Project.Basic

/-!
# Errors

Every way in which an operation of the module system can fail is kept as its cause; one function
puts it into words.
-/

namespace Tarkib

open Tarkib.Text (Position)

/-- Why a module cannot be loaded. -/
inductive LoadFault where
  /-- The file cannot be read. -/
  | unreadable (fault : Project.Fault)
  /-- The file holds no text. -/
  | notText
  /-- The source cannot be compiled. -/
  | problems (problems : List Compile.Problem)
  /-- A specifier in the code means nothing. -/
  | unresolved (specifier : String) (directory : Path)
  deriving Repr, DecidableEq, Inhabited

/-- Why modules cannot be bundled. -/
inductive BundleFault where
  | format (name : String)
  /-- An entry that lies in no directory. -/
  | noDirectory
  /-- A module that has no way from the directory of the entry module. -/
  | place (path : Path)
  /-- A reference that is computed when the code runs. -/
  | dynamic (id : String) (position : Position)
  /-- A reference by a template with substitutions. -/
  | substituted (id : String) (position : Position)
  /-- A library that was not declared. -/
  | undeclared (name : String) (id : String)
  /-- A reference to a module that was not loaded. -/
  | notLoaded (specifier : String) (id : String)
  /-- A reference that was not resolved when the module was loaded. -/
  | neverResolved (specifier : String) (id : String)
  /-- Code that cannot be shortened. -/
  | notShortened (problem : Minify.Problem)
  deriving Repr, DecidableEq, Inhabited

/-- Why an operation of the module system fails. -/
inductive Error where
  /-- A specifier that means nothing, seen from a directory. -/
  | resolution (specifier : String) (directory : Path)
  | load (path : Path) (fault : LoadFault)
  /-- Modules that need each other in a circle, the first one also at the end. -/
  | circle (ids : List String)
  | configuration (violations : List Config.Violation)
  /-- A configuration with a setting that does not fit. -/
  | setting (mismatch : Json.Mismatch)
  | tooManyModules (limit : Nat)
  | tooManyFiles (limit : Nat)
  | refused (refusal : Breakers.Refusal)
  | bundle (fault : BundleFault)
  | timeout (operation : String) (limitMs : Nat)
  /-- Operations of a batch that were cut off. -/
  | late (operations : List String)
  /-- Subscriptions to directories that have ended before the session they belong to. -/
  | unsubscribed (directories : List Path)
  /-- Something could not be read. -/
  | unreadable (fault : Project.Fault)
  /-- A text that is no JSON document. -/
  | notJson (source : String) (problem : Json.Problem)
  /-- A JSON document of the wrong form. -/
  | mismatch (mismatch : Json.Mismatch)
  /-- The management server is asked for but not configured. -/
  | serverDisabled
  | shutDown
  deriving Inhabited

/-! ## Wording -/

/-- The wording of a specifier that means nothing. -/
def unresolvedMessage (specifier : String) (directory : Path) : String :=
  s!"Cannot resolve module '{specifier}' from '{directory.text}'"

def LoadFault.message : LoadFault → String
  | .unreadable fault => fault.message
  | .notText => "source is not valid UTF-8"
  | .problems causes => String.intercalate "; " (causes.map Compile.Problem.message)
  | .unresolved specifier directory => unresolvedMessage specifier directory

def BundleFault.message : BundleFault → String
  | .format name => s!"Unsupported bundle format '{name}'; only 'commonjs' is supported"
  | .noDirectory => "entry point has no parent directory"
  | .place path => s!"cannot place '{path.text}' in the bundle"
  | .dynamic id position =>
    s!"Dynamic require expressions are not supported ({id}:{position.render})"
  | .substituted id position =>
    s!"Dynamic template literal require expressions are not supported ({id}:{position.render})"
  | .undeclared name id =>
    s!"'{name}' required from {id} is neither a local module nor a declared external"
  | .notLoaded specifier id => s!"'{specifier}' required from {id} was not loaded"
  | .neverResolved specifier id => s!"'{specifier}' required from {id} was never resolved"
  | .notShortened problem =>
    s!"minification failed: {(Compile.Problem.notShortened problem).message}"

/-- The wording of modules that need each other in a circle. -/
def circleMessage (ids : List String) : String :=
  "Circular dependency detected: " ++ String.intercalate " -> " ids

def configurationMessage (faults : List String) : String :=
  "Invalid module system configuration:\n" ++
    String.intercalate "\n" (faults.map fun fault => "  - " ++ fault)

/-- The wording of a subscription to a directory that has ended too early. -/
def unsubscribedMessage (directory : Path) : String :=
  s!"{directory.text}: No watch was found. about [{Text.shownPath directory.text}]"

def Error.message : Error → String
  | .resolution specifier directory => unresolvedMessage specifier directory
  | .load path fault => s!"Failed to load module '{path.text}': {fault.message}"
  | .circle ids => circleMessage ids
  | .configuration violations => configurationMessage (violations.map Config.Violation.message)
  | .setting cause => configurationMessage [cause.message]
  | .tooManyModules limit => s!"Resource limit exceeded: maxCachedModules (limit {limit})"
  | .tooManyFiles limit => s!"Resource limit exceeded: maxFileHandles (limit {limit})"
  | .refused refusal =>
    s!"Circuit breaker open for '{refusal.key}'; retry in {refusal.retryInMs} ms"
  | .bundle fault => s!"Bundle error: {fault.message}"
  | .timeout operation limitMs => s!"Operation '{operation}' timed out after {limitMs} ms"
  | .late operations =>
    let names := String.intercalate ", " operations
    s!"{operations.length} operations timed out: {names}"
  | .unsubscribed directories =>
    "Watch error: " ++ String.intercalate "; " (directories.map unsubscribedMessage)
  | .unreadable fault => s!"File system error: {fault.message}"
  | .notJson source problem => s!"JSON parse error: {problem.message source}"
  | .mismatch cause => s!"JSON parse error: {cause.message}"
  | .serverDisabled => "Management server error: managementServer is not enabled"
  | .shutDown => "Module system has been shut down"

end Tarkib
