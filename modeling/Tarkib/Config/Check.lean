import Tarkib.Json.Decode
import Tarkib.Text.Position

/-!
# Violations of a configuration document

A document is checked as a whole, before it is decoded, and all that is wrong with it is reported
together. A setting that is absent or null is never wrong. Each check returns the violations it
finds, in the order in which they are reported.
-/

namespace Tarkib.Config

open Json

/-- What is wrong with a setting. -/
inductive Violation where
  | kind (setting expected : String) (found : Value)
  /-- An item of a list has the wrong kind. -/
  | item (setting : String) (index : Nat) (found : Value)
  /-- An extension, counted among those that are texts, does not start with a dot or is a dot. -/
  | extension (index : Nat) (found : String)
  | encoding (found : String)
  | choice (setting : String) (allowed : List String) (found : String)
  /-- No integer, or one out of range; `most` is absent if any greater integer would do. -/
  | range (setting : String) (least : Nat) (most : Option Nat) (found : Value)
  /-- No number above zero and up to one hundred. -/
  | percentage (index : Nat) (found : Value)
  /-- The management server needs a switch that is off. -/
  | serverNeeds (switch : String)
  deriving Repr, Inhabited

def kindName : Value → String
  | .null => "null"
  | .bool _ => "boolean"
  | .number _ => "number"
  | .string _ => "string"
  | .array _ => "array"
  | .object _ => "object"

def Violation.message : Violation → String
  | .kind setting expected found => s!"{setting} must be {expected} (got {kindName found})"
  | .item setting index found => s!"{setting}[{index}] must be a string (got {kindName found})"
  | .extension index found =>
    s!"resolution.extensions[{index}] must start with \".\" (got \"{found}\")"
  | .encoding found => s!"loading.encoding must be \"utf-8\" (got \"{found}\")"
  | .choice setting allowed found =>
    let names := String.intercalate ", " allowed
    s!"{setting} must be one of {names} (got \"{found}\")"
  | .range setting least none found =>
    s!"{setting} must be an integer >= {least} (got {found.render})"
  | .range setting least (some most) found =>
    s!"{setting} must be an integer between {least} and {most} (got {found.render})"
  | .percentage index found =>
    "resourceLimits.memoryWarningThresholds[" ++ Decimal.digitText index ++
      "] must be a percentage in (0, 100] (got " ++ found.render ++ ")"
  | .serverNeeds switch => s!"managementServer requires {switch} to be enabled"

/-! ## Checks of one setting -/

/-- The value of a setting, unless it is null. -/
def setting? (key : String) (members : List (String × Value)) : Option Value :=
  match find? key members with
  | some .null => none
  | v => v

def checkSection (name : String) (check : List (String × Value) → List Violation) :
    Option Value → List Violation
  | none => []
  | some (.object members) => check members
  | some v => [.kind name "an object" v]

def checkSwitch (name : String) : Option Value → List Violation
  | none => []
  | some (.bool _) => []
  | some v => [.kind name "a boolean" v]

def checkText (name : String) (check : String → List Violation) : Option Value → List Violation
  | none => []
  | some (.string s) => check s
  | some v => [.kind name "a string" v]

def itemViolations (name : String) (items : List Value) : List Violation :=
  items.zipIdx.flatMap fun (v, index) =>
    match v with
    | .string _ => []
    | v => [.item name index v]

def textItems (items : List Value) : List String :=
  items.filterMap fun v =>
    match v with
    | .string s => some s
    | _ => none

def checkTexts (name : String) (check : List String → List Violation) :
    Option Value → List Violation
  | none => []
  | some (.array items) => itemViolations name items ++ check (textItems items)
  | some v => [.kind name "an array of strings" v]

def checkInteger (name : String) (least : Nat) (most : Option Nat) : Option Value → List Violation
  | none => []
  | some (.number (.natural n)) =>
    if least ≤ n && most.all (n ≤ ·) then [] else [.range name least most (.nat n)]
  | some v => [.range name least most v]

def checkChoice (name : String) (allowed : List String) : Option Value → List Violation :=
  checkText name fun s => if allowed.contains s then [] else [.choice name allowed s]

def isOn : Option Value → Bool
  | some (.bool b) => b
  | _ => false

/-! ## Checks of sections -/

/-- Whether an extension starts with a dot and goes on. -/
def isExtension (s : String) : Bool :=
  s.startsWith "." && 2 ≤ Text.byteLength s.toList

def extensionViolations (extensions : List String) : List Violation :=
  extensions.zipIdx.flatMap fun (s, index) => if isExtension s then [] else [.extension index s]

def checkResolution (ms : List (String × Value)) : List Violation :=
  checkText "resolution.baseUrl" (fun _ => []) (setting? "baseUrl" ms) ++
  checkSection "resolution.paths"
    (fun paths => paths.flatMap fun (pattern, targets) =>
      checkTexts s!"resolution.paths[\"{pattern}\"]" (fun _ => [])
        (setting? pattern [(pattern, targets)]))
    (setting? "paths" ms) ++
  checkTexts "resolution.extensions" extensionViolations (setting? "extensions" ms) ++
  checkTexts "resolution.moduleDirectories" (fun _ => []) (setting? "moduleDirectories" ms) ++
  checkSwitch "resolution.allowJs" (setting? "allowJs" ms) ++
  checkSwitch "resolution.resolveJsonModule" (setting? "resolveJsonModule" ms)

def isKnownEncoding (name : String) : Bool :=
  ["utf-8", "utf8"].contains (name.map Char.toLower)

def checkLoading (ms : List (String × Value)) : List Violation :=
  checkText "loading.encoding" (fun s => if isKnownEncoding s then [] else [.encoding s])
    (setting? "encoding" ms) ++
  checkSwitch "loading.cache" (setting? "cache" ms) ++
  checkChoice "loading.circularDependencyStrategy" ["error", "warn", "ignore"]
    (setting? "circularDependencyStrategy" ms) ++
  checkInteger "loading.maxCacheSize" 1 none (setting? "maxCacheSize" ms) ++
  checkInteger "loading.maxCacheMemory" 1 none (setting? "maxCacheMemory" ms)

def checkCompilation (ms : List (String × Value)) : List Violation :=
  checkChoice "compilation.target" ["es5", "es2015", "es2020", "esnext"] (setting? "target" ms) ++
  (["sourceMap", "minify", "noTypeCheck", "strict", "watch", "compileOnSave"].flatMap fun switch =>
    checkSwitch s!"compilation.{switch}" (setting? switch ms)) ++
  checkText "compilation.output" (fun _ => []) (setting? "output" ms) ++
  checkText "compilation.outDir" (fun _ => []) (setting? "outDir" ms) ++
  checkInteger "compilation.timeout" 1 (some 600000) (setting? "timeout" ms)

/-- Whether a value is a number above zero and up to one hundred. -/
def isPercentage : Value → Bool
  | .number n => 0.0 < n.toDouble && n.toDouble ≤ 100.0
  | _ => false

/-- Checks the thresholds for warnings about memory. -/
def checkThresholds : Option Value → List Violation
  | none => []
  | some (.array items) =>
    items.zipIdx.flatMap fun (v, index) => if isPercentage v then [] else [.percentage index v]
  | some v => [.kind "resourceLimits.memoryWarningThresholds" "an array" v]

/-- Checks the section on ceilings. -/
def checkLimits (ms : List (String × Value)) : List Violation :=
  checkInteger "resourceLimits.maxMemoryBytes" 1048576 none (setting? "maxMemoryBytes" ms) ++
  checkInteger "resourceLimits.maxFileHandles" 1 none (setting? "maxFileHandles" ms) ++
  checkInteger "resourceLimits.maxCachedModules" 1 none (setting? "maxCachedModules" ms) ++
  checkInteger "resourceLimits.checkInterval" 100 (some 60000) (setting? "checkInterval" ms) ++
  checkThresholds (setting? "memoryWarningThresholds" ms)

def checkBreaker (ms : List (String × Value)) : List Violation :=
  checkInteger "circuitBreaker.failureThreshold" 1 none (setting? "failureThreshold" ms) ++
  checkInteger "circuitBreaker.recoveryTimeout" 1 none (setting? "recoveryTimeout" ms)

/-- What the management server needs and does not have. -/
def checkServer (ms : List (String × Value)) : List Violation :=
  if isOn (setting? "managementServer" ms) then
    ["metrics", "circuitBreakers"].flatMap fun switch =>
      if isOn (setting? switch ms) then [] else [.serverNeeds switch]
  else []

def checkMembers (ms : List (String × Value)) : List Violation :=
  checkSection "resolution" checkResolution (setting? "resolution" ms) ++
  checkSection "loading" checkLoading (setting? "loading" ms) ++
  checkSection "compilation" checkCompilation (setting? "compilation" ms) ++
  checkSwitch "metrics" (setting? "metrics" ms) ++
  checkSwitch "circuitBreakers" (setting? "circuitBreakers" ms) ++
  checkSwitch "managementServer" (setting? "managementServer" ms) ++
  checkServer ms ++
  checkInteger "managementPort" 1 (some 65535) (setting? "managementPort" ms) ++
  checkInteger "operationTimeout" 1000 (some 600000) (setting? "operationTimeout" ms) ++
  checkSection "resourceLimits" checkLimits (setting? "resourceLimits" ms) ++
  checkSection "circuitBreaker" checkBreaker (setting? "circuitBreaker" ms)

def violations : Value → List Violation
  | .null => []
  | v => checkSection "configuration" checkMembers (some v)

end Tarkib.Config
