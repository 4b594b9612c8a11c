import Tarkib.Config.Basic
import Tarkib.Json.Decode

/-!
# The document of a configuration

A configuration is written as a JSON object with one member for each setting. What is left out has
its default, and a setting without a value is left out.
-/

namespace Tarkib

open Json

/-! ## Reading -/

def CyclePolicy.names : List (String × CyclePolicy) :=
  [("error", .error), ("warn", .warn), ("ignore", .ignore)]

def Config.targetNames : List (String × Compile.Target) :=
  [("es5", .es5), ("es2015", .es2015), ("es2020", .es2020), ("esnext", .esnext)]

def Config.path : Decoder Path :=
  fun v => (Decoder.pathText v).map Path.mk

def Config.Resolution.decode : Decoder Config.Resolution :=
  Decoder.record "ResolutionConfig"
    [.of "baseUrl" (.optional Config.path) fun x c => { c with baseUrl := x },
     .of "paths" (.map (.list .string)) fun x c => { c with paths := x },
     .of "extensions" (.list .string) fun x c => { c with extensions := x },
     .of "moduleDirectories" (.list .string) fun x c => { c with moduleDirectories := x },
     .of "allowJs" .bool fun x c => { c with allowJs := x },
     .of "resolveJsonModule" .bool fun x c => { c with resolveJsonModule := x }]
    {}

def Config.Loading.decode : Decoder Config.Loading :=
  Decoder.record "LoadingConfig"
    [.of "encoding" .string fun x c => { c with encoding := x },
     .of "cache" .bool fun x c => { c with cache := x },
     .of "circularDependencyStrategy" (.oneOf CyclePolicy.names)
       fun x c => { c with cyclePolicy := x },
     .of "maxCacheSize" (.optional .natural) fun x c => { c with maxCacheSize := x },
     .of "maxCacheMemory" (.optional .natural) fun x c => { c with maxCacheMemory := x }]
    {}

def Config.Compilation.decode : Decoder Config.Compilation :=
  Decoder.record "CompilationConfig"
    [.of "target" (.oneOf Config.targetNames) fun x c => { c with target := x },
     .of "sourceMap" .bool fun x c => { c with sourceMap := x },
     .of "minify" .bool fun x c => { c with minify := x },
     .of "noTypeCheck" .bool fun x c => { c with noTypeCheck := x },
     .of "strict" .bool fun x c => { c with strict := x },
     .of "watch" .bool fun x c => { c with watch := x },
     .of "compileOnSave" .bool fun x c => { c with compileOnSave := x },
     .of "output" (.optional Config.path) fun x c => { c with output := x },
     .of "outDir" (.optional Config.path) fun x c => { c with outDir := x },
     .of "timeout" .natural fun x c => { c with timeoutMs := x }]
    {}

/-- Decodes the section on ceilings. -/
def Limits.decode : Decoder Limits :=
  Decoder.record "ResourceLimitsConfig"
    [.of "maxMemoryBytes" .natural fun x c => { c with maxMemoryBytes := x },
     .of "maxFileHandles" .natural fun x c => { c with maxFileHandles := x },
     .of "maxCachedModules" .natural fun x c => { c with maxCachedModules := x },
     .of "checkInterval" .natural fun x c => { c with checkIntervalMs := x },
     .of "memoryWarningThresholds" (.list .double)
       fun x c => { c with warningThresholds := x }]
    {}

def Breaker.Settings.decode : Decoder Breaker.Settings :=
  Decoder.record "CircuitBreakerConfig"
    [.of "failureThreshold" .natural fun x c => { c with threshold := x },
     .of "recoveryTimeout" .natural fun x c => { c with recoveryMs := x }]
    {}

def Config.decode : Decoder Config :=
  Decoder.record "ModuleSystemConfig"
    [.of "resolution" Resolution.decode fun x c => { c with resolution := x },
     .of "loading" Loading.decode fun x c => { c with loading := x },
     .of "compilation" Compilation.decode fun x c => { c with compilation := x },
     .of "metrics" .bool fun x c => { c with metrics := x },
     .of "circuitBreakers" .bool fun x c => { c with circuitBreakers := x },
     .of "managementServer" .bool fun x c => { c with managementServer := x },
     .of "managementPort" .natural fun x c => { c with managementPort := x },
     .of "operationTimeout" .natural fun x c => { c with operationTimeoutMs := x },
     .of "resourceLimits" (.optional Limits.decode) fun x c => { c with resourceLimits := x },
     .of "circuitBreaker" Breaker.Settings.decode fun x c => { c with circuitBreaker := x }]
    {}

/-! ## Writing -/

def Config.texts (items : List String) : Value :=
  .array (items.map Value.string)

/-- A member that is left out if there is no value. -/
def Config.member? (key : String) (value : Option Value) : List (String × Value) :=
  match value with
  | some v => [(key, v)]
  | none => []

def CyclePolicy.name : CyclePolicy → String
  | .error => "error"
  | .warn => "warn"
  | .ignore => "ignore"

def Config.Resolution.encode (c : Config.Resolution) : Value :=
  Value.ofMembers <|
    Config.member? "baseUrl" (c.baseUrl.map fun p => .string p.text) ++
    [("paths", .object (c.paths.map fun (pattern, targets) => (pattern, Config.texts targets))),
     ("extensions", Config.texts c.extensions),
     ("moduleDirectories", Config.texts c.moduleDirectories),
     ("allowJs", .bool c.allowJs),
     ("resolveJsonModule", .bool c.resolveJsonModule)]

def Config.Loading.encode (c : Config.Loading) : Value :=
  Value.ofMembers <|
    [("encoding", .string c.encoding),
     ("cache", .bool c.cache),
     ("circularDependencyStrategy", .string c.cyclePolicy.name)] ++
    Config.member? "maxCacheSize" (c.maxCacheSize.map Value.nat) ++
    Config.member? "maxCacheMemory" (c.maxCacheMemory.map Value.nat)

def Config.Compilation.encode (c : Config.Compilation) : Value :=
  Value.ofMembers <|
    [("target", .string c.target.name),
     ("sourceMap", .bool c.sourceMap),
     ("minify", .bool c.minify),
     ("noTypeCheck", .bool c.noTypeCheck),
     ("strict", .bool c.strict),
     ("watch", .bool c.watch),
     ("compileOnSave", .bool c.compileOnSave),
     ("timeout", .nat c.timeoutMs)] ++
    Config.member? "output" (c.output.map fun p => .string p.text) ++
    Config.member? "outDir" (c.outDir.map fun p => .string p.text)

/-- The section on ceilings as a document. -/
def Limits.encode (c : Limits) : Value :=
  Value.ofMembers
    [("maxMemoryBytes", .nat c.maxMemoryBytes),
     ("maxFileHandles", .nat c.maxFileHandles),
     ("maxCachedModules", .nat c.maxCachedModules),
     ("checkInterval", .nat c.checkIntervalMs),
     ("memoryWarningThresholds",
       .array (c.warningThresholds.map fun x => .number (.double x)))]

def Breaker.Settings.encode (c : Breaker.Settings) : Value :=
  Value.ofMembers
    [("failureThreshold", .nat c.threshold), ("recoveryTimeout", .nat c.recoveryMs)]

def Config.encode (c : Config) : Value :=
  Value.ofMembers <|
    [("resolution", c.resolution.encode),
     ("loading", c.loading.encode),
     ("compilation", c.compilation.encode),
     ("metrics", .bool c.metrics),
     ("circuitBreakers", .bool c.circuitBreakers),
     ("managementServer", .bool c.managementServer),
     ("managementPort", .nat c.managementPort),
     ("operationTimeout", .nat c.operationTimeoutMs),
     ("circuitBreaker", c.circuitBreaker.encode)] ++
    Config.member? "resourceLimits" (c.resourceLimits.map Limits.encode)

end Tarkib
