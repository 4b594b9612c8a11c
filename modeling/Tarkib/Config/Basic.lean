import Tarkib.Breaker
import Tarkib.Compile.Options
import Tarkib.Limiter

/-!
# Configuration

The configuration of a module system has sections for the resolution of specifiers, for loading, for
compilation, for ceilings on resources and for circuit breakers, besides a few switches of its own.
Everything has a default.
-/

namespace Tarkib

/-- What is done about modules that need each other in a circle. -/
inductive CyclePolicy where
  /-- The load fails. -/
  | error
  /-- The load goes on with a warning. -/
  | warn
  /-- The load goes on. -/
  | ignore
  deriving Repr, DecidableEq

instance : Inhabited CyclePolicy := ⟨.warn⟩

namespace Config

/-- How specifiers are resolved to files. -/
structure Resolution where
  /-- The directory from which the targets of aliases are found. -/
  baseUrl : Option Path := none
  /-- Aliases with their targets, in ascending order of the aliases. -/
  paths : List (String × List String) := []
  /-- Extensions that are tried, with their dots. -/
  extensions : List String := [".som", ".js", ".json"]
  /-- Names of directories that are searched for bare specifiers, from a directory upwards. -/
  moduleDirectories : List String := []
  /-- Whether plain JavaScript may be loaded. -/
  allowJs : Bool := true
  /-- Whether JSON documents may be loaded. -/
  resolveJsonModule : Bool := true
  deriving Repr, DecidableEq, Inhabited

/-- How modules are loaded and kept. -/
structure Loading where
  encoding : String := "utf-8"
  /-- Whether modules are kept for later loads. -/
  cache : Bool := true
  cyclePolicy : CyclePolicy := .warn
  /-- The greatest number of modules that are kept. -/
  maxCacheSize : Option Nat := none
  /-- The greatest number of bytes of sources and code that are kept. -/
  maxCacheMemory : Option Nat := none
  deriving Repr, DecidableEq, Inhabited

structure Compilation where
  target : Compile.Target := .es2020
  sourceMap : Bool := false
  minify : Bool := false
  noTypeCheck : Bool := false
  strict : Bool := false
  watch : Bool := false
  compileOnSave : Bool := false
  output : Option Path := none
  outDir : Option Path := none
  timeoutMs : Nat := 30000
  deriving Repr, DecidableEq, Inhabited

def Compilation.options (c : Compilation) : Compile.Options where
  target := c.target
  minify := c.minify
  typeCheck := !c.noTypeCheck
  strict := c.strict
  timeoutMs := c.timeoutMs

end Config

/-- The configuration of a module system. -/
structure Config where
  resolution : Config.Resolution := {}
  loading : Config.Loading := {}
  compilation : Config.Compilation := {}
  metrics : Bool := false
  circuitBreakers : Bool := false
  managementServer : Bool := false
  managementPort : Nat := 9464
  operationTimeoutMs : Nat := 30000
  /-- Ceilings on resources, if there are any. -/
  resourceLimits : Option Limits := none
  circuitBreaker : Breaker.Settings := {}
  deriving Repr, Inhabited

end Tarkib
