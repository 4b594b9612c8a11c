import Tarkib.Compile.Basic
import Tarkib.Loader.Basic
import Tarkib.Require
import Tarkib.Resolve

/-!
# Attempts to load a file

Loading a file goes through stages. At first units are taken from the limiter, one for the module,
if modules are kept, and one for the open file, and the breaker of the path is asked. Then the file
is read and closed, the source is compiled, and the references in the code are resolved. At last the
breaker is told the outcome. A failure at any stage gives the units back.
-/

namespace Tarkib.Loader

/-- An attempt that was admitted, with the ticket of the breaker, if there is one. -/
structure Attempt where
  path : Path
  ticket : Option Breakers.Ticket
  deriving Repr, DecidableEq, Inhabited

/-! ## The first stage -/

/-- Takes a unit for a module that is to be kept. -/
def reserve (l : Loader) : Except Error Loader :=
  match l.limiter with
  | none => .ok l
  | some limiter =>
    if l.loading.cache then
      match limiter.reserveModule? with
      | some limiter => .ok { l with limiter := some limiter }
      | none => .error (.tooManyModules limiter.limits.maxCachedModules)
    else .ok l

/-- Takes a unit for a file. -/
def openFile (l : Loader) : Except Error Loader :=
  match l.limiter with
  | none => .ok l
  | some limiter =>
    match limiter.openFile? with
    | some limiter => .ok { l with limiter := some limiter }
    | none => .error (.tooManyFiles limiter.limits.maxFileHandles)

def takeUnits (l : Loader) : Except Error Loader := do
  (← l.reserve).openFile

/-- Gives back the unit for a module that is not kept after all. -/
def unreserve (l : Loader) : Loader :=
  if l.loading.cache then l.limit Limiter.releaseModule else l

/-- Gives back the unit for a file. -/
def closeFile (l : Loader) : Loader :=
  l.limit Limiter.closeFile

/-- Asks the breaker with the given key, if there are breakers. -/
def ask (l : Loader) (key : String) (now : Nat) :
    Loader × Except Error (Option Breakers.Ticket) :=
  match l.breakers with
  | none => (l, .ok none)
  | some breakers =>
    match breakers.request key now with
    | (breakers, .ok ticket) => ({ l with breakers := some breakers }, .ok (some ticket))
    | (breakers, .error refusal) =>
      ({ l with breakers := some breakers }, .error (.refused refusal))

/-- Tells the breaker that admitted a call how the call ended. -/
def report (l : Loader) (ticket : Option Breakers.Ticket) (success : Bool) (now : Nat) : Loader :=
  match ticket with
  | none => l
  | some t => { l with breakers := l.breakers.map (·.complete t success now) }

def beginAttempt (l : Loader) (now : Nat) (path : Path) : Loader × Except Error Attempt :=
  let l := l.count .cacheMisses
  match l.takeUnits with
  | .error e => (l, .error e)
  | .ok l =>
    match l.ask path.text now with
    | (l, .ok ticket) => (l, .ok ⟨path, ticket⟩)
    | (l, .error e) => (l.closeFile.unreserve, .error e)

/-! ## Reading and compiling -/

def readSource (project : Project) (path : Path) : Except Error String :=
  match project.read path with
  | .error fault => .error (.load path (.unreadable fault))
  | .ok bytes =>
    match String.fromUTF8? bytes with
    | some source => .ok source
    | none => .error (.load path .notText)

/-- Resolves the references in the code of a module. -/
def dependencies (c : Config.Resolution) (project : Project) (path : Path) (code : String) :
    Except Error (List Dependency) :=
  let directory := path.parent?.getD path
  (Require.specifiers code).mapM fun specifier =>
    match c.resolve project specifier directory with
    | .ok target => .ok ⟨specifier, target⟩
    | .error _ => .error (.load path (.unresolved specifier directory))

/-- Compiles a source and resolves its references. Compiling takes no time and always ends, so the
limit on its time is not looked at. -/
def build (l : Loader) (project : Project) (path : Path) (source : String) :
    Except Error Module := do
  let output := Compile.compile { l.options with kind := .ofPath path } source
  if !output.isUsable then throw (.load path (.problems output.problems))
  let dependencies ← dependencies l.resolution project path output.code
  return { id := path, source, code := output.code, warnings := output.remarks, dependencies
           loadedAt := l.clock l.readings }

/-! ## The last stage -/

/-- Ends an attempt: the breaker is told, a module is counted, and on failure its unit is given
back. -/
def endAttempt (l : Loader) (now : Nat) (a : Attempt) (result : Except Error Module) : Loader :=
  match result with
  | .ok _ => ((l.report a.ticket true now).readClock.count .modulesLoaded).observe "compile"
  | .error _ => (l.report a.ticket false now).unreserve

/-- Makes an attempt to load a file. -/
def attempt (l : Loader) (project : Project) (now : Nat) (path : Path) :
    Loader × Except Error Module :=
  match l.beginAttempt now path with
  | (l, .error e) => (l, .error e)
  | (l, .ok a) =>
    let result := do l.build project path (← readSource project path)
    (l.closeFile.endAttempt now a result, result)

end Tarkib.Loader
