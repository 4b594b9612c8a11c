import Tarkib.Bundle.Layout
import Tarkib.Bundle.SourceMap
import Tarkib.Loader.Load

/-!
# Bundles

A bundle is made from a graph of modules. In the code of each module the references to other modules
of the graph are replaced by the ids of these modules; references to declared libraries stay.
Anything else cannot be bundled. The codes are laid out in one text, which can be shortened, and
whose lines can be mapped to the lines of the sources.
-/

namespace Tarkib

structure Bundle.Request where
  entry : Path
  format : String := "commonjs"
  minify : Bool := false
  sourceMaps : Bool := false
  /-- Whether the map holds the sources. -/
  inlineSources : Bool := false
  /-- Libraries that are left to the host. -/
  externals : List String := []
  deriving Repr, DecidableEq, Inhabited

/-- A bundle: its text, and the text of its source map. -/
structure Bundle where
  code : String
  map : Option String
  deriving Repr, DecidableEq, Inhabited

namespace Bundle

/-! ## References -/

abbrev Ids := List (Path × String)

/-- The id of the module at a path. -/
def Ids.find? (ids : Ids) (path : Path) : Option String :=
  (List.find? (fun e => e.1.same path) ids).map Prod.snd

/-- The text that takes the place of the argument of a call, or none if the argument stays. -/
def replacement (m : Module) (id : String) (ids : Ids) (externals : List String) (call : Require) :
    Except BundleFault (Option String) :=
  match call.argument with
  | .dynamic => .error (.dynamic id call.position)
  | .substituted => .error (.substituted id call.position)
  | .literal specifier =>
    match m.dependencies.find? (·.specifier == specifier) with
    | none => .error (.neverResolved specifier id)
    | some d =>
      match d.target with
      | .file path =>
        match ids.find? path with
        | some target => .ok (some (Json.quote target))
        | none => .error (.notLoaded specifier id)
      | .external name =>
        if externals.contains name then .ok none else .error (.undeclared name id)

/-- The replacements in the code of a module, by the offsets at which the arguments start. -/
def replacements (m : Module) (id : String) (ids : Ids) (externals : List String) :
    List Require → Except BundleFault (List (Nat × String))
  | [] => .ok []
  | call :: calls => do
    let text? ← replacement m id ids externals call
    let later ← replacements m id ids externals calls
    match text? with
    | some text => return (call.start, text) :: later
    | none => return later

/-- The text of tokens, some of which are replaced. -/
def splice (replaced : List (Nat × String)) (tokens : List Token) : String :=
  String.join (tokens.map fun t => (replaced.lookup t.start).getD t.text)

/-- The code of a module with its references replaced. -/
def link (m : Module) (id : String) (ids : Ids) (externals : List String) :
    Except BundleFault String := do
  let replaced ← replacements m id ids externals (Require.calls m.code)
  return splice replaced (Token.scan m.code)

/-! ## Making a bundle -/

/-- The ids of modules in a bundle whose entry lies in `root`. -/
def assignIds (root : Path) (modules : List Module) : Except BundleFault Ids :=
  modules.mapM fun m =>
    match id? root m.id with
    | some id => .ok (m.id, id)
    | none => .error (.place m.id)

/-- The modules as they stand in the bundle. -/
def parts (ids : Ids) (externals : List String) (modules : List Module) :
    Except BundleFault (List Part) :=
  modules.mapM fun m => do
    let id := (ids.find? m.id).getD ""
    return ⟨id, ← link m id ids externals⟩

/-- Maps the lines of a module that starts on the line `start` to the lines of its source. -/
def mapPart (map : SourceMap) (m : Module) (part : Part) (start : Nat) : SourceMap :=
  let source := map.sources.length
  (List.range (Text.lineFeedCount part.code + 1)).foldl
    (fun map line => map.mapLine (start + line) ⟨source, line⟩)
    (map.addSource ⟨part.id, m.source⟩)

def sourceMap (modules : List Module) (parts : List Part) : SourceMap :=
  ((modules.zip parts).zip (startLines parts)).foldl
    (fun map ((m, part), start) => mapPart map m part start) {}

/-- The bundle of a graph whose entry lies in `root`. -/
def ofGraph (root : Path) (request : Request) (g : Graph) : Except BundleFault Bundle := do
  let ids ← assignIds root g.modules
  let parts ← parts ids request.externals g.modules
  let text := render parts ((ids.find? g.entry.id).getD "")
  let code ←
    if request.minify then
      match Minify.minify text with
      | .ok code => pure code
      | .error problem => throw (.notShortened problem)
    else pure text
  let map := if request.sourceMaps then
      some ((sourceMap g.modules parts).render request.inlineSources)
    else none
  return ⟨code, map⟩

end Bundle

/-- Loads an entry and bundles it with everything it depends on. -/
def Loader.bundle (l : Loader) (project : Project) (now : Nat) (request : Bundle.Request) :
    Loader × Except Error Bundle :=
  if request.format ≠ "commonjs" then (l, .error (.bundle (.format request.format)))
  else
    match project.canonical request.entry with
    | .error _ =>
      (l, .error (.resolution request.entry.text (request.entry.parent?.getD ⟨""⟩)))
    | .ok entry =>
      match entry.parent? with
      | none => (l, .error (.bundle .noDirectory))
      | some root =>
        match l.loadGraph project now entry with
        | (l, .error e) => (l, .error e)
        | (l, .ok g) =>
          match Bundle.ofGraph root request g with
          | .ok bundle => (l, .ok bundle)
          | .error fault => (l, .error (.bundle fault))

end Tarkib
