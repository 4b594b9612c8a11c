import Tarkib.Json.Quoted
import Tarkib.Path.Basic
import Tarkib.Text.Position

/-!
# The text of a bundle

A bundle is one expression: a small loader applied to a table of modules and the id of the module to
start with. Each module is a function whose body is the code of the module, on lines of its own, so
that the line on which it starts is known.

The id of a module is the way to its file from the directory of the entry module. It does not depend
on where the project lies.
-/

namespace Tarkib.Bundle

/-! ## Ids -/

/-- The id of the file at `path` in a bundle whose entry module lies in `root`, if there is a way.
Both paths are bytes, and the id is what the names on the way are read as. -/
def idOfBytes? (root path : Path) : Option String :=
  (path.relativeTo? root).map fun parts =>
    let joined := String.intercalate "/" (parts.map fun c => Text.decode c.text)
    if joined.startsWith "../" then joined else "./" ++ joined

/-- The id of a file whose path is a text. -/
def id? (root path : Path) : Option String :=
  idOfBytes? root.encoded path.encoded

/-! ## Layout -/

/-- A module as it stands in a bundle. -/
structure Part where
  id : String
  code : String
  deriving Repr, DecidableEq, Inhabited

def loaderLines : List String := [
  "(function (modules, entry) \x7b",
  "  var cache = \x7b\x7d;",
  "  var has = Object.prototype.hasOwnProperty;",
  "  function hostRequire(id) \x7b",
  "    if (typeof require === \"function\") return require(id);",
  "    throw new Error(\"Cannot find module '\" + id + \"'\");",
  "  \x7d",
  "  function load(id) \x7b",
  "    if (has.call(cache, id)) return cache[id].exports;",
  "    var module = \x7b exports: \x7b\x7d \x7d;",
  "    cache[id] = module;",
  "    modules[id].call(module.exports, module, module.exports, function (request) \x7b",
  "      return has.call(modules, request) ? load(request) : hostRequire(request);",
  "    \x7d);",
  "    return module.exports;",
  "  \x7d",
  "  var result = load(entry);",
  "  if (typeof module !== \"undefined\") module.exports = result;",
  "  return result;",
  "\x7d)(\x7b"]

/-- The loader, up to the table of modules. -/
def loader : String :=
  String.intercalate "\n" loaderLines

/-- The line that opens a module. -/
def header (id : String) : String :=
  Json.quote id ++ ": function (module, exports, require) \x7b"

/-- A module in the table. -/
def Part.text (p : Part) : String :=
  header p.id ++ "\n" ++ p.code ++ "\n\x7d"

/-- The text of a bundle that starts with the module `entry`. -/
def render (parts : List Part) (entry : String) : String :=
  let table := String.intercalate "," (parts.map fun p => "\n" ++ p.text)
  loader ++ table ++ "\n\x7d, " ++ Json.quote entry ++ ");\n"

/-- The lines, counted from zero, on which the codes of the modules start, if the line of the loader
that opens the table, or the last line of the module before, is `line`. -/
def startLinesFrom (line : Nat) : List Part → List Nat
  | [] => []
  | p :: ps =>
    let start := line + 2
    start :: startLinesFrom (start + Text.lineFeedCount p.code + 1) ps

/-- The lines, counted from zero, on which the codes of the modules start in the bundle. -/
def startLines (parts : List Part) : List Nat :=
  startLinesFrom (loaderLines.length - 1) parts

end Tarkib.Bundle
