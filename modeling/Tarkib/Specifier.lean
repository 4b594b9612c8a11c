import Tarkib.Path.Basic

/-!
# Specifiers

A module refers to others by specifiers. How a specifier starts tells whether it is a path, seen
from the directory of the module or from the root, or a bare name.
-/

namespace Tarkib.Specifier

inductive Kind where
  /-- A path from the directory of the module. -/
  | relative
  /-- A path from the root. -/
  | absolute
  /-- The name of a library or an alias. -/
  | bare
  deriving Repr, DecidableEq, Inhabited

def kind (specifier : String) : Kind :=
  if specifier = "." || specifier = ".." || specifier.startsWith "./" || specifier.startsWith "../"
  then .relative
  else if (Path.mk specifier).isAbsolute then .absolute
  else .bare

/-- The place that a specifier points at, by its spelling alone. -/
def key (specifier : String) (directory : Path) : String :=
  match kind specifier with
  | .bare => specifier
  | _ => (directory.join specifier).normalize.text

end Tarkib.Specifier
