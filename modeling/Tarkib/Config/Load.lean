import Tarkib.Config.Document
import Tarkib.Error

/-!
# Loading a configuration

A document is checked first, so that everything that is wrong with it is reported together, and then
decoded. A configuration that is at hand is checked through its document, by the same rules.
-/

namespace Tarkib.Config

def parse (text : String) : Except Error Json.Value :=
  match Json.parse text with
  | .ok v => .ok v
  | .error problem => .error (.notJson text problem)

def refuse (violations : List Violation) : Except Error Unit :=
  if violations.isEmpty then .ok () else .error (.configuration violations)

/-- Checks and decodes a document. -/
def ofDocument (document : Json.Value) : Except Error Config := do
  refuse (violations document)
  match decode document with
  | .ok config => return config
  | .error cause => throw (.setting cause)

def ofFile (project : Project) (path : Path) : Except Error Config := do
  match project.readText path with
  | .ok text => ofDocument (← parse text)
  | .error fault => throw (.unreadable fault)

def check (config : Config) : Except Error Unit :=
  refuse (violations config.encode)

/-- Decodes a document without checking it. -/
def ofUnchecked (document : Json.Value) : Except Error Config :=
  match decode document with
  | .ok config => .ok config
  | .error cause => .error (.mismatch cause)

end Tarkib.Config
