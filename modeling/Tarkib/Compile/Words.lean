/-!
# Words of the language

Keywords are Tajik words that stand for JavaScript ones. In declarations of imports and exports a
word may be written in either language.
-/

namespace Tarkib.Compile

def keywords : List (String × String) := [
  ("функсия", "function"),
  ("бозгашт", "return"),
  ("собит", "const"),
  ("тағйирёбанда", "let"),
  ("агар", "if"),
  ("вагарна", "else"),
  ("токи", "while"),
  ("барои", "for"),
  ("дуруст", "true"),
  ("нодуруст", "false"),
  ("холӣ", "null"),
  ("синф", "class"),
  ("нав", "new"),
  ("ин", "this"),
  ("кӯшиш", "try"),
  ("гирифтан", "catch"),
  ("партофтан", "throw"),
  ("ҳамзамон", "async"),
  ("интизор", "await"),
  ("чоп", "console")]

def consoleWord : String := "чоп"

def consoleMembers : List (String × String) := [
  ("сабт", "log"),
  ("хато", "error"),
  ("огоҳӣ", "warn"),
  ("маълумот", "info")]

def importWords : List String := ["import", "воридот"]

def exportWords : List String := ["export", "содирот"]

/-- Words before the module that a declaration refers to. -/
def fromWords : List String := ["from", "аз"]

/-- Words before another name. -/
def asWords : List String := ["as", "ҳамчун"]

def defaultWords : List String := ["default", "пешфарз"]

def functionWords : List String := ["function", "функсия"]

def classWords : List String := ["class", "синф"]

def asyncWords : List String := ["async", "ҳамзамон"]

def variableWords : List String := ["const", "let", "var", "собит", "тағйирёбанда"]

end Tarkib.Compile
