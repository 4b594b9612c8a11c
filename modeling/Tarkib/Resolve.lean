import Tarkib.Config.Basic
import Tarkib.Error
import Tarkib.Module.Basic
import Tarkib.Specifier

/-!
# Resolving specifiers

A path means the file it names, or else the file that one of the extensions completes it to, or else
the index file of the directory it names. A bare name is an alias, or stands in one of the module
directories, or is left to the host.
-/

namespace Tarkib.Config.Resolution

/-! ## Extensions -/

/-- Whether files with an extension, written without its dot, may be loaded. -/
def allows (c : Resolution) (extension : String) : Bool :=
  if Compile.javascriptExtensions.contains extension then c.allowJs
  else if extension = "json" then c.resolveJsonModule
  else true

def withoutDots (extension : String) : String :=
  String.ofList (extension.toList.dropWhile (· = '.'))

/-- The extensions that are tried, in order. -/
def tried (c : Resolution) : List String :=
  c.extensions.filter fun extension => c.allows (withoutDots extension)

/-! ## Paths -/

/-- Whether a file may be loaded by its full name. -/
def allowsFile (c : Resolution) (path : Path) : Bool :=
  match path.extension? with
  | some extension => c.allows extension
  | none => true

/-- The path with an extension put behind its last name, if it has one. -/
def completed (path : Path) (extension : String) : Option Path :=
  path.fileName?.map fun name => path.withFileName (name ++ extension)

/-- The paths that stand for a path behind its full name: completed by extensions, and the index
files below it. -/
def alternatives (c : Resolution) (project : Project) (path : Path) : List Path :=
  c.tried.filterMap (completed path) ++
    if project.isDirectory path then c.tried.map fun extension => path.join ("index" ++ extension)
    else []

def candidates (c : Resolution) (project : Project) (path : Path) : List Path :=
  (if c.allowsFile path then [path] else []) ++ c.alternatives project path

def file? (c : Resolution) (project : Project) (path : Path) : Option Path :=
  (c.candidates project path).findSome? fun candidate =>
    if project.isFile candidate then (project.canonical candidate).toOption else none

/-! ## Aliases -/

/-- A text divided at the first asterisk, if it has one. -/
def splitAsterisk (text : String) : Option (List Char × List Char) :=
  match text.toList.dropWhile (· ≠ '*') with
  | [] => none
  | _ :: behind => some (text.toList.takeWhile (· ≠ '*'), behind)

/-- What an asterisk between two texts stands for in a specifier, if the specifier matches. -/
def capture? (front behind specifier : List Char) : Option (List Char) :=
  if front.length + behind.length ≤ specifier.length
    && front.isPrefixOf specifier && behind.isSuffixOf specifier then
    some ((specifier.drop front.length).take (specifier.length - front.length - behind.length))
  else none

/-- A text with its first asterisk replaced. -/
def substitute (captured : List Char) (text : String) : String :=
  match splitAsterisk text with
  | some (front, behind) => String.ofList (front ++ captured ++ behind)
  | none => text

/-- An alias that matches a specifier: the text before its asterisk, what the asterisk stands for,
and the targets. -/
structure Match where
  front : List Char
  captured : List Char
  targets : List String
  deriving Repr, DecidableEq, Inhabited

/-- The match of an alias with an asterisk. -/
def match? (specifier : String) (entry : String × List String) : Option Match := do
  let (front, behind) ← splitAsterisk entry.1
  let captured ← capture? front behind specifier.toList
  return ⟨front, captured, entry.2⟩

/-- The match with the longer text, in bytes, before its asterisk; of two equal ones the first. -/
def better (best : Option Match) (m : Match) : Option Match :=
  match best with
  | none => some m
  | some b => if Text.byteLength b.front < Text.byteLength m.front then some m else some b

/-- The targets of the alias that a specifier stands for. An alias without asterisk comes first,
then the one with the longest text before its asterisk. -/
def aliasTargets? (c : Resolution) (specifier : String) : Option (List String) :=
  let exact := if specifier.contains '*' then none else c.paths.lookup specifier
  match exact with
  | some targets => some targets
  | none =>
    let best := (c.paths.filterMap (match? specifier)).foldl better none
    best.map fun m => m.targets.map (substitute m.captured)

/-! ## Specifiers -/

/-- The directory that the targets of aliases are seen from. -/
def base (c : Resolution) (directory : Path) : Path :=
  match c.baseUrl with
  | some path => if path.isAbsolute then path else directory.join path.text
  | none => if directory.isAbsolute then directory else directory.join directory.text

/-- The paths in module directories that a bare name may stand for. -/
def modulePaths (c : Resolution) (specifier : String) (directory : Path) : List Path :=
  c.moduleDirectories.flatMap fun name =>
    directory.ancestors.map fun ancestor => (ancestor.join name).join specifier

def resolveBare (c : Resolution) (project : Project) (specifier : String) (directory : Path) :
    Except Error Resolved :=
  match c.aliasTargets? specifier with
  | some targets =>
    match targets.findSome? fun target => c.file? project ((c.base directory).join target) with
    | some path => .ok (.file path)
    | none => .error (.resolution specifier directory)
  | none =>
    match (c.modulePaths specifier directory).findSome? (c.file? project) with
    | some path => .ok (.file path)
    | none => .ok (.external specifier)

def resolvePath (c : Resolution) (project : Project) (path : Path) (specifier : String)
    (directory : Path) : Except Error Resolved :=
  match c.file? project path with
  | some file => .ok (.file file)
  | none => .error (.resolution specifier directory)

/-- Resolves a specifier that stands in a module of the given directory. -/
def resolve (c : Resolution) (project : Project) (specifier : String) (directory : Path) :
    Except Error Resolved :=
  match Specifier.kind specifier with
  | .relative => c.resolvePath project (directory.join specifier) specifier directory
  | .absolute => c.resolvePath project ⟨specifier⟩ specifier directory
  | .bare => c.resolveBare project specifier directory

end Tarkib.Config.Resolution
