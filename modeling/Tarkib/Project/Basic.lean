import Tarkib.Path.Basic

/-!
# The project directory

Everything that is read lies in a tree of directories, files and symbolic links, seen from a working
directory. The tree is a value: looking something up gives an answer or a fault, and writing gives
another tree.

A place in the tree is the list of names that lead to it from the root without any links. Looking up
a path follows links, of which a path may lead through only so many. Nothing can be looked up from a
working directory that was removed.
-/

namespace Tarkib

/-- What can stand in a directory. -/
inductive Project.Node where
  | file (content : ByteArray)
  | directory
  /-- A symbolic link with the text it leads to. -/
  | link (target : String)
  deriving Inhabited

/-- Why something cannot be looked up, read or written. -/
inductive Project.Fault where
  | notFound
  | notDirectory
  | isDirectory
  | alreadyExists
  | notEmpty
  | busy
  | invalid
  | tooManyLinks
  | nameTooLong
  | zeroCharacter
  | notText
  deriving Repr, DecidableEq, Inhabited

def Project.Fault.message : Project.Fault → String
  | .notFound => "No such file or directory (os error 2)"
  | .notDirectory => "Not a directory (os error 20)"
  | .isDirectory => "Is a directory (os error 21)"
  | .alreadyExists => "File exists (os error 17)"
  | .notEmpty => "Directory not empty (os error 39)"
  | .busy => "Device or resource busy (os error 16)"
  | .invalid => "Invalid argument (os error 22)"
  | .tooManyLinks => "Too many levels of symbolic links (os error 40)"
  | .nameTooLong => "File name too long (os error 36)"
  | .zeroCharacter => "file name contained an unexpected NUL byte"
  | .notText => "stream did not contain valid UTF-8"

/-- A tree, as a list of places and what stands there, and the working directory, unless that was
removed. -/
structure Project where
  nodes : List (List String × Project.Node) := []
  workingDirectory : Option (List String) := some []
  deriving Inhabited

namespace Project

/-! ## Looking up -/

/-- What stands at a place. The root is always a directory. -/
def node? (p : Project) (place : List String) : Option Node :=
  if place.isEmpty then some .directory else p.nodes.lookup place

def hasDirectory (p : Project) (place : List String) : Bool :=
  match p.node? place with
  | some .directory => true
  | _ => false

/-- The steps of a path text: names, single and double dots. A slash at the end asks for a directory
and counts as a dot. -/
def steps (text : String) : List String :=
  let segments := (Path.segments text.toList).map String.ofList
  let names := segments.filter (!·.isEmpty)
  if text.toList.getLast? == some '/' then names ++ ["."] else names

/-- The place where a path text starts to be looked up from the directory `base`. -/
def startOf (base : List String) (text : String) : List String :=
  if (Path.mk text).isAbsolute then [] else base

/-- The most links that a path may lead through. -/
def linkLimit : Nat := 40

/-- The longest name in bytes. -/
def nameLimit : Nat := 255

/-- The longest path in bytes. -/
def pathLimit : Nat := 4095

/-- Follows steps from a directory. `links` is the number of links that may still be followed. -/
def follow (p : Project) (links : Nat) (directory : List String) (todo : List String) :
    Except Fault (List String) :=
  match todo with
  | [] => .ok directory
  | "." :: todo => follow p links directory todo
  | ".." :: todo => follow p links directory.dropLast todo
  | name :: todo =>
    if nameLimit < name.utf8ByteSize then .error .nameTooLong
    else
      match p.node? (directory ++ [name]) with
      | none => .error .notFound
      | some .directory => follow p links (directory ++ [name]) todo
      | some (.file _) => if todo.isEmpty then .ok (directory ++ [name]) else .error .notDirectory
      | some (.link target) =>
        match links with
        | 0 => .error .tooManyLinks
        | links + 1 => follow p links (startOf directory target) (steps target ++ todo)
termination_by (links, todo.length)

/-- Refuses a path that cannot be looked up at all, whatever is there. -/
def checkPath (path : Path) : Except Fault Unit :=
  if path.text.isEmpty then .error .notFound
  else if path.text.contains '\x00' then .error .zeroCharacter
  else if pathLimit < path.text.utf8ByteSize then .error .nameTooLong
  else .ok ()

/-- The directory that a path is looked up from: the root or the working directory. -/
def baseOf (p : Project) (path : Path) : Except Fault (List String) :=
  if path.isAbsolute then .ok []
  else
    match p.workingDirectory with
    | some directory => .ok directory
    | none => .error .notFound

/-- The place that a path leads to, links followed. -/
def locate (p : Project) (path : Path) : Except Fault (List String) := do
  checkPath path
  p.follow linkLimit (← p.baseOf path) (steps path.text)

def pathOf (place : List String) : Path :=
  ⟨"/" ++ String.intercalate "/" place⟩

/-- The path of the place that a path leads to: absolute, without dots and links. -/
def canonical (p : Project) (path : Path) : Except Fault Path :=
  (p.locate path).map pathOf

/-- What stands where a path leads to. -/
def target? (p : Project) (path : Path) : Option Node :=
  match p.locate path with
  | .ok place => p.node? place
  | .error _ => none

def isFile (p : Project) (path : Path) : Bool :=
  match p.target? path with
  | some (.file _) => true
  | _ => false

def isDirectory (p : Project) (path : Path) : Bool :=
  match p.target? path with
  | some .directory => true
  | _ => false

/-- The content of the file that a path leads to. -/
def read (p : Project) (path : Path) : Except Fault ByteArray := do
  match p.node? (← p.locate path) with
  | some (.file content) => return content
  | some .directory => throw .isDirectory
  | _ => throw .notFound

/-- The content of a file as text. -/
def readText (p : Project) (path : Path) : Except Fault String := do
  match String.fromUTF8? (← p.read path) with
  | some text => return text
  | none => throw .notText

/-! ## Writing -/

def set (p : Project) (place : List String) (node : Node) : Project :=
  { p with nodes := (p.nodes.filter (·.1 != place)) ++ [(place, node)] }

/-- Removes what stands at a place and below it. -/
def remove (p : Project) (place : List String) : Project where
  nodes := p.nodes.filter fun n => !place.isPrefixOf n.1
  workingDirectory := p.workingDirectory.filter fun directory => !place.isPrefixOf directory

/-- A path text without the slashes at its end, divided behind its last slash. -/
def splitLast (text : String) : String × String :=
  let trimmed := text.toList.reverse.dropWhile (· = '/')
  (String.ofList (trimmed.dropWhile (· ≠ '/')).reverse,
    String.ofList (trimmed.takeWhile (· ≠ '/')).reverse)

/-- Whether the last part of a path text is a name, rather than dots or nothing. -/
def isName (last : String) : Bool :=
  !(["", ".", ".."].contains last)

/-- The directory that a path text leads to, seen from the directory `base`, up to its last part,
and that part. -/
def divide (p : Project) (base : List String) (text : String) :
    Except Fault (List String × String) := do
  let (front, last) := splitLast text
  let directory ← p.follow linkLimit (startOf base text) (steps front)
  if !p.hasDirectory directory then throw .notDirectory
  return (directory, last)

/-- Creates a directory. The directory that it lies in has to be there, and nothing may stand at the
path, not even a link that leads to nothing. -/
def makeDirectory (p : Project) (path : Path) : Except Fault Project := do
  checkPath path
  let (directory, last) ← p.divide (← p.baseOf path) path.text
  if !isName last then throw .alreadyExists
  if nameLimit < last.utf8ByteSize then throw .nameTooLong
  if (p.node? (directory ++ [last])).isSome then throw .alreadyExists
  return p.set (directory ++ [last]) .directory

/-- Creates a directory, unless the path leads to one. -/
def ensureDirectory (p : Project) (path : Path) : Except Fault Project :=
  match p.makeDirectory path with
  | .ok p => .ok p
  | .error fault => if p.isDirectory path then .ok p else .error fault

/-- Creates the first directory of a list in which each path lies in the next one. Those that are
missing are created before it, and stay if it fails after them. -/
def createAlong (p : Project) : List Path → Project × Except Fault Unit
  | [] => (p, .ok ())
  | path :: above =>
    if path.text.isEmpty then (p, .ok ())
    else
      match p.ensureDirectory path with
      | .ok p => (p, .ok ())
      | .error .notFound =>
        match p.createAlong above with
        | (p, .error fault) => (p, .error fault)
        | (p, .ok ()) =>
          match p.ensureDirectory path with
          | .ok p => (p, .ok ())
          | .error fault => (p, .error fault)
      | .error fault => (p, .error fault)

/-- Creates a directory and those above it that are missing. -/
def createDirectory (p : Project) (path : Path) : Project × Except Fault Unit :=
  p.createAlong path.ancestors

/-- The directory and the name of a file that is created at a path text, seen from the directory
`base`. The directory has to be there. -/
def newEntry (p : Project) (base : List String) (text : String) :
    Except Fault (List String × String) := do
  let (directory, last) ← p.divide base text
  if !isName last then throw .notFound
  if text.endsWith "/" then throw .isDirectory
  if nameLimit < last.utf8ByteSize then throw .nameTooLong
  return (directory, last)

/-- The place where a file is created that a path text, seen from the directory `base`, leads to but
that is not there. A link that leads to nothing is followed; the number bounds how many. -/
def destination (p : Project) (links : Nat) (base : List String) (text : String) :
    Except Fault (List String) :=
  match p.newEntry base text with
  | .error fault => .error fault
  | .ok (directory, last) =>
    match p.node? (directory ++ [last]) with
    | some (.link target) =>
      match links with
      | 0 => .error .tooManyLinks
      | links + 1 => p.destination links directory target
    | _ => .ok (directory ++ [last])

/-- Writes a file where a path leads to; its directory has to be there. -/
def write (p : Project) (path : Path) (content : ByteArray) : Except Fault Project :=
  match p.locate path with
  | .ok place =>
    match p.node? place with
    | some (.file _) => .ok (p.set place (.file content))
    | _ => .error .isDirectory
  | .error .notFound => do
    checkPath path
    return p.set (← p.destination linkLimit (← p.baseOf path) path.text) (.file content)
  | .error fault => .error fault

end Project

end Tarkib
