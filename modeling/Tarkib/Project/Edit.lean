import Tarkib.Project.Basic

/-!
# Changing a project

Changes from outside: something is put at a path, removed or renamed. Putting something creates the
directories that the path leads through. Each change says which places it has touched. A change that
fails may have done a part of its work, so the tree is returned in any case.

Renaming moves what stands at a path with everything below it. It may take the place of something of
its own kind: a file that of a file or a link, and a directory that of an empty directory.
-/

namespace Tarkib.Project

/-- The place of a path itself. Its last part has to be a name, and is not followed if it is a
link. -/
def placeOf (p : Project) (path : Path) : Except Fault (List String) := do
  checkPath path
  let (directory, last) ← p.divide (← p.baseOf path) path.text
  if !isName last then throw .busy
  if nameLimit < last.utf8ByteSize then throw .nameTooLong
  return directory ++ [last]

/-- Whether a path text asks for a directory by a slash at its end. -/
def asksForDirectory (path : Path) : Bool :=
  path.text.endsWith "/"

/-! ## Putting -/

/-- Puts something at a path whose directory is there. Returns the place. -/
def fill (p : Project) (path : Path) (node : Node) : Except Fault (Project × List String) := do
  match node with
  | .directory => return (p, ← p.locate path)
  | .file content =>
    let p ← p.write path content
    return (p, ← p.locate path)
  | .link target =>
    let place ← p.placeOf path
    if (p.node? place).isSome then throw .alreadyExists
    if asksForDirectory path then throw .notFound
    return (p.set place (.link target), place)

/-- Puts something at a path. Directories that are missing are created, and stay if it fails after
them. Returns the place. -/
def put (p : Project) (path : Path) (node : Node) : Project × Except Fault (List String) :=
  let directory := match node with
    | .directory => path
    | _ => path.parent?.getD ⟨""⟩
  match p.createDirectory directory with
  | (p, .error fault) => (p, .error fault)
  | (p, .ok ()) =>
    match p.fill path node with
    | .ok (filled, place) => (filled, .ok place)
    | .error fault => (p, .error fault)

/-! ## Removing -/

/-- Removes everything below a place. -/
def clear (p : Project) (place : List String) : Project where
  nodes := p.nodes.filter fun n => n.1 == place || !place.isPrefixOf n.1
  workingDirectory := p.workingDirectory.filter fun directory =>
    directory == place || !place.isPrefixOf directory

/-- Tries to remove the directory that a path leads to without naming it: what is below it is
removed, and then it fails. -/
def deleteUnnamed (p : Project) (path : Path) (fault : Fault) :
    Project × Except Fault (List String) :=
  match p.locate path with
  | .error fault => (p, .error fault)
  | .ok place =>
    if p.hasDirectory place then (p.clear place, .error fault) else (p, .error .notDirectory)

/-- Removes what stands at a path and below it. Returns the place. A path that ends in dots, or in a
link and a slash, does not name the directory that it leads to. -/
def delete (p : Project) (path : Path) : Project × Except Fault (List String) :=
  match p.placeOf path with
  | .error .busy => p.deleteUnnamed path .invalid
  | .error fault => (p, .error fault)
  | .ok place =>
    match p.node? place, asksForDirectory path with
    | none, _ => (p, .error .notFound)
    | some (.file _), true => (p, .error .notDirectory)
    | some (.link _), true => p.deleteUnnamed path .notDirectory
    | some _, _ => (p.remove place, .ok place)

/-! ## Renaming -/

/-- A place that has moved together with the place `source`, which became `target`. -/
def moved (source target place : List String) : List String :=
  if source.isPrefixOf place then target ++ place.drop source.length else place

/-- Whether a directory holds nothing. -/
def isEmptyAt (p : Project) (place : List String) : Bool :=
  p.nodes.all fun n => n.1 == place || !place.isPrefixOf n.1

/-- Refuses to take the place of something of another kind, or of a directory that is not empty. -/
def checkReplaced (p : Project) (source target : List String) : Except Fault Unit :=
  match p.hasDirectory source, p.node? target with
  | _, none => .ok ()
  | true, some .directory => if p.isEmptyAt target then .ok () else .error .notEmpty
  | true, some _ => .error .notDirectory
  | false, some .directory => .error .isDirectory
  | false, some _ => .ok ()

/-- Renames what stands at a path. Returns both places. -/
def rename (p : Project) (path newPath : Path) :
    Except Fault (Project × List String × List String) := do
  let source ← p.placeOf path
  let target ← p.placeOf newPath
  if (p.node? source).isNone then throw .notFound
  if !p.hasDirectory source && (asksForDirectory path || asksForDirectory newPath) then
    throw .notDirectory
  if source = target then return (p, source, target)
  if source.isPrefixOf target then throw .invalid
  if target.isPrefixOf source then throw .notEmpty
  p.checkReplaced source target
  let kept := p.remove target
  return ({ nodes := kept.nodes.map fun n => (moved source target n.1, n.2)
            workingDirectory := kept.workingDirectory.map (moved source target) },
    source, target)

/-! ## The working directory -/

/-- Changes the working directory. -/
def enterDirectory (p : Project) (path : Path) : Except Fault Project := do
  let place ← p.locate path
  if p.hasDirectory place then return { p with workingDirectory := some place }
  else throw .notDirectory

/-! ## Comparing -/

/-- The places that are in a project but not in an earlier one, shorter ones first. -/
def added (before after : Project) : List (List String) :=
  ((after.nodes.map Prod.fst).filter fun place => (before.node? place).isNone).mergeSort
    fun a b => a.length ≤ b.length

/-- The content of the file at a place itself, links not followed. -/
def contentAt? (p : Project) (place : List String) : Option ByteArray :=
  match p.node? place with
  | some (.file content) => some content
  | _ => none

/-- The files that are new in a project or have another content than in an earlier one. -/
def written (before after : Project) : List (List String × ByteArray) :=
  after.nodes.filterMap fun (place, node) =>
    match node with
    | .file content =>
      if before.contentAt? place == some content then none else some (place, content)
    | _ => none

end Tarkib.Project
