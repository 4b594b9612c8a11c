import Tarkib.Command.Run

/-!
# The program

The program reads the part of the file system that a command can see, runs the command and carries
out what it has done. A command sees the working directory and the directories of the paths it is
given, with everything below them.
-/

namespace Tarkib.Program

/-- The place of an absolute path text without dots. -/
def placeOf (text : String) : List String :=
  ((Path.segments text.toList).filter (!·.isEmpty)).map String.ofList

/-- Adds what a path text leads to, with everything below it, unless it is there. -/
partial def readTree (project : Project) (text : String) : IO Project := do
  let path ← IO.FS.realPath text
  let place := placeOf path.toString
  if (project.node? place).isSome then return project
  if ← path.isDir then
    let mut tree := (project.createDirectory (Project.pathOf place)).1
    for entry in ← path.readDir do
      let target ← IO.FS.realPath entry.path
      if (← entry.path.symlinkMetadata).type == .symlink then
        tree := tree.set (placeOf entry.path.toString) (.link target.toString)
      tree ← readTree tree target.toString
    return tree
  else if ← path.pathExists then return project.set place (.file (← IO.FS.readBinFile path))
  else return project

/-- The directories that a command can see. -/
def visible (workingDirectory : Path) (arguments : List String) : List String :=
  let directories := arguments.filterMap fun text => (workingDirectory.join text).parent?
  ((workingDirectory :: directories).map Path.text).mergeSort fun a b => a.length ≤ b.length

/-- The memory in use by the program in bytes, if it can be found out. -/
def memoryInUse : IO (Option Nat) := do
  try
    let pages := ((← IO.FS.readFile "/proc/self/statm").splitOn " ")[1]?.bind String.toNat?
    return pages.map (· * 4096)
  catch _ => return none

/-- Writes a file and the directories above it. -/
def save (place : List String) (content : ByteArray) : IO Unit := do
  IO.FS.createDirAll (Project.pathOf place.dropLast).text
  IO.FS.writeBinFile (Project.pathOf place).text content

/-- Runs a command line. -/
def run (arguments : List String) : IO UInt32 := do
  let workingDirectory := (← IO.FS.realPath (← IO.currentDir)).toString
  let mut project : Project := { workingDirectory := some (placeOf workingDirectory) }
  for directory in visible ⟨workingDirectory⟩ arguments do
    project ← readTree project directory
  let result := Command.run project (← memoryInUse) arguments
  for (place, content) in project.written result.project do
    save place content
  IO.print result.out
  IO.eprint result.err
  return result.exit.toUInt32

end Tarkib.Program

/-- Runs the command that the arguments name. -/
def main (arguments : List String) : IO UInt32 :=
  Tarkib.Program.run arguments
