import NotePress.CommandLine
import NotePress.Shell.Interpret
import NotePress.Text.Utf8

/-!
# The program

The outer layer of the command line. It puts together what a run may look at, lets
`CommandLine.run` decide everything, and writes what has changed.

A run looks at the files that its arguments name, at the default settings file, and
at the files that are named on the standard input, one path a line.
-/

namespace NotePress
namespace Program

/-- The file that holds the variables of this process. -/
def variablesFile : String := "/proc/self/environ"

/-- The bytes of a file; `none` when it cannot be read. -/
def readFile? (path : String) : IO (Option ByteArray) :=
  try
    return some (← IO.FS.readBinFile path)
  catch _ =>
    return none

/-- A variable with its value, as it is written in the variables of a process. -/
def variableOf (written : List Char) : String × String :=
  (String.ofList (written.takeWhile (· != '=')),
    String.ofList ((written.dropWhile (· != '=')).drop 1))

/-- The variables of this process. -/
def readVariables : IO Variables := do
  match ← readFile? variablesFile with
  | none => return []
  | some bytes =>
      let written := Text.splitAt '\x00' (Text.ofBytes bytes).toList
      return (written.filter (· ≠ [])).map variableOf

/-- The location that a path is the spelling of. -/
def locationOf
    (workingDirectory : Location)
    (path : Path) : Location :=
  (Path.segmentsOf path.text.toList).foldl
    (fun location segment =>
      if Path.isIdle segment then
        location
      else if segment = ['.', '.'] then
        location.dropLast
      else
        location ++ [String.ofList segment])
    (if path.isAbsolute then [] else workingDirectory)

/-- The disk with a file on it, if the file can be read. -/
def loadFile
    (disk : Disk)
    (path : Path) : IO Disk := do
  match ← readFile? path.text with
  | none => return disk
  | some bytes =>
      let location := locationOf disk.workingDirectory path
      return (disk.makeDirectories location.dropLast).addFile location
        { content := ⟨bytes⟩ }

/-- The paths that a run looks at without being told. -/
def pathsOf
    (bindings : Variables)
    (arguments : List String) : List Path :=
  Settings.defaultPath bindings :: arguments.map Path.mk

/-- Write the files and make the directories that are new or have another content,
and remove the files that are gone. -/
def save (before after : Disk) : IO Unit := do
  for (location, entry) in after.entries do
    let path := (Location.path location).text
    match entry with
    | .file _ =>
        let node := after.nodeAt? location
        if before.nodeAt? location ≠ node then
          IO.FS.writeBinFile path (after.contentAt location).bytes
    | .directory =>
        if (before.entryAt? location).isNone then
          IO.FS.createDirAll path
    | _ => pure ()
  for (location, _) in before.entries do
    if (before.nodeAt? location).isSome && (after.entryAt? location).isNone then
      IO.FS.removeFile (Location.path location).text

/-- Run the program with arguments; the result is the exit status. -/
def run (arguments : List String) : IO UInt32 := do
  let bindings ← readVariables
  let workingDirectory :=
    locationOf [] ⟨(bindings.lookup "PWD").getD "/"⟩
  let named := Text.lines (← (← IO.getStdin).readToEnd)
  let bare : Disk := ⟨[], #[], workingDirectory⟩
  let empty := Shell.Program.install (bare.makeDirectories workingDirectory)
  let disk ← (pathsOf bindings arguments ++ named.map Path.mk).foldlM loadFile empty
  let outcome :=
    CommandLine.run disk bindings
      (fun seconds => Shell.machine bindings (1000 * seconds))
      (CommandLine.programName :: arguments)
  save disk outcome.disk
  IO.eprint outcome.errorOutput
  return UInt32.ofNat outcome.status

end Program
end NotePress

/-- Make the page of the source document that the arguments name. -/
def main (arguments : List String) : IO UInt32 :=
  NotePress.Program.run arguments
