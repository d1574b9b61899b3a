import NotePress.Disk
import NotePress.Document.Reading
import NotePress.Document.Block

/-!
# Source files

Source documents are files on a disk. Here they are found and read, and the
subfolders with an index document are listed.
-/

namespace NotePress

/-- Why a file cannot be used. -/
inductive FileError
  | notFound (path : Path)
  | failed (cause : Disk.Failure)
  deriving DecidableEq, Repr, Inhabited

/-- The message about a file that cannot be used. -/
def FileError.message : FileError → String
  | notFound path => "File not found: " ++ path.text
  | failed cause => "IO error: " ++ cause.message

namespace Source

/-- The text of the file at a path. -/
def read
    (disk : Disk)
    (path : Path) : Except FileError String :=
  if disk.hasEntry path then
    match disk.readText path with
    | .ok text => .ok text
    | .error failure => .error (.failed failure)
  else
    .error (.notFound path)

/-- The location of the regular file at a path. -/
def locate
    (disk : Disk)
    (path : Path) : Except FileError Location :=
  if disk.isFile path then
    match disk.locate path with
    | .ok location => .ok location
    | .error failure => .error (.failed failure)
  else
    .error (.notFound path)

/-- The names of the folders directly inside a directory that hold an index
document, in increasing order. -/
def indexedFolders
    (disk : Disk)
    (directory : Path)
    (indexFileName : String) : Except FileError (List String) :=
  match disk.locate directory with
  | .error _ => .error (.notFound directory)
  | .ok location =>
      if disk.entryAt? location = some .directory then
        let isIndexed := fun name =>
          let folder := Path.join directory ⟨name⟩
          disk.isDirectory folder &&
            disk.isFile (Path.join folder ⟨indexFileName⟩)
        .ok (((disk.namesIn location).filter isIndexed).mergeSort
          fun left right => left ≤ right)
      else
        .error (.notFound directory)

/-- The document that lists folders: for each a heading of level two with a link
to its index document. -/
def indexDocument
    (folders : List String)
    (indexFileName : String) : Document :=
  [folders.map fun name =>
    .heading 2
      [.hashtag ⟨"Link", [name ++ "/" ++ indexFileName, name]⟩]]

end Source

end NotePress
