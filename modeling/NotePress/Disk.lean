import NotePress.Path

/-!
# Disks

A disk is a tree of directories with files, links and devices in them, kept as a
list of the locations that exist. A location is the list of names on the way from
the root, so it has one spelling; a path has many, and `Disk.locate` walks along
it as the names, `.`, `..` and the links in it say.

What a file holds is kept at a node, apart from its location. So a file that is
open can be written when it was moved or removed meanwhile, and one file can have
several locations.
-/

namespace NotePress

/-- A place on a disk: the names on the way from the root. -/
abbrev Location := List String

namespace Location

/-- The absolute path of a location. -/
def path (location : Location) : Path :=
  ⟨"/" ++ "/".intercalate location⟩

end Location

/-- The bytes of a file. -/
@[ext] structure Content where
  bytes : ByteArray
  deriving Inhabited

namespace Content

instance : DecidableEq Content := fun left right =>
  match ByteArray.instDecidableEq left.bytes right.bytes with
  | isTrue equal => isTrue (Content.ext equal)
  | isFalse different => isFalse fun equal => different (congrArg bytes equal)

/-- A file without bytes. -/
def empty : Content := ⟨ByteArray.empty⟩

/-- The content that a text is written as. -/
def ofText (text : String) : Content := ⟨text.toUTF8⟩

/-- The text that a content holds, if it is one. -/
def text? (content : Content) : Option String :=
  String.fromUTF8? content.bytes

@[simp] theorem text_ofText (text : String) :
    (ofText text).text? = some text := by
  have valid : (ofText text).bytes.IsValidUTF8 := text.isValidUTF8
  unfold text? String.fromUTF8?
  rw [dif_pos valid]
  rfl

/-- A number of zero bytes. -/
def zeros (count : Nat) : ByteArray :=
  ⟨Array.replicate count 0⟩

/-- The content after bytes are written over it from a place on. A gap before
that place is filled with zeros. -/
def writeAt
    (content : Content)
    (offset : Nat)
    (bytes : ByteArray) : Content :=
  ⟨content.bytes.extract 0 offset ++ zeros (offset - content.bytes.size) ++
    bytes ++
    content.bytes.extract (offset + bytes.size) content.bytes.size⟩

end Content

/-- What a file is apart from its locations: what it holds, and who may read,
write and execute it, as three times three bits. A file may be a program that is
known by a name; what such a file holds does not matter. -/
structure FileNode where
  content : Content := .empty
  mode : Nat := 0o644
  program : Option String := none
  deriving DecidableEq, Inhabited

/-- Whether anybody may execute a file. -/
def FileNode.isExecutable (node : FileNode) : Bool :=
  [0o001, 0o010, 0o100].any fun bit => node.mode / bit % 2 == 1

/-- What is at a location. A device is neither a directory nor a regular file, and
a link stands for a path, which is seen from the directory of the link. -/
inductive Entry
  | file (node : Nat)
  | directory
  | link (target : String)
  | device
  deriving DecidableEq, Repr, Inhabited

/-- Directories with what is in them, the nodes of the files, and the directory
that relative paths start from. -/
structure Disk where
  entries : List (Location × Entry)
  nodes : Array FileNode
  workingDirectory : Location
  deriving Inhabited

/-- An open file: its node, or `none` for a device, which keeps nothing. -/
abbrev OpenFile := Option Nat

namespace Disk

/-- Why an operation on a disk fails. -/
inductive Failure
  | notFound
  | noProgram
  | denied
  | occupied
  | notDirectory
  | isDirectory
  | nameTooLong
  | notEmpty
  | tooManyLinks
  | notRegular
  | notText
  deriving DecidableEq, Repr, Inhabited

/-- What a failure is called, where the system gives it a name. -/
def Failure.description : Failure → String
  | notFound => "No such file or directory"
  | noProgram => "Exec format error"
  | denied => "Permission denied"
  | occupied => "File exists"
  | notDirectory => "Not a directory"
  | isDirectory => "Is a directory"
  | nameTooLong => "File name too long"
  | notEmpty => "Directory not empty"
  | tooManyLinks => "Too many levels of symbolic links"
  | notRegular =>
      "the source path is neither a regular file nor a symlink to a regular file"
  | notText => "stream did not contain valid UTF-8"

/-- The number that the system gives a failure. -/
def Failure.number? : Failure → Option Nat
  | notFound => some 2
  | noProgram => some 8
  | denied => some 13
  | occupied => some 17
  | notDirectory => some 20
  | isDirectory => some 21
  | nameTooLong => some 36
  | notEmpty => some 39
  | tooManyLinks => some 40
  | notRegular => none
  | notText => none

/-- The message about a failure. -/
def Failure.message (failure : Failure) : String :=
  match failure.number? with
  | some number =>
      failure.description ++ " (os error " ++ toString number ++ ")"
  | none => failure.description

/-- What is at a location. The root always is a directory. -/
def entryAt? (disk : Disk) : Location → Option Entry
  | [] => some .directory
  | location => disk.entries.lookup location

/-- The list with the value of a key replaced, or with the key put last. -/
def replaceEntry
    (location : Location)
    (entry : Entry) :
    List (Location × Entry) → List (Location × Entry)
  | [] => [(location, entry)]
  | first :: others =>
      if first.1 = location then
        (location, entry) :: others
      else
        first :: replaceEntry location entry others

/-- The disk with something put at a location. -/
def put
    (disk : Disk)
    (location : Location)
    (entry : Entry) : Disk :=
  { disk with entries := replaceEntry location entry disk.entries }

/-- The disk without what is at a location. -/
def erase
    (disk : Disk)
    (location : Location) : Disk :=
  { disk with
    entries := disk.entries.filter fun entry => entry.1 != location }

/-- Where a walk gets to when it stops at links. -/
inductive Arrival
  | at (location : Location)
  /-- A link in a directory, with the segments that are left behind it. -/
  | link (directory : Location) (target : String) (rest : List (List Char))
  | failed (failure : Failure)
  deriving Repr, Inhabited

/-- The size that a name may not exceed. -/
def maximalName : Nat := 255

/-- The size that a path may not reach. -/
def maximalPath : Nat := 4096

/-- The number of links that are followed on the way along one path. -/
def maximalLinks : Nat := 40

/-- Walk along the segments of a path up to a link. Every segment is looked up in
a directory; the last location need not exist. The last segment is looked at
itself, even if it is a link, unless it is to be followed. -/
def walkToLink
    (disk : Disk)
    (follows : Bool)
    (location : Location) : List (List Char) → Arrival
  | [] => .at location
  | segment :: others =>
      match disk.entryAt? location with
      | none => .failed .notFound
      | some .directory =>
          if Path.isIdle segment then
            walkToLink disk follows location others
          else if segment = ['.', '.'] then
            walkToLink disk follows location.dropLast others
          else if maximalName < (String.ofList segment).utf8ByteSize then
            .failed .nameTooLong
          else
            let next := location ++ [String.ofList segment]
            match disk.entryAt? next with
            | some (.link target) =>
                if others.isEmpty && !follows then
                  .at next
                else
                  .link location target others
            | _ => walkToLink disk follows next others
      | some _ => .failed .notDirectory

/-- Walk along the segments of a path, and along those of at most some links. -/
def walk
    (disk : Disk)
    (follows : Bool)
    (links : Nat)
    (location : Location)
    (segments : List (List Char)) : Except Failure Location :=
  match disk.walkToLink follows location segments with
  | .at location => .ok location
  | .failed failure => .error failure
  | .link directory target rest =>
      match links with
      | 0 => .error .tooManyLinks
      | links + 1 =>
          walk disk follows links
            (if Path.isAbsolute ⟨target⟩ then [] else directory)
            (Path.segmentsOf target.toList ++ rest)

/-- The location that a path leads to, where its last segment is followed or not
if it is a link. The empty path leads nowhere. -/
def locateFrom
    (disk : Disk)
    (follows : Bool)
    (path : Path) : Except Failure Location :=
  if path.text.isEmpty then
    .error .notFound
  else if maximalPath ≤ path.text.utf8ByteSize then
    .error .nameTooLong
  else
    disk.walk follows maximalLinks
      (if path.isAbsolute then [] else disk.workingDirectory)
      (Path.segmentsOf path.text.toList)

/-- The location that a path leads to. -/
def locate
    (disk : Disk)
    (path : Path) : Except Failure Location :=
  disk.locateFrom true path

/-- The location that a path names: a link is not followed at its end. -/
def locateName
    (disk : Disk)
    (path : Path) : Except Failure Location :=
  disk.locateFrom false path

/-- What a path leads to. -/
def lookup?
    (disk : Disk)
    (path : Path) : Option Entry :=
  match disk.locate path with
  | .error _ => none
  | .ok location => disk.entryAt? location

/-- Whether a path leads to anything. -/
def hasEntry
    (disk : Disk)
    (path : Path) : Bool :=
  (disk.lookup? path).isSome

/-- Whether a path leads to a regular file. -/
def isFile
    (disk : Disk)
    (path : Path) : Bool :=
  match disk.lookup? path with
  | some (.file _) => true
  | _ => false

/-- Whether a path leads to a directory. -/
def isDirectory
    (disk : Disk)
    (path : Path) : Bool :=
  disk.lookup? path == some .directory

/-- What the file at a node is. -/
def node
    (disk : Disk)
    (index : Nat) : FileNode :=
  disk.nodes[index]?.getD {}

/-- The node of the file at a location. -/
def nodeAt?
    (disk : Disk)
    (location : Location) : Option FileNode :=
  match disk.entryAt? location with
  | some (.file index) => some (disk.node index)
  | _ => none

/-- The content of the file at a location; empty when there is none. -/
def contentAt
    (disk : Disk)
    (location : Location) : Content :=
  match disk.nodeAt? location with
  | some node => node.content
  | none => .empty

/-- The disk with the file at a node changed. -/
def changeNode
    (disk : Disk)
    (index : Nat)
    (change : FileNode → FileNode) : Disk :=
  { disk with nodes := disk.nodes.modify index change }

/-- The disk with a new file at a location. -/
def addFile
    (disk : Disk)
    (location : Location)
    (node : FileNode) : Disk :=
  { disk with nodes := disk.nodes.push node }.put location
    (.file disk.nodes.size)

/-- The text of the file that a path leads to. -/
def readText
    (disk : Disk)
    (path : Path) : Except Failure String :=
  match disk.locate path with
  | .error failure => .error failure
  | .ok location =>
      match disk.entryAt? location with
      | none => .error .notFound
      | some .directory => .error .isDirectory
      | some (.file index) =>
          match (disk.node index).content.text? with
          | none => .error .notText
          | some text => .ok text
      | some _ => .ok ""

/-- Open the file at a location for writing: a new one where there is none. -/
def openAt
    (disk : Disk)
    (location : Location) : Except Failure (OpenFile × Disk) :=
  match disk.entryAt? location with
  | some .directory => .error .isDirectory
  | some (.file index) => .ok (some index, disk)
  | some _ => .ok (none, disk)
  | none => .ok (some disk.nodes.size, disk.addFile location {})

/-- The disk with the file at a node changed, if there is one. -/
def changeFile
    (disk : Disk)
    (file : OpenFile)
    (change : FileNode → FileNode) : Disk :=
  match file with
  | none => disk
  | some index => disk.changeNode index change

/-- The disk with an open file emptied. -/
def clear
    (disk : Disk)
    (file : OpenFile) : Disk :=
  disk.changeFile file fun node => { node with content := .empty }

/-- Make an empty file at a path, or empty the file that is there. -/
def createFile
    (disk : Disk)
    (path : Path) : Except Failure (OpenFile × Disk) :=
  match disk.locate path with
  | .error failure => .error failure
  | .ok location =>
      match disk.openAt location with
      | .error failure => .error failure
      | .ok (file, opened) => .ok (file, opened.clear file)

/-- Write bytes over an open file, from a place on. -/
def writeAt
    (disk : Disk)
    (file : OpenFile)
    (offset : Nat)
    (bytes : ByteArray) : Disk :=
  disk.changeFile file fun node =>
    { node with content := node.content.writeAt offset bytes }

/-- Write a whole file. -/
def writeFile
    (disk : Disk)
    (path : Path)
    (content : Content) : Except Failure Disk :=
  match disk.createFile path with
  | .error failure => .error failure
  | .ok (file, created) => .ok (created.writeAt file 0 content.bytes)

/-- Copy a regular file with its permissions over another. A file copied over
itself is emptied, since the target is emptied before the source is read. -/
def copyFile
    (disk : Disk)
    (source target : Path) : Except Failure Disk :=
  match disk.locate source with
  | .error failure => .error failure
  | .ok location =>
      match disk.entryAt? location with
      | none => .error .notFound
      | some (.file index) =>
          match disk.createFile target with
          | .error failure => .error failure
          | .ok (file, created) =>
              let source := created.node index
              .ok (created.changeFile file fun _ => source)
      | some _ => .error .notRegular

/-- The names of what is directly inside a directory. -/
def namesIn
    (disk : Disk)
    (directory : Location) : List String :=
  disk.entries.filterMap fun entry =>
    match entry.1.getLast? with
    | some name => if entry.1.dropLast = directory then some name else none
    | none => none

/-- The disk with a directory at a location and around it. Files in the way
stay. -/
def makeDirectories
    (disk : Disk)
    (location : Location) : Disk :=
  (List.range (location.length + 1)).foldl
    (fun disk depth =>
      match disk.entryAt? (location.take depth) with
      | some _ => disk
      | none => disk.put (location.take depth) .directory)
    disk

/-- The disk without what is at a location and below it. -/
def eraseTree
    (disk : Disk)
    (location : Location) : Disk :=
  { disk with
    entries := disk.entries.filter fun entry =>
      !location.isPrefixOf entry.1 }

/-- The disk with what is at a location and below it put at another one, in the
place of what is there. -/
def moveTree
    (disk : Disk)
    (source target : Location) : Disk :=
  let others := disk.entries.filter fun entry =>
    source.isPrefixOf entry.1 || !target.isPrefixOf entry.1
  { disk with
    entries := others.map fun entry =>
      if source.isPrefixOf entry.1 then
        (target ++ entry.1.drop source.length, entry.2)
      else
        entry }

end Disk

end NotePress
