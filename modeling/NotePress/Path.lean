import NotePress.Text.Blank
import NotePress.Text.Lines

/-!
# Paths

A path is a text of segments between slashes. Empty segments and `.` segments
name nothing, except for a `.` that starts a relative path; they are kept in the
text but do not tell two paths apart.

The name of a path is its last segment that names something, unless that is
`..`. A name has an extension when it has a point that is not its first
character.
-/

namespace NotePress

/-- The text of a file system path. -/
structure Path where
  text : String
  deriving DecidableEq, Repr, Inhabited

namespace Path

/-- A segment that names nothing. -/
def isIdle (segment : List Char) : Bool :=
  segment == [] || segment == ['.']

/-- The segments of a path text. -/
def segmentsOf (text : List Char) : List (List Char) :=
  Text.splitAt '/' text

/-- The text of segments. -/
def textOf (segments : List (List Char)) : List Char :=
  ['/'].intercalate segments

/-- Segments whose last one is the name, if there is a name: the segments before
it, and the name. What follows the name is dropped. -/
def splitName?
    (segments : List (List Char)) : Option (List (List Char) × List Char) :=
  match segments.reverse.dropWhile isIdle with
  | [] => none
  | name :: before =>
      if name = ['.', '.'] then none else some (before.reverse, name)

/-- What stands before and after the last point of a name. -/
def splitLastPoint : List Char → Option (List Char × List Char)
  | [] => none
  | first :: others =>
      match splitLastPoint others with
      | some (before, after) => some (first :: before, after)
      | none => if first = '.' then some ([], others) else none

/-- A name without its extension. -/
def stemOf (name : List Char) : List Char :=
  match splitLastPoint name with
  | some (first :: before, _) => first :: before
  | _ => name

/-- The extension of a name. -/
def extensionOf? (name : List Char) : Option (List Char) :=
  match splitLastPoint name with
  | some (_ :: _, after) => some after
  | _ => none

/-- A text whose name has another extension. A text without a name is kept. -/
def replaceExtension
    (extension text : List Char) : List Char :=
  match splitName? (segmentsOf text) with
  | none => text
  | some (before, name) =>
      textOf (before ++ [stemOf name ++ '.' :: extension])

/-- The name of a path without its extension. -/
def stem? (path : Path) : Option String :=
  (splitName? (segmentsOf path.text.toList)).map fun (_, name) =>
    String.ofList (stemOf name)

/-- The extension of the name of a path. -/
def extension? (path : Path) : Option String :=
  match splitName? (segmentsOf path.text.toList) with
  | none => none
  | some (_, name) => (extensionOf? name).map String.ofList

/-- A path with another extension. -/
def withExtension
    (path : Path)
    (extension : String) : Path :=
  ⟨String.ofList (replaceExtension extension.toList path.text.toList)⟩

/-- Whether a path starts at the root. -/
def isAbsolute (path : Path) : Bool :=
  path.text.toList.head? == some '/'

/-- The segments of a path that name something, with the root in front of those
of an absolute path. Two paths are the same when these are. -/
def components (path : Path) : List (List Char) :=
  match segmentsOf path.text.toList with
  | [] => []
  | first :: others =>
      let named := others.filter fun segment => !isIdle segment
      if path.isAbsolute then
        ['/'] :: named
      else if first.isEmpty then
        named
      else
        first :: named

/-- Segments without the idle ones at their end. A `.` that starts a relative
path stays. -/
def dropIdle
    (absolute : Bool) : List (List Char) → List (List Char)
  | [] => []
  | first :: others =>
      match Text.dropTrailing isIdle others with
      | [] =>
          if first.isEmpty || (absolute && isIdle first) then [] else [first]
      | kept => first :: kept

/-- The path of the directory around a path. The root and the empty path have
none. -/
def parent? (path : Path) : Option Path :=
  let absolute := path.isAbsolute
  let segments := segmentsOf path.text.toList
  let body := dropIdle absolute (if absolute then segments.tail else segments)
  if body.isEmpty then
    none
  else
    let kept := textOf (dropIdle absolute body.dropLast)
    some ⟨String.ofList (if absolute then '/' :: kept else kept)⟩

/-- A path, read from a directory. An absolute path stays as it is. -/
def join (directory path : Path) : Path :=
  if path.isAbsolute then
    path
  else if directory.text.isEmpty || directory.text.toList.getLast? == some '/' then
    ⟨directory.text ++ path.text⟩
  else
    ⟨directory.text ++ "/" ++ path.text⟩

/-- One step of following a target text from a directory: `..` leaves a
directory, other names enter one. -/
def follow
    (path : Path)
    (segment : List Char) : Path :=
  if isIdle segment then
    path
  else if segment = ['.', '.'] then
    path.parent?.getD path
  else if path.text.isEmpty then
    ⟨String.ofList segment⟩
  else
    ⟨path.text ++ "/" ++ String.ofList segment⟩

/-- The path that a target text names, seen from a directory. Only the texts are
looked at. -/
def resolve
    (directory : Path)
    (target : String) : Path :=
  (segmentsOf target.toList).foldl follow directory

end Path

end NotePress
