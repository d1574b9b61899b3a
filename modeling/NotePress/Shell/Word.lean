import NotePress.Shell.Act
import NotePress.Shell.Field

/-!
# Words

What the words of a command come to, as far as no command has to run for it: home
directories, the glyphs of values, and the files that patterns stand for.
-/

namespace NotePress
namespace Shell
namespace Word

open Act

/-- Bytes without the line feeds at their end. -/
def dropLineFeeds (bytes : Bytes) : Bytes :=
  (bytes.reverse.dropWhile (· == '\n')).reverse

/-- The glyphs of the bytes that an expansion gives. -/
def glyphsOf (quoted : Bool) (bytes : Bytes) : List Glyph :=
  bytes.map (if quoted then .quoted else .expanded)

/-- The glyphs of all arguments. -/
def argumentGlyphs (quoted : Bool) (arguments : List Bytes) : List Glyph :=
  [Glyph.cut].intercalate (arguments.map fun argument =>
    if quoted then .here :: glyphsOf true argument
    else glyphsOf false argument)

/-- The directory that a name behind a tilde stands for. -/
def homeOf? (bindings : List (Bytes × Bytes)) (name : Bytes) : Option Bytes :=
  if name.isEmpty then bindings.lookup "HOME".toList
  else if name == "root".toList then some "/root".toList
  else none

/-- The pieces of a plain text that may start with a tilde and a name. The name has
to end inside the text, unless the word ends with it. -/
def piecesOfPlain
    (bindings : List (Bytes × Bytes))
    (isLast : Bool)
    (text : Bytes) : Word :=
  match text with
  | '~' :: rest =>
      let name := rest.takeWhile (· != '/')
      let behind := rest.drop name.length
      match homeOf? bindings name, behind.isEmpty && !isLast with
      | some home, false => [.quoted home, .plain behind]
      | _, _ => [.plain text]
  | _ => [.plain text]

/-- A word with the home directories that tildes at its start stand for; in an
assignment, also those behind colons. -/
def withHomes
    (bindings : List (Bytes × Bytes))
    (inAssignment : Bool) : Bool → Word → Word
  | _, [] => []
  | atStart, .plain text :: others =>
      let parts := if inAssignment then Text.splitAt ':' text else [text]
      let count := parts.length
      let pieces := parts.zipIdx.map fun (part, index) =>
        let isLast := others.isEmpty || index + 1 < count
        if index = 0 && !atStart then [.plain part]
        else piecesOfPlain bindings isLast part
      [Piece.plain [':']].intercalate pieces ++
        withHomes bindings inAssignment
          (inAssignment && text.getLast? == some ':') others
  | _, piece :: others => piece :: withHomes bindings inAssignment false others

/-- Whether a part of a pattern is special there. -/
def isWild (part : PatternByte) : Bool :=
  !part.isQuoted && (part.byte == '*' || part.byte == '?' || part.byte == '[')

/-- The files that a pattern with several segments stands for, given what was
matched before. -/
def filesBelow
    (disk : Disk)
    (directory : Path)
    (before : Bytes) : List (List PatternByte) → List Bytes
  | [] => [before]
  | segment :: others =>
      let path : Path :=
        if before.isEmpty then directory
        else Path.join directory ⟨before.toText⟩
      let isLast := others.isEmpty
      let behind : Bytes := if isLast then [] else ['/']
      if segment.any isWild then
        match disk.locate path with
        | .error _ => []
        | .ok location =>
            let names := (disk.namesIn location).map Bytes.ofText
            let startsHidden := segment.head?.map PatternByte.byte == some '.'
            let found := names.filter fun name =>
              (name.head? != some '.' || startsHidden) && Pattern.isMatch segment name
            found.flatMap fun name =>
              if isLast || disk.isDirectory (Path.join directory
                  ⟨Bytes.toText (before ++ name)⟩) then
                filesBelow disk directory (before ++ name ++ behind) others
              else
                []
      else
        let name := segment.map PatternByte.byte
        let reached := before ++ name
        let isThere :=
          name.isEmpty ||
            match disk.locateName (Path.join directory ⟨reached.toText⟩) with
            | .ok location => (disk.entryAt? location).isSome
            | .error _ => false
        if isThere then
          filesBelow disk directory (reached ++ behind) others
        else
          []

/-- The files that a field with stars stands for, if there are any, or else the
field itself. -/
def filesMatching (field : List Glyph) : Act (List Bytes) := do
  let pattern := Glyph.pattern field
  if pattern.any isWild && !(← hasOption 'f') then
    let isSlash := fun part : PatternByte => part.byte == '/'
    let segments := pattern.foldr
      (fun part segments =>
        if isSlash part then [] :: segments
        else
          match segments with
          | first :: others => (part :: first) :: others
          | [] => [[part]])
      [[]]
    let found := filesBelow (← disk) (← process).directory [] segments
    if found.isEmpty then
      return [Glyph.text field]
    else
      return found.mergeSort Bytes.notAfter
  else
    return [Glyph.text field]

/-- Whether a word of a command that assigns is an assignment. -/
def isAssignment (word : Word) : Bool :=
  match word with
  | .plain text :: _ => (Grammar.assignedName? text).isSome
  | _ => false

/-- The commands whose arguments may be assignments. -/
def assigners : List Bytes :=
  ["export", "readonly", "local"].map String.toList

end Word
end Shell
end NotePress
