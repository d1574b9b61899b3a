import NotePress.Shell.Pattern

/-!
# Fields

An expanded word is a sequence of glyphs. What came from an expansion outside
quotes is cut into fields at the separators in the variable `IFS`; blanks among
these swallow one another.
-/

namespace NotePress
namespace Shell

/-- A part of an expanded word. -/
inductive Glyph
  | plain (byte : Char)
  | quoted (byte : Char)
  /-- From an expansion outside quotes. -/
  | expanded (byte : Char)
  /-- Here a field ends, and another one starts. -/
  | cut
  /-- Here is a field, even if it holds nothing. -/
  | here
  deriving DecidableEq, Repr, Inhabited

namespace Glyph

/-- The byte of a glyph that is one. -/
def byte? : Glyph → Option Char
  | plain byte => some byte
  | quoted byte => some byte
  | expanded byte => some byte
  | _ => none

/-- A glyph as the result of an expansion outside quotes. -/
def asExpanded : Glyph → Glyph
  | plain byte => expanded byte
  | glyph => glyph

/-- The part of a pattern that a glyph is. -/
def patternByte? : Glyph → Option PatternByte
  | plain byte => some ⟨byte, false⟩
  | quoted byte => some ⟨byte, true⟩
  | expanded byte => some ⟨byte, false⟩
  | _ => none

/-- The bytes of glyphs that are not cut. -/
def text (glyphs : List Glyph) : Bytes :=
  glyphs.filterMap byte?

/-- The pattern that glyphs are. -/
def pattern (glyphs : List Glyph) : List PatternByte :=
  glyphs.filterMap patternByte?

end Glyph

/-- A word that is being cut into fields. The newest fields, and the newest glyphs
of the current one, stand first. -/
structure Cutting where
  fields : List (List Glyph) := []
  current : List Glyph := []
  /-- Whether the current field has begun. -/
  isOpen : Bool := false
  /-- Whether the last field was ended by a blank. -/
  afterBlank : Bool := false
  deriving Inhabited

namespace Cutting

/-- The cutting after the current field ends. -/
def close (cutting : Cutting) (byBlank : Bool) : Cutting :=
  ⟨cutting.current.reverse :: cutting.fields, [], false, byBlank⟩

/-- The cutting after a glyph of the current field. -/
def extend (cutting : Cutting) (glyph : Glyph) : Cutting :=
  { cutting with
    current := glyph :: cutting.current
    isOpen := true
    afterBlank := false }

/-- The cutting after a glyph. -/
def add (separators : Bytes) (cutting : Cutting) (glyph : Glyph) : Cutting :=
  match glyph with
  | .expanded byte =>
      if separators.contains byte then
        if byte == ' ' || byte == '\t' || byte == '\n' then
          if cutting.isOpen then cutting.close true else cutting
        else if !cutting.isOpen && cutting.afterBlank then
          { cutting with afterBlank := false }
        else
          cutting.close false
      else
        cutting.extend glyph
  | .cut => cutting.close false
  | .here => { cutting with isOpen := true }
  | _ => cutting.extend glyph

/-- All fields, in order. -/
def all (cutting : Cutting) : List (List Glyph) :=
  (if cutting.isOpen then cutting.close false else cutting).fields.reverse

end Cutting

/-- The fields that glyphs are cut into. -/
def fieldsOf (separators : Bytes) (glyphs : List Glyph) : List (List Glyph) :=
  (glyphs.foldl (Cutting.add separators) {}).all

/-- A character of a line that is read, and whether a backslash stood before it. -/
abbrev ReadByte := Char × Bool

/-- Whether a character that is read separates values, and whether blanks like it
swallow one another. -/
def ReadByte.separates (separators : Bytes) (read : ReadByte) : Bool × Bool :=
  let separates := !read.2 && separators.contains read.1
  (separates,
    separates && (read.1 == ' ' || read.1 == '\t' || read.1 == '\n'))

/-- The first value of a line, and what follows its separator. -/
def firstValue
    (separators : Bytes)
    (line : List ReadByte) : List ReadByte × List ReadByte :=
  let isBlank := fun read : ReadByte => (read.separates separators).2
  let value := line.takeWhile fun read => !(read.separates separators).1
  let rest := (line.drop value.length).dropWhile isBlank
  match rest with
  | first :: others =>
      if (first.separates separators).1 then
        (value, others.dropWhile isBlank)
      else
        (value, first :: others)
  | [] => (value, [])

/-- A line, cut into at most some values. The last one gets the rest of the line
without the blanks at its end, and without a separator at its end if there is no
other one in it. -/
def valuesOf
    (separators : Bytes)
    (count : Nat)
    (line : List ReadByte) : List Bytes :=
  let isBlank := fun read : ReadByte => (read.separates separators).2
  let line := line.dropWhile isBlank
  match count with
  | 0 => []
  | 1 =>
      let (value, rest) := firstValue separators line
      let value :=
        if rest.isEmpty then value
        else (line.reverse.dropWhile isBlank).reverse
      [value.map Prod.fst]
  | count + 1 =>
      let (value, rest) := firstValue separators line
      value.map Prod.fst :: valuesOf separators count rest

end Shell
end NotePress
