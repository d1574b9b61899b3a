import NotePress.Execution
import NotePress.Html.Piece
import NotePress.Stylesheet

/-!
# Sessions

A session is what lasts from one render to the next: the disk, the documents
whose pages were begun, and the code that ran. While a page is written to a file,
the session also holds the end of the page that the file does not have yet:
written units are held back until they no longer fit into `PageFile.capacity`
bytes.

A render answers with an `Outcome`: the pieces it wrote, the session after it,
and the error that stopped it, if one did. What was written before an error stays
written.
-/

namespace NotePress

namespace Page

/-- The choices a user has. -/
structure Options where
  stylesheet : Option Path := none
  externalStylesheets : List String :=
    ["http://netdna.bootstrapcdn.com/bootstrap/3.0.3/css/bootstrap.min.css"]
  indexFileName : String := "Notes.scrip"
  escapeCodeOutput : Bool := true
  deriving DecidableEq, Repr, Inhabited

/-- Why a render stops. -/
inductive RenderError
  | malformed (malformation : Document.Malformation)
  | file (error : FileError)
  | missingDocument (path : Path)
  | malformedDirective (text : String)
  | cyclicTransclusion (path : Path) (chain : List Path)
  | invalidHeadingLevel (level : Nat)
  /-- Documents include one another more deeply than there are places for them. -/
  | tooDeep
  deriving DecidableEq, Repr, Inhabited

/-- The message about a stopped render. -/
def RenderError.message : RenderError → String
  | malformed malformation => malformation.message
  | file error => error.message
  | missingDocument path => "Document not found: " ++ path.text
  | malformedDirective text => "Malformed directive: " ++ text
  | cyclicTransclusion path chain =>
      "Cyclic transclusion of " ++ path.text ++ " via " ++
        " -> ".intercalate (chain.map Path.text)
  | invalidHeadingLevel level =>
      "Invalid heading level " ++ toString level ++ ", expected 1 to 6"
  | tooDeep => "Transclusion does not end"

/-- A page file that is being written: the bytes it has, and those held back. -/
structure PageFile where
  file : OpenFile
  written : Nat
  pending : ByteArray
  deriving Inhabited

/-- What lasts from one render to the next. -/
structure Session where
  disk : Disk
  /-- The documents whose pages were begun. -/
  compiled : List Location := []
  /-- The code that ran, oldest first. -/
  calls : List CodeCall := []
  /-- The file of the page that is being written; a page without a file is only
  answered. -/
  page : Option PageFile := none
  deriving Inhabited

namespace PageFile

/-- How many bytes are held back at most. -/
def capacity : Nat := 8192

/-- Write the bytes held back into the file. -/
def flush
    (page : PageFile)
    (disk : Disk) : PageFile × Disk :=
  if page.pending.isEmpty then
    (page, disk)
  else
    ({ page with
        written := page.written + page.pending.size
        pending := .empty },
      disk.writeAt page.file page.written page.pending)

/-- Write a unit, held back if it fits. -/
def writeUnit
    (page : PageFile)
    (disk : Disk)
    (bytes : ByteArray) : PageFile × Disk :=
  if page.pending.size + bytes.size ≤ capacity ∧ bytes.size < capacity then
    ({ page with pending := page.pending ++ bytes }, disk)
  else
    let (flushed, disk) :=
      if page.pending.size + bytes.size ≤ capacity then
        (page, disk)
      else
        page.flush disk
    if bytes.size < capacity then
      ({ flushed with pending := flushed.pending ++ bytes }, disk)
    else
      ({ flushed with written := flushed.written + bytes.size },
        disk.writeAt flushed.file flushed.written bytes)

end PageFile

namespace Session

/-- The session after units are written to its page file. -/
def writeUnits
    (session : Session)
    (units : List String) : Session :=
  match session.page with
  | none => session
  | some page =>
      let (page, disk) := units.foldl
        (fun state unit => state.1.writeUnit state.2 unit.toUTF8)
        (page, session.disk)
      { session with disk := disk, page := some page }

/-- The session after everything held back is in the page file. -/
def flush (session : Session) : Session :=
  match session.page with
  | none => session
  | some page =>
      let (page, disk) := page.flush session.disk
      { session with disk := disk, page := some page }

end Session

/-- What a render did: the pieces it wrote, the session after it, and the error
that stopped it. -/
structure Outcome where
  html : List Html.Piece
  session : Session
  failure : Option RenderError
  deriving Inhabited

namespace Outcome

/-- Nothing was written. -/
def done (session : Session) : Outcome :=
  ⟨[], session, none⟩

/-- An error came up before anything was written. -/
def fail
    (error : RenderError)
    (session : Session) : Outcome :=
  ⟨[], session, some error⟩

/-- Pieces were written, all at once. -/
def emit
    (pieces : List Html.Piece)
    (session : Session) : Outcome :=
  ⟨pieces, session.writeUnits (Html.units pieces), none⟩

/-- Go on after an outcome, unless an error stopped it. -/
def andThen
    (first : Outcome)
    (next : Session → Outcome) : Outcome :=
  match first.failure with
  | some _ => first
  | none =>
      let second := next first.session
      ⟨first.html ++ second.html, second.session, second.failure⟩

end Outcome

end Page

end NotePress
