import NotePress.Directive
import NotePress.Page.Session

/-!
# Rendering

Writes documents as pages. A container writes its opening tag, its children and
its closing tag; the other blocks write their pieces at once.

A directive may bring in another document: `#Nested` writes it in place,
`#AutoNested` writes links to the index documents of the folders around, and a
`#Link` to a source document makes that document's own page first, unless it was
begun before. Nesting a document inside itself is an error.

How deep documents can bring in one another is bounded by the number of places that
files can have, so rendering is defined by recursion on that depth.
-/

namespace NotePress
namespace Page

open Html (Piece)
open Document (Block)

/-- What a render depends on besides the session. -/
structure Environment where
  options : Options := {}
  machine : Machine

/-- Where a document is rendered: the directory that its targets are seen from,
and the documents around it, outermost first. -/
structure Context where
  base : Path
  visited : List Path := []
  deriving Inhabited

/-- Whether two paths have the same components. -/
def samePath (left right : Path) : Bool :=
  left.components == right.components

/-- The directory of a location, as a path. -/
def directoryOf (location : Location) : Path :=
  Location.path location.dropLast

/-- Run a code block. -/
def runCode
    (environment : Environment)
    (call : CodeCall)
    (session : Session) : Except ExecutionError String × Session :=
  let (answer, disk) :=
    environment.machine session.disk session.calls.length call
  (answer, { session with disk := disk, calls := session.calls ++ [call] })

/-- The pieces of a listing. -/
def listing
    (attributes : List Html.Attribute)
    (content : Piece) : List Piece :=
  [.opening .preformatted attributes, .opening .code [], content,
    .closing .code, .closing .preformatted]

/-- Write a code block: what it printed, or why it did not run. A code block
without a command is shown as it is. -/
def renderCode
    (environment : Environment)
    (block : Document.CodeBlock)
    (session : Session) : Outcome :=
  if block.command.isEmpty then
    .emit (listing [] (.text block.code)) session
  else
    match runCode environment ⟨block.command, block.code⟩ session with
    | (.ok output, after) =>
        if environment.options.escapeCodeOutput then
          .emit (listing [] (.text output)) after
        else
          .emit (listing [] (.raw output)) after
    | (.error error, after) =>
        .emit (listing [.fixed "class" "code-error"] (.text error.message))
          after

/-- Write a quotation and, after it, its author. -/
def renderQuotation
    (quotation : Document.Quotation)
    (session : Session) : Outcome :=
  let quoted := Outcome.emit
    [.opening .blockquote [], .text quotation.text, .closing .blockquote]
    session
  match quotation.author with
  | none => quoted
  | some author =>
      quoted.andThen (.emit
        [.opening .span [.fixed "class" "quotation-author"],
          .constant "--", .text author, .closing .span])

/-- The pieces of a checkbox. -/
def checkbox (checked : Bool) : Piece :=
  .void .input
    ([.fixed "class" "checkbox", .fixed "type" "checkbox"] ++
      (if checked then [.flag "checked"] else []) ++ [.flag "disabled"])

/-- The piece of a textbox. -/
def textbox : Piece :=
  .void .input
    [.fixed "class" "textbox", .fixed "type" "text", .flag "disabled"]

/-- The tag of a style. -/
def styleTag : Document.Style → Html.Tag
  | .bold => .bold
  | .italics => .italics
  | .underline => .underline
  | .strikeout => .strikeout

/-- Write something between pieces. -/
def wrapped
    (before after : List Piece)
    (inside : Session → Outcome)
    (session : Session) : Outcome :=
  ((Outcome.emit before session).andThen inside).andThen (.emit after)

section Blocks

variable
  (environment : Environment)
  (renderHashtag : Document.Hashtag → Session → Outcome)

mutual

/-- Write a block, given how hashtags are written. -/
def renderBlock (block : Block) (session : Session) : Outcome :=
  match block with
  | .text text => .emit [.text text] session
  | .heading level children =>
      if 1 ≤ level ∧ level ≤ 6 then
        wrapped [.opening (.heading level) []] [.closing (.heading level)]
          (renderBlocks children) session
      else
        .fail (.invalidHeadingLevel level) session
  | .styled style children =>
      wrapped [.opening (styleTag style) []] [.closing (styleTag style)]
        (renderBlocks children) session
  | .literal text =>
      .emit [.opening .code [], .text text, .closing .code] session
  | .codeBlock block => renderCode environment block session
  | .checkbox checked => .emit [checkbox checked] session
  | .textbox => .emit [textbox] session
  | .quotation quotation => renderQuotation quotation session
  | .hashtag hashtag => renderHashtag hashtag session
  | .mention name =>
      .emit
        [.opening .span [.fixed "class" "mention"], .constant "@", .text name,
          .closing .span]
        session
  | .orderedItem ordinal children =>
      wrapped
        [.opening .orderedList [.given "start" (toString ordinal)],
          .opening .item []]
        [.closing .item, .closing .orderedList]
        (renderBlocks children) session
  | .unorderedItem children =>
      wrapped [.opening .unorderedList [], .opening .item []]
        [.closing .item, .closing .unorderedList]
        (renderBlocks children) session
  | .table rows =>
      wrapped [.opening .table [.fixed "class" "table"]] [.closing .table]
        (renderRows rows) session

/-- Write blocks one after the other. -/
def renderBlocks (blocks : List Block) (session : Session) : Outcome :=
  match blocks with
  | [] => .done session
  | block :: others =>
      (renderBlock block session).andThen (renderBlocks others)

/-- Write the rows of a table. -/
def renderRows
    (rows : List (List (List Block)))
    (session : Session) : Outcome :=
  match rows with
  | [] => .done session
  | row :: others =>
      (wrapped [.opening .row []] [.closing .row] (renderCells row)
        session).andThen (renderRows others)

/-- Write the cells of a row. -/
def renderCells (cells : List (List Block)) (session : Session) : Outcome :=
  match cells with
  | [] => .done session
  | cell :: others =>
      (wrapped [.opening .cell []] [.closing .cell] (renderBlocks cell)
        session).andThen (renderCells others)

end

/-- Write a paragraph. One without blocks writes nothing. -/
def renderParagraph (paragraph : Paragraph) (session : Session) : Outcome :=
  if paragraph.isEmpty then
    .done session
  else
    wrapped [.opening .paragraph []] [.closing .paragraph, .constant "\n\n"]
      (renderBlocks environment renderHashtag paragraph) session

/-- Write the paragraphs of a document. -/
def renderParagraphs (document : Document) (session : Session) : Outcome :=
  match document with
  | [] => .done session
  | paragraph :: others =>
      (renderParagraph environment renderHashtag paragraph session).andThen
        (renderParagraphs others)

/-- The link to a further stylesheet. -/
def externalStylesheet (href : String) : Piece :=
  .void .link [.given "href" href, .fixed "rel" "stylesheet"]

/-- Write the links to further stylesheets. -/
def renderStylesheets (hrefs : List String) (session : Session) : Outcome :=
  match hrefs with
  | [] => .done session
  | href :: others =>
      (Outcome.emit [externalStylesheet href] session).andThen
        (renderStylesheets others)

/-- Write a whole page around a document. -/
def renderEnvelope (document : Document) (session : Session) : Outcome :=
  ((((Outcome.emit
    [.opening .html [], .opening .head [],
      .void .link
        [.fixed "rel" "stylesheet", .given "href" Stylesheet.fileName]]
    session).andThen
      (renderStylesheets environment.options.externalStylesheets)).andThen
      (.emit [.closing .head, .opening .body []])).andThen
      (renderParagraphs environment renderHashtag document)).andThen
      (.emit [.closing .body, .closing .html])

end Blocks

/-- The location of a source document. -/
def locateSource
    (disk : Disk)
    (path : Path) : Except RenderError Location :=
  match Source.locate disk path with
  | .ok location => .ok location
  | .error (.notFound path) => .error (.missingDocument path)
  | .error error => .error (.file error)

/-- The document at a location. -/
def loadSource
    (disk : Disk)
    (location : Location) : Except RenderError Document :=
  match Source.read disk (Location.path location) with
  | .error error => .error (.file error)
  | .ok text =>
      match Document.ofSource text with
      | .error malformation => .error (.malformed malformation)
      | .ok document => .ok document

/-- The session after the stylesheet is put beside a page. A stylesheet that
cannot be written is left out. -/
def withStylesheet
    (environment : Environment)
    (directory : Path)
    (session : Session) : Session :=
  match Stylesheet.write session.disk directory
      environment.options.stylesheet with
  | .ok disk => { session with disk := disk }
  | .error _ => session

/-- Make the page of the document at a location, given how the hashtags of a
context are written. The document counts as compiled from the start on, and the
page keeps what was written before an error. -/
def compileAt
    (environment : Environment)
    (renderHashtag : Context → Document.Hashtag → Session → Outcome)
    (source : Location)
    (session : Session) : Except RenderError Path × Session :=
  let begun := { session with
    compiled :=
      if session.compiled.contains source then
        session.compiled
      else
        session.compiled ++ [source] }
  let output := (Location.path source).page
  match loadSource begun.disk source with
  | .error error => (.error error, begun)
  | .ok document =>
      let styled := withStylesheet environment (directoryOf source) begun
      match styled.disk.createFile output with
      | .error failure => (.error (.file (.failed failure)), styled)
      | .ok (file, disk) =>
          let context : Context :=
            ⟨directoryOf source, [Location.path source]⟩
          let outcome := renderEnvelope environment (renderHashtag context)
            document
            { styled with disk := disk, page := some ⟨file, 0, .empty⟩ }
          let closed :=
            { outcome.session.flush with page := session.page }
          match outcome.failure with
          | some error => (.error error, closed)
          | none => (.ok output, closed)

/-- The pieces of a link. -/
def linkPieces (href title : String) : List Piece :=
  [.opening .anchor [.given "href" href], .text title, .closing .anchor]

/-- Write a hashtag in a context. `depth` bounds how many further documents may
be brought in around one another. -/
def renderHashtag
    (environment : Environment)
    (depth : Nat)
    (context : Context)
    (hashtag : Document.Hashtag)
    (session : Session) : Outcome :=
  match depth with
  | 0 => .fail .tooDeep session
  | depth + 1 =>
      match Directive.ofHashtag? hashtag with
      | none => .fail (.malformedDirective hashtag.sourceText) session
      | some (.link target title) =>
          if Target.isSource target then
            match locateSource session.disk (context.base.resolve target) with
            | .error error => .fail error session
            | .ok source =>
                if session.compiled.contains source then
                  .emit (linkPieces (Target.page target) title) session
                else
                  match compileAt environment (renderHashtag environment depth)
                      source session with
                  | (.error error, after) => .fail error after
                  | (.ok _, after) =>
                      .emit (linkPieces (Target.page target) title) after
          else
            .emit (linkPieces target title) session
      | some (.image source) =>
          .emit [.void .image [.given "src" source]] session
      | some (.nested target) =>
          match locateSource session.disk (context.base.resolve target) with
          | .error error => .fail error session
          | .ok source =>
              let path := Location.path source
              if context.visited.any (samePath path) then
                .fail (.cyclicTransclusion path context.visited) session
              else
                match loadSource session.disk source with
                | .error error => .fail error session
                | .ok document =>
                    renderParagraphs environment
                      (renderHashtag environment depth
                        ⟨directoryOf source, context.visited ++ [path]⟩)
                      document session
      | some .autoNested =>
          match Source.indexedFolders session.disk context.base
              environment.options.indexFileName with
          | .error error => .fail (.file error) session
          | .ok folders =>
              renderParagraphs environment
                (renderHashtag environment depth context)
                (Source.indexDocument folders
                  environment.options.indexFileName)
                session
      | some .other =>
          .emit
            [.opening .span [.fixed "class" "hashtag"],
              .text hashtag.sourceText, .closing .span]
            session

/-- A bound on the number of places that paths lead to. A path has fewer than
`Disk.maximalPath = 64 * 64` characters, each one of `0x110000`. -/
def placeBound : Nat :=
  Nat.pow (Nat.pow (0x110000 + 1) 64) 64

/-- A bound on how deep the documents on a disk bring in one another. Every page is
begun once, and inside a page every file is nested once. Since programs that run may
make files, all places that files can have are counted. -/
def depthBound (_ : Disk) : Nat :=
  (placeBound + 1) * (placeBound + 2)

/-- Write a document in a context. -/
def renderDocument
    (environment : Environment)
    (context : Context)
    (document : Document)
    (session : Session) : Outcome :=
  renderParagraphs environment
    (renderHashtag environment (depthBound session.disk) context)
    document session

/-- Write a whole page around a document in a context. -/
def renderPage
    (environment : Environment)
    (context : Context)
    (document : Document)
    (session : Session) : Outcome :=
  renderEnvelope environment
    (renderHashtag environment (depthBound session.disk) context)
    document session

/-- Make the page of the document at a path, and answer the path of the page. -/
def compileFile
    (environment : Environment)
    (path : Path)
    (session : Session) : Except RenderError Path × Session :=
  match locateSource session.disk path with
  | .error error => (.error error, session)
  | .ok source =>
      compileAt environment
        (renderHashtag environment (depthBound session.disk)) source session

end Page
end NotePress
