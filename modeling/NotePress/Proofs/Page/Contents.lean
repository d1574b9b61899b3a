import NotePress.Proofs.Html.Glimpse
import NotePress.Proofs.Page.Nesting

/-!
# What a page carries

A document that brings in no other document carries texts and references, and its
page shows them and nothing else: they are read back from the page as they are in
the blocks, whatever characters they have. So two documents that differ in these
texts alone have the same tags in their pages.
-/

namespace NotePress
namespace Page

open Html (Piece Glimpse)
open Document (Block)

/-! ## What blocks carry -/

/-- What a block carries into a page: a tag with what it refers to, a text, what a
program printed, or why a program did not end well. -/
inductive Carried
  | tag (references : List String)
  | words (text : String)
  | output (text : String)
  | trouble (text : String)
  deriving DecidableEq, Repr

/-- What a reader sees of it. -/
def Carried.glimpses : Carried → List Glimpse
  | tag references => [.tag references]
  | words text => Html.glimpsesOf text
  | output text => Html.glimpsesOf text
  | trouble text => Html.glimpsesOf text

/-- Whether a program ended well, if this came of one. -/
def Carried.answer? : Carried → Option Bool
  | output _ => some true
  | trouble _ => some false
  | _ => none

/-- How the programs ended whose results are carried. -/
def answersIn (carried : List Carried) : List Bool :=
  carried.filterMap Carried.answer?

/-- What is carried by an outcome and by what is written after it, which is nothing
if an error stopped it. -/
def carriedThen
    (first : Outcome)
    (here : List Carried)
    (later : Session → List Carried) : List Carried :=
  here ++
    match first.failure with
    | some _ => []
    | none => later first.session

/-- What is carried between opening and closing tags. -/
def carriedBetween
    (before : List Piece)
    (closing : List Carried)
    (inside : Session → Outcome)
    (carried : Session → List Carried)
    (session : Session) : List Carried :=
  carriedThen ((Outcome.emit before session).andThen inside)
    (carriedThen (Outcome.emit before session) (before.map fun _ => .tag [])
      carried)
    fun _ => closing

/-- What a quotation carries. -/
def carriedByQuotation (quotation : Document.Quotation) : List Carried :=
  [.tag [], .words quotation.text, .tag []] ++
    match quotation.author with
    | none => []
    | some author => [.tag [], .words "--", .words author, .tag []]

/-- What a directive carries that brings in no document. -/
def carriedByDirective
    (hashtag : Document.Hashtag) : Directive → List Carried
  | .link target title => [.tag [target], .words title, .tag []]
  | .image source => [.tag [source]]
  | .other => [.tag [], .words hashtag.sourceText, .tag []]
  | _ => []

/-- What a hashtag carries. One that is refused carries nothing. -/
def carriedByHashtag (hashtag : Document.Hashtag) : List Carried :=
  match Directive.ofHashtag? hashtag with
  | none => []
  | some directive => carriedByDirective hashtag directive

section Blocks

variable
  (environment : Environment)
  (hashtags : Document.Hashtag → Session → Outcome)

/-- What comes of a code block. -/
def codeResult (block : Document.CodeBlock) (session : Session) : Carried :=
  if block.command.isEmpty then
    .words block.code
  else
    match (runCode environment ⟨block.command, block.code⟩ session).1 with
    | .ok output => .output output
    | .error error => .trouble error.message

mutual

/-- What a block carries, given how hashtags are written. -/
def carriedByBlock (block : Block) (session : Session) : List Carried :=
  match block with
  | .text text => [.words text]
  | .heading level children =>
      if 1 ≤ level ∧ level ≤ 6 then
        carriedBetween [.opening (.heading level) []] [.tag []]
          (renderBlocks environment hashtags children)
          (carriedByBlocks children) session
      else
        []
  | .styled style children =>
      carriedBetween [.opening (styleTag style) []] [.tag []]
        (renderBlocks environment hashtags children)
        (carriedByBlocks children) session
  | .literal text => [.tag [], .words text, .tag []]
  | .codeBlock block =>
      [.tag [], .tag [], codeResult environment block session, .tag [], .tag []]
  | .checkbox _ => [.tag []]
  | .textbox => [.tag []]
  | .quotation quotation => carriedByQuotation quotation
  | .hashtag hashtag => carriedByHashtag hashtag
  | .mention name => [.tag [], .words "@", .words name, .tag []]
  | .orderedItem ordinal children =>
      carriedBetween
        [.opening .orderedList [.given "start" (toString ordinal)],
          .opening .item []]
        [.tag [], .tag []]
        (renderBlocks environment hashtags children)
        (carriedByBlocks children) session
  | .unorderedItem children =>
      carriedBetween [.opening .unorderedList [], .opening .item []]
        [.tag [], .tag []]
        (renderBlocks environment hashtags children)
        (carriedByBlocks children) session
  | .table rows =>
      carriedBetween [.opening .table [.fixed "class" "table"]] [.tag []]
        (renderRows environment hashtags rows) (carriedByRows rows) session

/-- What blocks carry one after the other. -/
def carriedByBlocks (blocks : List Block) (session : Session) : List Carried :=
  match blocks with
  | [] => []
  | block :: others =>
      carriedThen (renderBlock environment hashtags block session)
        (carriedByBlock block session) (carriedByBlocks others)

/-- What the rows of a table carry. -/
def carriedByRows
    (rows : List (List (List Block)))
    (session : Session) : List Carried :=
  match rows with
  | [] => []
  | row :: others =>
      carriedThen (renderRow environment hashtags row session)
        (carriedBetween [.opening .row []] [.tag []]
          (renderCells environment hashtags row) (carriedByCells row) session)
        (carriedByRows others)

/-- What the cells of a row carry. -/
def carriedByCells
    (cells : List (List Block))
    (session : Session) : List Carried :=
  match cells with
  | [] => []
  | cell :: others =>
      carriedThen (renderCell environment hashtags cell session)
        (carriedBetween [.opening .cell []] [.tag []]
          (renderBlocks environment hashtags cell) (carriedByBlocks cell)
          session)
        (carriedByCells others)

end

/-- What a paragraph carries: its blocks and, after them, a blank line. -/
def carriedByParagraph
    (paragraph : Paragraph)
    (session : Session) : List Carried :=
  if paragraph.isEmpty then
    []
  else
    carriedBetween [.opening .paragraph []] [.tag [], .words "\n\n"]
      (renderBlocks environment hashtags paragraph)
      (carriedByBlocks environment hashtags paragraph) session

/-- What the paragraphs of a document carry. -/
def carriedByParagraphs
    (document : Document)
    (session : Session) : List Carried :=
  match document with
  | [] => []
  | paragraph :: others =>
      carriedThen (renderParagraph environment hashtags paragraph session)
        (carriedByParagraph environment hashtags paragraph session)
        (carriedByParagraphs others)

end Blocks

/-! ## Local documents -/

/-- A directive that brings in no document and makes no further page. -/
def IsLocal : Directive → Prop
  | .link target _ => Target.isSource target = false
  | .nested _ => False
  | .autoNested => False
  | _ => True

instance : DecidablePred IsLocal
  | .link target _ => inferInstanceAs (Decidable (Target.isSource target = false))
  | .image _ => inferInstanceAs (Decidable True)
  | .nested _ => inferInstanceAs (Decidable False)
  | .autoNested => inferInstanceAs (Decidable False)
  | .other => inferInstanceAs (Decidable True)

mutual

/-- The hashtags in a block. -/
def hashtagsInBlock : Block → List Document.Hashtag
  | .hashtag hashtag => [hashtag]
  | .heading _ children => hashtagsInBlocks children
  | .styled _ children => hashtagsInBlocks children
  | .orderedItem _ children => hashtagsInBlocks children
  | .unorderedItem children => hashtagsInBlocks children
  | .table rows => hashtagsInRows rows
  | _ => []

/-- The hashtags in blocks. -/
def hashtagsInBlocks : List Block → List Document.Hashtag
  | [] => []
  | block :: others => hashtagsInBlock block ++ hashtagsInBlocks others

/-- The hashtags in cells, or in paragraphs. -/
def hashtagsInGroups : List (List Block) → List Document.Hashtag
  | [] => []
  | group :: others => hashtagsInBlocks group ++ hashtagsInGroups others

/-- The hashtags in the rows of a table. -/
def hashtagsInRows : List (List (List Block)) → List Document.Hashtag
  | [] => []
  | row :: others => hashtagsInGroups row ++ hashtagsInRows others

end

/-- Hashtags none of which brings in a document or makes a further page. -/
def AreLocal (hashtags : List Document.Hashtag) : Prop :=
  ∀ hashtag ∈ hashtags, ∀ directive ∈ Directive.ofHashtag? hashtag,
    IsLocal directive

instance : DecidablePred AreLocal := fun hashtags =>
  inferInstanceAs (Decidable (∀ hashtag ∈ hashtags,
    ∀ directive ∈ Directive.ofHashtag? hashtag, IsLocal directive))

/-- A local link writes its target as it is. -/
theorem directivePieces_link
    {hashtag : Document.Hashtag}
    {target title : String}
    (isLocal : IsLocal (.link target title)) :
    directivePieces hashtag (.link target title) =
      linkPieces target title := by
  have notSource : Target.isSource target = false := isLocal
  rw [directivePieces, if_neg (Bool.eq_false_iff.mp notSource)]

/-- How a hashtag is written that brings in no document. -/
def writeLocal (hashtag : Document.Hashtag) (session : Session) : Outcome :=
  match Directive.ofHashtag? hashtag with
  | none => .fail (.malformedDirective hashtag.sourceText) session
  | some directive => .emit (directivePieces hashtag directive) session

/-- A hashtag that brings in no document is written the same at every depth and in every
session. -/
theorem renderHashtag_of_local
    {hashtag : Document.Hashtag}
    (isLocal : ∀ directive ∈ Directive.ofHashtag? hashtag, IsLocal directive)
    (environment : Environment)
    (depth : Nat)
    (context : Context)
    (session : Session) :
    renderHashtag environment (depth + 1) context hashtag session =
      writeLocal hashtag session := by
  rw [renderHashtag, writeLocal]
  cases found : Directive.ofHashtag? hashtag with
  | none => rfl
  | some directive =>
      have here := isLocal directive found
      cases directive with
      | link target title =>
          have notSource : Target.isSource target = false := here
          dsimp only
          rw [if_neg (Bool.eq_false_iff.mp notSource),
            directivePieces_link here]
      | image source => rfl
      | nested target => exact here.elim
      | autoNested => exact here.elim
      | other => rfl

/-! ## Reading back what is carried -/

/-- What is seen of the pieces of an outcome is what is carried. -/
def Gives (outcome : Outcome) (carried : List Carried) : Prop :=
  outcome.html.flatMap Piece.glimpses = carried.flatMap Carried.glimpses

/-- What is carried by outcomes one after the other is seen in turn. -/
theorem Gives.andThen
    {first : Outcome}
    {next : Session → Outcome}
    {here : List Carried}
    {later : Session → List Carried}
    (front : Gives first here)
    (back : ∀ session, Gives (next session) (later session)) :
    Gives (first.andThen next) (carriedThen first here later) := by
  cases complete : first.failure with
  | some error =>
      rw [Outcome.andThen_of_failure complete, carriedThen, complete,
        List.append_nil]
      exact front
  | none =>
      rw [Outcome.andThen_of_complete complete, carriedThen, complete, Gives,
        List.flatMap_append, List.flatMap_append, front, back first.session]

/-- What pieces carry is seen in them. -/
theorem Gives.emit
    {pieces : List Piece}
    {carried : List Carried}
    (same : pieces.flatMap Piece.glimpses =
      carried.flatMap Carried.glimpses)
    (session : Session) :
    Gives (.emit pieces session) carried :=
  same

/-- Content between tags. -/
theorem Gives.wrapped
    {before after : List Piece}
    {closing : List Carried}
    {inside : Session → Outcome}
    {carried : Session → List Carried}
    (opens : before.flatMap Piece.glimpses =
      (before.map fun _ => Carried.tag []).flatMap Carried.glimpses)
    (closes : after.flatMap Piece.glimpses =
      closing.flatMap Carried.glimpses)
    (within : ∀ session, Gives (inside session) (carried session))
    (session : Session) :
    Gives (wrapped before after inside session)
      (carriedBetween before closing inside carried session) :=
  ((Gives.emit opens session).andThen within).andThen (Gives.emit closes)

/-- What a local hashtag carries is seen. -/
theorem gives_writeLocal
    {hashtag : Document.Hashtag}
    (isLocal : ∀ directive ∈ Directive.ofHashtag? hashtag, IsLocal directive)
    (session : Session) :
    Gives (writeLocal hashtag session) (carriedByHashtag hashtag) := by
  rw [writeLocal, carriedByHashtag]
  cases found : Directive.ofHashtag? hashtag with
  | none => rfl
  | some directive =>
      have here := isLocal directive found
      cases directive with
      | link target title =>
          dsimp only
          rw [directivePieces_link here]
          rfl
      | image source => rfl
      | nested target => exact here.elim
      | autoNested => exact here.elim
      | other => rfl

/-- What a quotation carries is seen. -/
theorem gives_renderQuotation
    (quotation : Document.Quotation)
    (session : Session) :
    Gives (renderQuotation quotation session)
      (carriedByQuotation quotation) := by
  rw [renderQuotation, carriedByQuotation]
  cases quotation.author with
  | none => rfl
  | some author => rfl

section Blocks

variable
  {environment : Environment}
  {hashtags : Document.Hashtag → Session → Outcome}

/-- What a code block carries is seen, with what came of its program. -/
theorem gives_renderCode (block : Document.CodeBlock) (session : Session) :
    Gives (renderCode environment block session)
      [.tag [], .tag [], codeResult environment block session, .tag [],
        .tag []] := by
  rw [renderCode, codeResult]
  split
  · rfl
  · split
    next output after ran =>
      rw [ran]
      split <;> rfl
    next error after ran =>
      rw [ran]
      rfl

/-- Hashtags that are written as if they bring in no document. -/
def WritesLocally
    (hashtags : Document.Hashtag → Session → Outcome)
    (written : List Document.Hashtag) : Prop :=
  AreLocal written ∧
    ∀ hashtag ∈ written, ∀ session,
      hashtags hashtag session = writeLocal hashtag session

/-- Where the hashtags of two pieces are written locally, those of each piece are. -/
theorem WritesLocally.append
    {first second : List Document.Hashtag}
    (writes : WritesLocally hashtags (first ++ second)) :
    WritesLocally hashtags first ∧ WritesLocally hashtags second := by
  obtain ⟨isLocal, same⟩ := writes
  refine ⟨⟨?_, ?_⟩, ⟨?_, ?_⟩⟩
  · exact fun hashtag member =>
      isLocal hashtag (List.mem_append_left second member)
  · exact fun hashtag member => same hashtag (List.mem_append_left second member)
  · exact fun hashtag member =>
      isLocal hashtag (List.mem_append_right first member)
  · exact fun hashtag member => same hashtag (List.mem_append_right first member)

mutual

/-- What a block carries is seen. The induction is on the block, along the writing of
its parts. -/
theorem gives_renderBlock
    (block : Block)
    (writes : WritesLocally hashtags (hashtagsInBlock block))
    (session : Session) :
    Gives (renderBlock environment hashtags block session)
      (carriedByBlock environment hashtags block session) := by
  match block with
  | .text text =>
      rw [renderBlock, carriedByBlock]
      rfl
  | .heading level children =>
      rw [renderBlock, carriedByBlock]
      split
      · exact Gives.wrapped rfl rfl
          (gives_renderBlocks children writes) session
      · rfl
  | .styled style children =>
      rw [renderBlock, carriedByBlock]
      exact Gives.wrapped rfl rfl (gives_renderBlocks children writes) session
  | .literal text =>
      rw [renderBlock, carriedByBlock]
      rfl
  | .codeBlock code =>
      rw [renderBlock, carriedByBlock]
      exact gives_renderCode code session
  | .checkbox checked =>
      rw [renderBlock, carriedByBlock]
      cases checked <;> rfl
  | .textbox =>
      rw [renderBlock, carriedByBlock]
      rfl
  | .quotation quotation =>
      rw [renderBlock, carriedByBlock]
      exact gives_renderQuotation quotation session
  | .hashtag hashtag =>
      obtain ⟨isLocal, same⟩ := writes
      rw [renderBlock, carriedByBlock, same hashtag List.mem_cons_self]
      exact gives_writeLocal (isLocal hashtag List.mem_cons_self) session
  | .mention name =>
      rw [renderBlock, carriedByBlock]
      rfl
  | .orderedItem ordinal children =>
      rw [renderBlock, carriedByBlock]
      exact Gives.wrapped rfl rfl (gives_renderBlocks children writes) session
  | .unorderedItem children =>
      rw [renderBlock, carriedByBlock]
      exact Gives.wrapped rfl rfl (gives_renderBlocks children writes) session
  | .table rows =>
      rw [renderBlock, carriedByBlock]
      exact Gives.wrapped rfl rfl (gives_renderRows rows writes) session

/-- What blocks carry is seen. -/
theorem gives_renderBlocks
    (blocks : List Block)
    (writes : WritesLocally hashtags (hashtagsInBlocks blocks))
    (session : Session) :
    Gives (renderBlocks environment hashtags blocks session)
      (carriedByBlocks environment hashtags blocks session) := by
  match blocks with
  | [] =>
      rw [renderBlocks, carriedByBlocks]
      rfl
  | block :: others =>
      obtain ⟨here, later⟩ := writes.append
      rw [renderBlocks, carriedByBlocks]
      exact (gives_renderBlock block here session).andThen
        (gives_renderBlocks others later)

/-- What rows carry is seen. -/
theorem gives_renderRows
    (rows : List (List (List Block)))
    (writes : WritesLocally hashtags (hashtagsInRows rows))
    (session : Session) :
    Gives (renderRows environment hashtags rows session)
      (carriedByRows environment hashtags rows session) := by
  match rows with
  | [] =>
      rw [renderRows, carriedByRows]
      rfl
  | row :: others =>
      obtain ⟨here, later⟩ := writes.append
      rw [renderRows, carriedByRows]
      exact (Gives.wrapped rfl rfl (gives_renderCells row here) session).andThen
        (gives_renderRows others later)

/-- What cells carry is seen. -/
theorem gives_renderCells
    (cells : List (List Block))
    (writes : WritesLocally hashtags (hashtagsInGroups cells))
    (session : Session) :
    Gives (renderCells environment hashtags cells session)
      (carriedByCells environment hashtags cells session) := by
  match cells with
  | [] =>
      rw [renderCells, carriedByCells]
      rfl
  | cell :: others =>
      obtain ⟨here, later⟩ := writes.append
      rw [renderCells, carriedByCells]
      exact (Gives.wrapped rfl rfl (gives_renderBlocks cell here) session).andThen
        (gives_renderCells others later)

end

/-- What a document carries is seen, and nothing else. -/
theorem gives_renderParagraphs
    (document : Document)
    (writes : WritesLocally hashtags (hashtagsInGroups document))
    (session : Session) :
    Gives (renderParagraphs environment hashtags document session)
      (carriedByParagraphs environment hashtags document session) := by
  induction document generalizing session with
  | nil =>
      rw [renderParagraphs, carriedByParagraphs]
      rfl
  | cons paragraph others inductionHypothesis =>
      obtain ⟨here, later⟩ := writes.append
      rw [renderParagraphs, carriedByParagraphs]
      refine Gives.andThen ?_ (inductionHypothesis later)
      rw [renderParagraph, carriedByParagraph]
      split
      · rfl
      · exact Gives.wrapped rfl rfl (gives_renderBlocks paragraph here) session

end Blocks

end Page
end NotePress
