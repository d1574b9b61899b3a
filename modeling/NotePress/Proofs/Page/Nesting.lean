import Mathlib.Tactic.IntervalCases
import NotePress.Proofs.Html.Balance
import NotePress.Proofs.Page.Composition

/-!
# Nested elements

What a render writes is well nested: every element it opens, it closes again, in
stack order. A render that an error stops leaves open the elements around the
block at which the error came up, those of the documents around included.
-/

namespace NotePress
namespace Page

open Html (Piece Tag Leaves Closes)
open Document (Block)

/-! ## Sealed pieces and frames -/

/-- Pieces that can be read back and close what they open. -/
structure Sealed (pieces : List Piece) : Prop where
  legible : ∀ piece ∈ pieces, piece.Legible
  balanced : Leaves pieces []

/-- Pieces before and after some content: the later ones close what the earlier
ones open. -/
structure Frame (before after : List Piece) : Prop where
  legibleBefore : ∀ piece ∈ before, piece.Legible
  legibleAfter : ∀ piece ∈ after, piece.Legible
  opens : Leaves before (before.filterMap openedBy?)
  closes : Closes after (before.filterMap openedBy?)

/-- The tags of a styled span are a frame. -/
theorem frame_styled (style : Document.Style) :
    Frame [.opening (styleTag style) []] [.closing (styleTag style)] := by
  cases style <;>
    exact ⟨by decide, by decide, fun _ => rfl, fun _ => rfl⟩

/-- The tags of a heading are a frame. -/
theorem frame_heading
    {level : Nat}
    (valid : 1 ≤ level ∧ level ≤ 6) :
    Frame [.opening (.heading level) []] [.closing (.heading level)] := by
  obtain ⟨positive, bounded⟩ := valid
  interval_cases level <;>
    exact ⟨by decide, by decide, fun _ => rfl, fun _ => rfl⟩

/-- The tags of an ordered item, with those of its list, are a frame. -/
theorem frame_orderedItem (ordinal : Nat) :
    Frame
      [.opening .orderedList [.given "start" (toString ordinal)],
        .opening .item []]
      [.closing .item, .closing .orderedList] := by
  refine ⟨?_, by decide, fun _ => rfl, fun _ => rfl⟩
  have start : (Html.Attribute.given "start" (toString ordinal)).Legible :=
    show Html.IsName "start".toList by decide
  refine List.forall_mem_cons.mpr ⟨⟨by decide, by decide, ?_⟩, by decide⟩
  exact List.forall_mem_singleton.mpr start

/-- The pieces around content are frames. -/
theorem framing_frame : Framing Frame where
  heading := frame_heading
  styled := frame_styled
  orderedItem := frame_orderedItem
  unorderedItem := ⟨by decide, by decide, fun _ => rfl, fun _ => rfl⟩
  table := ⟨by decide, by decide, fun _ => rfl, fun _ => rfl⟩
  row := ⟨by decide, by decide, fun _ => rfl, fun _ => rfl⟩
  cell := ⟨by decide, by decide, fun _ => rfl, fun _ => rfl⟩
  paragraph := ⟨by decide, by decide, fun _ => rfl, fun _ => rfl⟩

theorem Sealed.append
    {first second : List Piece}
    (front : Sealed first)
    (back : Sealed second) :
    Sealed (first ++ second) := by
  refine ⟨?_, front.balanced.append back.balanced⟩
  intro piece member
  exact (List.mem_append.mp member).elim (front.legible piece)
    (back.legible piece)

theorem Sealed.nil : Sealed [] :=
  ⟨by decide, fun _ => rfl⟩

/-- A link is sealed. -/
theorem sealed_linkPieces (href title : String) :
    Sealed (linkPieces href title) := by
  refine ⟨?_, fun _ => rfl⟩
  have given : (Html.Attribute.given "href" href).Legible :=
    show Html.IsName "href".toList by decide
  refine List.forall_mem_cons.mpr ⟨⟨by decide, by decide, ?_⟩, ?_⟩
  · exact List.forall_mem_singleton.mpr given
  · exact List.forall_mem_cons.mpr
      ⟨trivial, List.forall_mem_singleton.mpr (by decide)⟩

/-- A listing of a text is sealed. -/
theorem sealed_listing
    {attributes : List Html.Attribute}
    {content : Piece}
    (attributesLegible : ∀ each ∈ attributes, each.Legible)
    (text : ∃ words, content = .text words) :
    Sealed (listing attributes content) := by
  obtain ⟨words, rfl⟩ := text
  refine ⟨?_, fun _ => rfl⟩
  refine List.forall_mem_cons.mpr
    ⟨⟨by decide, by decide, attributesLegible⟩, ?_⟩
  refine List.forall_mem_cons.mpr ⟨by decide, ?_⟩
  exact List.forall_mem_cons.mpr ⟨trivial, by decide⟩

/-- A span of some class around constant pieces and texts. -/
theorem sealed_span
    (name : String)
    {content : List Piece}
    (legible : (Html.Attribute.fixed "class" name).Legible)
    (content_sealed : Sealed content) :
    Sealed
      (.opening .span [.fixed "class" name] :: content ++
        [.closing .span]) := by
  constructor
  · intro piece member
    simp only [List.cons_append, List.mem_cons, List.mem_append,
      List.not_mem_nil, or_false] at member
    rcases member with rfl | inside | rfl
    · exact ⟨by decide, by decide, List.forall_mem_singleton.mpr legible⟩
    · exact content_sealed.legible piece inside
    · exact (by decide : Piece.Legible (.closing .span))
  · have opens : Leaves [.opening .span [.fixed "class" name]] [.span] :=
      fun _ => rfl
    exact (opens.append content_sealed.balanced).close fun _ => rfl

theorem sealed_text (words : String) : Sealed [.text words] :=
  ⟨List.forall_mem_singleton.mpr trivial, fun _ => rfl⟩

/-- What a directive writes in its own place is sealed. -/
theorem sealed_directivePieces
    (hashtag : Document.Hashtag)
    (directive : Directive) :
    Sealed (directivePieces hashtag directive) := by
  cases directive with
  | link target title => exact sealed_linkPieces _ title
  | image source =>
      have given : (Html.Attribute.given "src" source).Legible :=
        show Html.IsName "src".toList by decide
      refine ⟨List.forall_mem_singleton.mpr ?_, fun _ => rfl⟩
      exact List.forall_mem_singleton.mpr given
  | nested target => exact Sealed.nil
  | autoNested => exact Sealed.nil
  | other =>
      exact sealed_span "hashtag" (by decide) (sealed_text hashtag.sourceText)

/-! ## Nested outcomes -/

/-- An error comes up at a visit before it writes anything or enters
anything. -/
structure Visit.Stops
    (environment : Environment)
    (visit : Visit)
    (error : RenderError) : Prop where
  html : (visit.outcome environment).html = []
  failure : (visit.outcome environment).failure = some error
  inside : visit.inside environment = []

/-- An outcome with some visits, inside open elements: what it wrote is balanced,
or open are the further elements around the visit at which it stopped. -/
structure Nests
    (environment : Environment)
    (around : List Tag)
    (visits : List Visit)
    (outcome : Outcome) : Prop where
  legible : ∀ piece ∈ outcome.html, piece.Legible
  complete : outcome.failure = none → Leaves outcome.html []
  stopped : ∀ error, outcome.failure = some error →
    ∃ visit inner, Reached environment visits visit ∧
      visit.Stops environment error ∧
      visit.around = around ++ inner ∧ Leaves outcome.html inner

section Outcomes

variable
  {environment : Environment}
  {around : List Tag}
  {visits later : List Visit}
  {session : Session}

theorem Reached.mono
    {visit : Visit}
    (reached : Reached environment visits visit)
    (subset : ∀ first ∈ visits, first ∈ later) :
    Reached environment later visit := by
  induction reached with
  | start member => exact .start (subset _ member)
  | inside _ member inductionHypothesis => exact .inside inductionHypothesis member

/-- What is reached from the visits inside a visit is reached from it. -/
theorem Reached.of_inside
    {outer visit : Visit}
    (reached : Reached environment (outer.inside environment) visit) :
    Reached environment [outer] visit := by
  induction reached with
  | start member => exact .inside (.start List.mem_cons_self) member
  | inside _ member inductionHypothesis => exact .inside inductionHypothesis member

namespace Nests

/-- What nests with visits nests with more visits. -/
theorem mono
    {outcome : Outcome}
    (nests : Nests environment around visits outcome)
    (subset : ∀ first ∈ visits, first ∈ later) :
    Nests environment around later outcome := by
  refine ⟨nests.legible, nests.complete, ?_⟩
  intro error failure
  obtain ⟨visit, inner, reached, stops⟩ := nests.stopped error failure
  exact ⟨visit, inner, reached.mono subset, stops⟩

theorem done : Nests environment around visits (.done session) := by
  refine ⟨?_, fun _ => Leaves.nil, ?_⟩
  · intro piece member
    cases member
  · intro error failure
    cases failure

/-- Sealed pieces nest with any visits. -/
theorem emit
    {pieces : List Piece}
    (whole : Sealed pieces) :
    Nests environment around visits (.emit pieces session) := by
  refine ⟨whole.legible, fun _ => whole.balanced, ?_⟩
  intro error failure
  cases failure

/-- An outcome that stopped where it began. -/
theorem stop
    {visit : Visit}
    {error : RenderError}
    (fails : visit.outcome environment = .fail error session)
    (inside : visit.inside environment = []) :
    Nests environment visit.around [visit] (visit.outcome environment) := by
  rw [fails]
  refine ⟨?_, ?_, ?_⟩
  · intro piece member
    cases member
  · intro complete
    cases complete
  · intro found failure
    have stops : visit.Stops environment found :=
      ⟨by rw [fails]; rfl, by rw [fails]; exact failure, inside⟩
    exact ⟨visit, [], .start List.mem_cons_self, stops,
      (List.append_nil _).symm, Leaves.nil⟩

/-- Outcomes one after the other nest when each of them does. -/
theorem andThen
    {first : Outcome}
    {next : Session → Outcome}
    (front : Nests environment around visits first)
    (back : first.failure = none →
      Nests environment around later (next first.session)) :
    Nests environment around (visits ++ later) (first.andThen next) := by
  unfold Outcome.andThen
  split
  next error failure =>
    exact front.mono fun visit member => List.mem_append_left later member
  next failure =>
    have back := back failure
    have balanced := front.complete failure
    refine ⟨?_, ?_, ?_⟩
    · intro piece member
      exact (List.mem_append.mp member).elim (front.legible piece)
        (back.legible piece)
    · intro complete
      exact balanced.append (back.complete complete)
    · intro error stopped
      obtain ⟨visit, inner, reached, stops, position, leaves⟩ :=
        back.stopped error stopped
      refine ⟨visit, inner, ?_, stops, position, ?_⟩
      · exact reached.mono fun first member =>
          List.mem_append_right visits member
      · exact balanced.append leaves

/-- An outcome after one that opens elements, and before pieces that close
them. -/
theorem between
    {start : Outcome}
    {tags : List Tag}
    {after : List Piece}
    {inside : Session → Outcome}
    (started : start.failure = none)
    (legibleBefore : ∀ piece ∈ start.html, piece.Legible)
    (legibleAfter : ∀ piece ∈ after, piece.Legible)
    (opens : Leaves start.html tags)
    (closes : Closes after tags)
    (nests : Nests environment (around ++ tags) visits
      (inside start.session)) :
    Nests environment around visits
      ((start.andThen inside).andThen (.emit after)) := by
  have opened : start.andThen inside =
      ⟨start.html ++ (inside start.session).html,
        (inside start.session).session, (inside start.session).failure⟩ := by
    rw [Outcome.andThen, started]
  rw [opened, Outcome.andThen]
  split
  next error failure =>
    refine ⟨?_, ?_, ?_⟩
    · intro piece member
      exact (List.mem_append.mp member).elim (legibleBefore piece)
        (nests.legible piece)
    · intro complete
      rw [failure] at complete
      cases complete
    · intro found stopped
      obtain ⟨visit, inner, reached, stops, position, leaves⟩ :=
        nests.stopped found stopped
      refine ⟨visit, tags ++ inner, reached, stops, ?_, opens.append leaves⟩
      rw [position, List.append_assoc]
  next failure =>
    refine ⟨?_, ?_, ?_⟩
    · intro piece member
      rcases List.mem_append.mp member with front | back
      · exact (List.mem_append.mp front).elim (legibleBefore piece)
          (nests.legible piece)
      · exact legibleAfter piece back
    · intro _
      have inner := opens.append (nests.complete failure)
      rw [List.append_nil] at inner
      exact inner.close closes
    · intro found stopped
      cases stopped

/-- An outcome between the pieces of a frame. -/
theorem wrapped
    {before after : List Piece}
    {inside : Session → Outcome}
    (frame : Frame before after)
    (nests : Nests environment (around ++ before.filterMap openedBy?) visits
      (inside (Outcome.emit before session).session)) :
    Nests environment around visits (wrapped before after inside session) :=
  between rfl frame.legibleBefore frame.legibleAfter frame.opens frame.closes
    nests

/-- What nests with the visits inside a visit nests with that visit. -/
theorem of_inside
    {visit : Visit}
    {outcome : Outcome}
    (nests : Nests environment around (visit.inside environment) outcome) :
    Nests environment around [visit] outcome := by
  refine ⟨nests.legible, nests.complete, ?_⟩
  intro error failure
  obtain ⟨found, inner, reached, stops⟩ := nests.stopped error failure
  exact ⟨found, inner, reached.of_inside, stops⟩

end Nests

end Outcomes

/-! ## Nested renders -/

section Renders

variable {environment : Environment}

/-- A visit whose outcome nests. -/
def Visit.Nested (environment : Environment) (visit : Visit) : Prop :=
  Nests environment visit.around [visit] (visit.outcome environment)

/-- Outcomes nest when their parts do. -/
theorem compositional_nests :
    Compositional Frame fun site visits outcome =>
      Nests environment site.around visits outcome where
  framing := framing_frame
  done := fun _ => Nests.done
  andThen := fun front _ back => front.andThen back
  between := fun frame nests => Nests.wrapped frame nests
  moved := fun _ _ nests => nests

/-- A code block writes a listing of the text that came of it. -/
theorem sealed_renderCode
    (escaped : environment.options.escapeCodeOutput = true)
    (code : Document.CodeBlock)
    (session : Session) :
    ∃ pieces after, Sealed pieces ∧
      renderCode environment code session = .emit pieces after := by
  have bare : ∀ each ∈ ([] : List Html.Attribute), each.Legible := by decide
  have wrong : ∀ each ∈ [Html.Attribute.fixed "class" "code-error"],
      each.Legible := by decide
  rw [renderCode]
  split
  · exact ⟨_, _, sealed_listing bare ⟨_, rfl⟩, rfl⟩
  · split
    next output after ran =>
      exact ⟨_, _, sealed_listing bare ⟨_, rfl⟩, rfl⟩
    next => exact ⟨_, _, sealed_listing wrong ⟨_, rfl⟩, rfl⟩

/-- A quotation nests with any visits. -/
theorem nests_renderQuotation
    {visits : List Visit}
    {around : List Tag}
    (quotation : Document.Quotation)
    (session : Session) :
    Nests environment around visits (renderQuotation quotation session) := by
  have quoted : Sealed
      [.opening .blockquote [], .text quotation.text, .closing .blockquote] := by
    have opens : Leaves [.opening .blockquote []] [.blockquote] := fun _ => rfl
    refine ⟨?_, fun _ => rfl⟩
    exact List.forall_mem_cons.mpr ⟨by decide, List.forall_mem_cons.mpr
      ⟨trivial, by decide⟩⟩
  rw [renderQuotation]
  split
  · exact Nests.emit quoted
  next author _ =>
    have dashes : Sealed [.constant "--"] := ⟨by decide, fun _ => rfl⟩
    have named := sealed_span "quotation-author" (by decide)
      (dashes.append (sealed_text author))
    have quotes : Nests environment around [] (.emit _ session) := .emit quoted
    exact quotes.andThen fun _ => Nests.emit named

/-- A hashtag that brings in no document writes sealed pieces, or stops. -/
theorem nested_hashtag
    {site : Site}
    {hashtag : Document.Hashtag}
    (alone : site.depth = 0 ∨
      transcluded? environment site.context hashtag site.session = none) :
    (Visit.mk site (.hashtag hashtag)).Nested environment := by
  have unfolded : (Visit.mk site (.hashtag hashtag)).outcome environment =
      renderHashtag environment site.depth site.context hashtag site.session :=
    Visit.outcome_hashtag rfl
  rcases renderHashtag_of_not_transcluded alone with
    ⟨error, after, fails⟩ | ⟨directive, after, _, writes⟩
  · exact Nests.stop (unfolded.trans fails) (Visit.inside_alone alone)
  · rw [Visit.Nested, unfolded, writes]
    exact Nests.emit (sealed_directivePieces hashtag directive)

/-- What comes of a visit that takes up no container nests. -/
theorem nested_of_leaf
    (escaped : environment.options.escapeCodeOutput = true)
    {visit : Visit}
    (leaf : ¬visit.Contains environment) :
    visit.Nested environment := by
  obtain ⟨site, block⟩ := visit
  have unfolded := Visit.outcome_mk environment site block
  cases block with
  | text words =>
      rw [Visit.Nested, unfolded, renderBlock]
      exact Nests.emit (sealed_text words)
  | heading level children =>
      have invalid : ¬(1 ≤ level ∧ level ≤ 6) := leaf
      rw [renderBlock, if_neg invalid] at unfolded
      exact Nests.stop unfolded (Visit.inside_invalidHeading invalid)
  | literal words =>
      rw [Visit.Nested, unfolded, renderBlock]
      refine Nests.emit ⟨?_, fun _ => rfl⟩
      exact List.forall_mem_cons.mpr ⟨by decide, List.forall_mem_cons.mpr
        ⟨trivial, by decide⟩⟩
  | codeBlock code =>
      obtain ⟨pieces, after, whole, writes⟩ :=
        sealed_renderCode escaped code site.session
      rw [Visit.Nested, unfolded, renderBlock, writes]
      exact Nests.emit whole
  | checkbox checked =>
      rw [Visit.Nested, unfolded, renderBlock]
      refine Nests.emit ⟨?_, fun _ => rfl⟩
      cases checked <;> decide
  | textbox =>
      rw [Visit.Nested, unfolded, renderBlock]
      exact Nests.emit ⟨by decide, fun _ => rfl⟩
  | quotation quotation =>
      rw [Visit.Nested, unfolded, renderBlock]
      exact nests_renderQuotation quotation site.session
  | hashtag hashtag => exact nested_hashtag (Classical.not_not.mp leaf)
  | mention name =>
      have sign : Sealed [.constant "@"] := ⟨by decide, fun _ => rfl⟩
      rw [Visit.Nested, unfolded, renderBlock]
      exact Nests.emit (sealed_span "mention" (by decide)
        (sign.append (sealed_text name)))
  | _ => exact (leaf trivial).elim

/-- What comes of a visit nests when what comes of the visits inside it does. -/
theorem nested_of_inside
    (escaped : environment.options.escapeCodeOutput = true)
    (visit : Visit)
    (inside : ∀ inner ∈ visit.inside environment, inner.Nested environment) :
    visit.Nested environment := by
  by_cases contains : visit.Contains environment
  · exact Nests.of_inside (compositional_nests.inside contains inside)
  · exact nested_of_leaf escaped contains

/-- What comes of every visit nests. -/
theorem Visit.nested
    (escaped : environment.options.escapeCodeOutput = true)
    (visit : Visit) :
    visit.Nested environment :=
  Visit.induction environment (nested_of_inside escaped) visit

/-! ## Documents and pages -/

/-- Links to stylesheets leave nothing open. -/
theorem leaves_externalStylesheets (hrefs : List String) :
    Leaves (hrefs.map externalStylesheet) [] := by
  induction hrefs with
  | nil => exact Leaves.nil
  | cons first others inductionHypothesis =>
      have link : Leaves [externalStylesheet first] [] := fun _ => rfl
      exact link.append inductionHypothesis

/-- A link to a stylesheet can be read back. -/
theorem legible_externalStylesheet (href : String) :
    (externalStylesheet href).Legible := by
  have given : (Html.Attribute.given "href" href).Legible :=
    show Html.IsName "href".toList by decide
  exact List.forall_mem_cons.mpr ⟨given, by decide⟩

/-- The head of a page can be read back. -/
theorem legible_pageHead (session : Session) :
    ∀ piece ∈ (pageHead environment session).html, piece.Legible := by
  have opens : ∀ piece ∈
      [.opening .html [], .opening .head [],
        .void .link
          [.fixed "rel" "stylesheet", .given "href" Stylesheet.fileName]],
      Piece.Legible piece := by decide
  have closes : ∀ piece ∈ [.closing .head, .opening .body []],
      Piece.Legible piece := by decide
  intro piece member
  rw [html_pageHead] at member
  rcases List.mem_append.mp member with front | back
  · rcases List.mem_append.mp front with start | sheets
    · exact opens piece start
    · obtain ⟨href, _, rfl⟩ := List.mem_map.mp sheets
      exact legible_externalStylesheet href
  · exact closes piece back

/-- The head of a page leaves the body open. -/
theorem leaves_pageHead (session : Session) :
    Leaves (pageHead environment session).html [.html, .body] := by
  have opens : Leaves
      [.opening .html [], .opening .head [],
        .void .link
          [.fixed "rel" "stylesheet", .given "href" Stylesheet.fileName]]
      [.html, .head] := fun _ => rfl
  have sheets := opens.append
    (leaves_externalStylesheets environment.options.externalStylesheets)
  intro opened
  rw [html_pageHead, List.foldlM_append, sheets opened]
  rfl

/-- A document that is rendered alone nests. -/
theorem nests_renderDocument
    (escaped : environment.options.escapeCodeOutput = true)
    (context : Context)
    (document : Document)
    (session : Session) :
    Nests environment []
      ((Site.ofDocument context session).paragraphs environment document)
      (renderDocument environment context document session) :=
  compositional_nests.paragraphs (Site.ofDocument context session)
    fun visit _ => visit.nested escaped

/-- A page nests. -/
theorem nests_renderEnvelope
    (escaped : environment.options.escapeCodeOutput = true)
    (depth : Nat)
    (context : Context)
    (document : Document)
    (session : Session) :
    Nests environment []
      ((Site.ofPage environment depth context session).paragraphs environment
        document)
      (renderEnvelope environment (renderHashtag environment depth context)
        document session) := by
  rw [renderEnvelope_eq]
  refine Nests.between (pageHead_complete environment session)
    (legible_pageHead session) (by decide) (leaves_pageHead session)
    (fun _ => rfl) ?_
  exact compositional_nests.paragraphs
    (Site.ofPage environment depth context session)
    fun visit _ => visit.nested escaped

end Renders

/-- The outcome of some visits inside open elements is well nested: a reader finds
that it left nothing open, or the elements around the visit at which it stopped. -/
structure WellNested
    (environment : Environment)
    (around : List Tag)
    (visits : List Visit)
    (outcome : Outcome) : Prop where
  complete : outcome.failure = none →
    Html.openElements? (Html.print outcome.html) = some []
  stopped : ∀ error, outcome.failure = some error →
    ∃ visit, Reached environment visits visit ∧
      visit.Stops environment error ∧ around <+: visit.around ∧
      Html.openElements? (Html.print outcome.html) =
        some (visit.around.map Tag.text)

/-- A reader comes to the elements that the pieces of an outcome leave open. -/
theorem Nests.wellNested
    {environment : Environment}
    {around : List Tag}
    {visits : List Visit}
    {outcome : Outcome}
    (nests : Nests environment [] visits outcome)
    (inside : ∀ visit, Reached environment visits visit →
      around <+: visit.around) :
    WellNested environment around visits outcome := by
  constructor
  · intro complete
    exact Html.openElements_print nests.legible (nests.complete complete)
  · intro error failure
    obtain ⟨visit, inner, reached, stops, position, leaves⟩ :=
      nests.stopped error failure
    refine ⟨visit, reached, stops, inside visit reached, ?_⟩
    rw [position, List.nil_append]
    exact Html.openElements_print nests.legible leaves

/-- What a render writes is well nested, for a document alone and in its page. -/
theorem wellNested_render
    (environment : Environment)
    (escaped : environment.options.escapeCodeOutput = true)
    (context : Context)
    (document : Document)
    (session : Session) :
    WellNested environment []
      ((Site.ofDocument context session).paragraphs environment document)
      (renderDocument environment context document session) ∧
    WellNested environment [.html, .body]
      ((Site.ofPage environment (depthBound session.disk) context
        session).paragraphs environment document)
      (renderPage environment context document session) := by
  constructor
  · refine (nests_renderDocument escaped context document session).wellNested ?_
    exact fun visit reached => List.nil_prefix
  · refine (nests_renderEnvelope escaped (depthBound session.disk) context
      document session).wellNested ?_
    refine fun visit reached => reached.around fun first member => ?_
    obtain ⟨paragraph, _, block, _, session, rfl⟩ := Site.mem_paragraphs member
    exact List.prefix_append _ _

/-- A heading of level seven in a list stops the render. -/
theorem wellNested_render_invalidHeading :
    let environment : Environment := ⟨{}, fun disk _ _ => (.ok "", disk)⟩
    let context : Context := ⟨⟨"/notes"⟩, []⟩
    let document : Document := [[.unorderedItem [.heading 7 []]]]
    let session : Session := { disk := default }
    let outcome := renderDocument environment context document session
    environment.options.escapeCodeOutput = true ∧
      outcome.failure = some (.invalidHeadingLevel 7) ∧
      WellNested environment []
        ((Site.ofDocument context session).paragraphs environment document)
        outcome :=
  ⟨rfl, rfl, (wellNested_render _ rfl _ _ _).1⟩

end Page
end NotePress
