import NotePress.Proofs.Disk.ReadablePlaces
import NotePress.Proofs.Page.Course
import NotePress.Proofs.Page.Links
import NotePress.Proofs.Page.PageFile
import NotePress.Proofs.Page.Pairing

/-!
# Documents that bring in one another

Documents may nest and link one another in circles, and pages that are being written
may be nested too. Still every render ends: a document that is nested was not around
before, a document whose page is made was not begun before, and there are finitely
many places for both. So from some depth on a render comes to the same, whatever the
depth, and depth is not what it fails for.
-/

namespace NotePress
namespace Page

open Html (Piece)
open Document (Block)

/-! ## What a run keeps -/

section Sessions

variable
  {environment : Environment}
  {begins : Location → Prop}
  {before after : Session}

/-- A change of a session forgets no document that was begun. -/
theorem Change.compiled
    (change : Change environment begins before after) :
    before.compiled ⊆ after.compiled := by
  cases change with
  | write units =>
      rw [compiled_writeUnits]
      exact List.Subset.refl _
  | begin allowed =>
      rw [Session.begin]
      dsimp only
      split
      · exact List.Subset.refl _
      · exact List.subset_append_left _ _
  | style directory =>
      rw [withStylesheet]
      split <;> exact List.Subset.refl _
  | close page =>
      dsimp only
      rw [Session.compiled_flush]
      exact List.Subset.refl _
  | _ => exact List.Subset.refl _

/-- A step of a run forgets no document that was begun. -/
theorem Advances.compiled
    (advances : Advances environment begins before after) :
    before.compiled ⊆ after.compiled :=
  advances.keeps (fun _ _ change kept => List.Subset.trans kept change.compiled)
    (List.Subset.refl _)

/-- What counts as compiled before a run counts as compiled after it. -/
theorem Runs.compiled_subset
    {html : List Piece}
    {started : List Compilation}
    (runs : Runs environment before html started after) :
    before.compiled ⊆ after.compiled := by
  have advances : Advances environment (fun _ => True) before after :=
    runs.advances fun _ _ => trivial
  exact advances.compiled

end Sessions

/-! ## How much is left -/

/-- Hashtags that are links, or malformed ones. They bring in no documents. -/
def AllLinks (hashtags : List Document.Hashtag) : Prop :=
  ∀ hashtag ∈ hashtags, hashtag.name = "Link"

instance (hashtags : List Document.Hashtag) : Decidable (AllLinks hashtags) :=
  inferInstanceAs (Decidable (∀ hashtag ∈ hashtags, hashtag.name = "Link"))

/-- The places from which no document was begun. -/
noncomputable def uncompiled (session : Session) : Finset Location :=
  Disk.readable.filter (· ∉ session.compiled)

/-- The places that are not around a context. -/
noncomputable def unvisited (context : Context) : Finset Location :=
  Disk.readable.filter fun location =>
    context.visited.any (samePath (Location.path location)) = false

/-- How much deeper documents may be brought in from a visit on. -/
noncomputable def Visit.rank (visit : Visit) : Nat :=
  (uncompiled visit.session).card * (placeBound + 2) +
    if AllLinks (hashtagsInBlock visit.block) then
      1
    else
      (unvisited visit.context).card + 2

/-- There are no more documents to begin than places. -/
theorem card_uncompiled_le (session : Session) :
    (uncompiled session).card ≤ placeBound :=
  Nat.le_trans (Finset.card_filter_le _ _) Disk.card_readable

/-- There are no more documents to nest than places. -/
theorem card_unvisited_le (context : Context) :
    (unvisited context).card ≤ placeBound :=
  Nat.le_trans (Finset.card_filter_le _ _) Disk.card_readable

/-- Something is left of every visit. -/
theorem rank_pos (visit : Visit) : 0 < visit.rank := by
  rw [Visit.rank]
  split <;> omega

/-- What is left is bounded by the documents to begin and those to nest. -/
theorem rank_le (visit : Visit) :
    visit.rank ≤
      (uncompiled visit.session).card * (placeBound + 2) +
        ((unvisited visit.context).card + 2) := by
  rw [Visit.rank]
  split <;> omega

/-- When more documents were begun, fewer are left to begin. -/
theorem card_uncompiled_anti
    {before after : Session}
    (kept : before.compiled ⊆ after.compiled) :
    (uncompiled after).card ≤ (uncompiled before).card := by
  refine Finset.card_le_card fun location member => ?_
  obtain ⟨place, fresh⟩ := Finset.mem_filter.mp member
  exact Finset.mem_filter.mpr ⟨place, fun begun => fresh (kept begun)⟩

/-- A document that is begun is one less. -/
theorem card_uncompiled_lt
    {before after : Session}
    (kept : before.compiled ⊆ after.compiled)
    {source : Location}
    (place : source ∈ Disk.readable)
    (fresh : source ∉ before.compiled)
    (begun : source ∈ after.compiled) :
    (uncompiled after).card < (uncompiled before).card := by
  refine Finset.card_lt_card ⟨fun location member => ?_, fun subset => ?_⟩
  · obtain ⟨place, fresh⟩ := Finset.mem_filter.mp member
    exact Finset.mem_filter.mpr ⟨place, fun begun => fresh (kept begun)⟩
  · exact (Finset.mem_filter.mp (subset
      (Finset.mem_filter.mpr ⟨place, fresh⟩))).2 begun

/-- A document that is nested is one less. -/
theorem card_unvisited_lt
    {context : Context}
    {source : Location}
    (place : source ∈ Disk.readable)
    (fresh : context.visited.any (samePath (Location.path source)) = false)
    (base : Path) :
    (unvisited ⟨base, context.visited ++ [Location.path source]⟩).card <
      (unvisited context).card := by
  refine Finset.card_lt_card ⟨fun location member => ?_, fun subset => ?_⟩
  · obtain ⟨place, alone⟩ := Finset.mem_filter.mp member
    rw [List.any_append, Bool.or_eq_false_iff] at alone
    exact Finset.mem_filter.mpr ⟨place, alone.1⟩
  · have around := (Finset.mem_filter.mp (subset
      (Finset.mem_filter.mpr ⟨place, fresh⟩))).2
    have same : samePath (Location.path source) (Location.path source) = true :=
      beq_self_eq_true _
    rw [List.any_append, Bool.or_eq_false_iff, List.any_cons, same,
      Bool.true_or] at around
    exact Bool.noConfusion around.2

/-- In a block of links, only pages are left to make. -/
theorem rank_of_allLinks
    {visit : Visit}
    (links : AllLinks (hashtagsInBlock visit.block)) :
    visit.rank = (uncompiled visit.session).card * (placeBound + 2) + 1 := by
  rw [Visit.rank, if_pos links]

/-- In any other block, documents are left to nest as well. -/
theorem rank_of_not_allLinks
    {visit : Visit}
    (others : ¬AllLinks (hashtagsInBlock visit.block)) :
    visit.rank =
      (uncompiled visit.session).card * (placeBound + 2) +
        ((unvisited visit.context).card + 2) := by
  rw [Visit.rank, if_neg others]

/-- The list of folders holds links only. -/
theorem allLinks_indexDocument
    (folders : List String)
    (indexFileName : String) :
    AllLinks (hashtagsInGroups
      (Source.indexDocument folders indexFileName)) := by
  intro hashtag member
  rw [Source.indexDocument, hashtagsInGroups_eq, List.flatMap_singleton,
    hashtagsInBlocks_eq] at member
  obtain ⟨block, listed, inside⟩ := List.mem_flatMap.mp member
  obtain ⟨name, _, rfl⟩ := List.mem_map.mp listed
  rw [hashtagsInBlock, hashtagsInBlocks_eq, List.flatMap_singleton,
    hashtagsInBlock, List.mem_singleton] at inside
  rw [inside]

/-- A hashtag of links is a directive of a link. -/
theorem directive_of_link
    {parameters : List String}
    {directive : Directive}
    (found : Directive.ofHashtag? ⟨"Link", parameters⟩ = some directive) :
    ∃ target title, directive = .link target title := by
  have linked : ∀ target title,
      Directive.unlessEmpty target (.link target title) = some directive →
      ∃ target title, directive = .link target title := by
    intro target title found
    rw [Directive.unlessEmpty] at found
    split at found
    · cases found
    · exact ⟨target, title, (Option.some.inj found).symm⟩
  match parameters, found with
  | [], found => cases found
  | [target], found => exact linked _ _ found
  | [target, title], found => exact linked _ _ found
  | _ :: _ :: _ :: _, found => cases found

/-- A link brings in no document. -/
theorem name_of_brings
    {environment : Environment}
    {context inner : Context}
    {hashtag : Document.Hashtag}
    {session : Session}
    {document : Document}
    (brings : Brings environment context hashtag session inner document) :
    hashtag.name ≠ "Link" := by
  intro link
  obtain ⟨name, parameters⟩ := hashtag
  obtain rfl : name = "Link" := link
  cases brings with
  | nested directive =>
      obtain ⟨_, _, same⟩ := directive_of_link directive
      cases same
  | autoNested directive =>
      obtain ⟨_, _, same⟩ := directive_of_link directive
      cases same

/-! ## Less is left inside -/

section Inside

variable {environment : Environment}

/-- A visit inside another has less left, by as much as it is deeper. -/
theorem rank_of_mem_inside
    {outer inner : Visit}
    (member : inner ∈ outer.inside environment)
    (kept : outer.session.compiled ⊆ inner.session.compiled) :
    inner.rank + outer.depth ≤ outer.rank + inner.depth := by
  have fewer : (uncompiled inner.session).card * (placeBound + 2) ≤
      (uncompiled outer.session).card * (placeBound + 2) :=
    Nat.mul_le_mul_right _ (card_uncompiled_anti kept)
  rcases Visit.document_cases member with
    ⟨depth, context, part⟩ | ⟨hashtag, document, block, depth, brought, part⟩
  · by_cases links : AllLinks (hashtagsInBlock outer.block)
    · have still : AllLinks (hashtagsInBlock inner.block) :=
        fun hashtag found => links hashtag (part hashtag found)
      rw [rank_of_allLinks links, rank_of_allLinks still]
      omega
    · have bound := rank_le inner
      rw [context] at bound
      rw [rank_of_not_allLinks links]
      omega
  · have brings := transcluded_iff.mp brought
    have others : ¬AllLinks (hashtagsInBlock outer.block) := by
      rw [block, hashtagsInBlock]
      exact fun links => name_of_brings brings
        (links hashtag (List.mem_singleton.mpr rfl))
    rw [rank_of_not_allLinks others]
    generalize innerContext : inner.context = context at brings
    cases brings with
    | @nested _ source _ _ _ fresh reads =>
        have bound := rank_le inner
        have less := card_unvisited_lt (mem_readable_of_loadSource reads) fresh
          (directoryOf source)
        rw [innerContext] at bound
        omega
    | autoNested directive lists =>
        have links : AllLinks (hashtagsInBlock inner.block) :=
          fun hashtag found => allLinks_indexDocument _ _ hashtag
            (part hashtag found)
        rw [rank_of_allLinks links]
        omega

/-- The document of a page is loaded before anything in the page is visited. What
counted as compiled before still does, and so does this document. -/
theorem Compilation.begun_of_mem_visits
    {compilation : Compilation}
    {visit : Visit}
    (member : visit ∈ compilation.visits environment) :
    compilation.source ∈ Disk.readable ∧
      compilation.session.compiled ⊆ visit.session.compiled ∧
      compilation.source ∈ visit.session.compiled := by
  obtain ⟨opened, document, written, started, opens, runs, _⟩ :=
    Compilation.comes member
  obtain ⟨loads, file, disk, _, rfl⟩ := of_opened opens
  have kept := runs.compiled_subset
  replace kept : (compilation.styled environment).compiled ⊆
      visit.session.compiled := kept
  rw [compiled_styled] at kept
  exact ⟨mem_readable_of_loadSource loads, List.Subset.trans subset_begun kept,
    kept mem_begun⟩

/-- A visit in a page has less left than the link that the page is made for. -/
theorem rank_of_mem_visits
    {outer inner : Visit}
    {next : Compilation}
    (starts : outer.starts? = some next)
    (member : inner ∈ next.visits environment) :
    inner.rank + outer.depth ≤ outer.rank + inner.depth := by
  obtain ⟨target, title, start⟩ := startsBy_of_starts starts
  obtain ⟨place, kept, begun⟩ := Compilation.begun_of_mem_visits member
  rw [start.session] at kept
  have less := card_uncompiled_lt kept place start.fresh begun
  have fewer := Nat.mul_le_mul_right (placeBound + 2) less
  rw [Nat.succ_mul] at fewer
  have bound := rank_le inner
  have around := card_unvisited_le inner.context
  have left : (uncompiled outer.session).card * (placeBound + 2) + 1 ≤
      outer.rank := by
    rw [Visit.rank]
    split <;> omega
  rw [(Compilation.mem_visits member).1]
  have depth := start.depth
  omega

end Inside

/-! ## Depth is not what a render fails for -/

/-- A visit from which on the depth is as great as what is left. -/
def Visit.IsDeep (visit : Visit) : Prop :=
  visit.rank ≤ visit.depth

section Ends

variable {environment : Environment}

/-- No outcome is too deep when its parts are not. -/
theorem compositional_ends :
    Compositional (fun _ _ => True) fun _ _ outcome =>
      outcome.failure ≠ some .tooDeep where
  framing := framing_any
  done := fun _ same => absurd same.symm (Option.some_ne_none _)
  andThen := by
    intro site visits later first next front stopped back
    cases complete : first.failure with
    | some error =>
        rw [Outcome.andThen_of_failure complete]
        exact front
    | none =>
        rw [Outcome.andThen_of_complete complete]
        exact back complete
  between := by
    intro site visits before after inside _ within
    have opening : (Outcome.emit before site.session).failure = none := rfl
    rw [wrapped, Outcome.andThen_of_complete opening]
    unfold Outcome.andThen
    split
    · exact within
    · exact (Option.some_ne_none _).symm
  moved := fun _ _ ends => ends

/-- A page ends when the visits in it do. -/
theorem ends_renderEnvelope
    {depth : Nat}
    {context : Context}
    {document : Document}
    {session : Session}
    (parts : ∀ visit ∈ (Site.ofPage environment depth context
      session).paragraphs environment document,
      (visit.outcome environment).failure ≠ some .tooDeep) :
    (renderEnvelope environment (renderHashtag environment depth context)
      document session).failure ≠ some .tooDeep := by
  have within := compositional_ends.paragraphs
    (Site.ofPage environment depth context session) parts
  rw [renderEnvelope_eq, Outcome.andThen_of_complete
    (pageHead_complete environment session)]
  unfold Outcome.andThen
  split
  · exact within
  · exact (Option.some_ne_none _).symm

/-- The page of a compilation is not too deep when the visits in it are not. -/
theorem Compilation.ends
    {compilation : Compilation}
    (parts : ∀ visit ∈ compilation.visits environment,
      (visit.outcome environment).failure ≠ some .tooDeep) :
    (compilation.result environment).1 ≠ .error .tooDeep := by
  cases opens : compilation.opened? environment with
  | none =>
      obtain ⟨error, after, isOfFile, _, failed⟩ := result_of_unopened opens
      rw [failed compilation.depth]
      rintro ⟨⟩
      exact isOfFile
  | some found =>
      obtain ⟨opened, document⟩ := found
      rw [visits, opens] at parts
      have whole := ends_renderEnvelope parts
      rw [result_of_opened opens]
      dsimp only
      split
      next error failed =>
        rw [failed] at whole
        exact fun same => whole (congrArg some (Except.error.inj same))
      next =>
        intro same
        cases same

/-- Inside a deep visit, every visit is deep. -/
theorem Visit.IsDeep.inside
    {outer inner : Visit}
    (deep : outer.IsDeep)
    (member : inner ∈ outer.inside environment) :
    inner.IsDeep := by
  obtain ⟨written, started, runs, _⟩ := outer.course.found inner member
  have less := rank_of_mem_inside member runs.compiled_subset
  rw [Visit.IsDeep] at deep ⊢
  omega

/-- In a page that a deep visit starts, every visit is deep. -/
theorem Visit.IsDeep.linked
    {outer inner : Visit}
    {next : Compilation}
    (deep : outer.IsDeep)
    (starts : outer.starts? = some next)
    (member : inner ∈ next.visits environment) :
    inner.IsDeep := by
  have less := rank_of_mem_visits starts member
  rw [Visit.IsDeep] at deep ⊢
  omega

/-- Whatever occurs in deep visits is deep. -/
theorem Occurs.isDeep
    {visits : List Visit}
    {visit : Visit}
    (occurs : Occurs environment visits visit)
    (start : ∀ first ∈ visits, first.IsDeep) :
    visit.IsDeep := by
  induction occurs with
  | start member => exact start _ member
  | inside _ member inductionHypothesis =>
      exact inductionHypothesis.inside member
  | linked _ starts member inductionHypothesis =>
      exact inductionHypothesis.linked starts member

/-- A deep visit may bring in one document more. -/
theorem Visit.IsDeep.depth_pos
    {visit : Visit}
    (deep : visit.IsDeep) :
    0 < visit.depth :=
  Nat.lt_of_lt_of_le (rank_pos visit) deep

/-- From a deep visit on, depth is not what a render fails for. -/
theorem Visit.IsDeep.ends
    {visit : Visit}
    (deep : visit.IsDeep) :
    (visit.outcome environment).failure ≠ some .tooDeep := by
  induction visit using Visit.inductionBelow environment with
  | step visit inside lower =>
      -- Less is left inside a visit by as much as it is deeper, so all visits inside a
      -- deep one are deep too.
      by_cases contains : visit.Contains environment
      · exact compositional_ends.inside contains fun inner member =>
          inside inner member (deep.inside member)
      · have leaf := Visit.leaf contains
        generalize starts : visit.starts? = next at leaf
        generalize visit.outcome environment = outcome at leaf
        cases leaf with
        | fails error raises =>
            rintro ⟨⟩
            exact Nat.ne_of_gt deep.depth_pos raises.shallow
        | writes pieces => exact (Option.some_ne_none _).symm
        | writesTwice pieces later => exact (Option.some_ne_none _).symm
        | runs call pieces => exact (Option.some_ne_none _).symm
        | links next pieces =>
            have ends : (next.result environment).1 ≠ .error .tooDeep :=
              Compilation.ends fun inner member => lower inner (by
                rw [(Compilation.mem_visits member).1]
                exact depth_of_starts starts) (deep.linked starts member)
            generalize next.result environment = result at ends
            obtain ⟨answer, after⟩ := result
            cases answer with
            | error error =>
                exact fun same => ends (congrArg Except.error (Option.some.inj same))
            | ok path => exact (Option.some_ne_none _).symm

end Ends

/-! ## Renders of greater depth -/

/-- Outcomes that are the same unless the first one fails for its depth. -/
def SameUnlessTooDeep (left right : Outcome) : Prop :=
  left.failure ≠ some .tooDeep → right = left

/-- Outcomes that are the same unless the first is too deep stay so side by side. -/
theorem pairing_sameUnlessTooDeep : Pairing Eq SameUnlessTooDeep where
  done := fun same _ => by rw [same]
  emit := fun pieces same _ => by rw [same]
  andThen := by
    intro left right leftNext rightNext front back ends
    cases complete : left.failure with
    | some error =>
        rw [Outcome.andThen_of_failure complete] at ends ⊢
        obtain rfl := front ends
        exact Outcome.andThen_of_failure complete _
    | none =>
        have leftEnds : left.failure ≠ some .tooDeep := by
          rw [complete]
          exact (Option.some_ne_none _).symm
        obtain rfl := front leftEnds
        rw [Outcome.andThen_of_complete complete] at ends
        rw [Outcome.andThen_of_complete complete,
          Outcome.andThen_of_complete complete, back rfl complete complete ends]

/-- A visit of the same block, where documents may bring in one another more
deeply. -/
structure Visit.Deepens (visit deeper : Visit) : Prop where
  block : deeper.block = visit.block
  context : deeper.context = visit.context
  session : deeper.session = visit.session
  depth : visit.depth ≤ deeper.depth

section Deeper

variable {environment : Environment}

/-- The page that a link starts is the same at every depth, but for the depth. -/
theorem linked_deeper
    {depth other : Nat}
    {context : Context}
    {hashtag : Document.Hashtag}
    {session : Session} :
    linked? other context hashtag session =
      (linked? depth context hashtag session).map fun next =>
        { next with depth := other } := by
  unfold linked?
  split
  · split
    · split
      · rfl
      · split <;> rfl
    · rfl
  · rfl

/-- Pages come to the same when the visits in them do. -/
theorem renderEnvelope_deeper
    {depth other : Nat}
    {context : Context}
    {document : Document}
    {session : Session}
    (parts : Agreeing Eq SameUnlessTooDeep environment environment
      ((Site.ofPage environment depth context session).paragraphs environment
        document)
      ((Site.ofPage environment other context session).paragraphs environment
        document)) :
    SameUnlessTooDeep
      (renderEnvelope environment (renderHashtag environment depth context)
        document session)
      (renderEnvelope environment (renderHashtag environment other context)
        document session) :=
  pairing_sameUnlessTooDeep.envelope rfl rfl fun start =>
    pairing_sameUnlessTooDeep.paragraphs
      (Site.ofPage environment depth context session)
      (Site.ofPage environment other context session) start parts

/-- A page comes to the same at a greater depth when the visits in it do. -/
theorem Compilation.result_deeper
    {compilation : Compilation}
    {other : Nat}
    (parts : Agreeing Eq SameUnlessTooDeep environment environment
      (compilation.visits environment)
      (Compilation.visits environment { compilation with depth := other }))
    (ends : (compilation.result environment).1 ≠ .error .tooDeep) :
    Compilation.result environment { compilation with depth := other } =
      compilation.result environment := by
  have sameOpened :
      Compilation.opened? environment { compilation with depth := other } =
        compilation.opened? environment := by
    simp only [opened?]
  have sameContext : Compilation.context { compilation with depth := other } =
      compilation.context := rfl
  cases opens : compilation.opened? environment with
  | none =>
      obtain ⟨error, after, _, _, failed⟩ := result_of_unopened opens
      exact (failed other).trans (failed compilation.depth).symm
  | some found =>
      obtain ⟨opened, document⟩ := found
      rw [visits, visits, sameOpened, opens] at parts
      have same := renderEnvelope_deeper parts
      rw [result_of_opened opens] at ends ⊢
      rw [result_of_opened (sameOpened.trans opens)]
      have shown := same fun failed => ends (by
        dsimp only
        rw [failed])
      rw [sameContext]
      dsimp only at shown ⊢
      rw [shown]

/-- Inside visits of one block, the visits of one block are again such visits. -/
theorem Visit.Deepens.inside
    {visit deeper inner other : Visit}
    (deepens : visit.Deepens deeper)
    (noHashtag : ∀ hashtag, visit.block ≠ .hashtag hashtag)
    (member : inner ∈ visit.inside environment)
    (otherMember : other ∈ deeper.inside environment)
    (block : inner.block = other.block)
    (session : inner.session = other.session) :
    inner.Deepens other := by
  rcases Visit.document_cases member with
    ⟨depth, context, _⟩ | ⟨hashtag, _, isHashtag, _⟩
  · rcases Visit.document_cases otherMember with
      ⟨otherDepth, otherContext, _⟩ | ⟨hashtag, _, isHashtag, _⟩
    · refine ⟨block.symm, ?_, session.symm, ?_⟩
      · rw [context, otherContext, deepens.context]
      · rw [depth, otherDepth]
        exact deepens.depth
    · rw [deepens.block] at isHashtag
      exact absurd isHashtag (noHashtag hashtag)
  · exact absurd isHashtag (noHashtag hashtag)

/-- What comes of a block that is neither a container nor a hashtag is told from the
block and the session. -/
theorem Visit.outcome_leaf
    {left right : Visit}
    (block : left.block = right.block)
    (session : left.session = right.session)
    (leaf : ¬left.Contains environment)
    (noHashtag : ∀ hashtag, left.block ≠ .hashtag hashtag) :
    left.outcome environment = right.outcome environment := by
  obtain ⟨⟨depth, context, around, session⟩, block⟩ := left
  obtain ⟨⟨_, _, _, _⟩, _⟩ := right
  cases block
  cases session
  unfold Visit.outcome
  cases block with
  | hashtag hashtag => exact absurd rfl (noHashtag hashtag)
  | heading level children =>
      have invalid : ¬(1 ≤ level ∧ level ≤ 6) := leaf
      rw [renderBlock, renderBlock, if_neg invalid, if_neg invalid]
  | styled _ _ | orderedItem _ _ | unorderedItem _ | table _ =>
      exact (leaf trivial).elim
  | _ => rw [renderBlock, renderBlock]

/-- A link that starts a compilation comes to the same when the compilation does. -/
theorem renderHashtag_deeper
    {depth other : Nat}
    {context : Context}
    {hashtag : Document.Hashtag}
    {session : Session}
    {next : Compilation}
    (links : linked? depth context hashtag session = some next)
    (same : (next.result environment).1 ≠ .error .tooDeep →
      Compilation.result environment { next with depth := other } =
        next.result environment) :
    SameUnlessTooDeep
      (renderHashtag environment (depth + 1) context hashtag session)
      (renderHashtag environment (other + 1) context hashtag session) := by
  have deeper : linked? other context hashtag session =
      some { next with depth := other } := by
    rw [linked_deeper, links]
    rfl
  obtain ⟨target, title, directive, _, _, writes⟩ :=
    @renderHashtag_of_linked environment _ _ _ _ _ links
  obtain ⟨_, _, otherDirective, _, _, otherWrites⟩ :=
    @renderHashtag_of_linked environment _ _ _ _ _ deeper
  rw [directive] at otherDirective
  cases otherDirective
  intro ends
  rw [writes] at ends ⊢
  rw [otherWrites, same]
  intro tooDeep
  generalize next.result environment = result at ends tooDeep
  obtain ⟨answer, after⟩ := result
  obtain rfl : answer = .error .tooDeep := tooDeep
  exact ends rfl

/-- Inside a hashtag that brings in a document are the visits in that document, one less
deep. -/
theorem Visit.inside_hashtag
    {visit : Visit}
    {hashtag : Document.Hashtag}
    (block : visit.block = .hashtag hashtag)
    {depth : Nat}
    (deep : visit.depth = depth + 1)
    {inner : Context}
    {document : Document}
    (brought : transcluded? environment visit.context hashtag visit.session =
      some (inner, document)) :
    visit.inside environment =
      (Site.mk depth inner visit.around visit.session).paragraphs environment
        document := by
  obtain ⟨site, _⟩ := visit
  obtain rfl := block
  exact Visit.inside_transcluded deep brought

/-- A hashtag comes to the same at a greater depth when what it brings in and the page
that it starts do. -/
theorem Visit.hashtag_deeper
    {visit deeper : Visit}
    (deepens : visit.Deepens deeper)
    {hashtag : Document.Hashtag}
    (block : visit.block = .hashtag hashtag)
    (inside : ∀ inner ∈ visit.inside environment, ∀ other : Visit,
      inner.Deepens other →
      SameUnlessTooDeep (inner.outcome environment) (other.outcome environment))
    (lower : ∀ inner : Visit, inner.depth < visit.depth → ∀ other : Visit,
      inner.Deepens other →
      SameUnlessTooDeep (inner.outcome environment)
        (other.outcome environment)) :
    SameUnlessTooDeep (visit.outcome environment)
      (deeper.outcome environment) := by
  rw [Visit.outcome_hashtag block,
    Visit.outcome_hashtag (deepens.block.trans block), deepens.context,
    deepens.session]
  have deep := deepens.depth
  cases depth : visit.depth with
  -- A hashtag of no depth fails for it, and then nothing is asked of the deeper one.
  | zero =>
      rw [renderHashtag]
      exact fun ends => absurd rfl ends
  | succ below =>
      obtain ⟨other, otherDepth⟩ : ∃ other, deeper.depth = other + 1 :=
        ⟨deeper.depth - 1, by omega⟩
      have deep : below ≤ other := by omega
      rw [otherDepth]
      cases brought : transcluded? environment visit.context hashtag
          visit.session with
      | some found =>
          obtain ⟨inner, document⟩ := found
          rw [renderHashtag_of_transcluded brought,
            renderHashtag_of_transcluded brought]
          refine pairing_sameUnlessTooDeep.paragraphs
            ⟨below, inner, visit.around, visit.session⟩
            ⟨other, inner, visit.around, visit.session⟩ rfl ?_
          intro left leftMember right rightMember same session
          refine inside left ?_ right ⟨same.symm, ?_, session.symm, ?_⟩
          · rwa [Visit.inside_hashtag block depth brought]
          all_goals
            obtain ⟨_, _, _, _, _, rfl⟩ := Site.mem_paragraphs leftMember
            obtain ⟨_, _, _, _, _, rfl⟩ := Site.mem_paragraphs rightMember
          · rfl
          · exact deep
      | none =>
          cases links : linked? below visit.context hashtag visit.session with
          | none =>
              have stillNone : linked? other visit.context hashtag visit.session =
                  none := by
                rw [linked_deeper, links]
                rfl
              rw [renderHashtag_eq_ownOutcome brought links,
                renderHashtag_eq_ownOutcome brought stillNone]
              exact fun _ => rfl
          | some next =>
              refine renderHashtag_deeper links (Compilation.result_deeper ?_)
              intro left leftMember right rightMember same session
              obtain ⟨leftDepth, leftContext⟩ :=
                Compilation.mem_visits leftMember
              obtain ⟨rightDepth, rightContext⟩ :=
                Compilation.mem_visits rightMember
              obtain ⟨_, _, _, _, _, _, _, rfl⟩ := link_of_linked links
              refine lower left ?_ right ⟨same.symm, ?_, session.symm, ?_⟩
              · rw [leftDepth, depth]
                exact Nat.lt_succ_self below
              · rw [leftContext, rightContext]
                rfl
              · rw [leftDepth, rightDepth]
                exact deep

/-- A visit that does not fail for its depth comes to the same where documents may
bring in one another more deeply. -/
theorem Visit.outcome_deeper
    {visit deeper : Visit}
    (deepens : visit.Deepens deeper) :
    SameUnlessTooDeep (visit.outcome environment)
      (deeper.outcome environment) := by
  induction visit using Visit.inductionBelow environment generalizing deeper with
  | step visit inside lower =>
      by_cases isHashtag : ∃ hashtag, visit.block = .hashtag hashtag
      · obtain ⟨hashtag, isHashtag⟩ := isHashtag
        exact Visit.hashtag_deeper deepens isHashtag
          (fun inner member _ => inside inner member)
          (fun inner below _ => lower inner below)
      · have noHashtag := not_exists.mp isHashtag
        by_cases contains : visit.Contains environment
        · exact pairing_sameUnlessTooDeep.inside deepens.block.symm
            deepens.session.symm contains noHashtag
            fun inner member other otherMember block session =>
              inside inner member
                (deepens.inside noHashtag member otherMember block session)
        · exact fun _ => (Visit.outcome_leaf deepens.block.symm
            deepens.session.symm contains noHashtag).symm

end Deeper

/-! ## Every render ends -/

section Documents

variable {environment : Environment}

/-- What is left of a visit is at most the depth that a render starts with. -/
theorem rank_le_depthBound (visit : Visit) (disk : Disk) :
    visit.rank ≤ depthBound disk := by
  have rank := rank_le visit
  have pages := Nat.mul_le_mul_right (placeBound + 2)
    (card_uncompiled_le visit.session)
  have around := card_unvisited_le visit.context
  rw [depthBound, Nat.add_mul, Nat.one_mul]
  omega

/-- The visits in a document that is rendered deep enough are deep. -/
theorem isDeep_of_mem_paragraphs
    {site : Site}
    {document : Document}
    {visit : Visit}
    (member : visit ∈ site.paragraphs environment document)
    (disk : Disk)
    (deep : depthBound disk ≤ site.depth) :
    visit.IsDeep := by
  have rank := rank_le_depthBound visit disk
  obtain ⟨_, _, _, _, _, rfl⟩ := Site.mem_paragraphs member
  exact Nat.le_trans rank deep

/-- The visits in a page that is rendered deep enough are deep. -/
theorem isDeep_of_mem_visits
    {compilation : Compilation}
    {visit : Visit}
    (member : visit ∈ compilation.visits environment)
    (disk : Disk)
    (deep : depthBound disk ≤ compilation.depth) :
    visit.IsDeep := by
  rw [Visit.IsDeep, (Compilation.mem_visits member).1]
  exact Nat.le_trans (rank_le_depthBound visit disk) deep

/-- Visits in a document that is rendered twice agree unless the first is too deep. -/
theorem sameUnlessTooDeep_visits
    (left right : Site)
    (context : left.context = right.context)
    (depth : left.depth ≤ right.depth)
    {document : Document} :
    Agreeing Eq SameUnlessTooDeep environment environment
      (left.paragraphs environment document)
      (right.paragraphs environment document) := by
  intro inner member other otherMember block session
  refine Visit.outcome_deeper ⟨block.symm, ?_, session.symm, ?_⟩
  all_goals
    obtain ⟨_, _, _, _, _, rfl⟩ := Site.mem_paragraphs member
    obtain ⟨_, _, _, _, _, rfl⟩ := Site.mem_paragraphs otherMember
  · exact context.symm
  · exact depth

/-- Visits in a page that is rendered twice agree unless the first is too deep. -/
theorem sameUnlessTooDeep_compilations
    {compilation : Compilation}
    {other : Nat}
    (deep : compilation.depth ≤ other) :
    Agreeing Eq SameUnlessTooDeep environment environment
      (compilation.visits environment)
      (Compilation.visits environment { compilation with depth := other }) := by
  intro left member right rightMember block session
  obtain ⟨leftDepth, leftContext⟩ := Compilation.mem_visits member
  obtain ⟨rightDepth, rightContext⟩ := Compilation.mem_visits rightMember
  refine Visit.outcome_deeper ⟨block.symm, ?_, session.symm, ?_⟩
  · rw [leftContext, rightContext]
    rfl
  · rw [leftDepth, rightDepth]
    exact deep

end Documents

/-- Every render from a session ends: it does not fail for its depth, and at a greater
depth it comes to the same. -/
structure Terminates
    (environment : Environment)
    (session : Session) : Prop where
  document : ∀ context document,
    (renderDocument environment context document session).failure ≠
        some .tooDeep ∧
      ∀ depth, depthBound session.disk ≤ depth →
        renderParagraphs environment (renderHashtag environment depth context)
            document session =
          renderDocument environment context document session
  page : ∀ context document,
    (renderPage environment context document session).failure ≠
        some .tooDeep ∧
      ∀ depth, depthBound session.disk ≤ depth →
        renderEnvelope environment (renderHashtag environment depth context)
            document session =
          renderPage environment context document session
  file : ∀ path,
    (compileFile environment path session).1 ≠ .error .tooDeep ∧
      ∀ source, locateSource session.disk path = .ok source →
        ∀ depth, depthBound session.disk ≤ depth →
          compileAt environment (renderHashtag environment depth) source
              session =
            compileFile environment path session

/-- Every render ends, whatever documents bring in one another, whatever is on the disk
and whatever the programs that run do to it. -/
theorem transclusion_terminates
    (environment : Environment)
    (session : Session) :
    Terminates environment session := by
  refine ⟨fun context document => ?_, fun context document => ?_,
    fun path => ?_⟩
  · have ends : (renderDocument environment context document session).failure ≠
        some .tooDeep :=
      compositional_ends.paragraphs (Site.ofDocument context session)
        fun visit member =>
          (isDeep_of_mem_paragraphs member session.disk (Nat.le_refl _)).ends
    exact ⟨ends, fun depth deep => pairing_sameUnlessTooDeep.paragraphs
      (Site.ofDocument context session) ⟨depth, context, [], session⟩ rfl
      (sameUnlessTooDeep_visits (Site.ofDocument context session)
        ⟨depth, context, [], session⟩ rfl deep) ends⟩
  · have ends : (renderPage environment context document session).failure ≠
        some .tooDeep :=
      ends_renderEnvelope fun visit member =>
        (isDeep_of_mem_paragraphs member session.disk (Nat.le_refl _)).ends
    exact ⟨ends, fun depth deep =>
      renderEnvelope_deeper (sameUnlessTooDeep_visits
        (Site.ofPage environment (depthBound session.disk) context session)
        (Site.ofPage environment depth context session) rfl deep) ends⟩
  · rw [compileFile]
    cases located : locateSource session.disk path with
    | error error =>
        refine ⟨?_, fun source found => ?_⟩
        · exact fun same =>
            locateSource_ne_tooDeep located (Except.error.inj same)
        · cases found
    | ok source =>
        have ends : (Compilation.result environment
            ⟨depthBound session.disk, source, session⟩).1 ≠ .error .tooDeep :=
          Compilation.ends fun visit member =>
            (isDeep_of_mem_visits member session.disk (Nat.le_refl _)).ends
        refine ⟨ends, fun found same depth deep => ?_⟩
        obtain rfl := Except.ok.inj same
        have deeper := Compilation.result_deeper
          (sameUnlessTooDeep_compilations deep) ends
        exact deeper

end Page
end NotePress
