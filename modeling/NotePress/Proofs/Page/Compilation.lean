import NotePress.Proofs.Page.Progress

/-!
# Compilations

A compilation makes the page of one source document. The links in it start further
compilations, so a run is a tree of them. Each is a part of the one that it is
started in, and nothing else is begun in the run: a run that completes has made the
page of every document that counts as compiled.
-/

namespace NotePress
namespace Page

namespace Compilation

variable
  {environment : Environment}
  {compilation : Compilation}

/-- A compilation fails before the file of its page is open, or it writes the
envelope of its document into that file. -/
theorem opened_cases :
    (compilation.opened? environment = none ∧
      ∃ error after, compilation.result environment = (.error error, after) ∧
        ∀ begins : Location → Prop, begins compilation.source →
          Advances environment begins compilation.session after) ∨
    ∃ opened document,
      compilation.opened? environment = some (opened, document) ∧
      (∀ begins : Location → Prop, begins compilation.source →
        Advances environment begins compilation.session opened) ∧
      compilation.result environment =
        let outcome := renderEnvelope environment
          (renderHashtag environment compilation.depth compilation.context)
          document opened
        (match outcome.failure with
          | some error => .error error
          | none => .ok (Location.path compilation.source).page,
          { outcome.session.flush with page := compilation.session.page }) := by
  have begun : ∀ begins : Location → Prop, begins compilation.source →
      Advances environment begins compilation.session
        (compilation.session.begin compilation.source) :=
    fun _ allowed => .single (.begin _ allowed)
  unfold result compileAt opened?
  unfold Session.begin at begun ⊢
  dsimp only at begun ⊢
  cases loadSource compilation.session.disk compilation.source with
  | error error => exact .inl ⟨rfl, error, _, rfl, begun⟩
  | ok document =>
      dsimp only
      generalize styles : withStylesheet environment
        (directoryOf compilation.source) _ = styled
      have styled_begun : ∀ begins : Location → Prop,
          begins compilation.source →
          Advances environment begins compilation.session styled := by
        intro begins allowed
        rw [← styles]
        exact (begun begins allowed).tail (.style _ _)
      cases creates :
          styled.disk.createFile (Location.path compilation.source).page with
      | error failure => exact .inl ⟨rfl, _, styled, rfl, styled_begun⟩
      | ok created =>
          obtain ⟨file, disk⟩ := created
          refine .inr ⟨_, document, rfl, fun begins allowed =>
            (styled_begun begins allowed).tail (.create creates), ?_⟩
          dsimp only [context]
          generalize renderEnvelope environment _ document _ = outcome
          cases outcome.failure with
          | none => rfl
          | some error => rfl

/-- Where the visits in a page are. -/
theorem mem_visits
    {visit : Visit}
    (member : visit ∈ compilation.visits environment) :
    visit.depth = compilation.depth ∧ visit.context = compilation.context := by
  rw [visits] at member
  cases opens : compilation.opened? environment with
  | none =>
      rw [opens] at member
      cases member
  | some found =>
      obtain ⟨opened, document⟩ := found
      rw [opens] at member
      obtain ⟨paragraph, _, block, _, session, rfl⟩ :=
        Site.mem_paragraphs member
      exact ⟨rfl, rfl⟩

/-- A compilation is composed of the visits in its page. -/
theorem composed
    {begins : Location → Prop}
    (allowed : begins compilation.source)
    (advances : ∀ visit ∈ compilation.visits environment,
      visit.Advances environment begins) :
    Composed environment begins (fun _ => False)
      (compilation.visits environment) (compilation.stretch environment) := by
  rcases opened_cases with
    ⟨opens, error, after, failed, begun⟩ |
    ⟨opened, document, opens, begun, answers⟩
  · rw [visits, stretch, failed, html, opens]
    exact .alone (begun begins allowed) fun _ => List.not_mem_nil
  · rw [visits, opens] at advances
    rw [visits, opens, stretch, answers, html, opens]
    refine (composed_renderEnvelope compilation.depth compilation.context
      document opened advances).around
      ⟨begun begins allowed, .single (.close _ _), ?_⟩ fun _ => id
    dsimp only
    intro complete
    split at complete
    next => cases complete
    next answered =>
      split at answered
      next => cases answered
      next finished => exact finished

/-- A compilation that completes answers the path of the page. -/
theorem answer_of_complete
    (complete : (compilation.stretch environment).failure = none) :
    (compilation.result environment).1 =
      .ok (Location.path compilation.source).page := by
  rcases opened_cases with
    ⟨opens, error, after, failed, begun⟩ |
    ⟨opened, document, opens, begun, answers⟩
  · rw [stretch, failed] at complete
    cases complete
  · rw [stretch, answers] at complete
    rw [answers]
    dsimp only at complete ⊢
    split at complete
    next => cases complete
    next answered =>
      split at answered
      next => cases answered
      next => rfl

end Compilation

/-! ## The compilations of a run -/

/-- The compilations of a run that starts with one. -/
inductive Opened
    (environment : Environment)
    (first : Compilation) : Compilation → Prop
  | start : Opened environment first first
  | link
      {page next : Compilation}
      {visit : Visit}
      (opened : Opened environment first page)
      (reached : Reached environment (page.visits environment) visit)
      (starts : visit.starts? = some next) :
      Opened environment first next

/-- A document whose compilation is one of a run. -/
def Begun
    (environment : Environment)
    (first : Compilation)
    (source : Location) : Prop :=
  ∃ page, Opened environment first page ∧ page.source = source

section Runs

variable
  {environment : Environment}
  {first page next : Compilation}
  {visit : Visit}

theorem depth_of_starts
    (starts : visit.starts? = some next) :
    next.depth < visit.depth := by
  obtain ⟨⟨depth, context, around, session⟩, block⟩ := visit
  unfold Visit.starts? at starts
  split at starts
  next hashtag below _ depthEqual =>
    cases depthEqual
    obtain ⟨_, _, _, _, _, _, _, rfl⟩ := link_of_linked starts
    exact Nat.lt_succ_self below
  next => cases starts

theorem located_of_starts
    (starts : visit.starts? = some next) :
    ∃ path, locateSource visit.session.disk path = .ok next.source := by
  unfold Visit.starts? at starts
  split at starts
  next =>
    obtain ⟨_, _, _, _, _, located, _, rfl⟩ := link_of_linked starts
    exact ⟨_, located⟩
  next => cases starts

/-- In a run only the documents of its compilations are begun. -/
theorem Opened.advances
    (opened : Opened environment first page)
    (reached : Reached environment (page.visits environment) visit) :
    visit.Advances environment (Begun environment first) := by
  induction visit using Visit.inductionBelow environment
    generalizing page with
  | step visit inside lower =>
      refine (composed_inside visit ?_ ?_).advances
      · intro inner member
        exact inside inner member opened (.inside reached member)
      · intro next starts
        have later : Opened environment first next :=
          .link opened reached starts
        refine (Compilation.composed ⟨next, later, rfl⟩ ?_).advances
        intro found member
        refine lower found ?_ later (.start member)
        rw [(Compilation.mem_visits member).1]
        exact depth_of_starts starts

theorem Opened.composed_page (opened : Opened environment first page) :
    Composed environment (Begun environment first) (fun _ => False)
      (page.visits environment) (page.stretch environment) :=
  Compilation.composed ⟨page, opened, rfl⟩ fun _ member =>
    opened.advances (.start member)

theorem Opened.composed_visit
    (opened : Opened environment first page)
    (reached : Reached environment (page.visits environment) visit) :
    Composed environment (Begun environment first) visit.Links
      (visit.inside environment) (visit.stretch environment) := by
  refine composed_inside visit
    (fun inner member => opened.advances (.inside reached member)) ?_
  intro next starts
  have later : Opened environment first next := .link opened reached starts
  exact later.composed_page.advances

/-- The visits in a page are parts of its compilation. -/
theorem Opened.partOf_visit
    (opened : Opened environment first page)
    (reached : Reached environment (page.visits environment) visit) :
    PartOf environment (Begun environment first) (visit.stretch environment)
      (page.stretch environment) := by
  induction reached with
  | start member => exact opened.composed_page.parts _ member
  | inside reached member inductionHypothesis =>
      exact ((opened.composed_visit reached).parts _ member).trans
        inductionHypothesis

/-- The anchors in a page are those of the links that visits in it take up. -/
theorem Opened.links
    (opened : Opened environment first page)
    {attributes : List Html.Attribute}
    (member : .opening .anchor attributes ∈ page.html environment) :
    ∃ visit, Reached environment (page.visits environment) visit ∧
      visit.Links attributes := by
  have inVisit : ∀ visit : Visit,
      Reached environment (page.visits environment) visit →
      .opening .anchor attributes ∈ (visit.stretch environment).html →
      ∃ visit, Reached environment (page.visits environment) visit ∧
        visit.Links attributes := by
    intro visit
    induction visit using Visit.induction environment with
    | step visit inductionHypothesis =>
        intro reached written
        rcases (opened.composed_visit reached).anchors attributes written with
          own | ⟨inner, inside, later⟩
        · exact ⟨visit, reached, own⟩
        · exact inductionHypothesis inner inside (.inside reached inside) later
  rcases opened.composed_page.anchors attributes member with
    none | ⟨visit, among, written⟩
  · exact none.elim
  · exact inVisit visit (.start among) written

/-- The compilations of a run are parts of the first. -/
theorem Opened.partOf
    (opened : Opened environment first page) :
    PartOf environment (Begun environment first) (page.stretch environment)
      (first.stretch environment) := by
  induction opened with
  | start => exact PartOf.refl _
  | link opened reached starts inductionHypothesis =>
      exact (partOf_starts starts).trans
        ((opened.partOf_visit reached).trans inductionHypothesis)

end Runs

end Page
end NotePress
