import NotePress.Proofs.Page.Course

/-!
# The code that a run comes to

A run meets its visits in order: first a visit itself, then what is met in the page of a
document that it links to, then what is met inside it. The code that is run is that of
the code blocks with a command that are met, each once, in this order.
-/

namespace NotePress
namespace Page

open Html (Piece)
open Document (Block)

/-- The call of a visit that takes up a code block with a command. -/
def Visit.call? (visit : Visit) : Option CodeCall :=
  match visit.block with
  | .codeBlock block =>
      if block.command.isEmpty then none else some ⟨block.command, block.code⟩
  | _ => none

/-- The visits that are met from a visit on, in order. Those in the page of a document
that it links to are among them if links are followed. -/
def Visit.met
    (environment : Environment)
    (follows : Bool)
    (visit : Visit) : List Visit :=
  visit ::
    ((match _ : visit.starts? with
      | none => []
      | some next =>
          if follows then
            (next.visits environment).attach.flatMap
              fun found => found.1.met environment follows
          else
            []) ++
      (visit.inside environment).attach.flatMap
        fun inner => inner.1.met environment follows)
termination_by (visit.depth, sizeOf visit.block)
decreasing_by
  · next starts =>
      rw [(Compilation.mem_visits found.2).1]
      exact Prod.Lex.left _ _ (depth_of_starts starts)
  · rcases (Visit.mem_inside inner.2).decreases with deeper | ⟨equal, smaller⟩
    · exact Prod.Lex.left _ _ deeper
    · rw [equal]
      exact Prod.Lex.right _ smaller

/-- The calls of the code blocks that are met, in order. -/
def callsMet
    (environment : Environment)
    (follows : Bool)
    (visits : List Visit) : List CodeCall :=
  (visits.flatMap (Visit.met environment follows)).filterMap Visit.call?

section Met

variable
  {environment : Environment}
  {follows : Bool}
  {visit found : Visit}

/-- What is met from a visit on is the visit, the visits in the page that it starts, and
those inside it. -/
theorem Visit.met_eq
    (environment : Environment)
    (follows : Bool)
    (visit : Visit) :
    visit.met environment follows =
      visit ::
        ((match visit.starts? with
          | none => []
          | some next =>
              if follows then
                (next.visits environment).flatMap (Visit.met environment follows)
              else
                []) ++
          (visit.inside environment).flatMap (Visit.met environment follows)) := by
  rw [Visit.met]
  congr 2
  · cases visit.starts? with
    | none => rfl
    | some next => simp
  · simp

/-- A visit is met where it is the one begun with, or is met in the page that this one
starts, or inside it. -/
theorem Visit.mem_met_iff :
    found ∈ visit.met environment follows ↔
      found = visit ∨
      (∃ next, visit.starts? = some next ∧ follows = true ∧
        ∃ first ∈ next.visits environment, found ∈ first.met environment follows) ∨
      ∃ inner ∈ visit.inside environment,
        found ∈ inner.met environment follows := by
  rw [Visit.met_eq, List.mem_cons, List.mem_append, List.mem_flatMap]
  refine or_congr_right (or_congr_left ?_)
  cases visit.starts? with
  | none => simp
  | some next => cases follows <;> simp

/-- What is met from a visit that is met is met. -/
theorem Visit.met_subset
    (member : found ∈ visit.met environment follows) :
    found.met environment follows ⊆ visit.met environment follows := by
  induction visit using Visit.inductionBelow environment with
  | step visit inside lower =>
      rcases Visit.mem_met_iff.mp member with
        rfl | ⟨next, starts, followed, first, among, later⟩ | ⟨inner, among, later⟩
      · exact List.Subset.refl _
      · have below : first.depth < visit.depth := by
          rw [(Compilation.mem_visits among).1]
          exact depth_of_starts starts
        exact fun other met => Visit.mem_met_iff.mpr (.inr (.inl
          ⟨next, starts, followed, first, among, lower first below later met⟩))
      · exact fun other met => Visit.mem_met_iff.mpr (.inr (.inr
          ⟨inner, among, inside inner among later met⟩))

theorem Visit.self_mem_met : visit ∈ visit.met environment follows :=
  Visit.mem_met_iff.mpr (.inl rfl)

/-- The visits that are met when links are followed are those that occur. -/
theorem mem_met_iff_occurs {visits : List Visit} :
    found ∈ visits.flatMap (Visit.met environment true) ↔
      Occurs environment visits found := by
  constructor
  · intro member
    obtain ⟨visit, among, met⟩ := List.mem_flatMap.mp member
    have start : Occurs environment visits visit := .start among
    clear among member
    induction visit using Visit.inductionBelow environment with
    | step visit inside lower =>
        rcases Visit.mem_met_iff.mp met with
          rfl | ⟨next, starts, _, first, among, later⟩ | ⟨inner, among, later⟩
        · exact start
        · have below : first.depth < visit.depth := by
            rw [(Compilation.mem_visits among).1]
            exact depth_of_starts starts
          exact lower first below later (.linked start starts among)
        · exact inside inner among later (.inside start among)
  · intro occurs
    -- What a visit that is met comes to at once is met from it, so it is met.
    have further : ∀ {outer inner : Visit},
        outer ∈ visits.flatMap (Visit.met environment true) →
        inner ∈ outer.met environment true →
        inner ∈ visits.flatMap (Visit.met environment true) := by
      intro outer inner member met
      obtain ⟨visit, among, later⟩ := List.mem_flatMap.mp member
      exact List.mem_flatMap.mpr ⟨visit, among, Visit.met_subset later met⟩
    induction occurs with
    | start member =>
        exact List.mem_flatMap.mpr ⟨_, member, Visit.self_mem_met⟩
    | inside _ member inductionHypothesis =>
        exact further inductionHypothesis (Visit.mem_met_iff.mpr
          (.inr (.inr ⟨_, member, Visit.self_mem_met⟩)))
    | linked _ starts member inductionHypothesis =>
        exact further inductionHypothesis (Visit.mem_met_iff.mpr
          (.inr (.inl ⟨_, starts, rfl, _, member, Visit.self_mem_met⟩)))

/-- The calls of visits side by side follow one another. -/
theorem callsMet_append (front back : List Visit) :
    callsMet environment follows (front ++ back) =
      callsMet environment follows front ++ callsMet environment follows back := by
  rw [callsMet, List.flatMap_append, List.filterMap_append]
  rfl

/-- The calls from one visit on are its own, those in the page that it starts, and those
inside it. -/
theorem callsMet_singleton :
    callsMet environment follows [visit] =
      visit.call?.toList ++
        ((match visit.starts? with
          | none => []
          | some next =>
              if follows then
                callsMet environment follows (next.visits environment)
              else
                []) ++
          callsMet environment follows (visit.inside environment)) := by
  rw [callsMet, List.flatMap_singleton, Visit.met_eq, List.filterMap_cons,
    List.filterMap_append]
  cases visit.starts? with
  | none => cases visit.call? <;> rfl
  | some next => cases follows <;> cases visit.call? <;> rfl

/-- A container runs no code itself. -/
theorem call_of_contains
    (contains : visit.Contains environment) :
    visit.call? = none := by
  obtain ⟨site, block⟩ := visit
  cases block with
  | codeBlock block => exact contains.elim
  | _ => rfl

/-- The calls of a container are those inside it. -/
theorem callsMet_of_contains
    (contains : visit.Contains environment) :
    callsMet environment follows [visit] =
      callsMet environment follows (visit.inside environment) := by
  rw [callsMet_singleton, call_of_contains contains, starts_of_contains contains]
  rfl

end Met

/-! ## The calls of a run -/

theorem calls_writeUnits (session : Session) (units : List String) :
    (session.writeUnits units).calls = session.calls := by
  rw [Session.writeUnits]
  split <;> rfl

theorem Session.calls_flush (session : Session) :
    session.flush.calls = session.calls := by
  rw [flush]
  split <;> rfl

theorem calls_emit (pieces : List Piece) (session : Session) :
    (Outcome.emit pieces session).session.calls = session.calls :=
  calls_writeUnits _ _

theorem calls_followed (first : Outcome) (pieces : List Piece) :
    (first.andThen (.emit pieces)).session.calls = first.session.calls := by
  cases complete : first.failure with
  | some error => rw [Outcome.andThen_of_failure complete]
  | none =>
      rw [Outcome.andThen_of_complete complete]
      exact calls_emit _ _

section Runs

variable {environment : Environment}

/-- The calls of a whole are those of its parts, in order. -/
theorem compositional_calls :
    Compositional (fun _ _ => True) fun site visits outcome =>
      outcome.session.calls =
        site.session.calls ++ callsMet environment true visits where
  framing := framing_any
  done := fun site => (List.append_nil _).symm
  andThen := by
    intro site visits later first next front stopped back
    cases complete : first.failure with
    | some error =>
        rw [stopped error complete, List.append_nil,
          Outcome.andThen_of_failure complete]
        exact front
    | none =>
        rw [Outcome.andThen_of_complete complete]
        dsimp only
        rw [back complete, front, callsMet_append, List.append_assoc]
  between := by
    intro site visits before after inside _ within
    have opening : (Outcome.emit before site.session).failure = none := rfl
    rw [wrapped, calls_followed, Outcome.andThen_of_complete opening]
    dsimp only
    refine within.trans (congrArg (· ++ _) ?_)
    exact calls_emit before site.session
  moved := fun _ _ same => same

/-- A code block with a command runs its code once. -/
theorem calls_renderCode
    (block : Document.CodeBlock)
    (session : Session) :
    (renderCode environment block session).session.calls =
      session.calls ++
        if block.command.isEmpty then [] else [⟨block.command, block.code⟩] := by
  rw [renderCode]
  split
  · rw [calls_emit, List.append_nil]
  · have ran : (runCode environment ⟨block.command, block.code⟩ session).2.calls =
        session.calls ++ [⟨block.command, block.code⟩] := rfl
    rw [← ran]
    split
    next same =>
      rw [same]
      split
      · exact calls_emit _ _
      · exact calls_emit _ _
    next same =>
      rw [same]
      exact calls_emit _ _

/-- A visit that takes up no container and starts no compilation runs at most its own
code. -/
theorem Visit.calls_alone
    {visit : Visit}
    (leaf : ¬visit.Contains environment)
    (alone : visit.starts? = none) :
    (visit.outcome environment).session.calls =
      visit.session.calls ++ visit.call?.toList := by
  obtain ⟨⟨depth, context, around, session⟩, block⟩ := visit
  have unfolded : (Visit.mk ⟨depth, context, around, session⟩ block).outcome
      environment =
    renderBlock environment (renderHashtag environment depth context) block
      session := rfl
  rw [unfolded]
  cases block with
  | codeBlock code =>
      rw [renderBlock, calls_renderCode, call?]
      dsimp only
      split <;> rfl
  | heading level children =>
      have invalid : ¬(1 ≤ level ∧ level ≤ 6) := leaf
      rw [renderBlock, if_neg invalid]
      exact (List.append_nil _).symm
  | hashtag hashtag =>
      rw [renderBlock]
      refine Eq.trans ?_ (List.append_nil _).symm
      cases depth with
      | zero =>
          rw [renderHashtag]
          rfl
      | succ below =>
          have unbrought := (Classical.not_not.mp leaf).resolve_left
            (Nat.succ_ne_zero below)
          rcases renderHashtag_of_alone unbrought alone with
            ⟨error, _, fails⟩ | ⟨directive, _, writes⟩
          · rw [fails]
            rfl
          · rw [writes]
            exact calls_emit _ _
  | quotation quotation =>
      rw [renderBlock, renderQuotation]
      refine Eq.trans ?_ (List.append_nil _).symm
      split
      · exact calls_emit _ _
      · exact (calls_followed _ _).trans (calls_emit _ _)
  | text _ | literal _ | textbox | mention _ | checkbox _ =>
      rw [renderBlock]
      exact (calls_emit _ _).trans (List.append_nil _).symm
  | styled _ _ | orderedItem _ _ | unorderedItem _ | table _ =>
      exact (leaf trivial).elim

/-- The head of a page runs no code. -/
theorem calls_pageHead (session : Session) :
    (pageHead environment session).session.calls = session.calls := by
  have sheets : ∀ hrefs session,
      (renderStylesheets hrefs session).session.calls = session.calls := by
    intro hrefs
    induction hrefs with
    | nil => exact fun _ => rfl
    | cons first others inductionHypothesis =>
        exact fun session => (inductionHypothesis _).trans (calls_emit _ _)
  have opening : ∀ pieces, (Outcome.emit pieces session).failure = none :=
    fun _ => rfl
  rw [pageHead, calls_followed, Outcome.andThen_of_complete (opening _)]
  exact (sheets _ _).trans (calls_emit _ _)

/-- A page runs the code that is met in it. -/
theorem calls_renderEnvelope
    {depth : Nat}
    {context : Context}
    {document : Document}
    {session : Session}
    (parts : ∀ visit ∈ (Site.ofPage environment depth context session).paragraphs
      environment document,
      (visit.outcome environment).session.calls =
        visit.session.calls ++ callsMet environment true [visit]) :
    (renderEnvelope environment (renderHashtag environment depth context) document
        session).session.calls =
      session.calls ++ callsMet environment true
        ((Site.ofPage environment depth context session).paragraphs environment
          document) := by
  have within := compositional_calls.paragraphs
    (Site.ofPage environment depth context session) parts
  rw [renderEnvelope_eq, calls_followed,
    Outcome.andThen_of_complete (pageHead_complete environment session),
    ← @calls_pageHead environment session]
  exact within

/-- A compilation runs the code that is met in its page. -/
theorem Compilation.calls_result
    {compilation : Compilation}
    (parts : ∀ visit ∈ compilation.visits environment,
      (visit.outcome environment).session.calls =
        visit.session.calls ++ callsMet environment true [visit]) :
    (compilation.result environment).2.calls =
      compilation.session.calls ++
        callsMet environment true (compilation.visits environment) := by
  have styled : (compilation.styled environment).calls =
      compilation.session.calls := by
    rw [Compilation.styled, withStylesheet]
    split <;> rfl
  cases opens : compilation.opened? environment with
  | none =>
      obtain ⟨error, after, _, cases, results⟩ := result_of_unopened opens
      have same : (compilation.result environment).2 = after :=
        congrArg Prod.snd (results compilation.depth)
      rw [same, visits, opens]
      refine Eq.trans ?_ (List.append_nil _).symm
      rcases cases with rfl | rfl
      · rfl
      · exact styled
  | some found =>
      obtain ⟨opened, document⟩ := found
      rw [visits, opens] at parts ⊢
      have before : opened.calls = compilation.session.calls := by
        obtain ⟨_, _, _, _, rfl⟩ := of_opened opens
        exact styled
      rw [result_of_opened opens, ← before]
      exact (Session.calls_flush _).trans (calls_renderEnvelope parts)

/-- A visit that starts a compilation runs no code itself. -/
theorem call_of_starts
    {visit : Visit}
    {next : Compilation}
    (starts : visit.starts? = some next) :
    visit.call? = none := by
  obtain ⟨site, block⟩ := visit
  cases block with
  | codeBlock block => cases starts
  | _ => rfl

theorem calls_linkOutcome
    (pieces : List Piece)
    (result : Except RenderError Path × Session) :
    (linkOutcome pieces result).session.calls = result.2.calls := by
  obtain ⟨answer, after⟩ := result
  cases answer with
  | error error => rfl
  | ok path => exact calls_emit _ _

/-- A visit runs the code that is met from it on. -/
theorem Visit.calls (visit : Visit) :
    (visit.outcome environment).session.calls =
      visit.session.calls ++ callsMet environment true [visit] := by
  induction visit using Visit.inductionBelow environment with
  | step visit inside lower =>
      by_cases contains : visit.Contains environment
      · rw [callsMet_of_contains contains]
        exact compositional_calls.inside contains inside
      · rw [callsMet_singleton, Visit.inside_of_leaf contains]
        have nothing : callsMet environment true [] = [] := rfl
        rw [nothing, List.append_nil]
        cases starts : visit.starts? with
        | none =>
            rw [List.append_nil]
            exact Visit.calls_alone contains starts
        | some next =>
            have made := Compilation.calls_result fun found member => lower found (by
              rw [(Compilation.mem_visits member).1]
              exact depth_of_starts starts)
            rw [session_of_starts starts] at made
            rw [call_of_starts starts]
            have outcome := Visit.leaf contains
            rw [starts] at outcome
            generalize visit.outcome environment = written at outcome
            cases outcome with
            | links next pieces => exact (calls_linkOutcome pieces _).trans made

end Runs

end Page
end NotePress
