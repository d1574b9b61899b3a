import NotePress.Proofs.Page.Course

/-!
# What renders fail for

A render fails exactly when one of the visits in it does, and for the same error. So an
error goes from the visit that raises it to all that is around that visit, also from a
page to the link that the page is made for. Whatever a render fails for was raised by a
visit, unless a file could not be used.
-/

namespace NotePress
namespace Page

/-- An outcome that fails for the errors that some visits fail for. -/
def FailsAs
    (environment : Environment)
    (visits : List Visit)
    (outcome : Outcome) : Prop :=
  ∀ error, outcome.failure = some error ↔
    ∃ visit ∈ visits, (visit.outcome environment).failure = some error

section Failures

variable {environment : Environment}

theorem compositional_failsAs :
    Compositional (fun _ _ => True) fun _ => FailsAs environment where
  framing := framing_any
  done := by
    intro site error
    refine iff_of_false (fun fails => ?_) fun ⟨_, absent, _⟩ => ?_
    · cases fails
    · cases absent
  andThen := by
    intro site visits later first next front stopped back error
    cases complete : first.failure with
    | some found =>
        rw [stopped found complete, List.append_nil,
          Outcome.andThen_of_failure complete]
        exact front error
    | none =>
        rw [Outcome.andThen_of_complete complete]
        refine (back complete error).trans ⟨fun ⟨visit, member, fails⟩ =>
          ⟨visit, List.mem_append_right _ member, fails⟩, ?_⟩
        rintro ⟨visit, member, fails⟩
        rcases List.mem_append.mp member with old | new
        · have failed := (front error).mpr ⟨visit, old, fails⟩
          rw [complete] at failed
          cases failed
        · exact ⟨visit, new, fails⟩
  between := by
    intro site visits before after inside _ within error
    rw [failure_wrapped]
    exact within error
  moved := fun _ _ failsAs => failsAs

/-- A visit that takes up a container fails for what the visits inside it fail for. -/
theorem Visit.failsAs_inside
    {visit : Visit}
    (contains : visit.Contains environment) :
    FailsAs environment (visit.inside environment) (visit.outcome environment) :=
  compositional_failsAs.inside contains fun inner _ error => by
    simp only [List.mem_singleton, exists_eq_left]

theorem failsAs_paragraphs
    (site : Site)
    (document : Document) :
    FailsAs environment (site.paragraphs environment document)
      (renderParagraphs environment (site.hashtags environment) document
        site.session) :=
  compositional_failsAs.paragraphs site fun visit _ error => by
    simp only [List.mem_singleton, exists_eq_left]

theorem failsAs_renderEnvelope
    (depth : Nat)
    (context : Context)
    (document : Document)
    (session : Session) :
    FailsAs environment
      ((Site.ofPage environment depth context session).paragraphs environment
        document)
      (renderEnvelope environment (renderHashtag environment depth context)
        document session) := by
  intro error
  rw [renderEnvelope_eq, failure_followed,
    Outcome.andThen_of_complete (pageHead_complete environment session)]
  exact failsAs_paragraphs (Site.ofPage environment depth context session)
    document error

/-- A compilation fails for what the visits in its page fail for, once the file of the
page is open. -/
theorem Compilation.fails_iff
    {compilation : Compilation}
    {opened : Session}
    {document : Document}
    (opens : compilation.opened? environment = some (opened, document))
    (error : RenderError) :
    (compilation.result environment).1 = .error error ↔
      ∃ visit ∈ compilation.visits environment,
        (visit.outcome environment).failure = some error := by
  have whole := @failsAs_renderEnvelope environment compilation.depth
    compilation.context document opened error
  rw [visits, opens, result_of_opened opens]
  refine Iff.trans ?_ whole
  dsimp only
  split
  next found failed => rw [failed, Except.error.injEq, Option.some.injEq]
  next complete =>
    rw [complete]
    refine iff_of_false (fun fails => ?_) fun fails => ?_
    · cases fails
    · cases fails

/-- What a visit in the page of a compilation fails for ends the compilation. -/
theorem Compilation.fails_of_mem_visits
    {compilation : Compilation}
    {visit : Visit}
    (member : visit ∈ compilation.visits environment)
    {error : RenderError}
    (fails : (visit.outcome environment).failure = some error) :
    (compilation.result environment).1 = .error error := by
  cases opens : compilation.opened? environment with
  | none =>
      rw [visits, opens] at member
      cases member
  | some _ => exact (fails_iff opens error).mpr ⟨visit, member, fails⟩

theorem Compilation.isOfFile_or_fails
    {compilation : Compilation}
    {error : RenderError}
    (fails : (compilation.result environment).1 = .error error) :
    error.IsOfFile ∨
      ∃ visit ∈ compilation.visits environment,
        (visit.outcome environment).failure = some error := by
  cases opens : compilation.opened? environment with
  | none =>
      obtain ⟨found, after, isOfFile, _, results⟩ := result_of_unopened opens
      have same : compilation.result environment = (.error found, after) :=
        results compilation.depth
      rw [same] at fails
      cases fails
      exact .inl isOfFile
  | some _ => exact .inr ((fails_iff opens error).mp fails)

/-- A link that starts a compilation fails for what the compilation fails for. -/
theorem Visit.fails_iff_of_starts
    {visit : Visit}
    {next : Compilation}
    (starts : visit.starts? = some next)
    (error : RenderError) :
    (visit.outcome environment).failure = some error ↔
      (next.result environment).1 = .error error := by
  have leaf : ¬visit.Contains environment := by
    intro contains
    rw [starts_of_contains contains] at starts
    cases starts
  replace leaf := Visit.leaf leaf
  rw [starts] at leaf
  generalize visit.outcome environment = outcome at leaf
  cases leaf with
  | links next pieces =>
      generalize next.result environment = result
      obtain ⟨answer, after⟩ := result
      cases answer with
      | error found =>
          rw [Except.error.injEq]
          exact Option.some_inj
      | ok path =>
          refine iff_of_false (fun fails => ?_) fun fails => ?_
          · cases fails
          · cases fails

/-! ## Errors that are raised -/

/-- A visit that takes up no container and starts no compilation raises what it fails
for. -/
theorem Visit.raises_of_fails
    {visit : Visit}
    (leaf : ¬visit.Contains environment)
    (unlinked : visit.starts? = none)
    {error : RenderError}
    (fails : (visit.outcome environment).failure = some error) :
    visit.Raises error := by
  have outcome := Visit.leaf leaf
  rw [unlinked] at outcome
  generalize visit.outcome environment = result at outcome fails
  cases outcome with
  | fails found raises =>
      cases fails
      exact raises
  | _ => cases fails

/-- A visit fails for what some visit during it raises, unless a file could not be
used. -/
theorem Visit.raised
    {visit : Visit}
    {error : RenderError}
    (fails : (visit.outcome environment).failure = some error) :
    error.IsOfFile ∨
      ∃ found, Occurs environment [visit] found ∧ found.Raises error := by
  induction visit using Visit.inductionBelow environment with
  | step visit inside lower =>
      have here : Occurs environment [visit] visit := .start List.mem_cons_self
      -- What occurs in a part of a visit occurs in the visit.
      have part : ∀ {inner : Visit}, Occurs environment [visit] inner →
          (error.IsOfFile ∨
            ∃ found, Occurs environment [inner] found ∧ found.Raises error) →
          error.IsOfFile ∨
            ∃ found, Occurs environment [visit] found ∧ found.Raises error :=
        fun among => Or.imp_right fun ⟨found, occurs, raises⟩ =>
          ⟨found, occurs.trans (List.forall_mem_singleton.mpr among), raises⟩
      by_cases contains : visit.Contains environment
      · obtain ⟨inner, member, failed⟩ :=
          (Visit.failsAs_inside contains error).mp fails
        exact part (.inside here member) (inside inner member failed)
      cases starts : visit.starts? with
      | some next =>
          have failed := (Visit.fails_iff_of_starts starts error).mp fails
          rcases Compilation.isOfFile_or_fails failed with
            isOfFile | ⟨inner, member, failed⟩
          · exact .inl isOfFile
          · refine part (.linked here starts member) (lower inner ?_ failed)
            rw [(Compilation.mem_visits member).1]
            exact depth_of_starts starts
      | none =>
          exact .inr ⟨visit, here, Visit.raises_of_fails contains starts fails⟩

/-- A compilation fails for what some visit of its run raises, unless a file could not
be used. -/
theorem Compilation.raised
    {compilation : Compilation}
    {error : RenderError}
    (fails : (compilation.result environment).1 = .error error) :
    error.IsOfFile ∨
      ∃ found, Occurs environment (compilation.visits environment) found ∧
        found.Raises error := by
  rcases isOfFile_or_fails fails with isOfFile | ⟨visit, member, failed⟩
  · exact .inl isOfFile
  · refine visit.raised failed |>.imp_right fun ⟨found, occurs, raises⟩ => ?_
    exact ⟨found, occurs.trans (List.forall_mem_singleton.mpr (.start member)),
      raises⟩

/-- An error goes from a visit to a visit that a run starts with. -/
theorem Occurs.fails
    {visits : List Visit}
    {visit : Visit}
    (occurs : Occurs environment visits visit)
    {error : RenderError}
    (fails : (visit.outcome environment).failure = some error) :
    ∃ start ∈ visits, (start.outcome environment).failure = some error := by
  induction occurs with
  | start member => exact ⟨_, member, fails⟩
  | @inside outer inner _ member inductionHypothesis =>
      have contains : outer.Contains environment := by
        by_contra leaf
        rw [Visit.inside_of_leaf leaf] at member
        cases member
      exact inductionHypothesis ((Visit.failsAs_inside contains error).mpr
        ⟨inner, member, fails⟩)
  | @linked outer inner next _ starts member inductionHypothesis =>
      exact inductionHypothesis ((Visit.fails_iff_of_starts starts error).mpr
        (Compilation.fails_of_mem_visits member fails))

theorem Compilation.fails_of_occurs
    {compilation : Compilation}
    {visit : Visit}
    (occurs : Occurs environment (compilation.visits environment) visit)
    {error : RenderError}
    (fails : (visit.outcome environment).failure = some error) :
    (compilation.result environment).1 = .error error := by
  obtain ⟨start, member, failed⟩ := occurs.fails fails
  exact fails_of_mem_visits member failed

end Failures

end Page
end NotePress
