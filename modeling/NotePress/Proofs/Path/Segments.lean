import NotePress.Target

/-!
# Segments of paths

A path text is cut into segments at its slashes, and segments are put together
with slashes between them. The one undoes the other. A proper segment names
something below a directory: it is neither idle nor the step out of a directory.
-/

namespace NotePress

namespace Text

/-- Cutting a list at a separator is what the library calls splitting. -/
theorem splitAt_eq_splitOn
    {Item : Type}
    [BEq Item]
    (separator : Item)
    (items : List Item) :
    splitAt separator items = items.splitOn separator := by
  induction items with
  | nil => rw [splitAt, List.splitOn_nil]
  | cons first others inductionHypothesis =>
      rw [splitAt, List.splitOn_cons_eq_if_modifyHead, inductionHypothesis]
      split
      · rfl
      · split
        next empty => exact absurd empty (List.splitOn_ne_nil separator others)
        next part parts cut => rw [cut, List.modifyHead_cons]

/-- No part holds the separator it is cut at. -/
theorem notMem_of_mem_splitAt
    {Item : Type}
    [BEq Item]
    [LawfulBEq Item]
    {separator : Item}
    {items part : List Item}
    (member : part ∈ splitAt separator items) :
    separator ∉ part := by
  induction items generalizing part with
  | nil =>
      rw [splitAt, List.mem_singleton] at member
      rw [member]
      exact List.not_mem_nil
  | cons first others inductionHypothesis =>
      rw [splitAt] at member
      split at member
      next equal =>
        rcases List.mem_cons.mp member with rfl | later
        · exact List.not_mem_nil
        · exact inductionHypothesis later
      next different =>
        split at member
        next empty =>
          rw [splitAt_eq_splitOn] at empty
          exact absurd empty (List.splitOn_ne_nil separator others)
        next head parts cut =>
          have inHead : separator ∉ head := inductionHypothesis (by
            rw [cut]
            exact List.mem_cons_self)
          rcases List.mem_cons.mp member with rfl | later
          · rw [List.mem_cons, not_or]
            exact ⟨fun equal => different (beq_iff_eq.mpr equal.symm), inHead⟩
          · exact inductionHypothesis (by
              rw [cut]
              exact List.mem_cons_of_mem head later)

/-- What is in a part was in the list. -/
theorem mem_of_mem_splitAt
    {Item : Type}
    [BEq Item]
    {separator item : Item}
    {items part : List Item}
    (isPart : part ∈ splitAt separator items)
    (member : item ∈ part) :
    item ∈ items := by
  induction items generalizing part with
  | nil =>
      rw [splitAt, List.mem_singleton] at isPart
      rwa [isPart] at member
  | cons first others inductionHypothesis =>
      rw [splitAt] at isPart
      split at isPart
      next =>
        rcases List.mem_cons.mp isPart with rfl | later
        · cases member
        · exact List.mem_cons_of_mem first (inductionHypothesis later member)
      next =>
        split at isPart
        next empty =>
          rw [splitAt_eq_splitOn] at empty
          exact absurd empty (List.splitOn_ne_nil separator others)
        next head parts cut =>
          rw [cut] at inductionHypothesis
          rcases List.mem_cons.mp isPart with rfl | later
          · rcases List.mem_cons.mp member with rfl | inHead
            · exact List.mem_cons_self
            · exact List.mem_cons_of_mem first
                (inductionHypothesis List.mem_cons_self inHead)
          · exact List.mem_cons_of_mem first
              (inductionHypothesis (List.mem_cons_of_mem head later) member)

/-- A list without anything to drop is left alone. -/
theorem dropTrailing_eq_self
    {Item : Type}
    {test : Item → Bool}
    {items : List Item}
    (none : ∀ item ∈ items, test item = false) :
    dropTrailing test items = items := by
  induction items with
  | nil => rfl
  | cons first others inductionHypothesis =>
      rw [dropTrailing, inductionHypothesis fun item member =>
        none item (List.mem_cons_of_mem first member)]
      cases others with
      | nil =>
          dsimp only
          rw [if_neg (Bool.eq_false_iff.mp (none first List.mem_cons_self))]
      | cons second rest => rfl

end Text

namespace Path

/-- A segment that names something below a directory. -/
structure IsProper (name : List Char) : Prop where
  clean : '/' ∉ name
  notIdle : isIdle name = false
  notUp : name ≠ ['.', '.']

/-- No segment has a slash in it. -/
theorem clean_of_mem_segmentsOf
    {text segment : List Char}
    (member : segment ∈ segmentsOf text) :
    '/' ∉ segment :=
  Text.notMem_of_mem_splitAt member

/-- Segments that are put together are cut apart again. -/
theorem segmentsOf_textOf
    {segments : List (List Char)}
    (some : segments ≠ [])
    (clean : ∀ segment ∈ segments, '/' ∉ segment) :
    segmentsOf (textOf segments) = segments := by
  rw [segmentsOf, textOf, Text.splitAt_eq_splitOn]
  exact List.splitOn_intercalate '/' clean some

theorem textOf_singleton (single : List Char) : textOf [single] = single :=
  List.intercalate_singleton

theorem textOf_cons
    (first : List Char)
    {others : List (List Char)}
    (some : others ≠ []) :
    textOf (first :: others) = first ++ '/' :: textOf others := by
  rw [textOf, List.intercalate_cons_of_ne_nil some, List.append_assoc]
  rfl

/-- A last segment is put behind a slash. -/
theorem textOf_concat
    {segments : List (List Char)}
    (some : segments ≠ [])
    (last : List Char) :
    textOf (segments ++ [last]) = textOf segments ++ '/' :: last := by
  induction segments with
  | nil => exact absurd rfl some
  | cons first others inductionHypothesis =>
      by_cases single : others = []
      · rw [single, textOf_singleton, List.singleton_append,
          textOf_cons first (List.cons_ne_nil last []), textOf_singleton]
      · rw [List.cons_append, textOf_cons first (by simp),
          inductionHypothesis single, textOf_cons first single]
        simp

/-! ## Names and extensions -/

/-- A cut at the last point keeps all characters of a name. -/
theorem append_splitLastPoint
    {name before after : List Char}
    (cut : splitLastPoint name = some (before, after)) :
    name = before ++ '.' :: after := by
  induction name generalizing before after with
  | nil => cases cut
  | cons first others inductionHypothesis =>
      rw [splitLastPoint] at cut
      split at cut
      next left right later =>
        cases cut
        rw [inductionHypothesis later]
        rfl
      next =>
        split at cut
        next point =>
          cases cut
          rw [point]
          rfl
        next => cases cut

/-- A stem has no characters other than those of its name. -/
theorem mem_of_mem_stemOf
    {name : List Char}
    {character : Char}
    (member : character ∈ stemOf name) :
    character ∈ name := by
  rw [stemOf] at member
  split at member
  next first before after cut =>
    rw [append_splitLastPoint cut]
    exact List.mem_append_left _ member
  next => exact member

/-- A name with another extension that has a character is proper again. -/
theorem isProper_withExtension
    {name extension : List Char}
    (proper : IsProper name)
    (clean : '/' ∉ extension)
    (visible : ∃ character ∈ extension, character ≠ '.') :
    IsProper (stemOf name ++ '.' :: extension) := by
  obtain ⟨character, member, notPoint⟩ := visible
  have present : character ∈ stemOf name ++ '.' :: extension :=
    List.mem_append_right _ (List.mem_cons_of_mem '.' member)
  refine ⟨?_, ?_, ?_⟩
  · rw [List.mem_append, List.mem_cons]
    rintro (stem | point | rest)
    · exact proper.clean (mem_of_mem_stemOf stem)
    · exact absurd point (by decide)
    · exact clean rest
  · rw [isIdle, Bool.or_eq_false_iff, beq_eq_false_iff_ne, beq_eq_false_iff_ne]
    constructor
    · intro empty
      rw [empty] at present
      cases present
    · intro point
      rw [point, List.mem_singleton] at present
      exact notPoint present
  · intro up
    rw [up] at present
    simp only [List.mem_cons, List.not_mem_nil, or_false, or_self] at present
    exact notPoint present

end Path

end NotePress
