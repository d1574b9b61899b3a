import NotePress.Proofs.Path.Segments
import NotePress.Text.Lines

/-!
# Trimming

What dropping the ends of a list leaves: a part of the list that neither starts
nor ends with what was dropped. So a trimmed text neither starts nor ends with a
blank. Lines have no line feeds in them.
-/

namespace NotePress
namespace Text

section

variable {Item : Type} {test : Item → Bool} {items : List Item}

/-- Of a list of what is dropped, nothing is left. -/
theorem dropTrailing_eq_nil (all : ∀ item ∈ items, test item = true) :
    dropTrailing test items = [] := by
  induction items with
  | nil => rfl
  | cons first others inductionHypothesis =>
      rw [dropTrailing, inductionHypothesis fun item member =>
        all item (List.mem_cons_of_mem first member)]
      exact if_pos (all first List.mem_cons_self)

/-- What is dropped at the end of a list does not matter. -/
theorem dropTrailing_append_of_all
    (items : List Item)
    {back : List Item}
    (all : ∀ item ∈ back, test item = true) :
    dropTrailing test (items ++ back) = dropTrailing test items := by
  induction items with
  | nil => exact dropTrailing_eq_nil all
  | cons first others inductionHypothesis =>
      rw [List.cons_append, dropTrailing, dropTrailing, inductionHypothesis]

/-- What is left is a front part of the list. -/
theorem dropTrailing_isPrefix (items : List Item) :
    dropTrailing test items <+: items := by
  induction items with
  | nil => exact List.prefix_rfl
  | cons first others inductionHypothesis =>
      rw [dropTrailing]
      split
      · split
        · exact List.nil_prefix
        · exact ⟨others, rfl⟩
      · rename_i kept nonempty
        exact (List.prefix_cons_inj first).mpr inductionHypothesis

/-- What is left does not end with what is dropped. -/
theorem not_of_getLast_dropTrailing
    {last : Item}
    (isLast : (dropTrailing test items).getLast? = some last) :
    test last = false := by
  induction items with
  | nil => cases isLast
  | cons first others inductionHypothesis =>
      rw [dropTrailing] at isLast
      split at isLast
      · split at isLast
        · cases isLast
        · rename_i kept
          cases isLast
          simpa using kept
      · rename_i kept nonempty
        rw [List.getLast?_cons] at isLast
        cases inside : (dropTrailing test others).getLast? with
        | none =>
            exact absurd (List.getLast?_eq_none_iff.mp inside) nonempty
        | some other =>
            rw [inside] at isLast
            cases isLast
            exact inductionHypothesis inside

/-- A list that does not end with what is dropped stays as it is. -/
theorem dropTrailing_eq_self_of_last
    (kept : ∀ last, items.getLast? = some last → test last = false) :
    dropTrailing test items = items := by
  induction items with
  | nil => rfl
  | cons first others inductionHypothesis =>
      rw [dropTrailing]
      cases others with
      | nil => simp [kept first rfl]
      | cons second others =>
          rw [inductionHypothesis fun last isLast => kept last <| by
            rw [List.getLast?_cons_cons]
            exact isLast]

/-- Between two runs of what is dropped, a list without any of it is left. -/
theorem dropEnds_enclosed
    {front middle back : List Item}
    (inFront : ∀ item ∈ front, test item = true)
    (inBack : ∀ item ∈ back, test item = true)
    (nonempty : middle ≠ [])
    (inMiddle : ∀ item ∈ middle, test item = false) :
    dropEnds test (front ++ middle ++ back) = middle := by
  obtain ⟨first, others, rfl⟩ := List.exists_cons_of_ne_nil nonempty
  have kept := inMiddle first List.mem_cons_self
  rw [dropEnds, List.append_assoc, List.dropWhile_append_of_pos inFront,
    List.cons_append, List.dropWhile_cons_of_neg (by simp [kept]),
    ← List.cons_append, dropTrailing_append_of_all _ inBack,
    dropTrailing_eq_self inMiddle]

/-- What is left at the end does not start with what is dropped. -/
theorem not_of_head_dropWhile
    {first : Item}
    (isFirst : (items.dropWhile test).head? = some first) :
    test first = false := by
  have stopped := List.head?_dropWhile_not test items
  rw [isFirst] at stopped
  simpa using stopped

/-- Dropping the end of a list leaves its start, if anything. -/
theorem head_of_head_dropTrailing
    {first : Item}
    (isFirst : (dropTrailing test items).head? = some first) :
    items.head? = some first := by
  obtain ⟨dropped, whole⟩ :
      dropTrailing test items <+: items := dropTrailing_isPrefix items
  rw [← whole, List.head?_append, isFirst]
  rfl

/-- Dropping the start of a list leaves its end, if anything. -/
theorem getLast_of_getLast_dropWhile
    {last : Item}
    (isLast : (items.dropWhile test).getLast? = some last) :
    items.getLast? = some last := by
  have whole : items.takeWhile test ++ items.dropWhile test = items :=
    List.takeWhile_append_dropWhile
  rw [← whole, List.getLast?_append, isLast]
  rfl

/-- What is left was in the list. -/
theorem mem_of_mem_dropEnds (member : item ∈ dropEnds test items) :
    item ∈ items :=
  (List.dropWhile_sublist test).mem
    ((dropTrailing_isPrefix (items.dropWhile test)).mem member)

end

/-! ## Texts without blanks at an end -/

/-- A text that does not start with a blank. -/
def StartsVisibly (text : String) : Prop :=
  ∀ first, text.toList.head? = some first → isBlank first = false

/-- A text that does not end with a blank. -/
def EndsVisibly (text : String) : Prop :=
  ∀ last, text.toList.getLast? = some last → isBlank last = false

/-- A text trimmed at its start starts with no blank. -/
theorem startsVisibly_trimStart (text : String) :
    StartsVisibly (trimStart text) := by
  intro first isFirst
  rw [toList_trimStart] at isFirst
  exact not_of_head_dropWhile isFirst

/-- A text trimmed at its end ends with no blank. -/
theorem endsVisibly_trimEnd (text : String) : EndsVisibly (trimEnd text) := by
  intro last isLast
  rw [toList_trimEnd] at isLast
  exact not_of_getLast_dropTrailing isLast

theorem StartsVisibly.trimStart_eq (starts : StartsVisibly text) :
    trimStart text = text := by
  apply String.toList_injective
  rw [toList_trimStart]
  cases characters : text.toList with
  | nil => rfl
  | cons first others =>
      have visible := starts first (by rw [characters]; rfl)
      rw [List.dropWhile_cons_of_neg (by simp [visible])]

theorem EndsVisibly.trimEnd_eq (ends : EndsVisibly text) :
    trimEnd text = text := by
  apply String.toList_injective
  rw [toList_trimEnd, dropTrailing_eq_self_of_last ends]

/-- A text with a blank at neither end stays as it is. -/
theorem StartsVisibly.trim_eq
    (starts : StartsVisibly text)
    (ends : EndsVisibly text) :
    trim text = text := by
  have kept : text.toList.dropWhile isBlank = text.toList := by
    rw [← toList_trimStart, starts.trimStart_eq]
  rw [trim, dropEnds, kept]
  exact ends.trimEnd_eq

/-- Trimming the start of a text leaves its end as it is. -/
theorem EndsVisibly.trimStart (ends : EndsVisibly text) :
    EndsVisibly (trimStart text) := by
  intro last isLast
  rw [toList_trimStart] at isLast
  exact ends last (getLast_of_getLast_dropWhile isLast)

theorem startsVisibly_trim (text : String) : StartsVisibly (trim text) := by
  intro first isFirst
  rw [toList_trim] at isFirst
  exact not_of_head_dropWhile (head_of_head_dropTrailing isFirst)

theorem endsVisibly_trim (text : String) : EndsVisibly (trim text) := by
  intro last isLast
  rw [toList_trim] at isLast
  exact not_of_getLast_dropTrailing isLast

/-- Texts that start with no blank start with none together. -/
theorem StartsVisibly.append
    (starts : StartsVisibly text)
    (later : StartsVisibly more) :
    StartsVisibly (text ++ more) := by
  intro first isFirst
  rw [String.toList_append, List.head?_append, Option.or_eq_some_iff] at isFirst
  rcases isFirst with here | ⟨_, there⟩
  · exact starts first here
  · exact later first there

theorem EndsVisibly.append
    (earlier : EndsVisibly text)
    (ends : EndsVisibly more) :
    EndsVisibly (text ++ more) := by
  intro last isLast
  rw [String.toList_append, List.getLast?_append, Option.or_eq_some_iff] at isLast
  rcases isLast with here | ⟨_, there⟩
  · exact ends last here
  · exact earlier last there

/-! ## Lines -/

/-- Lines have no line feeds in them. -/
theorem newline_notMem_of_mem_splitLines (member : line ∈ splitLines characters) :
    '\n' ∉ line := by
  induction characters using splitLines.induct generalizing line with
  | case1 => cases member
  | case2 rest inductionHypothesis =>
      rw [splitLines] at member
      rcases List.mem_cons.mp member with rfl | later
      · exact List.not_mem_nil
      · exact inductionHypothesis later
  | case3 rest inductionHypothesis =>
      rw [splitLines] at member
      rcases List.mem_cons.mp member with rfl | later
      · exact List.not_mem_nil
      · exact inductionHypothesis later
  | case4 first rest noFeed noReturn nothing inductionHypothesis =>
      rw [splitLines, nothing] at member
      · rw [List.mem_singleton.mp member, List.mem_singleton]
        exact fun feed => noFeed feed.symm
      · exact noFeed
      · exact noReturn
  | case5 first rest noFeed noReturn head others split inductionHypothesis =>
      rw [splitLines, split] at member
      · rcases List.mem_cons.mp member with rfl | later
        · rw [List.mem_cons, not_or]
          refine ⟨fun feed => noFeed feed.symm, inductionHypothesis ?_⟩
          rw [split]
          exact List.mem_cons_self
        · apply inductionHypothesis
          rw [split]
          exact List.mem_cons_of_mem head later
      · exact noFeed
      · exact noReturn

end Text
end NotePress
