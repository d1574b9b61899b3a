import NotePress.Disk
import NotePress.Proofs.Path.Segments

/-!
# Absolute paths and their names

An absolute path spells the names on the way from the root. There are two
spellings: following a target from the root leaves a second slash in front. All
that is asked of such a path is told from its names.
-/

namespace NotePress
namespace Path

/-- An absolute path with the given names on the way from the root. -/
structure Spells (path : Path) (names : List (List Char)) : Prop where
  proper : ∀ name ∈ names, IsProper name
  text : path.text.toList = textOf ([] :: [] :: names) ∨
    names ≠ [] ∧ path.text.toList = textOf ([] :: names)

/-- One step along names: `..` leaves a directory, other names enter one. -/
def step
    (names : List (List Char))
    (segment : List Char) : List (List Char) :=
  if isIdle segment then
    names
  else if segment = ['.', '.'] then
    names.dropLast
  else
    names ++ [segment]

theorem isProper_of_step
    {segment : List Char}
    (clean : '/' ∉ segment)
    (busy : ¬isIdle segment = true)
    (notUp : segment ≠ ['.', '.']) :
    IsProper segment :=
  ⟨clean, Bool.eq_false_iff.mpr busy, notUp⟩

theorem dropIdle_names
    {absolute : Bool}
    {names : List (List Char)}
    (proper : ∀ name ∈ names, IsProper name) :
    dropIdle absolute names = names := by
  cases names with
  | nil => rfl
  | cons first others =>
      have here := (proper first List.mem_cons_self).notIdle
      have visible : ¬(first.isEmpty || absolute && isIdle first) = true := by
        rw [isIdle, Bool.or_eq_false_iff] at here
        cases first with
        | nil => exact absurd here.1 (by decide)
        | cons character rest =>
            rw [isIdle, here.1, here.2]
            cases absolute <;> exact Bool.false_ne_true
      rw [dropIdle, Text.dropTrailing_eq_self fun name member =>
        (proper name (List.mem_cons_of_mem first member)).notIdle]
      cases others with
      | nil =>
          dsimp only
          rw [if_neg visible]
      | cons second rest => rfl

theorem dropIdle_blank
    {absolute : Bool}
    {names : List (List Char)}
    (proper : ∀ name ∈ names, IsProper name)
    (nonempty : names ≠ []) :
    dropIdle absolute ([] :: names) = [] :: names := by
  rw [dropIdle, Text.dropTrailing_eq_self fun name member =>
    (proper name member).notIdle]
  cases names with
  | nil => exact absurd rfl nonempty
  | cons first others => rfl

namespace Spells

variable
  {path : Path}
  {names : List (List Char)}

theorem segments (spells : Spells path names) :
    segmentsOf path.text.toList = [] :: [] :: names ∨
      names ≠ [] ∧ segmentsOf path.text.toList = [] :: names := by
  have clean : ∀ name ∈ names, '/' ∉ name :=
    fun name member => (spells.proper name member).clean
  rcases spells.text with text | ⟨nonempty, text⟩
  · left
    rw [text]
    apply segmentsOf_textOf (List.cons_ne_nil _ _)
    exact List.forall_mem_cons.mpr ⟨List.not_mem_nil,
      List.forall_mem_cons.mpr ⟨List.not_mem_nil, clean⟩⟩
  · refine .inr ⟨nonempty, ?_⟩
    rw [text]
    apply segmentsOf_textOf (List.cons_ne_nil _ _)
    exact List.forall_mem_cons.mpr ⟨List.not_mem_nil, clean⟩

theorem isAbsolute (spells : Spells path names) : path.isAbsolute = true := by
  rcases spells.text with text | ⟨nonempty, text⟩
  · rw [Path.isAbsolute, text, textOf_cons [] (List.cons_ne_nil _ _)]
    rfl
  · rw [Path.isAbsolute, text, textOf_cons [] nonempty]
    rfl

theorem filter_names (spells : Spells path names) :
    names.filter (fun segment => !isIdle segment) = names := by
  rw [List.filter_eq_self]
  intro name member
  rw [(spells.proper name member).notIdle]
  rfl

theorem components (spells : Spells path names) :
    path.components = ['/'] :: names := by
  rcases spells.segments with segments | ⟨_, segments⟩
  · rw [Path.components, segments]
    dsimp only
    rw [if_pos spells.isAbsolute, List.filter_cons_of_neg (by decide),
      spells.filter_names]
  · rw [Path.components, segments]
    dsimp only
    rw [if_pos spells.isAbsolute, spells.filter_names]

/-- The directory around a path has all names but the last. -/
theorem parent (spells : Spells path names) (nonempty : names ≠ []) :
    ∃ around, path.parent? = some around ∧ Spells around names.dropLast := by
  have proper : ∀ name ∈ names.dropLast, IsProper name :=
    fun name member => spells.proper name (List.dropLast_subset names member)
  rcases spells.segments with segments | ⟨_, segments⟩
  · have kept : dropIdle true ([] :: names).dropLast =
        if names.dropLast = [] then [] else [] :: names.dropLast := by
      rw [List.dropLast_cons_of_ne_nil nonempty]
      split
      next only =>
        rw [only]
        rfl
      next more => exact dropIdle_blank proper more
    rw [parent?, segments, spells.isAbsolute]
    simp only [if_true, List.tail_cons]
    rw [dropIdle_blank spells.proper nonempty, kept, List.isEmpty_cons,
      if_neg Bool.false_ne_true]
    refine ⟨_, rfl, proper, ?_⟩
    rw [String.toList_ofList]
    split
    next only =>
      rw [only]
      exact .inl rfl
    next more =>
      rw [textOf_cons [] (List.cons_ne_nil [] names.dropLast)]
      exact .inl rfl
  · have body : ¬names.isEmpty = true := by
      rw [List.isEmpty_iff]
      exact nonempty
    rw [parent?, segments, spells.isAbsolute]
    simp only [if_true, List.tail_cons]
    rw [dropIdle_names spells.proper, dropIdle_names proper, if_neg body]
    refine ⟨_, rfl, proper, ?_⟩
    rw [String.toList_ofList]
    by_cases only : names.dropLast = []
    · rw [only]
      exact .inl rfl
    · exact .inr ⟨only, (textOf_cons [] only).symm⟩

/-- The root has no directory around it. -/
theorem parent_root (spells : Spells path []) : path.parent? = none := by
  rcases spells.segments with segments | ⟨nonempty, _⟩
  · rw [parent?, segments, spells.isAbsolute]
    rfl
  · exact absurd rfl nonempty

/-- A path with one more name. -/
theorem enter
    (spells : Spells path names)
    {segment : List Char}
    (isProper : IsProper segment) :
    Spells ⟨path.text ++ "/" ++ String.ofList segment⟩ (names ++ [segment]) := by
  have text : (path.text ++ "/" ++ String.ofList segment).toList =
      path.text.toList ++ '/' :: segment := by
    simp
  refine ⟨?_, ?_⟩
  · intro name member
    rcases List.mem_append.mp member with old | new
    · exact spells.proper name old
    · rw [List.mem_singleton.mp new]
      exact isProper
  · rw [text]
    rcases spells.text with spelled | ⟨_, spelled⟩
    · left
      rw [spelled]
      exact (textOf_concat (List.cons_ne_nil _ _) segment).symm
    · refine .inr ⟨by simp, ?_⟩
      rw [spelled]
      exact (textOf_concat (List.cons_ne_nil _ _) segment).symm

/-- Following a segment is a step along the names. -/
theorem follow
    (spells : Spells path names)
    {segment : List Char}
    (clean : '/' ∉ segment) :
    Spells (path.follow segment) (step names segment) := by
  rw [Path.follow, step]
  split
  next => exact spells
  next busy =>
    split
    next =>
      by_cases root : names = []
      · rw [root] at spells ⊢
        rw [spells.parent_root]
        exact spells
      · obtain ⟨around, parent, spelled⟩ := spells.parent root
        rw [parent]
        exact spelled
    next notUp =>
      have visible : ¬path.text.isEmpty = true := by
        intro empty
        have absolute := spells.isAbsolute
        rw [Path.isAbsolute, String.isEmpty_iff.mp empty] at absolute
        exact absurd absolute (by decide)
      rw [if_neg visible]
      exact spells.enter (isProper_of_step clean busy notUp)

/-- Resolving a target is walking along its segments. -/
theorem resolve (spells : Spells path names) (target : String) :
    Spells (path.resolve target)
      ((segmentsOf target.toList).foldl step names) := by
  have walk : ∀ (segments : List (List Char)) (path : Path)
      (names : List (List Char)),
      (∀ segment ∈ segments, '/' ∉ segment) → Spells path names →
      Spells (segments.foldl Path.follow path) (segments.foldl step names) := by
    intro segments
    induction segments with
    | nil => exact fun _ _ _ spells => spells
    | cons first others inductionHypothesis =>
        intro path names clean spells
        exact inductionHypothesis _ _
          (fun segment member =>
            clean segment (List.mem_cons_of_mem first member))
          (spells.follow (clean first List.mem_cons_self))
  exact walk _ _ _ (fun segment member => clean_of_mem_segmentsOf member) spells

end Spells

/-! ## Pages -/

/-- The name of the page of a source document. -/
def pageName (name : List Char) : List Char :=
  stemOf name ++ '.' :: Target.pageExtension.toList

theorem isProper_pageName
    {name : List Char}
    (proper : IsProper name) :
    IsProper (pageName name) :=
  isProper_withExtension proper (by decide) ⟨'h', by decide, by decide⟩

/-- Segments with a name end in it, apart from idle ones. -/
theorem segments_of_splitName
    {segments before : List (List Char)}
    {name : List Char}
    (split : splitName? segments = some (before, name)) :
    ∃ after, segments = before ++ name :: after ∧
      (∀ segment ∈ after, isIdle segment = true) ∧
      isIdle name = false ∧ name ≠ ['.', '.'] := by
  rw [splitName?] at split
  split at split
  next => cases split
  next found rest kept =>
    split at split
    next => cases split
    next notUp =>
      cases split
      have whole := List.takeWhile_append_dropWhile (p := isIdle)
        (l := segments.reverse)
      rw [kept] at whole
      have mirrored := congrArg List.reverse whole
      rw [List.reverse_reverse, List.reverse_append, List.reverse_cons,
        List.append_assoc, List.singleton_append] at mirrored
      refine ⟨_, mirrored.symm, ?_, ?_, notUp⟩
      · intro segment member
        exact List.all_eq_true.mp List.all_takeWhile segment
          (List.mem_reverse.mp member)
      · have first := List.head?_dropWhile_not isIdle segments.reverse
        rw [kept] at first
        exact first

theorem splitName_concat
    (segments : List (List Char))
    {name : List Char}
    (proper : IsProper name) :
    splitName? (segments ++ [name]) = some (segments, name) := by
  rw [splitName?, List.reverse_append, List.reverse_singleton,
    List.singleton_append, List.dropWhile_cons_of_neg
      (Bool.eq_false_iff.mp proper.notIdle)]
  dsimp only
  rw [if_neg proper.notUp, List.reverse_reverse]

theorem foldl_step_idle
    {segments names : List (List Char)}
    (idle : ∀ segment ∈ segments, isIdle segment = true) :
    segments.foldl step names = names := by
  induction segments with
  | nil => rfl
  | cons first others inductionHypothesis =>
      rw [List.foldl_cons, step, if_pos (idle first List.mem_cons_self)]
      exact inductionHypothesis fun segment member =>
        idle segment (List.mem_cons_of_mem first member)

theorem step_proper
    (names : List (List Char))
    {name : List Char}
    (proper : IsProper name) :
    step names name = names ++ [name] := by
  rw [step, if_neg (Bool.eq_false_iff.mp proper.notIdle), if_neg proper.notUp]

/-- A target with a name ends in it, and the target of its page ends in the name of
the page in the same place. -/
theorem segments_page
    {target : String}
    {before : List (List Char)}
    {name : List Char}
    (split : splitName? (segmentsOf target.toList) = some (before, name)) :
    IsProper name ∧
      segmentsOf (Target.page target).toList = before ++ [pageName name] := by
  obtain ⟨after, segments, _, notIdle, notUp⟩ := segments_of_splitName split
  have clean : ∀ segment ∈ before ++ name :: after, '/' ∉ segment := by
    intro segment member
    rw [← segments] at member
    exact clean_of_mem_segmentsOf member
  have proper : IsProper name :=
    ⟨clean name (by simp), notIdle, notUp⟩
  refine ⟨proper, ?_⟩
  have pageText : (Target.page target).toList =
      textOf (before ++ [pageName name]) := by
    rw [Target.page, withExtension, String.toList_ofList, replaceExtension,
      split]
    rfl
  rw [pageText]
  apply segmentsOf_textOf (by simp)
  intro segment member
  rcases List.mem_append.mp member with old | new
  · exact clean segment (List.mem_append_left _ old)
  · rw [List.mem_singleton.mp new]
    exact (isProper_pageName proper).clean

/-- A source target has a name with the extension of source documents. -/
theorem exists_splitName_of_isSource
    {target : String}
    (isSource : Target.isSource target = true) :
    ∃ (before : List (List Char)) (name : List Char),
      splitName? (segmentsOf target.toList) = some (before, name) ∧
        extensionOf? name = some Target.sourceExtension.toList := by
  rw [Target.isSource, extension?, beq_iff_eq] at isSource
  split at isSource
  next => cases isSource
  next before name split =>
    refine ⟨before, name, split, ?_⟩
    obtain ⟨extension, found, text⟩ := Option.map_eq_some_iff.mp isSource
    rw [found, ← text, String.toList_ofList]

/-- Source targets and the targets of their pages are followed in the same way up to
their names. -/
theorem foldl_step_source
    {target : String}
    (isSource : Target.isSource target = true) :
    ∃ (before : List (List Char)) (name : List Char), IsProper name ∧
      ∀ names : List (List Char),
      (segmentsOf target.toList).foldl step names =
        before.foldl step names ++ [name] ∧
      (segmentsOf (Target.page target).toList).foldl step names =
        before.foldl step names ++ [pageName name] := by
  obtain ⟨before, name, split, _⟩ := exists_splitName_of_isSource isSource
  obtain ⟨after, segments, idle, _⟩ := segments_of_splitName split
  obtain ⟨proper, pageSegments⟩ := segments_page split
  refine ⟨before, name, proper, fun names => ⟨?_, ?_⟩⟩
  · rw [segments, List.foldl_append, List.foldl_cons, step_proper _ proper,
      foldl_step_idle idle]
  · rw [pageSegments, List.foldl_append, List.foldl_cons,
      step_proper _ (isProper_pageName proper), List.foldl_nil]

/-- The page of a path is in the same place, with the name of the page. -/
theorem Spells.page
    {path : Path}
    {names : List (List Char)}
    {name : List Char}
    (spells : Spells path (names ++ [name])) :
    Spells path.page (names ++ [pageName name]) := by
  have proper := spells.proper name (by simp)
  have text : ∀ before, segmentsOf path.text.toList = before ++ [name] →
      path.page.text.toList = textOf (before ++ [pageName name]) := by
    intro before segments
    rw [Path.page, withExtension, String.toList_ofList, replaceExtension,
      segments, splitName_concat before proper]
    rfl
  refine ⟨?_, ?_⟩
  · intro found member
    rcases List.mem_append.mp member with old | new
    · exact spells.proper found (List.mem_append_left _ old)
    · rw [List.mem_singleton.mp new]
      exact isProper_pageName proper
  · rcases spells.segments with segments | ⟨_, segments⟩
    · exact .inl (text ([] :: [] :: names) segments)
    · exact .inr ⟨by simp, text ([] :: names) segments⟩

end Path

/-! ## Locations -/

/-- A location all of whose names are proper. -/
def Location.IsProper (location : Location) : Prop :=
  ∀ name ∈ location, Path.IsProper name.toList

/-- The path of a location spells its names. -/
theorem Location.IsProper.spells
    {location : Location}
    (proper : location.IsProper) :
    Path.Spells (Location.path location) (location.map String.toList) := by
  refine ⟨?_, ?_⟩
  · intro name member
    obtain ⟨found, inside, rfl⟩ := List.mem_map.mp member
    exact proper found inside
  · have text : (Location.path location).text.toList =
        '/' :: Path.textOf (location.map String.toList) := by
      rw [Location.path, String.toList_append, String.toList_intercalate]
      rfl
    rw [text]
    by_cases root : location = []
    · rw [root]
      exact .inl rfl
    · have nonempty : location.map String.toList ≠ [] := by simpa using root
      exact .inr ⟨nonempty, (Path.textOf_cons [] nonempty).symm⟩

theorem Location.IsProper.dropLast
    {location : Location}
    (proper : location.IsProper) :
    Location.IsProper location.dropLast :=
  fun name member => proper name (List.dropLast_subset location member)

end NotePress
