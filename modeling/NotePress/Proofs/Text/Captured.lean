import NotePress.Proofs.Text.Trimming
import NotePress.Execution

/-!
# Captured output

What a program printed is kept as its lines with a line feed between neighbours.
Read along the text, that drops the carriage return of each ending and the last
ending, and nothing else.

One ending is dropped at the end, not all of them: a text with an empty last line
keeps the ending before that line. And where two carriage returns stand before a
line feed the first one stays, so that the next reading takes it for a part of the
ending. These are the only texts whose captured form is not final.
-/

namespace NotePress
namespace Text

/-- The characters of the lines of a text, with a line feed between neighbours. -/
def rejoined (characters : List Char) : List Char :=
  ['\n'].intercalate (splitLines characters)

/-- Induction along a text, ending by ending and character by character. -/
theorem induction_on_endings
    {motive : List Char → Prop}
    (empty : motive [])
    (feed : ∀ rest, motive rest → motive ('\n' :: rest))
    (ending : ∀ rest, motive rest → motive ('\r' :: '\n' :: rest))
    (other : ∀ first rest, first ≠ '\n' →
      (first = '\r' → ∀ more, rest ≠ '\n' :: more) →
      motive rest → motive (first :: rest))
    (characters : List Char) :
    motive characters := by
  induction characters using splitLines.induct with
  | case1 => exact empty
  | case2 rest inductionHypothesis => exact feed rest inductionHypothesis
  | case3 rest inductionHypothesis => exact ending rest inductionHypothesis
  | case4 first rest noFeed noReturn _ inductionHypothesis =>
      exact other first rest noFeed
        (fun isReturn more next => noReturn more isReturn next)
        inductionHypothesis
  | case5 first rest noFeed noReturn _ _ _ inductionHypothesis =>
      exact other first rest noFeed
        (fun isReturn more next => noReturn more isReturn next)
        inductionHypothesis

theorem splitLines_eq_nil_iff {characters : List Char} :
    splitLines characters = [] ↔ characters = [] := by
  fun_cases splitLines characters <;> simp_all

@[simp]
theorem rejoined_nil : rejoined [] = [] := by
  simp [rejoined, splitLines]

/-- A line feed stays when something follows it. -/
theorem rejoined_feed (rest : List Char) :
    rejoined ('\n' :: rest) = if rest = [] then [] else '\n' :: rejoined rest := by
  rw [rejoined, splitLines]
  split
  next isEmpty => simp [isEmpty, splitLines]
  next nonempty =>
    rw [List.intercalate_cons_of_ne_nil (mt splitLines_eq_nil_iff.mp nonempty)]
    rfl

/-- The carriage return of an ending is dropped. -/
theorem rejoined_ending (rest : List Char) :
    rejoined ('\r' :: '\n' :: rest) = rejoined ('\n' :: rest) := by
  simp [rejoined, splitLines]

/-- Every other character stays. -/
theorem rejoined_other
    {first : Char}
    {rest : List Char}
    (noFeed : first ≠ '\n')
    (noEnding : first = '\r' → ∀ more, rest ≠ '\n' :: more) :
    rejoined (first :: rest) = first :: rejoined rest := by
  rw [rejoined, rejoined, splitLines]
  · cases found : splitLines rest with
    | nil => simp
    | cons line others =>
        cases others with
        | nil => simp
        | cons second others =>
            simp [List.intercalate_cons_of_ne_nil]
  · exact noFeed
  · exact fun more isReturn => noEnding isReturn more

theorem length_rejoined (characters : List Char) :
    (rejoined characters).length ≤ characters.length := by
  induction characters using induction_on_endings with
  | empty => simp
  | feed rest inductionHypothesis =>
      rw [rejoined_feed]
      split <;> simp [inductionHypothesis]
  | ending rest inductionHypothesis =>
      rw [rejoined_ending, rejoined_feed]
      split
      · simp
      · simp only [List.length_cons]
        omega
  | other first rest noFeed noEnding inductionHypothesis =>
      simp [rejoined_other noFeed noEnding, inductionHypothesis]

theorem rejoined_eq_nil_iff {characters : List Char} :
    rejoined characters = [] ↔
      characters = [] ∨ characters = ['\n'] ∨ characters = ['\r', '\n'] := by
  induction characters using induction_on_endings with
  | empty => simp
  | feed rest => simp [rejoined_feed]
  | ending rest => simp [rejoined_ending, rejoined_feed]
  | other first rest noFeed noEnding =>
      rw [rejoined_other noFeed noEnding]
      simpa [noFeed] using fun isReturn => noEnding isReturn []

/-! ## The end of the captured form -/

/-- A list of characters with an empty last line after another line. -/
def EndsInEmptyLine (characters : List Char) : Prop :=
  ['\n', '\n'] <:+ characters ∨ ['\n', '\r', '\n'] <:+ characters

theorem endsInEmptyLine_cons
    {first : Char}
    (noFeed : first ≠ '\n')
    (rest : List Char) :
    EndsInEmptyLine (first :: rest) ↔ EndsInEmptyLine rest := by
  simp [EndsInEmptyLine, List.suffix_cons_iff, noFeed.symm]

theorem endsInEmptyLine_feed (rest : List Char) :
    EndsInEmptyLine ('\n' :: rest) ↔
      rest = ['\n'] ∨ rest = ['\r', '\n'] ∨ EndsInEmptyLine rest := by
  simp only [EndsInEmptyLine, List.suffix_cons_iff, List.cons.injEq, true_and]
  constructor
  · rintro ((rfl | later) | rfl | later) <;> simp [*]
  · rintro (rfl | rfl | later | later) <;> simp [*]

/-- The captured form ends in a line feed exactly when the last line is an empty
one after another line. -/
theorem getLast_rejoined {characters : List Char} :
    (rejoined characters).getLast? = some '\n' ↔ EndsInEmptyLine characters := by
  have afterFeed : ∀ rest,
      ((rejoined rest).getLast? = some '\n' ↔ EndsInEmptyLine rest) →
      ((rejoined ('\n' :: rest)).getLast? = some '\n' ↔
        EndsInEmptyLine ('\n' :: rest)) := by
    intro rest known
    rw [rejoined_feed, endsInEmptyLine_feed]
    split
    next isEmpty => simp [isEmpty, EndsInEmptyLine]
    next nonempty =>
      rw [List.getLast?_cons, ← known]
      have single := @rejoined_eq_nil_iff rest
      cases found : (rejoined rest).getLast? with
      | none =>
          rw [List.getLast?_eq_none_iff.mp found] at single
          simp_all
      | some last =>
          have kept : rejoined rest ≠ [] := by
            intro isEmpty
            simp [isEmpty] at found
          simp_all
  induction characters using induction_on_endings with
  | empty => simp [EndsInEmptyLine]
  | feed rest inductionHypothesis => exact afterFeed rest inductionHypothesis
  | ending rest inductionHypothesis =>
      rw [rejoined_ending, endsInEmptyLine_cons (by decide)]
      exact afterFeed rest inductionHypothesis
  | other first rest noFeed noEnding inductionHypothesis =>
      have known : (rejoined rest).getLast? = some '\n' ↔ EndsInEmptyLine rest :=
        inductionHypothesis
      rw [rejoined_other noFeed noEnding, endsInEmptyLine_cons noFeed, ← known,
        List.getLast?_cons]
      cases (rejoined rest).getLast? <;> simp [noFeed]

/-! ## Endings in the captured form -/

/-- A list of characters with two carriage returns before the line feed of a line
that is not the last. -/
def HoldsReturnedLine (characters : List Char) : Prop :=
  ∃ before after, after ≠ [] ∧ characters = before ++ '\r' :: '\r' :: '\n' :: after

theorem not_holdsReturnedLine_nil : ¬ HoldsReturnedLine [] := by
  simp [HoldsReturnedLine]

theorem holdsReturnedLine_cons
    (first : Char)
    (rest : List Char) :
    HoldsReturnedLine (first :: rest) ↔
      (first = '\r' ∧ ∃ after, after ≠ [] ∧ rest = '\r' :: '\n' :: after) ∨
        HoldsReturnedLine rest := by
  constructor
  · rintro ⟨before, after, nonempty, whole⟩
    cases before with
    | nil =>
        obtain ⟨rfl, rfl⟩ := List.cons.inj whole
        exact .inl ⟨rfl, after, nonempty, rfl⟩
    | cons head tail =>
        exact .inr ⟨tail, after, nonempty, (List.cons.inj whole).2⟩
  · rintro (⟨rfl, after, nonempty, rfl⟩ | ⟨before, after, nonempty, rfl⟩)
    · exact ⟨[], after, nonempty, rfl⟩
    · exact ⟨first :: before, after, nonempty, rfl⟩

/-- The captured form of what does not start with a line feed starts with one when
an ending with a carriage return starts it. -/
theorem feed_prefix_rejoined
    {characters : List Char}
    (noFeed : ∀ more, characters ≠ '\n' :: more) :
    ['\n'] <+: rejoined characters ↔
      ∃ after, after ≠ [] ∧ characters = '\r' :: '\n' :: after := by
  cases characters using induction_on_endings with
  | empty => simp
  | feed rest => exact absurd rfl (noFeed rest)
  | ending rest =>
      rw [rejoined_ending, rejoined_feed]
      split <;> simp [*]
  | other first rest notFeed noEnding =>
      rw [rejoined_other notFeed noEnding]
      constructor
      · simp [notFeed.symm]
      · rintro ⟨after, _, whole⟩
        obtain ⟨isReturn, next⟩ := List.cons.inj whole
        exact absurd next (noEnding isReturn after)

/-- An ending is left in the captured form exactly where a carriage return stood
before it. -/
theorem ending_infix_rejoined {characters : List Char} :
    ['\r', '\n'] <:+: rejoined characters ↔ HoldsReturnedLine characters := by
  have afterFeed : ∀ rest,
      (['\r', '\n'] <:+: rejoined rest ↔ HoldsReturnedLine rest) →
      (['\r', '\n'] <:+: rejoined ('\n' :: rest) ↔ HoldsReturnedLine rest) := by
    intro rest known
    rw [rejoined_feed]
    split
    next isEmpty => simp [isEmpty, not_holdsReturnedLine_nil]
    next nonempty => simp [List.infix_cons_iff, known]
  induction characters using induction_on_endings with
  | empty => simp [not_holdsReturnedLine_nil]
  | feed rest inductionHypothesis =>
      rw [afterFeed rest inductionHypothesis, holdsReturnedLine_cons]
      simp
  | ending rest inductionHypothesis =>
      rw [rejoined_ending, afterFeed rest inductionHypothesis,
        holdsReturnedLine_cons, holdsReturnedLine_cons]
      simp
  | other first rest noFeed noEnding inductionHypothesis =>
      have known : ['\r', '\n'] <:+: rejoined rest ↔ HoldsReturnedLine rest :=
        inductionHypothesis
      rw [rejoined_other noFeed noEnding, holdsReturnedLine_cons,
        List.infix_cons_iff, known, List.cons_prefix_cons, eq_comm]
      refine or_congr (and_congr_right fun isReturn => ?_) Iff.rfl
      exact feed_prefix_rejoined (noEnding isReturn)

/-- A text is its own captured form when it neither ends in a line feed nor holds
an ending with a carriage return. -/
theorem rejoined_eq_self_iff {characters : List Char} :
    rejoined characters = characters ↔
      characters.getLast? ≠ some '\n' ∧ ¬ ['\r', '\n'] <:+: characters := by
  induction characters using induction_on_endings with
  | empty => simp
  | feed rest inductionHypothesis =>
      have known : rejoined rest = rest ↔
          rest.getLast? ≠ some '\n' ∧ ¬ ['\r', '\n'] <:+: rest :=
        inductionHypothesis
      rw [rejoined_feed]
      split
      next isEmpty => simp [isEmpty]
      next nonempty =>
        simp [known, List.infix_cons_iff, List.getLast?_cons_of_ne_nil nonempty]
  | ending rest =>
      have shorter := length_rejoined ('\n' :: rest)
      constructor
      · intro same
        rw [rejoined_ending] at same
        simp only [same, List.length_cons] at shorter
        omega
      · rintro ⟨_, noEnding⟩
        exact absurd ⟨[], rest, rfl⟩ noEnding
  | other first rest noFeed noEnding inductionHypothesis =>
      have known : rejoined rest = rest ↔
          rest.getLast? ≠ some '\n' ∧ ¬ ['\r', '\n'] <:+: rest :=
        inductionHypothesis
      have notHere : ¬ ['\r', '\n'] <+: first :: rest := by
        rintro ⟨more, whole⟩
        obtain ⟨isReturn, next⟩ := List.cons.inj whole
        exact noEnding isReturn.symm more next.symm
      rw [rejoined_other noFeed noEnding, List.infix_cons_iff]
      cases rest with
      | nil => simp [noFeed, notHere]
      | cons second others =>
          simp only [List.cons.injEq, true_and, known, notHere, false_or,
            List.getLast?_cons_cons]

end Text

theorem toList_capturedOutput (raw : String) :
    (capturedOutput raw).toList = Text.rejoined raw.toList := by
  rw [capturedOutput, Text.joinLines, String.toList_intercalate, Text.lines,
    Text.rejoined, List.map_map]
  simp [Function.comp_def]

/-- The captured form of an output ends in a line feed exactly when the output has
an empty last line after another line. It is final, its own captured form,
exactly when the output has no such last line and no ending but the last has two
carriage returns in front of its line feed. -/
theorem capturedOutput_final_iff (raw : String) :
    ((capturedOutput raw).toList.getLast? = some '\n' ↔
      Text.EndsInEmptyLine raw.toList) ∧
    (capturedOutput (capturedOutput raw) = capturedOutput raw ↔
      ¬ Text.EndsInEmptyLine raw.toList ∧
        ¬ Text.HoldsReturnedLine raw.toList) := by
  constructor
  · rw [toList_capturedOutput]
    exact Text.getLast_rejoined
  · rw [← String.toList_inj, toList_capturedOutput, toList_capturedOutput,
      Text.rejoined_eq_self_iff, Text.ending_infix_rejoined, ne_eq,
      Text.getLast_rejoined]

example : capturedOutput "a\n\n" = "a\n" := by
  decide

end NotePress
