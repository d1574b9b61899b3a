import NotePress.Proofs.Document.PlainText
import NotePress.Proofs.Document.Wording
import NotePress.Proofs.Markup.Refilling

/-!
# Written quotations

A quotation is written between quotation marks, with its author after two dashes.
What stands between the marks is kept as it is, whatever markup it looks like, and
then cut at its last two dashes. So a quotation is read back from its written form
(`Quotation.ofSource_written`), where the text may have dashes of its own as long
as an author follows them.
-/

namespace NotePress
namespace Document
namespace Quotation

open Markup Reading

variable {quotation : Quotation}

/-! ## The last dashes -/

theorem splitLastDashes_of_not_infix
    {text : List Char}
    (noDashes : ¬ ['-', '-'] <:+: text) :
    splitLastDashes text = none := by
  induction text with
  | nil => rfl
  | cons first others inductionHypothesis =>
      have later : ¬ ['-', '-'] <:+: others := fun dashes =>
        noDashes (dashes.trans (List.suffix_cons first others).isInfix)
      unfold splitLastDashes
      simp only [inductionHypothesis later]
      split
      · exact absurd (List.prefix_append ['-', '-'] _).isInfix noDashes
      · rfl

/-- Two dashes are the last ones when what follows them neither holds two dashes
nor goes on their run. -/
theorem splitLastDashes_append
    (noDash : after.head? ≠ some '-')
    (noDashes : ¬ ['-', '-'] <:+: after)
    (before : List Char) :
    splitLastDashes (before ++ '-' :: '-' :: after) = some (before, after) := by
  induction before with
  | nil =>
      have alone : splitLastDashes ('-' :: after) = none := by
        apply splitLastDashes_of_not_infix
        rw [List.infix_cons_iff, not_or]
        refine ⟨fun dashes => ?_, noDashes⟩
        obtain ⟨others, rfl⟩ := (List.prefix_cons_inj '-').mp dashes
        exact noDash rfl
      rw [List.nil_append]
      unfold splitLastDashes
      simp only [alone]
  | cons first others inductionHypothesis =>
      rw [List.cons_append]
      unfold splitLastDashes
      rw [inductionHypothesis]

/-! ## The written form -/

/-- A quotation as it stands between its marks. -/
def raw (quotation : Quotation) : String :=
  match quotation.author with
  | none => quotation.text
  | some author => quotation.text ++ " --" ++ author

/-- A quotation as it is written. -/
def written (quotation : Quotation) : String :=
  "\"" ++ quotation.raw ++ "\""

/-- Text of one line without quotation marks. -/
structure IsQuotable (text : String) : Prop where
  noMark : '"' ∉ text.toList
  noFeed : '\n' ∉ text.toList

/-- A name that can stand after the dashes of a quotation. -/
structure IsAuthor (author : String) : Prop where
  nonempty : author ≠ ""
  quotable : IsQuotable author
  trimmed : Text.trim author = author
  noDash : author.toList.head? ≠ some '-'
  noDashes : ¬ "--".toList <:+: author.toList

/-- What a quotation has to be for its written form to hold it. -/
structure IsWritable (quotation : Quotation) : Prop where
  quotable : IsQuotable quotation.text
  starts :
    ∀ first, quotation.text.toList.head? = some first →
      first ∉ [' ', '\t', '\r']
  finish : Text.EndsVisibly quotation.text
  noDashes :
    quotation.author = none → ¬ "--".toList <:+: quotation.text.toList
  authored : ∀ author, quotation.author = some author → IsAuthor author

theorem toList_raw
    {author : String}
    (isAuthor : quotation.author = some author) :
    quotation.raw.toList =
      quotation.text.toList ++ [' '] ++ '-' :: '-' :: author.toList := by
  rw [raw, isAuthor]
  simp

/-! ## Reading what stands between the marks -/

theorem not_isEdge_of_visible
    (noMark : character ≠ '"')
    (visible : Text.isBlank character = false) :
    isEdge character = false := by
  rw [← Bool.not_eq_true]
  intro edge
  simp only [isEdge, Bool.or_eq_true, beq_iff_eq] at edge
  rcases edge with (((rfl | rfl) | rfl) | rfl) | isMark
  · cases visible
  · cases visible
  · cases visible
  · cases visible
  · exact noMark isMark

/-- Nothing is dropped at the end of a quotable text that ends visibly. -/
theorem IsQuotable.dropTrailing_eq
    {text : String}
    (quotable : IsQuotable text)
    (finish : Text.EndsVisibly text) :
    Text.dropTrailing isEdge text.toList = text.toList := by
  refine Text.dropTrailing_eq_self_of_last fun last isLast => ?_
  refine not_isEdge_of_visible ?_ (finish last isLast)
  rintro rfl
  exact quotable.noMark (List.mem_of_getLast? isLast)

/-- An author is the end of a text of which nothing is dropped there. -/
theorem IsAuthor.dropTrailing_eq
    {author : String}
    (isAuthor : IsAuthor author)
    (before : List Char) :
    Text.dropTrailing isEdge (before ++ author.toList) =
      before ++ author.toList := by
  have finish : Text.EndsVisibly author := by
    rw [← isAuthor.trimmed]
    exact Text.endsVisibly_trim author
  have nonempty : author.toList ≠ [] :=
    mt String.toList_eq_nil_iff.mp isAuthor.nonempty
  refine Text.dropTrailing_eq_self_of_last fun last isLast => ?_
  rw [List.getLast?_append_of_ne_nil _ nonempty] at isLast
  refine not_isEdge_of_visible ?_ (finish last isLast)
  rintro rfl
  exact isAuthor.quotable.noMark (List.mem_of_getLast? isLast)

namespace IsWritable

/-- Nothing is dropped at the start of a text. -/
theorem dropWhile_text
    (writable : quotation.IsWritable)
    (nonempty : quotation.text.toList ≠ [])
    (more : List Char) :
    (quotation.text.toList ++ more).dropWhile isEdge =
      quotation.text.toList ++ more := by
  obtain ⟨noMark, noFeed⟩ := writable.quotable
  have starts := writable.starts
  obtain ⟨first, others, whole⟩ := List.exists_cons_of_ne_nil nonempty
  rw [whole] at noMark noFeed starts
  have noEdge : isEdge first = false := by
    have noBlank := starts first rfl
    simp only [List.mem_cons, not_or] at noBlank noMark noFeed
    simp [isEdge, noBlank, Ne.symm noMark.1, Ne.symm noFeed.1]
  rw [whole, List.cons_append, List.dropWhile_cons_of_neg (by simp [noEdge])]

/-- Before the dashes stands the text, and a blank unless the text is empty. -/
theorem exists_dropEnds_raw
    {author : String}
    (writable : quotation.IsWritable)
    (isAuthor : quotation.author = some author) :
    ∃ before,
      Text.dropEnds isEdge quotation.raw.toList =
          before ++ '-' :: '-' :: author.toList ∧
        Text.dropTrailing Text.isBlank before = quotation.text.toList := by
  have kept (before : List Char) :
      Text.dropTrailing isEdge (before ++ '-' :: '-' :: author.toList) =
        before ++ '-' :: '-' :: author.toList := by
    have last := (writable.authored author isAuthor).dropTrailing_eq
      (before ++ ['-', '-'])
    rwa [List.append_assoc] at last
  rw [toList_raw isAuthor, Text.dropEnds]
  by_cases empty : quotation.text.toList = []
  · -- The blank before the dashes is at the edge, and dropped.
    refine ⟨[], ?_, empty.symm⟩
    rw [empty]
    exact kept []
  · refine ⟨quotation.text.toList ++ [' '], ?_, ?_⟩
    · rw [List.append_assoc, writable.dropWhile_text empty, ← List.append_assoc,
        kept]
    · rw [Text.dropTrailing_append_of_all _ (List.forall_mem_singleton.mpr rfl)]
      exact Text.dropTrailing_eq_self_of_last writable.finish

theorem ofRaw_raw (writable : quotation.IsWritable) :
    ofRaw quotation.raw = quotation := by
  cases isAuthor : quotation.author with
  | none =>
      have kept : Text.dropEnds isEdge quotation.raw.toList =
          quotation.text.toList := by
        have last := writable.quotable.dropTrailing_eq writable.finish
        rw [raw, isAuthor, Text.dropEnds]
        by_cases empty : quotation.text.toList = []
        · rw [empty]
          rfl
        · have start := writable.dropWhile_text empty []
          rw [List.append_nil] at start
          rw [start, last]
      rw [ofRaw, kept,
        splitLastDashes_of_not_infix (writable.noDashes isAuthor)]
      simp only [String.ofList_toList, ← isAuthor]
  | some author =>
      obtain ⟨before, kept, isText⟩ := writable.exists_dropEnds_raw isAuthor
      have proper := writable.authored author isAuthor
      have nonempty : author.toList ≠ [] :=
        mt String.toList_eq_nil_iff.mp proper.nonempty
      have trimmed : Text.dropEnds Text.isBlank author.toList =
          author.toList := by
        rw [← Text.toList_trim, proper.trimmed]
      rw [ofRaw, kept, splitLastDashes_append proper.noDash proper.noDashes]
      simp only [isText, trimmed, List.isEmpty_eq_false_iff.mpr nonempty,
        String.ofList_toList, ← isAuthor]
      rfl

theorem quotable_raw (writable : quotation.IsWritable) :
    IsQuotable quotation.raw := by
  cases isAuthor : quotation.author with
  | none =>
      rw [raw, isAuthor]
      exact writable.quotable
  | some author =>
      have own := writable.quotable
      have others := (writable.authored author isAuthor).quotable
      constructor
      · rw [toList_raw isAuthor]
        simp [own.noMark, others.noMark]
      · rw [toList_raw isAuthor]
        simp [own.noFeed, others.noFeed]

end IsWritable

/-! ## Parsing the written form -/

/-- A quotation mark. -/
def quoteToken : Token :=
  ⟨.quote, "\""⟩

theorem lex_written (quotation : Quotation) :
    lex quotation.written =
      quoteToken :: (lex quotation.raw ++ [quoteToken]) := by
  have isMark : Lexer.punctuation? '"' = some .quote := rfl
  have characters : quotation.written.toList =
      '"' :: (quotation.raw.toList ++ ['"']) := by
    rw [written]
    simp
  rw [lex, characters, Lexer.tokens_punctuation isMark,
    Lexer.tokens_append_of_punctuation isMark _ _ fun _ => by decide,
    Lexer.tokens, lex]
  rfl

/-- A quotation is read back from its written form, with all that its text and
its author hold. -/
theorem ofSource_written (writable : quotation.IsWritable) :
    ofSource quotation.written = .ok [[.quotation quotation]] := by
  obtain ⟨noMark, noFeed⟩ := writable.quotable_raw
  have inside : ∀ token ∈ lex quotation.raw,
      token.kind ≠ .newline ∧ token.kind ≠ .quote := fun token member =>
    ⟨ne_newline_of_mem_lex noFeed member, ne_kind_of_mem_lex rfl noMark member⟩
  have divided := Inline.splitAtClosing_of_all inside (by decide)
    (show quoteToken.kind = .quote from rfl) []
  have atom : Inline.Atom quoteToken (lex quotation.raw ++ [quoteToken])
      (.node .quotation
        (.ofDelimiter quoteToken :: (lex quotation.raw).map .ofToken ++
          [.ofDelimiter quoteToken]))
      .quote [] :=
    .span .quotation divided
  rw [ofSource_of_atom (lex_written quotation) (by decide) rfl atom, blockOf,
    content_enclosed .quotation (allLexed_lex quotation.raw), join_text_lex,
    writable.ofRaw_raw]
  rfl

/-- A text with markup and dashes of its own before those of the author, and one
without an author. -/
theorem ofSource_written_markup :
    ofSource "\"*a --- #B\x7bc --@d -e\"" =
        .ok [[.quotation ⟨"*a --- #B\x7bc", some "@d -e"⟩]] ∧
      ofSource "\"- a` |\"" = .ok [[.quotation ⟨"- a` |", none⟩]] := by
  have isAuthor : IsAuthor "@d -e" := by
    refine ⟨?_, ⟨?_, ?_⟩, ?_, ?_, ?_⟩ <;> decide +kernel
  have named : IsWritable ⟨"*a --- #B\x7bc", some "@d -e"⟩ := by
    refine ⟨⟨?_, ?_⟩, ?_, ?_, fun isNone => ?_, ?_⟩
    · decide +kernel
    · decide +kernel
    · rintro first ⟨⟩
      decide
    · rintro last ⟨⟩
      decide
    · cases isNone
    · rintro author ⟨⟩
      exact isAuthor
  have unnamed : IsWritable ⟨"- a` |", none⟩ := by
    refine ⟨⟨?_, ?_⟩, ?_, ?_, fun _ => ?_, fun _ isSome => ?_⟩
    · decide +kernel
    · decide +kernel
    · rintro first ⟨⟩
      decide
    · rintro last ⟨⟩
      decide
    · decide +kernel
    · cases isSome
  have namedText : written ⟨"*a --- #B\x7bc", some "@d -e"⟩ =
      "\"*a --- #B\x7bc --@d -e\"" := by
    decide +kernel
  have unnamedText : written ⟨"- a` |", none⟩ = "\"- a` |\"" := by
    decide +kernel
  rw [← namedText, ← unnamedText]
  exact ⟨ofSource_written named, ofSource_written unnamed⟩

end Quotation
end Document
end NotePress
