import NotePress.Proofs.Document.PlainText
import NotePress.Proofs.Document.Styles
import NotePress.Proofs.Markup.Lookahead
import NotePress.Proofs.Text.Trimming

/-!
# Nested styles are read as they are written

A line of texts and styled spans, written with the delimiter of each style around
its spans, is read as these texts and spans again, when every span starts where a
span may start and none stands inside another one of its style
(`ofSource_writtenAll`).
-/

namespace NotePress
namespace Document

open Markup (Element Token)

/-! ## Writing spans -/

mutual

/-- The source of a text or a styled span: the delimiter of its style stands
around what is in it. -/
def written : Block → List Char
  | .text text => text.toList
  | .styled style children =>
      Markup.Lexer.sign style.mark ::
        (writtenAll children ++ [Markup.Lexer.sign style.mark])
  | _ => []

/-- The source of texts and styled spans. -/
def writtenAll : List Block → List Char
  | [] => []
  | first :: others => written first ++ writtenAll others

end

/-- Whether the first of some blocks is a text that starts with a space. -/
def startsWithSpace : List Block → Bool
  | .text text :: _ => text.toList.head? == some ' '
  | _ => false

/-- Whether the last of some blocks is a text that ends with a space. -/
def endsWithSpace (blocks : List Block) : Bool :=
  match blocks.getLast? with
  | some (.text text) => text.toList.getLast? == some ' '
  | _ => false

/-- Whether a span of a style may come after a block: after none, after a text
that ends with a space, and after a span of another style. -/
def spanMayFollow (style : Style) : Option Block → Bool
  | none => true
  | some (.text text) => text.toList.getLast? == some ' '
  | some (.styled other _) => other != style
  | some _ => false

/-- Whether a text may come after a block: after none, and after a span. -/
def textMayFollow : Option Block → Bool
  | some (.text _) => false
  | _ => true

/-- Words and spaces. -/
def IsProse (text : String) : Prop :=
  ∀ character ∈ text.toList,
    Markup.Lexer.isPlain character = true ∨ character = ' '

/-- Texts and styled spans that are written apart: those that follow a block in a
list inside spans of some styles. -/
inductive AreSpans : List Style → Option Block → List Block → Prop
  | nil : AreSpans outer before []
  | text :
      text ≠ "" →
      IsProse text →
      textMayFollow before = true →
      AreSpans outer (some (.text text)) others →
      AreSpans outer before (.text text :: others)
  | styled :
      style ∉ outer →
      spanMayFollow style before = true →
      children ≠ [] →
      startsWithSpace children = false →
      AreSpans (style :: outer) none children →
      AreSpans outer (some (.styled style children)) others →
      AreSpans outer before (.styled style children :: others)

/-- Texts and styled spans that make up a line and are written apart. -/
structure AreStyledLine (blocks : List Block) : Prop where
  nonempty : blocks ≠ []
  spans : AreSpans [] none blocks
  start : startsWithSpace blocks = false
  finish : endsWithSpace blocks = false
  unnumbered :
    ∀ text others, blocks = .text text :: others →
      Markup.Line.isOrderedMarker (text.toList.takeWhile (· != ' ')) = false

/-! ## The tokens of written spans -/

mutual

/-- The tokens of a written text or span. -/
def tokensOf : Block → List Token
  | .text text => Markup.Lexer.tokens text.toList
  | .styled style children =>
      style.delimiter :: (tokensOfAll children ++ [style.delimiter])
  | _ => []

/-- The tokens of written texts and spans. -/
def tokensOfAll : List Block → List Token
  | [] => []
  | first :: others => tokensOf first ++ tokensOfAll others

end

/-- A word goes on up to the next space. -/
theorem takeWhile_isPlain
    {characters : List Char}
    (prose :
      ∀ character ∈ characters,
        Markup.Lexer.isPlain character = true ∨ character = ' ') :
    characters.takeWhile Markup.Lexer.isPlain =
      characters.takeWhile (· != ' ') := by
  induction characters with
  | nil => rfl
  | cons first rest inductionHypothesis =>
      have later := inductionHypothesis fun character member =>
        prose character (List.mem_cons_of_mem first member)
      rcases prose first List.mem_cons_self with plain | rfl
      · have noSpace : (first != ' ') = true := by
          rw [bne_iff_ne]
          rintro rfl
          cases plain
        rw [List.takeWhile_cons_of_pos plain, List.takeWhile_cons,
          if_pos noSpace, later]
      · rfl

namespace IsProse

theorem isOrdinary (prose : IsProse text) :
    ∀ character ∈ text.toList, Markup.Lexer.isOrdinary character = true := by
  intro character member
  rcases prose character member with plain | rfl
  · exact Markup.Lexer.isOrdinary_of_isPlain plain
  · rfl

theorem at_notMem (prose : IsProse text) : '@' ∉ text.toList := fun member =>
  absurd (prose.isOrdinary '@' member) (by decide)

theorem areWords (prose : IsProse text) :
    Markup.AreWords (Markup.Lexer.tokens text.toList) :=
  Markup.Lexer.areWords_tokens prose.isOrdinary

theorem not_isBlank
    (prose : IsProse text)
    (member : character ∈ text.toList)
    (noSpace : character ≠ ' ') :
    Text.isBlank character = false := by
  have plain := (prose character member).resolve_right noSpace
  simp only [Markup.Lexer.isPlain, Bool.not_eq_true',
    Bool.or_eq_false_iff] at plain
  exact plain.1.1.1

/-- A text that does not start with a space starts with its first word. -/
theorem tokens_of_start
    (prose : IsProse text)
    (nonempty : text ≠ "")
    (start : startsWithSpace (.text text :: blocks) = false) :
    ∃ others,
      Markup.Lexer.tokens text.toList =
        ⟨.text, String.ofList (text.toList.takeWhile (· != ' '))⟩ ::
          others := by
  obtain ⟨first, rest, characters⟩ :
      ∃ first rest, text.toList = first :: rest :=
    List.exists_cons_of_ne_nil fun empty =>
      nonempty (String.toList_eq_nil_iff.mp empty)
  have noSpace : first ≠ ' ' := by
    rintro rfl
    simp [startsWithSpace, characters] at start
  have plain : Markup.Lexer.isPlain first = true := by
    apply (prose first _).resolve_right noSpace
    rw [characters]
    exact List.mem_cons_self
  rw [← takeWhile_isPlain prose, characters,
    List.takeWhile_cons_of_pos plain, Markup.Lexer.tokens,
    Markup.Lexer.nextToken_of_isPlain plain]
  exact ⟨_, rfl⟩

/-- After a text that ends with a space stands a blank. -/
theorem lastKindOf
    (prose : IsProse text)
    (isLast : text.toList.getLast? = some ' ')
    (previous : Markup.Kind) :
    Markup.lastKindOf previous (Markup.Lexer.tokens text.toList) =
      .whitespace := by
  refine Markup.Lexer.lastKindOf_tokens_of_isSpacing ?_ isLast rfl previous
  intro character member
  rcases prose character member with plain | rfl
  · exact .inl plain
  · exact .inr rfl

end IsProse

namespace AreSpans

/-- There are no mentions in written spans. -/
theorem at_notMem (spans : AreSpans outer before blocks) :
    '@' ∉ writtenAll blocks := by
  induction spans with
  | nil => exact List.not_mem_nil
  | text _ words _ _ inductionHypothesis =>
      rw [writtenAll, written, List.mem_append, not_or]
      exact ⟨words.at_notMem, inductionHypothesis⟩
  | @styled outer style before children others _ _ _ _ _ _ inChildren
      inOthers =>
      have noMark : '@' ≠ Markup.Lexer.sign style.mark := by
        cases style <;> decide
      simp [writtenAll, written, inChildren, inOthers, noMark]

/-- Written spans are lexed into the tokens of the texts and the delimiters. -/
theorem tokens_writtenAll (spans : AreSpans outer before blocks) :
    Markup.Lexer.tokens (writtenAll blocks) = tokensOfAll blocks := by
  induction spans with
  | nil => rw [writtenAll, tokensOfAll, Markup.Lexer.tokens]
  | @text text outer before others nonempty words apart spans
      inductionHypothesis =>
      rw [writtenAll, written, tokensOfAll, tokensOf, ← inductionHypothesis]
      cases spans with
      | nil => rw [writtenAll, List.append_nil, Markup.Lexer.tokens,
          List.append_nil]
      | text _ _ apart => cases apart
      | @styled _ style _ children others =>
          -- The text ends where the delimiter of the next span stands.
          have front := Markup.Lexer.tokens_append_of_punctuation
            style.punctuation_mark
          rw [writtenAll, written, List.cons_append,
            front text.toList _ fun member => absurd member words.at_notMem,
            Markup.Lexer.tokens_punctuation style.punctuation_mark]
  | @styled outer style before children others _ _ _ _ inside _ inChildren
      inOthers =>
      have opening := Markup.Lexer.tokens_punctuation style.punctuation_mark
        (writtenAll children ++ Markup.Lexer.sign style.mark ::
          writtenAll others)
      have closing := Markup.Lexer.tokens_append_of_punctuation
        style.punctuation_mark (writtenAll children) (writtenAll others)
        fun member => absurd member inside.at_notMem
      rw [closing, inChildren, inOthers] at opening
      simpa [writtenAll, written, tokensOfAll, tokensOf, Style.delimiter]
        using opening

/-- Written spans stand on one line. -/
theorem onLine (spans : AreSpans outer before blocks) :
    Markup.OnLine (tokensOfAll blocks) := by
  induction spans with
  | nil =>
      rw [tokensOfAll]
      exact List.forall_mem_nil _
  | text _ words _ _ inductionHypothesis =>
      rw [tokensOfAll, tokensOf]
      exact List.forall_mem_append.mpr
        ⟨words.areWords.onLine, inductionHypothesis⟩
  | @styled _ style _ children others _ _ _ _ _ _ inChildren inOthers =>
      have visible := style.mark_visible.1
      rw [tokensOfAll, tokensOf]
      refine List.forall_mem_append.mpr ⟨List.forall_mem_cons.mpr
        ⟨visible, List.forall_mem_append.mpr ⟨inChildren, ?_⟩⟩, inOthers⟩
      exact List.forall_mem_singleton.mpr visible

end AreSpans

/-! ## The elements of written spans -/

mutual

/-- The elements that a text or a styled span is read as. -/
def elementsOf : Block → List Element
  | .text text => (Markup.Lexer.tokens text.toList).map .ofToken
  | .styled style children =>
      [.node style.spanKind
        (.ofDelimiter style.delimiter :: elementsOfAll children ++
          [.ofDelimiter style.delimiter])]
  | _ => []

/-- The elements that texts and styled spans are read as. -/
def elementsOfAll : List Block → List Element
  | [] => []
  | first :: others => elementsOf first ++ elementsOfAll others

end

/-- What ends the spans of a list: the delimiter of the span that they stand in,
or the end of the line. -/
def stopsIn : List Style → Markup.Kind → Bool
  | [] => fun _ => false
  | style :: _ => (· == style.mark)

/-- The kind of the token before what follows a block. -/
def kindAfter (outer : List Style) : Option Block → Markup.Kind
  | some (.text text) =>
      Markup.lastKindOf .newline (Markup.Lexer.tokens text.toList)
  | some (.styled style _) => style.mark
  | _ => outer.head?.elim .newline Style.mark

theorem not_stopsIn_of_isWord
    (outer : List Style)
    (kind : Markup.Kind)
    (isWord : kind.isWord = true) :
    stopsIn outer kind = false := by
  cases outer with
  | nil => rfl
  | cons style others =>
      cases style <;> cases kind <;> first | rfl | cases isWord

theorem not_stopsIn_of_notMem (apart : style ∉ outer) :
    stopsIn outer style.mark = false := by
  cases outer with
  | nil => rfl
  | cons other others =>
      rw [stopsIn, beq_eq_false_iff_ne]
      rintro same
      exact apart (Style.mark_injective same ▸ List.mem_cons_self)

namespace AreSpans

/-- A delimiter may open a span after what the span may follow. -/
theorem opensAfter_kindAfter
    (prose : ∀ text, before = some (.text text) → IsProse text)
    (apart : style ∉ outer)
    (follows : spanMayFollow style before = true) :
    Markup.Inline.opensAfter style.mark (kindAfter outer before) = true := by
  cases before with
  | none =>
      cases outer with
      | nil => cases style <;> rfl
      | cons other others =>
          have different : other ≠ style := by
            rintro rfl
            exact apart List.mem_cons_self
          cases style <;> cases other <;>
            first | rfl | exact absurd rfl different
  | some block =>
      cases block with
      | text text =>
          have isLast : text.toList.getLast? = some ' ' := eq_of_beq follows
          rw [kindAfter, (prose text rfl).lastKindOf isLast]
          cases style <;> rfl
      | styled other children =>
          have different : other ≠ style := by simpa [spanMayFollow] using follows
          cases style <;> cases other <;>
            first | rfl | exact absurd rfl different
      | _ => cases follows

/-- What is in a span starts right after its delimiter. -/
theorem startsVisibly_tokensOfAll
    (spans : AreSpans outer before blocks)
    (nonempty : blocks ≠ [])
    (start : startsWithSpace blocks = false)
    (following : List Token) :
    Markup.Inline.startsVisibly (tokensOfAll blocks ++ following) = true := by
  cases spans with
  | nil => exact absurd rfl nonempty
  | text hasText prose =>
      obtain ⟨others, tokens⟩ := prose.tokens_of_start hasText start
      rw [tokensOfAll, tokensOf, tokens]
      rfl
  | @styled _ style =>
      rw [tokensOfAll, tokensOf]
      cases style <;> rfl

/-- Written spans are read as the elements they stand for, up to what ends the
list that they are in. -/
theorem derives
    (spans : AreSpans outer before blocks)
    (prose : ∀ text, before = some (.text text) → IsProse text)
    (stopped : Markup.Inline.stopsAt (stopsIn outer) following = true) :
    ∃ last, Markup.Inline.Derives (stopsIn outer) (kindAfter outer before)
      (tokensOfAll blocks ++ following) (elementsOfAll blocks) last
      following := by
  induction spans generalizing following with
  | nil =>
      rw [tokensOfAll, elementsOfAll]
      exact ⟨_, .done stopped⟩
  | @text text before outer others nonempty words _ _ inductionHypothesis =>
      obtain ⟨last, later⟩ := inductionHypothesis
        (by rintro _ ⟨⟩; exact words) stopped
      refine ⟨last, ?_⟩
      rw [tokensOfAll, tokensOf, elementsOfAll, elementsOf, List.append_assoc]
      apply Markup.Inline.Derives.words words.areWords
        (not_stopsIn_of_isWord outer)
      have same : Markup.lastKindOf (kindAfter outer before)
          (Markup.Lexer.tokens text.toList) =
          kindAfter outer (some (.text text)) := by
        rw [kindAfter, Markup.lastKindOf, Markup.lastKindOf]
        cases isLast : (Markup.Lexer.tokens text.toList).getLast? with
        | some last => rfl
        | none =>
            rw [List.getLast?_eq_none_iff, Markup.Lexer.tokens_eq_nil_iff,
              String.toList_eq_nil_iff] at isLast
            exact absurd isLast nonempty
      rw [same]
      exact later
  | @styled outer style before children others apart follows nonempty start
      inside _ inChildren inOthers =>
      have closed : Markup.Inline.stopsAt (stopsIn (style :: outer))
          (style.delimiter :: (tokensOfAll others ++ following)) = true := by
        simp [Markup.Inline.stopsAt, stopsIn]
      obtain ⟨between, content⟩ := inChildren (by rintro _ ⟨⟩) closed
      obtain ⟨last, later⟩ := inOthers (by rintro _ ⟨⟩) stopped
      refine ⟨last, ?_⟩
      have goesOn : Markup.Inline.stopsAt (stopsIn outer)
          (style.delimiter :: (tokensOfAll children ++
            style.delimiter :: (tokensOfAll others ++ following))) = false := by
        rw [Markup.Inline.stopsAt, Style.kind_delimiter,
          not_stopsIn_of_notMem apart, Bool.or_false, beq_eq_false_iff_ne]
        exact style.mark_visible.1
      have opened : Markup.Inline.opens (kindAfter outer before)
          style.delimiter.kind (tokensOfAll children ++
            style.delimiter :: (tokensOfAll others ++ following)) = true := by
        have partner : (Markup.Inline.splitAtClosing style.mark
            (tokensOfAll children ++ style.delimiter ::
              (tokensOfAll others ++ following))).isSome = true := by
          rw [Markup.Inline.isSome_splitAtClosing, List.map_append,
            Markup.restOfLine_append_of_notMem, List.map_cons,
            Style.kind_delimiter, Markup.restOfLine_cons style.mark_visible.1]
          · exact List.mem_append_right _ List.mem_cons_self
          · intro newline
            obtain ⟨token, member, isNewline⟩ := List.mem_map.mp newline
            exact inside.onLine token member isNewline
        rw [Markup.Inline.opens, Style.kind_delimiter,
          opensAfter_kindAfter prose apart follows,
          inside.startsVisibly_tokensOfAll nonempty start, partner]
        rfl
      have whole := Markup.Inline.Derives.closed goesOn style.style_mark opened
        content rfl later
      simpa [tokensOfAll, tokensOf, elementsOfAll, elementsOf] using whole

/-- The elements of written spans are read as the spans. -/
theorem blocksOf_elementsOfAll (spans : AreSpans outer before blocks) :
    Reading.blocksOf "" (elementsOfAll blocks) = .ok blocks := by
  induction spans with
  | nil =>
      rw [elementsOfAll, Reading.blocksOf]
      rfl
  | @text text before outer others nonempty prose apart spans
      inductionHypothesis =>
      have whole : String.join
          ((Markup.Lexer.tokens text.toList).map Token.text) = text :=
        Markup.join_text_lex text
      rw [elementsOfAll, elementsOf, Reading.blocksOf_words prose.areWords,
        String.empty_append, whole]
      have kept : Reading.withText text others = .text text :: others := by
        rw [Reading.withText, if_neg (by simpa using nonempty)]
      rw [← kept]
      cases spans with
      | nil => rw [elementsOfAll, Reading.blocksOf]
      | text _ _ apart => cases apart
      | styled =>
          rw [elementsOfAll, elementsOf] at inductionHypothesis ⊢
          exact Reading.blocksOf_node inductionHypothesis text
  | @styled outer style before children others _ _ _ _ _ _ inChildren
      inOthers =>
      have content : Reading.blocksOf ""
          (.ofDelimiter style.delimiter :: elementsOfAll children ++
            [.ofDelimiter style.delimiter]) = .ok children := by
        have markup : Markup.Kind.delimiter.isMarkup = true := rfl
        rw [List.cons_append, Element.ofDelimiter, Reading.blocksOf,
          if_pos markup, Reading.blocksOf_append_markup markup, inChildren]
      have block : Reading.blockOf style.spanKind
          (.ofDelimiter style.delimiter :: elementsOfAll children ++
            [.ofDelimiter style.delimiter]) = .ok (.styled style children) := by
        cases style <;> rw [Style.spanKind, Reading.blockOf, content] <;> rfl
      rw [elementsOfAll, elementsOf, List.singleton_append, Reading.blocksOf,
        block, inOthers]
      rfl

end AreSpans

/-! ## Lines of written spans -/

namespace AreStyledLine

/-- A line of spans starts nothing else. -/
theorem startsText (line : AreStyledLine blocks) :
    Markup.Line.startsText (tokensOfAll blocks) = true := by
  cases line.spans with
  | nil => exact absurd rfl line.nonempty
  | @text text _ _ others nonempty prose =>
      obtain ⟨rest, tokens⟩ := prose.tokens_of_start nonempty line.start
      rw [tokensOfAll, tokensOf, tokens]
      simp [Markup.Line.startsText, line.unnumbered text others rfl]
  | @styled _ style _ children others _ _ nonempty start inside =>
      have notBlank : Markup.Line.startsWith .whitespace
          (tokensOfAll children ++
            style.delimiter :: tokensOfAll others) = false := by
        have visible := inside.startsVisibly_tokensOfAll nonempty start
          (style.delimiter :: tokensOfAll others)
        revert visible
        cases tokensOfAll children ++ style.delimiter :: tokensOfAll others with
        | nil => exact fun _ => rfl
        | cons first rest =>
            simp only [Markup.Inline.startsVisibly, Bool.and_eq_true,
              bne_iff_ne, Markup.Line.startsWith, beq_eq_false_iff_ne]
            exact And.left
      have apart : tokensOfAll (.styled style children :: others) =
          style.delimiter :: (tokensOfAll children ++
            style.delimiter :: tokensOfAll others) := by
        simp [tokensOfAll, tokensOf]
      rw [apart, Markup.Line.startsText, Style.kind_delimiter]
      cases style with
      | bold | strikeout => rw [Style.mark, notBlank]; rfl
      | italics | underline => rfl

end AreStyledLine

theorem AreSpans.of_mem
    {text : String}
    (spans : AreSpans outer before blocks)
    (member : .text text ∈ blocks) :
    text ≠ "" ∧ IsProse text := by
  induction blocks generalizing before with
  | nil => cases member
  | cons first others inductionHypothesis =>
      cases spans with
      | text nonempty prose apart spans =>
          rcases List.mem_cons.mp member with isFirst | later
          · cases isFirst
            exact ⟨nonempty, prose⟩
          · exact inductionHypothesis spans later
      | styled _ _ _ _ _ spans =>
          exact inductionHypothesis spans <|
            (List.mem_cons.mp member).resolve_left (by rintro ⟨⟩)

namespace AreStyledLine

/-- A line neither starts nor ends with a blank. -/
theorem trimBlocks_eq (line : AreStyledLine blocks) :
    Reading.trimBlocks blocks = blocks := by
  apply Reading.trimBlocks_eq
  · intro text isFirst
    obtain ⟨nonempty, prose⟩ :=
      line.spans.of_mem (List.mem_of_head? isFirst)
    refine ⟨nonempty, fun character starts => ?_⟩
    apply prose.not_isBlank (List.mem_of_head? starts)
    rintro rfl
    obtain ⟨others, rfl⟩ := List.head?_eq_some_iff.mp isFirst
    simpa [startsWithSpace, starts] using line.start
  · intro text isLast
    obtain ⟨nonempty, prose⟩ :=
      line.spans.of_mem (List.mem_of_getLast? isLast)
    refine ⟨nonempty, fun character ends => ?_⟩
    apply prose.not_isBlank (List.mem_of_getLast? ends)
    rintro rfl
    simpa [endsWithSpace, isLast, ends] using line.finish

/-- What is written from a line of texts and spans is read as this line. -/
theorem ofSource_writtenAll (line : AreStyledLine blocks) :
    ofSource (String.ofList (writtenAll blocks)) = .ok [blocks] := by
  have lexed :
      Markup.lex (String.ofList (writtenAll blocks)) = tokensOfAll blocks := by
    rw [Markup.lex, String.toList_ofList, line.spans.tokens_writtenAll]
  have visible : Markup.Line.atVisible (tokensOfAll blocks) = true := by
    apply Markup.atVisible_of_startsVisibly
    simpa using
      line.spans.startsVisibly_tokensOfAll line.nonempty line.start []
  have stopped : Markup.Inline.stopsAt (stopsIn []) [] = true := rfl
  obtain ⟨last, derives⟩ := line.spans.derives (by rintro _ ⟨⟩) stopped
  rw [List.append_nil] at derives
  have block : Markup.Line.Block (tokensOfAll blocks)
      (elementsOfAll blocks ++ []) [] :=
    .text line.startsText derives .missing
  rw [List.append_nil] at block
  have tree : Markup.parse (String.ofList (writtenAll blocks)) =
      .node .root [.node .paragraph (elementsOfAll blocks)] := by
    rw [Markup.parse, lexed, Markup.parseTokens_of_block visible block]
  rw [ofSource, tree, Reading.ofTree_paragraph line.spans.blocksOf_elementsOfAll,
    line.trimBlocks_eq]

/-- Four styles, inside each other and next to each other. -/
theorem ofSource_writtenAll_nested :
    ofSource "so */a _b c_/-d-* e" =
      .ok
        [[.text "so ",
          .styled .bold
            [.styled .italics [.text "a ", .styled .underline [.text "b c"]],
              .styled .strikeout [.text "d"]],
          .text " e"]] := by
  have words (text : String)
      (prose : text.toList.all
        fun character =>
          Markup.Lexer.isPlain character || character == ' ') :
      IsProse text := by
    simpa [IsProse] using prose
  have line : AreStyledLine
      [.text "so ",
        .styled .bold
          [.styled .italics [.text "a ", .styled .underline [.text "b c"]],
            .styled .strikeout [.text "d"]],
        .text " e"] :=
    { nonempty := by decide
      spans :=
        .text (by decide) (words _ (by decide)) rfl <|
          .styled (by decide) rfl (by decide) rfl
            (.styled (by decide) rfl (by decide) rfl
              (.text (by decide) (words _ (by decide)) rfl <|
                .styled (by decide) rfl (by decide) rfl
                  (.text (by decide) (words _ (by decide)) rfl .nil)
                  .nil) <|
              .styled (by decide) rfl (by decide) rfl
                (.text (by decide) (words _ (by decide)) rfl .nil)
                .nil) <|
            .text (by decide) (words _ (by decide)) rfl .nil
      start := rfl
      finish := rfl
      unnumbered := by rintro _ _ ⟨⟩; rfl }
  exact (congrArg ofSource (by decide)).trans line.ofSource_writtenAll

end AreStyledLine

end Document
end NotePress
