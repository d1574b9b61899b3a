import NotePress.Proofs.Document.EmptySpans
import NotePress.Proofs.Page.Coverage
import NotePress.Proofs.Page.OrderedLines
import NotePress.Proofs.Page.PageFile

/-!
# Ordered items

The number of an ordered item is the one that the digits of its marker write,
whatever brackets and zeros stand around them. It is the number of the list in the
page. A number that is too large makes a source unreadable, and the marker is what
is reported (`orderedItem_exact`).
-/

namespace NotePress

namespace Document

open Markup

namespace Reading

/-- The space before a title and the line break after it are dropped. -/
theorem blocksOf_itemElements
    (isTitle : IsTitle title)
    (endsLine : EndsLine ending below)
    (marker : String) :
    ∃ blocks, blocksOf "" (itemElements marker title ending) = .ok blocks ∧
      trimBlocks blocks = [.text title] := by
  have nonempty : " " ++ title ++ ending ≠ "" := by
    simp [String.append_eq_empty_iff]
  have read : blocksOf "" (itemElements marker title ending) =
      .ok [.text (" " ++ title ++ ending)] := by
    have words := blocksOf_words (areWords_lex isTitle) " "
      ((lex ending).map .ofToken)
    rw [join_text_lex] at words
    rw [itemElements, List.cons_append, List.cons_append, blocksOf, Element.ofToken,
      blocksOf]
    refine words.trans ?_
    rcases endsLine.isEnding with rfl | rfl | rfl
    · simp [lex_empty, blocksOf, withText, isTitle.nonempty]
    · rw [show lex "\n" = [⟨.newline, "\n"⟩] by decide +kernel]
      simp [Element.ofToken, blocksOf, withText, Kind.isMarkup, isTitle.nonempty]
    · rw [show lex "\r\n" = [⟨.newline, "\r\n"⟩] by decide +kernel]
      simp [Element.ofToken, blocksOf, withText, Kind.isMarkup, isTitle.nonempty]
  refine ⟨_, read, ?_⟩
  have blank : ∀ character ∈ ending.toList, Text.isBlank character = true := by
    refine List.all_eq_true.mp ?_
    rcases endsLine.isEnding with rfl | rfl | rfl <;> decide
  have visible : Text.EndsVisibly (" " ++ title) := endsVisibly_append isTitle " "
  have dropped : Text.trimEnd (" " ++ title ++ ending) = " " ++ title := by
    apply String.toList_injective
    have kept := congrArg String.toList visible.trimEnd_eq
    rw [Text.toList_trimEnd] at kept
    rw [Text.toList_trimEnd, String.toList_append,
      Text.dropTrailing_append_of_all _ blank, kept]
  have alone := trimBlocks_title isTitle
  rw [trimBlocks, trimLast, visible.trimEnd_eq] at alone
  rwa [trimBlocks, trimLast, dropped]

/-- An ordered item with a number that is not too large is read as that item. -/
theorem blockOf_itemElements
    {digits marker title ending below : String}
    (isNumeral : IsNumeral digits)
    (isForm : marker ∈ orderedMarkers digits)
    (isTitle : IsTitle title)
    (endsLine : EndsLine ending below)
    (small : writtenNumber digits.toList ≤ 4294967295) :
    blockOf .orderedItem (itemElements marker title ending) =
      .ok (.orderedItem (writtenNumber digits.toList) [.text title]) := by
  have isMarker := Line.isOrderedMarker_iff.mpr ⟨digits, isNumeral, isForm⟩
  have number : ordinal (itemElements marker title ending) =
      .ok (writtenNumber digits.toList) := by
    rw [itemElements, List.cons_append, ordinal_marker isMarker,
      writtenNumber_orderedMarkers isForm, if_neg (Nat.not_lt_of_le small)]
  obtain ⟨blocks, read, trimmed⟩ := blocksOf_itemElements isTitle endsLine marker
  rw [blockOf, number, read]
  simp only [trimmed]

/-- The block of a node that is no text is in what its elements are read as. -/
theorem mem_of_blocksOf
    {elements : List Element}
    (member : .node kind children ∈ elements)
    (block : blockOf kind children = .ok found)
    (read : blocksOf text elements = .ok blocks) :
    found ∈ blocks := by
  induction elements generalizing text blocks with
  | nil => cases member
  | cons first others inductionHypothesis =>
      cases first with
      | leaf leafKind more =>
          rw [blocksOf] at read
          exact inductionHypothesis (by simpa using member) read
      | node other grandchildren =>
          obtain ⟨here, later, readHere, readLater, rfl⟩ := ok_of_blocksOf read
          have within : found ∈ here :: later := by
            rcases List.mem_cons.mp member with same | below
            · obtain ⟨rfl, rfl⟩ := Element.node.inj same
              rw [block] at readHere
              rw [Except.ok.inj readHere]
              exact List.mem_cons_self
            · exact List.mem_cons_of_mem here (inductionHypothesis below readLater)
          rw [withText]
          split
          · exact within
          · exact List.mem_cons_of_mem _ within

/-- The block of a node in a paragraph is in the paragraph that is read. -/
theorem exists_paragraph_of_paragraphsOf
    {elements paragraph : List Element}
    {document : Document}
    (member : .node .paragraph paragraph ∈ elements)
    (inside : .node kind children ∈ paragraph)
    (block : blockOf kind children = .ok found)
    (notText : found.isText = false)
    (read : paragraphsOf elements = .ok document) :
    ∃ blocks ∈ document, found ∈ blocks := by
  induction elements generalizing document with
  | nil => cases member
  | cons first others inductionHypothesis =>
      cases first with
      | leaf leafKind more =>
          rw [paragraphsOf] at read
          exact inductionHypothesis (by simpa using member) read
      | node other grandchildren =>
          by_cases isParagraph : other = .paragraph
          · subst isParagraph
            obtain ⟨blocks, later, readHere, readLater, rfl⟩ :=
              ok_of_paragraphsOf read
            rcases List.mem_cons.mp member with same | below
            · obtain ⟨_, rfl⟩ := Element.node.inj same
              refine ⟨_, List.mem_cons_self, ?_⟩
              exact (mem_trimBlocks_iff notText).mpr
                (mem_of_blocksOf inside block readHere)
            · obtain ⟨found, isMember, holds⟩ :=
                inductionHypothesis below readLater
              exact ⟨found, List.mem_cons_of_mem _ isMember, holds⟩
          · rw [paragraphsOf, if_neg isParagraph] at read
            refine inductionHypothesis ?_ read
            rcases List.mem_cons.mp member with same | below
            · exact absurd (Element.node.inj same).1.symm isParagraph
            · exact below

theorem firstMalformation_append (first second : List Element) :
    firstMalformation (first ++ second) =
      (firstMalformation first).or (firstMalformation second) := by
  rw [firstMalformation, Element.subtreesOf_append, List.findSome?_append]
  rfl

theorem firstMalformation_paragraph (children others : List Element) :
    firstMalformation (.node .paragraph children :: others) =
      (firstMalformation children).or (firstMalformation others) := by
  rw [firstMalformation_cons, findSome_subtrees_node]
  rfl

/-- The malformation of sections is that of what stands before the cut. -/
theorem firstMalformation_cut
    (cut : Parse.CutOpen elements front begun) :
    firstMalformation elements =
      (firstMalformation front).or (firstMalformation begun) := by
  cases cut with
  | within =>
      rw [firstMalformation_append, firstMalformation_paragraph]
      simp [firstMalformation, Element.subtreesOf]
  | behind => simp [firstMalformation, Element.subtreesOf]

/-- Below whole lines, the malformations of these come before that of the item. -/
theorem firstMalformation_itemSource
    {digits marker title before ending below : String}
    (line : IsItemLine digits marker title before ending below)
    (large : 4294967295 < writtenNumber digits.toList) :
    malformationOf (ofSource
        (before ++ (itemSource marker title ++ (ending ++ below)))) =
      (malformationOf (ofSource before)).or
        (some (.marker .orderedItem marker)) := by
  obtain ⟨front, begun, more, others, cut, children⟩ := line.children_parse
  have own : malformation? (.node .orderedItem (itemElements marker title ending)) =
      some (.marker .orderedItem marker) := by
    rw [itemElements, List.cons_append, malformation?,
      writtenNumber_orderedMarkers line.isForm, if_pos large]
  rw [ofSource, ofSource, ofTree, ofTree, malformationOf_paragraphsOf (grown_parse _),
    malformationOf_paragraphsOf (grown_parse _), firstMalformation_cut cut, children,
    firstMalformation_append, firstMalformation_paragraph, firstMalformation_append,
    firstMalformation_cons, findSome_subtrees_node, own]
  cases firstMalformation front <;> cases firstMalformation begun <;> rfl

end Reading

end Document

namespace Page

open Html (Piece)
open Document (Block ofSource writtenNumber)
open Markup

/-- The written form of an ordered item. -/
def writtenItem
    (number : Nat)
    (title : String) : String :=
  "<ol start=\"" ++ toString number ++ "\"><li>" ++ Html.escape title ++ "</li></ol>"

/-- Digits are written in attributes as they are. -/
theorem escapeQuoted_toString (number : Nat) :
    Html.escapeQuoted (toString number) = toString number := by
  have kept : ∀ digit ∈ (toString number).toList,
      Html.escapeQuotedCharacter digit = [digit] := by
    intro digit member
    have isDigit : digit.isDigit = true :=
      Nat.isDigit_of_mem_toDigits (by decide) (by decide)
        (Nat.toList_repr ▸ member)
    unfold Html.escapeQuotedCharacter Html.escapeCharacter
    split <;> [cases isDigit; skip]
    split <;> first | rfl | cases isDigit
  apply String.toList_injective
  rw [Html.toList_escapeQuoted, List.flatMap_congr kept, List.flatMap_singleton']

theorem renderBlock_orderedItem
    (environment : Environment)
    (hashtags : Document.Hashtag → Session → Outcome)
    (number : Nat)
    (title : String)
    (session : Session) :
    let outcome := renderBlock environment hashtags
      (.orderedItem number [.text title]) session
    outcome.failure = none ∧
      Html.print outcome.html = writtenItem number title := by
  have pieces : Html.print
      [.opening .orderedList [.given "start" (toString number)], .opening .item [],
        .text title, .closing .item, .closing .orderedList] =
      writtenItem number title := by
    apply String.toList_injective
    simp [writtenItem, Html.print, Piece.print, Piece.fragments, Html.Tag.name,
      Html.Attribute.fragments, Html.Fragment.text, escapeQuoted_toString,
      -Nat.toString_eq_repr]
  simpa [renderBlock, wrapped, renderBlocks, Outcome.andThen, Outcome.emit,
    Outcome.done] using pieces

/-- What a block writes that always writes the same is in what a document with the
block writes. -/
theorem exists_print_renderDocument
    {environment : Environment}
    {context : Context}
    {document : Document}
    {session : Session}
    (complete :
      (renderDocument environment context document session).failure = none)
    {paragraph : List Block}
    (isParagraph : paragraph ∈ document)
    {block : Block}
    (member : block ∈ paragraph)
    {written : String}
    (writes : ∀ hashtags found, Html.print
      (renderBlock environment hashtags block found).html = written) :
    ∃ front back, Html.print
      (renderDocument environment context document session).html =
        front ++ written ++ back := by
  rw [renderDocument, renderParagraphs_eq_inTurn] at complete
  obtain ⟨found, front, back, done, whole⟩ := exists_html_inTurn complete isParagraph
  rw [renderParagraph, if_neg (by simp [List.ne_nil_of_mem member])] at done whole
  have within := complete_of_wrapped done
  rw [html_wrapped_of_complete done] at whole
  rw [renderBlocks_eq_inTurn] at within whole
  obtain ⟨later, before, after, _, inside⟩ := exists_html_inTurn within member
  rw [inside] at whole
  rw [renderDocument, renderParagraphs_eq_inTurn, whole]
  refine ⟨Html.print (front ++ ([.opening .paragraph []] ++ before)),
    Html.print (after ++ ([.closing .paragraph, .constant "\n\n"] ++ back)), ?_⟩
  rw [← writes (renderHashtag environment (depthBound session.disk) context) later,
    ← Html.print_append, ← Html.print_append]
  simp only [List.append_assoc]

/-- The line of an ordered item is that item, with the number that its digits write.
Up to 4294967295 the item is in the document and its number is in the page; beyond,
reading the source fails for the marker, unless it fails for what is above the line.
And nothing else is an ordered item: no line that starts with another word, and no
node of a tree without such a marker. -/
theorem orderedItem_exact :
    (∀ digits marker title before ending below : String,
      IsItemLine digits marker title before ending below →
      let source := before ++ (itemSource marker title ++ (ending ++ below))
      let item := itemElements marker title ending
      let number := writtenNumber digits.toList
      (∃ front begun more others,
        Parse.CutOpen (parse before).children front begun ∧
        (parse source).children =
          front ++ .node .paragraph (begun ++ .node .orderedItem item :: more) ::
            others) ∧
      (number ≤ 4294967295 →
        Document.Reading.blockOf .orderedItem item =
          .ok (.orderedItem number [.text title]) ∧
        (∀ environment hashtags session,
          let outcome := renderBlock environment hashtags
            (.orderedItem number [.text title]) session
          outcome.failure = none ∧
            Html.print outcome.html = writtenItem number title) ∧
        ∀ document, ofSource source = .ok document →
          (∃ paragraph ∈ document, .orderedItem number [.text title] ∈ paragraph) ∧
          ∀ environment context session,
            let outcome := renderDocument environment context document session
            outcome.failure = none →
              ∃ front back, Html.print outcome.html =
                front ++ writtenItem number title ++ back) ∧
      (4294967295 < number →
        (∀ document, ofSource before = .ok document →
          ofSource source = .error (.marker .orderedItem marker)) ∧
        ∀ malformation, ofSource before = .error malformation →
          ofSource source = .error malformation)) ∧
    (∀ token rest, AllLexed (token :: rest) → token.kind = .text →
      (∀ digits, IsNumeral digits → token.text ∉ orderedMarkers digits) →
      ∀ kind children, .node kind children ∈ (Line.line token rest).value →
        kind ≠ .orderedItem) ∧
    ∀ source children, .node .orderedItem children ∈ (parse source).subtrees →
      ∃ digits marker blank others, IsNumeral digits ∧
        marker ∈ orderedMarkers digits ∧
        children =
          .leaf .orderedMarker marker :: .leaf .whitespace blank :: others := by
  refine ⟨?_, fun _ _ lexed isText unmarked _ _ => ne_orderedItem_of_line lexed isText
    unmarked, fun _ _ => exists_marker_of_orderedItem⟩
  intro digits marker title before ending below line
  refine ⟨line.children_parse, ?_, ?_⟩
  · intro small
    have block := Document.Reading.blockOf_itemElements line.isNumeral line.isForm
      line.isTitle line.endsLine small
    refine ⟨block, fun environment hashtags session =>
      renderBlock_orderedItem environment hashtags _ title session, ?_⟩
    intro document read
    obtain ⟨front, begun, more, others, _, children⟩ := line.children_parse
    have isParagraph : .node .paragraph (begun ++ .node .orderedItem
          (itemElements marker title ending) :: more) ∈
        (parse (before ++ (itemSource marker title ++ (ending ++ below)))).children := by
      rw [children]
      exact List.mem_append_right front List.mem_cons_self
    obtain ⟨paragraph, inDocument, inside⟩ :=
      Document.Reading.exists_paragraph_of_paragraphsOf isParagraph
        (List.mem_append_right begun List.mem_cons_self) block rfl read
    refine ⟨⟨paragraph, inDocument, inside⟩, ?_⟩
    intro environment context session outcome complete
    exact exists_print_renderDocument complete inDocument inside
      fun hashtags found =>
        (renderBlock_orderedItem environment hashtags _ title found).2
  · intro large
    have first := Document.Reading.firstMalformation_itemSource line large
    have failed {source : String} {malformation : Document.Malformation}
        (found : Document.Reading.malformationOf (ofSource source) =
          some malformation) : ofSource source = .error malformation := by
      cases read : ofSource source with
      | error other =>
          rw [read] at found
          rw [Option.some.inj found]
      | ok document =>
          rw [read] at found
          cases found
    refine ⟨fun document read => ?_, fun malformation fails => ?_⟩
    · rw [read] at first
      exact failed first
    · rw [fails] at first
      exact failed first

/-- Zeros in front of a number, and a number just above the limit. -/
theorem orderedItem_exact_limit :
    Document.Reading.blockOf .orderedItem (itemElements "(007)." "a" "\n") =
      .ok (.orderedItem 7 [.text "a"]) ∧
    ofSource "x\n4294967296). a" =
      .error (.marker .orderedItem "4294967296).") := by
  have isTitle : IsTitle "a" :=
    { nonempty := by decide
      ordinary := List.all_eq_true.mp (by decide)
      starts := by rintro _ ⟨⟩; rfl
      ends := by rintro _ ⟨⟩; rfl }
  have zeros : IsItemLine "007" "(007)." "a" "" "\n" "" :=
    { isNumeral := ⟨by decide, List.all_eq_true.mp (by decide)⟩
      isForm := by decide
      isTitle := isTitle
      startsLine := .inl rfl
      closed := by decide +kernel
      endsLine := ⟨.inr (.inl rfl), by decide⟩ }
  have above : IsItemLine "4294967296" "4294967296)." "a" "x\n" "" "" :=
    { isNumeral := ⟨by decide, List.all_eq_true.mp (by decide)⟩
      isForm := by decide
      isTitle := isTitle
      startsLine := .inr rfl
      closed := by decide +kernel
      endsLine := ⟨.inl rfl, fun _ => rfl⟩ }
  obtain ⟨_, small, _⟩ := orderedItem_exact.1 _ _ _ _ _ _ zeros
  obtain ⟨_, _, large⟩ := orderedItem_exact.1 _ _ _ _ _ _ above
  have seven : writtenNumber "007".toList = 7 := by decide
  have number : writtenNumber "4294967296".toList = 4294967296 := by decide
  have isDocument : (ofSource "x\n").isOk = true := by decide +kernel
  rw [seven] at small
  rw [number] at large
  refine ⟨(small (by decide)).1, ?_⟩
  cases read : ofSource "x\n" with
  | error malformation =>
      rw [read] at isDocument
      cases isDocument
  | ok document => exact (large (by decide)).1 document read

end Page
end NotePress
