import Mathlib.Data.Nat.Digits.Defs
import NotePress.Document.Reading
import NotePress.Proofs.Markup.TreeGrammar
import NotePress.Proofs.Text.Trimming

/-!
# When a source is no document

A syntax tree tells by its nodes alone whether it can be read as a document: it
cannot when an ordered item has too large a number or a hashtag has a parameter
list that is not closed or empty. The first such node is the one that is reported
(`malformation_exact`). The grammar of trees rules out every other failure of the
builder.
-/

namespace NotePress
namespace Document

open Markup

/-! ## Malformed nodes -/

/-- The number that the digits among some characters write. -/
def writtenNumber (characters : List Char) : Nat :=
  Nat.ofDigits 10
    ((characters.filter Char.isDigit).reverse.map fun digit =>
      digit.toNat - '0'.toNat)

/-- Whether an element is a parameter list that is not closed or holds nothing. -/
def isMalformedList : Element → Bool
  | .node .parameters list =>
      !list.tail.any (·.kind == .delimiter) ||
        (Element.node .parameters list).text == "\x7b\x7d"
  | _ => false

/-- What is malformed about an element itself, whatever is inside it. -/
def malformation? : Element → Option Malformation
  | .node .orderedItem (.leaf .orderedMarker marker :: _) =>
      if 4294967295 < writtenNumber marker.toList then
        some (.marker .orderedItem marker)
      else none
  | .node .hashtag children =>
      if children.any isMalformedList then
        some (.directive (Element.node .hashtag children).text)
      else none
  | _ => none

/-- The kinds of the nodes that are read as a block around the blocks of their
children. -/
def containers : List Kind :=
  [.heading, .bold, .italics, .underline, .strikeout, .orderedItem,
    .unorderedItem]

/-- The nodes whose block is asked for when some elements are read as blocks. -/
inductive Asked : List Element → Kind → List Element → Prop
  | here :
      .node kind children ∈ elements →
      Asked elements kind children
  | inside {inner : List Element} :
      .node outer inner ∈ elements →
      outer ∈ containers →
      Asked inner kind children →
      Asked elements kind children
  | cell :
      .node .table rows ∈ elements →
      .node .tableRow cells ∈ rows →
      .node .tableCell cell ∈ cells →
      Asked cell kind children →
      Asked elements kind children

namespace Reading

/-! ## Elements of a tree of a source -/

/-- Elements that stand in a node of a kind in the tree of a source. -/
structure Grown (outer : Kind) (elements : List Element) : Prop where
  produced :
    ∀ kind children, .node kind children ∈ Element.subtreesOf elements →
      ∃ following, Production kind children following
  held :
    ∀ kind children, .node kind children ∈ elements → outer.holds kind = true

namespace Grown

/-- What grows in a node is still grown without its first element. -/
theorem tail (grown : Grown outer (first :: others)) : Grown outer others := by
  refine ⟨?_, ?_⟩
  · intro kind children member
    apply grown.produced
    rw [Element.subtreesOf]
    exact List.mem_append_right _ member
  · intro kind children member
    exact grown.held kind children (List.mem_cons_of_mem first member)

/-- A node among grown elements was produced by a rule of the grammar. -/
theorem production
    (grown : Grown outer elements)
    (member : .node kind children ∈ elements) :
    ∃ following, Production kind children following :=
  grown.produced kind children (Element.mem_subtreesOf_of_mem member)

/-- What stands in one of the elements. -/
theorem child
    (grown : Grown outer elements)
    (member : .node kind children ∈ elements) :
    Grown kind children := by
  refine ⟨?_, ?_⟩
  · intro inner grandchildren below
    apply grown.produced
    obtain ⟨before, after, rfl⟩ := List.append_of_mem member
    rw [Element.subtreesOf_append, Element.subtreesOf, Element.subtrees]
    simp [below]
  · intro inner grandchildren inside
    obtain ⟨following, production⟩ := grown.production member
    exact production.holds inside

/-- What is read as blocks may as well stand in a paragraph. -/
theorem of_container
    (grown : Grown outer elements)
    (isContainer : outer ∈ .tableCell :: containers) :
    Grown .paragraph elements := by
  refine ⟨grown.produced, ?_⟩
  intro kind children member
  have held := grown.held kind children member
  simp only [containers, List.mem_cons, List.not_mem_nil, or_false]
    at isContainer
  rw [Kind.holds, Bool.or_eq_true]
  rcases isContainer with rfl | rfl | rfl | rfl | rfl | rfl | rfl | rfl
  · exact .inr held
  · exact .inr held
  all_goals
    simp only [Kind.holds, Bool.and_eq_true] at held
    first
      | exact .inr held.1
      | exact .inr held

/-- Elements of a node that holds no nodes are leaves. -/
theorem of_leaf
    (grown : Grown outer elements)
    (noNodes : ∀ kind : Kind, outer.holds kind = false) :
    ∀ element ∈ elements, ∃ kind text, element = .leaf kind text := by
  intro element member
  cases element with
  | leaf kind text => exact ⟨kind, text, rfl⟩
  | node kind children =>
      have held := grown.held kind children member
      rw [noNodes kind] at held
      cases held

end Grown

/-- The tree of a source is grown. -/
theorem grown_parse (source : String) : Grown .root (parse source).children := by
  refine ⟨?_, ?_⟩
  · intro kind children member
    apply exists_production_of_mem_parse
    exact Element.subtreesOf_subset_subtrees_node .root _ member
  · intro kind children
    exact holds_of_mem_parse (Element.self_mem_subtrees (parse source))

/-! ## What is malformed about elements and all that is inside them -/

/-- The first malformation among some elements and all that is inside them. -/
def firstMalformation (elements : List Element) : Option Malformation :=
  (Element.subtreesOf elements).findSome? malformation?

/-- The first malformation of some elements is that of the first one, or else of the
others. -/
theorem firstMalformation_cons
    (first : Element)
    (others : List Element) :
    firstMalformation (first :: others) =
      (first.subtrees.findSome? malformation?).or (firstMalformation others) := by
  rw [firstMalformation, Element.subtreesOf, List.findSome?_append,
    firstMalformation]

/-- A leaf is never malformed. -/
theorem firstMalformation_leaf
    (kind : Kind)
    (text : String)
    (others : List Element) :
    firstMalformation (.leaf kind text :: others) =
      firstMalformation others := by
  rw [firstMalformation_cons, Element.subtrees]
  rfl

/-- The first malformation of a node: its own, or else the first one inside. -/
theorem findSome_subtrees_node
    (kind : Kind)
    (children : List Element) :
    (Element.node kind children).subtrees.findSome? malformation? =
      (malformation? (.node kind children)).or (firstMalformation children) := by
  rw [Element.subtrees, List.findSome?_cons, firstMalformation]
  cases malformation? (.node kind children) <;> rfl

/-- Nothing is malformed about leaves. -/
theorem firstMalformation_of_leaves
    {elements : List Element}
    (leaves : ∀ element ∈ elements, ∃ kind text, element = .leaf kind text) :
    firstMalformation elements = none := by
  induction elements with
  | nil => rfl
  | cons first others inductionHypothesis =>
      obtain ⟨kind, text, rfl⟩ := leaves first List.mem_cons_self
      rw [firstMalformation_leaf]
      exact inductionHypothesis fun element member =>
        leaves element (List.mem_cons_of_mem _ member)

/-- Nothing in a hashtag is malformed apart from the hashtag itself. -/
theorem firstMalformation_of_hashtag
    (grown : Grown .hashtag elements) :
    firstMalformation elements = none := by
  induction elements with
  | nil => rfl
  | cons first others inductionHypothesis =>
      have later := inductionHypothesis grown.tail
      cases first with
      | leaf kind text => rw [firstMalformation_leaf, later]
      | node kind children =>
          have held := grown.held kind children List.mem_cons_self
          obtain rfl : kind = .parameters := eq_of_beq held
          have leaves := (grown.child List.mem_cons_self).of_leaf fun _ => rfl
          rw [firstMalformation_cons, findSome_subtrees_node,
            firstMalformation_of_leaves leaves, later]
          rfl

/-! ## Markers -/

/-- The malformation that a reading fails with. -/
def malformationOf : Except Malformation α → Option Malformation
  | .error malformation => some malformation
  | .ok _ => none

/-- A reading fails the same way whatever is made of its result. -/
theorem malformationOf_map
    (function : α → β)
    (result : Except Malformation α) :
    malformationOf (result.map function) = malformationOf result := by
  cases result <;> rfl

/-- A text that had its last character stripped ended with it. -/
theorem eq_append_of_stripLast
    {text rest : List Char}
    (stripped : Line.stripLast? last text = some rest) :
    text = rest ++ [last] := by
  unfold Line.stripLast? at stripped
  split at stripped
  · rename_i isLast
    cases stripped
    obtain ⟨before, rfl⟩ := List.getLast?_eq_some_iff.mp isLast
    rw [List.dropLast_concat]
  · cases stripped

/-- A text that had its first character stripped started with it. -/
theorem eq_cons_of_stripFirst
    {text rest : List Char}
    (stripped : Line.stripFirst? first text = some rest) :
    text = first :: rest := by
  unfold Line.stripFirst? at stripped
  split at stripped
  · rename_i isFirst
    cases stripped
    exact (List.cons_head?_tail isFirst).symm
  · cases stripped

/-- A text without a last character that it may have. -/
theorem exists_back
    (last : Char)
    (text : List Char) :
    ∃ back, text = (Line.stripLast? last text).getD text ++ back ∧
      ∀ character ∈ back, character = last := by
  cases stripped : Line.stripLast? last text with
  | none => exact ⟨[], by simp, List.forall_mem_nil _⟩
  | some rest =>
      exact ⟨[last], eq_append_of_stripLast stripped,
        List.forall_mem_singleton.mpr rfl⟩

/-- A text without a first character that it may have. -/
theorem exists_front
    (first : Char)
    (text : List Char) :
    ∃ front, text = front ++ (Line.stripFirst? first text).getD text ∧
      ∀ character ∈ front, character = first := by
  cases stripped : Line.stripFirst? first text with
  | none => exact ⟨[], by simp, List.forall_mem_nil _⟩
  | some rest =>
      exact ⟨[first], eq_cons_of_stripFirst stripped,
        List.forall_mem_singleton.mpr rfl⟩

/-- The parts of an ordered marker: digits between a bracket at most and a point
with a bracket at most. -/
theorem parts_of_isOrderedMarker
    {text : List Char}
    (isMarker : Line.isOrderedMarker text = true) :
    ∃ front digits back, text = front ++ digits ++ back ∧
      (∀ character ∈ front, character ∈ ['(', ')', '.']) ∧
      (∀ character ∈ back, character ∈ ['(', ')', '.']) ∧
      digits ≠ [] ∧ ∀ digit ∈ digits, digit.isDigit = true := by
  unfold Line.isOrderedMarker at isMarker
  split at isMarker
  · cases isMarker
  · rename_i numbered pointed
    simp only [Bool.and_eq_true, Bool.not_eq_true', List.isEmpty_eq_false_iff,
      List.all_eq_true] at isMarker
    obtain ⟨nonempty, areDigits⟩ := isMarker
    obtain ⟨front, opened, inFront⟩ := exists_front '(' numbered
    generalize (Line.stripFirst? '(' numbered).getD numbered = inside
      at opened nonempty areDigits
    obtain ⟨back, closed, inBack⟩ := exists_back ')' inside
    generalize (Line.stripLast? ')' inside).getD inside = digits
      at closed nonempty areDigits
    refine ⟨front, digits, back ++ ['.'], ?_, ?_, ?_, nonempty, areDigits⟩
    · rw [eq_append_of_stripLast pointed, opened, closed]
      simp only [List.append_assoc]
    · intro character member
      simp [inFront character member]
    · intro character member
      rcases List.mem_append.mp member with inBrackets | isPoint
      · simp [inBack character inBrackets]
      · simp [List.mem_singleton.mp isPoint]

/-- The brackets and the point of an ordered marker are at its edges, and are no
digits. -/
theorem edge_of_mem (member : character ∈ ['(', ')', '.']) :
    isOrdinalEdge character = true ∧ character.isDigit = false := by
  simp only [List.mem_cons, List.not_mem_nil, or_false] at member
  rcases member with rfl | rfl | rfl <;> decide

/-- A digit is not at the edge of an ordered marker. -/
theorem not_edge_of_isDigit (isDigit : character.isDigit = true) :
    isOrdinalEdge character = false := by
  rw [← Bool.not_eq_true]
  intro edge
  simp only [isOrdinalEdge, Bool.or_eq_true, beq_iff_eq] at edge
  rcases edge with ((rfl | rfl) | rfl) | rfl <;> cases isDigit

/-- The digits of an ordered marker are what is left between its edges. -/
theorem digits_of_isOrderedMarker
    {text : List Char}
    (isMarker : Line.isOrderedMarker text = true) :
    Text.dropEnds isOrdinalEdge text = text.filter Char.isDigit ∧
      text.filter Char.isDigit ≠ [] := by
  obtain ⟨front, digits, back, rfl, inFront, inBack, nonempty, areDigits⟩ :=
    parts_of_isOrderedMarker isMarker
  have noneIn {edges : List Char}
      (edge : ∀ character ∈ edges, character ∈ ['(', ')', '.']) :
      edges.filter Char.isDigit = [] := by
    rw [List.filter_eq_nil_iff]
    intro character member
    rw [(edge_of_mem (edge character member)).2]
    decide
  rw [List.filter_append, List.filter_append, noneIn inFront, noneIn inBack,
    List.filter_eq_self.mpr areDigits, List.nil_append, List.append_nil]
  refine ⟨?_, nonempty⟩
  apply Text.dropEnds_enclosed _ _ nonempty
  · exact fun digit member => not_edge_of_isDigit (areDigits digit member)
  · exact fun character member => (edge_of_mem (inFront character member)).1
  · exact fun character member => (edge_of_mem (inBack character member)).1

/-- Reading digits from the left gives the number they write, most significant first. -/
theorem foldl_digits
    (digits : List Char)
    (start : Nat) :
    digits.foldl (fun value digit => 10 * value + (digit.toNat - '0'.toNat))
        start =
      Nat.ofDigits 10 (digits.reverse.map fun digit =>
        digit.toNat - '0'.toNat) + 10 ^ digits.length * start := by
  induction digits generalizing start with
  | nil => simp
  | cons first others inductionHypothesis =>
      rw [List.foldl_cons, inductionHypothesis, List.reverse_cons,
        List.map_append, Nat.ofDigits_append, List.length_map,
        List.length_reverse, List.map_singleton, Nat.ofDigits_singleton,
        List.length_cons, pow_succ]
      ring

/-- The value of a decimal is the number that its digits write. -/
theorem decimalValue_eq_ofDigits (digits : List Char) :
    decimalValue digits =
      Nat.ofDigits 10 (digits.reverse.map fun digit =>
        digit.toNat - '0'.toNat) := by
  rw [decimalValue, foldl_digits, Nat.mul_zero, Nat.add_zero]

/-- The number of an ordered item is the one written in its marker, unless that is
too large. -/
theorem ordinal_marker
    {marker : String}
    (isMarker : Line.isOrderedMarker marker.toList = true)
    (others : List Element) :
    ordinal (.leaf .orderedMarker marker :: others) =
      if 4294967295 < writtenNumber marker.toList then
        .error (.marker .orderedItem marker)
      else
        .ok (writtenNumber marker.toList) := by
  obtain ⟨digits, nonempty⟩ := digits_of_isOrderedMarker isMarker
  have allDigits : (marker.toList.filter Char.isDigit).all (·.isDigit) = true := by
    simp
  have value : decimalValue (marker.toList.filter Char.isDigit) =
      writtenNumber marker.toList :=
    decimalValue_eq_ofDigits _
  rw [ordinal, markerText, if_pos rfl]
  simp only [digits, allDigits, value, maximalOrdinal,
    List.isEmpty_eq_false_iff.mpr nonempty, Bool.not_true, Bool.or_false,
    Bool.false_or, decide_eq_true_eq]

/-- An ordered item fails to have a number exactly when the number written in its
marker is too large. -/
theorem malformationOf_ordinal
    {marker : String}
    (isMarker : Line.isOrderedMarker marker.toList = true)
    (others : List Element) :
    malformationOf (ordinal (.leaf .orderedMarker marker :: others)) =
      malformation? (.node .orderedItem
        (.leaf .orderedMarker marker :: others)) := by
  rw [ordinal_marker isMarker, malformation?]
  split <;> rfl

/-- The hashes of a heading spell as many hash characters. -/
theorem toList_hashes
    {hashes : List Token}
    (lexed : AllLexed hashes)
    (areHashes : ∀ token ∈ hashes, token.kind = .hash) :
    (String.join (hashes.map Token.text)).toList =
      List.replicate hashes.length '#' := by
  rw [String.toList_join, List.flatMap_map]
  induction hashes with
  | nil => rfl
  | cons hash hashes inductionHypothesis =>
      rw [List.flatMap_cons, List.length_cons, List.replicate_succ,
        lexed.head.text_of_hash (areHashes hash List.mem_cons_self),
        inductionHypothesis lexed.of_cons fun token member =>
          areHashes token (List.mem_cons_of_mem hash member)]
      rfl

/-- The hashes of a heading are read as its level. -/
theorem isOk_headingLevel
    (production : Production .heading children following) :
    ∃ level, headingLevel children = .ok level := by
  obtain ⟨tokens, leaf, blank, middle, others, lexed, isMarker, _, rfl⟩ :=
    production.exists_marker rfl
  cases isMarker with
  | @heading hashes _ nonempty short areHashes =>
      have written := toList_hashes
        (fun token member => lexed token (List.mem_append_left _ member))
        areHashes
      refine ⟨hashes.length, ?_⟩
      rw [headingLevel, Line.glued, markerText, if_pos rfl]
      simp only [written, List.length_replicate]
      rw [if_neg]
      simpa [nonempty] using short

/-! ## Hashtags -/

/-- The characters of some tokens. -/
def spelled (tokens : List Token) : List Char :=
  tokens.flatMap fun token => token.text.toList

/-- The text of a hashtag, character by character. -/
theorem toList_text
    (kind : Kind)
    (children : List Element) :
    (Element.node kind children).text.toList =
      (Element.leavesOf children).flatMap fun leaf => leaf.text.toList := by
  rw [Element.text, Element.leaves, String.toList_join, List.flatMap_map]

/-- The name of a hashtag ends where its list begins. -/
theorem takeWhile_letters
    {letters : List Char}
    (areLetters : ∀ character ∈ letters, Lexer.isTagLetter character = true)
    (rest : List Char) :
    (letters ++ '\x7b' :: rest).takeWhile Lexer.isTagLetter = letters ∧
      (letters ++ '\x7b' :: rest).dropWhile Lexer.isTagLetter =
        '\x7b' :: rest := by
  have stops : Lexer.isTagLetter '\x7b' = false := by decide
  rw [List.takeWhile_append_of_pos areLetters,
    List.dropWhile_append_of_pos areLetters, List.takeWhile_cons_of_neg (by simp [stops]),
    List.dropWhile_cons_of_neg (by simp [stops]), List.append_nil]
  exact ⟨rfl, rfl⟩

/-- A name without a list is read as a hashtag without parameters. -/
theorem ofSource_name
    {letters : List Char}
    (nonempty : letters ≠ [])
    (areLetters : ∀ character ∈ letters, Lexer.isTagLetter character = true) :
    Hashtag.ofSource? ('#' :: letters) = some ⟨String.ofList letters, []⟩ := by
  have all : letters.takeWhile Lexer.isTagLetter = letters :=
    List.takeWhile_eq_self_iff.mpr areLetters
  have nothing : letters.dropWhile Lexer.isTagLetter = [] :=
    List.dropWhile_eq_nil_iff.mpr areLetters
  simp only [Hashtag.ofSource?, all, nothing]
  rw [List.isEmpty_eq_false_iff.mpr nonempty]
  rfl

/-- A name with a list is read from what the list holds up to its last brace. -/
theorem ofSource_list
    {letters : List Char}
    (nonempty : letters ≠ [])
    (areLetters : ∀ character ∈ letters, Lexer.isTagLetter character = true)
    (list : List Char) :
    Hashtag.ofSource? ('#' :: (letters ++ '\x7b' :: list)) =
      (Line.stripLast? '\x7d' list).bind fun inside =>
        if inside.isEmpty || inside.contains '\n' then none
        else some ⟨String.ofList letters, Hashtag.parametersOf inside⟩ := by
  obtain ⟨taken, left⟩ := takeWhile_letters areLetters list
  simp only [Hashtag.ofSource?, taken, left]
  rw [List.isEmpty_eq_false_iff.mpr nonempty]
  cases Line.stripLast? '\x7d' list with
  | none => rfl
  | some inside => rfl

/-- A last character that is there is stripped. -/
theorem stripLast_concat
    (last : Char)
    (list : List Char) :
    Line.stripLast? last (list ++ [last]) = some list := by
  rw [Line.stripLast?, List.getLast?_concat, if_pos rfl, List.dropLast_concat]

/-- A character that does not occur is not stripped from the end. -/
theorem stripLast_of_notMem
    {last : Char}
    {list : List Char}
    (absent : last ∉ list) :
    Line.stripLast? last list = none := by
  rw [Line.stripLast?, if_neg]
  intro isLast
  exact absent (List.mem_of_getLast? isLast)

/-- The characters of a parameter list are neither line feeds nor braces that
close it. -/
theorem notMem_of_isParameter
    {tokens : List Token}
    (lexed : AllLexed tokens)
    (parameters : ∀ part ∈ tokens, Inline.isParameter part = true) :
    '\n' ∉ spelled tokens ∧ '\x7d' ∉ spelled tokens := by
  refine ⟨?_, ?_⟩
  all_goals
    intro member
    obtain ⟨token, isToken, inside⟩ := List.mem_flatMap.mp member
    have parameter := parameters token isToken
    rw [Inline.isParameter, (lexed token isToken).kind_of_mem rfl inside]
      at parameter
    cases parameter

/-- The text of a closed list is its braces around the texts of its tokens. -/
theorem toList_text_closedList
    (opening closing : Token)
    (inside : List Token) :
    (Element.node .parameters
      (.ofDelimiter opening :: inside.map .ofToken ++
        [.ofDelimiter closing])).text.toList =
      opening.text.toList ++ (spelled inside ++ closing.text.toList) := by
  rw [toList_text, List.cons_append, Element.leavesOf, Element.leavesOf_append,
    Element.leavesOf_ofTokens]
  simp [Element.ofDelimiter, Element.leaves, Element.leavesOf, spelled]

/-- The text of an open list is its brace before the texts of its tokens. -/
theorem toList_text_openList
    (opening : Token)
    (inside : List Token) :
    (Element.node .parameters
      (.ofDelimiter opening :: inside.map .ofToken)).text.toList =
      opening.text.toList ++ spelled inside := by
  rw [toList_text, Element.leavesOf, Element.leavesOf_ofTokens]
  simp [Element.ofDelimiter, Element.leaves, spelled]

/-- The text of a hashtag is its name and its list. -/
theorem toList_text_hashtag
    (name : Token)
    (list : List Element) :
    (Element.node .hashtag
      [.ofToken name, .node .parameters list]).text.toList =
      name.text.toList ++ (Element.node .parameters list).text.toList := by
  rw [toList_text, toList_text]
  simp [Element.ofToken, Element.leaves, Element.leavesOf]

/-- A closed list is malformed when nothing is between its braces. -/
theorem isMalformedList_closed
    {opening closing : Token}
    (isOpening : opening.text = "\x7b")
    (isClosing : closing.text = "\x7d")
    (inside : List Token) :
    isMalformedList (.node .parameters
      (.ofDelimiter opening :: inside.map .ofToken ++
        [.ofDelimiter closing])) =
      (spelled inside).isEmpty := by
  have closed : (Element.ofDelimiter opening :: inside.map Element.ofToken ++
      [Element.ofDelimiter closing]).tail.any (·.kind == Kind.delimiter) =
        true := by
    simp [Element.ofDelimiter, Element.kind]
  rw [isMalformedList, closed, Bool.not_true, Bool.false_or, Bool.eq_iff_iff,
    beq_iff_eq, ← String.toList_inj, toList_text_closedList, isOpening,
    isClosing, List.isEmpty_iff]
  simp

/-- A list without a closing brace is malformed. -/
theorem isMalformedList_open
    (opening : Token)
    {inside : List Token}
    (lexed : AllLexed inside) :
    isMalformedList (.node .parameters
      (.ofDelimiter opening :: inside.map .ofToken)) = true := by
  rw [isMalformedList, List.tail_cons, Bool.or_eq_true, Bool.not_eq_true',
    List.any_eq_false]
  left
  intro element member
  obtain ⟨token, isToken, rfl⟩ := List.mem_map.mp member
  rw [beq_iff_eq]
  exact (lexed token isToken).ne_delimiter

/-- What is malformed about a hashtag is its parameter list. -/
theorem malformation_hashtag
    (name : Token)
    (list : List Element) :
    malformation? (.node .hashtag [.ofToken name, .node .parameters list]) =
      if isMalformedList (.node .parameters list) then
        some (.directive (Element.node .hashtag
          [.ofToken name, .node .parameters list]).text)
      else none := by
  rw [malformation?]
  simp [Element.ofToken, isMalformedList]

/-- What a hashtag is read as: a name, a name with what its list holds, or
nothing when the list is malformed. -/
inductive Tagged (children : List Element) : Option Hashtag → Prop
  | named :
      malformation? (.node .hashtag children) = none →
      letters ≠ [] →
      (∀ character ∈ letters, Lexer.isTagLetter character = true) →
      Tagged children (some ⟨String.ofList letters, []⟩)
  | listed :
      malformation? (.node .hashtag children) = none →
      letters ≠ [] →
      (∀ character ∈ letters, Lexer.isTagLetter character = true) →
      '\n' ∉ inside →
      '\x7d' ∉ inside →
      Tagged children
        (some ⟨String.ofList letters, Hashtag.parametersOf inside⟩)
  | malformed :
      malformation? (.node .hashtag children) =
        some (.directive (Element.node .hashtag children).text) →
      Tagged children none

/-- Every hashtag in the tree of a source is read so. -/
theorem tagged_ofSource
    (production : Production .hashtag children following) :
    Tagged children
      (Hashtag.ofSource? (Element.node .hashtag children).text.toList) := by
  obtain ⟨token, rest, last, after, lexed, atom⟩ := production.exists_atom rfl
    (fun mark => by cases mark <;> decide)
  -- A hashtag is a name alone, a name with a closed list, or a name with a list that
  -- ends with its line.
  cases atom with
  | span isRaw =>
      generalize token.kind = mark at isRaw
      cases isRaw
  | tag isName =>
      obtain ⟨letters, nonempty, areLetters, written⟩ :=
        lexed.head.spelled_hashtagName isName
      have text : (Element.node .hashtag [.ofToken token]).text.toList =
          '#' :: letters := by
        rw [toList_text]
        simp [Element.leavesOf, Element.ofToken, Element.leaves, written]
      rw [text, ofSource_name nonempty areLetters]
      exact .named rfl nonempty areLetters
  | @call inside _ opening closing _ isName isOpening parameters isClosing =>
      obtain ⟨letters, nonempty, areLetters, written⟩ :=
        lexed.head.spelled_hashtagName isName
      have openingText : opening.text = "\x7b" :=
        lexed.of_cons.head.text_of_sign isOpening rfl
      have closingText : closing.text = "\x7d" :=
        (lexed closing (by simp)).text_of_sign isClosing rfl
      obtain ⟨noFeed, noBrace⟩ := notMem_of_isParameter
        (fun part member => lexed part (by simp [member])) parameters
      have own := malformation_hashtag token
        (.ofDelimiter opening :: inside.map .ofToken ++ [.ofDelimiter closing])
      rw [isMalformedList_closed openingText closingText] at own
      rw [toList_text_hashtag, toList_text_closedList, written, openingText,
        closingText]
      have read := ofSource_list nonempty areLetters (spelled inside ++ ['\x7d'])
      rw [stripLast_concat, Option.bind_some] at read
      cases empty : (spelled inside).isEmpty with
      | true =>
          rw [empty, Bool.true_or, if_pos rfl] at read
          rw [empty, if_pos rfl] at own
          exact read ▸ .malformed own
      | false =>
          rw [empty, Bool.false_or, if_neg (by simpa using noFeed)] at read
          rw [empty, if_neg Bool.false_ne_true] at own
          exact read ▸ .listed own nonempty areLetters noFeed noBrace
  | @openCall inside after _ opening isName isOpening parameters ended =>
      obtain ⟨letters, nonempty, areLetters, written⟩ :=
        lexed.head.spelled_hashtagName isName
      have insideLexed : AllLexed inside :=
        fun part member => lexed part (by simp [member])
      have openingText : opening.text = "\x7b" :=
        lexed.of_cons.head.text_of_sign isOpening rfl
      have own := malformation_hashtag token
        (.ofDelimiter opening :: inside.map .ofToken)
      rw [isMalformedList_open opening insideLexed, if_pos rfl] at own
      rw [toList_text_hashtag, toList_text_openList, written, openingText]
      have read := ofSource_list nonempty areLetters (spelled inside)
      rw [stripLast_of_notMem
        (notMem_of_isParameter insideLexed parameters).2] at read
      exact read ▸ .malformed own

/-- A hashtag fails to be read exactly when its parameter list is malformed. -/
theorem malformationOf_hashtag
    (production : Production .hashtag children following) :
    malformationOf (hashtag (Element.node .hashtag children).text) =
      malformation? (.node .hashtag children) := by
  have tagged := tagged_ofSource production
  rw [hashtag]
  generalize Hashtag.ofSource? _ = result at tagged
  cases tagged with
  | named own => exact own.symm
  | listed own => exact own.symm
  | malformed own => exact own.symm

/-! ## Blocks -/

/-- The block of a node fails with the first malformation of the node and what is
inside it, when the blocks and rows of its children do. -/
theorem malformationOf_blockOf
    (production : Production kind children following)
    (held : Kind.paragraph.holds kind = true)
    (grown : Grown kind children)
    (inside : Grown .paragraph children →
      malformationOf (blocksOf "" children) = firstMalformation children)
    (insideRows : Grown .table children →
      malformationOf (rowsOf children) = firstMalformation children) :
    malformationOf (blockOf kind children) =
      (malformation? (.node kind children)).or (firstMalformation children) := by
  cases kind with
  | heading =>
      obtain ⟨level, found⟩ := isOk_headingLevel production
      rw [blockOf, found, ← inside (grown.of_container (by decide))]
      cases blocksOf "" children <;> rfl
  | orderedItem =>
      obtain ⟨tokens, leaf, blank, middle, others, _, isMarker, _, rfl⟩ :=
        production.exists_marker rfl
      cases isMarker with
      | orderedItem _ isNumber =>
          rw [blockOf, ← malformationOf_ordinal isNumber,
            ← inside (grown.of_container (by decide))]
          cases ordinal _ with
          | error malformation => rfl
          | ok number => cases blocksOf "" _ <;> rfl
  | bold | italics | underline | strikeout | unorderedItem =>
      rw [blockOf, malformationOf_map, inside (grown.of_container (by decide))]
      rfl
  | table =>
      rw [blockOf, malformationOf_map, insideRows grown]
      rfl
  | hashtag =>
      rw [blockOf, malformationOf_map, malformationOf_hashtag production,
        firstMalformation_of_hashtag grown, Option.or_none]
  | literal | codeBlock | checkbox | textbox | quotation | mention =>
      rw [blockOf, firstMalformation_of_leaves (grown.of_leaf fun _ => rfl)]
      rfl
  | _ => cases held

mutual

/-- Elements read as blocks fail with the first malformation among them and what
is inside them. -/
theorem malformationOf_blocksOf :
    ∀ elements text, Grown .paragraph elements →
      malformationOf (blocksOf text elements) = firstMalformation elements
  | [], text, _ => by
      rw [blocksOf]
      rfl
  | .leaf kind more :: others, text, grown => by
      rw [blocksOf, firstMalformation_leaf]
      exact malformationOf_blocksOf others _ grown.tail
  | .node kind children :: others, text, grown => by
      obtain ⟨following, production⟩ := grown.production List.mem_cons_self
      have here := malformationOf_blockOf production
        (grown.held kind children List.mem_cons_self)
        (grown.child List.mem_cons_self)
        (malformationOf_blocksOf children "")
        (malformationOf_rowsOf children)
      rw [blocksOf, firstMalformation_cons, findSome_subtrees_node, ← here,
        ← malformationOf_blocksOf others "" grown.tail]
      cases blockOf kind children with
      | error malformation => rfl
      | ok block => cases blocksOf "" others <;> rfl

/-- Elements read as rows fail with the first malformation inside them. -/
theorem malformationOf_rowsOf :
    ∀ elements, Grown .table elements →
      malformationOf (rowsOf elements) = firstMalformation elements
  | [], _ => by
      rw [rowsOf]
      rfl
  | .leaf kind text :: others, grown => by
      rw [rowsOf, firstMalformation_leaf]
      exact malformationOf_rowsOf others grown.tail
  | .node kind children :: others, grown => by
      have isRow : kind = .tableRow :=
        eq_of_beq (grown.held kind children List.mem_cons_self)
      subst isRow
      have here := malformationOf_cellsOf children
        (grown.child List.mem_cons_self)
      rw [rowsOf, if_pos rfl, firstMalformation_cons, findSome_subtrees_node,
        ← here, ← malformationOf_rowsOf others grown.tail]
      cases cellsOf children with
      | error malformation => rfl
      | ok row => exact malformationOf_map _ _

/-- Elements read as cells fail with the first malformation inside them. -/
theorem malformationOf_cellsOf :
    ∀ elements, Grown .tableRow elements →
      malformationOf (cellsOf elements) = firstMalformation elements
  | [], _ => by
      rw [cellsOf]
      rfl
  | .leaf kind text :: others, grown => by
      rw [cellsOf, firstMalformation_leaf]
      exact malformationOf_cellsOf others grown.tail
  | .node kind children :: others, grown => by
      have isCell : kind = .tableCell :=
        eq_of_beq (grown.held kind children List.mem_cons_self)
      subst isCell
      have here := malformationOf_blocksOf children ""
        ((grown.child List.mem_cons_self).of_container (by decide))
      rw [cellsOf, if_pos rfl, firstMalformation_cons, findSome_subtrees_node,
        ← here, ← malformationOf_cellsOf others grown.tail]
      cases blocksOf "" children with
      | error malformation => rfl
      | ok cell => exact malformationOf_map _ _

end

/-- Elements read as paragraphs fail with the first malformation inside them. -/
theorem malformationOf_paragraphsOf
    (grown : Grown .root elements) :
    malformationOf (paragraphsOf elements) = firstMalformation elements := by
  induction elements with
  | nil => rfl
  | cons first others inductionHypothesis =>
      have later := inductionHypothesis grown.tail
      cases first with
      | leaf kind text => rw [paragraphsOf, firstMalformation_leaf, later]
      | node kind children =>
          have isParagraph : kind = .paragraph :=
            eq_of_beq (grown.held kind children List.mem_cons_self)
          subst isParagraph
          have here := malformationOf_blocksOf children ""
            (grown.child List.mem_cons_self)
          rw [paragraphsOf, if_pos rfl, firstMalformation_cons,
            findSome_subtrees_node, ← here, ← later]
          cases blocksOf "" children with
          | error malformation => rfl
          | ok blocks => exact malformationOf_map _ _

/-! ## What is never reported -/

/-- A reading that is wrapped gives no block that the wrapping does not make. -/
theorem map_ne_ok
    {wrap : α → Block}
    (other : ∀ value, wrap value ≠ block)
    (result : Except Malformation α) :
    result.map wrap ≠ .ok block := by
  intro same
  cases result with
  | error malformation => cases same
  | ok value => exact other value (Except.ok.inj same)

/-- The block of a node in a paragraph or a container is no text. -/
theorem blockOf_ne_text
    (held : Kind.paragraph.holds kind = true)
    (text : String) :
    blockOf kind children ≠ .ok (.text text) := by
  intro read
  cases kind with
  | heading =>
      rw [blockOf] at read
      cases level : headingLevel children with
      | error malformation =>
          rw [level] at read
          cases read
      | ok level => cases inside : blocksOf "" children <;> simp_all
  | orderedItem =>
      rw [blockOf] at read
      cases number : ordinal children with
      | error malformation =>
          rw [number] at read
          cases read
      | ok number => cases inside : blocksOf "" children <;> simp_all
  | literal | codeBlock | checkbox | textbox | quotation | mention =>
      rw [blockOf] at read
      cases read
  | bold | italics | underline | strikeout | unorderedItem | hashtag | table =>
      rw [blockOf] at read
      refine map_ne_ok ?_ _ read
      intro value same
      cases same
  | _ => cases held

/-- Every node whose block is asked for stands where a block may stand. -/
theorem holds_of_asked
    (asked : Asked elements kind children)
    (grown : Grown .paragraph elements) :
    Kind.paragraph.holds kind = true := by
  induction asked with
  | here member => exact grown.held _ _ member
  | inside member isContainer _ inductionHypothesis =>
      exact inductionHypothesis ((grown.child member).of_container
        (List.mem_cons_of_mem _ isContainer))
  | cell table row cell _ inductionHypothesis =>
      exact inductionHypothesis
        ((((grown.child table).child row).child cell).of_container (by decide))

/-- A heading is never what is malformed. -/
theorem malformation_ne_heading
    (element : Element)
    (text : String) :
    malformation? element ≠ some (.marker .heading text) := by
  unfold malformation?
  split <;> try split
  all_goals
    intro same
    cases same

end Reading

/-- Reading a source fails exactly when its tree has an ordered item whose marker
writes a number above 4294967295, or a hashtag whose parameter list is not closed
or is a pair of braces. What is reported is the first such node of the source, a
node before what is inside it. It is never a heading, and every node whose block
is asked for has a block of its own, not the text it covers. -/
theorem malformation_exact (source : String) :
    (∀ malformation, ofSource source = .error malformation ↔
      (parse source).subtrees.findSome? malformation? = some malformation) ∧
    ((∃ malformation, ofSource source = .error malformation) ↔
      ∃ element ∈ (parse source).subtrees,
        (malformation? element).isSome = true) ∧
    (∀ text, ofSource source ≠ .error (.marker .heading text)) ∧
    ∀ paragraph, .node .paragraph paragraph ∈ (parse source).children →
      ∀ kind children, Asked paragraph kind children →
        ∀ text, Reading.blockOf kind children ≠ .ok (.text text) := by
  have grown := Reading.grown_parse source
  have first : Reading.malformationOf (ofSource source) =
      (parse source).subtrees.findSome? malformation? :=
    Reading.malformationOf_paragraphsOf grown
  have exactly (malformation : Malformation) :
      ofSource source = .error malformation ↔
        (parse source).subtrees.findSome? malformation? =
          some malformation := by
    rw [← first]
    cases ofSource source with
    | error found => simp [Reading.malformationOf]
    | ok document => simp [Reading.malformationOf]
  refine ⟨exactly, ?_, ?_, ?_⟩
  · rw [← List.findSome?_isSome_iff, Option.isSome_iff_exists]
    exact exists_congr exactly
  · intro text failed
    obtain ⟨element, _, found⟩ :=
      List.exists_of_findSome?_eq_some ((exactly _).mp failed)
    exact Reading.malformation_ne_heading element text found
  · intro paragraph member kind children asked text
    exact Reading.blockOf_ne_text
      (Reading.holds_of_asked asked (grown.child member)) text

end Document
end NotePress
