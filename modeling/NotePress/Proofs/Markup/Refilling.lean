import NotePress.Proofs.Markup.Lookahead

/-!
# Refilling verbatim content

What stands between the delimiters of a literal, a quotation or a parameter list
is not looked into, so other tokens can be put there. The rules of the grammar
then make the same elements of the tokens around it, as long as every delimiter
before it finds what it found.
-/

namespace NotePress
namespace Markup

/-! ## Verbatim nodes and what replaces their content -/

/-- The kinds of the nodes between delimiters whose content is not looked into,
with the kinds of their delimiters. -/
inductive Encloses : Kind → Kind → Kind → Prop
  | literal : Encloses .literal .backtick .backtick
  | quotation : Encloses .quotation .quote .quote
  | parameters : Encloses .parameters .leftBrace .rightBrace

/-- The kind of a node tells its delimiters. -/
theorem Encloses.unique
    (first : Encloses kind opening closing)
    (second : Encloses kind other last) :
    opening = other ∧ closing = last := by
  cases first <;> cases second <;> exact ⟨rfl, rfl⟩

/-- Literals, quotations and parameter lists are all that is between delimiters. -/
theorem Encloses.mem (encloses : Encloses kind opening closing) :
    kind ∈ [Kind.literal, .quotation, .parameters] := by
  cases encloses <;> decide

/-- A verbatim node, and tokens that can stand between its delimiters. -/
structure Refilling where
  kind : Kind
  opening : Token
  closing : Token
  old : List Token
  new : List Token
  encloses : Encloses kind opening.kind closing.kind
  nonempty : new ≠ []
  inside : ∀ token ∈ new, token.kind ≠ .newline ∧ token.kind ≠ closing.kind
  lexed : AllLexed new

/-- Different tokens are different leaves. -/
theorem Element.ofToken_injective : Function.Injective Element.ofToken := by
  rintro ⟨kind, text⟩ ⟨other, content⟩ same
  cases same
  rfl

/-- A delimiter of a known kind is told by its text. -/
theorem Element.eq_of_ofDelimiter
    {token other : Token}
    (alike : token.kind = other.kind)
    (same : ofDelimiter token = ofDelimiter other) :
    token = other := by
  obtain ⟨kind, text⟩ := token
  cases alike
  cases same
  rfl

/-- No token of the lexer is a delimiter of the tree. -/
theorem Element.delimiter_notMem
    (lexed : AllLexed tokens)
    (text : String) :
    .leaf .delimiter text ∉ tokens.map ofToken := by
  intro member
  obtain ⟨token, inside, same⟩ := List.mem_map.mp member
  exact (lexed token inside).ne_delimiter (Element.leaf.inj same).1

/-- A node with some elements between two delimiters. -/
def Element.enclosed
    (kind : Kind)
    (opening : String)
    (inside : List Element)
    (closing : String) : Element :=
  .node kind
    (.leaf .delimiter opening :: inside ++ [.leaf .delimiter closing])

/-- The leaves of a node between delimiters are those inside, between the delimiters. -/
theorem leavesOf_enclosed
    (opening : String)
    (inside : List Element)
    (closing : String) :
    Element.leavesOf (.leaf .delimiter opening :: inside ++
        [.leaf .delimiter closing]) =
      ⟨.delimiter, opening⟩ :: Element.leavesOf inside ++
        [⟨.delimiter, closing⟩] := by
  rw [List.cons_append, Element.leavesOf, Element.leavesOf_append]
  rfl

namespace Refilling

/-- Content that is not looked into starts at a backtick, a quote or a brace. -/
theorem opening_cases (refilling : Refilling) :
    refilling.opening.kind = .backtick ∨ refilling.opening.kind = .quote ∨
      refilling.opening.kind = .leftBrace := by
  have encloses := refilling.encloses
  generalize refilling.kind = kind at encloses
  generalize refilling.opening.kind = opening at encloses ⊢
  generalize refilling.closing.kind = closing at encloses
  cases encloses <;> decide

/-- A run of another kind ends before the node. -/
theorem opening_beq
    {kind : Kind}
    (refilling : Refilling)
    (other : kind ∉ [Kind.backtick, .quote, .leftBrace]) :
    (refilling.opening.kind == kind) = false := by
  rw [beq_eq_false_iff_ne]
  rintro rfl
  apply other
  rcases refilling.opening_cases with kind | kind | kind
  all_goals
    rw [kind]
    decide

/-- The node as it was. -/
def before (refilling : Refilling) : Element :=
  .enclosed refilling.kind refilling.opening.text
    (refilling.old.map .ofToken) refilling.closing.text

/-- The node with other tokens in it. -/
def after (refilling : Refilling) : Element :=
  .enclosed refilling.kind refilling.opening.text
    (refilling.new.map .ofToken) refilling.closing.text

/-- Elements, and the same elements after the node has been refilled. -/
inductive Elements
    (refilling : Refilling) : List Element → List Element → Prop
  | here :
      refilling.Elements (refilling.before :: others)
        (refilling.after :: others)
  | inside {kind : Kind} :
      refilling.Elements children refilled →
      refilling.Elements (.node kind children :: others)
        (.node kind refilled :: others)
  | later :
      refilling.Elements others refilled →
      refilling.Elements (first :: others) (first :: refilled)

/-- Tokens, and the same tokens after the node has been refilled. -/
inductive Tokens (refilling : Refilling) : List Token → List Token → Prop
  | here :
      refilling.Tokens
        (refilling.opening :: refilling.old ++ refilling.closing :: rest)
        (refilling.opening :: refilling.new ++ refilling.closing :: rest)
  | later :
      refilling.Tokens tokens refilled →
      refilling.Tokens (token :: tokens) (token :: refilled)

/-- Elements read off tokens with the tokens that were left, and the same after
the node has been refilled among the elements or after them. -/
inductive Parts
    (refilling : Refilling) :
    List Element → List Token → List Element → List Token → Prop
  | inside :
      refilling.Elements elements refilled →
      refilling.Parts elements rest refilled rest
  | after :
      refilling.Tokens rest refilled →
      refilling.Parts elements rest elements refilled

variable {refilling : Refilling}

/-! ## The node -/

/-- The node tells what it was made of. -/
theorem of_before
    {kind : Kind}
    {opening closing : Token}
    (same : refilling.before =
      .node kind (.ofDelimiter opening :: content.map .ofToken ++
        [.ofDelimiter closing]))
    (encloses : Encloses kind opening.kind closing.kind) :
    refilling.kind = kind ∧ refilling.opening = opening ∧
      refilling.old = content ∧ refilling.closing = closing := by
  obtain ⟨sameKind, parts⟩ := Element.node.inj same
  subst sameKind
  obtain ⟨opensAlike, closesAlike⟩ := refilling.encloses.unique encloses
  obtain ⟨opens, others⟩ := List.cons.inj parts
  obtain ⟨inside, closes⟩ := List.append_inj' others rfl
  exact ⟨rfl, Element.eq_of_ofDelimiter opensAlike opens,
    List.map_injective_iff.mpr Element.ofToken_injective inside,
    Element.eq_of_ofDelimiter closesAlike (List.cons.inj closes).1⟩

/-- An open list of tokens is not the refilled node, which is closed. -/
theorem before_ne_opened
    {kind : Kind}
    {opening : Token}
    {inside : List Token}
    (lexed : AllLexed inside) :
    refilling.before ≠
      .node kind (.ofDelimiter opening :: inside.map .ofToken) := by
  intro same
  obtain ⟨_, parts⟩ := List.cons.inj (Element.node.inj same).2
  apply Element.delimiter_notMem lexed refilling.closing.text
  rw [← parts]
  simp

/-! ## Refilled elements -/

namespace Elements

/-- Leaves have no node that could be refilled. -/
theorem not_of_leaves
    {elements : List Element}
    (leaves : ∀ element ∈ elements, ∃ kind text, element = .leaf kind text) :
    ¬refilling.Elements elements refilled := by
  intro changed
  induction changed with
  | here =>
      obtain ⟨kind, text, same⟩ := leaves _ List.mem_cons_self
      cases same
  | inside =>
      obtain ⟨kind, text, same⟩ := leaves _ List.mem_cons_self
      cases same
  | later _ inductionHypothesis =>
      exact inductionHypothesis fun element member =>
        leaves element (List.mem_cons_of_mem _ member)

theorem prepend
    (changed : refilling.Elements elements refilled)
    (front : List Element) :
    refilling.Elements (front ++ elements) (front ++ refilled) := by
  induction front with
  | nil => exact changed
  | cons first others inductionHypothesis => exact .later inductionHypothesis

/-- After a leaf, the refilled node is among the other elements. -/
theorem of_leaf
    {kind : Kind}
    (changed : refilling.Elements (.leaf kind text :: others) refilled) :
    ∃ later, refilled = .leaf kind text :: later ∧
      refilling.Elements others later := by
  cases changed with
  | later changed => exact ⟨_, rfl, changed⟩

/-- The refilled node is in the first piece or in the second. -/
theorem of_append
    (changed : refilling.Elements (first ++ second) refilled) :
    (∃ front, refilled = front ++ second ∧ refilling.Elements first front) ∨
      ∃ back, refilled = first ++ back ∧ refilling.Elements second back := by
  induction first generalizing refilled with
  | nil => exact .inr ⟨refilled, rfl, changed⟩
  | cons element others inductionHypothesis =>
      cases changed with
      | here => exact .inl ⟨_ :: others, rfl, .here⟩
      | inside changed => exact .inl ⟨_ :: others, rfl, .inside changed⟩
      | later changed =>
          rcases inductionHypothesis changed with
            ⟨front, rfl, here⟩ | ⟨back, rfl, there⟩
          · exact .inl ⟨_ :: front, rfl, .later here⟩
          · exact .inr ⟨back, rfl, there⟩

/-- What stands in front of leaves is what has been refilled. -/
theorem of_append_leaves
    (changed : refilling.Elements (first ++ second) refilled)
    (leaves : ∀ element ∈ second, ∃ kind text, element = .leaf kind text) :
    ∃ front, refilled = front ++ second ∧ refilling.Elements first front := by
  rcases changed.of_append with front | ⟨back, _, there⟩
  · exact front
  · exact absurd there (not_of_leaves leaves)

/-- The node is the first element, stands in it or after it. -/
theorem of_cons
    (changed : refilling.Elements (first :: others) refilled) :
    (refilling.before = first ∧ refilled = refilling.after :: others) ∨
      (∃ kind children inner, first = .node kind children ∧
        refilled = .node kind inner :: others ∧
        refilling.Elements children inner) ∨
      ∃ later, refilled = first :: later ∧ refilling.Elements others later := by
  cases changed with
  | here => exact .inl ⟨rfl, rfl⟩
  | inside changed => exact .inr (.inl ⟨_, _, _, rfl, rfl, changed⟩)
  | later changed => exact .inr (.inr ⟨_, rfl, changed⟩)

theorem not_of_nil : ¬refilling.Elements [] refilled :=
  not_of_leaves (List.forall_mem_nil _)

/-- A delimiter and tokens have no node among them. -/
theorem not_of_opened
    {opening : Token}
    {leafOf : Token → Element}
    (leaves : ∀ token, ∃ kind text, leafOf token = .leaf kind text)
    (tokens : List Token) :
    ¬refilling.Elements (.ofDelimiter opening :: tokens.map leafOf) refilled := by
  apply not_of_leaves
  rw [List.forall_mem_cons, List.forall_mem_map]
  exact ⟨⟨_, _, rfl⟩, fun token _ => leaves token⟩

/-- Tokens between delimiters have no node among them. -/
theorem not_of_enclosed
    {opening closing : Token}
    {leafOf : Token → Element}
    (leaves : ∀ token, ∃ kind text, leafOf token = .leaf kind text)
    (tokens : List Token) :
    ¬refilling.Elements
      (.ofDelimiter opening :: tokens.map leafOf ++ [.ofDelimiter closing])
      refilled := by
  intro changed
  obtain ⟨front, _, inside⟩ := changed.of_append_leaves (by
    rw [List.forall_mem_singleton]
    exact ⟨_, _, rfl⟩)
  exact not_of_opened leaves tokens inside

/-- What stands between two delimiters is what has been refilled. -/
theorem of_enclosed
    {opening closing : Token}
    (changed : refilling.Elements
      (.ofDelimiter opening :: content ++ [.ofDelimiter closing]) refilled) :
    ∃ front, refilled =
        .ofDelimiter opening :: front ++ [.ofDelimiter closing] ∧
      refilling.Elements content front := by
  obtain ⟨later, rfl, inLater⟩ := changed.of_leaf
  obtain ⟨front, rfl, inside⟩ := inLater.of_append_leaves (by
    rw [List.forall_mem_singleton]
    exact ⟨_, _, rfl⟩)
  exact ⟨front, rfl, inside⟩

end Elements

/-! ## Refilled tokens -/

namespace Tokens

theorem append
    (changed : refilling.Tokens tokens refilled)
    (front : List Token) :
    refilling.Tokens (front ++ tokens) (front ++ refilled) := by
  induction front with
  | nil => exact changed
  | cons token others inductionHypothesis => exact .later inductionHypothesis

/-- What stands before the node and after it stays. -/
theorem exists_split (changed : refilling.Tokens tokens refilled) :
    ∃ front back,
      tokens = front ++
        (refilling.opening :: refilling.old ++ refilling.closing :: back) ∧
      refilled = front ++
        (refilling.opening :: refilling.new ++ refilling.closing :: back) := by
  induction changed with
  | @here back => exact ⟨[], back, rfl, rfl⟩
  | @later _ _ token _ inductionHypothesis =>
      obtain ⟨front, back, rfl, rfl⟩ := inductionHypothesis
      exact ⟨token :: front, back, rfl, rfl⟩

/-- The first token stays. -/
theorem exists_cons (changed : refilling.Tokens tokens refilled) :
    ∃ first others later,
      tokens = first :: others ∧ refilled = first :: later := by
  cases changed with
  | here => exact ⟨_, _, _, rfl, rfl⟩
  | later => exact ⟨_, _, _, rfl, rfl⟩

/-- There is at least the opening delimiter, before the refilling and after it. -/
theorem ne_nil (changed : refilling.Tokens tokens refilled) :
    tokens ≠ [] ∧ refilled ≠ [] := by
  obtain ⟨first, others, later, rfl, rfl⟩ := changed.exists_cons
  exact ⟨List.cons_ne_nil _ _, List.cons_ne_nil _ _⟩

/-- A token of the refilled ones starts the node or stands before it. -/
theorem of_cons (changed : refilling.Tokens tokens (token :: refilled)) :
    token = refilling.opening ∨
      ∃ others, tokens = token :: others ∧ refilling.Tokens others refilled := by
  generalize same : token :: refilled = all at changed
  cases changed with
  | here => exact .inl (List.cons.inj same).1
  | later changed =>
      cases same
      exact .inr ⟨_, rfl, changed⟩

/-- Refilled tokens are tokens of the lexer when the others were. -/
theorem allLexed
    (changed : refilling.Tokens tokens refilled)
    (lexed : AllLexed tokens) :
    AllLexed refilled := by
  induction changed with
  | @here rest =>
      intro token member
      simp only [List.cons_append, List.mem_cons, List.mem_append] at member
      rcases member with rfl | inNew | rfl | inRest
      · exact lexed.head
      · exact refilling.lexed token inNew
      · exact lexed _ (by simp)
      · exact lexed token (by simp [inRest])
  | later _ inductionHypothesis =>
      intro token member
      rcases List.mem_cons.mp member with rfl | inside
      · exact lexed.head
      · exact inductionHypothesis lexed.of_cons token inside

/-- Refilled tokens start with the same kinds. -/
theorem startsWith
    (changed : refilling.Tokens tokens refilled)
    (kind : Kind) :
    Line.startsWith kind refilled = Line.startsWith kind tokens := by
  obtain ⟨first, others, later, rfl, rfl⟩ := changed.exists_cons
  rfl

/-- A line ends where it did. -/
theorem atLineEnd (changed : refilling.Tokens tokens refilled) :
    Line.atLineEnd refilled = Line.atLineEnd tokens := by
  obtain ⟨first, others, later, rfl, rfl⟩ := changed.exists_cons
  rfl

/-- A test stops at the same token. -/
theorem stopsAt
    (changed : refilling.Tokens tokens refilled)
    (stops : Kind → Bool) :
    Inline.stopsAt stops refilled = Inline.stopsAt stops tokens := by
  obtain ⟨first, others, later, rfl, rfl⟩ := changed.exists_cons
  rfl

/-- A delimiter before the refilled node may open a span when it could. -/
theorem mayOpen
    (changed : refilling.Tokens tokens refilled)
    (previous mark : Kind) :
    Markup.mayOpen previous mark (restOfLine (refilled.map Token.kind)) =
      Markup.mayOpen previous mark (restOfLine (tokens.map Token.kind)) := by
  obtain ⟨first, others, later, rfl, rfl⟩ := changed.exists_cons
  unfold Markup.mayOpen
  rw [List.map_cons, List.map_cons]
  by_cases newline : first.kind = .newline
  · rw [newline, restOfLine_newline, restOfLine_newline]
  · rw [restOfLine_cons newline, restOfLine_cons newline]
    rfl

/-- A blank line stays blank, and no other line becomes one. -/
theorem atBlankLine (changed : refilling.Tokens tokens refilled) :
    Parse.atBlankLine refilled = Parse.atBlankLine tokens := by
  cases changed with
  | here =>
      rw [List.cons_append, List.cons_append, Parse.atBlankLine,
        Parse.atBlankLine]
      rcases refilling.opening_cases with kind | kind | kind
      all_goals
        rw [kind]
        rfl
  | later changed =>
      rw [Parse.atBlankLine, Parse.atBlankLine, changed.atLineEnd]

/-- A paragraph goes on with refilled tokens when it did. -/
theorem atVisible (changed : refilling.Tokens tokens refilled) :
    Line.atVisible refilled = Line.atVisible tokens := by
  rw [Line.atVisible, Line.atVisible, changed.atBlankLine]
  obtain ⟨first, others, later, rfl, rfl⟩ := changed.exists_cons
  rfl

/-- A run of a class without the delimiter stays. -/
theorem run
    (changed : refilling.Tokens tokens refilled)
    {test : Token → Bool}
    (stops : test refilling.opening = false) :
    refilled.takeWhile test = tokens.takeWhile test ∧
      refilling.Tokens (tokens.dropWhile test) (refilled.dropWhile test) := by
  induction changed with
  | here =>
      simp only [List.cons_append, List.takeWhile_cons, List.dropWhile_cons,
        stops]
      exact ⟨rfl, .here⟩
  | @later tokens refilled token changed inductionHypothesis =>
      simp only [List.takeWhile_cons, List.dropWhile_cons]
      split
      · exact ⟨congrArg _ inductionHypothesis.1, inductionHypothesis.2⟩
      · exact ⟨rfl, .later changed⟩

/-- A heading starts where it did. -/
theorem headingLevel (changed : refilling.Tokens tokens refilled) :
    Line.headingLevel? refilled = Line.headingLevel? tokens := by
  have stops := opening_beq refilling (by decide : Kind.hash ∉ _)
  obtain ⟨taken, left⟩ := @run _ _ _ changed (·.kind == .hash) stops
  rw [Line.headingLevel?, Line.headingLevel?, taken, left.startsWith]

/-- Where content starts with a backtick, the delimiter is none. -/
theorem opening_ne_backtick
    {first : Token}
    (isFirst : refilling.new.head? = some first)
    (isBacktick : first.kind = .backtick) :
    refilling.opening.kind ≠ .backtick := by
  intro opens
  have encloses := refilling.encloses
  have member : first ∈ refilling.new := List.mem_of_head? isFirst
  have other := (refilling.inside first member).2
  rw [opens] at encloses
  generalize refilling.kind = kind at encloses
  generalize refilling.closing.kind = closing at encloses other
  cases encloses
  exact other isBacktick

/-- No new content makes a fence. -/
theorem atFence
    (changed : refilling.Tokens tokens refilled)
    (unfenced : Line.atFence tokens = false) :
    Line.atFence refilled = false := by
  obtain ⟨content, others, new⟩ := List.exists_cons_of_ne_nil refilling.nonempty
  have isFirst : refilling.new.head? = some content := by
    rw [new]
    rfl
  have apart : ¬(refilling.opening.kind = .backtick ∧
      content.kind = .backtick) :=
    fun both => opening_ne_backtick isFirst both.2 both.1
  rw [← Bool.not_eq_true] at unfenced ⊢
  intro fenced
  apply unfenced
  cases changed with
  | @here rest =>
      rw [new] at fenced
      cases others with
      | nil | cons =>
          simp only [List.cons_append, List.nil_append, Line.atFence,
            Bool.and_eq_true, beq_iff_eq] at fenced
          exact absurd fenced.1 apart
  | later changed =>
      cases changed with
      | here =>
          rw [new] at fenced
          simp only [List.cons_append, Line.atFence, Bool.and_eq_true,
            beq_iff_eq] at fenced
          exact absurd ⟨fenced.1.2, fenced.2⟩ apart
      | later changed =>
          obtain ⟨first, others, later, rfl, rfl⟩ := changed.exists_cons
          exact fenced

/-- A line that starts with text still does. -/
theorem startsText
    (changed : refilling.Tokens tokens refilled)
    (starts : Line.startsText tokens = true) :
    Line.startsText refilled = true := by
  have level := changed.headingLevel
  have fence := changed.atFence
  cases changed with
  | here =>
      simp only [List.cons_append, Line.startsText] at starts fence ⊢
      rcases refilling.opening_cases with kind | kind | kind
      · rw [kind] at starts ⊢
        simp only [Bool.not_eq_true'] at starts ⊢
        exact fence starts
      · rw [kind]
      · rw [kind]
  | later changed =>
      simp only [Line.startsText] at starts ⊢
      rw [level, changed.startsWith]
      split <;> simp_all

end Tokens

/-! ## Refilled elements and tokens -/

namespace Parts

/-- Without elements, the tokens that were left have been refilled. -/
theorem of_nil (changed : refilling.Parts [] rest elements left) :
    elements = [] ∧ refilling.Tokens rest left := by
  cases changed with
  | inside changed => exact absurd changed Elements.not_of_nil
  | after changed => exact ⟨rfl, changed⟩

/-- The first element is the refilled node, holds it, or stands in front of it. -/
theorem of_cons (changed : refilling.Parts (first :: others) rest refilled left) :
    (refilling.before = first ∧ refilled = refilling.after :: others ∧
      left = rest) ∨
    (∃ kind children inner, first = .node kind children ∧
      refilled = .node kind inner :: others ∧ left = rest ∧
      refilling.Elements children inner) ∨
    ∃ later, refilled = first :: later ∧
      refilling.Parts others rest later left := by
  cases changed with
  | inside changed =>
      rcases changed.of_cons with
        ⟨same, whole⟩ | ⟨kind, children, inner, same, whole, inside⟩ |
          ⟨later, whole, others⟩
      · exact .inl ⟨same, whole, rfl⟩
      · exact .inr (.inl ⟨kind, children, inner, same, whole, rfl, inside⟩)
      · exact .inr (.inr ⟨later, whole, .inside others⟩)
  | after changed => exact .inr (.inr ⟨others, rfl, .after changed⟩)

/-- After a leaf, the other elements or the tokens that were left are refilled. -/
theorem of_leaf
    {kind : Kind}
    (changed :
      refilling.Parts (.leaf kind text :: others) rest refilled left) :
    ∃ later, refilled = .leaf kind text :: later ∧
      refilling.Parts others rest later left := by
  rcases changed.of_cons with ⟨same, _⟩ | ⟨_, _, _, same, _⟩ | later
  · cases same
  · cases same
  · exact later

/-- A node of another kind is not the refilled one. -/
theorem of_node
    {kind : Kind}
    (changed :
      refilling.Parts (.node kind children :: others) rest refilled left)
    (other : kind ∉ [Kind.literal, .quotation, .parameters]) :
    (∃ inner, refilled = .node kind inner :: others ∧ left = rest ∧
      refilling.Elements children inner) ∨
    ∃ later, refilled = .node kind children :: later ∧
      refilling.Parts others rest later left := by
  rcases changed.of_cons with ⟨same, _⟩ | ⟨_, _, inner, same, inside⟩ | later
  · rw [← (Element.node.inj same).1] at other
    exact absurd refilling.encloses.mem other
  · cases same
    exact .inl ⟨inner, inside⟩
  · exact .inr later

/-- The children of the only node are refilled, or what comes after it is. -/
theorem of_only
    {kind : Kind}
    (changed : refilling.Parts [.node kind children] rest refilled left)
    (other : kind ∉ [Kind.literal, .quotation, .parameters]) :
    ∃ inner, refilled = [.node kind inner] ∧
      refilling.Parts children rest inner left := by
  rcases changed.of_node other with
    ⟨inner, rfl, rfl, inNode⟩ | ⟨later, rfl, inLater⟩
  · exact ⟨inner, rfl, .inside inNode⟩
  · obtain ⟨rfl, inRest⟩ := inLater.of_nil
    exact ⟨children, rfl, .after inRest⟩

/-- The refilled node is in the first piece, or in the second and what comes after
it. -/
theorem of_append
    (changed : refilling.Parts (first ++ second) rest refilled left) :
    (∃ front, refilled = front ++ second ∧ left = rest ∧
      refilling.Elements first front) ∨
      ∃ back, refilled = first ++ back ∧
        refilling.Parts second rest back left := by
  cases changed with
  | inside changed =>
      rcases changed.of_append with ⟨front, whole, inFirst⟩ | ⟨back, whole, inBack⟩
      · exact .inl ⟨front, whole, rfl, inFirst⟩
      · exact .inr ⟨back, whole, .inside inBack⟩
  | after changed => exact .inr ⟨second, rfl, .after changed⟩

/-- After leaves, only what comes next is refilled. -/
theorem of_leaves
    {elements : List Element}
    (changed : refilling.Parts elements rest refilled left)
    (leaves : ∀ element ∈ elements, ∃ kind text, element = .leaf kind text) :
    refilled = elements ∧ refilling.Tokens rest left := by
  cases changed with
  | inside changed => exact absurd changed (Elements.not_of_leaves leaves)
  | after changed => exact ⟨rfl, changed⟩

/-- Refilled tokens that were left are tokens of the lexer when the others were. -/
theorem allLexed
    (changed : refilling.Parts elements rest refilled left)
    (lexed : AllLexed rest) :
    AllLexed left := by
  cases changed with
  | inside => exact lexed
  | after changed => exact changed.allLexed lexed

/-- A line ends after the elements where it did. -/
theorem atLineEnd (changed : refilling.Parts elements rest refilled left) :
    Line.atLineEnd left = Line.atLineEnd rest := by
  cases changed with
  | inside => rfl
  | after changed => exact changed.atLineEnd

/-- A paragraph goes on after the elements when it did. -/
theorem atVisible (changed : refilling.Parts elements rest refilled left) :
    Line.atVisible left = Line.atVisible rest := by
  cases changed with
  | inside => rfl
  | after changed => exact changed.atVisible

end Parts

end Refilling

open Refilling (Elements Tokens)

variable {refilling : Refilling}

/-! ## Refilled lines -/

/-- What follows the content of a span on its line. -/
theorem Traced.restOfLine_closing
    {closing : Token}
    (traced : Traced previous tokens signs last rest)
    (same : restOfLine following = restOfLine (rest.map Token.kind)) :
    restOfLine (closing.kind :: (signs.map Sign.kind ++ following)) =
      restOfLine ((closing :: tokens).map Token.kind) := by
  rw [List.map_cons, traced.kinds]
  exact restOfLine_append_congr same (_ :: _)

namespace Inline

/-- A delimiter decides as it did. -/
theorem opens_of_answered
    {mark style : Kind}
    (isStyle : mark.style? = some style)
    (decided : opens previous mark rest = opened)
    (changed : refilling.Tokens rest refilled)
    (traced : Traced mark refilled signs last left)
    (same : restOfLine following = restOfLine (left.map Token.kind))
    (answered : Answered previous following (⟨mark, some opened⟩ :: signs)) :
    opens previous mark refilled = opened := by
  have next : restOfLine (signs.map Sign.kind ++ following) =
      restOfLine (refilled.map Token.kind) := by
    rw [traced.kinds]
    exact restOfLine_append_congr same _
  have answer := answered.1 opened rfl
  simp only [next, changed.mayOpen] at answer
  rw [Bool.eq_iff_iff, opens_iff isStyle, changed.mayOpen]
  constructor
  · rintro ⟨possible, partner⟩
    exact (answer possible).mpr partner
  · rintro rfl
    have possible := ((opens_iff isStyle rest).mp decided).1
    exact ⟨possible, (answer possible).mp rfl⟩

/-- The first token of a kind on a line is its closing delimiter. -/
theorem splitAtClosing_of_all
    {mark : Kind}
    {closing : Token}
    (other : ∀ token ∈ inside, token.kind ≠ .newline ∧ token.kind ≠ mark)
    (visible : mark ≠ .newline)
    (isClosing : closing.kind = mark)
    (after : List Token) :
    splitAtClosing mark (inside ++ closing :: after) =
      some (inside, closing, after) :=
  splitAtClosing_eq_some_iff.mpr ⟨rfl, isClosing, visible, other⟩

/-- What comes before a closing delimiter is no such delimiter, and no line ending. -/
theorem other_of_splitAtClosing
    (divided : splitAtClosing mark tokens = some (inside, closing, after)) :
    ∀ token ∈ inside, token.kind ≠ .newline ∧ token.kind ≠ mark :=
  (splitAtClosing_eq_some_iff.mp divided).2.2.2

/-- A bracket that was no checkbox is none in front of refilled tokens. -/
theorem checkbox_refilled
    (changed : refilling.Tokens rest refilled)
    (token : Token)
    (missing : checkbox? token rest = none) :
    checkbox? token refilled = none := by
  rw [Option.eq_none_iff_forall_ne_some]
  intro parsed found
  obtain ⟨tick, closing, whole, ticked, isClosing, _⟩ :=
    eq_of_checkbox token refilled found
  rw [whole] at changed
  rcases changed.of_cons with rfl | ⟨others, rfl, later⟩
  · rcases refilling.opening_cases with kind | kind | kind
    all_goals simp [isTick, kind] at ticked
  · obtain ⟨first, others, more, rfl, same⟩ := later.exists_cons
    cases same
    simp [checkbox?, ticked, isClosing] at missing

/-- A bracket that was no text box is none in front of refilled tokens. -/
theorem textbox_refilled
    (changed : refilling.Tokens rest refilled)
    (token : Token)
    (missing : textbox? token rest = none) :
    textbox? token refilled = none := by
  rw [Option.eq_none_iff_forall_ne_some]
  intro parsed found
  obtain ⟨blanks, closing, whole, nonempty, isBlank, isClosing, _⟩ :=
    eq_of_textbox token refilled found
  have stops := Refilling.opening_beq refilling (by decide : Kind.underscore ∉ _)
  obtain ⟨taken, left⟩ := @Tokens.run _ _ _ changed (·.kind == .underscore) stops
  obtain ⟨isBlanks, isLeft⟩ :=
    takeWhile_underscores isBlank isClosing parsed.rest
  rw [← whole] at isBlanks isLeft
  rw [isLeft] at left
  obtain ⟨first, others, later, remains, same⟩ := left.exists_cons
  cases same
  rw [textbox_of_dropWhile token remains, ← taken, isBlanks,
    if_pos (by simp [isClosing, nonempty])] at missing
  cases missing

/-- An atom before the refilled node. -/
theorem Atom.refill_after
    (atom : Atom token rest first last after)
    (changed : refilling.Tokens after refilled)
    (lexed : token.IsLexed)
    (same : restOfLine following = restOfLine (refilled.map Token.kind))
    (answered : Answered previous following (Element.signs false first)) :
    ∃ others, refilling.Tokens rest others ∧
      Atom token others first last refilled := by
  cases atom with
  | bare other => exact ⟨refilled, changed, .bare other⟩
  | unmatched isRaw missing =>
      refine ⟨refilled, changed, .unmatched isRaw ?_⟩
      rw [Element.signs_ofToken lexed] at answered
      have answer := answered.1 false rfl
      simp only [List.map_nil, List.nil_append, same] at answer
      rw [← Option.not_isSome_iff_eq_none, isSome_splitAtClosing]
      intro partner
      have possible : mayOpen previous token.kind
          (restOfLine (refilled.map Token.kind)) = true := by
        generalize token.kind = mark at isRaw
        cases isRaw <;> rfl
      exact Bool.false_ne_true ((answer possible).mpr partner)
  | bracket isBracket unticked unboxed =>
      exact ⟨refilled, changed, .bracket isBracket
        (checkbox_refilled changed token unticked)
        (textbox_refilled changed token unboxed)⟩
  | @span kind _ inside closing after _ isRaw divided =>
      refine ⟨inside ++ closing :: refilled, ?_, .span isRaw ?_⟩
      · rw [splitAtClosing_append divided]
        exact changed.later.append inside
      · refine splitAtClosing_of_all (other_of_splitAtClosing divided) ?_
          (kind_of_splitAtClosing divided) refilled
        generalize token.kind = mark at isRaw
        cases isRaw <;> decide
  | @checkbox tick _ closing after isBracket ticked isClosing =>
      exact ⟨_, changed.later.later, .checkbox isBracket ticked isClosing⟩
  | @textbox blanks _ closing after isBracket nonempty isBlank isClosing =>
      exact ⟨_, changed.later.append blanks,
        .textbox isBracket nonempty isBlank isClosing⟩
  | tag isName bare =>
      exact ⟨refilled, changed, .tag isName (by rw [changed.startsWith, bare])⟩
  | @call inside _ opening closing after isName isOpening all isClosing =>
      exact ⟨_, changed.later.append (opening :: inside),
        .call isName isOpening all isClosing⟩
  | @openCall inside after _ opening isName isOpening all ended =>
      exact ⟨_, changed.append (opening :: inside),
        .openCall isName isOpening all (by rw [changed.atLineEnd, ended])⟩
  | mention isName => exact ⟨refilled, changed, .mention isName⟩

/-- Verbatim content is between two delimiters of one kind, and they are no line
endings. -/
theorem IsRaw.encloses
    {mark kind : Kind}
    (isRaw : IsRaw mark kind) :
    Encloses kind mark mark ∧ mark ≠ .newline := by
  cases isRaw with
  | literal => exact ⟨.literal, Kind.noConfusion⟩
  | quotation => exact ⟨.quotation, Kind.noConfusion⟩

/-- An atom that is the refilled node. -/
theorem Atom.refill_here
    (atom : Atom token rest refilling.before last after) :
    ∃ others, refilling.Tokens (token :: rest) (token :: others) ∧
      Atom token others refilling.after last after := by
  generalize same : refilling.before = first at atom
  cases atom with
  | @span kind _ inside closing _ _ isRaw divided =>
      obtain ⟨encloses, visible⟩ := isRaw.encloses
      have isClosing := kind_of_splitAtClosing divided
      obtain ⟨rfl, rfl, rfl, rfl⟩ := refilling.of_before same
        (by rw [isClosing]; exact encloses)
      rw [splitAtClosing_append divided]
      have other := refilling.inside
      rw [isClosing] at other
      exact ⟨refilling.new ++ refilling.closing :: after, .here,
        .span isRaw (splitAtClosing_of_all other visible isClosing after)⟩
  | bare | unmatched | bracket => cases same
  | checkbox | textbox | tag | call | openCall | mention =>
      have encloses := refilling.encloses
      rw [(Element.node.inj same).1] at encloses
      cases encloses

/-- An atom that holds the refilled node. -/
theorem Atom.refill_inside
    {kind : Kind}
    (atom : Atom token rest (.node kind children) last after)
    (changed : Elements refilling children refilled)
    (lexed : AllLexed (token :: rest)) :
    ∃ others, refilling.Tokens (token :: rest) (token :: others) ∧
      Atom token others (.node kind refilled) last after := by
  have leaves (token : Token) :
      ∃ kind text, Element.ofToken token = .leaf kind text := ⟨_, _, rfl⟩
  cases atom with
  | @call inside _ opening closing _ isName isOpening all isClosing =>
      obtain ⟨_, rfl, parameters⟩ := changed.of_leaf
      rcases parameters.of_cons with
        ⟨same, rfl⟩ | ⟨_, _, _, same, _, nested⟩ | ⟨_, _, nothing⟩
      · obtain ⟨isKind, rfl, rfl, rfl⟩ := refilling.of_before same
          (by rw [isOpening, isClosing]; exact .parameters)
        have other := refilling.inside
        simp only [isClosing] at other
        have all : ∀ part ∈ refilling.new, isParameter part = true := by
          simpa [isParameter] using other
        rw [Refilling.after, Element.enclosed, isKind]
        exact ⟨_, .later .here, .call isName isOpening all isClosing⟩
      · cases same
        exact absurd nested (Elements.not_of_enclosed leaves inside)
      · exact absurd nothing Elements.not_of_nil
  | @openCall inside _ _ opening isName isOpening all ended =>
      obtain ⟨_, rfl, parameters⟩ := changed.of_leaf
      rcases parameters.of_cons with
        ⟨same, _⟩ | ⟨_, _, _, same, _, nested⟩ | ⟨_, _, nothing⟩
      · refine absurd same (refilling.before_ne_opened ?_)
        exact fun part member => lexed part (by simp [member])
      · cases same
        exact absurd nested (Elements.not_of_opened leaves inside)
      · exact absurd nothing Elements.not_of_nil
  | span => exact absurd changed (Elements.not_of_enclosed leaves _)
  | checkbox => exact absurd changed (Elements.not_of_enclosed leaves [_])
  | textbox =>
      exact absurd changed
        (Elements.not_of_enclosed (fun _ => ⟨_, _, rfl⟩) _)
  | tag | mention =>
      obtain ⟨_, _, nothing⟩ := changed.of_leaf
      exact absurd nothing Elements.not_of_nil

/-- Styled spans are no verbatim nodes. -/
theorem notMem_of_style
    {mark style : Kind}
    (isStyle : mark.style? = some style) :
    style ∉ [Kind.literal, .quotation, .parameters] := by
  cases mark <;> cases isStyle <;> decide

/-- A span is closed as it was where something has been refilled in it or after
it, if its delimiters have right answers. -/
theorem Derives.closed_of_answered
    {token closing : Token}
    (inside : Derives (· == token.kind) token.kind refilled content between
      (closing :: middle))
    (after : Derives stops closing.kind middle others last left)
    (changed : refilling.Tokens rest refilled)
    (goesOn : stopsAt stops (token :: rest) = false)
    (isStyle : token.kind.style? = some style)
    (opened : opens previous token.kind rest = true)
    (isClosing : closing.kind = token.kind)
    (lexed : AllLexed refilled)
    (same : restOfLine following = restOfLine (left.map Token.kind))
    (answered : Answered previous following
      (⟨token.kind, some true⟩ :: (Element.signsOf false content ++
        ⟨closing.kind, none⟩ :: Element.signsOf false others))) :
    Derives stops previous (token :: refilled)
      (.node style
        (.ofDelimiter token :: content ++ [.ofDelimiter closing]) :: others)
      last left := by
  have afterTraced :=
    after.traced (lexed.of_suffix inside.reads.suffix).of_cons
  have traced := (inside.traced lexed).append
    ((Traced.quiet (.inl rfl)).append afterTraced)
  exact .closed goesOn isStyle
    (opens_of_answered isStyle opened changed traced same answered)
    inside isClosing after

/-- Elements among which or after which the node is refilled. -/
theorem Derives.refill
    (derives : Derives stops previous tokens content last rest)
    (changed : refilling.Parts content rest refilled left)
    (lexed : AllLexed tokens)
    (same : restOfLine following = restOfLine (left.map Token.kind))
    (answered : Answered previous following (Element.signsOf false refilled)) :
    ∃ others, refilling.Tokens tokens others ∧
      Derives stops previous others refilled last left := by
  -- What follows the elements may be refilled too, so that the induction goes through
  -- when the node is behind the element at hand.
  induction derives generalizing following refilled left with
  | done stopped =>
      obtain ⟨rfl, inRest⟩ := changed.of_nil
      exact ⟨left, inRest, .done (by rw [inRest.stopsAt, stopped])⟩
  | atom goesOn unstyled atom derives inductionHypothesis =>
      -- The atom is the node, holds it, or stands in front of it.
      rcases changed.of_cons with
        ⟨rfl, rfl, rfl⟩ | ⟨kind, children, inner, rfl, rfl, rfl, inside⟩ |
          ⟨later, rfl, inLater⟩
      · obtain ⟨others, changed, here⟩ := atom.refill_here
        exact ⟨_, changed, .atom goesOn unstyled here derives⟩
      · obtain ⟨others, changed, here⟩ := atom.refill_inside inside lexed
        exact ⟨_, changed, .atom goesOn unstyled here derives⟩
      · have restLexed := lexed.of_cons.of_suffix atom.suffix
        rw [Element.signsOf, Answered.append_iff,
          (atom.traced lexed unstyled _).final] at answered
        obtain ⟨middle, changedMiddle, after⟩ :=
          inductionHypothesis inLater restLexed same answered.2
        have traced := after.traced (changedMiddle.allLexed restLexed)
        obtain ⟨rest, changedRest, here⟩ := atom.refill_after changedMiddle
          lexed.head (by
            rw [traced.kinds]
            exact restOfLine_append_congr same _) answered.1
        exact ⟨_, changedRest.later, .atom goesOn unstyled here after⟩
  | @mark _ token _ _ _ _ _ _ goesOn isStyle plain derives
      inductionHypothesis =>
      obtain ⟨later, rfl, inLater⟩ := changed.of_leaf
      rw [← Element.ofToken, Element.signsOf,
        Element.signs_ofToken lexed.head] at answered
      obtain ⟨rest, changedRest, after⟩ :=
        inductionHypothesis inLater lexed.of_cons same answered.2
      have traced := after.traced (changedRest.allLexed lexed.of_cons)
      exact ⟨_, changedRest.later, .mark goesOn isStyle
        (opens_of_answered isStyle plain changedRest traced same answered)
        after⟩
  | @closed _ token _ style _ content _ closing middle others _ _ goesOn isStyle
      opened inside isClosing after inInside inOthers =>
      have restLexed := lexed.of_cons
      have closingLexed := restLexed.of_suffix inside.reads.suffix
      -- The node is in the span or behind it. Either way the span looks for its partner
      -- in refilled tokens, and the answers say that it finds one.
      rcases changed.of_node (notMem_of_style isStyle) with
        ⟨inner, rfl, rfl, inNode⟩ | ⟨later, rfl, inLater⟩
      · obtain ⟨front, rfl, inContent⟩ := inNode.of_enclosed
        rw [signsOf_closed lexed.head closingLexed.head isStyle isClosing]
          at answered
        have traced := after.traced closingLexed.of_cons
        obtain ⟨rest, changedRest, here⟩ := inInside (.inside inContent)
          restLexed (traced.restOfLine_closing same)
          (Answered.append_iff.mp answered.2).1
        exact ⟨_, changedRest.later,
          here.closed_of_answered after changedRest goesOn isStyle opened
            isClosing (changedRest.allLexed restLexed) same answered⟩
      · rw [signsOf_closed lexed.head closingLexed.head isStyle isClosing]
          at answered
        obtain ⟨insideAnswered, closes⟩ := Answered.append_iff.mp answered.2
        obtain ⟨left, changedLeft, after⟩ :=
          inOthers inLater closingLexed.of_cons same closes.2
        have traced := after.traced (changedLeft.allLexed closingLexed.of_cons)
        obtain ⟨rest, changedRest, here⟩ := inInside (.after changedLeft.later)
          restLexed (traced.restOfLine_closing same) insideAnswered
        exact ⟨_, changedRest.later,
          here.closed_of_answered after changedRest goesOn isStyle opened
            isClosing (changedRest.allLexed restLexed) same answered⟩
  | @unclosed _ token _ style _ content _ _ goesOn isStyle opened inside ended
      inductionHypothesis =>
      obtain ⟨inner, rfl, inNode⟩ := changed.of_only (notMem_of_style isStyle)
      obtain ⟨front, rfl, inContent⟩ := inNode.of_leaf
      rw [← Element.ofDelimiter] at answered
      rw [Element.signsOf, signs_of_style lexed.head isStyle, Element.signsOf,
        List.append_nil] at answered
      obtain ⟨rest, changedRest, after⟩ :=
        inductionHypothesis inContent lexed.of_cons same answered.2
      have traced := after.traced (changedRest.allLexed lexed.of_cons)
      exact ⟨_, changedRest.later, .unclosed goesOn isStyle
        (opens_of_answered isStyle opened changedRest traced same answered)
        after (by rw [changed.atLineEnd, ended])⟩

end Inline

end Markup
end NotePress
