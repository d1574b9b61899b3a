import Mathlib.Data.List.Forall2
import NotePress.Proofs.Markup.Productions

/-!
# What the elements of a line are made of

The leaves of the elements of a line hold the tokens of the line one by one, and
directly among the elements stand tokens that do not stop them and nodes of the
inline kinds.
-/

namespace NotePress
namespace Markup

/-! ## Leaves that spell tokens -/

/-- A leaf that holds one token, as it is or as a delimiter. -/
structure Token.Became (token leaf : Token) : Prop where
  text : leaf.text = token.text
  kind : leaf.kind = token.kind ∨ leaf.kind = .delimiter

/-- Leaves that hold the tokens of a line, one each. -/
structure Spells (tokens leaves : List Token) : Prop where
  became : List.Forall₂ Token.Became tokens leaves
  onLine : OnLine tokens

namespace Spells

theorem nil : Spells [] [] :=
  ⟨.nil, fun _ member => nomatch member⟩

theorem append
    (front : Spells first leaves)
    (back : Spells second others) :
    Spells (first ++ second) (leaves ++ others) := by
  refine ⟨List.rel_append front.became back.became, ?_⟩
  intro token member
  rcases List.mem_append.mp member with here | later
  · exact front.onLine token here
  · exact back.onLine token later

/-- Tokens become leaves one by one. -/
theorem ofTokens (onLine : OnLine tokens) :
    Spells tokens (Element.leavesOf (tokens.map .ofToken)) := by
  refine ⟨?_, onLine⟩
  clear onLine
  induction tokens with
  | nil => exact .nil
  | cons token others inductionHypothesis =>
      exact .cons ⟨rfl, .inl rfl⟩ inductionHypothesis

/-- Delimiters become leaves one by one. -/
theorem ofDelimiters (onLine : OnLine tokens) :
    Spells tokens (Element.leavesOf (tokens.map .ofDelimiter)) := by
  refine ⟨?_, onLine⟩
  clear onLine
  induction tokens with
  | nil => exact .nil
  | cons token others inductionHypothesis =>
      exact .cons ⟨rfl, .inr rfl⟩ inductionHypothesis

theorem ofDelimiter (visible : token.kind ≠ .newline) :
    Spells [token] [⟨.delimiter, token.text⟩] :=
  ofDelimiters fun _ member => List.mem_singleton.mp member ▸ visible

theorem ofToken (visible : token.kind ≠ .newline) :
    Spells [token] [⟨token.kind, token.text⟩] :=
  ofTokens fun _ member => List.mem_singleton.mp member ▸ visible

/-- The leaves have the text of the tokens. -/
theorem join_text (spells : Spells tokens leaves) :
    String.join (leaves.map Token.text) = String.join (tokens.map Token.text) := by
  have became := spells.became
  clear spells
  induction became with
  | nil => rfl
  | cons here _ inductionHypothesis =>
      rw [List.map_cons, List.map_cons, String.join_cons, String.join_cons,
        here.text, inductionHypothesis]

/-- Every leaf holds a token. -/
theorem exists_token
    (spells : Spells tokens leaves)
    (member : leaf ∈ leaves) :
    ∃ token ∈ tokens, token.Became leaf := by
  have became := spells.became
  clear spells
  induction became with
  | nil => cases member
  | cons here _ inductionHypothesis =>
      rcases List.mem_cons.mp member with rfl | later
      · exact ⟨_, List.mem_cons_self, here⟩
      · obtain ⟨token, isToken, became⟩ := inductionHypothesis later
        exact ⟨token, List.mem_cons_of_mem _ isToken, became⟩

/-- A leaf is of a kind of the tokens or a delimiter. -/
theorem kind_ne
    {kind : Kind}
    (spells : Spells tokens leaves)
    (apart : ∀ token ∈ tokens, token.kind ≠ kind)
    (visible : kind ≠ .delimiter) :
    ∀ leaf ∈ leaves, leaf.kind ≠ kind := by
  rintro leaf member rfl
  obtain ⟨token, isToken, became⟩ := spells.exists_token member
  exact became.kind.elim (fun same => apart token isToken same.symm) visible

/-- No leaf is a line ending. -/
theorem kind_ne_newline
    (spells : Spells tokens leaves) :
    ∀ leaf ∈ leaves, leaf.kind ≠ .newline :=
  spells.kind_ne spells.onLine (by decide)

/-- Every token is in a leaf. -/
theorem exists_leaf
    (spells : Spells tokens leaves)
    (member : token ∈ tokens) :
    ∃ leaf ∈ leaves, token.Became leaf := by
  have became := spells.became
  clear spells
  induction became with
  | nil => cases member
  | cons here _ inductionHypothesis =>
      rcases List.mem_cons.mp member with rfl | later
      · exact ⟨_, List.mem_cons_self, here⟩
      · obtain ⟨leaf, isLeaf, became⟩ := inductionHypothesis later
        exact ⟨leaf, List.mem_cons_of_mem _ isLeaf, became⟩

/-- Tokens between two delimiters. -/
theorem enclosed
    (inside : Spells tokens (Element.leavesOf elements))
    (openingVisible : opening.kind ≠ .newline)
    (closingVisible : closing.kind ≠ .newline) :
    Spells (opening :: tokens ++ [closing])
      (Element.leavesOf
        (.ofDelimiter opening :: elements ++ [.ofDelimiter closing])) := by
  have whole := ((ofDelimiter openingVisible).append inside).append
    (ofDelimiter closingVisible)
  rw [List.append_assoc] at whole
  rw [List.cons_append, List.cons_append, Element.leavesOf,
    Element.leavesOf_append]
  exact whole

end Spells

namespace Inline

/-- What is in a raw span is on the line. -/
theorem onLine_of_splitAtClosing
    (divided : splitAtClosing mark tokens = some (inside, closing, after)) :
    OnLine inside :=
  fun token member => ((splitAtClosing_eq_some_iff.mp divided).2.2.2 token member).1

/-- Parameters are on the line. -/
theorem onLine_of_isParameter
    (inside : ∀ part ∈ tokens, isParameter part = true) :
    OnLine tokens := by
  intro token member newline
  have parameter := inside token member
  simp [isParameter, newline] at parameter

/-- The leaves of an atom spell its tokens. -/
theorem Atom.spells
    (atom : Atom token rest first last after)
    (visible : token.kind ≠ .newline) :
    ∃ consumed, token :: rest = consumed ++ after ∧
      Spells consumed first.leaves := by
  cases atom with
  | bare => exact ⟨[token], rfl, .ofToken visible⟩
  | unmatched => exact ⟨[token], rfl, .ofToken visible⟩
  | bracket => exact ⟨[token], rfl, .ofToken visible⟩
  | @span kind _ inside closing after _ isRaw divided =>
      have closingVisible : closing.kind ≠ .newline := by
        rw [kind_of_splitAtClosing divided]
        exact visible
      refine ⟨token :: inside ++ [closing], ?_, Spells.enclosed
        (.ofTokens (onLine_of_splitAtClosing divided)) visible closingVisible⟩
      rw [splitAtClosing_append divided]
      simp
  | @checkbox tick _ closing after isBracket ticked isClosing =>
      have tickVisible : tick.kind ≠ .newline := by
        intro newline
        simpa [newline] using kind_of_isTick ticked
      have closingVisible : closing.kind ≠ .newline := by
        rw [isClosing]
        decide
      have ticks : Spells [tick] (Element.leavesOf [.ofToken tick]) :=
        .ofToken tickVisible
      exact ⟨[token, tick, closing], rfl, ticks.enclosed visible closingVisible⟩
  | @textbox blanks _ closing after isBracket nonempty isBlank isClosing =>
      have blankVisible : OnLine blanks := by
        intro blank member
        rw [isBlank blank member]
        decide
      refine ⟨token :: blanks ++ [closing], by simp,
        Spells.enclosed (.ofDelimiters blankVisible) visible ?_⟩
      rw [isClosing]
      decide
  | tag => exact ⟨[token], rfl, .ofToken visible⟩
  | @call inside _ opening closing after isName isOpening all isClosing =>
      refine ⟨token :: (opening :: inside ++ [closing]), by simp,
        (Spells.ofToken visible).append ?_⟩
      rw [Element.leavesOf, Element.leavesOf, List.append_nil]
      exact Spells.enclosed (.ofTokens (onLine_of_isParameter all))
        (by rw [isOpening]; decide) (by rw [isClosing]; decide)
  | @openCall inside after _ opening isName isOpening all ended =>
      have openingVisible : opening.kind ≠ .newline := by
        rw [isOpening]
        decide
      refine ⟨token :: opening :: inside, by simp,
        (Spells.ofToken visible).append ?_⟩
      rw [Element.leavesOf, Element.leavesOf, List.append_nil]
      exact (Spells.ofDelimiter openingVisible).append
        (.ofTokens (onLine_of_isParameter all))
  | mention => exact ⟨[token], rfl, .ofToken visible⟩

/-- The leaves of elements within a line spell their tokens. -/
theorem Derives.spells
    (derives : Derives stops previous tokens content last rest) :
    ∃ consumed, tokens = consumed ++ rest ∧
      Spells consumed (Element.leavesOf content) := by
  induction derives with
  | done => exact ⟨[], rfl, .nil⟩
  | atom goesOn _ atom _ inductionHypothesis =>
      obtain ⟨here, whole, spellsHere⟩ :=
        atom.spells (ne_newline_of_goesOn goesOn)
      obtain ⟨later, rfl, spellsLater⟩ := inductionHypothesis
      exact ⟨here ++ later, by rw [whole, List.append_assoc],
        spellsHere.append spellsLater⟩
  | @mark stops token rest _ _ _ _ _ goesOn _ _ _ inductionHypothesis =>
      obtain ⟨later, rfl, spellsLater⟩ := inductionHypothesis
      exact ⟨token :: later, rfl,
        (Spells.ofToken (ne_newline_of_goesOn goesOn)).append spellsLater⟩
  | @closed stops token rest _ _ _ _ closing middle _ _ _ goesOn isStyle _ _
      isClosing _ inInside inOthers =>
      have visible := ne_newline_of_goesOn goesOn
      obtain ⟨here, rfl, spellsHere⟩ := inInside
      obtain ⟨later, rfl, spellsLater⟩ := inOthers
      exact ⟨token :: here ++ [closing] ++ later, by simp,
        (Spells.enclosed spellsHere visible (isClosing ▸ visible)).append
          spellsLater⟩
  | @unclosed stops token rest _ _ _ _ _ goesOn _ _ _ _ inductionHypothesis =>
      have visible := ne_newline_of_goesOn goesOn
      obtain ⟨later, rfl, spellsLater⟩ := inductionHypothesis
      refine ⟨token :: later, rfl, ?_⟩
      rw [Element.leavesOf, Element.leavesOf, List.append_nil]
      exact (Spells.ofDelimiter visible).append spellsLater

/-! ## What stands directly among elements of a line -/

end Inline

namespace Kind

/-- The kinds of the nodes that a line is made of. -/
def isInline : Kind → Bool
  | bold | italics | underline | strikeout | literal | checkbox | textbox
  | quotation | hashtag | mention => true
  | _ => false

end Kind

namespace Inline

/-- An element among others that stop before tokens of some kinds. -/
inductive IsMember (stops : Kind → Bool) : Element → Prop
  | token {token : Token} :
      token.IsLexed →
      stops token.kind = false →
      IsMember stops (.ofToken token)
  | node :
      kind.isInline = true →
      (∀ mark, mark.style? = some kind → stops mark = false) →
      IsMember stops (.node kind children)

/-- A style has one delimiter. -/
theorem style_injective
    {first second style : Kind}
    (isFirst : first.style? = some style)
    (isSecond : second.style? = some style) :
    first = second := by
  cases first <;> cases isFirst <;> cases second <;> cases isSecond <;> rfl

/-- Styled spans are of an inline kind. -/
theorem isInline_of_style
    {mark style : Kind}
    (isStyle : mark.style? = some style) :
    style.isInline = true := by
  cases mark <;> cases isStyle <;> rfl

/-- Elements do not go on at a token that stops them. -/
theorem not_stops_of_goesOn
    (goesOn : stopsAt stops (token :: rest) = false) :
    stops token.kind = false := by
  simp only [stopsAt, Bool.or_eq_false_iff] at goesOn
  exact goesOn.2

/-- Raw spans are of inline kinds and no styled spans. -/
theorem inline_of_isRaw
    {kind : Kind}
    (isRaw : IsRaw delimiter kind) :
    kind.isInline = true ∧ ∀ mark : Kind, mark.style? ≠ some kind := by
  cases isRaw with
  | literal => exact ⟨rfl, fun mark => by cases mark <;> decide⟩
  | quotation => exact ⟨rfl, fun mark => by cases mark <;> decide⟩

/-- An atom that is a node is of an inline kind and no styled span. -/
theorem Atom.inline
    (atom : Atom token rest (.node kind children) last after) :
    kind.isInline = true ∧ ∀ mark : Kind, mark.style? ≠ some kind := by
  cases atom with
  | span isRaw => exact inline_of_isRaw isRaw
  | checkbox => exact ⟨rfl, fun mark => by cases mark <;> decide⟩
  | textbox => exact ⟨rfl, fun mark => by cases mark <;> decide⟩
  | tag => exact ⟨rfl, fun mark => by cases mark <;> decide⟩
  | call => exact ⟨rfl, fun mark => by cases mark <;> decide⟩
  | openCall => exact ⟨rfl, fun mark => by cases mark <;> decide⟩
  | mention => exact ⟨rfl, fun mark => by cases mark <;> decide⟩

/-- An atom that is a leaf is its token. -/
theorem Atom.eq_ofToken
    (atom : Atom token rest (.leaf kind text) last after) :
    Element.leaf kind text = .ofToken token := by
  generalize same : Element.leaf kind text = first at atom
  cases atom with
  | bare => rfl
  | unmatched => rfl
  | bracket => rfl
  | _ => cases same

/-- An atom whose token does not stop the elements is a member of them. -/
theorem Atom.isMember
    (atom : Atom token rest first last after)
    (lexed : token.IsLexed)
    (goesOn : stops token.kind = false) :
    IsMember stops first := by
  cases first with
  | leaf kind text =>
      rw [atom.eq_ofToken]
      exact .token lexed goesOn
  | node kind children =>
      obtain ⟨inline, unstyled⟩ := atom.inline
      exact .node inline fun mark isStyle => absurd isStyle (unstyled mark)

/-- A styled span whose delimiter does not stop the elements is a member of them. -/
theorem isMember_styled
    {style : Kind}
    (goesOn : stopsAt stops (token :: rest) = false)
    (isStyle : token.kind.style? = some style)
    (children : List Element) :
    IsMember stops (.node style children) := by
  refine .node (isInline_of_style isStyle) ?_
  intro mark alsoStyle
  rw [style_injective alsoStyle isStyle]
  exact not_stops_of_goesOn goesOn

/-- Whatever stands among derived elements is a member of them: a token that does not
stop them, or a node within a line. -/
theorem Derives.isMember
    (derives : Derives stops previous tokens content last rest)
    (lexed : AllLexed tokens) :
    ∀ child ∈ content, IsMember stops child := by
  induction derives with
  | done =>
      intro child member
      cases member
  | atom goesOn _ atom _ inductionHypothesis =>
      intro child member
      rcases List.mem_cons.mp member with rfl | later
      · exact atom.isMember lexed.head (not_stops_of_goesOn goesOn)
      · exact inductionHypothesis (lexed.of_cons.of_suffix atom.suffix) child
          later
  | mark goesOn _ _ _ inductionHypothesis =>
      intro child member
      rcases List.mem_cons.mp member with rfl | later
      · exact .token lexed.head (not_stops_of_goesOn goesOn)
      · exact inductionHypothesis lexed.of_cons child later
  | closed goesOn isStyle _ inside _ _ _ inOthers =>
      intro child member
      rcases List.mem_cons.mp member with rfl | later
      · exact isMember_styled goesOn isStyle _
      · exact inOthers
          (lexed.of_cons.of_suffix inside.reads.suffix).of_cons child later
  | unclosed goesOn isStyle =>
      intro child member
      rw [List.mem_singleton.mp member]
      exact isMember_styled goesOn isStyle _

end Inline

end Markup
end NotePress
