import NotePress.Document.Reading
import NotePress.Proofs.Markup.Lossless
import NotePress.Proofs.Markup.Sections

/-!
# A blank line separates what is above it from what is below it

Two sources with an empty line between them have the tree of the upper one, the
line ending and the tree of the lower one, moved to where it stands now, and
their document is the paragraphs of the upper one and those of the lower one. The
upper source must end with its line and must not leave a code block open.
-/

namespace NotePress
namespace Markup

/-! ## Moved elements -/

namespace Located

/-- The elements directly below an element. -/
def children : Located → List Located
  | leaf _ _ _ _ => []
  | node _ _ _ children => children

mutual

/-- An element a number of bytes further on. -/
def shift (bytes : Nat) : Located → Located
  | leaf kind start stop text => .leaf kind (start + bytes) (stop + bytes) text
  | node kind start stop children =>
      .node kind (start + bytes) (stop + bytes) (shiftAll bytes children)

/-- Some elements a number of bytes further on. -/
def shiftAll (bytes : Nat) : List Located → List Located
  | [] => []
  | first :: others => shift bytes first :: shiftAll bytes others

end

theorem shiftAll_eq_map
    (bytes : Nat)
    (elements : List Located) :
    shiftAll bytes elements = elements.map (shift bytes) := by
  induction elements with
  | nil => rfl
  | cons first others inductionHypothesis =>
      rw [shiftAll, List.map_cons, inductionHypothesis]

/-- A moved element stops as much further on. -/
theorem stop_shift
    (bytes : Nat)
    (element : Located) :
    (element.shift bytes).stop = element.stop + bytes := by
  cases element <;> rfl

end Located

namespace Element

mutual

/-- An element that starts further on is moved as a whole. -/
theorem locate_add (place bytes : Nat) :
    ∀ element, locate (place + bytes) element =
      (locate place element).shift bytes
  | leaf kind text => by
      rw [locate, locate, Located.shift, Nat.add_right_comm]
  | node kind children => by
      rw [locate, locate, Located.shift, locateAll_add place bytes children]

/-- Elements that start further on are moved as a whole. -/
theorem locateAll_add (place bytes : Nat) :
    ∀ elements, locateAll (place + bytes) elements =
      (Located.shiftAll bytes (locateAll place elements).1,
        (locateAll place elements).2 + bytes)
  | [] => rfl
  | first :: others => by
      simp only [locateAll, locate_add place bytes first, Located.stop_shift,
        locateAll_add _ bytes others, Located.shiftAll]

end

/-- Elements are put where those before them stop. -/
theorem locateAll_append
    (place : Nat)
    (first second : List Element) :
    (locateAll place (first ++ second)).1 =
      (locateAll place first).1 ++
        (locateAll (locateAll place first).2 second).1 := by
  induction first generalizing place with
  | nil => rfl
  | cons element others inductionHypothesis =>
      simp only [List.cons_append, locateAll, inductionHypothesis]

theorem children_locate_node
    (place : Nat)
    (kind : Kind)
    (children : List Element) :
    ((Element.node kind children).locate place).children =
      (locateAll place children).1 := rfl

end Element

/-! ## Trees -/

/-- A line feed in front of a source is a line ending in front of its tokens. -/
theorem lex_lineFeed (below : String) :
    lex ("\n" ++ below) = ⟨.newline, "\n"⟩ :: lex below := by
  rw [lex, String.toList_append, show "\n".toList = ['\n'] from rfl,
    List.singleton_append, Lexer.tokens]
  rfl

/-- An empty line is a section by itself. -/
theorem sections_newline (tokens : List Token) :
    Parse.sections (⟨.newline, "\n"⟩ :: tokens) =
      .leaf .newline "\n" :: Parse.sections tokens := by
  have blank : Parse.atBlankLine (⟨.newline, "\n"⟩ :: tokens) = true := rfl
  rw [Parse.sections, if_pos blank]
  rfl

/-- The sections of two sources with an empty line between them. -/
theorem sections_between
    (above below : String)
    (ends : EndsIn (· = '\n') above.toList)
    (closed : Fenced (Parse.sections (lex above))) :
    Parse.sections (lex (above ++ "\n" ++ below)) =
      Parse.sections (lex above) ++
        .leaf .newline "\n" :: Parse.sections (lex below) := by
  rw [String.append_assoc, lex_append above _ ends, lex_lineFeed,
    Parse.sections_append _ (sourceLines_lex ends) closed rfl,
    sections_newline]

end Markup

namespace Document
namespace Reading

open Markup

/-- Paragraphs are read from the front, so the first malformation is reported. -/
theorem paragraphsOf_append (first second : List Element) :
    paragraphsOf (first ++ second) = do
      let front ← paragraphsOf first
      let back ← paragraphsOf second
      return front ++ back := by
  induction first with
  | nil => cases read : paragraphsOf second <;> simp [paragraphsOf, read] <;> rfl
  | cons element others inductionHypothesis =>
      cases element with
      | leaf kind text => exact inductionHypothesis
      | node kind children =>
          rw [List.cons_append, paragraphsOf, paragraphsOf, inductionHypothesis]
          split
          · cases blocksOf "" children with
            | error malformation => rfl
            | ok blocks =>
                cases paragraphsOf others with
                | error malformation => rfl
                | ok paragraphs =>
                    cases paragraphsOf second with
                    | error malformation => rfl
                    | ok later => rfl
          · rfl

end Reading

open Markup

/-- Let `above` be empty or end with a line feed, and let every code block in it
have its closing fence. Then a blank line after `above` is a hard boundary: the
elements of the whole are those of `above`, the line ending and those of `below`,
moved behind it, and the paragraphs are those of `above` and those of `below`. If
one of them is malformed, so is the whole, in the same way; `above` comes
first. -/
theorem blankLine_separates
    (above below : String)
    (ends : above = "" ∨ above.toList.getLast? = some '\n')
    (closed : ∀ element ∈ (parse above).subtrees,
      element.isOpenCodeBlock = false) :
    ((parse (above ++ "\n" ++ below)).locate 0).children =
      ((parse above).locate 0).children ++
        .leaf .newline above.utf8ByteSize (above.utf8ByteSize + 1) "\n" ::
          ((parse below).locate 0).children.map
            (Located.shift (above.utf8ByteSize + 1)) ∧
    ofSource (above ++ "\n" ++ below) = do
      let front ← ofSource above
      let back ← ofSource below
      return front ++ back := by
  have endsIn : EndsIn (· = '\n') above.toList := by
    rcases ends with rfl | isLast
    · exact .nil _
    · intro last member
      rw [isLast] at member
      exact (Option.mem_some.mp member).symm
  have fenced : Fenced (Parse.sections (lex above)) := fun element member =>
    closed element (Element.subtreesOf_subset_subtrees_node .root _ member)
  have sections := sections_between above below endsIn fenced
  have size : (Element.locateAll 0 (Parse.sections (lex above))).2 =
      above.utf8ByteSize := stop_locate_parse above
  refine ⟨?_, ?_⟩
  · have moved := Element.locateAll_add 0 (above.utf8ByteSize + 1)
      (Parse.sections (lex below))
    rw [Nat.zero_add, Located.shiftAll_eq_map] at moved
    simp only [parse, parseTokens, Element.children_locate_node, sections]
    rw [Element.locateAll_append, size, Element.locateAll]
    exact congrArg
      (fun after => _ ++ Located.leaf .newline _ _ "\n" :: after)
      (congrArg Prod.fst moved)
  · rw [ofSource, ofTree, parse, parseTokens, Element.children, sections,
      Reading.paragraphsOf_append, Reading.paragraphsOf]
    rfl

/-- A closed code block above a paragraph. -/
theorem blankLine_separates_codeBlock :
    "```sh\nls\n```\n".toList.getLast? = some '\n' ∧
    (∀ element ∈ (parse "```sh\nls\n```\n").subtrees,
      element.isOpenCodeBlock = false) ∧
    (ofSource ("```sh\nls\n```\n" ++ "\n" ++ "*a*")).map List.length =
      .ok 2 := by
  have ends : "```sh\nls\n```\n".toList.getLast? = some '\n' := by
    decide +kernel
  have closed : ∀ element ∈ (parse "```sh\nls\n```\n").subtrees,
      element.isOpenCodeBlock = false := by
    decide +kernel
  refine ⟨ends, closed, ?_⟩
  rw [(blankLine_separates "```sh\nls\n```\n" "*a*" (.inr ends)
    closed).2]
  decide +kernel

end Document
end NotePress
