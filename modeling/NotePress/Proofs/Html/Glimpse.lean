import NotePress.Proofs.Html.Balance

/-!
# What is seen of a page

Two partial views of a page. In one, tags are looked at only for what they refer
to, and texts are seen character by character. In the other, texts are passed over
and tags are seen with their names and the names of their attributes. Both are
told from the pieces of a page when these are legible.
-/

namespace NotePress
namespace Html

/-! ## Texts and references -/

/-- What is seen of a page where tags are looked at only for what they refer
to. -/
inductive Glimpse
  | character (single : Char)
  | tag (references : List String)
  deriving DecidableEq, Repr

/-- What an attribute refers to. -/
def reference? : String × Option String → Option String
  | (name, value) => if name ∈ ["href", "src"] then value else none

/-- What is seen of a sign. -/
def Sign.glimpse? : Sign → Option Glimpse
  | character single => some (.character single)
  | tag inside =>
      (attributesOf? inside).map fun attributes =>
        .tag (attributes.filterMap reference?)

/-- The texts of a page, cut at its tags, and what the tags refer to. -/
def glimpses? (written : String) : Option (List Glimpse) :=
  (signs? written).bind fun signs => signs.mapM Sign.glimpse?

/-- The glimpses of a text. -/
def glimpsesOf (text : String) : List Glimpse :=
  text.toList.map .character

/-- What attributes refer to. -/
def referencesOf (attributes : List Attribute) : List String :=
  (attributes.map Attribute.reading).filterMap reference?

/-- What is seen of a piece. -/
def Piece.glimpses : Piece → List Glimpse
  | .opening _ attributes => [.tag (referencesOf attributes)]
  | .closing _ => [.tag []]
  | .void _ attributes => [.tag (referencesOf attributes)]
  | .text content => glimpsesOf content
  | .constant content => glimpsesOf content
  | .raw content => glimpsesOf content

/-- All characters of a text are seen. -/
theorem glimpse_characters (text : List Char) :
    (text.map Sign.character).mapM Sign.glimpse? =
      some (text.map .character) := by
  induction text with
  | nil => rfl
  | cons first others inductionHypothesis =>
      rw [List.map_cons, List.mapM_cons, inductionHypothesis]
      rfl

/-- A closing tag has no attributes. -/
theorem attributesOf_closing
    (name : String)
    (isName : IsName name.toList) :
    attributesOf? ('/' :: name.toList) = some [] := by
  have parts := takeWhile_name name.toList [] isName (by simp [Separated])
  rw [List.append_nil] at parts
  rw [attributesOf?, List.dropWhile_cons_of_pos (by decide), parts.2,
    attributesFrom]

/-- What is seen of the signs of a legible piece is what is seen of the piece. -/
theorem glimpse_piece
    (piece : Piece)
    (legible : piece.Legible) :
    piece.signs.mapM Sign.glimpse? = some piece.glimpses := by
  cases piece with
  | opening tag attributes =>
      obtain ⟨isName, _, attributesLegible⟩ := legible
      obtain ⟨_, _, read⟩ := read_inside tag.text attributes [] isName
        attributesLegible (by decide)
      rw [List.append_nil] at read
      rw [Piece.signs, List.mapM_cons, Sign.glimpse?, read]
      rfl
  | closing tag =>
      rw [Piece.signs, List.mapM_cons, Sign.glimpse?,
        attributesOf_closing tag.text legible]
      rfl
  | void tag attributes =>
      obtain ⟨_, _, read⟩ := read_inside tag.name attributes
        tag.ending.toList.dropLast (isName_voidTag tag) legible
        (ending_voidTag tag)
      rw [Piece.signs, List.mapM_cons, Sign.glimpse?, read]
      rfl
  | text content => exact glimpse_characters content.toList
  | constant content => exact glimpse_characters content.toList
  | raw content => exact legible.elim

theorem glimpse_pieces
    (pieces : List Piece)
    (legible : ∀ piece ∈ pieces, piece.Legible) :
    (pieces.flatMap Piece.signs).mapM Sign.glimpse? =
      some (pieces.flatMap Piece.glimpses) := by
  induction pieces with
  | nil => rfl
  | cons first others inductionHypothesis =>
      rw [List.flatMap_cons, List.mapM_append,
        glimpse_piece first (legible first List.mem_cons_self),
        inductionHypothesis fun piece member =>
          legible piece (List.mem_cons_of_mem first member)]
      rfl

/-- The texts and references in a page of legible pieces are those of the
pieces. -/
theorem glimpses_print
    {pieces : List Piece}
    (legible : ∀ piece ∈ pieces, piece.Legible) :
    glimpses? (print pieces) = some (pieces.flatMap Piece.glimpses) := by
  rw [glimpses?, signs_print pieces legible, Option.bind_some,
    glimpse_pieces pieces legible]

/-! ## Shapes of tags -/

/-- A tag without the values of its attributes. -/
structure TagShape where
  closing : Bool
  name : String
  attributeNames : List String
  deriving DecidableEq, Repr

/-- The shape of a tag. -/
def tagShape? (inside : List Char) : Option TagShape :=
  (attributesOf? inside).map fun attributes =>
    ⟨isClosing inside, nameOf inside, attributes.map Prod.fst⟩

/-- What a sign has between brackets, if it is a tag. -/
def Sign.inside? : Sign → Option (List Char)
  | character _ => none
  | tag inside => some inside

/-- The shapes of the tags of a page, in order. -/
def tagShapes? (written : String) : Option (List TagShape) :=
  (signs? written).bind fun signs =>
    (signs.filterMap Sign.inside?).mapM tagShape?

/-- The shape of a tag with attributes. -/
def shapeOf (name : String) (attributes : List Attribute) : TagShape :=
  ⟨false, name, (attributes.map Attribute.reading).map Prod.fst⟩

/-- The shapes of the tags in a piece. -/
def Piece.shapes : Piece → List TagShape
  | .opening tag attributes => [shapeOf tag.text attributes]
  | .closing tag => [⟨true, tag.text, []⟩]
  | .void tag attributes => [shapeOf tag.name attributes]
  | _ => []

/-- A text has no tags. -/
theorem inside_characters (text : List Char) :
    (text.map Sign.character).filterMap Sign.inside? = [] := by
  rw [List.filterMap_eq_nil_iff]
  intro sign member
  obtain ⟨single, _, rfl⟩ := List.mem_map.mp member
  rfl

/-- The shape of a tag is told by its name and the names of its attributes. -/
theorem tagShape_inside
    (name : String)
    (attributes : List Attribute)
    (ending : List Char)
    (isName : IsName name.toList)
    (legible : ∀ each ∈ attributes, each.Legible)
    (ends : ending ∈ [[], [' ', '/']]) :
    tagShape? (name.toList ++ attributesWritten attributes ++ ending) =
      some (shapeOf name attributes) := by
  obtain ⟨opens, named, read⟩ :=
    read_inside name attributes ending isName legible ends
  rw [tagShape?, opens, named, read]
  rfl

/-- The tags among the signs of a legible piece have the shapes of the piece. -/
theorem shapes_piece
    (piece : Piece)
    (legible : piece.Legible) :
    (piece.signs.filterMap Sign.inside?).mapM tagShape? =
      some piece.shapes := by
  cases piece with
  | opening tag attributes =>
      obtain ⟨isName, _, attributesLegible⟩ := legible
      have shape := tagShape_inside tag.text attributes [] isName
        attributesLegible (by decide)
      rw [List.append_nil] at shape
      have single : (Piece.opening tag attributes).signs.filterMap
          Sign.inside? =
          [tag.text.toList ++ attributesWritten attributes] := rfl
      rw [single, List.mapM_cons, shape]
      rfl
  | closing tag =>
      have closes := (read_closing tag.text legible).1
      have named := (read_closing tag.text legible).2
      have single : (Piece.closing tag).signs.filterMap Sign.inside? =
          ['/' :: tag.text.toList] := rfl
      rw [single, List.mapM_cons, tagShape?, closes, named,
        attributesOf_closing tag.text legible]
      rfl
  | void tag attributes =>
      have shape := tagShape_inside tag.name attributes
        tag.ending.toList.dropLast (isName_voidTag tag) legible
        (ending_voidTag tag)
      have single : (Piece.void tag attributes).signs.filterMap Sign.inside? =
          [tag.name.toList ++ attributesWritten attributes ++
            tag.ending.toList.dropLast] := rfl
      rw [single, List.mapM_cons, shape]
      rfl
  | text content =>
      rw [Piece.signs, inside_characters]
      rfl
  | constant content =>
      rw [Piece.signs, inside_characters]
      rfl
  | raw content => exact legible.elim

theorem shapes_pieces
    (pieces : List Piece)
    (legible : ∀ piece ∈ pieces, piece.Legible) :
    ((pieces.flatMap Piece.signs).filterMap Sign.inside?).mapM tagShape? =
      some (pieces.flatMap Piece.shapes) := by
  induction pieces with
  | nil => rfl
  | cons first others inductionHypothesis =>
      rw [List.flatMap_cons, List.filterMap_append, List.mapM_append,
        shapes_piece first (legible first List.mem_cons_self),
        inductionHypothesis fun piece member =>
          legible piece (List.mem_cons_of_mem first member)]
      rfl

/-- The tags in a page of legible pieces have the shapes of those of the
pieces. -/
theorem tagShapes_print
    {pieces : List Piece}
    (legible : ∀ piece ∈ pieces, piece.Legible) :
    tagShapes? (print pieces) = some (pieces.flatMap Piece.shapes) := by
  rw [tagShapes?, signs_print pieces legible, Option.bind_some,
    shapes_pieces pieces legible]

end Html
end NotePress
