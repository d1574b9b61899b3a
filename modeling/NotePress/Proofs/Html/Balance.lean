import NotePress.Proofs.Html.Legible

/-!
# Balanced pieces

Which elements pieces leave open is told from the pieces alone, with a stack of
tags. On legible pieces a reader of the written form comes to the same elements.
-/

namespace NotePress
namespace Html

/-- The elements that are open after a piece, innermost first. Refused is a
closing tag that does not match the innermost open element. -/
def Piece.after (opened : List Tag) : Piece → Option (List Tag)
  | .opening tag _ => some (tag :: opened)
  | .closing tag =>
      match opened with
      | [] => none
      | innermost :: outer => if tag = innermost then some outer else none
  | _ => some opened

/-- Pieces that open some elements, outermost first, and leave them open. -/
def Leaves (pieces : List Piece) (tags : List Tag) : Prop :=
  ∀ opened, pieces.foldlM Piece.after opened = some (tags.reverse ++ opened)

/-- Pieces that close some elements, innermost first. -/
def Closes (pieces : List Piece) (tags : List Tag) : Prop :=
  ∀ opened, pieces.foldlM Piece.after (tags.reverse ++ opened) = some opened

theorem Leaves.nil : Leaves [] [] :=
  fun _ => rfl

/-- What pieces side by side leave open is what each of them does. -/
theorem Leaves.append
    {first second : List Piece}
    {outer inner : List Tag}
    (front : Leaves first outer)
    (back : Leaves second inner) :
    Leaves (first ++ second) (outer ++ inner) := by
  intro opened
  rw [List.foldlM_append, front opened, Option.bind_eq_bind, Option.bind_some,
    back, List.reverse_append, List.append_assoc]

/-- Pieces that close what pieces before them left open. -/
theorem Leaves.close
    {first second : List Piece}
    {tags : List Tag}
    (front : Leaves first tags)
    (back : Closes second tags) :
    Leaves (first ++ second) [] := by
  intro opened
  rw [List.foldlM_append, front opened, Option.bind_eq_bind, Option.bind_some,
    back]
  rfl

/-! ## Reading what is left open -/

/-- What is open after signs side by side is told from what is open after the first of
them. -/
theorem openAfter_append
    (opened : List String)
    (first second : List Sign) :
    openAfter opened (first ++ second) =
      (openAfter opened first).bind (openAfter · second) := by
  induction first generalizing opened with
  | nil => rfl
  | cons sign others inductionHypothesis =>
      cases sign with
      | character single => exact inductionHypothesis opened
      | tag inside =>
          rw [List.cons_append]
          simp only [openAfter]
          split
          · cases opened with
            | nil => rfl
            | cons innermost outer =>
                dsimp only
                split
                · exact inductionHypothesis outer
                · rfl
          · split
            · exact inductionHypothesis opened
            · exact inductionHypothesis _

/-- A text opens and closes nothing. -/
theorem openAfter_characters (opened : List String) (text : List Char) :
    openAfter opened (text.map .character) = some opened := by
  induction text with
  | nil => rfl
  | cons first others inductionHypothesis => exact inductionHypothesis

/-- The name of a void tag is that of a void element. -/
theorem name_mem_voidNames (tag : VoidTag) : tag.name ∈ voidNames := by
  cases tag <;> decide

theorem isName_voidTag (tag : VoidTag) : IsName tag.name.toList := by
  cases tag <;> decide

theorem ending_voidTag (tag : VoidTag) :
    tag.ending.toList.dropLast ∈ [[], [' ', '/']] := by
  cases tag <;> decide

/-- A reader comes to the elements that a legible piece leaves open. -/
theorem openAfter_piece
    (piece : Piece)
    (legible : piece.Legible)
    {opened left : List Tag}
    (leaves : piece.after opened = some left) :
    openAfter (opened.map Tag.text) piece.signs =
      some (left.map Tag.text) := by
  cases piece with
  | opening tag attributes =>
      obtain ⟨isName, notVoid, attributesLegible⟩ := legible
      obtain ⟨opens, named, _⟩ := read_inside tag.text attributes [] isName
        attributesLegible (by decide)
      cases leaves
      simp only [Piece.signs, openAfter, List.append_nil] at opens named ⊢
      rw [opens, named, if_neg Bool.false_ne_true, if_neg notVoid]
      rfl
  | closing tag =>
      obtain ⟨closes, named⟩ := read_closing tag.text legible
      cases opened with
      | nil => cases leaves
      | cons innermost outer =>
          rw [Piece.after] at leaves
          split at leaves
          next equal =>
            cases leaves
            simp only [Piece.signs, openAfter, List.map_cons]
            rw [closes, named, if_pos rfl, equal, if_pos rfl]
          next => cases leaves
  | void tag attributes =>
      obtain ⟨opens, named, _⟩ := read_inside tag.name attributes
        tag.ending.toList.dropLast (isName_voidTag tag) legible
        (ending_voidTag tag)
      cases leaves
      simp only [Piece.signs, openAfter]
      rw [opens, named, if_neg Bool.false_ne_true,
        if_pos (name_mem_voidNames tag)]
  | text content =>
      cases leaves
      exact openAfter_characters _ content.toList
  | constant content =>
      cases leaves
      exact openAfter_characters _ content.toList
  | raw content => exact legible.elim

/-- A reader comes to the elements that legible pieces leave open. -/
theorem openAfter_pieces
    (pieces : List Piece)
    (legible : ∀ piece ∈ pieces, piece.Legible)
    {opened left : List Tag}
    (leaves : pieces.foldlM Piece.after opened = some left) :
    openAfter (opened.map Tag.text) (pieces.flatMap Piece.signs) =
      some (left.map Tag.text) := by
  induction pieces generalizing opened with
  | nil =>
      cases leaves
      rfl
  | cons first others inductionHypothesis =>
      rw [List.foldlM_cons, Option.bind_eq_bind, Option.bind_eq_some_iff]
        at leaves
      obtain ⟨between, here, later⟩ := leaves
      rw [List.flatMap_cons, openAfter_append,
        openAfter_piece first (legible first List.mem_cons_self) here,
        Option.bind_some]
      exact inductionHypothesis
        (fun piece member => legible piece (List.mem_cons_of_mem first member))
        later

/-- A reader of a page of legible pieces finds the elements that the pieces leave
open. -/
theorem openElements_print
    {pieces : List Piece}
    {tags : List Tag}
    (legible : ∀ piece ∈ pieces, piece.Legible)
    (leaves : Leaves pieces tags) :
    openElements? (print pieces) = some (tags.map Tag.text) := by
  have left := leaves []
  rw [List.append_nil] at left
  rw [openElements?, signs_print pieces legible, Option.bind_some]
  have read := openAfter_pieces pieces legible left
  rw [List.map_nil] at read
  rw [read, Option.map_some, List.map_reverse, List.reverse_reverse]

end Html
end NotePress
