import Mathlib.Data.String.Basic
import Mathlib.Data.List.Lex

/-!
# The order of bytes

Texts are compared character by character. UTF-8 keeps the order of characters: the
bytes of a character are before those of a greater one, whatever follows. So texts are
in the same order as their bytes.
-/

namespace NotePress
namespace Text

/-- The bytes of a text in UTF-8. -/
def bytesOf (text : String) : List UInt8 :=
  text.toUTF8.data.toList

theorem bytesOf_eq (text : String) :
    bytesOf text = text.toList.flatMap String.utf8EncodeChar := by
  rw [bytesOf, String.toUTF8, ← String.utf8Encode_toList, List.utf8Encode]
  simp

theorem toNat_lt (character : Char) : character.val.toNat < 0x110000 := by
  have valid := character.valid
  simp only [UInt32.isValidChar, Nat.isValidChar] at valid
  omega

/-- Numbers are compared by their digits to the base 64. -/
theorem digits_of_lt
    {low high : Nat}
    (less : low < high) :
    low / 64 < high / 64 ∨ low / 64 = high / 64 ∧ low % 64 < high % 64 := by
  omega

/-- The bytes of a character are before those of a greater one, whatever follows. -/
theorem utf8EncodeChar_lt
    {left right : Char}
    (less : left < right)
    (front back : List UInt8) :
    String.utf8EncodeChar left ++ front < String.utf8EncodeChar right ++ back := by
  have order : left.val.toNat < right.val.toNat := less
  have small := toNat_lt right
  unfold String.utf8EncodeChar
  generalize left.val.toNat = low at *
  generalize right.val.toNat = high at *
  dsimp only
  by_cases long : low ≤ 0xffff
  · split_ifs <;>
      simp only [List.cons_append, List.nil_append, List.cons_lt_cons_iff,
        UInt8.lt_iff_toNat_lt, ← UInt8.toNat_inj, UInt8.toNat_ofNat'] <;>
      omega
  · rw [if_neg (by omega), if_neg (by omega), if_neg long, if_neg (by omega),
      if_neg (by omega), if_neg (by omega)]
    simp only [List.cons_append, List.nil_append, List.cons_lt_cons_iff,
      UInt8.lt_iff_toNat_lt, ← UInt8.toNat_inj, UInt8.toNat_ofNat']
    rcases digits_of_lt order with more | ⟨same, last⟩
    · rcases digits_of_lt more with more | ⟨same, last⟩
      · rcases digits_of_lt more with more | ⟨same, last⟩
        · left
          omega
        · right
          omega
      · right
        refine ⟨by omega, .inr ⟨by omega, .inl (by omega)⟩⟩
    · exact .inr ⟨by omega, .inr ⟨by omega, .inr ⟨by omega, .inl (by omega)⟩⟩⟩

theorem bytesOf_lt
    {left right : String}
    (less : left < right) :
    bytesOf left < bytesOf right := by
  rw [String.lt_iff_toList_lt] at less
  rw [bytesOf_eq, bytesOf_eq]
  generalize left.toList = first at less
  generalize right.toList = second at less
  induction first generalizing second with
  | nil =>
      cases second with
      | nil => exact absurd less (List.lt_irrefl _)
      | cons character others =>
          obtain ⟨byte, bytes, encoded⟩ := List.exists_cons_of_ne_nil
            (String.utf8EncodeChar_ne_nil (c := character))
          rw [List.flatMap_nil, List.flatMap_cons, encoded]
          exact List.nil_lt_cons _ _
  | cons character others inductionHypothesis =>
      cases second with
      | nil => exact absurd less (List.not_lt_nil _)
      | cons other rest =>
          rw [List.flatMap_cons, List.flatMap_cons]
          rcases List.cons_lt_cons_iff.mp less with before | ⟨rfl, later⟩
          · exact utf8EncodeChar_lt before _ _
          · exact List.append_left_lt (inductionHypothesis rest later)

/-- Texts are in the order of their bytes. -/
theorem lt_iff_bytesOf_lt {left right : String} :
    left < right ↔ bytesOf left < bytesOf right := by
  refine ⟨bytesOf_lt, fun bytes => ?_⟩
  rcases lt_trichotomy left right with less | rfl | more
  · exact less
  · exact absurd bytes (List.lt_irrefl _)
  · exact absurd (bytesOf_lt more) (List.lt_asymm bytes)

end Text
end NotePress
