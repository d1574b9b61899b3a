/-!
# Reading bytes as text

Bytes that are meant to be UTF-8 are read to the end whatever they hold: every
maximal part that starts a character but does not finish one, and every byte that
starts none, is read as U+FFFD.
-/

namespace NotePress
namespace Text

/-- The character that stands for bytes that are no character. -/
def replacementCharacter : Char := '\uFFFD'

/-- What the first byte of a longer character asks for: how many more bytes,
the range of the next one, and the bits that the first byte itself holds. -/
structure LeadByte where
  count : Nat
  low : Nat
  high : Nat
  bits : Nat

namespace LeadByte

/-- What a byte starts, if it starts a character of several bytes. The range of
the second byte leaves out longer spellings of shorter characters, surrogates and
what lies above the last character. -/
def ofByte? (byte : Nat) : Option LeadByte :=
  if byte < 0xC2 then
    none
  else if byte < 0xE0 then
    some ⟨1, 0x80, 0xBF, byte - 0xC0⟩
  else if byte < 0xF0 then
    some ⟨2, if byte = 0xE0 then 0xA0 else 0x80,
      if byte = 0xED then 0x9F else 0xBF, byte - 0xE0⟩
  else if byte < 0xF5 then
    some ⟨3, if byte = 0xF0 then 0x90 else 0x80,
      if byte = 0xF4 then 0x8F else 0xBF, byte - 0xF0⟩
  else
    none

end LeadByte

/-- The character that is finished by as many bytes as are missing, and the bytes
after it. -/
def finishCharacter
    (missing low high bits : Nat)
    (bytes : List UInt8) : Char × List UInt8 :=
  match missing, bytes with
  | 0, bytes => (Char.ofNat bits, bytes)
  | _ + 1, [] => (replacementCharacter, [])
  | missing + 1, byte :: others =>
      if low ≤ byte.toNat ∧ byte.toNat ≤ high then
        finishCharacter missing 0x80 0xBF
          (bits * 64 + (byte.toNat - 0x80)) others
      else
        (replacementCharacter, byte :: others)

theorem length_finishCharacter_le
    (missing low high bits : Nat)
    (bytes : List UInt8) :
    (finishCharacter missing low high bits bytes).2.length ≤ bytes.length := by
  induction missing generalizing low high bits bytes with
  | zero => simp [finishCharacter]
  | succ missing ih =>
      cases bytes with
      | nil => simp [finishCharacter]
      | cons byte others =>
          unfold finishCharacter
          split
          · exact Nat.le_succ_of_le (ih _ _ _ _)
          · exact Nat.le_refl _

/-- The character at the start of bytes, and the bytes after it. -/
def nextCharacter
    (first : UInt8)
    (others : List UInt8) : Char × List UInt8 :=
  if first.toNat < 0x80 then
    (Char.ofNat first.toNat, others)
  else
    match LeadByte.ofByte? first.toNat with
    | none => (replacementCharacter, others)
    | some lead =>
        finishCharacter lead.count lead.low lead.high lead.bits others

theorem length_nextCharacter_le
    (first : UInt8)
    (others : List UInt8) :
    (nextCharacter first others).2.length ≤ others.length := by
  unfold nextCharacter
  split
  · exact Nat.le_refl _
  · split
    · exact Nat.le_refl _
    · exact length_finishCharacter_le _ _ _ _ _

/-- The characters that bytes are read as. -/
def charactersOf : List UInt8 → List Char
  | [] => []
  | first :: others =>
      (nextCharacter first others).1 ::
        charactersOf (nextCharacter first others).2
termination_by bytes => bytes.length
decreasing_by
  have := length_nextCharacter_le first others
  simp only [List.length_cons]
  omega

/-- The text that bytes are read as. -/
def ofBytes (bytes : ByteArray) : String :=
  match String.fromUTF8? bytes with
  | some text => text
  | none => String.ofList (charactersOf bytes.toList)

end Text
end NotePress
