import Mathlib.Data.Finset.Preimage
import Mathlib.Data.Nat.Digits.Lemmas
import NotePress.Page.Render
import NotePress.Proofs.Text.ByteOrder

/-!
# Where documents can be read

A document is read by the path of its location, and the length of paths is limited. So
documents can be read at finitely many locations only, whatever is on a disk and
wherever its links lead. To count them, locations are numbered: the digits of a number
are the characters of the names, with a zero between neighbours.
-/

namespace NotePress

namespace Location

/-- The digits of a name. None of them is zero. -/
def digitsOfName (name : String) : List Nat :=
  name.toList.map fun character => character.toNat + 1

/-- The digits of a location. What stands behind the names makes the last digit one. -/
def digits (location : Location) : List Nat :=
  [0].intercalate (location.map digitsOfName ++ [[1]])

/-- The number of a location. -/
def number (location : Location) : Nat :=
  Nat.ofDigits (0x110000 + 1) location.digits

/-- Different names have different digits. -/
theorem digitsOfName_injective : Function.Injective digitsOfName := by
  have successors : Function.Injective fun character : Char =>
      character.toNat + 1 :=
    fun _ _ same => Char.toNat_inj.mp (Nat.succ.inj same)
  exact (List.map_injective_iff.mpr successors).comp
    fun _ _ => String.toList_injective

/-- Zero is no digit of a name. -/
theorem zero_notMem_digitsOfName (name : String) : 0 ∉ digitsOfName name := by
  intro member
  obtain ⟨character, _, zero⟩ := List.mem_map.mp member
  exact Nat.succ_ne_zero _ zero

theorem digits_nil : digits [] = [1] :=
  rfl

theorem digits_cons (name : String) (others : Location) :
    digits (name :: others) = digitsOfName name ++ 0 :: digits others := by
  rw [digits, List.map_cons, List.cons_append,
    List.intercalate_cons_of_ne_nil (by simp), List.append_assoc]
  rfl

/-- The digits are cut at the zeros into those of the names again. -/
theorem splitOn_digits (location : Location) :
    location.digits.splitOn 0 = location.map digitsOfName ++ [[1]] := by
  refine List.splitOn_intercalate 0 (List.forall_mem_append.mpr ⟨?_, ?_⟩) (by simp)
  · exact List.forall_mem_map.mpr fun name _ => zero_notMem_digitsOfName name
  · exact List.forall_mem_singleton.mpr (by decide)

/-- Different locations have different digits. -/
theorem digits_injective : Function.Injective digits := by
  intro left right same
  have names : left.map digitsOfName ++ [[1]] = right.map digitsOfName ++ [[1]] := by
    rw [← splitOn_digits, ← splitOn_digits, same]
  exact List.map_injective_iff.mpr digitsOfName_injective
    (List.append_cancel_right names)

/-- Every digit is less than the base of the numbers. -/
theorem digit_lt
    {location : Location}
    {digit : Nat}
    (member : digit ∈ location.digits) :
    digit < 0x110000 + 1 := by
  induction location with
  | nil =>
      rw [digits_nil, List.mem_singleton] at member
      omega
  | cons name others inductionHypothesis =>
      rw [digits_cons, List.mem_append, List.mem_cons] at member
      rcases member with inName | rfl | later
      · obtain ⟨character, _, rfl⟩ := List.mem_map.mp inName
        exact Nat.succ_lt_succ (Text.toNat_lt character)
      · exact Nat.succ_pos _
      · exact inductionHypothesis later

/-- The last digit of a location is one, so that no digit is lost. -/
theorem getLast_digits (location : Location) :
    location.digits.getLast? = some 1 := by
  induction location with
  | nil => rfl
  | cons name others inductionHypothesis =>
      rw [digits_cons, List.getLast?_append, List.getLast?_cons,
        inductionHypothesis]
      rfl

/-- The digits of a number of a location are those of the location. -/
theorem digits_number (location : Location) :
    Nat.digits (0x110000 + 1) location.number = location.digits := by
  refine Nat.digits_ofDigits _ (by decide) _ (fun _ => digit_lt) ?_
  intro nonempty
  have last := getLast_digits location
  rw [List.getLast?_eq_some_getLast nonempty, Option.some.injEq] at last
  rw [last]
  exact Nat.one_ne_zero

/-- Different locations have different numbers. -/
theorem number_injective : Function.Injective number := by
  intro left right same
  apply digits_injective
  rw [← digits_number, ← digits_number, same]

/-! ## How long numbers are -/

/-- A text has no more characters than bytes. -/
theorem length_le_utf8ByteSize (text : String) :
    text.toList.length ≤ text.utf8ByteSize := by
  rw [← String.ofList_toList (s := text), String.utf8ByteSize_ofList,
    String.toList_ofList]
  induction text.toList with
  | nil => exact Nat.le_refl 0
  | cons first others inductionHypothesis =>
      rw [String.utf8Len_cons, List.length_cons]
      exact Nat.add_le_add inductionHypothesis first.utf8Size_pos

/-- A location has at most one digit more than its path has characters. -/
theorem length_digits_le (location : Location) :
    location.digits.length ≤ (Location.path location).text.toList.length + 1 := by
  have slash : "/".toList = ['/'] := rfl
  rw [Location.path, String.toList_append, String.toList_intercalate, slash]
  induction location with
  | nil => exact Nat.le_succ 1
  | cons name others inductionHypothesis =>
      rw [digits_cons, List.map_cons]
      cases others with
      | nil =>
          simp only [digits_nil, digitsOfName, List.map_nil,
            List.intercalate_singleton, List.length_append, List.length_cons,
            List.length_nil, List.length_map]
          omega
      | cons next rest =>
          rw [List.intercalate_cons_of_ne_nil (by simp)]
          simp only [digitsOfName, List.length_append, List.length_cons,
            List.length_nil, List.length_map] at inductionHypothesis ⊢
          omega

theorem lt_power
    {base number length outer inner : Nat}
    (bound : number < (base + 1) ^ length)
    (short : length ≤ inner * outer) :
    number < ((base + 1) ^ inner) ^ outer := by
  rw [← Nat.pow_mul]
  exact Nat.lt_of_lt_of_le bound
    (Nat.pow_le_pow_right (Nat.succ_pos base) short)

/-- The number of a location whose path is short enough is below the bound on places. -/
theorem number_lt
    {location : Location}
    (short : (Location.path location).text.utf8ByteSize < Disk.maximalPath) :
    location.number < Page.placeBound := by
  have length : location.digits.length ≤ 64 * 64 :=
    Nat.le_trans (length_digits_le location) (Nat.le_trans
      (Nat.succ_le_succ (length_le_utf8ByteSize _)) short)
  have bound : location.number < (0x110000 + 1) ^ location.digits.length :=
    Nat.ofDigits_lt_base_pow_length (by decide) fun _ => digit_lt
  exact lt_power bound length

end Location

/-! ## The locations -/

namespace Disk

/-- The locations whose paths are not too long for the system. -/
noncomputable def readable : Finset Location :=
  (Finset.range Page.placeBound).preimage Location.number
    Location.number_injective.injOn

/-- There are no more readable locations than the bound on places. -/
theorem card_readable : readable.card ≤ Page.placeBound := by
  have inside : Set.MapsTo Location.number readable
      (Finset.range Page.placeBound) :=
    fun _ member => Finset.mem_preimage.mp member
  refine Nat.le_trans (Finset.card_le_card_of_injOn Location.number inside
    Location.number_injective.injOn) ?_
  rw [Finset.card_range]

/-- Only a path that is short enough leads anywhere. -/
theorem size_of_locate
    {disk : Disk}
    {path : Path}
    {location : Location}
    (found : disk.locate path = .ok location) :
    path.text.utf8ByteSize < maximalPath := by
  rw [locate, locateFrom] at found
  split at found
  next => cases found
  next =>
    split at found
    next => cases found
    next short => exact Nat.lt_of_not_le short

end Disk

/-- A document that is loaded is at a readable location. -/
theorem Page.mem_readable_of_loadSource
    {disk : Disk}
    {source : Location}
    {document : Document}
    (loads : loadSource disk source = .ok document) :
    source ∈ Disk.readable := by
  have there : disk.hasEntry (Location.path source) = true := by
    rw [loadSource, Source.read] at loads
    split at loads
    next => cases loads
    next read =>
      split at read
      next there => exact there
      next => cases read
  rw [Disk.hasEntry, Disk.lookup?] at there
  split at there
  next => cases there
  next location found =>
    exact Finset.mem_preimage.mpr (Finset.mem_range.mpr
      (Location.number_lt (Disk.size_of_locate found)))

end NotePress
