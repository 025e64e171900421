import ChomskyChart.Text.Blank
import Mathlib.Data.List.Basic

/-!
# Texts cut by bytes

A part of a text may be given by numbers of bytes. It is a text of its own if both cuts fall between
characters, and nothing if one falls inside a character. The numbers that are found by adding up the
sizes of characters never do.
-/

namespace ChomskyChart.Text

/-- The characters, each with the number of bytes before it. -/
def charIndices (before : Nat) : List Char → List (Nat × Char)
  | [] => []
  | c :: cs => (before, c) :: charIndices (before + c.utf8Size) cs

/-- The bytes from `i` on and before `j`, if neither of the two falls inside a character. -/
def slice? (s : String) (i j : Nat) : Option String :=
  if i ≤ j ∧ (⟨i⟩ : String.Pos.Raw).IsValid s ∧ (⟨j⟩ : String.Pos.Raw).IsValid s then
    String.fromUTF8? (s.toUTF8.extract i j)
  else none

/-- The characters that are not blank, each cut out of the text by its bytes. -/
def characterSlices (s : String) : List (Option String) :=
  ((charIndices 0 s.toList).filter fun p => !isBlank p.2).map fun p =>
    slice? s p.1 (p.1 + p.2.utf8Size)

theorem fromUTF8?_toUTF8 (t : String) : String.fromUTF8? t.toUTF8 = some t := by
  have hvalid : t.toUTF8.IsValidUTF8 := t.isValidUTF8
  unfold String.fromUTF8?
  rw [dif_pos hvalid]
  rfl

theorem slice?_append (u t v : String) :
    slice? (u ++ t ++ v) u.utf8ByteSize (u.utf8ByteSize + t.utf8ByteSize) = some t := by
  have hstart : (⟨u.utf8ByteSize⟩ : String.Pos.Raw).IsValid (u ++ t ++ v) :=
    String.Pos.Raw.isValid_iff_exists_append.mpr ⟨u, t ++ v, String.append_assoc, rfl⟩
  have hstop : (⟨u.utf8ByteSize + t.utf8ByteSize⟩ : String.Pos.Raw).IsValid (u ++ t ++ v) := by
    refine String.Pos.Raw.isValid_iff_exists_append.mpr ⟨u ++ t, v, rfl, ?_⟩
    rw [← String.utf8ByteSize_append]
    rfl
  have hbytes : (u ++ t ++ v).toUTF8.extract u.utf8ByteSize (u.utf8ByteSize + t.utf8ByteSize) =
      t.toUTF8 := by
    simp only [String.toUTF8_eq_toByteArray, String.toByteArray_append, ← String.size_toByteArray]
    rw [ByteArray.append_assoc]
    exact (ByteArray.extract_append_size_add (i := 0)).trans (ByteArray.extract_append_eq_left rfl)
  rw [slice?, if_pos ⟨Nat.le_add_right _ _, hstart, hstop⟩, hbytes, fromUTF8?_toUTF8]

theorem map_snd_charIndices (before : Nat) (cs : List Char) :
    (charIndices before cs).map (·.2) = cs := by
  induction cs generalizing before with
  | nil => rfl
  | cons c cs ih => rw [charIndices, List.map_cons, ih]

/-- A number of bytes is the size of the text before the character. -/
theorem slice?_of_mem_charIndices {u : String} {cs : List Char} {p : Nat × Char}
    (h : p ∈ charIndices u.utf8ByteSize cs) :
    slice? (u ++ String.ofList cs) p.1 (p.1 + p.2.utf8Size) = some (String.ofList [p.2]) := by
  induction cs generalizing u with
  | nil => cases h
  | cons c cs ih =>
    have hcut : u ++ String.ofList (c :: cs) = u ++ String.ofList [c] ++ String.ofList cs := by
      rw [← List.singleton_append, String.ofList_append, String.append_assoc]
    rw [hcut]
    have hsize : (String.ofList [c]).utf8ByteSize = c.utf8Size := by
      rw [← String.singleton_eq_ofList, String.utf8ByteSize_singleton]
    rcases List.mem_cons.mp h with rfl | h
    · have hslice := slice?_append u (String.ofList [c]) (String.ofList cs)
      rwa [hsize] at hslice
    · refine ih ?_
      rwa [String.utf8ByteSize_append, hsize]

/-- No cut is inside a character, and what is cut out is the character. -/
theorem characterSlices_eq (s : String) :
    characterSlices s =
      (s.toList.filter fun c => !isBlank c).map fun c => some (String.ofList [c]) := by
  have hslice : ∀ p ∈ charIndices 0 s.toList,
      slice? s p.1 (p.1 + p.2.utf8Size) = some (String.ofList [p.2]) := by
    intro p hp
    have h := slice?_of_mem_charIndices (u := "") hp
    rwa [String.empty_append, String.ofList_toList] at h
  unfold characterSlices
  rw [List.map_congr_left fun p hp => hslice p (List.mem_of_mem_filter hp)]
  conv_rhs => rw [← map_snd_charIndices 0 s.toList, List.filter_map, List.map_map]
  rfl

end ChomskyChart.Text
