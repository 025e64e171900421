import ChomskyChart.Chart.Triangle
import Mathlib.Data.List.Range

/-!
# Places in the triangle

The cells of a triangle, listed in row order, have the places `0`, `1`, `2` and so on. So the place
of a cell counts the cells before it, and there are as many places as cells.
-/

namespace ChomskyChart.Triangle

variable {n i j i' j' : Nat}

/-- Places are in row order. -/
theorem offset_lt_iff (h : Inside n i j) (h' : Inside n i' j') :
    offset n i j < offset n i' j' ↔ i < i' ∨ i = i' ∧ j < j' := by
  obtain ⟨hij, hj⟩ := h
  obtain ⟨hij', hj'⟩ := h'
  rcases Nat.lt_trichotomy i i' with hlt | rfl | hlt
  · have hrow := offset_lt_rowStart ⟨hij, hj⟩ hlt (by omega)
    rw [offset] at hrow ⊢
    rw [offset]
    omega
  · rw [offset, offset]
    omega
  · have hrow := offset_lt_rowStart ⟨hij', hj'⟩ hlt (by omega)
    rw [offset] at hrow
    rw [offset, offset]
    omega

/-- The places of one row follow each other. -/
theorem map_offset_row (n m : Nat) :
    (List.range' m (n - m)).map (fun j => offset n m j) =
      (List.range (n - m)).map (fun k => rowStart n m + k) := by
  rw [List.range'_eq_map_range, List.map_map]
  refine List.map_congr_left fun k _ => ?_
  rw [Function.comp_apply, offset, Nat.add_sub_cancel_left]

theorem map_offset_rows (n m : Nat) (hm : m ≤ n) :
    (List.range m).flatMap (fun i => (List.range' i (n - i)).map fun j => offset n i j) =
      List.range (rowStart n m) := by
  induction m with
  | zero => rw [rowStart, Nat.zero_mul]; rfl
  | succ m ih =>
    rw [List.range_succ, List.flatMap_append, List.flatMap_singleton, ih (by omega),
      map_offset_row, rowStart_succ (by omega), List.range_add]

/-- The cells in row order have the places from zero on. -/
theorem map_offset_positions (n : Nat) :
    (positions n).map (fun p => offset n p.1 p.2) = List.range (count n) := by
  rw [positions, List.map_flatMap, ← rowStart_self, ← map_offset_rows n n (Nat.le_refl n)]
  simp only [List.map_map, Function.comp_def]

/-- Every place of the triangle is the place of a cell. -/
theorem exists_offset_eq {k : Nat} (h : k < count n) : ∃ i j, Inside n i j ∧ offset n i j = k := by
  have hk : k ∈ (positions n).map fun p => offset n p.1 p.2 := by
    rw [map_offset_positions]
    exact List.mem_range.mpr h
  obtain ⟨⟨i, j⟩, hp, he⟩ := List.mem_map.mp hk
  exact ⟨i, j, mem_positions.mp hp, he⟩

theorem length_positions (n : Nat) : (positions n).length = count n := by
  have h := congrArg List.length (map_offset_positions n)
  rwa [List.length_map, List.length_range] at h

theorem getElem?_positions (h : Inside n i j) : (positions n)[offset n i j]? = some (i, j) := by
  have hlt : offset n i j < (positions n).length := by
    rw [length_positions]
    exact offset_lt_count h
  have hplace := congrArg (·[offset n i j]?) (map_offset_positions n)
  simp only [List.getElem?_map, List.getElem?_range (offset_lt_count h),
    List.getElem?_eq_getElem hlt, Option.map_some, Option.some.injEq] at hplace
  have hin : Inside n (positions n)[offset n i j].1 (positions n)[offset n i j].2 :=
    mem_positions.mp (List.getElem_mem hlt)
  obtain ⟨hi, hj⟩ := (offset_inj hin h).mp hplace
  rw [List.getElem?_eq_getElem hlt, Option.some.injEq]
  exact Prod.ext hi hj

theorem pairwise_positions (n : Nat) :
    (positions n).Pairwise fun p q => p.1 < q.1 ∨ p.1 = q.1 ∧ p.2 < q.2 := by
  have hplaces : ((positions n).map fun p => offset n p.1 p.2).Pairwise (· < ·) := by
    rw [map_offset_positions]
    exact List.pairwise_lt_range
  refine List.Pairwise.imp_of_mem (fun hp hq hlt => ?_) (List.pairwise_map.mp hplaces)
  exact (offset_lt_iff (mem_positions.mp hp) (mem_positions.mp hq)).mp hlt

end ChomskyChart.Triangle
