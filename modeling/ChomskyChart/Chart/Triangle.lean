/-!
# The upper triangle in row order

A chart over `n` tokens has a cell for each span of tokens `i` to `j` with `i ≤ j < n`. The cells
are stored row by row: row `i` has length `n - i` and comes after the rows before it. Different
cells have different places, all below `count n`.
-/

namespace ChomskyChart.Triangle

/-- A cell of the triangle over `n` tokens. -/
def Inside (n i j : Nat) : Prop := i ≤ j ∧ j < n

instance (n i j : Nat) : Decidable (Inside n i j) :=
  inferInstanceAs (Decidable (i ≤ j ∧ j < n))

/-- The number of cells. -/
def count (n : Nat) : Nat := n * (n + 1) / 2

/-- The place of the first cell of a row, after rows of length `n`, `n - 1` and so on. -/
def rowStart (n i : Nat) : Nat := i * (2 * n - i + 1) / 2

/-- The place of a cell in row order. -/
def offset (n i j : Nat) : Nat := rowStart n i + (j - i)

/-- All cells in row order. -/
def positions (n : Nat) : List (Nat × Nat) :=
  (List.range n).flatMap fun i => (List.range' i (n - i)).map fun j => (i, j)

theorem mem_positions {n i j : Nat} : (i, j) ∈ positions n ↔ Inside n i j := by
  simp only [positions, List.mem_flatMap, List.mem_range, List.mem_map, List.mem_range'_1, Inside,
    Prod.mk.injEq]
  constructor
  · rintro ⟨a, ha, b, ⟨hab, hb⟩, rfl, rfl⟩
    omega
  · rintro ⟨hij, hj⟩
    exact ⟨i, by omega, j, by omega, rfl, rfl⟩

theorem rowStart_succ {n i : Nat} (hi : i < n) : rowStart n (i + 1) = rowStart n i + (n - i) := by
  obtain ⟨k, rfl⟩ : ∃ k, n = i + k := ⟨n - i, by omega⟩
  have hsum : (i + 1) * (2 * (i + k) - (i + 1) + 1) = i * (2 * (i + k) - i + 1) + 2 * k := by
    rw [show 2 * (i + k) - (i + 1) + 1 = i + 2 * k by omega,
      show 2 * (i + k) - i + 1 = i + 2 * k + 1 by omega]
    grind
  rw [rowStart, rowStart, hsum, Nat.add_mul_div_left _ _ (by omega : 0 < 2)]
  omega

theorem rowStart_self (n : Nat) : rowStart n n = count n := by
  rw [rowStart, count, show 2 * n - n + 1 = n + 1 by omega]

theorem rowStart_le {n i k : Nat} (hik : i ≤ k) (hk : k ≤ n) : rowStart n i ≤ rowStart n k := by
  induction k with
  | zero =>
    obtain rfl : i = 0 := by omega
    exact Nat.le_refl _
  | succ k ih =>
    by_cases h : i = k + 1
    · subst h
      exact Nat.le_refl _
    · rw [rowStart_succ (by omega)]
      exact Nat.le_add_right_of_le (ih (by omega) (by omega))

/-- A row ends where the next one starts. -/
theorem offset_lt_rowStart {n i j k : Nat} (h : Inside n i j) (hik : i < k) (hk : k ≤ n) :
    offset n i j < rowStart n k := by
  obtain ⟨hij, hj⟩ := h
  have hnext := rowStart_succ (n := n) (i := i) (by omega)
  have hle := rowStart_le (n := n) (i := i + 1) hik hk
  rw [offset]
  omega

theorem offset_lt_count {n i j : Nat} (h : Inside n i j) : offset n i j < count n := by
  rw [← rowStart_self]
  exact offset_lt_rowStart h (by have := h.1; have := h.2; omega) (Nat.le_refl n)

theorem offset_inj {n i j i' j' : Nat} (h : Inside n i j) (h' : Inside n i' j') :
    offset n i j = offset n i' j' ↔ i = i' ∧ j = j' := by
  obtain ⟨hij, hj⟩ := h
  obtain ⟨hij', hj'⟩ := h'
  constructor
  · intro he
    rcases Nat.lt_trichotomy i i' with hlt | rfl | hlt
    · have hrow := offset_lt_rowStart ⟨hij, hj⟩ hlt (by omega)
      rw [he, offset] at hrow
      omega
    · rw [offset, offset] at he
      omega
    · have hrow := offset_lt_rowStart ⟨hij', hj'⟩ hlt (by omega)
      rw [← he, offset] at hrow
      omega
  · rintro ⟨rfl, rfl⟩
    rfl

example : positions 3 = [(0, 0), (0, 1), (0, 2), (1, 1), (1, 2), (2, 2)] := by decide

example : (positions 5).map (fun p => offset 5 p.1 p.2) = List.range (count 5) := by decide

end ChomskyChart.Triangle
