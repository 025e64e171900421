import ChomskyChart.Chart.Basic
import ChomskyChart.Proofs.Chart.Triangle
import Mathlib.Algebra.Order.Ring.Nat
import Mathlib.Logic.ExistsUnique

/-!
# Addresses of cells

The storage of a chart and the cells of its triangle correspond, in row order. The place of a cell
is computed with numbers that are no larger than twice the number of cells, so if that fits into a
word then no step leaves the word. A checked access to a chart stops where it would compare,
subtract, compute or index wrongly. Within the triangle it never stops, and it is the access without
checks.
-/

namespace ChomskyChart

/-- What stops a checked computation. -/
inductive Trap where
  | outside (i j : Nat)
  | beyond (place size : Nat)
  | belowZero (a b : Nat)
  | tooLarge (a : Nat)
  deriving DecidableEq

/-! ### Numbers of a width

A width is a number of bits. Without a width numbers may be of any size. -/

/-- A number that must fit. -/
def checkedFit (bits : Option Nat) (a : Nat) : Except Trap Nat :=
  if ∀ b ∈ bits, a < 2 ^ b then .ok a else .error (.tooLarge a)

/-- A difference that must not fall below zero. -/
def checkedSub (a b : Nat) : Except Trap Nat :=
  if b ≤ a then .ok (a - b) else .error (.belowZero a b)

/-- A width for charts of a size: twice the number of cells fits into it. -/
def FitsChart (bits : Option Nat) (n : Nat) : Prop :=
  ∀ b ∈ bits, 2 ≤ b ∧ n * (n + 1) < 2 ^ b

instance (bits : Option Nat) (n : Nat) : Decidable (FitsChart bits n) :=
  inferInstanceAs (Decidable (∀ b ∈ bits, 2 ≤ b ∧ n * (n + 1) < 2 ^ b))

theorem ok_bind {ε α β : Type} (a : α) (f : α → Except ε β) : (Except.ok a >>= f) = f a := rfl

variable {bits : Option Nat} {n i j a : Nat}

theorem FitsChart.none (n : Nat) : FitsChart none n := fun _ h => nomatch h

theorem FitsChart.of_lt (h : n * (n + 1) < 2 ^ 64) : FitsChart (some 64) n := by
  intro b hb
  obtain rfl := Option.some.inj hb
  exact ⟨by decide, h⟩

theorem checkedSub_eq {b : Nat} (h : b ≤ a) : checkedSub a b = .ok (a - b) :=
  if_pos h

/-- The least width for a chart holds three, since it has two bits. -/
theorem FitsChart.fit (h : FitsChart bits n) (ha : a ≤ n * (n + 1) ∨ a ≤ 3) :
    checkedFit bits a = .ok a := by
  refine if_pos fun b hb => ?_
  obtain ⟨hbits, hn⟩ := h b hb
  have hfour : 2 ^ 2 ≤ 2 ^ b := Nat.pow_le_pow_right (by decide) hbits
  omega

/-- Charts of one token or none are why a width has two bits. -/
theorem FitsChart.fit_of_le_succ (h : FitsChart bits n) (ha : a ≤ 2 * n + 1) :
    checkedFit bits a = .ok a := by
  refine h.fit ?_
  by_cases hn : n ≤ 1
  · right
    omega
  · left
    have hsucc : 3 * n ≤ (n + 1) * n := Nat.mul_le_mul_right n (by omega)
    rw [Nat.mul_comm n (n + 1)]
    omega

/-! ### Places -/

namespace Triangle

/-- The place of a cell, with every step checked. -/
def checkedOffset (bits : Option Nat) (n i j : Nat) : Except Trap Nat := do
  if ¬ Inside n i j then throw (.outside i j)
  let twice ← checkedFit bits (2 * n)
  let rest ← checkedSub twice i
  let width ← checkedFit bits (rest + 1)
  let area ← checkedFit bits (i * width)
  let within ← checkedSub j i
  checkedFit bits (area / 2 + within)

/-- The product that is halved is even: of two numbers whose sum is odd one is even. -/
theorem two_dvd_area (h : i ≤ 2 * n) : 2 ∣ i * (2 * n - i + 1) := by
  have hone : 2 ∣ i ∨ 2 ∣ 2 * n - i + 1 := by omega
  rcases hone with hi | hwidth
  · exact Nat.dvd_mul_right_of_dvd hi _
  · exact Nat.dvd_mul_left_of_dvd hwidth i

/-- With `r` tokens after token `i`, the bound exceeds the product by `r * (r + 1)`. -/
theorem area_le (h : i < n) : i * (2 * n - i + 1) ≤ n * (n + 1) := by
  obtain ⟨r, rfl⟩ : ∃ r, n = i + r := ⟨n - i, by omega⟩
  have hwidth : 2 * (i + r) - i + 1 = i + 2 * r + 1 := by omega
  have hrest : i * (i + 2 * r + 1) + r * (r + 1) = (i + r) * (i + r + 1) := by grind
  rw [hwidth, ← hrest]
  exact Nat.le_add_right _ _

theorem offset_le (h : Inside n i j) : offset n i j ≤ n * (n + 1) := by
  have hlt := offset_lt_count h
  have hhalf : count n ≤ n * (n + 1) := Nat.div_le_self _ _
  omega

theorem checkedOffset_eq (hfits : FitsChart bits n) (h : Inside n i j) :
    checkedOffset bits n i j = .ok (offset n i j) := by
  obtain ⟨hij, hj⟩ := h
  have htwice : checkedFit bits (2 * n) = .ok (2 * n) := hfits.fit_of_le_succ (by omega)
  have hrest : checkedSub (2 * n) i = .ok (2 * n - i) := checkedSub_eq (by omega)
  have hwidth : checkedFit bits (2 * n - i + 1) = .ok (2 * n - i + 1) :=
    hfits.fit_of_le_succ (by omega)
  have harea : checkedFit bits (i * (2 * n - i + 1)) = .ok (i * (2 * n - i + 1)) :=
    hfits.fit (.inl (area_le (by omega)))
  have hwithin : checkedSub j i = .ok (j - i) := checkedSub_eq hij
  have hplace : checkedFit bits (offset n i j) = .ok (offset n i j) :=
    hfits.fit (.inl (offset_le ⟨hij, hj⟩))
  rw [checkedOffset, if_neg (not_not_intro ⟨hij, hj⟩)]
  simp only [htwice, hrest, hwidth, harea, hwithin, ok_bind]
  exact hplace

/-- In the next larger triangle the product for the last row does not fit. -/
example : checkedOffset (some 64) 4294967296 4294967295 4294967295 =
    .error (.tooLarge 18446744078004518910) := by decide +kernel

theorem checkedOffset_of_not_inside (h : ¬ Inside n i j) :
    checkedOffset bits n i j = .error (.outside i j) := by
  rw [checkedOffset, if_pos h]
  rfl

/-- The cells of a triangle and the places of its storage correspond, in row order. What is halved
is even. -/
structure Places (n : Nat) : Prop where
  halves : ∀ i j, Inside n i j → 2 * rowStart n i = i * (2 * n - i + 1)
  halves_count : 2 * count n = n * (n + 1)
  below : ∀ i j, Inside n i j → offset n i j < count n
  increasing : ∀ i j i' j', Inside n i j → Inside n i' j' →
    (offset n i j < offset n i' j' ↔ i < i' ∨ i = i' ∧ j < j')
  onto : ∀ k, k < count n → ∃! p : Nat × Nat, Inside n p.1 p.2 ∧ offset n p.1 p.2 = k

theorem two_mul_rowStart (h : i ≤ 2 * n) : 2 * rowStart n i = i * (2 * n - i + 1) :=
  Nat.mul_div_cancel' (two_dvd_area h)

theorem places (n : Nat) : Places n where
  halves := fun i j h => two_mul_rowStart (by have := h.1; have := h.2; omega)
  halves_count := by
    rw [← rowStart_self, two_mul_rowStart (by omega)]
    congr 1
    omega
  below := fun _ _ => offset_lt_count
  increasing := fun _ _ _ _ => offset_lt_iff
  onto := by
    intro k hk
    obtain ⟨i, j, hin, hplace⟩ := exists_offset_eq hk
    refine ⟨(i, j), ⟨hin, hplace⟩, ?_⟩
    intro p hp
    obtain ⟨hin', hplace'⟩ := hp
    obtain ⟨hi, hj⟩ := (offset_inj hin' hin).mp (hplace'.trans hplace.symm)
    exact Prod.ext hi hj

end Triangle

/-! ### Accesses -/

namespace Chart

open Triangle (Inside)

/-- A chart of empty cells, with the number of cells checked. -/
def checkedBlank (bits : Option Nat) (n : Nat) : Except Trap Chart := do
  let next ← checkedFit bits (n + 1)
  let _ ← checkedFit bits (n * next)
  return .blank n

theorem checkedBlank_eq (hfits : FitsChart bits n) : checkedBlank bits n = .ok (.blank n) := by
  have hnext : checkedFit bits (n + 1) = .ok (n + 1) := hfits.fit_of_le_succ (by omega)
  have harea : checkedFit bits (n * (n + 1)) = .ok (n * (n + 1)) := hfits.fit (.inl (Nat.le_refl _))
  rw [checkedBlank, hnext, ok_bind, harea, ok_bind]
  rfl

variable (c : Chart)

/-- The contents of a cell, read from the storage. -/
def checkedGet (bits : Option Nat) (i j : Nat) : Except Trap IndexSet := do
  let place ← Triangle.checkedOffset bits c.size i j
  match c.cells[place]? with
  | some s => return s
  | none => throw (.beyond place c.cells.size)

/-- The chart with a cell overwritten in the storage. -/
def checkedSet (bits : Option Nat) (i j : Nat) (s : IndexSet) : Except Trap Chart := do
  let place ← Triangle.checkedOffset bits c.size i j
  if place < c.cells.size then
    return { c with
      cells := c.cells.setIfInBounds place s
      size_cells := by rw [Array.size_setIfInBounds, c.size_cells] }
  else throw (.beyond place c.cells.size)

/-- Whether a symbol is in the cell of the whole input. -/
def checkedAccepts (bits : Option Nat) (start : Nat) : Except Trap Bool := do
  if c.isEmpty then return false
  let last ← checkedSub c.size 1
  let s ← c.checkedGet bits 0 last
  return decide (start ∈ s)

variable {c}

theorem offset_lt_size (h : Inside c.size i j) : Triangle.offset c.size i j < c.cells.size := by
  rw [c.size_cells]
  exact Triangle.offset_lt_count h

theorem getElem?_cells (h : Inside c.size i j) :
    c.cells[Triangle.offset c.size i j]? = some (c.get i j) := by
  rw [get, if_pos h, Array.getD_eq_getD_getElem?, Array.getElem?_eq_getElem (offset_lt_size h),
    Option.getD_some]

theorem checkedGet_eq (hfits : FitsChart bits c.size) (h : Inside c.size i j) :
    c.checkedGet bits i j = .ok (c.get i j) := by
  rw [checkedGet, Triangle.checkedOffset_eq hfits h, ok_bind, getElem?_cells h]
  rfl

theorem checkedGet_of_not_inside (h : ¬ Inside c.size i j) :
    c.checkedGet bits i j = .error (.outside i j) := by
  rw [checkedGet, Triangle.checkedOffset_of_not_inside h]
  rfl

theorem checkedSet_eq (hfits : FitsChart bits c.size) (h : Inside c.size i j) (s : IndexSet) :
    c.checkedSet bits i j s = .ok (c.set i j s) := by
  rw [checkedSet, Triangle.checkedOffset_eq hfits h, ok_bind, if_pos (offset_lt_size h), set,
    if_pos h]
  rfl

theorem checkedAccepts_eq (hfits : FitsChart bits c.size) (start : Nat) :
    c.checkedAccepts bits start = .ok (c.accepts start) := by
  rw [checkedAccepts, accepts]
  by_cases hn : c.size = 0
  · have hempty : c.isEmpty = true := beq_iff_eq.mpr hn
    rw [if_pos hempty, hn]
    rfl
  · have hne : ¬ c.isEmpty = true := fun h => hn (beq_iff_eq.mp h)
    have hpos : 0 < c.size := by omega
    have hlast : checkedSub c.size 1 = .ok (c.size - 1) := checkedSub_eq hpos
    have hread : c.checkedGet bits 0 (c.size - 1) = .ok (c.get 0 (c.size - 1)) :=
      checkedGet_eq hfits ⟨by omega, by omega⟩
    rw [if_neg hne, hlast, ok_bind, hread, ok_bind, decide_eq_true hpos, Bool.true_and]
    rfl

/-- Access to a chart goes to the cells of its triangle. Each has a place of its own in the storage,
and a write is seen at that cell alone. -/
structure Addressed (bits : Option Nat) (c : Chart) : Prop where
  stored : ∀ i j, Inside c.size i j → c.cells[Triangle.offset c.size i j]? = some (c.get i j)
  read : ∀ i j, Inside c.size i j → c.checkedGet bits i j = .ok (c.get i j)
  refused : ∀ i j, ¬ Inside c.size i j → c.checkedGet bits i j = .error (.outside i j)
  written : ∀ i j s, Inside c.size i j → c.checkedSet bits i j s = .ok (c.set i j s)
  kept : ∀ i j s, Inside c.size i j → ∀ i' j',
    (c.set i j s).cell i' j' = if i = i' ∧ j = j' then .ok s else c.cell i' j'

theorem cell_set (h : Inside c.size i j) (s : IndexSet) (i' j' : Nat) :
    (c.set i j s).cell i' j' = if i = i' ∧ j = j' then .ok s else c.cell i' j' := by
  rw [cell, cell, size_set, get_set c s h]
  by_cases hsame : i = i' ∧ j = j'
  · obtain ⟨rfl, rfl⟩ := hsame
    rw [if_pos h, if_pos ⟨rfl, rfl⟩, if_pos ⟨rfl, rfl⟩]
  · rw [if_neg hsame, if_neg hsame]

theorem addressed (hfits : FitsChart bits c.size) : Addressed bits c where
  stored := fun _ _ => getElem?_cells
  read := fun _ _ => checkedGet_eq hfits
  refused := fun _ _ => checkedGet_of_not_inside
  written := fun _ _ s h => checkedSet_eq hfits h s
  kept := fun _ _ s h => cell_set h s

end Chart

end ChomskyChart
