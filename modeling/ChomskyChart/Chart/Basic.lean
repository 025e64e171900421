import ChomskyChart.Chart.Triangle
import ChomskyChart.Fault
import ChomskyChart.IndexSet

/-!
# Charts

The cell `(i, j)` of a chart holds the non-terminals that derive the tokens from `i` to `j`, both
included. `get` and `set` are total: outside the triangle there is only the empty set, and nothing
to change. `cell` is the checked question, with a fault outside.
-/

namespace ChomskyChart

structure Chart where
  size : Nat
  cells : Array IndexSet
  size_cells : cells.size = Triangle.count size
  deriving DecidableEq

namespace Chart

/-- A chart of empty cells. -/
def blank (n : Nat) : Chart where
  size := n
  cells := Array.replicate (Triangle.count n) ∅
  size_cells := Array.size_replicate

variable (c : Chart)

def get (i j : Nat) : IndexSet :=
  if Triangle.Inside c.size i j then c.cells.getD (Triangle.offset c.size i j) ∅ else ∅

def set (i j : Nat) (s : IndexSet) : Chart :=
  if Triangle.Inside c.size i j then
    { c with
      cells := c.cells.setIfInBounds (Triangle.offset c.size i j) s
      size_cells := by rw [Array.size_setIfInBounds, c.size_cells] }
  else c

def cell (i j : Nat) : Except Fault IndexSet :=
  if Triangle.Inside c.size i j then .ok (c.get i j) else .error (.noCell i j)

/-- All cells in row order. -/
def cellList : List IndexSet :=
  (Triangle.positions c.size).map fun p => c.get p.1 p.2

def isEmpty : Bool :=
  c.size == 0

/-- Whether a symbol derives the whole input. An empty chart accepts nothing: the empty sentence is
a matter of the grammar alone. -/
def accepts (start : Nat) : Bool :=
  decide (0 < c.size) && decide (start ∈ c.get 0 (c.size - 1))

@[simp]
theorem size_blank (n : Nat) : (blank n).size = n := rfl

@[simp]
theorem size_set (i j : Nat) (s : IndexSet) : (c.set i j s).size = c.size := by
  rw [set]
  split <;> rfl

@[simp]
theorem get_blank (n i j : Nat) : (blank n).get i j = ∅ := by
  simp only [get, blank, Array.getD_eq_getD_getElem?, Array.getElem?_replicate]
  split
  · split <;> rfl
  · rfl

theorem get_of_not_inside {i j : Nat} (h : ¬ Triangle.Inside c.size i j) :
    c.get i j = ∅ := if_neg h

theorem get_set {i j : Nat} (s : IndexSet) (h : Triangle.Inside c.size i j)
    (i' j' : Nat) : (c.set i j s).get i' j' = if i = i' ∧ j = j' then s else c.get i' j' := by
  by_cases h' : Triangle.Inside c.size i' j'
  · have hlt := Triangle.offset_lt_count h
    rw [← c.size_cells] at hlt
    simp only [get, set, if_pos h, if_pos h', Array.getD_eq_getD_getElem?,
      Array.getElem?_setIfInBounds, Triangle.offset_inj h h', if_pos hlt]
    split <;> rfl
  · have hne : ¬ (i = i' ∧ j = j') := by
      rintro ⟨rfl, rfl⟩
      exact h' h
    rw [if_neg hne, get_of_not_inside c h', get_of_not_inside _ (by rw [size_set]; exact h')]

/-! The loops of a fill. -/

/-- The span lengths above one. -/
def spans (n : Nat) : List Nat :=
  List.range' 2 (n - 1)

/-- The first tokens of the spans of a length. -/
def starts (n span : Nat) : List Nat :=
  List.range (n + 1 - span)

/-- The last token of the left part, for each way to cut a span in two. -/
def splits (i j : Nat) : List Nat :=
  List.range' i (j - i)

theorem mem_spans {n span : Nat} : span ∈ spans n ↔ 2 ≤ span ∧ span ≤ n := by
  rw [spans, List.mem_range'_1]
  omega

theorem mem_starts {n span i : Nat} : i ∈ starts n span ↔ i + span ≤ n := by
  rw [starts, List.mem_range]
  omega

theorem mem_splits {i j k : Nat} : k ∈ splits i j ↔ i ≤ k ∧ k < j := by
  rw [splits, List.mem_range'_1]
  omega

end Chart

end ChomskyChart
