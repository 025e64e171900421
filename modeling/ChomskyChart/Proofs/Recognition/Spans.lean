import ChomskyChart.Recognition.Fill
import Mathlib.Data.List.Basic

/-!
# The cells of one span length

A cell is made from cells of shorter spans, so the cells of one length may be computed from the
chart as it was before any of them was written. `extend` does this all at once. That the loop of a
fill arrives at the same chart is shown with the lookups it makes on the way.
-/

namespace ChomskyChart

namespace Chart

variable (c : Chart)

/-- Write a value, given by position, into each cell of a list. -/
def setAll (value : Nat → Nat → IndexSet) (ps : List (Nat × Nat)) : Chart :=
  ps.foldl (fun c p => c.set p.1 p.2 (value p.1 p.2)) c

variable {c} {value : Nat → Nat → IndexSet} {ps : List (Nat × Nat)}

@[simp]
theorem size_setAll : (c.setAll value ps).size = c.size := by
  induction ps generalizing c with
  | nil => rfl
  | cons p ps ih => exact (ih (c := c.set p.1 p.2 (value p.1 p.2))).trans (size_set c _ _ _)

/-- Repeated positions do no harm, since the value depends on the position alone. -/
theorem get_setAll (h : ∀ p ∈ ps, Triangle.Inside c.size p.1 p.2) (i j : Nat) :
    (c.setAll value ps).get i j = if (i, j) ∈ ps then value i j else c.get i j := by
  induction ps generalizing c with
  | nil => simp [setAll]
  | cons p ps ih =>
    obtain ⟨hp, hps⟩ := List.forall_mem_cons.mp h
    have hstep := ih (c := c.set p.1 p.2 (value p.1 p.2)) (by simpa only [size_set] using hps)
    change ((c.set p.1 p.2 (value p.1 p.2)).setAll value ps).get i j = _
    rw [hstep, get_set c _ hp]
    by_cases hmem : (i, j) ∈ ps
    · rw [if_pos hmem, if_pos (List.mem_cons_of_mem p hmem)]
    · rw [if_neg hmem]
      by_cases he : p.1 = i ∧ p.2 = j
      · obtain ⟨rfl, rfl⟩ := he
        rw [if_pos ⟨rfl, rfl⟩, if_pos List.mem_cons_self]
      · rw [if_neg he, if_neg]
        rintro (_ | ⟨_, hin⟩)
        · exact he ⟨rfl, rfl⟩
        · exact hmem hin

/-- Charts with the same cells of spans shorter than a length. -/
def AgreeBelow (span : Nat) (c d : Chart) : Prop :=
  ∀ i j, j + 1 < i + span → c.get i j = d.get i j

theorem AgreeBelow.refl (span : Nat) (c : Chart) : AgreeBelow span c c := fun _ _ _ => rfl

/-- A write to a cell of the length itself is not seen below it. -/
theorem AgreeBelow.set {span : Nat} {d : Chart} (h : AgreeBelow span c d) (i : Nat)
    (s : IndexSet) : AgreeBelow span (c.set i (i + span - 1) s) d := by
  intro i' j' hlt
  rw [← h i' j' hlt]
  by_cases hin : Triangle.Inside c.size i (i + span - 1)
  · rw [get_set c s hin, if_neg]
    intro h
    obtain ⟨rfl, rfl⟩ := h
    omega
  · rw [Chart.set, if_neg hin]

end Chart

namespace RuleIndex

variable (index : RuleIndex)

/-- The derivers of any of the pairs. -/
def unite (ps : List (Nat × Nat)) : IndexSet :=
  ps.foldl (fun derived p => derived ∪ index.pairDerivers p.1 p.2) ∅

theorem mem_foldl_union {ps : List (Nat × Nat)} {s : IndexSet} {a : Nat} :
    a ∈ ps.foldl (fun derived p => derived ∪ index.pairDerivers p.1 p.2) s ↔
      a ∈ s ∨ ∃ p ∈ ps, a ∈ index.pairDerivers p.1 p.2 := by
  induction ps generalizing s with
  | nil => simp
  | cons p ps ih =>
    rw [List.foldl_cons, ih, IndexSet.mem_union, or_assoc, List.exists_mem_cons_iff]

theorem mem_unite {ps : List (Nat × Nat)} {a : Nat} :
    a ∈ index.unite ps ↔ ∃ p ∈ ps, a ∈ index.pairDerivers p.1 p.2 := by
  rw [unite, mem_foldl_union]
  simp

theorem unite_congr {ps qs : List (Nat × Nat)} (h : ∀ p, p ∈ ps ↔ p ∈ qs) :
    index.unite ps = index.unite qs := by
  ext a
  simp only [mem_unite, h]

/-- What the cell `(i, j)` gets from the cells of its parts. -/
def combine (chart : Chart) (i j : Nat) : IndexSet :=
  index.unite (index.recognizer.pairs chart i j)

/-- The chart with all cells of a span length computed anew. -/
def extend (chart : Chart) (span : Nat) : Chart :=
  chart.setAll (index.combine chart) ((Chart.starts chart.size span).map fun i => (i, i + span - 1))

end RuleIndex

namespace Recognizer

variable {m : Type → Type} (r : Recognizer m)

/-- Which pairs are looked up does not depend on the order in which cells are enumerated. -/
theorem mem_pairs {chart : Chart} {i j b c : Nat} :
    (b, c) ∈ r.pairs chart i j ↔
      ∃ k, i ≤ k ∧ k < j ∧ b ∈ chart.get i k ∧ c ∈ chart.get (k + 1) j := by
  simp only [pairs, List.mem_flatMap, List.mem_map, Chart.mem_splits, Prod.mk.injEq,
    (r.order.perm _ _ _).mem_iff, IndexSet.mem_toList]
  constructor
  · intro h
    obtain ⟨k, ⟨hik, hkj⟩, b', hb, c', hc, rfl, rfl⟩ := h
    exact ⟨k, hik, hkj, hb, hc⟩
  · intro h
    obtain ⟨k, hik, hkj, hb, hc⟩ := h
    exact ⟨k, ⟨hik, hkj⟩, b, hb, c, hc, rfl, rfl⟩

theorem mem_combine {index : RuleIndex} {chart : Chart} {i j a : Nat} :
    a ∈ index.combine chart i j ↔
      ∃ k, i ≤ k ∧ k < j ∧ ∃ b c, b ∈ chart.get i k ∧ c ∈ chart.get (k + 1) j ∧
        a ∈ index.pairDerivers b c := by
  rw [RuleIndex.combine, RuleIndex.mem_unite]
  constructor
  · intro h
    obtain ⟨⟨b, c⟩, hp, ha⟩ := h
    obtain ⟨k, hik, hkj, hb, hc⟩ := (mem_pairs _).mp hp
    exact ⟨k, hik, hkj, b, c, hb, hc, ha⟩
  · intro h
    obtain ⟨k, hik, hkj, b, c, hb, hc, ha⟩ := h
    exact ⟨(b, c), (mem_pairs _).mpr ⟨k, hik, hkj, hb, hc⟩, ha⟩

theorem unite_pairs (chart : Chart) (i j : Nat) :
    r.index.unite (r.pairs chart i j) = r.index.combine chart i j :=
  r.index.unite_congr fun _ => (mem_pairs r).trans (mem_pairs _).symm

/-- Only cells of shorter spans are read. -/
theorem pairs_congr {span : Nat} {c d : Chart} (h : Chart.AgreeBelow span c d) (i : Nat) :
    r.pairs c i (i + span - 1) = r.pairs d i (i + span - 1) := by
  refine List.flatMap_congr fun k hk => ?_
  obtain ⟨hik, hkj⟩ := Chart.mem_splits.mp hk
  rw [h i k (by omega), h (k + 1) (i + span - 1) (by omega)]

end Recognizer

namespace RuleIndex

variable (index : RuleIndex) {chart : Chart} {span : Nat}

@[simp]
theorem size_extend : (index.extend chart span).size = chart.size :=
  Chart.size_setAll

theorem mem_starts_map {n i j : Nat} (hs : 1 ≤ span) :
    (i, j) ∈ (Chart.starts n span).map (fun i => (i, i + span - 1)) ↔
      Triangle.Inside n i j ∧ j + 1 = i + span := by
  simp only [List.mem_map, Chart.mem_starts, Prod.mk.injEq, Triangle.Inside]
  constructor
  · intro h
    obtain ⟨i', hi', rfl, rfl⟩ := h
    omega
  · intro h
    obtain ⟨⟨hij, hj⟩, hspan⟩ := h
    exact ⟨i, by omega, rfl, by omega⟩

/-- The cells of the length are combined from the old chart, and all others are kept. -/
theorem get_extend (hs : 1 ≤ span) (i j : Nat) :
    (index.extend chart span).get i j =
      if Triangle.Inside chart.size i j ∧ j + 1 = i + span then index.combine chart i j
      else chart.get i j := by
  rw [extend, Chart.get_setAll fun p hp => ((mem_starts_map hs).mp hp).1]
  simp only [mem_starts_map hs]

end RuleIndex

end ChomskyChart
