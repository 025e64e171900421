import ChomskyChart.Proofs.Chart.Triangle
import ChomskyChart.Proofs.Recognition.Cells

/-!
# The order in which cells are filled

A cell reads the cells inside its span and writes itself. So the cells above the diagonal may be
filled in any order that puts no cell before one inside it, and the cells of one span length in any
order at all. The second statement, and that a span length may be filled again without effect, are
shown for every chart, whether a fill arrives at it or not.

The order matters to an observer, who is told of the lookups in the order in which they are made.
-/

namespace ChomskyChart

namespace Triangle

/-- The cell `p` lies inside the cell `q`, and its span is shorter. -/
def PartOf (p q : Nat × Nat) : Prop :=
  q.1 ≤ p.1 ∧ p.2 ≤ q.2 ∧ p.2 - p.1 < q.2 - q.1

instance (p q : Nat × Nat) : Decidable (PartOf p q) :=
  inferInstanceAs (Decidable (q.1 ≤ p.1 ∧ p.2 ≤ q.2 ∧ p.2 - p.1 < q.2 - q.1))

/-- The cells above the diagonal. -/
def above (n : Nat) : List (Nat × Nat) :=
  (positions n).filter fun p => p.1 < p.2

theorem mem_above {n i j : Nat} : (i, j) ∈ above n ↔ i < j ∧ j < n := by
  rw [above, List.mem_filter, mem_positions, decide_eq_true_iff, Inside]
  omega

theorem not_partOf_self (p : Nat × Nat) : ¬ PartOf p p := by
  rw [PartOf]
  omega

end Triangle

open Triangle (PartOf above)

/-- The cells above the diagonal, each once, and no cell before one that lies inside it. -/
structure Schedule (n : Nat) where
  cells : List (Nat × Nat)
  perm : cells.Perm (above n)
  parts_first : cells.Pairwise fun p q => ¬ PartOf q p

namespace Chart

variable {c d : Chart}

/-- A chart is its cells. -/
theorem ext_get (hsize : c.size = d.size) (h : ∀ i j, c.get i j = d.get i j) : c = d := by
  obtain ⟨n, cs, hcs⟩ := c
  obtain ⟨m, ds, hds⟩ := d
  obtain rfl : n = m := hsize
  have hcells : cs = ds := by
    refine Array.ext (hcs.trans hds.symm) fun k hk hk' => ?_
    obtain ⟨i, j, hin, rfl⟩ := Triangle.exists_offset_eq (hcs ▸ hk)
    have hget := h i j
    simp only [get, if_pos hin] at hget
    rwa [Array.getD_eq_getD_getElem?, Array.getD_eq_getD_getElem?, Array.getElem?_eq_getElem hk,
      Array.getElem?_eq_getElem hk'] at hget
  subst hcells
  rfl

theorem cell_congr {i j : Nat} (hsize : c.size = d.size) (h : c.get i j = d.get i j) :
    c.cell i j = d.cell i j := by
  rw [cell, cell, hsize, h]

theorem setAll_perm {value : Nat → Nat → IndexSet} {ps qs : List (Nat × Nat)} (h : ps.Perm qs)
    (hin : ∀ p ∈ ps, Triangle.Inside c.size p.1 p.2) : c.setAll value ps = c.setAll value qs := by
  have hin' : ∀ p ∈ qs, Triangle.Inside c.size p.1 p.2 := fun p hp => hin p (h.mem_iff.mpr hp)
  refine ext_get (size_setAll.trans size_setAll.symm) fun i j => ?_
  rw [get_setAll hin, get_setAll hin']
  simp only [h.mem_iff]

/-- Every cell that is read to fill one of the cells still to come has its final contents, unless it
is one of them itself. -/
def Ready (final c : Chart) (cells : List (Nat × Nat)) : Prop :=
  ∀ p ∈ cells, ∀ q, PartOf q p → q ∉ cells → c.get q.1 q.2 = final.get q.1 q.2

/-- The first cell of a schedule reads cells with their final contents only. -/
theorem Ready.get_eq {final : Chart} {p q : Nat × Nat} {cells : List (Nat × Nat)}
    (h : Ready final c (p :: cells)) (hfirst : ∀ q ∈ cells, ¬ PartOf q p) (hq : PartOf q p) :
    c.get q.1 q.2 = final.get q.1 q.2 := by
  refine h p List.mem_cons_self q hq fun hmem => ?_
  rcases List.mem_cons.mp hmem with rfl | hmem
  · exact Triangle.not_partOf_self q hq
  · exact hfirst q hmem hq

/-- Once a cell has got its final contents, it need not come any more. -/
theorem Ready.set {final : Chart} {p : Nat × Nat} {cells : List (Nat × Nat)}
    (h : Ready final c (p :: cells)) (hin : Triangle.Inside c.size p.1 p.2) :
    Ready final (c.set p.1 p.2 (final.get p.1 p.2)) cells := by
  intro p' hp' q hq hmem
  rw [get_set c _ hin]
  by_cases he : p.1 = q.1 ∧ p.2 = q.2
  · rw [if_pos he, he.1, he.2]
  · rw [if_neg he]
    refine h p' (List.mem_cons_of_mem p hp') q hq fun hc => ?_
    rcases List.mem_cons.mp hc with rfl | hc
    · exact he ⟨rfl, rfl⟩
    · exact hmem hc

end Chart

/-- Only the cells inside a cell are read to fill it. -/
theorem Recognizer.pairs_congr_parts {m : Type → Type} (r : Recognizer m) {c d : Chart}
    {p : Nat × Nat} (h : ∀ q, PartOf q p → c.get q.1 q.2 = d.get q.1 q.2) :
    r.pairs c p.1 p.2 = r.pairs d p.1 p.2 := by
  refine List.flatMap_congr fun k hk => ?_
  obtain ⟨hik, hkj⟩ := Chart.mem_splits.mp hk
  have hleft : PartOf (p.1, k) p := ⟨Nat.le_refl _, by omega, by simp only; omega⟩
  have hright : PartOf (k + 1, p.2) p := ⟨by simp only; omega, Nat.le_refl _, by simp only; omega⟩
  rw [h _ hleft, h _ hright]

namespace RuleIndex

variable {index : RuleIndex} {tokens : List String}

/-- Above the diagonal the finished chart is combined from itself. -/
theorem combine_fill {i j : Nat} (hij : i < j) (hj : j < tokens.length) :
    index.combine (index.fill tokens) i j = (index.fill tokens).get i j := by
  ext a
  rw [Recognizer.mem_combine, mem_get_fill, derives_word_iff hij hj]
  constructor
  · intro h
    obtain ⟨k, hik, hkj, b, c, hb, hc, ha⟩ := h
    exact ⟨⟨by omega, hj⟩, k, hik, hkj, b, c, (mem_get_fill.mp hb).2, (mem_get_fill.mp hc).2, ha⟩
  · intro h
    obtain ⟨-, k, hik, hkj, b, c, hb, hc, ha⟩ := h
    exact ⟨k, hik, hkj, b, c, mem_get_fill.mpr ⟨⟨hik, by omega⟩, hb⟩,
      mem_get_fill.mpr ⟨⟨hkj, hj⟩, hc⟩, ha⟩

theorem combine_congr_parts {c d : Chart} {p : Nat × Nat}
    (h : ∀ q, PartOf q p → c.get q.1 q.2 = d.get q.1 q.2) :
    index.combine c p.1 p.2 = index.combine d p.1 p.2 := by
  rw [combine, combine, Recognizer.pairs_congr_parts _ h]

/-- At the start nothing is missing but the cells above the diagonal. -/
theorem get_base_of_not_mem {i j : Nat} (h : (i, j) ∉ above tokens.length) :
    (index.base tokens).get i j = (index.fill tokens).get i j := by
  rw [Triangle.mem_above] at h
  ext a
  rw [mem_get_base, mem_get_fill]
  constructor
  · exact fun ⟨hin, _, hd⟩ => ⟨hin, hd⟩
  · intro hfill
    obtain ⟨⟨hij, hj⟩, hd⟩ := hfill
    exact ⟨⟨hij, hj⟩, by omega, hd⟩

theorem ready_base (schedule : Schedule tokens.length) :
    Chart.Ready (index.fill tokens) (index.base tokens) schedule.cells := fun _ _ _ _ hmem =>
  get_base_of_not_mem fun habove => hmem (schedule.perm.mem_iff.mpr habove)

/-- The cells of one length are combined from shorter ones, which filling the length leaves alone. -/
theorem extend_extend {chart : Chart} {span : Nat} (hs : 1 ≤ span) :
    index.extend (index.extend chart span) span = index.extend chart span := by
  refine Chart.ext_get (by rw [size_extend]) fun i j => ?_
  rw [get_extend index hs, size_extend]
  by_cases h : Triangle.Inside chart.size i j ∧ j + 1 = i + span
  · have hbelow : Chart.AgreeBelow span (index.extend chart span) chart := fun i' j' hlt => by
      rw [get_extend index hs, if_neg fun h' => by omega]
    obtain rfl : j = i + span - 1 := by omega
    rw [if_pos h, get_extend index hs, if_pos h, combine, combine, Recognizer.pairs_congr _ hbelow]
  · rw [if_neg h]

end RuleIndex

namespace Recognizer

variable {m : Type → Type} [Monad m] (r : Recognizer m)

/-- Fill the diagonal, and then cells in a given order. -/
def fillBy (cells : List (Nat × Nat)) (tokens : List String) : m Chart := do
  let chart ← r.base tokens
  cells.foldlM (fun chart p => r.fillCell chart p.1 p.2) chart

/-- Fill the cells of a span length in a given order of their first tokens. -/
def fillSpanBy (starts : List Nat) (chart : Chart) (span : Nat) : m Chart :=
  starts.foldlM (fun chart i => r.fillCell chart i (i + span - 1)) chart

variable [LawfulMonad m] {r} {tokens : List String}

/-- Each cell in turn gets its final contents. By induction on the cells still to come: they stay
ready, because the cell that is filled is no longer one of them. -/
theorem foldlM_fillCell_of_ready {cells : List (Nat × Nat)} {c : Chart}
    (hsize : c.size = tokens.length) (hcells : ∀ p ∈ cells, p ∈ above tokens.length)
    (hparts : cells.Pairwise fun p q => ¬ PartOf q p)
    (hready : Chart.Ready (r.index.fill tokens) c cells) :
    cells.foldlM (fun c p => r.fillCell c p.1 p.2) c = (do
      r.lookUp (cells.flatMap fun p => r.pairs (r.index.fill tokens) p.1 p.2)
      return c.setAll (r.index.fill tokens).get cells) := by
  induction cells generalizing c with
  | nil => simp only [List.foldlM_nil, List.flatMap_nil, lookUp, List.forM_nil, pure_bind]; rfl
  | cons p cells ih =>
    obtain ⟨hfirst, hparts⟩ := List.pairwise_cons.mp hparts
    obtain ⟨hp, hcells⟩ := List.forall_mem_cons.mp hcells
    obtain ⟨hij, hj⟩ := Triangle.mem_above.mp hp
    have hread : ∀ q, PartOf q p → c.get q.1 q.2 = (r.index.fill tokens).get q.1 q.2 :=
      fun q hq => hready.get_eq hfirst hq
    have hvalue : r.index.combine c p.1 p.2 = (r.index.fill tokens).get p.1 p.2 := by
      rw [RuleIndex.combine_congr_parts hread, RuleIndex.combine_fill hij hj]
    have hnext := ih (c := c.set p.1 p.2 ((r.index.fill tokens).get p.1 p.2))
      ((Chart.size_set c _ _ _).trans hsize) hcells hparts
      (hready.set ⟨Nat.le_of_lt hij, by rwa [hsize]⟩)
    rw [List.foldlM_cons, fillCell_eq, r.pairs_congr_parts hread, hvalue, List.flatMap_cons,
      lookUp_append]
    simp only [bind_assoc, pure_bind, hnext]
    rfl

/-- A fill by a schedule makes the lookups of the finished chart, in the order of the schedule, and
ends with that chart. -/
theorem fillBy_eq (schedule : Schedule tokens.length) :
    r.fillBy schedule.cells tokens = (do
      forM tokens r.observer.onToken
      r.lookUp (schedule.cells.flatMap fun p => r.pairs (r.index.fill tokens) p.1 p.2)
      return r.index.fill tokens) := by
  have hcells : ∀ p ∈ schedule.cells, p ∈ above tokens.length := fun p hp =>
    schedule.perm.mem_iff.mp hp
  have hin : ∀ p ∈ schedule.cells, Triangle.Inside (r.index.base tokens).size p.1 p.2 := by
    intro p hp
    obtain ⟨hij, hj⟩ := Triangle.mem_above.mp (hcells p hp)
    rw [RuleIndex.size_base]
    exact ⟨Nat.le_of_lt hij, hj⟩
  have hfinal : (r.index.base tokens).setAll (r.index.fill tokens).get schedule.cells =
      r.index.fill tokens := by
    refine Chart.ext_get ?_ fun i j => ?_
    · rw [Chart.size_setAll, RuleIndex.size_base, RuleIndex.size_fill]
    · rw [Chart.get_setAll hin]
      by_cases hmem : (i, j) ∈ schedule.cells
      · rw [if_pos hmem]
      · rw [if_neg hmem, RuleIndex.get_base_of_not_mem]
        exact fun habove => hmem (schedule.perm.mem_iff.mpr habove)
  rw [fillBy, base_eq, bind_assoc]
  simp only [pure_bind, foldlM_fillCell_of_ready RuleIndex.size_base hcells schedule.parts_first
    (RuleIndex.ready_base schedule), hfinal]

/-- The cells of one length in any order: each reads the chart as it was before all of them. -/
theorem fillSpanBy_eq {chart : Chart} {span : Nat} (hs : 1 ≤ span) {starts : List Nat}
    (h : starts.Perm (Chart.starts chart.size span)) :
    r.fillSpanBy starts chart span = (do
      r.lookUp (starts.flatMap fun i => r.pairs chart i (i + span - 1))
      return r.index.extend chart span) := by
  have hperm := h.map fun i => (i, i + span - 1)
  have hin : ∀ p ∈ starts.map fun i => (i, i + span - 1), Triangle.Inside chart.size p.1 p.2 :=
    fun p hp => ((RuleIndex.mem_starts_map hs).mp (hperm.mem_iff.mp hp)).1
  rw [fillSpanBy, r.foldlM_fillCell starts (.refl span chart), Chart.setAll_perm hperm hin]
  rfl

end Recognizer

/-- Filling the cells above the diagonal by any schedule gives the finished chart. In any chart at
all, the cells of a span length may be filled in any order, no cell of another length changes, and
filling the length again changes nothing. How cells are enumerated does not matter, and may differ
from one fill to the other. -/
theorem Recognizer.fill_in_any_order (r r' : Recognizer Id) (hindex : r'.index = r.index) :
    (∀ (tokens : List String) (schedule : Schedule tokens.length),
      Id.run (r'.fillBy schedule.cells tokens) = Id.run (r.fill tokens)) ∧
    ∀ (chart : Chart) (span : Nat), 2 ≤ span → span ≤ chart.size →
      (∀ starts : List Nat, starts.Perm (Chart.starts chart.size span) →
        Id.run (r'.fillSpanBy starts chart span) = Id.run (r.fillSpan chart span)) ∧
      (Id.run (r.fillSpan chart span)).size = chart.size ∧
      (∀ i j, j + 1 ≠ i + span →
        (Id.run (r.fillSpan chart span)).cell i j = chart.cell i j) ∧
      Id.run (r'.fillSpan (Id.run (r.fillSpan chart span)) span) =
        Id.run (r.fillSpan chart span) := by
  have hspan : ∀ (r : Recognizer Id) chart span,
      Id.run (r.fillSpan chart span) = r.index.extend chart span := fun r chart span =>
    congrArg Id.run (r.fillSpan_eq chart span)
  constructor
  · intro tokens schedule
    have hby : Id.run (r'.fillBy schedule.cells tokens) = r'.index.fill tokens :=
      congrArg Id.run (fillBy_eq schedule)
    rw [hby, idRun_fill, hindex]
  · intro chart span hs _
    have hpos : 1 ≤ span := by omega
    simp only [hspan, hindex]
    refine ⟨fun starts h => ?_, r.index.size_extend, fun i j hne => ?_, ?_⟩
    · rw [← hindex]
      exact congrArg Id.run (fillSpanBy_eq hpos h)
    · refine Chart.cell_congr r.index.size_extend ?_
      rw [RuleIndex.get_extend _ hpos, if_neg fun h => hne h.2]
    · exact RuleIndex.extend_extend hpos

/-- Column by column, and from the bottom up in each. -/
def byColumns : Schedule 4 where
  cells := [(0, 1), (1, 2), (0, 2), (2, 3), (1, 3), (0, 3)]
  perm := by decide
  parts_first := by decide

/-- A chart at which no fill arrives: the longest cell is not empty, and two of the others are. -/
def strayChart : Chart :=
  (((Chart.blank 3).set 0 0 (.ofList [3])).set 1 1 (.ofList [1])).set 0 2 (.ofList [7])

/-- Four tokens column by column, with cells enumerated from the largest index down, and the spans
of two tokens of a stray chart from the last to the first. -/
theorem Recognizer.fill_in_any_order_g1 :
    let r := Sample.g1.grammar.index.recognizer
    let r' := { r with order := descending }
    Id.run (r'.fillBy byColumns.cells ["a", "a", "a", "b"]) =
      Id.run (r.fill ["a", "a", "a", "b"]) ∧
    Id.run (r'.fillSpanBy [1, 0] strayChart 2) = Id.run (r.fillSpan strayChart 2) ∧
    (Id.run (r.fillSpan strayChart 2)).cell 0 2 = .ok (.ofList [7]) := by
  intro r r'
  obtain ⟨hschedule, hspan⟩ := fill_in_any_order r r' rfl
  obtain ⟨hstarts, -, hkept, -⟩ := hspan strayChart 2 (by decide) (by decide)
  refine ⟨hschedule ["a", "a", "a", "b"] byColumns, hstarts [1, 0] (by decide), ?_⟩
  rw [hkept 0 2 (by decide)]
  decide

end ChomskyChart
