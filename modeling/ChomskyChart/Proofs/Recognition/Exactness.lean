import ChomskyChart.Proofs.Recognition.Derivation
import ChomskyChart.Proofs.Recognition.Spans
import Mathlib.Data.Nat.Init

/-!
# What a chart holds while it is filled

`fillTo tokens s` is the chart in which the span lengths up to `s` are done. Its cells of those
lengths hold exactly the symbols that derive their words, and all longer cells are empty. This is
the invariant of the whole fill: it gives the finished chart, and it says that a finished cell is
never touched again.
-/

namespace ChomskyChart.RuleIndex

variable (index : RuleIndex) (tokens : List String)

/-- The symbols with the token at a position as a body. -/
def derivers (i : Nat) : IndexSet :=
  match tokens[i]? with
  | some t => index.terminalDerivers t
  | none => ∅

/-- The chart of which the diagonal is filled. -/
def base : Chart :=
  (Chart.blank tokens.length).setAll (fun i _ => index.derivers tokens i)
    (tokens.zipIdx.map fun p => (p.2, p.2))

/-- The chart of which the span lengths up to `s` are filled. -/
def fillTo (s : Nat) : Chart :=
  (List.range' 2 (s - 1)).foldl index.extend (index.base tokens)

variable {index tokens}

@[simp]
theorem size_base : (index.base tokens).size = tokens.length :=
  Chart.size_setAll

theorem fillTo_one : index.fillTo tokens 1 = index.base tokens := rfl

theorem fillTo_succ {s : Nat} (hs : 1 ≤ s) :
    index.fillTo tokens (s + 1) = index.extend (index.fillTo tokens s) (s + 1) := by
  obtain ⟨k, rfl⟩ : ∃ k, s = k + 1 := ⟨s - 1, by omega⟩
  rw [fillTo, fillTo, Nat.add_sub_cancel, Nat.add_sub_cancel, List.range'_concat,
    List.foldl_append, show 2 + 1 * k = k + 1 + 1 by omega]
  rfl

@[simp]
theorem size_fillTo {s : Nat} : (index.fillTo tokens s).size = tokens.length := by
  have hbase : (index.base tokens).size = tokens.length := size_base
  rw [fillTo, ← hbase]
  generalize index.base tokens = c
  induction List.range' 2 (s - 1) generalizing c with
  | nil => rfl
  | cons span spans ih => exact (ih (index.extend c span)).trans (index.size_extend)

theorem isEmpty_fillTo (hne : tokens ≠ []) (s : Nat) : (index.fillTo tokens s).isEmpty = false := by
  rw [Chart.isEmpty, size_fillTo, beq_eq_false_iff_ne]
  exact fun h => hne (List.length_eq_zero_iff.mp h)

theorem mem_diagonal {n i j : Nat} (hn : tokens.length = n) :
    (i, j) ∈ tokens.zipIdx.map (fun p => (p.2, p.2)) ↔ Triangle.Inside n i j ∧ j + 1 ≤ i + 1 := by
  subst hn
  simp only [List.mem_map, Prod.mk.injEq, Triangle.Inside]
  constructor
  · intro h
    obtain ⟨⟨t, p⟩, hp, rfl, rfl⟩ := h
    have hlt := List.snd_lt_of_mem_zipIdx hp
    simp only at hlt
    omega
  · intro h
    obtain ⟨⟨hij, hj⟩, hji⟩ := h
    obtain rfl : i = j := by omega
    exact ⟨(tokens[i], i), List.mk_mem_zipIdx_iff_getElem?.mpr (List.getElem?_eq_getElem hj), rfl,
      rfl⟩

theorem mem_get_base {i j a : Nat} :
    a ∈ (index.base tokens).get i j ↔
      Triangle.Inside tokens.length i j ∧ j + 1 ≤ i + 1 ∧
        index.Derives a (Chart.word tokens i j) := by
  rw [base, Chart.get_setAll fun p hp => ((mem_diagonal rfl).mp hp).1, Chart.get_blank]
  by_cases hd : (i, j) ∈ tokens.zipIdx.map fun p => (p.2, p.2)
  · obtain ⟨hin, hji⟩ := (mem_diagonal rfl).mp hd
    obtain rfl : i = j := by have := hin.1; omega
    rw [if_pos hd, Chart.word_self hin.2, derives_singleton, derivers,
      List.getElem?_eq_getElem hin.2]
    exact ⟨fun h => ⟨hin, hji, h⟩, fun h => h.2.2⟩
  · rw [if_neg hd]
    constructor
    · exact fun h => absurd h (IndexSet.not_mem_empty a)
    · intro h
      obtain ⟨hin, hji, -⟩ := h
      exact absurd ((mem_diagonal rfl).mpr ⟨hin, hji⟩) hd

/-- The cells of the next length are exact when all shorter ones are. -/
theorem mem_combine_fillTo {s i j a : Nat}
    (ih : ∀ i j a, a ∈ (index.fillTo tokens s).get i j ↔
      Triangle.Inside tokens.length i j ∧ j + 1 ≤ i + s ∧ index.Derives a (Chart.word tokens i j))
    (hs : 1 ≤ s) (hj : j < tokens.length) (hspan : j + 1 = i + (s + 1)) :
    a ∈ index.combine (index.fillTo tokens s) i j ↔ index.Derives a (Chart.word tokens i j) := by
  rw [Recognizer.mem_combine, derives_word_iff (by omega) hj]
  constructor
  · intro h
    obtain ⟨k, hik, hkj, b, c, hb, hc, ha⟩ := h
    exact ⟨k, hik, hkj, b, c, ((ih _ _ _).mp hb).2.2, ((ih _ _ _).mp hc).2.2, ha⟩
  · intro h
    obtain ⟨k, hik, hkj, b, c, hb, hc, ha⟩ := h
    have hleft : Triangle.Inside tokens.length i k := ⟨hik, by omega⟩
    have hright : Triangle.Inside tokens.length (k + 1) j := ⟨hkj, hj⟩
    exact ⟨k, hik, hkj, b, c, (ih _ _ _).mpr ⟨hleft, by omega, hb⟩,
      (ih _ _ _).mpr ⟨hright, by omega, hc⟩, ha⟩

/-- The invariant of the fill. -/
theorem mem_get_fillTo {s : Nat} (hs : 1 ≤ s) (i j a : Nat) :
    a ∈ (index.fillTo tokens s).get i j ↔
      Triangle.Inside tokens.length i j ∧ j + 1 ≤ i + s ∧
        index.Derives a (Chart.word tokens i j) := by
  induction s, hs using Nat.le_induction generalizing i j a with
  | base => exact mem_get_base
  | succ s hs ih =>
    rw [fillTo_succ hs, get_extend index (by omega), size_fillTo]
    by_cases hspan : Triangle.Inside tokens.length i j ∧ j + 1 = i + (s + 1)
    · obtain ⟨hin, he⟩ := hspan
      rw [if_pos ⟨hin, he⟩, mem_combine_fillTo ih hs hin.2 he]
      exact ⟨fun h => ⟨hin, by omega, h⟩, fun h => h.2.2⟩
    · rw [if_neg hspan, ih]
      constructor
      · exact fun ⟨hin, hle, h⟩ => ⟨hin, by omega, h⟩
      · intro h
        obtain ⟨hin, hle, h⟩ := h
        refine ⟨hin, ?_, h⟩
        by_contra hgt
        exact hspan ⟨hin, by omega⟩

/-- A cell does not change once its length is filled. -/
theorem get_fillTo_of_le {s s' i j : Nat} (hs : 1 ≤ s) (hss : s ≤ s') (h : j + 1 ≤ i + s) :
    (index.fillTo tokens s).get i j = (index.fillTo tokens s').get i j := by
  ext a
  rw [mem_get_fillTo hs, mem_get_fillTo (by omega)]
  constructor
  · exact fun ⟨hin, _, hd⟩ => ⟨hin, by omega, hd⟩
  · exact fun ⟨hin, _, hd⟩ => ⟨hin, h, hd⟩

theorem agreeBelow_fillTo {s s' : Nat} (hs : 1 ≤ s) (hss : s ≤ s') :
    Chart.AgreeBelow (s + 1) (index.fillTo tokens s) (index.fillTo tokens s') :=
  fun _ _ h => get_fillTo_of_le hs hss (by omega)

/-- Tokens count only by what derives them. So two rule indices that give the same answers, when the
tokens of one are translated into those of the other, fill the same chart. -/
theorem fillTo_map {index' : RuleIndex} {f : String → String}
    (hterminal : ∀ t, index'.terminalDerivers (f t) = index.terminalDerivers t)
    (hpair : index'.pairDerivers = index.pairDerivers) (s : Nat) :
    index'.fillTo (tokens.map f) s = index.fillTo tokens s := by
  have hderivers : index'.derivers (tokens.map f) = index.derivers tokens := by
    funext i
    rw [derivers, derivers, List.getElem?_map]
    cases tokens[i]? with
    | none => rfl
    | some t => exact hterminal t
  have hdiagonal : (tokens.map f).zipIdx.map (fun p => (p.2, p.2)) =
      tokens.zipIdx.map fun p => (p.2, p.2) := by
    rw [List.zipIdx_map, List.map_map]
    rfl
  have hbase : index'.base (tokens.map f) = index.base tokens := by
    rw [base, base, hderivers, hdiagonal, List.length_map]
  have hextend : index'.extend = index.extend := by
    funext chart span
    rw [extend, extend]
    congr 1
    funext i j
    rw [combine, combine, unite, unite, hpair]
    rfl
  rw [fillTo, fillTo, hbase, hextend]

end ChomskyChart.RuleIndex
