import ChomskyChart.Proofs.Grammar.Cells
import ChomskyChart.Proofs.Recognition.Counts
import Mathlib.Algebra.BigOperators.Ring.Finset
import Mathlib.Algebra.Order.BigOperators.Group.Finset
import Mathlib.Tactic.Ring

/-!
# How many lookups a grammar takes

A cell holds no more symbols than the grammar has. So a cut takes at most the square of that number,
and the cuts of all spans over `n` tokens are as many as the ways to choose three of the `n + 1`
places before, between and after the tokens.

The exact count holds for every rule index; only the bound needs a grammar.
-/

namespace ChomskyChart

theorem IndexSet.card_le_of_forall_lt {s : IndexSet} {n : Nat} (h : ∀ a ∈ s, a < n) :
    s.card ≤ n := by
  have hnodup : s.toList.Nodup := s.ascending.imp Nat.ne_of_lt
  have hsub : s.toList ⊆ List.range n := fun a ha => List.mem_range.mpr (h a ha)
  have hle := (List.subperm_of_subset hnodup hsub).length_le
  rwa [List.length_range] at hle

namespace Chart

theorem two_mul_sum_sub (j : Nat) : 2 * ∑ i ∈ Finset.range j, (j - i) = j * (j + 1) := by
  induction j with
  | zero => rfl
  | succ j ih =>
    rw [Finset.sum_range_succ']
    simp only [Nat.add_sub_add_right, Nat.sub_zero]
    rw [Nat.mul_add, ih]
    ring

/-- The cuts of all spans, counted. -/
theorem six_mul_sum_cuts (n : Nat) :
    6 * (∑ j ∈ Finset.range n, ∑ i ∈ Finset.range j, (j - i)) + n = n ^ 3 := by
  induction n with
  | zero => rfl
  | succ n ih =>
    have hrow := two_mul_sum_sub n
    rw [Finset.sum_range_succ]
    calc 6 * (∑ j ∈ Finset.range n, ∑ i ∈ Finset.range j, (j - i) +
          ∑ i ∈ Finset.range n, (n - i)) + (n + 1)
        = (6 * (∑ j ∈ Finset.range n, ∑ i ∈ Finset.range j, (j - i)) + n) +
            3 * (2 * ∑ i ∈ Finset.range n, (n - i)) + 1 := by ring
      _ = n ^ 3 + 3 * (n * (n + 1)) + 1 := by rw [ih, hrow]
      _ = (n + 1) ^ 3 := by ring

theorem sum_cuts (n : Nat) :
    ∑ j ∈ Finset.range n, ∑ i ∈ Finset.range j, (j - i) = (n ^ 3 - n) / 6 := by
  have hsix := six_mul_sum_cuts n
  omega

variable {c : Chart} {v : Nat} (h : ∀ i j, (c.get i j).card ≤ v)

include h

theorem cutCount_le (i j : Nat) : c.cutCount i j ≤ v * v * (j - i) := by
  have hterm : ∀ k ∈ Finset.Ico i j, (c.get i k).card * (c.get (k + 1) j).card ≤ v * v :=
    fun k _ => Nat.mul_le_mul (h i k) (h (k + 1) j)
  have hsum := Finset.sum_le_card_nsmul _ _ _ hterm
  rwa [Nat.card_Ico, Nat.nsmul_eq_mul, Nat.mul_comm] at hsum

theorem sum_cutCount_le (n : Nat) :
    ∑ j ∈ Finset.range n, ∑ i ∈ Finset.range j, c.cutCount i j ≤ v * v * ((n ^ 3 - n) / 6) :=
  calc ∑ j ∈ Finset.range n, ∑ i ∈ Finset.range j, c.cutCount i j
      ≤ ∑ j ∈ Finset.range n, ∑ i ∈ Finset.range j, v * v * (j - i) :=
        Finset.sum_le_sum fun j _ => Finset.sum_le_sum fun i _ => cutCount_le h i j
    _ = v * v * ((n ^ 3 - n) / 6) := by simp only [← Finset.mul_sum, sum_cuts]

end Chart

namespace Grammar

theorem card_get_chart_le (rules : List Rule) (start : String) (tokens : List String) (i j : Nat) :
    (((build rules start).chart tokens).get i j).card ≤
      (build rules start).nonTerminals.length := by
  refine IndexSet.card_le_of_forall_lt fun a ha => ?_
  exact exists_symbolName_iff.mp (exists_name_of_mem_chart ha)

end Grammar

/-- Each token is asked for once, in order, and pairs are looked up exactly as often as the finished
chart tells, in whatever order its cells are enumerated. For a grammar there are cubically many
lookups at most. Without tokens nothing is asked, whoever observes it. -/
theorem Recognizer.recognize_lookups (index : RuleIndex) (order : Order) (tokens : List String) :
    let n := tokens.length
    let chart := index.fill tokens
    let probe := fun index => ((Probe.recognizerIn order index 0).recognize tokens).run {}
    (probe index).1 = index.recognize tokens ∧
    (probe index).2.tokens = tokens ∧
    (probe index).2.pairs = ∑ j ∈ Finset.range n, ∑ i ∈ Finset.range j, ∑ k ∈ Finset.Ico i j,
      (chart.get i k).card * (chart.get (k + 1) j).card ∧
    (∀ rules start, (probe (Grammar.build rules start).index).2.pairs ≤
      (Grammar.build rules start).nonTerminals.length *
        (Grammar.build rules start).nonTerminals.length * ((n ^ 3 - n) / 6)) ∧
    ∀ {m : Type → Type} [Monad m] (r : Recognizer m), r.recognize [] = pure r.index.derivesEmpty := by
  intro n chart probe
  have hprobe : ∀ index : RuleIndex, (probe index).2.pairs =
      ∑ j ∈ Finset.range n, ∑ i ∈ Finset.range j, (index.fill tokens).cutCount i j := by
    intro index
    simp only [probe, Probe.run_recognize, Probe.after, Nat.zero_add]
    exact RuleIndex.lookupsTo_length
  refine ⟨?answer, ?tokens, hprobe index, fun rules start => ?bound, fun r => recognize_nil r⟩
  case answer => simp only [probe, Probe.run_recognize]
  case tokens => simp only [probe, Probe.run_recognize, Probe.after, List.nil_append]
  case bound =>
    rw [hprobe]
    exact Chart.sum_cutCount_le (Grammar.card_get_chart_le rules start tokens) n

-- The first token derives nothing, so only the other two are paired: three symbols by three.
example : (Probe.recognize Sample.g1.grammar.index 0 false ["z", "a", "a"]).2.pairs = 9 := by
  decide +kernel

end ChomskyChart
