import ChomskyChart.Proofs.Recognition.Checkpoints
import Mathlib.Algebra.BigOperators.Intervals

/-!
# How many pairs are looked up

A span is cut in two in every possible way, and for each cut every symbol of the left cell is paired
with every symbol of the right cell. So the number of lookups is a sum of products of cell sizes. The
cells may be those of the finished chart, because cells that are read have got their final contents;
and only their sizes count, so that the order in which they are enumerated does not.

The count is of what an observer is told. It says nothing of what a lookup itself costs.
-/

namespace ChomskyChart

namespace Chart

variable (c : Chart)

/-- The pairs of a symbol of the left part and one of the right part, over all cuts of a span. -/
def cutCount (i j : Nat) : Nat :=
  ∑ k ∈ Finset.Ico i j, (c.get i k).card * (c.get (k + 1) j).card

/-- The pairs for all spans of a length. -/
def spanCount (span : Nat) : Nat :=
  ∑ i ∈ Finset.range (c.size + 1 - span), c.cutCount i (i + span - 1)

/-- Spans by length and first token are spans by last and first token. -/
theorem sum_spanCount : ∑ span ∈ Finset.Icc 2 c.size, c.spanCount span =
    ∑ j ∈ Finset.range c.size, ∑ i ∈ Finset.range j, c.cutCount i j := by
  simp only [spanCount]
  rw [Finset.sum_sigma', Finset.sum_sigma']
  refine Finset.sum_nbij' (fun p => ⟨p.2 + p.1 - 1, p.2⟩) (fun p => ⟨p.1 + 1 - p.2, p.2⟩)
    (fun p hp => ?_) (fun p hp => ?_) (fun p hp => ?_) (fun p hp => ?_) fun _ _ => rfl
  all_goals
    obtain ⟨a, i⟩ := p
    simp only [Finset.mem_sigma, Finset.mem_Icc, Finset.mem_range] at hp
    obtain ⟨h₁, h₂⟩ := hp
  · simp only [Finset.mem_sigma, Finset.mem_range]
    omega
  · simp only [Finset.mem_sigma, Finset.mem_Icc, Finset.mem_range]
    omega
  · have hspan : i + a - 1 + 1 - i = a := by omega
    simp only [hspan]
  · have hlast : i + (a + 1 - i) - 1 = a := by omega
    simp only [hlast]

end Chart

namespace Recognizer

variable {m : Type → Type} (r : Recognizer m) (chart : Chart)

theorem length_pairs (i j : Nat) : (r.pairs chart i j).length = chart.cutCount i j := by
  have hlist : ∀ i j s, (r.order.list i j s).length = s.card := fun i j s =>
    (r.order.perm i j s).length_eq
  rw [pairs, List.length_flatMap, Chart.cutCount]
  simp only [List.length_flatMap, List.length_map, List.map_const', List.sum_replicate, hlist]
  rfl

theorem length_spanPairs (span : Nat) :
    (r.spanPairs chart span).length = chart.spanCount span := by
  rw [spanPairs, List.length_flatMap, Chart.spanCount]
  simp only [length_pairs]
  rfl

end Recognizer

namespace RuleIndex

variable (index : RuleIndex) (tokens : List String)

/-- The lookups for a span length. -/
def spanLookups (span : Nat) : Nat :=
  (index.fill tokens).spanCount span

/-- The lookups for the span lengths up to one, which is counted too. -/
def lookupsTo (span : Nat) : Nat :=
  ∑ s ∈ Finset.Icc 2 span, index.spanLookups tokens s

variable {index tokens}

theorem lookupsTo_one : index.lookupsTo tokens 1 = 0 := rfl

theorem lookupsTo_succ {s : Nat} (hs : 1 ≤ s) :
    index.lookupsTo tokens (s + 1) = index.lookupsTo tokens s + index.spanLookups tokens (s + 1) :=
  Finset.sum_Icc_succ_top (by omega) _

/-- All lookups, as a sum over cells of the finished chart. -/
theorem lookupsTo_length : index.lookupsTo tokens tokens.length =
    ∑ j ∈ Finset.range tokens.length, ∑ i ∈ Finset.range j, (index.fill tokens).cutCount i j := by
  have hsum := (index.fill tokens).sum_spanCount
  rwa [size_fill] at hsum

end RuleIndex

/-! ### What a probe counts -/

/-- The recognizer of an index, with cells enumerated in some order. -/
def RuleIndex.recognizerIn (index : RuleIndex) (order : Order) : Recognizer Id :=
  { index.recognizer with order }

namespace Probe

/-- The recognizer of a probe, with cells enumerated in some order. -/
def recognizerIn (order : Order) (index : RuleIndex) (raiseAt : Nat) : Recognizer (StateM Probe) :=
  { recognizer index raiseAt with order }

/-- What a probe notes, as a record. -/
def record (raiseAt : Nat) : Record Probe where
  onToken := noteToken
  onPair _ _ := countPair raiseAt

/-- A probe after some more pairs. It raises the flag if the pair of the given number is one of
them. -/
def after (raiseAt count : Nat) (p : Probe) : Probe :=
  { p with
    pairs := p.pairs + count
    raised := p.raised || decide (p.pairs < raiseAt ∧ raiseAt ≤ p.pairs + count) }

variable {order : Order} {index : RuleIndex} {raiseAt : Nat} {tokens : List String}

theorem recognizerIn_eq :
    recognizerIn order index raiseAt = (index.recognizerIn order).recorded (record raiseAt) := rfl

theorem after_zero (p : Probe) : p.after raiseAt 0 = p := by
  have hnone : ¬(p.pairs < raiseAt ∧ raiseAt ≤ p.pairs + 0) := by omega
  rw [after, decide_eq_false hnone, Bool.or_false]
  rfl

theorem after_after (count more : Nat) (p : Probe) :
    (p.after raiseAt count).after raiseAt more = p.after raiseAt (count + more) := by
  simp only [after, Probe.mk.injEq, true_and, Nat.add_assoc, Bool.or_assoc, ← Bool.decide_or]
  congr 2
  rw [eq_iff_iff]
  omega

theorem countPair_eq (p : Probe) : p.countPair raiseAt = p.after raiseAt 1 := by
  have hone : (p.pairs < raiseAt ∧ raiseAt ≤ p.pairs + 1) ↔ p.pairs + 1 = raiseAt := by omega
  rw [countPair, after]
  simp only [hone]
  rfl

theorem afterTokens_record (p : Probe) :
    (index.recognizerIn order).afterTokens (record raiseAt) tokens p =
      { p with tokens := p.tokens ++ tokens } := by
  have hnote : ∀ (ts : List String) (p : Probe),
      ts.foldl (fun p t => p.noteToken t) p = { p with tokens := p.tokens ++ ts } := by
    intro ts p
    induction ts generalizing p with
    | nil => rw [List.append_nil]; rfl
    | cons t ts ih =>
      rw [List.foldl_cons, ih]
      simp only [noteToken, List.append_assoc, List.singleton_append]
  rw [← hnote, Recognizer.afterTokens]
  exact ite_self _

theorem afterSpan_record (p : Probe) (span : Nat) :
    (index.recognizerIn order).afterSpan (record raiseAt) tokens p span =
      p.after raiseAt (index.spanLookups tokens span) := by
  have hcount : ∀ (ps : List (Nat × Nat)) (p : Probe),
      ps.foldl (fun p _ => p.countPair raiseAt) p = p.after raiseAt ps.length := by
    intro ps p
    induction ps generalizing p with
    | nil => exact (after_zero p).symm
    | cons pair ps ih =>
      rw [List.foldl_cons, ih, countPair_eq, after_after, List.length_cons, Nat.add_comm 1]
  rw [RuleIndex.spanLookups, ← Recognizer.length_spanPairs (index.recognizerIn order), ← hcount,
    Recognizer.index_fill]
  rfl

/-- The record when some span lengths are filled, by induction on their number. -/
theorem recordBelow_record {span : Nat} (hs : 1 ≤ span) (p : Probe) :
    (index.recognizerIn order).recordBelow (record raiseAt) tokens p (span + 1) =
      { p with tokens := p.tokens ++ tokens }.after raiseAt (index.lookupsTo tokens span) := by
  induction span, hs using Nat.le_induction with
  | base =>
    rw [RuleIndex.lookupsTo_one, after_zero]
    exact afterTokens_record p
  | succ span hs ih =>
    rw [Recognizer.recordBelow_succ _ _ (by omega), ih, afterSpan_record, after_after,
      RuleIndex.lookupsTo_succ hs]

theorem run_readTokens (p : Probe) :
    ((recognizerIn order index raiseAt).readTokens tokens).run p =
      (⟨⟩, { p with tokens := p.tokens ++ tokens }) := by
  rw [← afterTokens_record, recognizerIn_eq, Recognizer.run_recorded_readTokens]
  rfl

theorem run_showSpan (span : Nat) (p : Probe) :
    ((recognizerIn order index raiseAt).showSpan tokens span).run p =
      (⟨⟩, p.after raiseAt (index.spanLookups tokens span)) := by
  rw [← afterSpan_record, recognizerIn_eq, Recognizer.run_recorded_showSpan]
  rfl

/-- What a probe has seen when recognition is done. -/
theorem run_recognize (p : Probe) :
    ((recognizerIn order index raiseAt).recognize tokens).run p =
      (index.recognize tokens, { p with tokens := p.tokens ++ tokens }.after raiseAt
        (index.lookupsTo tokens tokens.length)) := by
  by_cases hne : tokens = []
  · subst hne
    have hnone : index.lookupsTo [] ([] : List String).length = 0 := rfl
    rw [hnone, after_zero, List.append_nil]
    rfl
  · rw [← recordBelow_record (List.length_pos_iff.mpr hne), recognizerIn_eq,
      Recognizer.run_recorded_recognize]
    exact congrArg (Prod.mk · _) (Recognizer.idRun_recognize (index.recognizerIn order) tokens)

end Probe

end ChomskyChart
