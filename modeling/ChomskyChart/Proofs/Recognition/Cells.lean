import ChomskyChart.Proofs.Recognition.Lookups
import ChomskyChart.Samples
import ChomskyChart.Grammar.Recognition

/-!
# The cells of a finished chart

A cell of the finished chart holds exactly the symbols that derive its tokens, for every rule index
and every order in which cells are enumerated. Recognition is the same question about the whole
input; only the empty input, which has no cell, is left to the rule index.
-/

namespace ChomskyChart

namespace RuleIndex

variable {index : RuleIndex} {tokens : List String}

@[simp]
theorem size_fill : (index.fill tokens).size = tokens.length := by
  rw [Recognizer.index_fill, size_fillTo]

theorem mem_get_fill {i j a : Nat} :
    a ∈ (index.fill tokens).get i j ↔
      Triangle.Inside tokens.length i j ∧ index.Derives a (Chart.word tokens i j) := by
  rw [Recognizer.index_fill]
  by_cases hn : tokens.length = 0
  · rw [Chart.get_of_not_inside]
    · constructor
      · exact fun h => absurd h (IndexSet.not_mem_empty a)
      · intro h
        obtain ⟨⟨_, hj⟩, -⟩ := h
        omega
    · intro h
      obtain ⟨_, hj⟩ := h
      rw [size_fillTo] at hj
      omega
  · rw [mem_get_fillTo (by omega)]
    constructor
    · exact fun ⟨hin, _, h⟩ => ⟨hin, h⟩
    · exact fun ⟨hin, h⟩ => ⟨hin, by have := hin.2; omega, h⟩

theorem fill_map {index' : RuleIndex} {f : String → String}
    (hterminal : ∀ t, index'.terminalDerivers (f t) = index.terminalDerivers t)
    (hpair : index'.pairDerivers = index.pairDerivers) (tokens : List String) :
    index'.fill (tokens.map f) = index.fill tokens := by
  rw [Recognizer.index_fill, Recognizer.index_fill, List.length_map, fillTo_map hterminal hpair]

theorem cell_fill {i j : Nat} (h : Triangle.Inside tokens.length i j) :
    (index.fill tokens).cell i j = .ok ((index.fill tokens).get i j) := by
  rw [Chart.cell, size_fill, if_pos h]

theorem recognize_of_ne_nil (h : tokens ≠ []) :
    index.recognize tokens = (index.fill tokens).accepts index.start := by
  rw [Recognizer.index_recognize, if_neg (by rwa [List.isEmpty_iff])]

theorem accepts_fill {a : Nat} :
    (index.fill tokens).accepts a = true ↔ tokens ≠ [] ∧ index.Derives a tokens := by
  rw [Chart.accepts, Bool.and_eq_true, decide_eq_true_iff, decide_eq_true_iff, size_fill,
    List.length_pos_iff, mem_get_fill]
  constructor
  · intro h
    obtain ⟨hne, -, h⟩ := h
    rw [Chart.word_all hne] at h
    exact ⟨hne, h⟩
  · intro h
    obtain ⟨hne, h⟩ := h
    have hpos := List.length_pos_iff.mpr hne
    rw [Chart.word_all hne]
    exact ⟨hne, ⟨by omega, by omega⟩, h⟩

theorem recognize_iff_derives (h : tokens ≠ []) :
    index.recognize tokens = true ↔ index.Derives index.start tokens := by
  rw [recognize_of_ne_nil h, accepts_fill]
  exact ⟨fun hd => hd.2, fun hd => ⟨h, hd⟩⟩

end RuleIndex

namespace Recognizer

variable (r : Recognizer Id) (tokens : List String)

/-- No order of enumeration changes the chart. -/
theorem idRun_fill : Id.run (r.fill tokens) = r.index.fill tokens :=
  congrArg Id.run (r.fill_eq tokens)

theorem idRun_recognize : Id.run (r.recognize tokens) = r.index.recognize tokens := by
  by_cases h : tokens = []
  · subst h
    rfl
  · exact congrArg Id.run (r.recognize_eq h)

/-- Every cell is exact, and the answer is read off the cell of the whole input. -/
theorem fill_exact :
    (Id.run (r.fill tokens)).size = tokens.length ∧
    (∀ i j, i ≤ j → j < tokens.length → ∃ s, (Id.run (r.fill tokens)).cell i j = .ok s ∧
      ∀ a, a ∈ s ↔ r.index.Derives a (Chart.word tokens i j)) ∧
    (tokens ≠ [] → ∃ s, (Id.run (r.fill tokens)).cell 0 (tokens.length - 1) = .ok s ∧
      (Id.run (r.recognize tokens) = true ↔ r.index.start ∈ s)) ∧
    (tokens = [] → Id.run (r.recognize tokens) = r.index.derivesEmpty ∧
      ∀ a, (Id.run (r.fill tokens)).accepts a = false) := by
  rw [idRun_fill, idRun_recognize]
  refine ⟨RuleIndex.size_fill, fun i j hij hj => ?_, fun hne => ?_, ?_⟩
  · exact ⟨_, RuleIndex.cell_fill ⟨hij, hj⟩, fun a => RuleIndex.mem_get_fill.trans
      ⟨fun h => h.2, fun h => ⟨⟨hij, hj⟩, h⟩⟩⟩
  · have hpos := List.length_pos_iff.mpr hne
    have hin : Triangle.Inside tokens.length 0 (tokens.length - 1) := ⟨by omega, by omega⟩
    refine ⟨_, RuleIndex.cell_fill hin, ?_⟩
    rw [RuleIndex.recognize_iff_derives hne, RuleIndex.mem_get_fill, Chart.word_all hne]
    exact ⟨fun h => ⟨hin, h⟩, fun h => h.2⟩
  · rintro rfl
    refine ⟨rfl, fun a => ?_⟩
    rw [Bool.eq_false_iff]
    exact fun h => (RuleIndex.accepts_fill.mp h).1 rfl

/-- Cells may also be enumerated from the largest index down. -/
def descending : Order where
  list _ _ s := s.toList.reverse
  perm _ _ s := s.toList.reverse_perm

/-- The sample grammar G1 finds `A`, its symbol 1, over the last three tokens of `a a a b`, from the
largest index down. The answers for `a a` and for no tokens are where they should be. -/
theorem fill_exact_g1 :
    Sample.g1.grammar.index.Derives 1 ["a", "a", "b"] ∧
    (∃ s, (Sample.g1.grammar.chart ["a", "a"]).cell 0 1 = .ok s ∧
      (Sample.g1.grammar.recognize ["a", "a"] = true ↔ Sample.g1.grammar.start ∈ s)) ∧
    Sample.g1.grammar.recognize [] = Sample.g1.grammar.derivesEmpty := by
  refine ⟨?_, ?_, ?_⟩
  · let r : Recognizer Id := { Sample.g1.grammar.index.recognizer with order := descending }
    obtain ⟨-, hcells, -⟩ := fill_exact r ["a", "a", "a", "b"]
    obtain ⟨s, hs, h⟩ := hcells 1 3 (by decide) (by decide)
    have hcell : (Id.run (r.fill ["a", "a", "a", "b"])).cell 1 3 = .ok (IndexSet.ofList [1]) := by
      decide +kernel
    obtain rfl := Except.ok.inj (hs.symm.trans hcell)
    exact (h 1).mp (by decide)
  · obtain ⟨-, -, hanswer, -⟩ := fill_exact Sample.g1.grammar.index.recognizer ["a", "a"]
    exact hanswer (by decide)
  · obtain ⟨-, -, -, hempty⟩ := fill_exact Sample.g1.grammar.index.recognizer []
    exact (hempty rfl).1

end Recognizer

end ChomskyChart
