import ChomskyChart.Proofs.Grammar.Cells
import Mathlib.Data.String.Basic

/-!
# Derivers by name

A built grammar finds the left sides of a body in two inverted indices, one from the numbers of
terminals and one from pairs of numbers of non-terminals. By name the answers are those that a
search through the rules gives, for every token and every two numbers, also those that no rule
mentions and those that no symbol has.
-/

namespace ChomskyChart

/-- Some rule with the left side has the body. -/
def Rule.HasBody (rules : List Rule) (left : String) (body : Body) : Prop :=
  ∃ rule ∈ rules, rule.left = left ∧ body ∈ rule.bodies

/-- The names of the numbers in a set, in order and one for each number, are just those with the
property. -/
def Grammar.Named (g : Grammar) (s : IndexSet) (p : String → Prop) : Prop :=
  ∃ names, g.symbolNames s = .ok names ∧ names.Pairwise (· < ·) ∧ names.length = s.card ∧
    ∀ a, a ∈ names ↔ p a

namespace Rule

variable {rules : List Rule} {left b c t : String}

theorem has_terminal_iff :
    Has rules left (.terminal t) ↔ t ∉ ["ε", "ϵ", ""] ∧ HasBody rules left [t] := by
  unfold Has HasBody
  simp only [Body.kind_eq_terminal_iff]
  constructor
  · intro h
    obtain ⟨rule, hrule, hl, body, hbody, rfl, ht⟩ := h
    exact ⟨ht, rule, hrule, hl, hbody⟩
  · intro h
    obtain ⟨ht, rule, hrule, hl, hbody⟩ := h
    exact ⟨rule, hrule, hl, [t], hbody, rfl, ht⟩

theorem has_pair_iff : Has rules left (.pair b c) ↔ HasBody rules left [b, c] := by
  unfold Has HasBody
  simp only [Body.kind_eq_pair_iff, exists_eq_right]

end Rule

namespace Grammar

variable {rules : List Rule} {start : String} {s : IndexSet} {p : String → Prop}

/-- A set of the numbers of some left sides is named by these left sides. -/
theorem named_of_mem_iff (hp : ∀ a, p a → a ∈ Rule.nonTerminals rules start)
    (h : ∀ i, i ∈ s ↔ ∃ a, (build rules start).symbolName i = .ok a ∧ p a) :
    (build rules start).Named s p := by
  have hname : ∀ i ∈ s, ∃ a, (build rules start).symbolName i = .ok a := by
    intro i hi
    obtain ⟨a, ha, -⟩ := (h i).mp hi
    exact ⟨a, ha⟩
  have hsorted : ((build rules start).namesAt s).Pairwise (· ≤ ·) := Text.pairwise_sort _
  refine ⟨_, symbolNames_eq hname, ?_, length_namesAt _ s, fun a => ?_⟩
  · exact (hsorted.and (nodup_namesAt hname)).imp fun h => lt_of_le_of_ne h.1 h.2
  · rw [mem_namesAt hname]
    constructor
    · intro ha
      obtain ⟨i, hi, ha⟩ := ha
      obtain ⟨b, hb, hpb⟩ := (h i).mp hi
      obtain rfl := Except.ok.inj (ha.symm.trans hb)
      exact hpb
    · intro hpa
      obtain ⟨i, hi⟩ := exists_symbolName (hp a hpa)
      exact ⟨i, (h i).mpr ⟨a, hi, hpa⟩, hi⟩

/-- By name, the derivers of a token are the left sides with the token alone as a body, unless it
spells the empty body. Those of two numbers are the left sides with the two names as a body, if
there are two names; and just the numbers in range have names. -/
theorem derivers_named (rules : List Rule) (start : String) :
    let g := build rules start
    (∀ t, g.Named (g.terminalDerivers t) fun a =>
      t ∉ ["ε", "ϵ", ""] ∧ Rule.HasBody rules a [t]) ∧
    (∀ b c, g.Named (g.pairDerivers b c) fun a =>
      ∃ nb nc, g.symbolName b = .ok nb ∧ g.symbolName c = .ok nc ∧
        Rule.HasBody rules a [nb, nc]) ∧
    ∀ i, (∃ a, g.symbolName i = .ok a) ↔ i < g.nonTerminals.length := by
  simp only [← Rule.has_terminal_iff, ← Rule.has_pair_iff]
  refine ⟨fun t => ?terminal, fun b c => ?pair, fun i => exists_symbolName_iff⟩
  case terminal =>
    exact named_of_mem_iff (fun a h => h.left_mem start) fun i => mem_terminalDerivers
  case pair =>
    refine named_of_mem_iff (fun a h => ?_) fun i => ?_
    · obtain ⟨nb, nc, -, -, h⟩ := h
      exact h.left_mem start
    · rw [mem_pairDerivers]
      simp only [exists_and_left]

/-- One body of two left sides, in three rules. `ε` is a name in a pair and no token alone, and `a`
is a token and a name that no rule is for. -/
example :
    let g := build [⟨"B", [["ε", "a"], ["a"], ["ε"]]⟩, ⟨"A", [["a"], ["a", "b", "c"]]⟩,
      ⟨"B", [["a"]]⟩, ⟨"A", [["ε", "a"]]⟩] "S"
    g.nonTerminals.map (·.name) = ["B", "A", "S", "ε", "a"] ∧
    g.symbolNames (g.terminalDerivers "a") = .ok ["A", "B"] ∧
    g.symbolNames (g.pairDerivers 3 4) = .ok ["A", "B"] ∧
    g.terminalDerivers "ε" = ∅ ∧ g.terminalDerivers "b" = ∅ ∧ g.pairDerivers 4 3 = ∅ := by
  decide +kernel

end Grammar

end ChomskyChart
