import ChomskyChart.Recognition.Basic

/-!
# Derivations over a rule index

The meaning of a cell: the least relation closed under the two questions a rule index answers. It
speaks of words and not of spans. Cutting the word of a span in two is cutting the span in two,
which is all that a chart has to know about derivations.
-/

namespace ChomskyChart

namespace Chart

/-- The tokens from `i` to `j`, both included. -/
def word (tokens : List String) (i j : Nat) : List String :=
  (tokens.drop i).take (j + 1 - i)

variable {tokens : List String} {i j k : Nat}

theorem length_word (h : Triangle.Inside tokens.length i j) :
    (word tokens i j).length = j + 1 - i := by
  obtain ⟨hij, hj⟩ := h
  rw [word, List.length_take, List.length_drop]
  omega

theorem word_self (hi : i < tokens.length) : word tokens i i = [tokens[i]] := by
  rw [word, List.drop_eq_getElem_cons hi, show i + 1 - i = 1 by omega]
  rfl

theorem word_all (h : tokens ≠ []) : word tokens 0 (tokens.length - 1) = tokens := by
  have hpos := List.length_pos_iff.mpr h
  rw [word, List.drop_zero]
  exact List.take_of_length_le (by omega)

/-- The two parts of a cut make up the span. -/
theorem word_append (hik : i ≤ k) (hkj : k < j) :
    word tokens i k ++ word tokens (k + 1) j = word tokens i j := by
  have hdrop : tokens.drop (k + 1) = (tokens.drop i).drop (k + 1 - i) := by
    rw [List.drop_drop, show i + (k + 1 - i) = k + 1 by omega]
  rw [word, word, word, hdrop, show j + 1 - i = (k + 1 - i) + (j + 1 - (k + 1)) by omega,
    List.take_add]

/-- Every way to write the word of a span as two words is a cut. -/
theorem exists_cut {u v : List String} (h : Triangle.Inside tokens.length i j) (hu : u ≠ [])
    (hv : v ≠ []) (he : u ++ v = word tokens i j) :
    ∃ k, i ≤ k ∧ k < j ∧ u = word tokens i k ∧ v = word tokens (k + 1) j := by
  have hpu := List.length_pos_iff.mpr hu
  have hpv := List.length_pos_iff.mpr hv
  have hlen := congrArg List.length he
  rw [List.length_append, length_word h] at hlen
  obtain ⟨hij, hj⟩ := h
  have hik : i ≤ i + u.length - 1 := by omega
  have hkj : i + u.length - 1 < j := by omega
  have hl : (word tokens i (i + u.length - 1)).length = u.length := by
    rw [length_word ⟨hik, by omega⟩]
    omega
  obtain ⟨hleft, hright⟩ := List.append_inj (he.trans (word_append hik hkj).symm) hl.symm
  exact ⟨i + u.length - 1, hik, hkj, hleft, hright⟩

end Chart

namespace RuleIndex

/-- A symbol derives each token it has as a body, and the words of each pair it has as a body put
one after the other. -/
inductive Derives (index : RuleIndex) : Nat → List String → Prop where
  | token {a : Nat} {t : String} (h : a ∈ index.terminalDerivers t) : Derives index a [t]
  | pair {a b c : Nat} {u v : List String} (hb : Derives index b u) (hc : Derives index c v)
      (h : a ∈ index.pairDerivers b c) : Derives index a (u ++ v)

variable {index : RuleIndex}

theorem Derives.ne_nil {a : Nat} {w : List String} (h : index.Derives a w) : w ≠ [] := by
  induction h with
  | token => exact List.cons_ne_nil _ _
  | pair _ _ _ ihb _ => exact List.append_ne_nil_of_left_ne_nil ihb _

theorem derives_singleton {a : Nat} {t : String} :
    index.Derives a [t] ↔ a ∈ index.terminalDerivers t := by
  constructor
  · intro h
    generalize hw : [t] = w at h
    cases h with
    | token h =>
      obtain rfl : t = _ := List.singleton_inj.mp hw
      exact h
    | pair hb hc _ =>
      have hlen := congrArg List.length hw
      have hpu := List.length_pos_iff.mpr hb.ne_nil
      have hpv := List.length_pos_iff.mpr hc.ne_nil
      rw [List.length_append, List.length_singleton] at hlen
      omega
  · exact Derives.token

variable {tokens : List String} {i j : Nat}

/-- The word of a longer span is derived by way of one of its cuts. -/
theorem derives_word_iff (hij : i < j) (hj : j < tokens.length) {a : Nat} :
    index.Derives a (Chart.word tokens i j) ↔
      ∃ k, i ≤ k ∧ k < j ∧ ∃ b c, index.Derives b (Chart.word tokens i k) ∧
        index.Derives c (Chart.word tokens (k + 1) j) ∧ a ∈ index.pairDerivers b c := by
  have hin : Triangle.Inside tokens.length i j := ⟨by omega, hj⟩
  constructor
  · intro h
    generalize hw : Chart.word tokens i j = w at h
    cases h with
    | token =>
      have hlen := congrArg List.length hw
      rw [Chart.length_word hin, List.length_singleton] at hlen
      omega
    | @pair _ b c u v hb hc h =>
      obtain ⟨k, hik, hkj, rfl, rfl⟩ := Chart.exists_cut hin hb.ne_nil hc.ne_nil hw.symm
      exact ⟨k, hik, hkj, b, c, hb, hc, h⟩
  · intro h
    obtain ⟨k, hik, hkj, b, c, hb, hc, h⟩ := h
    rw [← Chart.word_append hik hkj]
    exact .pair hb hc h

end RuleIndex

end ChomskyChart
