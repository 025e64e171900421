import Mathlib.Data.List.Induction
import Mathlib.Data.List.Nodup

/-!
# Numbering in the order of first occurrence

Symbols get the next free number when they are first met. Whoever has met a list of symbols, with
repetition, has numbered its first occurrences in order. Meeting more symbols changes no number
that is given already.
-/

namespace ChomskyChart.Numbers

variable {α : Type} [BEq α] [LawfulBEq α] {met more : List α} {a b : α} {i : Nat}

/-- The number of a symbol among the symbols met. -/
def number (met : List α) (a : α) : Nat := met.eraseDups.idxOf a

theorem eraseDups_concat_of_mem (h : a ∈ met) : (met ++ [a]).eraseDups = met.eraseDups := by
  have hr : [a].removeAll met = [] := by simp [List.removeAll, h]
  rw [List.eraseDups_append, hr, List.eraseDups_nil, List.append_nil]

theorem eraseDups_concat_of_not_mem (h : a ∉ met) :
    (met ++ [a]).eraseDups = met.eraseDups ++ [a] := by
  have hr : [a].removeAll met = [a] := by simp [List.removeAll, h]
  rw [List.eraseDups_append, hr]
  rfl

theorem nodup_eraseDups (l : List α) : l.eraseDups.Nodup := by
  induction l using List.reverseRecOn with
  | nil => exact List.nodup_nil
  | append_singleton l a ih =>
    by_cases h : a ∈ l
    · rwa [eraseDups_concat_of_mem h]
    · rw [eraseDups_concat_of_not_mem h, ← List.concat_eq_append]
      exact ih.concat (mt List.mem_eraseDups.mp h)

theorem eraseDups_of_nodup {l : List α} (h : l.Nodup) : l.eraseDups = l := by
  induction l using List.reverseRecOn with
  | nil => rfl
  | append_singleton l a ih =>
    have hparts := List.nodup_append.mp h
    have ha : a ∉ l := fun hl => hparts.2.2 a hl a (List.mem_singleton_self a) rfl
    rw [eraseDups_concat_of_not_mem ha, ih hparts.1]

/-- First occurrences are kept by a function that tells apart all that it keeps. -/
theorem eraseDups_filterMap {β : Type} [BEq β] [LawfulBEq β] {l : List α} {f : α → Option β}
    (h : ∀ a ∈ l, ∀ b ∈ l, ∀ c, f a = some c → f b = some c → a = b) :
    (l.filterMap f).eraseDups = l.eraseDups.filterMap f := by
  induction l using List.reverseRecOn with
  | nil => rfl
  | append_singleton l a ih =>
    have ha : a ∈ l ++ [a] := List.mem_append_right l (List.mem_singleton_self a)
    have hl := ih fun b hb c hc =>
      h b (List.mem_append_left [a] hb) c (List.mem_append_left [a] hc)
    rw [List.filterMap_append]
    cases hf : f a with
    | none =>
      rw [List.filterMap_cons_none hf, List.filterMap_nil, List.append_nil, hl]
      by_cases hmem : a ∈ l
      · rw [eraseDups_concat_of_mem hmem]
      · rw [eraseDups_concat_of_not_mem hmem, List.filterMap_append, List.filterMap_cons_none hf,
          List.filterMap_nil, List.append_nil]
    | some c =>
      rw [List.filterMap_cons_some hf, List.filterMap_nil]
      by_cases hmem : a ∈ l
      · have hc : c ∈ l.filterMap f := List.mem_filterMap.mpr ⟨a, hmem, hf⟩
        rw [eraseDups_concat_of_mem hmem, eraseDups_concat_of_mem hc, hl]
      · have hc : c ∉ l.filterMap f := by
          intro hc
          obtain ⟨b, hb, hbc⟩ := List.mem_filterMap.mp hc
          have hab := h a ha b (List.mem_append_left [a] hb) c hf hbc
          exact hmem (hab ▸ hb)
        rw [eraseDups_concat_of_not_mem hmem, eraseDups_concat_of_not_mem hc, hl,
          List.filterMap_append, List.filterMap_cons_some hf, List.filterMap_nil]

theorem eraseDups_filter (p : α → Bool) (l : List α) :
    (l.filter p).eraseDups = l.eraseDups.filter p := by
  rw [← List.filterMap_eq_filter]
  refine eraseDups_filterMap fun a _ b _ c ha hb => ?_
  rw [(Option.guard_eq_some_iff.mp ha).1, (Option.guard_eq_some_iff.mp hb).1]

theorem eraseDups_map {β : Type} [BEq β] [LawfulBEq β] {f : α → β} (hf : Function.Injective f)
    (l : List α) : (l.map f).eraseDups = l.eraseDups.map f := by
  rw [← List.filterMap_eq_map]
  refine eraseDups_filterMap fun a _ b _ c ha hb => ?_
  exact hf (Option.some.inj (ha.trans hb.symm))

/-- A symbol keeps its number when all symbols are renamed. -/
theorem number_map {β : Type} [BEq β] [LawfulBEq β] {f : α → β} (hf : Function.Injective f)
    (met : List α) (a : α) : number (met.map f) (f a) = number met a := by
  rw [number, number, eraseDups_map hf]
  induction met.eraseDups with
  | nil => rfl
  | cons b l ih =>
    have hb : (f b == f a) = (b == a) := by
      rw [Bool.eq_iff_iff, beq_iff_eq, beq_iff_eq, hf.eq_iff]
    rw [List.map_cons, List.idxOf_cons, List.idxOf_cons, hb, ih]

theorem number_append (h : a ∈ met) : number (met ++ more) a = number met a := by
  rw [number, List.eraseDups_append, List.idxOf_append, if_pos (List.mem_eraseDups.mpr h), number]

theorem number_concat_of_not_mem (h : a ∉ met) :
    number (met ++ [a]) a = met.eraseDups.length := by
  have hn : a ∉ met.eraseDups := mt List.mem_eraseDups.mp h
  rw [number, eraseDups_concat_of_not_mem h, List.idxOf_append, if_neg hn, List.idxOf_cons_self]
  omega

theorem number_lt (h : a ∈ met) : number met a < met.eraseDups.length :=
  List.idxOf_lt_length_of_mem (List.mem_eraseDups.mpr h)

/-- The symbol with a number is the only one whose number it is. -/
theorem getElem?_eraseDups : met.eraseDups[i]? = some a ↔ a ∈ met ∧ number met a = i := by
  constructor
  · intro h
    have hmem : a ∈ met := List.mem_eraseDups.mp (List.mem_of_getElem? h)
    obtain ⟨hi, hget⟩ := List.getElem?_eq_some_iff.mp h
    refine ⟨hmem, ?_⟩
    rw [number, ← hget]
    exact (nodup_eraseDups met).idxOf_getElem i hi
  · intro h
    obtain ⟨hmem, rfl⟩ := h
    rw [List.getElem?_eq_getElem (number_lt hmem)]
    exact congrArg some (List.getElem_idxOf (number_lt hmem))

theorem getElem?_number (h : a ∈ met) : met.eraseDups[number met a]? = some a :=
  getElem?_eraseDups.mpr ⟨h, rfl⟩

theorem number_inj (ha : a ∈ met) (hb : b ∈ met) : number met a = number met b ↔ a = b := by
  constructor
  · intro h
    have hget := getElem?_number ha
    rw [h, getElem?_number hb] at hget
    exact (Option.some.inj hget).symm
  · rintro rfl
    rfl

/-- Searching the first occurrences finds the number. -/
theorem findIdx?_eraseDups [DecidableEq α] (met : List α) (a : α) :
    (met.eraseDups.findIdx? fun b => b = a) = if a ∈ met then some (number met a) else none := by
  have hp : (fun b => decide (b = a)) = fun b => b == a := by
    funext b
    rw [Bool.eq_iff_iff, decide_eq_true_iff, beq_iff_eq]
  by_cases h : a ∈ met
  · rw [if_pos h, hp, List.findIdx?_eq_some_iff_findIdx_eq]
    exact ⟨number_lt h, rfl⟩
  · rw [if_neg h, List.findIdx?_eq_none_iff]
    intro b hb
    rw [decide_eq_false_iff_not]
    rintro rfl
    exact h (List.mem_eraseDups.mp hb)

theorem idxOf?_eraseDups [DecidableEq α] (h : a ∈ met) :
    met.eraseDups.idxOf? a = some (number met a) := by
  have hsearch := findIdx?_eraseDups met a
  rw [if_pos h] at hsearch
  rw [← hsearch]
  refine congrArg (List.findIdx? · met.eraseDups) (funext fun b => ?_)
  rw [Bool.eq_iff_iff, decide_eq_true_iff, beq_iff_eq]

end ChomskyChart.Numbers
