import ChomskyChart.Grammar.Names
import ChomskyChart.Grammar.Recognition
import ChomskyChart.Proofs.Grammar.Build

/-!
# The symbols of a built grammar

A built grammar answers every question about numbers as the rules answer it about names. What comes
after needs the statements here and no longer how a number was given out. Every number in an answer
has a name, and no two numbers have the same name.
-/

namespace ChomskyChart

open Numbers

namespace Draft

variable {ns : List String} {productions : String → List Production} {nt : NonTerminal}

theorem mem_entries :
    nt ∈ entries ns productions ↔
      ∃ a, ns.eraseDups[nt.index]? = some a ∧ nt = ⟨nt.index, a, productions a⟩ := by
  rw [List.mem_iff_getElem?]
  constructor
  · intro h
    obtain ⟨i, hi⟩ := h
    rw [getElem?_entries] at hi
    obtain ⟨a, ha, rfl⟩ := Option.map_eq_some_iff.mp hi
    exact ⟨a, ha, rfl⟩
  · intro h
    obtain ⟨a, ha, he⟩ := h
    refine ⟨nt.index, ?_⟩
    rw [getElem?_entries, ha, he]
    rfl

theorem mem_terminalBodies {nts : List NonTerminal} {t i : Nat} :
    (t, i) ∈ terminalBodies nts ↔ ∃ nt ∈ nts, nt.index = i ∧ .terminal t ∈ nt.productions := by
  rw [terminalBodies, List.mem_flatMap]
  refine exists_congr fun nt => and_congr_right fun _ => ?_
  rw [List.mem_filterMap]
  constructor
  · intro h
    obtain ⟨p, hp, he⟩ := h
    cases p with
    | terminal t' =>
      obtain ⟨rfl, rfl⟩ := Prod.mk.inj (Option.some.inj he)
      exact ⟨rfl, hp⟩
    | empty => cases he
    | pair b c => cases he
  · intro h
    obtain ⟨rfl, hp⟩ := h
    exact ⟨.terminal t, hp, rfl⟩

theorem mem_pairBodies {nts : List NonTerminal} {j k i : Nat} :
    ((j, k), i) ∈ pairBodies nts ↔ ∃ nt ∈ nts, nt.index = i ∧ .pair j k ∈ nt.productions := by
  rw [pairBodies, List.mem_flatMap]
  refine exists_congr fun nt => and_congr_right fun _ => ?_
  rw [List.mem_filterMap]
  constructor
  · intro h
    obtain ⟨p, hp, he⟩ := h
    cases p with
    | pair b c =>
      obtain ⟨hbc, rfl⟩ := Prod.mk.inj (Option.some.inj he)
      obtain ⟨rfl, rfl⟩ := Prod.mk.inj hbc
      exact ⟨rfl, hp⟩
    | empty => cases he
    | terminal t => cases he
  · intro h
    obtain ⟨rfl, hp⟩ := h
    exact ⟨.pair j k, hp, rfl⟩

end Draft

namespace Grammar

variable {rules : List Rule} {start : String} {i j k : Nat} {a b : String}

theorem nonTerminals_build :
    (build rules start).nonTerminals =
      Draft.entries (Rule.nonTerminals rules start)
        (Item.productions (Rule.nonTerminals rules start) (Rule.terminals rules)
          (Rule.items rules)) := by
  rw [build_eq]
  rfl

theorem terminals_build : (build rules start).terminals = (Rule.terminals rules).eraseDups := by
  rw [build_eq]
  rfl

theorem start_build :
    (build rules start).start = number (Rule.nonTerminals rules start) start := by
  rw [build_eq]
  rfl

theorem symbolName_build :
    (build rules start).symbolName i = .ok a ↔
      (Rule.nonTerminals rules start).eraseDups[i]? = some a := by
  rw [symbolName, nonTerminals_build, Draft.getElem?_entries]
  cases (Rule.nonTerminals rules start).eraseDups[i]? <;> simp

/-- Just the numbers in range have names. -/
theorem exists_symbolName_iff {g : Grammar} :
    (∃ a, g.symbolName i = .ok a) ↔ i < g.nonTerminals.length := by
  rw [symbolName]
  constructor
  · intro h
    obtain ⟨a, ha⟩ := h
    cases hi : g.nonTerminals[i]? with
    | none =>
      rw [hi] at ha
      cases ha
    | some nt => exact (List.getElem?_eq_some_iff.mp hi).1
  · intro hi
    rw [List.getElem?_eq_getElem hi]
    exact ⟨_, rfl⟩

theorem symbolName_inj (hi : (build rules start).symbolName i = .ok a)
    (hj : (build rules start).symbolName j = .ok a) : i = j := by
  obtain ⟨-, rfl⟩ := getElem?_eraseDups.mp (symbolName_build.mp hi)
  exact (getElem?_eraseDups.mp (symbolName_build.mp hj)).2

theorem exists_symbolName (h : a ∈ Rule.nonTerminals rules start) :
    ∃ i, (build rules start).symbolName i = .ok a :=
  ⟨_, symbolName_build.mpr (getElem?_number h)⟩

theorem startName_build : (build rules start).startName = .ok start := by
  rw [startName, symbolName_build, start_build]
  exact getElem?_number (Rule.start_mem start)

theorem terminalIndex?_build (t : String) :
    (build rules start).terminalIndex? t =
      if t ∈ Rule.terminals rules then some (number (Rule.terminals rules) t) else none := by
  rw [terminalIndex?, terminals_build, findIdx?_eraseDups]

/-- The productions of a number are the bodies its name has, of length at most two. -/
theorem exists_production {p : Production} :
    (∃ nt ∈ (build rules start).nonTerminals, nt.index = i ∧ p ∈ nt.productions) ↔
      ∃ a, (build rules start).symbolName i = .ok a ∧ ∃ kind, Rule.Has rules a kind ∧
        kind.production? (Rule.nonTerminals rules start) (Rule.terminals rules) = some p := by
  simp only [symbolName_build, ← Rule.mem_productions_iff]
  rw [nonTerminals_build]
  constructor
  · intro h
    obtain ⟨nt, hnt, rfl, hp⟩ := h
    obtain ⟨a, ha, he⟩ := Draft.mem_entries.mp hnt
    rw [he] at hp
    exact ⟨a, ha, hp⟩
  · intro h
    obtain ⟨a, ha, hp⟩ := h
    exact ⟨⟨i, a, _⟩, Draft.mem_entries.mpr ⟨a, ha, rfl⟩, rfl, hp⟩

/-- The derivers of a token are the left sides that have it as a body. -/
theorem mem_terminalDerivers {t : String} :
    i ∈ (build rules start).terminalDerivers t ↔
      ∃ a, (build rules start).symbolName i = .ok a ∧ Rule.Has rules a (.terminal t) := by
  have hlook : (build rules start).byTerminal =
      Lookup.ofPairs (Draft.terminalBodies (build rules start).nonTerminals) := by
    rw [build_eq]
    rfl
  rw [terminalDerivers, terminalIndex?_build]
  by_cases ht : t ∈ Rule.terminals rules
  · simp only [if_pos ht]
    rw [hlook, Lookup.mem_get_ofPairs, Draft.mem_terminalBodies, exists_production]
    refine exists_congr fun a => and_congr_right fun _ => ⟨?_, fun h => ⟨_, h, rfl⟩⟩
    intro h
    obtain ⟨kind, hk, hp⟩ := h
    obtain rfl : kind = .terminal t := BodyKind.production?_inj (hk.nonTerminals_subset start)
      hk.terminals_subset (List.nil_subset _) (List.cons_subset.mpr ⟨ht, List.nil_subset _⟩) hp rfl
    exact hk
  · simp only [if_neg ht]
    refine ⟨fun h => absurd h (IndexSet.not_mem_empty i), ?_⟩
    intro h
    obtain ⟨a, -, hk⟩ := h
    exact absurd (hk.terminals_subset (List.mem_singleton_self t)) ht

/-- The derivers of two numbers are the left sides that have the two names as a body. -/
theorem mem_pairDerivers :
    i ∈ (build rules start).pairDerivers j k ↔
      ∃ a b c, (build rules start).symbolName i = .ok a ∧ (build rules start).symbolName j = .ok b ∧
        (build rules start).symbolName k = .ok c ∧ Rule.Has rules a (.pair b c) := by
  have hlook : (build rules start).byPair =
      Lookup.ofPairs (Draft.pairBodies (build rules start).nonTerminals) := by
    rw [build_eq]
    rfl
  rw [pairDerivers, hlook, Lookup.mem_get_ofPairs, Draft.mem_pairBodies, exists_production]
  simp only [symbolName_build, getElem?_eraseDups]
  constructor
  · intro h
    obtain ⟨a, ha, kind, hk, hp⟩ := h
    cases kind with
    | pair b c =>
      obtain ⟨rfl, rfl⟩ := Production.pair.inj (Option.some.inj hp)
      have hb := hk.nonTerminals_subset start List.mem_cons_self
      have hc := hk.nonTerminals_subset start (List.mem_cons_of_mem b List.mem_cons_self)
      exact ⟨a, b, c, ha, ⟨hb, rfl⟩, ⟨hc, rfl⟩, hk⟩
    | empty => cases hp
    | terminal t => cases hp
    | tooLong => cases hp
  · intro h
    obtain ⟨a, b, c, ha, ⟨-, rfl⟩, ⟨-, rfl⟩, hk⟩ := h
    exact ⟨a, ha, .pair b c, hk, rfl⟩

theorem derivesEmpty_build :
    (build rules start).derivesEmpty = true ↔ Rule.Has rules start .empty := by
  have hget : (build rules start).nonTerminals[(build rules start).start]? = some
      ⟨(build rules start).start, start, Item.productions (Rule.nonTerminals rules start)
        (Rule.terminals rules) (Rule.items rules) start⟩ := by
    rw [nonTerminals_build, Draft.getElem?_entries, start_build,
      getElem?_number (Rule.start_mem start)]
    rfl
  rw [derivesEmpty, hget]
  simp only [List.contains_iff_mem]
  rw [Rule.mem_productions_iff]
  refine ⟨?_, fun h => ⟨_, h, rfl⟩⟩
  intro h
  obtain ⟨kind, hk, hp⟩ := h
  obtain rfl : kind = .empty := BodyKind.production?_inj (hk.nonTerminals_subset start)
    hk.terminals_subset (List.nil_subset _) (List.nil_subset _) hp rfl
  exact hk

end Grammar

end ChomskyChart
