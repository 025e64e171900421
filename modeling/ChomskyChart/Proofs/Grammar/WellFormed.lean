import ChomskyChart.Proofs.Grammar.Cells
import ChomskyChart.Proofs.Grammar.Occurrences
import ChomskyChart.Report.Productions

/-!
# Well-formed grammars

A grammar is kept in parts that refer to each other by number: entries, terminals, productions, the
start symbol and two indices. In a well-formed grammar every number refers to something, and numbers
and names determine each other. A chart of such a grammar holds no other numbers, so that nothing
that is shown of the grammar or of its charts runs into a fault. Every build is well-formed.
-/

namespace ChomskyChart.Grammar

open Numbers

/-- The symbols of a production exist. -/
def Refers (g : Grammar) : Production → Prop
  | .empty => True
  | .terminal t => t < g.terminals.length
  | .pair b c => b < g.nonTerminals.length ∧ c < g.nonTerminals.length

/-- The parts of a grammar fit together. -/
structure WellFormed (g : Grammar) : Prop where
  index_eq : ∀ i (nt : NonTerminal), g.nonTerminals[i]? = some nt → nt.index = i
  nonTerminalIndex?_iff : ∀ name i, g.nonTerminalIndex? name = some i ↔
    i < g.nonTerminals.length ∧ g.symbolName i = .ok name
  terminalIndex?_iff : ∀ name i, g.terminalIndex? name = some i ↔
    i < g.terminals.length ∧ g.terminalName i = .ok name
  start_lt : g.start < g.nonTerminals.length
  terminal_not_mem : ∀ t ∈ g.terminals, t ∉ ["ε", "ϵ", ""]
  nodup_productions : ∀ nt ∈ g.nonTerminals, nt.productions.Nodup
  refers : ∀ nt ∈ g.nonTerminals, ∀ p ∈ nt.productions, g.Refers p
  terminalDerivers_lt : ∀ t, ∀ i ∈ g.terminalDerivers t, i < g.nonTerminals.length
  pairDerivers_lt : ∀ b c, ∀ i ∈ g.pairDerivers b c, i < g.nonTerminals.length

/-- Whatever is asked of the grammar about its own symbols and charts has an answer. -/
structure Faultless (g : Grammar) : Prop where
  startName : ∃ name, g.startName = .ok name
  productionSymbols : ∀ nt ∈ g.nonTerminals, ∀ p ∈ nt.productions,
    ∃ symbols, g.productionSymbols p = .ok symbols
  symbolNames : ∀ tokens i j s, (g.chart tokens).cell i j = .ok s →
    ∃ names, g.symbolNames s = .ok names
  display : ∃ text, g.display = .ok text
  productionReport : ∃ report, g.productionReport = .ok report
  chartReport : ∀ tokens, ∃ report, g.chartReport tokens = .ok report

variable {g : Grammar} {tokens : List String} {i j : Nat}

theorem terminalName_eq_ok_iff {t : String} :
    g.terminalName i = .ok t ↔ g.terminals[i]? = some t := by
  rw [terminalName]
  cases g.terminals[i]? <;> simp

theorem exists_terminalName (h : i < g.terminals.length) : ∃ t, g.terminalName i = .ok t :=
  ⟨_, terminalName_eq_ok_iff.mpr (List.getElem?_eq_getElem h)⟩

theorem exists_productionSymbols {p : Production} (h : g.Refers p) :
    ∃ symbols, g.productionSymbols p = .ok symbols := by
  cases p with
  | empty => exact ⟨_, rfl⟩
  | terminal t =>
    obtain ⟨name, hname⟩ := exists_terminalName h
    refine ⟨[name], ?_⟩
    rw [productionSymbols, hname]
    rfl
  | pair b c =>
    obtain ⟨left, hleft⟩ := exists_symbolName_iff.mpr h.1
    obtain ⟨right, hright⟩ := exists_symbolName_iff.mpr h.2
    refine ⟨[left, right], ?_⟩
    rw [productionSymbols, hleft, hright]
    rfl

/-! ### What follows -/

namespace WellFormed

variable (h : g.WellFormed)

include h

/-- Only derivers get into a chart. -/
theorem lt_of_derives {a : Nat} {w : List String} (hd : g.index.Derives a w) :
    a < g.nonTerminals.length := by
  cases hd with
  | token ht => exact h.terminalDerivers_lt _ a ht
  | pair _ _ hp => exact h.pairDerivers_lt _ _ a hp

theorem cell_lt {s : IndexSet} (hs : (g.chart tokens).cell i j = .ok s) :
    ∀ a ∈ s, a < g.nonTerminals.length := by
  intro a ha
  rw [cell_chart] at hs
  split at hs
  · obtain rfl := Except.ok.inj hs
    exact h.lt_of_derives (RuleIndex.mem_get_fill.mp ha).2
  · cases hs

theorem exists_symbolNames {s : IndexSet} (hs : (g.chart tokens).cell i j = .ok s) :
    ∃ names, g.symbolNames s = .ok names :=
  ⟨_, symbolNames_eq fun a ha => exists_symbolName_iff.mpr (h.cell_lt hs a ha)⟩

/-- All productions of a non-terminal can be shown, so anything made of them can be. -/
theorem exists_mapM_producing {β : Type} (f : NonTerminal → List (List String) → β) :
    ∃ shown, (g.producing.mapM fun nt => do
      let bodies ← nt.productions.mapM g.productionSymbols
      return f nt bodies) = .ok shown := by
  refine exists_mapM_ok fun nt hnt => ?_
  have hmem : nt ∈ g.nonTerminals := List.mem_of_mem_filter hnt
  obtain ⟨bodies, hbodies⟩ :=
    exists_mapM_ok fun p hp => exists_productionSymbols (h.refers nt hmem p hp)
  refine ⟨f nt bodies, ?_⟩
  rw [hbodies]
  rfl

theorem exists_display : ∃ text, g.display = .ok text := by
  obtain ⟨lines, hlines⟩ := h.exists_mapM_producing fun nt bodies =>
    nt.name ++ " -> " ++ ", ".intercalate (bodies.map (" ".intercalate ·))
  refine ⟨"\n".intercalate lines, ?_⟩
  rw [display, hlines]
  rfl

theorem exists_startName : ∃ name, g.startName = .ok name :=
  exists_symbolName_iff.mpr h.start_lt

theorem exists_productionReport : ∃ report, g.productionReport = .ok report := by
  obtain ⟨lines, hlines⟩ :=
    h.exists_mapM_producing fun nt bodies => ProductionLine.mk nt.name bodies
  obtain ⟨name, hname⟩ := h.exists_startName
  refine ⟨⟨name, lines⟩, ?_⟩
  rw [productionReport, hlines, hname]
  rfl

theorem exists_chartReport (tokens : List String) :
    ∃ report, g.chartReport tokens = .ok report := by
  have hcell : ∀ p ∈ Triangle.positions (g.chart tokens).size, ∃ report : CellReport, (do
      let s ← (g.chart tokens).cell p.1 p.2
      let symbols ← g.symbolNames s
      return { start := p.1, stop := p.2, symbols }) = Except.ok report := by
    intro p hp
    obtain ⟨s, hs⟩ : ∃ s, (g.chart tokens).cell p.1 p.2 = .ok s :=
      ⟨_, if_pos (Triangle.mem_positions.mp hp)⟩
    obtain ⟨names, hnames⟩ := h.exists_symbolNames hs
    refine ⟨⟨p.1, p.2, names⟩, ?_⟩
    rw [hs]
    simp only [bind, Except.bind]
    rw [hnames]
    rfl
  obtain ⟨cells, hcells⟩ := exists_mapM_ok hcell
  refine ⟨⟨tokens, cells,
    if tokens.isEmpty then g.derivesEmpty else (g.chart tokens).accepts g.start⟩, ?_⟩
  rw [chartReport]
  simp only [hcells]
  rfl

theorem faultless : g.Faultless where
  startName := h.exists_startName
  productionSymbols nt hnt p hp := exists_productionSymbols (h.refers nt hnt p hp)
  symbolNames _ _ _ _ hs := h.exists_symbolNames hs
  display := h.exists_display
  productionReport := h.exists_productionReport
  chartReport := h.exists_chartReport

end WellFormed

/-! ### Builds -/

variable (rules : List Rule) (start : String)

theorem length_nonTerminals_build : (build rules start).nonTerminals.length =
    (Rule.nonTerminals rules start).eraseDups.length := by
  rw [nonTerminals_build, Draft.entries, List.length_mapIdx]

/-- Only met symbols are in a production, and each of them has a number. -/
theorem refers_build {left : String} {kind : BodyKind} {p : Production}
    (hk : Rule.Has rules left kind)
    (hp : kind.production? (Rule.nonTerminals rules start) (Rule.terminals rules) = some p) :
    (build rules start).Refers p := by
  have hn := hk.nonTerminals_subset start
  have ht := hk.terminals_subset
  cases kind with
  | empty =>
    obtain rfl := Option.some.inj hp
    trivial
  | terminal t =>
    obtain rfl := Option.some.inj hp
    rw [Refers, terminals_build]
    exact number_lt (ht List.mem_cons_self)
  | pair b c =>
    obtain rfl := Option.some.inj hp
    rw [Refers, length_nonTerminals_build]
    exact ⟨number_lt (hn List.mem_cons_self),
      number_lt (hn (List.mem_cons_of_mem b List.mem_cons_self))⟩
  | tooLong => cases hp

theorem wellFormed_build : (build rules start).WellFormed where
  index_eq i nt hnt := by
    rw [nonTerminals_build, Draft.getElem?_entries] at hnt
    obtain ⟨name, -, rfl⟩ := Option.map_eq_some_iff.mp hnt
    rfl
  nonTerminalIndex?_iff name i := by
    rw [← exists_symbolName_iff, and_iff_right_of_imp fun hi => ⟨name, hi⟩, symbolName_build,
      getElem?_eraseDups, nonTerminalIndex?, nonTerminals_build, Draft.findIdx?_entries]
    simp
  terminalIndex?_iff name i := by
    rw [terminalName_eq_ok_iff, and_iff_right_of_imp fun hi => (List.getElem?_eq_some_iff.mp hi).1,
      terminalIndex?_build, terminals_build, getElem?_eraseDups]
    simp
  start_lt := exists_symbolName_iff.mp ⟨start, startName_build⟩
  terminal_not_mem t ht := by
    rw [terminals_build, List.mem_eraseDups, Rule.terminals_eq] at ht
    exact of_decide_eq_true (List.mem_filter.mp ht).2
  nodup_productions nt hnt := by
    rw [nonTerminals_build] at hnt
    obtain ⟨name, -, he⟩ := Draft.mem_entries.mp hnt
    rw [he]
    exact nodup_eraseDups _
  refers nt hnt p hp := by
    obtain ⟨name, -, kind, hk, hproduction⟩ := exists_production.mp ⟨nt, hnt, rfl, hp⟩
    exact refers_build rules start hk hproduction
  terminalDerivers_lt t i hi := by
    obtain ⟨a, ha, -⟩ := mem_terminalDerivers.mp hi
    exact exists_symbolName_iff.mp ⟨a, ha⟩
  pairDerivers_lt b c i hi := by
    obtain ⟨a, -, -, ha, -⟩ := mem_pairDerivers.mp hi
    exact exists_symbolName_iff.mp ⟨a, ha⟩

/-- Every build is well-formed, its charts hold only numbers of its own symbols, and nothing that is
shown of it is a fault. -/
theorem build_wellFormed (rules : List Rule) (start : String) :
    let g := build rules start
    WellFormed g ∧
    (∀ tokens i j s, (g.chart tokens).cell i j = .ok s → ∀ a ∈ s, a < g.nonTerminals.length) ∧
    Faultless g := by
  have h := wellFormed_build rules start
  exact ⟨h, fun _ _ _ _ hs => h.cell_lt hs, h.faultless⟩

end ChomskyChart.Grammar
