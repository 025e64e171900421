import ChomskyChart.Proofs.Grammar.Symbols
import ChomskyChart.Proofs.Recognition.Cells
import ChomskyChart.Report.Charts

/-!
# Cells by name

What a left side derives is read off the rules, without numbers. A cell of the chart of a built
grammar lists, in order and without repetition, the names of the left sides that derive its tokens;
no question about a name fails on the way.
-/

namespace ChomskyChart

/-- A left side derives each token it has as a body, and the words of each pair it has as a body put
one after the other. -/
inductive Rule.Derives (rules : List Rule) : String → List String → Prop where
  | token {a t : String} (h : Has rules a (.terminal t)) : Derives rules a [t]
  | pair {a b c : String} {u v : List String} (hb : Derives rules b u) (hc : Derives rules c v)
      (h : Has rules a (.pair b c)) : Derives rules a (u ++ v)

theorem Rule.Derives.left_mem {rules : List Rule} {a : String} {w : List String}
    (h : Derives rules a w) (start : String) : a ∈ nonTerminals rules start := by
  cases h with
  | token h => exact h.left_mem start
  | pair _ _ h => exact h.left_mem start

namespace Grammar

section

variable (g : Grammar)

/-- The name of a number, and no name for a number out of range. -/
def nameAt (i : Nat) : String :=
  (g.symbolName i).toOption.getD ""

def namesAt (s : IndexSet) : List String :=
  Text.sort (s.toList.map g.nameAt)

/-- The names of a cell of a chart, as a report lists them. -/
def cellNames (tokens : List String) (i j : Nat) : Except Fault (List String) := do
  g.symbolNames (← (g.chart tokens).cell i j)

variable {g}

theorem nameAt_of_ok {i : Nat} {a : String} (h : g.symbolName i = .ok a) : g.nameAt i = a := by
  rw [nameAt, h]
  rfl

theorem mapM_ok {ε α β : Type} {l : List α} {f : α → Except ε β} {f' : α → β}
    (h : ∀ x ∈ l, f x = .ok (f' x)) : l.mapM f = .ok (l.map f') := by
  induction l with
  | nil => rfl
  | cons x l ih =>
    rw [List.mapM_cons, h x List.mem_cons_self, ih fun y hy => h y (List.mem_cons_of_mem x hy)]
    rfl

theorem exists_mapM_ok {α β : Type} {f : α → Except Fault β} {l : List α}
    (h : ∀ x ∈ l, ∃ y, f x = .ok y) : ∃ ys, l.mapM f = .ok ys := by
  induction l with
  | nil => exact ⟨[], rfl⟩
  | cons x l ih =>
    obtain ⟨hx, hl⟩ := List.forall_mem_cons.mp h
    obtain ⟨y, hy⟩ := hx
    obtain ⟨ys, hys⟩ := ih hl
    refine ⟨y :: ys, ?_⟩
    rw [List.mapM_cons, hy, hys]
    rfl

theorem length_namesAt (g : Grammar) (s : IndexSet) : (g.namesAt s).length = s.card := by
  rw [namesAt, (Text.sort_perm _).length_eq, List.length_map, IndexSet.card]

variable {s : IndexSet} (h : ∀ i ∈ s, ∃ a, g.symbolName i = .ok a)

include h in
theorem symbolNames_eq : g.symbolNames s = .ok (g.namesAt s) := by
  have hmap : s.toList.mapM g.symbolName = .ok (s.toList.map g.nameAt) := by
    refine mapM_ok fun i hi => ?_
    obtain ⟨a, ha⟩ := h i hi
    rw [ha, nameAt_of_ok ha]
  rw [symbolNames, hmap]
  rfl

include h in
theorem mem_namesAt {a : String} : a ∈ g.namesAt s ↔ ∃ i ∈ s, g.symbolName i = .ok a := by
  rw [namesAt, (Text.sort_perm _).mem_iff, List.mem_map]
  refine exists_congr fun i => and_congr_right fun hi => ?_
  obtain ⟨b, hb⟩ := h i hi
  rw [nameAt_of_ok hb, hb, Except.ok.injEq]

end

variable {rules : List Rule} {start : String} {tokens : List String} {i j : Nat}

theorem cell_chart (g : Grammar) : (g.chart tokens).cell i j =
    if Triangle.Inside tokens.length i j then .ok ((g.chart tokens).get i j)
    else .error (.noCell i j) := by
  rw [Chart.cell, chart, RuleIndex.size_fill]

/-- Different numbers have different names, so no name is repeated. -/
theorem nodup_namesAt {s : IndexSet}
    (h : ∀ a ∈ s, ∃ name, (build rules start).symbolName a = .ok name) :
    ((build rules start).namesAt s).Nodup := by
  rw [namesAt, (Text.sort_perm _).nodup_iff]
  refine List.Nodup.map_on (fun a ha b hb he => ?_) (s.ascending.imp Nat.ne_of_lt)
  obtain ⟨na, hna⟩ := h a ha
  obtain ⟨nb, hnb⟩ := h b hb
  rw [nameAt_of_ok hna, nameAt_of_ok hnb] at he
  subst he
  exact symbolName_inj hna hnb

theorem index_derives_iff {w : List String} :
    (build rules start).index.Derives i w ↔
      ∃ a, (build rules start).symbolName i = .ok a ∧ Rule.Derives rules a w := by
  constructor
  · intro h
    induction h with
    | token h =>
      obtain ⟨a, ha, hk⟩ := mem_terminalDerivers.mp h
      exact ⟨a, ha, .token hk⟩
    | pair _ _ h ihb ihc =>
      obtain ⟨a, b, c, ha, hb, hc, hk⟩ := mem_pairDerivers.mp h
      obtain ⟨b', hb', hdb⟩ := ihb
      obtain ⟨c', hc', hdc⟩ := ihc
      obtain rfl := Except.ok.inj (hb.symm.trans hb')
      obtain rfl := Except.ok.inj (hc.symm.trans hc')
      exact ⟨a, ha, .pair hdb hdc hk⟩
  · intro h
    obtain ⟨a, ha, h⟩ := h
    induction h generalizing i with
    | token h => exact .token (mem_terminalDerivers.mpr ⟨_, ha, h⟩)
    | pair hb hc h ihb ihc =>
      obtain ⟨j, hj⟩ := exists_symbolName (hb.left_mem start)
      obtain ⟨k, hk⟩ := exists_symbolName (hc.left_mem start)
      exact .pair (ihb hj) (ihc hk) (mem_pairDerivers.mpr ⟨_, _, _, ha, hj, hk, h⟩)

theorem recognize_build_nil :
    (build rules start).recognize [] = true ↔ Rule.Has rules start .empty :=
  derivesEmpty_build

theorem recognize_build (h : tokens ≠ []) :
    (build rules start).recognize tokens = true ↔ Rule.Derives rules start tokens := by
  rw [recognize, RuleIndex.recognize_iff_derives h, index_derives_iff]
  have hstart : (build rules start).symbolName (build rules start).index.start = .ok start :=
    startName_build
  constructor
  · intro h
    obtain ⟨a, ha, hd⟩ := h
    obtain rfl := Except.ok.inj (ha.symm.trans hstart)
    exact hd
  · exact fun hd => ⟨start, hstart, hd⟩

/-- Every number in a chart has a name. -/
theorem exists_name_of_mem_chart {a : Nat} (h : a ∈ ((build rules start).chart tokens).get i j) :
    ∃ name, (build rules start).symbolName a = .ok name := by
  obtain ⟨name, hname, -⟩ := index_derives_iff.mp (RuleIndex.mem_get_fill.mp h).2
  exact ⟨name, hname⟩

theorem cellNames_build (h : Triangle.Inside tokens.length i j) :
    (build rules start).cellNames tokens i j =
      .ok ((build rules start).namesAt (((build rules start).chart tokens).get i j)) := by
  rw [cellNames, chart, RuleIndex.cell_fill h]
  exact symbolNames_eq fun a ha => exists_name_of_mem_chart ha

/-- A name is in a cell if and only if it derives the tokens of the cell. -/
theorem mem_namesAt_chart (h : Triangle.Inside tokens.length i j) {a : String} :
    a ∈ (build rules start).namesAt (((build rules start).chart tokens).get i j) ↔
      Rule.Derives rules a (Chart.word tokens i j) := by
  rw [mem_namesAt fun a ha => exists_name_of_mem_chart ha]
  constructor
  · intro h
    obtain ⟨k, hk, ha⟩ := h
    obtain ⟨b, hb, hd⟩ := index_derives_iff.mp (RuleIndex.mem_get_fill.mp hk).2
    obtain rfl := Except.ok.inj (ha.symm.trans hb)
    exact hd
  · intro hd
    obtain ⟨k, hk⟩ := exists_symbolName (hd.left_mem start)
    exact ⟨k, RuleIndex.mem_get_fill.mpr ⟨h, index_derives_iff.mpr ⟨a, hk, hd⟩⟩, hk⟩

theorem nodup_namesAt_chart :
    ((build rules start).namesAt (((build rules start).chart tokens).get i j)).Nodup :=
  nodup_namesAt fun _ ha => exists_name_of_mem_chart ha

/-- The report of a chart in closed form. -/
theorem chartReport_build :
    (build rules start).chartReport tokens = .ok
      { tokens
        cells := (Triangle.positions tokens.length).map fun p =>
          { start := p.1, stop := p.2
            symbols := (build rules start).namesAt
              (((build rules start).chart tokens).get p.1 p.2) }
        accepted := (build rules start).recognize tokens } := by
  have hsize : ((build rules start).chart tokens).size = tokens.length := RuleIndex.size_fill
  have hcell : ∀ p ∈ Triangle.positions tokens.length, (do
      let s ← ((build rules start).chart tokens).cell p.1 p.2
      let symbols ← (build rules start).symbolNames s
      return { start := p.1, stop := p.2, symbols : CellReport }) = (.ok
        { start := p.1, stop := p.2
          symbols := (build rules start).namesAt
            (((build rules start).chart tokens).get p.1 p.2) } : Except Fault CellReport) := by
    intro p hp
    have hnames : (build rules start).cellNames tokens p.1 p.2 = _ :=
      cellNames_build (Triangle.mem_positions.mp hp)
    rw [cellNames] at hnames
    rw [← bind_assoc, hnames]
    rfl
  have haccepted := Recognizer.index_recognize (build rules start).index tokens
  rw [chartReport, hsize, recognize, haccepted]
  simp only [mapM_ok hcell]
  rfl

end Grammar

end ChomskyChart
