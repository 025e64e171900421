import ChomskyChart.Proofs.Chart.Triangle
import ChomskyChart.Proofs.Grammar.Cells
import ChomskyChart.Proofs.Text.Bytes
import ChomskyChart.Report.Sentences

/-!
# Chart reports and charts

A chart report keeps the cells in a list of its own and decides acceptance on its own. It agrees
with the chart and with recognition: a cell is found in the list if and only if the chart has it,
with the names of its symbols, and the verdict is that of recognition and of every sentence report.
Of the printed report only the shape is settled: its rows are all of one length.
-/

namespace ChomskyChart

namespace Grammar

variable {rules : List Rule} {start : String} {tokens : List String} {i j : Nat}

theorem pairwise_lt_namesAt_chart :
    ((build rules start).namesAt (((build rules start).chart tokens).get i j)).Pairwise
      (· < ·) := by
  have hsorted : ((build rules start).namesAt (((build rules start).chart tokens).get i j)).Pairwise
      (· ≤ ·) := Text.pairwise_sort _
  exact (hsorted.and nodup_namesAt_chart).imp fun h => lt_of_le_of_ne h.1 h.2

theorem pairwise_namesAt_chart :
    ((build rules start).namesAt (((build rules start).chart tokens).get i j)).Pairwise
      (fun a b => Text.bytes a < Text.bytes b) :=
  pairwise_lt_namesAt_chart.imp Text.bytes_lt

theorem accepted_sentenceReport (g : Grammar) (mode : TokenMode) (sentences : List String) :
    (g.sentenceReport mode sentences).accepted =
      sentences.map fun sentence => g.recognize (tokenize mode sentence) := by
  rw [sentenceReport, SentenceReport.accepted, List.map_map]
  rfl

end Grammar

/-- A report that answers as the grammar and its chart do. -/
structure ChartReport.Agrees (g : Grammar) (tokens : List String) (report : ChartReport) :
    Prop where
  accepted_eq : report.accepted = g.recognize tokens
  accepted_of_sentence : ∀ (mode : TokenMode) (sentences : List String) (k : Nat)
    (sentence : String), sentences[k]? = some sentence → tokenize mode sentence = tokens →
      (g.sentenceReport mode sentences).accepted[k]? = some report.accepted
  symbolsAt?_eq_none_iff : ∀ i j, report.symbolsAt? i j = none ↔
    ∃ fault, (g.chart tokens).cell i j = .error fault
  symbolsAt?_of_cell : ∀ i j s, (g.chart tokens).cell i j = .ok s →
    ∃ names, report.symbolsAt? i j = some names ∧ g.symbolNames s = .ok names ∧
      names.Pairwise (fun a b => Text.bytes a < Text.bytes b) ∧ names.length = s.card
  length_cells : report.cells.length = tokens.length * (tokens.length + 1) / 2
  cells_in_row_order : report.cells.Pairwise fun c d =>
    c.start < d.start ∨ c.start = d.start ∧ c.stop < d.stop
  exists_cell_iff : ∀ i j, (∃ c ∈ report.cells, c.start = i ∧ c.stop = j) ↔
    i ≤ j ∧ j < tokens.length
  symbolsAt?_of_mem : ∀ c ∈ report.cells, report.symbolsAt? c.start c.stop = some c.symbols

namespace ChartReport

/-- The list holds a cell for each position, in row order. -/
def Lists (r : ChartReport) (symbols : Nat → Nat → List String) : Prop :=
  r.cells = (Triangle.positions r.size).map fun p => ⟨p.1, p.2, symbols p.1 p.2⟩

variable {r : ChartReport} {symbols : Nat → Nat → List String}

theorem length_rows (r : ChartReport) (token : String → String)
    (field : Option (List String) → String) : (r.rows token field).length = r.size := by
  rw [rows, List.length_map, List.length_zipIdx, size]

/-- Each row has a field for each column, so no column is asked for a field that is not there. -/
theorem length_of_mem_plainRows {row : List String} (h : row ∈ r.plainRows) :
    row.length = r.size + 1 := by
  rw [plainRows, rows, List.mem_cons, List.mem_map] at h
  rcases h with rfl | ⟨p, -, rfl⟩
  · rfl
  · rw [List.length_cons, List.length_map, List.length_range]

variable (h : r.Lists symbols)

include h

theorem Lists.symbolsAt?_eq (i j : Nat) :
    r.symbolsAt? i j = if Triangle.Inside r.size i j then some (symbols i j) else none := by
  rw [symbolsAt?]
  by_cases hin : Triangle.Inside r.size i j
  · rw [if_pos hin, if_pos hin, h, List.getElem?_map, Triangle.getElem?_positions hin]
    rfl
  · rw [if_neg hin, if_neg hin]

theorem Lists.length_cells : r.cells.length = Triangle.count r.size := by
  rw [h, List.length_map, Triangle.length_positions]

theorem Lists.pairwise_cells : r.cells.Pairwise fun c d =>
    c.start < d.start ∨ c.start = d.start ∧ c.stop < d.stop := by
  rw [h, List.pairwise_map]
  exact Triangle.pairwise_positions r.size

theorem Lists.exists_cell_iff (i j : Nat) :
    (∃ c ∈ r.cells, c.start = i ∧ c.stop = j) ↔ Triangle.Inside r.size i j := by
  rw [h, ← Triangle.mem_positions]
  constructor
  · rintro ⟨c, hc, rfl, rfl⟩
    obtain ⟨p, hp, rfl⟩ := List.mem_map.mp hc
    exact hp
  · exact fun hp => ⟨_, List.mem_map_of_mem hp, rfl, rfl⟩

theorem Lists.symbolsAt?_of_mem {c : CellReport} (hc : c ∈ r.cells) :
    r.symbolsAt? c.start c.stop = some c.symbols := by
  have hin : Triangle.Inside r.size c.start c.stop :=
    (h.exists_cell_iff c.start c.stop).mp ⟨c, hc, rfl, rfl⟩
  rw [h.symbolsAt?_eq, if_pos hin]
  rw [h] at hc
  obtain ⟨p, -, rfl⟩ := List.mem_map.mp hc
  rfl

end ChartReport

namespace Grammar

variable {rules : List Rule} {start : String} {tokens : List String} {report : ChartReport}

theorem of_chartReport (h : (build rules start).chartReport tokens = .ok report) :
    report.Lists (fun i j =>
      (build rules start).namesAt (((build rules start).chart tokens).get i j)) ∧
    report.size = tokens.length ∧ report.accepted = (build rules start).recognize tokens := by
  rw [chartReport_build, Except.ok.injEq] at h
  subst h
  exact ⟨rfl, rfl, rfl⟩

/-- A chart report of a built grammar exists, and it agrees with recognition and with the chart. -/
theorem exists_chartReport_agrees (rules : List Rule) (start : String) (tokens : List String) :
    ∃ report, (build rules start).chartReport tokens = .ok report ∧
      report.Agrees (build rules start) tokens := by
  obtain ⟨report, hreport⟩ : ∃ report, (build rules start).chartReport tokens = .ok report :=
    ⟨_, chartReport_build⟩
  obtain ⟨hlists, hsize, haccepted⟩ := of_chartReport hreport
  refine ⟨report, hreport, ⟨haccepted, ?accepted_of_sentence, ?symbolsAt?_eq_none_iff,
    ?symbolsAt?_of_cell, ?length_cells, hlists.pairwise_cells, ?exists_cell_iff,
    fun c hc => hlists.symbolsAt?_of_mem hc⟩⟩
  case accepted_of_sentence =>
    intro mode sentences k sentence hk htokens
    rw [accepted_sentenceReport, List.getElem?_map, hk, Option.map_some, htokens, haccepted]
  case symbolsAt?_eq_none_iff =>
    intro i j
    rw [hlists.symbolsAt?_eq, cell_chart, hsize]
    split <;> simp
  case symbolsAt?_of_cell =>
    intro i j s hs
    rw [cell_chart] at hs
    rw [hlists.symbolsAt?_eq, hsize]
    by_cases hin : Triangle.Inside tokens.length i j
    · rw [if_pos hin] at hs ⊢
      obtain rfl := Except.ok.inj hs
      exact ⟨_, rfl, symbolNames_eq fun a ha => exists_name_of_mem_chart ha,
        pairwise_namesAt_chart, length_namesAt _ _⟩
    · rw [if_neg hin] at hs
      cases hs
  case length_cells => rw [hlists.length_cells, hsize, Triangle.count]
  case exists_cell_iff =>
    intro i j
    rw [hlists.exists_cell_iff, hsize, Triangle.Inside]

example : (Sample.g1.grammar.chartReport ["a", "a", "b"]).map
    (fun report => (report.symbolsAt? 0 0, report.symbolsAt? 0 2, report.symbolsAt? 2 1)) =
      .ok (some ["B", "S", "X"], some ["A"], none) := by
  decide +kernel

end Grammar

end ChomskyChart
