import ChomskyChart.Proofs.Report.Charts
import ChomskyChart.Proofs.Text.Columns
import Mathlib.Order.Bounds.Defs

/-!
# Chart reports in columns

The plain text of a chart report is a line for the header, a line for each token, and the verdict.
All lines but the last have the same columns: one for the tokens in front, and one for each token.
What a column shows in a line is said of the chart and of the names of symbols, without the report.
Widths are not bounded here.
-/

namespace ChomskyChart

/-- What the plain report shows in a line and a column. Line zero is the header. -/
inductive Grammar.PlainField (g : Grammar) (tokens : List String) : Nat → Nat → String → Prop
  | corner : PlainField g tokens 0 0 ""
  | head {j : Nat} {token : String} (h : tokens[j]? = some token) :
    PlainField g tokens 0 (j + 1) token
  | front {i : Nat} {token : String} (h : tokens[i]? = some token) :
    PlainField g tokens (i + 1) 0 token
  | below {i j : Nat} (hj : j < i) (hi : i < tokens.length) :
    PlainField g tokens (i + 1) (j + 1) ""
  | empty {i j : Nat} (h : (g.chart tokens).cell i j = .ok ∅) :
    PlainField g tokens (i + 1) (j + 1) "-"
  | names {i j : Nat} {s : IndexSet} {names : List String}
    (h : (g.chart tokens).cell i j = .ok s) (hs : s ≠ ∅)
    (hmem : ∀ name, name ∈ names ↔ ∃ a ∈ s, g.symbolName a = .ok name)
    (hsorted : names.Pairwise (· < ·)) :
    PlainField g tokens (i + 1) (j + 1) (" ".intercalate names)

/-- As many lines as columns, and each column as wide as its longest text. A text is set flush right
in its column, and three characters stand between two columns. -/
structure Columns (shown : Nat → Nat → String → Prop) (n : Nat) (widths : List Nat)
    (lines : List (List Char)) : Prop where
  length_lines : lines.length = n
  length_widths : widths.length = n
  length_line : ∀ line ∈ lines, line.length = widths.sum + 3 * (n - 1)
  exists_shown : ∀ i j, i < n → j < n → ∃ text, shown i j text
  width_isGreatest : ∀ j w, widths[j]? = some w →
    IsGreatest {k | ∃ i text, shown i j text ∧ text.length = k} w
  field : ∀ i j line w text, lines[i]? = some line → widths[j]? = some w → shown i j text →
    (line.drop ((widths.take j).sum + 3 * j)).take w =
      List.replicate (w - text.length) ' ' ++ text.toList
  separator : ∀ line ∈ lines, ∀ j w, widths[j]? = some w → j + 1 < n →
    (line.drop ((widths.take j).sum + 3 * j + w)).take 3 = [' ', '|', ' ']

namespace Grammar

variable {rules : List Rule} {start : String} {tokens : List String} {i j : Nat} {text : String}

theorem namesAt_eq_nil_iff (g : Grammar) {s : IndexSet} : g.namesAt s = [] ↔ s = ∅ := by
  rw [← List.length_eq_zero_iff, length_namesAt, IndexSet.card, List.length_eq_zero_iff]
  constructor
  · intro h
    ext a
    rw [← IndexSet.mem_toList, h]
    simp
  · rintro rfl
    rfl

/-- The names of a cell are the only ascending list of them. -/
theorem eq_namesAt_chart {names : List String}
    (hmem : ∀ name, name ∈ names ↔ ∃ a ∈ ((build rules start).chart tokens).get i j,
      (build rules start).symbolName a = .ok name)
    (hsorted : names.Pairwise (· < ·)) :
    names = (build rules start).namesAt (((build rules start).chart tokens).get i j) := by
  have hnodup : names.Nodup := hsorted.imp ne_of_lt
  have hperm := (List.perm_ext_iff_of_nodup hnodup nodup_namesAt_chart).mpr fun name => by
    rw [hmem, mem_namesAt fun a ha => exists_name_of_mem_chart ha]
  exact hperm.eq_of_pairwise (fun a b _ _ hab hba => absurd hba (lt_asymm hab)) hsorted
    pairwise_lt_namesAt_chart

end Grammar

namespace ChartReport

variable (r : ChartReport) (i j : Nat)

/-- The field in a row and a column, before it is aligned. -/
def fieldAt? : Option String :=
  r.plainRows[i]?.bind (·[j]?)

theorem fieldAt?_corner : r.fieldAt? 0 0 = some "" := rfl

theorem fieldAt?_head : r.fieldAt? 0 (j + 1) = r.tokens[j]? := rfl

theorem getElem?_plainRows_succ : r.plainRows[i + 1]? = r.tokens[i]?.map fun token =>
    token :: (List.range r.size).map fun j => plainField (r.symbolsAt? i j) := by
  rw [plainRows, List.getElem?_cons_succ, rows, List.getElem?_map, List.getElem?_zipIdx,
    Option.map_map, Nat.zero_add]
  rfl

theorem fieldAt?_front : r.fieldAt? (i + 1) 0 = r.tokens[i]? := by
  rw [fieldAt?, getElem?_plainRows_succ]
  cases r.tokens[i]? <;> rfl

theorem fieldAt?_cell : r.fieldAt? (i + 1) (j + 1) =
    if i < r.size ∧ j < r.size then some (plainField (r.symbolsAt? i j)) else none := by
  rw [fieldAt?, getElem?_plainRows_succ]
  by_cases hi : i < r.size
  · rw [List.getElem?_eq_getElem hi, Option.map_some, Option.bind_some, List.getElem?_cons_succ,
      List.getElem?_map]
    by_cases hj : j < r.size
    · rw [List.getElem?_range hj, if_pos ⟨hi, hj⟩, Option.map_some]
    · rw [if_neg fun h => hj h.2, List.getElem?_eq_none (by simpa using hj), Option.map_none]
  · rw [if_neg fun h => hi h.1, List.getElem?_eq_none (by simpa [size] using hi)]
    rfl

theorem length_plainRows : r.plainRows.length = r.size + 1 := by
  rw [plainRows, List.length_cons, length_rows]

theorem exists_fieldAt? (hi : i < r.size + 1) (hj : j < r.size + 1) :
    ∃ text, r.fieldAt? i j = some text := by
  have hrows : i < r.plainRows.length := by rwa [length_plainRows]
  have hrow := List.getElem?_eq_getElem hrows
  have hlen := length_of_mem_plainRows (List.mem_of_getElem? hrow)
  refine ⟨r.plainRows[i][j], ?_⟩
  rw [fieldAt?, hrow, Option.bind_some, List.getElem?_eq_getElem]

def plainWidths : List Nat :=
  Text.columnWidths (r.size + 1) r.plainRows

def plainLine (row : List String) : List Char :=
  (" | ".intercalate (List.zipWith Text.alignRight r.plainWidths row)).toList

theorem length_plainWidths : r.plainWidths.length = r.size + 1 := by
  rw [plainWidths, Text.columnWidths, List.length_map, List.length_range]

theorem aligned_plainLine {row : List String} (hrow : row ∈ r.plainRows) :
    Text.Aligned [' ', '|', ' '] r.plainWidths row (r.plainLine row) := by
  have hlen : row.length = r.plainWidths.length := by
    rw [length_of_mem_plainRows hrow, length_plainWidths]
  exact Text.aligned_intercalate " | " hlen fun j w text hw htext =>
    Text.length_le_columnWidths hw hrow htext

theorem getElem?_map_plainLine {i : Nat} {line : List Char}
    (h : (r.plainRows.map r.plainLine)[i]? = some line) :
    ∃ row, r.plainRows[i]? = some row ∧ r.plainLine row = line := by
  rw [List.getElem?_map] at h
  exact Option.map_eq_some_iff.mp h

/-- The lines of a report but the last one, before its verdict. -/
theorem columns_plainLines : Columns (fun i j text => r.fieldAt? i j = some text) (r.size + 1)
    r.plainWidths (r.plainRows.map r.plainLine) := by
  have hrow : ∀ i row, r.plainRows[i]? = some row → r.fieldAt? i = fun j => row[j]? := by
    intro i row h
    funext j
    rw [fieldAt?, h, Option.bind_some]
  constructor
  case length_lines => rw [List.length_map, length_plainRows]
  case length_widths => exact r.length_plainWidths
  case length_line =>
    refine List.forall_mem_map.mpr fun row h => ?_
    rw [(r.aligned_plainLine h).length_eq, length_plainWidths]
    rfl
  case exists_shown => exact fun i j hi hj => r.exists_fieldAt? i j hi hj
  case width_isGreatest =>
    intro j w hw
    constructor
    · have hne : r.plainRows ≠ [] := List.cons_ne_nil _ _
      obtain ⟨row, h, text, htext, hlen⟩ := Text.exists_length_eq_columnWidths hne
        (fun row h => length_of_mem_plainRows h) hw
      obtain ⟨i, hi⟩ := List.mem_iff_getElem?.mp h
      exact ⟨i, text, by rwa [hrow i row hi], hlen⟩
    · rintro k ⟨i, text, htext, rfl⟩
      obtain ⟨row, hi, htext⟩ := Option.bind_eq_some_iff.mp htext
      exact Text.length_le_columnWidths hw (List.mem_of_getElem? hi) htext
  case field =>
    intro i j line w text hline hw htext
    obtain ⟨row, hi, rfl⟩ := r.getElem?_map_plainLine hline
    rw [hrow i row hi] at htext
    exact (r.aligned_plainLine (List.mem_of_getElem? hi)).field j w text hw htext
  case separator =>
    refine List.forall_mem_map.mpr fun row h j w hw hj => ?_
    exact (r.aligned_plainLine h).separator j w hw (by rwa [length_plainWidths])

/-- A report without newlines in its fields is cut at the ends of its lines. -/
theorem splitOn_plain (h : ∀ i j text, r.fieldAt? i j = some text → '\n' ∉ text.toList) :
    r.plain.toList.splitOn '\n' =
      r.plainRows.map r.plainLine ++ [("accepted: " ++ verdict r.accepted).toList] := by
  have hplain : r.plain.toList = ['\n'].intercalate
      (r.plainRows.map r.plainLine ++ [("accepted: " ++ verdict r.accepted).toList]) := by
    rw [plain, String.toList_intercalate, List.map_append, List.map_map]
    rfl
  rw [hplain]
  refine List.splitOn_intercalate '\n' (fun line hline => ?_) (by simp)
  rcases List.mem_append.mp hline with hline | hline
  · obtain ⟨row, hrow, rfl⟩ := List.mem_map.mp hline
    refine Text.not_mem_intercalate_alignRight (by decide) (by decide) fun text htext => ?_
    obtain ⟨i, hi⟩ := List.mem_iff_getElem?.mp hrow
    obtain ⟨j, hj⟩ := List.mem_iff_getElem?.mp htext
    exact h i j text (by rw [fieldAt?, hi, Option.bind_some, hj])
  · rw [List.mem_singleton.mp hline]
    cases r.accepted <;> decide

end ChartReport

namespace Grammar

variable {rules : List Rule} {start : String} {tokens : List String} {report : ChartReport}
  {i j : Nat} {text : String}

/-- The field of a cell. -/
theorem plainField_namesAt (hin : Triangle.Inside tokens.length i j) :
    (build rules start).PlainField tokens (i + 1) (j + 1) (ChartReport.plainField
      (some ((build rules start).namesAt (((build rules start).chart tokens).get i j)))) := by
  have hcell : ((build rules start).chart tokens).cell i j =
      .ok (((build rules start).chart tokens).get i j) := by rw [cell_chart, if_pos hin]
  unfold ChartReport.plainField
  split
  case h_1 h => cases h
  case h_2 h =>
    rw [(namesAt_eq_nil_iff _).mp (Option.some.inj h)] at hcell
    exact .empty hcell
  case h_3 hne h =>
    obtain rfl := Option.some.inj h
    refine .names hcell (fun hs => hne ?_) (fun name => ?_) pairwise_lt_namesAt_chart
    · rw [(namesAt_eq_nil_iff _).mpr hs]
    · exact mem_namesAt fun a ha => exists_name_of_mem_chart ha

theorem of_cell_chart (g : Grammar) {s : IndexSet} (h : (g.chart tokens).cell i j = .ok s) :
    Triangle.Inside tokens.length i j ∧ s = (g.chart tokens).get i j := by
  rw [cell_chart] at h
  split at h
  · exact ⟨‹_›, (Except.ok.inj h).symm⟩
  · cases h

/-- The plain field of a line and a column behind the first ones. -/
theorem plainField_succ_iff : (build rules start).PlainField tokens (i + 1) (j + 1) text ↔
    (i < tokens.length ∧ j < tokens.length) ∧
      ChartReport.plainField (if Triangle.Inside tokens.length i j then
        some ((build rules start).namesAt (((build rules start).chart tokens).get i j))
      else none) = text := by
  have hlt : Triangle.Inside tokens.length i j → i < tokens.length ∧ j < tokens.length := by
    rintro ⟨hij, hj⟩
    omega
  constructor
  · intro h
    cases h with
    | below hj hi =>
      refine ⟨by omega, ?_⟩
      rw [if_neg fun hin => absurd hin.1 (by omega)]
      rfl
    | empty hcell =>
      obtain ⟨hin, hs⟩ := of_cell_chart _ hcell
      refine ⟨hlt hin, ?_⟩
      rw [if_pos hin, ← hs]
      rfl
    | names hcell hne hmem hsorted =>
      obtain ⟨hin, rfl⟩ := of_cell_chart _ hcell
      have hnames := eq_namesAt_chart hmem hsorted
      refine ⟨hlt hin, ?_⟩
      rw [if_pos hin, hnames]
      unfold ChartReport.plainField
      split
      case h_1 h => cases h
      case h_2 h => exact absurd ((namesAt_eq_nil_iff _).mp (Option.some.inj h)) hne
      case h_3 h => rw [Option.some.inj h]
  · rintro ⟨⟨hi, hj⟩, rfl⟩
    by_cases hin : Triangle.Inside tokens.length i j
    · rw [if_pos hin]
      exact plainField_namesAt hin
    · rw [if_neg hin]
      exact .below (Nat.lt_of_not_le fun hij => hin ⟨hij, hj⟩) hi

/-- The rows of a report hold the plain fields of the grammar, and nothing else. -/
theorem fieldAt?_eq_some_iff (h : (build rules start).chartReport tokens = .ok report) :
    report.fieldAt? i j = some text ↔ (build rules start).PlainField tokens i j text := by
  obtain ⟨hlists, hsize, -⟩ := of_chartReport h
  have htokens : report.tokens = tokens := by
    rw [chartReport_build, Except.ok.injEq] at h
    rw [← h]
  rcases i with _ | i <;> rcases j with _ | j
  · rw [ChartReport.fieldAt?_corner, Option.some.injEq]
    constructor
    · rintro rfl
      exact .corner
    · intro hfield
      cases hfield
      rfl
  · rw [ChartReport.fieldAt?_head, htokens]
    constructor
    · exact .head
    · intro hfield
      cases hfield
      assumption
  · rw [ChartReport.fieldAt?_front, htokens]
    constructor
    · exact .front
    · intro hfield
      cases hfield
      assumption
  · rw [ChartReport.fieldAt?_cell, hsize, hlists.symbolsAt?_eq, hsize, plainField_succ_iff]
    split
    · rename_i hlt
      rw [Option.some.injEq]
      exact ⟨fun he => ⟨hlt, he⟩, fun he => he.2⟩
    · rename_i hlt
      exact ⟨nofun, fun he => absurd he.1 hlt⟩

/-- No plain field holds a newline if no token and no name does. -/
theorem PlainField.newline_not_mem (g : Grammar) (htokens : ∀ token ∈ tokens, '\n' ∉ token.toList)
    (hnames : ∀ nt ∈ g.nonTerminals, '\n' ∉ nt.name.toList) (h : g.PlainField tokens i j text) :
    '\n' ∉ text.toList := by
  cases h with
  | corner => decide
  | head h => exact htokens _ (List.mem_of_getElem? h)
  | front h => exact htokens _ (List.mem_of_getElem? h)
  | below => decide
  | empty => decide
  | names _ _ hmem _ =>
    rw [String.toList_intercalate]
    refine Text.not_mem_intercalate (by decide) (List.forall_mem_map.mpr fun name hname => ?_)
    obtain ⟨a, -, ha⟩ := (hmem name).mp hname
    unfold symbolName at ha
    split at ha
    · rename_i nt hnt
      obtain rfl := Except.ok.inj ha
      exact hnames nt (List.mem_of_getElem? hnt)
    · cases ha

/-- The plain text of a chart report has a line more than columns, of which the last one is the
verdict. In the others every field is set flush right in its column. -/
theorem exists_chartReport_columns (rules : List Rule) (start : String) (tokens : List String)
    (htokens : ∀ token ∈ tokens, '\n' ∉ token.toList)
    (hnames : ∀ nt ∈ (build rules start).nonTerminals, '\n' ∉ nt.name.toList) :
    ∃ report widths lines, (build rules start).chartReport tokens = .ok report ∧
      report.plain.toList.splitOn '\n' = lines ++
        [("accepted: " ++ verdict ((build rules start).recognize tokens)).toList] ∧
      (report.plain.toList.splitOn '\n').length = tokens.length + 2 ∧
      Columns ((build rules start).PlainField tokens) (tokens.length + 1) widths lines := by
  obtain ⟨report, hreport⟩ : ∃ report, (build rules start).chartReport tokens = .ok report :=
    ⟨_, chartReport_build⟩
  obtain ⟨-, hsize, haccepted⟩ := of_chartReport hreport
  have hshown : (fun i j text => report.fieldAt? i j = some text) =
      (build rules start).PlainField tokens := by
    funext i j text
    exact propext (fieldAt?_eq_some_iff hreport)
  have hcolumns := report.columns_plainLines
  rw [hshown, hsize] at hcolumns
  have hsplit := report.splitOn_plain fun i j text htext =>
    ((fieldAt?_eq_some_iff hreport).mp htext).newline_not_mem _ htokens hnames
  rw [haccepted] at hsplit
  refine ⟨report, _, _, hreport, hsplit, ?_, hcolumns⟩
  rw [hsplit, List.length_append, hcolumns.length_lines, List.length_singleton]

/-- A name with a character of two bytes, a cell without symbols, and a token that is not known. -/
theorem exists_chartReport_columns_of_pair :
    let g := build [⟨"S", [["Yé", "Yé"], ["a"]]⟩, ⟨"Yé", [["a"]]⟩] "S"
    (∀ token ∈ ["a", "b"], '\n' ∉ token.toList) ∧
    (∀ nt ∈ g.nonTerminals, '\n' ∉ nt.name.toList) ∧
    ∃ report widths lines, g.chartReport ["a", "b"] = .ok report ∧
      report.plain = "  |    a | b\na | S Yé | -\nb |      | -\naccepted: false" ∧
      lines = ["  |    a | b", "a | S Yé | -", "b |      | -"].map String.toList ∧
      Columns (g.PlainField ["a", "b"]) 3 widths lines := by
  intro g
  have htokens : ∀ token ∈ ["a", "b"], '\n' ∉ token.toList := by decide
  have hnames : ∀ nt ∈ g.nonTerminals, '\n' ∉ nt.name.toList := by decide +kernel
  obtain ⟨report, widths, lines, hreport, hsplit, -, hcolumns⟩ :=
    exists_chartReport_columns _ _ ["a", "b"] htokens hnames
  have hplain : report.plain = "  |    a | b\na | S Yé | -\nb |      | -\naccepted: false" := by
    have hmap : (Except.ok report.plain : Except Fault String) =
        (g.chartReport ["a", "b"]).map (·.plain) := by
      rw [hreport]
      rfl
    refine Except.ok.inj (hmap.trans ?_)
    decide +kernel
  refine ⟨htokens, hnames, report, widths, lines, hreport, hplain, ?lines, hcolumns⟩
  case lines =>
    have hverdict : g.recognize ["a", "b"] = false := by decide +kernel
    rw [hplain, hverdict] at hsplit
    exact List.append_cancel_right (hsplit.symm.trans (by decide +kernel))

end Grammar

end ChomskyChart
