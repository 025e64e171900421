import ChomskyChart.Proofs.Format.Latex
import ChomskyChart.Proofs.Report.Charts

/-!
# Chart reports as tables

The LaTeX text of a chart report is a table, whatever the tokens and the names of symbols look like.
Its header has a field for each token after the first one, and so has each of its rows, which are as
many as the tokens. A report without tokens has no rows and is not of this form.
-/

namespace ChomskyChart

namespace ChartReport

open Latex (Escapes Fields)

variable {escape : String → String} (h : Escapes escape) (r : ChartReport)

include h

theorem fields_latexToken (token : String) : Fields 0 (latexToken escape token) := by
  have hname : Fields 0 "\\text" := by decide
  rw [latexToken, Latex.apply]
  exact hname.append (h.fields token).group

theorem fields_latexField (symbols : Option (List String)) :
    Fields 0 (latexField escape symbols) := by
  have hsep : Fields 0 ",\\ " := by decide
  unfold latexField
  split
  · decide
  · decide
  · exact hsep.intercalate (List.forall_mem_map.mpr fun name _ => h.fields name)

omit h in
theorem fields_line {fields : List String} {n : Nat} (hlen : fields.length = n + 1)
    (hfields : ∀ field ∈ fields, Fields 0 field) : Fields n (" & ".intercalate fields) := by
  have hsep : Fields 1 " & " := by decide
  have hline := hsep.intercalate hfields
  rwa [hlen, Nat.add_sub_cancel, Nat.mul_one] at hline

theorem fields_row {fields : List String}
    (hfields : fields ∈ r.rows (latexToken escape) (latexField escape)) :
    Fields r.size (" & ".intercalate fields) := by
  obtain ⟨p, -, rfl⟩ := List.mem_map.mp hfields
  apply fields_line
  · rw [List.length_cons, List.length_map, List.length_range]
  · rw [List.forall_mem_cons, List.forall_mem_map]
    exact ⟨fields_latexToken h p.1, fun j _ => fields_latexField h _⟩

omit h in
theorem fields_latexStart : Fields 0 r.latexStart := by
  have hbegin : Fields 0 ("\\[" ++ Latex.apply "begin" "array") := by decide
  have hfirst : Fields 0 "c" := by decide
  have hcolumn : Fields 0 "|l" := by decide
  have hline : Fields 0 "\n" := by decide
  have hcolumns : Fields 0 (String.join (List.replicate r.size "|l")) := by
    induction r.size with
    | zero => exact Latex.fields_empty
    | succ n ih =>
      rw [List.replicate_succ, String.join_cons]
      exact hcolumn.append ih
  exact (hbegin.append (hfirst.append hcolumns).group).append hline

theorem fields_header :
    Fields r.size (" & ".intercalate (r.latexStart :: r.tokens.map (latexToken escape))) := by
  apply fields_line
  · rw [List.length_cons, List.length_map, size]
  · rw [List.forall_mem_cons, List.forall_mem_map]
    exact ⟨r.fields_latexStart, fun token _ => fields_latexToken h token⟩

/-- Nothing is asked of the cells: whatever their symbols are, they stay within their fields. -/
theorem table_latexWith (hne : r.tokens ≠ []) :
    Latex.Table r.size r.size (Latex.atoms (r.latexWith escape)) := by
  rw [latexWith]
  apply Latex.table_of_fields (r.fields_header h)
  · rw [List.length_map, length_rows]
  · exact List.length_pos_iff.mpr hne
  · exact List.forall_mem_map.mpr fun _ hfields => r.fields_row h hfields

end ChartReport

namespace Grammar

/-- The LaTeX text of a chart report is a table with as many rows as tokens, and with as many
separators as tokens in its header and in every row. This does not depend on how texts are escaped,
as long as every character is. -/
theorem exists_chartReport_table (rules : List Rule) (start : String) (tokens : List String)
    (hne : tokens ≠ []) : ∃ report, (build rules start).chartReport tokens = .ok report ∧
      Latex.Table tokens.length tokens.length (Latex.atoms report.latex) ∧
      ∀ escape, Latex.Escapes escape →
        Latex.Table tokens.length tokens.length (Latex.atoms (report.latexWith escape)) := by
  obtain ⟨report, hreport⟩ : ∃ report, (build rules start).chartReport tokens = .ok report :=
    ⟨_, chartReport_build⟩
  have htokens : report.tokens = tokens := by
    rw [chartReport_build, Except.ok.injEq] at hreport
    rw [← hreport]
  have htable : ∀ escape, Latex.Escapes escape →
      Latex.Table tokens.length tokens.length (Latex.atoms (report.latexWith escape)) := by
    intro escape h
    rw [← htokens] at hne ⊢
    exact report.table_latexWith h hne
  exact ⟨report, hreport, htable _ Latex.escapes_escape, htable⟩

/-- A symbol with the name of the command for the rule, and tokens that are special characters. -/
theorem exists_chartReport_table_of_specials :
    ["&", "\\"] ≠ [] ∧ Latex.Escapes Latex.escape ∧ ∃ report,
      (build [⟨"\\hline", [["&"]]⟩] "\\hline").chartReport ["&", "\\"] = .ok report ∧
      report.latexWith Latex.escape = "\\[\\begin\x7barray\x7d\x7bc|l|l\x7d\n" ++
        " & \\text\x7b\\&\x7d & \\text\x7b\\textbackslash\x7b\x7d\x7d\\\\\\hline\n" ++
        "\\text\x7b\\&\x7d & \\textbackslash\x7b\x7dhline & \\emptyset\\\\\n" ++
        "\\text\x7b\\textbackslash\x7b\x7d\x7d &  & \\emptyset\n" ++
        "\\end\x7barray\x7d\\]" ∧
      Latex.Table 2 2 (Latex.atoms (report.latexWith Latex.escape)) := by
  have hne : ["&", "\\"] ≠ [] := List.cons_ne_nil _ _
  obtain ⟨report, hreport, -, htable⟩ :=
    exists_chartReport_table [⟨"\\hline", [["&"]]⟩] "\\hline" ["&", "\\"] hne
  refine ⟨hne, Latex.escapes_escape, report, hreport, ?text, htable _ Latex.escapes_escape⟩
  case text =>
    have hmap : (Except.ok (report.latexWith Latex.escape) : Except Fault String) =
        ((build [⟨"\\hline", [["&"]]⟩] "\\hline").chartReport ["&", "\\"]).map
          (·.latexWith Latex.escape) := by
      rw [hreport]
      rfl
    refine Except.ok.inj (hmap.trans ?_)
    decide +kernel

end Grammar

end ChomskyChart
