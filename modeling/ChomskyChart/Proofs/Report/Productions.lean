import ChomskyChart.Proofs.Grammar.Productions

/-!
# Building from a production report

The lines of a production report are rules, whatever strings the names are: nothing is cut out of a
text. A grammar built from them need not be the grammar they came from. Bodies that are too long,
repeated bodies and left sides without bodies are gone, an empty body is spelled in one way, and
symbols that are met later than before have other numbers. But the report is a fixed point, and what
is recognized does not change.
-/

namespace ChomskyChart

/-- The lines of a report as rules. -/
def ProductionReport.rules (r : ProductionReport) : List Rule :=
  r.productions.map fun line => ⟨line.left, line.rights⟩

namespace Grammar

/-- The report of a build lists the rules that are shown. -/
theorem exists_productionReport (rules : List Rule) (start : String) :
    ∃ report, (build rules start).productionReport = .ok report ∧ report.start = start ∧
      report.rules = Rule.shown rules := by
  refine ⟨_, productionReport_build, rfl, ?_⟩
  unfold ProductionReport.rules
  rw [List.map_map]
  exact List.map_id _

/-- A grammar built from the report of another has the same report, in every format, and recognizes
the same. Charts are reported alike as well. -/
theorem productionReport_rebuilt (rules : List Rule) (start : String) :
    ∃ report, (build rules start).productionReport = .ok report ∧
      (build report.rules report.start).productionReport = .ok report ∧
      (∀ format, (build report.rules report.start).productionReport.map (·.render format) =
        (build rules start).productionReport.map (·.render format)) ∧
      ∀ tokens,
        (build report.rules report.start).recognize tokens = (build rules start).recognize tokens ∧
        (build report.rules report.start).chartReport tokens =
          (build rules start).chartReport tokens := by
  obtain ⟨report, hreport, hstart, hrules⟩ := exists_productionReport rules start
  have hsame : (build report.rules report.start).productionReport =
      (build rules start).productionReport := by
    rw [hstart, hrules, productionReport_shown]
  refine ⟨report, hreport, hsame.trans hreport, fun format => ?_, fun tokens => ?_⟩
  · rw [hsame]
  · rw [hstart, hrules]
    exact ⟨recognize_shown rules start tokens,
      (chartReport_eq (Rule.sameUse_shown rules start) tokens).symm⟩

/-- Names that are empty, have a blank, or are spelled as the empty body or an arrow. The body that
is too long was the only one of its left side, which has another number now. -/
example :
    let rules : List Rule := [⟨"->", [["ε", "ε", "ε"]]⟩,
      ⟨"", [["ε", "->"], ["ϵ"], ["a b"], [""]]⟩, ⟨"ε", [["->"], ["a b"], ["->"]]⟩]
    let report : ProductionReport := ⟨"", [⟨"", [["ε", "->"], ["ε"], ["a b"]]⟩,
      ⟨"ε", [["->"], ["a b"]]⟩]⟩
    (build rules "").productionReport = .ok report ∧
      (build report.rules "").productionReport = .ok report ∧
      (build rules "").nonTerminalIndex? "->" = some 0 ∧
      (build report.rules "").nonTerminalIndex? "->" = some 2 := by
  decide +kernel

end Grammar

end ChomskyChart
