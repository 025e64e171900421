import ChomskyChart.Proofs.Format.JsonValues
import ChomskyChart.Proofs.Text.Lines
import ChomskyChart.Report.Sentences
import Mathlib.Data.List.Forall2

/-!
# What a sentence report says

A report is one JSON text, whatever characters the rules and the sentences hold. Whoever decodes it
has the error in the rules or the answer for every sentence, and the sentences are those of the text.
How strings are escaped makes no difference to that.
-/

namespace ChomskyChart

/-- What is reported of a line: the line as it is, its words, and whether they are recognized. -/
def Grammar.Reports (g : Grammar) (line : List Char) (report : Json) : Prop :=
  ∃ words, Text.Spaced line words ∧
    report = .object [("sentence", .string (String.ofList line)),
      ("tokens", .array (words.map fun w => .string (String.ofList w))),
      ("accepted", .bool (g.recognize (words.map String.ofList)))]

namespace Grammar

variable (g : Grammar)

theorem reports_json (line : List Char) :
    g.Reports line (SentenceResult.json
      { sentence := String.ofList line
        tokens := tokenize .words (String.ofList line)
        accepted := g.recognize (tokenize .words (String.ofList line)) }) := by
  have htokens : tokenize .words (String.ofList line) =
      (Text.words line).map String.ofList := by
    rw [tokenize, String.toList_ofList]
  refine ⟨Text.words line, Text.spaced_words line, ?_⟩
  rw [htokens, SentenceResult.json, Json.strings, List.map_map]
  rfl

/-- One report for each line that is not blank, in order. -/
theorem forall₂_reports (sentences : String) :
    List.Forall₂ g.Reports ((Text.lines sentences.toList).filter fun line => !Text.allBlank line)
      ((g.sentenceReport .words (sentenceLines sentences)).results.map (·.json)) := by
  rw [sentenceReport, sentenceLines, List.map_map, List.map_map, List.forall₂_map_right_iff,
    List.forall₂_same]
  exact fun line _ => g.reports_json line

end Grammar

/-- The report of a text of sentences for a text of rules is JSON. It holds the message of the error
in the rules, or one answer for each line of the sentences that is not blank. It holds the same with
any other way to escape strings, as long as the characters are escaped that have to be. -/
theorem decode_reportJson (rules sentences : String) :
    ∃ report, Json.decode (reportJson rules sentences) = some report ∧
      (∀ escape, Json.Escapes escape →
        Json.decode (reportJsonWith escape rules sentences) = some report) ∧
      match Grammar.read rules with
      | .error e => report = .object [("error", .string e.message)]
      | .ok g => ∃ lines reports, Text.Lined sentences.toList lines ∧
        List.Forall₂ g.Reports (lines.filter fun line => !Text.allBlank line) reports ∧
        report = .object [("data", .array reports)] := by
  have hdecode : ∀ escape, Json.Escapes escape →
      Json.decode (reportJsonWith escape rules sentences) = some (reportValue rules sentences) :=
    fun escape h => h.decode_renderWith (reportValue rules sentences)
  refine ⟨reportValue rules sentences, hdecode _ Json.escapes_escape, hdecode, ?report⟩
  case report =>
    rw [reportValue]
    cases Grammar.read rules with
    | error e => rfl
    | ok g => exact ⟨_, _, Text.lined_lines _, g.forall₂_reports sentences, rfl⟩

/-- Every special character as a unit, with capital digits. -/
def Json.escapeAsUnits (text : String) : String :=
  String.ofList (text.toList.flatMap fun c =>
    if Special c then
      ['\\', 'u', '0', '0', (Nat.digitChar (c.toNat / 16)).toUpper,
        (Nat.digitChar (c.toNat % 16)).toUpper]
    else [c])

theorem Json.escapes_escapeAsUnits : Escapes escapeAsUnits := by
  refine escapes_of_written fun c => ?_
  split
  · exact .unit ‹_› (by simp [hexDigits]) (by simp [hexDigits])
  · exact .raw ‹_›

/-- A quote, a tab and U+001F as units, in a text that is read as the usual one is. -/
theorem decode_reportJson_as_units :
    Json.Escapes Json.escapeAsUnits ∧
    reportJsonWith Json.escapeAsUnits "S -> a" "\"\ta\x1f\n" =
      "\x7b\"data\":[\x7b\"sentence\":\"\\u0022\\u0009a\\u001F\"," ++
        "\"tokens\":[\"\\u0022\",\"a\\u001F\"],\"accepted\":false\x7d]\x7d" ∧
    Json.decode (reportJsonWith Json.escapeAsUnits "S -> a" "\"\ta\x1f\n") =
      Json.decode (reportJson "S -> a" "\"\ta\x1f\n") := by
  obtain ⟨report, hreport, hall, -⟩ := decode_reportJson "S -> a" "\"\ta\x1f\n"
  refine ⟨Json.escapes_escapeAsUnits, by decide +kernel, ?_⟩
  rw [hall _ Json.escapes_escapeAsUnits, hreport]

end ChomskyChart
