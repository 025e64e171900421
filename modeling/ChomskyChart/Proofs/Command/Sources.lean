import ChomskyChart.Proofs.Command.Answers
import ChomskyChart.Proofs.Command.Arguments
import ChomskyChart.Proofs.Rule.Reading
import ChomskyChart.Proofs.Text.Slices

/-!
# Rules from a file and from standard input

Rules from a file are read as they are. Rules from standard input are cut into lines first, and the
lines are written under each other again, so that line endings and a last newline are lost before
the rules are read. It makes no difference to the rules, to the number of a line with a flaw, or to
anything that a command writes.
-/

namespace ChomskyChart

/-- Lines written again are read as the text they are the lines of. -/
theorem Rule.readAll_unlines (cs : List Char) :
    readAll (String.ofList (Text.unlines (Text.lines cs))) = readAll (String.ofList cs) := by
  have hended := Text.ended_unlines (Text.lined_lines cs).newline_not_mem
  unfold readAll
  rw [String.toList_ofList, String.toList_ofList]
  exact readLines_ended hended

theorem Grammar.readFrom_congr {text text' : String} (h : Rule.readAll text = Rule.readAll text')
    (start? : Option String) : readFrom text start? = readFrom text' start? := by
  cases start? with
  | none =>
    change read text = read text'
    unfold read
    rw [h]
  | some start =>
    change readWithStart text start = readWithStart text' start
    unfold readWithStart
    rw [h]

namespace Command

variable {named piped : Inputs} {sections : List Section} {settings : List Setting}
  {path text : String}

theorem decode_toUTF8 (text : String) : decode text.toUTF8 = .ok text := by
  unfold decode
  rw [Text.fromUTF8?_toUTF8]

theorem fileText_eq (h : named.file path = .ok text.toUTF8) : named.fileText path = .ok text := by
  unfold Inputs.fileText
  rw [h]
  exact decode_toUTF8 text

/-- Standard input as rules: another text, from which the same is read. -/
theorem exists_stdinRules (h : piped.stdin = text.toUTF8) :
    ∃ joined, piped.stdinRules = .ok joined ∧
      ∀ start?, Grammar.readFrom joined start? = Grammar.readFrom text start? := by
  refine ⟨String.ofList (Text.unlines (Text.lines text.toList)), ?_, ?_⟩
  · unfold Inputs.stdinRules Inputs.stdinText
    rw [h, decode_toUTF8]
    rfl
  · apply Grammar.readFrom_congr
    rw [Rule.readAll_unlines, String.ofList_toList]

theorem readGrammar_file {r : Request} (hr : r.path = some path)
    (h : named.file path = .ok text.toUTF8) :
    readGrammar named r = (Grammar.readFrom text r.options.start).mapError .badRules := by
  unfold readGrammar
  rw [hr, ruleText, fileText_eq h]
  rfl

theorem readGrammar_stdin {r : Request} (hr : r.path = none) (h : piped.stdin = text.toUTF8) :
    readGrammar piped r = (Grammar.readFrom text r.options.start).mapError .badRules := by
  obtain ⟨joined, hjoined, hread⟩ := exists_stdinRules h
  unfold readGrammar
  rw [hr, ruleText, hjoined, ← hread]
  rfl

theorem run_commandLine (traced : Bool) (inputs : Inputs) (hne : sections ≠ [])
    (settings : List Setting) (path? : Option String) (hp : ∀ path ∈ path?, IsPath path) :
    run traced inputs (commandLine sections settings path?) =
      answer traced inputs (.given sections settings path?) := by
  unfold run
  rw [ofArguments_commandLine hne settings path? hp]

/-- An answer depends on the inputs through the grammar and the sentences only, and on the path not
at all. -/
theorem answer_congr (traced : Bool) {inputs inputs' : Inputs} {r r' : Request}
    (hg : readGrammar inputs r = readGrammar inputs' r')
    (hsentences : readSentences inputs r = readSentences inputs' r')
    (hs : r.sections = r'.sections) (ho : r.options = r'.options) :
    answer traced inputs r = answer traced inputs' r' := by
  have hdemo : r.isDemo = r'.isDemo := by
    unfold Request.isDemo
    rw [hs]
  unfold answer
  rw [hdemo, hg, hsentences, hs, ho]

theorem readSentences_of_given {inputs : Inputs} {r : Request} (h : r.lacksSentences = false) :
    readSentences inputs r = .ok r.options.sentences := by
  unfold readSentences
  rw [h]
  rfl

/-- Rules from a file and the same rules from standard input are answered alike, however their lines
end, if all sentences are given as arguments or none is needed. The grammar is the same, with its
warnings, and so is the error in the rules, with its line. -/
theorem run_stdin_eq_run_file (traced : Bool) (hne : sections ≠ [])
    (hsentences : (∃ s, .sentence s ∈ settings) ∨ .recognition ∉ sections ∧ .charts ∉ sections)
    (hpath : IsPath path) (hfile : named.file path = .ok text.toUTF8)
    (hstdin : piped.stdin = text.toUTF8) :
    (∃ outcome, run traced named (commandLine sections settings (some path)) = .ok outcome ∧
      run traced piped (commandLine sections settings none) = .ok outcome) ∧
    ∃ joined, named.fileText path = .ok text ∧ piped.stdinRules = .ok joined ∧
      ∀ start?, Grammar.readFrom joined start? = Grammar.readFrom text start? := by
  obtain ⟨joined, hjoined, hread⟩ := exists_stdinRules hstdin
  refine ⟨?_, joined, fileText_eq hfile, hjoined, hread⟩
  have hgrammar : readGrammar named (.given sections settings (some path)) =
      readGrammar piped (.given sections settings none) := by
    rw [readGrammar_file rfl hfile, readGrammar_stdin rfl hstdin]
    rfl
  have hgiven : readSentences named (.given sections settings (some path)) =
      readSentences piped (.given sections settings none) := by
    rw [readSentences_of_given (lacksSentences_given _ hsentences),
      readSentences_of_given (lacksSentences_given _ hsentences)]
    rfl
  have hanswer := answer_congr traced hgrammar hgiven rfl rfl
  have hpaths : ∀ p ∈ some path, IsPath p := fun p hp => Option.some.inj hp ▸ hpath
  have hnone : ∀ p ∈ (none : Option String), IsPath p := fun p hp => by cases hp
  obtain ⟨outcome, houtcome⟩ := exists_answer traced named (.given sections settings (some path))
  refine ⟨outcome, ?_, ?_⟩
  · rw [run_commandLine traced named hne settings _ hpaths, houtcome]
  · rw [run_commandLine traced piped hne settings _ hnone, ← hanswer, houtcome]

/-- Nothing to read but one file. -/
def Inputs.withFile (path text : String) : Inputs where
  stdin := .empty
  file p := if p = path then .ok text.toUTF8 else .error .notFound

/-- Nothing to read but standard input. -/
def Inputs.withStdin (text : String) : Inputs where
  stdin := text.toUTF8
  file _ := .error .notFound

theorem file_withFile (path text : String) :
    (Inputs.withFile path text).file path = .ok text.toUTF8 := if_pos rfl

theorem stdin_withStdin (text : String) : (Inputs.withStdin text).stdin = text.toUTF8 := rfl

/-- Rules with both line endings, a blank line, a body that is too long, and a return at the end; and
rules with an error after a blank line. A start symbol may look like a section word. -/
theorem run_stdin_eq_run_file_two_texts :
    (∃ outcome, outcome.stderr = "warning: S -> a b c: body has 3 symbols, ignored\n" ∧
      run false (.withFile "g.txt" "S -> A B | a b c\r\n\n| a\r\nA -> a\nB -> b\r")
        ["recognize", "-s", "a b", "-c", "g.txt"] = .ok outcome ∧
      run false (.withStdin "S -> A B | a b c\r\n\n| a\r\nA -> a\nB -> b\r")
        ["recognize", "-s", "a b", "-c"] = .ok outcome) ∧
    ∃ outcome, outcome.stderr = "error: Line 3: too many \"->\"\n" ∧
      run true (.withFile "g.txt" "S -> a\r\n\n-> b -> c\r") ["prod", "-S", "table", "g.txt"] =
        .ok outcome ∧
      run true (.withStdin "S -> a\r\n\n-> b -> c\r") ["prod", "-S", "table"] = .ok outcome := by
  have hpath : IsPath "g.txt" := ⟨by intro s; cases s <;> decide, by decide⟩
  constructor
  · have hgiven : ∃ s, Setting.sentence s ∈ [.sentence "a b", .characters] :=
      ⟨"a b", List.mem_cons_self⟩
    obtain ⟨⟨outcome, hfile, hstdin⟩, -⟩ := run_stdin_eq_run_file false
      (List.cons_ne_nil Section.recognition []) (.inl hgiven) hpath (file_withFile "g.txt"
        "S -> A B | a b c\r\n\n| a\r\nA -> a\nB -> b\r") (stdin_withStdin _)
    obtain rfl : outcome =
        ⟨0, "a b -> true\n", "warning: S -> a b c: body has 3 symbols, ignored\n"⟩ :=
      Except.ok.inj (hstdin.symm.trans (by decide +kernel))
    exact ⟨_, rfl, hfile, hstdin⟩
  · have hnone : (∃ s, Setting.sentence s ∈ [.start "table"]) ∨
        Section.recognition ∉ [Section.productions] ∧ Section.charts ∉ [Section.productions] :=
      .inr (by decide)
    obtain ⟨⟨outcome, hfile, hstdin⟩, -⟩ := run_stdin_eq_run_file true
      (List.cons_ne_nil Section.productions []) hnone hpath
      (file_withFile "g.txt" "S -> a\r\n\n-> b -> c\r") (stdin_withStdin _)
    obtain rfl : outcome = ⟨1, "", "error: Line 3: too many \"->\"\n"⟩ :=
      Except.ok.inj (hstdin.symm.trans (by decide +kernel))
    exact ⟨_, rfl, hfile, hstdin⟩

end Command

end ChomskyChart
