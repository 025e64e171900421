import ChomskyChart.Proofs.Command.Answers
import ChomskyChart.Proofs.Command.Arguments
import ChomskyChart.Proofs.Command.Sources

/-!
# Several sections at once

What has to be read is decided for all sections together. So it is not obvious that the answer for
several sections is made of the answers for each of them. It is, with one exception: the
demonstration alone reads no rules, but as soon as it is asked for more than once rules are read, and
without them there is no answer.
-/

namespace ChomskyChart.Command

variable {traced : Bool} {inputs : Inputs} {sections : List Section} {settings : List Setting}
  {path? : Option String} {s : Section}

theorem join_singleton (text : String) : String.join [text] = text :=
  String.empty_append

theorem isDemo_given_iff : (Request.given sections settings path?).isDemo = true ↔
    sections = [.demo] :=
  beq_iff_eq

/-- A section that needs sentences gets the same ones with any other sections. -/
theorem readSentences_given (hs : s ∈ sections) (hneeds : s.needsSentences = true) :
    readSentences inputs (.given sections settings path?) =
      readSentences inputs (.given [s] settings path?) := by
  have hlacks : (Request.given sections settings path?).lacksSentences =
      (Request.given [s] settings path?).lacksSentences := by
    have hmany : sections.any (·.needsSentences) = true := List.any_eq_true.mpr ⟨s, hs, hneeds⟩
    have hone : [s].any (·.needsSentences) = true := by rw [List.any_cons, hneeds, Bool.true_or]
    unfold Request.lacksSentences Request.given
    simp only [hmany, hone]
  unfold readSentences
  rw [hlacks]
  rfl

/-- Sentences can be read for some sections if they can for each of them. -/
theorem exists_readSentences (h : ∀ s ∈ sections, s.needsSentences = true →
      ∃ sentences, readSentences inputs (.given [s] settings path?) = .ok sentences) :
    ∃ sentences, readSentences inputs (.given sections settings path?) = .ok sentences := by
  by_cases hany : sections.any (·.needsSentences) = true
  · obtain ⟨s, hs, hneeds⟩ := List.any_eq_true.mp hany
    rw [readSentences_given hs hneeds]
    exact h s hs hneeds
  · have hlacks : (Request.given sections settings path?).lacksSentences = false := by
      rw [Request.lacksSentences]
      change (sections.any (·.needsSentences) && _) = false
      rw [Bool.eq_false_iff.mpr hany, Bool.false_and]
    exact ⟨_, readSentences_of_given hlacks⟩

theorem text_congr (h : s.needsSentences = false) (g : Grammar) (o : Options)
    (sentences sentences' : List String) : s.text g o sentences = s.text g o sentences' := by
  cases s with
  | productions => rfl
  | demo => rfl
  | recognition => cases h
  | charts => cases h

/-- What is printed for one section alone is its text. The demonstration has the same text for every
grammar, and only a section that needs sentences depends on them. -/
theorem text_of_answered {outcome : Outcome} {g : Grammar} {sentences : List String}
    (h : Answered traced inputs (.given [s] settings path?) outcome) (hexit : outcome.exit = 0)
    (hg : readGrammar inputs (.given [s] settings path?) = .ok g)
    (hsentences : s.needsSentences = true →
      readSentences inputs (.given [s] settings path?) = .ok sentences) :
    s.text g (.ofSettings settings) sentences = .ok outcome.stdout := by
  cases h with
  | demo hdemo htext =>
    obtain rfl : s = .demo := List.singleton_inj.mp (isDemo_given_iff.mp hdemo)
    exact htext
  | noRules => cases hexit
  | noSentences => cases hexit
  | @sections g' sentences' texts hdemo hg' hsentences' htexts =>
    obtain rfl := Except.ok.inj (hg'.symm.trans hg)
    have htext : s.text g' (.ofSettings settings) sentences =
        s.text g' (.ofSettings settings) sentences' := by
      cases hneeds : s.needsSentences with
      | true => rw [Except.ok.inj ((hsentences hneeds).symm.trans hsentences')]
      | false => exact text_congr hneeds ..
    obtain ⟨text, _, hs, hnil, rfl⟩ := List.forall₂_cons_left_iff.mp htexts
    obtain rfl := List.forall₂_nil_left_iff.mp hnil
    rw [htext, join_singleton]
    exact hs

/-- A section other than the demonstration has read rules, and the sentences if it needs any. -/
theorem exists_read_of_answered {outcome : Outcome}
    (h : Answered traced inputs (.given [s] settings path?) outcome) (hexit : outcome.exit = 0)
    (hs : s ≠ .demo) :
    ∃ g sentences, readGrammar inputs (.given [s] settings path?) = .ok g ∧
      readSentences inputs (.given [s] settings path?) = .ok sentences := by
  cases h with
  | demo hdemo => exact absurd (List.singleton_inj.mp (isDemo_given_iff.mp hdemo)) hs
  | noRules => cases hexit
  | noSentences => cases hexit
  | sections _ hg hsentences _ => exact ⟨_, _, hg, hsentences⟩

/-- Sections that are answered alone are answered together, if rules can be read. -/
theorem exists_answered {alone : Section → Outcome}
    (halone : ∀ s ∈ sections, Answered traced inputs (.given [s] settings path?) (alone s) ∧
      (alone s).exit = 0)
    (hdemo : sections ≠ [.demo]) {g : Grammar}
    (hg : readGrammar inputs (.given sections settings path?) = .ok g) :
    ∃ outcome, Answered traced inputs (.given sections settings path?) outcome ∧
      outcome.exit = 0 ∧
      outcome.stdout = String.join (sections.map fun s => (alone s).stdout) := by
  have hread : ∀ s ∈ sections, s.needsSentences = true →
      ∃ sentences, readSentences inputs (.given [s] settings path?) = .ok sentences := by
    intro s hs hneeds
    have hother : s ≠ .demo := by
      rintro rfl
      cases hneeds
    obtain ⟨_, sentences, -, hsentences⟩ :=
      exists_read_of_answered (halone s hs).1 (halone s hs).2 hother
    exact ⟨sentences, hsentences⟩
  obtain ⟨sentences, hsentences⟩ := exists_readSentences hread
  have htext : ∀ s ∈ sections, s.text g (.ofSettings settings) sentences = .ok (alone s).stdout := by
    intro s hs
    refine text_of_answered (halone s hs).1 (halone s hs).2 hg fun hneeds => ?_
    rw [← readSentences_given hs hneeds]
    exact hsentences
  exact ⟨_, .sections (Bool.eq_false_iff.mpr (mt isDemo_given_iff.mp hdemo)) hg hsentences
    (List.forall₂_map_right_iff.mpr (List.forall₂_same.mpr htext)), rfl, rfl⟩

/-- Several sections are printed one after another, each as it is when it is asked for alone; unless
the demonstration is asked for more than once, nothing else is, and there are no rules to read. Then
the missing rules are an error. -/
theorem run_sections (traced : Bool) (inputs : Inputs) (hne : sections ≠ [])
    (settings : List Setting) (hp : ∀ path ∈ path?, IsPath path) {alone : Section → Outcome}
    (halone : ∀ s ∈ sections, run traced inputs (commandLine [s] settings path?) = .ok (alone s) ∧
      (alone s).exit = 0) :
    let rules := readGrammar inputs (.given sections settings path?)
    ((∃ outcome, run traced inputs (commandLine sections settings path?) = .ok outcome ∧
        outcome.exit = 0 ∧
        outcome.stdout = String.join (sections.map fun s => (alone s).stdout)) ↔
      sections = [.demo] ∨ (∃ s ∈ sections, s ≠ .demo) ∨ ∃ g, rules = .ok g) ∧
    ∀ f, sections ≠ [.demo] → (∀ s ∈ sections, s = .demo) → rules = .error f →
      run traced inputs (commandLine sections settings path?) = .ok (failed [] f) := by
  intro rules
  have hsingle : ∀ s, run traced inputs (commandLine [s] settings path?) =
      answer traced inputs (.given [s] settings path?) := fun s =>
    run_commandLine traced inputs (List.cons_ne_nil s []) settings path? hp
  simp only [hsingle, answer_eq_ok_iff] at halone
  simp only [run_commandLine traced inputs hne settings path? hp, answer_eq_ok_iff]
  refine ⟨⟨?only, ?given⟩, fun f hdemo _ hrules =>
    .noRules (Bool.eq_false_iff.mpr (mt isDemo_given_iff.mp hdemo)) hrules⟩
  case only =>
    rintro ⟨outcome, hanswered, hexit, -⟩
    cases hanswered with
    | demo hdemo => exact .inl (isDemo_given_iff.mp hdemo)
    | noRules => cases hexit
    | noSentences => cases hexit
    | sections _ hg => exact .inr (.inr ⟨_, hg⟩)
  case given =>
    intro h
    by_cases hdemo : sections = [.demo]
    · subst hdemo
      obtain ⟨hanswered, hexit⟩ := halone .demo (List.mem_singleton_self _)
      exact ⟨_, hanswered, hexit, (join_singleton _).symm⟩
    · obtain hdemo' | ⟨s, hs, hother⟩ | ⟨g, hg⟩ := h
      · exact absurd hdemo' hdemo
      · obtain ⟨g, _, hg, -⟩ :=
          exists_read_of_answered (halone s hs).1 (halone s hs).2 hother
        exact exists_answered halone hdemo hg
      · exact exists_answered halone hdemo hg

/-- Productions and recognition with rules from a file and sentences from standard input. -/
theorem run_sections_two_words :
    let inputs : Inputs :=
      ⟨"a\n\nab\n".toUTF8, fun path => if path = "g" then .ok "S -> a".toUTF8 else .error .notFound⟩
    ∃ outcome, run false inputs ["prod", "recognize", "-c", "g"] = .ok outcome ∧
      outcome.exit = 0 ∧ outcome.stdout = "S -> a\n" ++ "a -> true\nab -> false\n" := by
  intro inputs
  have hpath : ∀ path ∈ some "g", IsPath path := by
    intro path hmem
    obtain rfl := Option.some.inj hmem
    exact ⟨by intro s; cases s <;> decide, by decide⟩
  let alone : Section → Outcome
    | .productions => ⟨0, "S -> a\n", ""⟩
    | _ => ⟨0, "a -> true\nab -> false\n", ""⟩
  have halone : ∀ s ∈ [Section.productions, .recognition],
      run false inputs (commandLine [s] [.characters] (some "g")) = .ok (alone s) ∧
        (alone s).exit = 0 := by
    rw [List.forall_mem_cons, List.forall_mem_singleton]
    decide +kernel
  obtain ⟨hanswered, -⟩ := run_sections false inputs (List.cons_ne_nil _ _) [.characters] hpath halone
  obtain ⟨outcome, hrun, hexit, hstdout⟩ :=
    hanswered.mpr (.inr (.inl ⟨.productions, List.mem_cons_self, nofun⟩))
  exact ⟨outcome, hrun, hexit, hstdout.trans (by decide)⟩

/-- The demonstration needs no rules, unless it is asked for twice. -/
theorem run_demo_twice :
    let inputs : Inputs := ⟨.empty, fun _ => .error .notFound⟩
    (∃ text, run false inputs ["demo"] = .ok ⟨0, text, ""⟩) ∧
      run false inputs ["demo", "demo"] =
        .ok ⟨1, "", "error: grammar has no rules and no start symbol\n"⟩ := by
  intro inputs
  constructor
  · obtain ⟨text, htext⟩ := exists_samplesText .plain
    have hanswered : Answered false inputs (.given [.demo] [] none) ⟨0, text, ""⟩ :=
      .demo rfl htext
    exact ⟨text, hanswered.answer_eq⟩
  · decide +kernel

end ChomskyChart.Command
