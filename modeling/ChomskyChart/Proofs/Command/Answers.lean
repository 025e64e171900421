import ChomskyChart.Command.Run
import ChomskyChart.Proofs.Grammar.Productions
import Mathlib.Data.List.Forall2

/-!
# Every command is answered

Reports ask for names by number, and such a question can fail. It does not for a grammar that was
built from rules, and commands report on no others. So whatever the arguments are and whatever can be
read, a command ends with an outcome. Which one, is said by a relation with a case for each way to
end, and what is shown about answers is shown by these cases.
-/

namespace ChomskyChart.Command

theorem mapM_eq_ok_iff {α β : Type} {f : α → Except Fault β} {l : List α} {ys : List β} :
    l.mapM f = .ok ys ↔ List.Forall₂ (fun x y => f x = .ok y) l ys := by
  constructor
  · intro h
    induction l generalizing ys with
    | nil =>
      obtain rfl := Except.ok.inj h
      exact .nil
    | cons x l ih =>
      rw [List.mapM_cons] at h
      cases hx : f x with
      | error fault =>
        rw [hx] at h
        cases h
      | ok y =>
        cases hl : l.mapM f with
        | error fault =>
          rw [hx, hl] at h
          cases h
        | ok ys' =>
          rw [hx, hl] at h
          obtain rfl := Except.ok.inj h
          exact .cons hx (ih hl)
  · intro h
    induction h with
    | nil => rfl
    | cons hx _ ih =>
      rw [List.mapM_cons, hx, ih]
      rfl

/-- The ways in which a request is answered: the demonstration alone, which reads nothing; an error
in the rules, or in the sentences after the warnings; or the texts of all sections. -/
inductive Answered (traced : Bool) (inputs : Inputs) (r : Request) : Outcome → Prop where
  | demo {text : String} (hdemo : r.isDemo = true)
    (htext : samplesText r.options.format = .ok text) :
    Answered traced inputs r ⟨0, text, if traced then samplesTrace else ""⟩
  | noRules {f : Failure} (hdemo : r.isDemo = false) (hg : readGrammar inputs r = .error f) :
    Answered traced inputs r (failed [] f)
  | noSentences {g : Grammar} {f : Failure} (hdemo : r.isDemo = false)
    (hg : readGrammar inputs r = .ok g) (hsentences : readSentences inputs r = .error f) :
    Answered traced inputs r (failed g.warnings f)
  | sections {g : Grammar} {sentences texts : List String} (hdemo : r.isDemo = false)
    (hg : readGrammar inputs r = .ok g) (hsentences : readSentences inputs r = .ok sentences)
    (htexts : List.Forall₂ (fun s text => s.text g r.options sentences = .ok text)
      r.sections texts) :
    Answered traced inputs r ⟨0, String.join texts, warningLines g.warnings ++
      if traced then String.join (r.sections.map (·.trace g r.options sentences)) else ""⟩

section Answered

variable {traced : Bool} {inputs : Inputs} {r : Request} {outcome : Outcome}

theorem Answered.answer_eq (h : Answered traced inputs r outcome) :
    answer traced inputs r = .ok outcome := by
  unfold answer
  cases h with
  | demo hdemo htext =>
    rw [if_pos hdemo, htext]
    rfl
  | noRules hdemo hg =>
    rw [hdemo, if_neg Bool.false_ne_true, hg]
    rfl
  | noSentences hdemo hg hsentences =>
    rw [hdemo, if_neg Bool.false_ne_true, hg]
    simp only
    rw [hsentences]
    rfl
  | sections hdemo hg hsentences htexts =>
    rw [hdemo, if_neg Bool.false_ne_true, hg]
    simp only
    rw [hsentences]
    simp only
    rw [mapM_eq_ok_iff.mpr htexts]
    rfl

theorem answered_of_answer (h : answer traced inputs r = .ok outcome) :
    Answered traced inputs r outcome := by
  unfold answer at h
  cases hdemo : r.isDemo with
  | true =>
    rw [if_pos hdemo] at h
    cases htext : samplesText r.options.format with
    | error fault =>
      rw [htext] at h
      cases h
    | ok text =>
      rw [htext] at h
      obtain rfl := Except.ok.inj h
      exact .demo hdemo htext
  | false =>
    rw [hdemo, if_neg Bool.false_ne_true] at h
    cases hg : readGrammar inputs r with
    | error f =>
      rw [hg] at h
      obtain rfl := Except.ok.inj h
      exact .noRules hdemo hg
    | ok g =>
      rw [hg] at h
      simp only at h
      cases hsentences : readSentences inputs r with
      | error f =>
        rw [hsentences] at h
        obtain rfl := Except.ok.inj h
        exact .noSentences hdemo hg hsentences
      | ok sentences =>
        rw [hsentences] at h
        simp only at h
        cases htexts : r.sections.mapM (·.text g r.options sentences) with
        | error fault =>
          rw [htexts] at h
          cases h
        | ok texts =>
          rw [htexts] at h
          obtain rfl := Except.ok.inj h
          exact .sections hdemo hg hsentences (mapM_eq_ok_iff.mp htexts)

theorem answer_eq_ok_iff :
    answer traced inputs r = .ok outcome ↔ Answered traced inputs r outcome :=
  ⟨answered_of_answer, Answered.answer_eq⟩

end Answered

theorem exists_samplesText (format : Format) : ∃ text, samplesText format = .ok text := by
  have hsample : ∀ s ∈ Sample.all, ∃ text, sampleText format s = .ok text := by
    intro s _
    unfold sampleText Sample.grammar
    rw [Grammar.productionReport_build]
    exact ⟨_, rfl⟩
  obtain ⟨texts, htexts⟩ := Grammar.exists_mapM_ok hsample
  unfold samplesText
  rw [htexts]
  exact ⟨_, rfl⟩

variable {rules : List Rule} {start : String} {o : Options} {sentences : List String}

theorem exists_sectionText (s : Section) :
    ∃ text, s.text (Grammar.build rules start) o sentences = .ok text := by
  cases s with
  | productions =>
    unfold Section.text
    simp only
    rw [Grammar.productionReport_build]
    exact ⟨_, rfl⟩
  | recognition => exact ⟨_, rfl⟩
  | charts =>
    have hreport : ∀ s ∈ sentences, ∃ report,
        (Grammar.build rules start).chartReport (tokenize o.mode s) = .ok report := fun s _ =>
      ⟨_, Grammar.chartReport_build⟩
    obtain ⟨reports, hreports⟩ := Grammar.exists_mapM_ok hreport
    unfold Section.text
    simp only
    rw [hreports]
    exact ⟨_, rfl⟩
  | demo => exact exists_samplesText o.format

theorem exists_build_of_readGrammar {inputs : Inputs} {r : Request} {g : Grammar}
    (h : readGrammar inputs r = .ok g) : ∃ rules start, g = Grammar.build rules start := by
  unfold readGrammar at h
  cases htext : ruleText inputs r.path with
  | error f =>
    rw [htext] at h
    cases h
  | ok text =>
    rw [htext] at h
    change (Grammar.readFrom text r.options.start).mapError Failure.badRules = .ok g at h
    cases hread : Grammar.readFrom text r.options.start with
    | error e =>
      rw [hread] at h
      cases h
    | ok g' =>
      rw [hread] at h
      obtain rfl : g' = g := Except.ok.inj h
      obtain ⟨rules, start, -, hg⟩ := Grammar.exists_build_of_readFrom hread
      exact ⟨rules, start, hg⟩

theorem exists_answer (traced : Bool) (inputs : Inputs) (r : Request) :
    ∃ outcome, answer traced inputs r = .ok outcome := by
  simp only [answer_eq_ok_iff]
  cases hdemo : r.isDemo with
  | true =>
    obtain ⟨text, htext⟩ := exists_samplesText r.options.format
    exact ⟨_, .demo hdemo htext⟩
  | false =>
    cases hg : readGrammar inputs r with
    | error f => exact ⟨_, .noRules hdemo hg⟩
    | ok g =>
      cases hsentences : readSentences inputs r with
      | error f => exact ⟨_, .noSentences hdemo hg hsentences⟩
      | ok sentences =>
        obtain ⟨rules, start, rfl⟩ := exists_build_of_readGrammar hg
        have htext : ∀ s ∈ r.sections, ∃ text,
            s.text (Grammar.build rules start) r.options sentences = .ok text := fun s _ =>
          exists_sectionText s
        obtain ⟨texts, htexts⟩ := Grammar.exists_mapM_ok htext
        exact ⟨_, .sections hdemo hg hsentences (mapM_eq_ok_iff.mp htexts)⟩

end ChomskyChart.Command
