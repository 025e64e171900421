import ChomskyChart.Proofs.Format.ControlWords
import ChomskyChart.Report.Productions

/-!
# Production lines in LaTeX

A production line is made of escaped names, of a few commands of its own, and of commands for the
epsilons of the whole line. All its control words are commands of productions if and only if no name
has a letter directly behind an epsilon. Of the names that do, the strange words are known exactly.
-/

namespace ChomskyChart

namespace ProductionLine

open Latex (EpsilonsApart Shows Silent Spells commands epsilonChar fusedWords strange words)

variable (p : ProductionLine)

/-- The names that a line shows. A line without bodies is not shown at all. -/
def shownNames : List String :=
  if p.rights.isEmpty then [] else p.left :: p.rights.flatten

theorem toList_replaceEpsilon (text : String) :
    (Latex.replaceEpsilon text).toList = text.toList.flatMap epsilonChar := by
  rw [Latex.replaceEpsilon, String.toList_ofList]
  rfl

section

variable {escape : String → String} (h : Spells escape)

include h

theorem shows_body (right : List String) :
    Shows (right.flatMap (fusedWords ·.toList))
      ((" \\ ".intercalate (right.map escape)).toList.flatMap epsilonChar) := by
  have hsep : Silent " \\ ".toList := fun _ => rfl
  rw [String.toList_intercalate, Text.flatMap_intercalate, List.map_map, List.map_map]
  exact Latex.shows_intercalate hsep fun name _ => h.shows name

theorem shows_bodies (rights : List (List String)) :
    Shows (rights.flatten.flatMap (fusedWords ·.toList))
      ((" \\mid ".intercalate (rights.map fun right =>
        " \\ ".intercalate (right.map escape))).toList.flatMap epsilonChar) := by
  have hsep : Silent " \\mid ".toList := fun _ => rfl
  rw [String.toList_intercalate, Text.flatMap_intercalate, List.map_map, List.map_map,
    List.flatten_eq_flatMap, List.flatMap_assoc]
  exact Latex.shows_intercalate hsep fun right _ => shows_body h right

/-- By the parts of a line: its names show the words that are fused in them, and what stands between
them shows nothing and keeps them apart. -/
theorem strange_words_latexWith (inTable : Bool) :
    strange (words (p.latexWith escape inTable)) =
      p.shownNames.flatMap (fusedWords ·.toList) := by
  have hline : ∀ sep, Silent (' ' :: sep) →
      Shows ((p.left :: p.rights.flatten).flatMap (fusedWords ·.toList))
        ((escape p.left).toList.flatMap epsilonChar ++ (' ' :: sep ++
          (" \\mid ".intercalate (p.rights.map fun right =>
            " \\ ".intercalate (right.map escape))).toList.flatMap epsilonChar)) :=
    fun _ hsep => (h.shows p.left).separated hsep (shows_bodies h p.rights)
  rw [latexWith, shownNames, words]
  split
  · rfl
  · rw [toList_replaceEpsilon, String.toList_append, String.toList_append, List.flatMap_append,
      List.flatMap_append, List.append_assoc]
    cases inTable with
    | true => exact (hline "& \\rightarrow &".toList fun _ => rfl).strange_eq
    | false => exact (hline "\\rightarrow ".toList fun _ => rfl).strange_eq

end

/-- All control words of a line are commands of productions if and only if no name that is shown has a
letter directly behind an epsilon. In any case the strange words are made of those epsilons and the
letters behind them. It does not matter how the marked characters are kept apart. -/
theorem words_latex (inTable : Bool) :
    ((∀ w ∈ words (p.latex inTable), w ∈ commands) ↔
      ∀ name ∈ p.shownNames, EpsilonsApart name) ∧
    ∀ escape, Spells escape →
      (words (p.latexWith escape inTable)).filter (· ∉ commands) =
        p.shownNames.flatMap (fusedWords ·.toList) ∧
      ((∀ w ∈ words (p.latexWith escape inTable), w ∈ commands) ↔
        ∀ name ∈ p.shownNames, EpsilonsApart name) := by
  have hall : ∀ escape, Spells escape →
      ((∀ w ∈ words (p.latexWith escape inTable), w ∈ commands) ↔
        ∀ name ∈ p.shownNames, EpsilonsApart name) := by
    intro escape h
    rw [← Latex.strange_eq_nil_iff, p.strange_words_latexWith h,
      Latex.flatMap_fusedWords_eq_nil_iff]
  exact ⟨hall _ Latex.spells_escape,
    fun escape h => ⟨p.strange_words_latexWith h inTable, hall escape h⟩⟩

/-- Of three epsilons one has a letter behind it, the others a digit and the end of a name. -/
theorem words_latex_of_epsilons :
    let p : ProductionLine := ⟨"Sε", [["ε1", "<b"], ["aεbc~"]]⟩
    Spells Latex.escape ∧
      (words (p.latexWith Latex.escape true)).filter (· ∉ commands) = ["epsilonbc"] ∧
      ¬ ∀ w ∈ words (p.latexWith Latex.escape true), w ∈ commands := by
  intro p
  obtain ⟨-, hall⟩ := words_latex p true
  obtain ⟨hstrange, hknown⟩ := hall Latex.escape Latex.spells_escape
  refine ⟨Latex.spells_escape, hstrange.trans (by decide), fun h => ?_⟩
  exact hknown.mp h "aεbc~" (by decide) 'b' (by decide) ⟨['a'], ['c', '~'], rfl⟩

/-- The letter is fused with the command for the epsilon before it. -/
theorem latex_epsilon_before_letter :
    let p : ProductionLine := ⟨"A", [["εa"]]⟩
    p.latex false = "A \\rightarrow \\epsilona" ∧
      ∃ w ∈ words (p.latex false), w ∉ commands := by
  decide

end ProductionLine

end ChomskyChart
