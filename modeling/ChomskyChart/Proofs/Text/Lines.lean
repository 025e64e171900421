import ChomskyChart.Proofs.Text.Words
import ChomskyChart.Text.Lines

/-!
# Texts cut into pieces and into lines

A text is cut at every occurrence of a character, and no piece holds it. Lines are the pieces
between newlines, less one return each, and less an empty last piece.

Two relations describe texts of lines. `Lined` is the cut itself: every text has exactly one list of
lines. `Ended` is how lines may be written: with either ending each, the last with none if one likes.
So a line that is written may hold a return at its end which the cut takes for a part of the ending.
-/

namespace ChomskyChart.Text

variable {l cs : List Char} {ls : List (List Char)} {sep : Char}

/-! ### Pieces between occurrences of a character -/

theorem not_mem_of_mem_splitOn (h : l ∈ cs.splitOn sep) : sep ∉ l := by
  induction cs generalizing l with
  | nil =>
    rw [List.splitOn_nil, List.mem_singleton] at h
    rw [h]
    exact List.not_mem_nil
  | cons c cs ih =>
    rw [List.splitOn_cons_eq_if_modifyHead] at h
    by_cases hc : (c == sep) = true
    · rw [if_pos hc] at h
      rcases List.mem_cons.mp h with rfl | h
      · exact List.not_mem_nil
      · exact ih h
    · rw [if_neg hc] at h
      obtain ⟨first, rest, hsplit⟩ := List.exists_cons_of_ne_nil (List.splitOn_ne_nil sep cs)
      rw [hsplit, List.modifyHead_cons] at h
      rcases List.mem_cons.mp h with rfl | h
      · have hfirst : sep ∉ first := ih (hsplit ▸ List.mem_cons_self)
        intro hmem
        rcases List.mem_cons.mp hmem with rfl | hmem
        · exact hc (beq_self_eq_true sep)
        · exact hfirst hmem
      · exact ih (hsplit ▸ List.mem_cons_of_mem first h)

theorem infix_intercalate_of_mem {between : List Char} (h : l ∈ ls) :
    l <:+: between.intercalate ls := by
  induction ls with
  | nil => exact absurd h List.not_mem_nil
  | cons first ls ih =>
    cases ls with
    | nil =>
      have hone : between.intercalate [first] = l := by
        rw [List.intercalate_singleton, List.mem_singleton.mp h]
      exact hone ▸ List.infix_refl l
    | cons next ls =>
      rw [List.intercalate_cons_cons, List.append_assoc]
      rcases List.mem_cons.mp h with rfl | h
      · exact (List.prefix_append l _).isInfix
      · rw [← List.append_assoc]
        exact (ih h).trans (List.suffix_append _ _).isInfix

theorem not_mem_intercalate {between : List Char} {c : Char} (hb : c ∉ between)
    (h : ∀ l ∈ ls, c ∉ l) : c ∉ between.intercalate ls := by
  induction ls with
  | nil => exact List.not_mem_nil
  | cons first ls ih =>
    obtain ⟨hfirst, hrest⟩ := List.forall_mem_cons.mp h
    by_cases hls : ls = []
    · rwa [hls, List.intercalate_singleton]
    · rw [List.intercalate_cons_of_ne_nil hls, List.mem_append, List.mem_append, not_or, not_or]
      exact ⟨⟨hfirst, hb⟩, ih hrest⟩

theorem flatMap_intercalate (f : Char → List Char) (between : List Char) (ls : List (List Char)) :
    (between.intercalate ls).flatMap f =
      (between.flatMap f).intercalate (ls.map (·.flatMap f)) := by
  induction ls with
  | nil => rfl
  | cons first ls ih =>
    by_cases hls : ls = []
    · rw [hls, List.map_singleton, List.intercalate_singleton, List.intercalate_singleton]
    · rw [List.intercalate_cons_of_ne_nil hls, List.flatMap_append, List.flatMap_append, ih,
        List.map_cons, List.intercalate_cons_of_ne_nil (mt List.map_eq_nil_iff.mp hls)]

theorem infix_of_mem_splitOn (h : l ∈ cs.splitOn sep) : l <:+: cs := by
  have hpiece : l <:+: [sep].intercalate (cs.splitOn sep) := infix_intercalate_of_mem h
  rwa [List.intercalate_splitOn] at hpiece

/-- What is written behind a text belongs to its last piece. -/
theorem exists_splitOn_append (sep : Char) (cs : List Char) :
    ∃ init last, cs.splitOn sep = init ++ [last] ∧
      ∀ q : List Char, sep ∉ q → (cs ++ q).splitOn sep = init ++ [last ++ q] := by
  induction cs with
  | nil =>
    refine ⟨[], [], List.splitOn_nil sep, fun q hq => ?_⟩
    rw [List.nil_append, List.splitOn_eq_singleton hq]
    rfl
  | cons c cs ih =>
    obtain ⟨init, last, hsplit, happend⟩ := ih
    by_cases hc : (c == sep) = true
    · refine ⟨[] :: init, last, ?_, fun q hq => ?_⟩
      · rw [List.splitOn_cons_eq_if_modifyHead, if_pos hc, hsplit]
        rfl
      · rw [List.cons_append, List.splitOn_cons_eq_if_modifyHead, if_pos hc, happend q hq]
        rfl
    · cases init with
      | nil =>
        refine ⟨[], c :: last, ?_, fun q hq => ?_⟩
        · rw [List.splitOn_cons_eq_if_modifyHead, if_neg hc, hsplit]
          rfl
        · rw [List.cons_append, List.splitOn_cons_eq_if_modifyHead, if_neg hc, happend q hq]
          rfl
      | cons first init =>
        refine ⟨(c :: first) :: init, last, ?_, fun q hq => ?_⟩
        · rw [List.splitOn_cons_eq_if_modifyHead, if_neg hc, hsplit]
          rfl
        · rw [List.cons_append, List.splitOn_cons_eq_if_modifyHead, if_neg hc, happend q hq]
          rfl

/-! ### Three equations of lines -/

theorem lines_nil : lines [] = [] := rfl

theorem lines_append_newline (hl : '\n' ∉ l) (cs : List Char) :
    lines (l ++ '\n' :: cs) = dropReturn l :: lines cs := by
  obtain ⟨next, rest, hsplit⟩ := List.exists_cons_of_ne_nil (List.splitOn_ne_nil '\n' cs)
  unfold lines
  rw [List.splitOn_append_cons_self_of_not_mem hl, hsplit]
  rfl

theorem lines_eq_singleton (hne : l ≠ []) (hl : '\n' ∉ l) : lines l = [l] := by
  unfold lines
  rw [List.splitOn_eq_singleton hl, linesOfPieces, if_neg (by rwa [List.isEmpty_iff])]

/-- What is dropped from a line is blank. -/
theorem exists_dropReturn_append (l : List Char) :
    ∃ q, allBlank q = true ∧ l = dropReturn l ++ q := by
  by_cases h : l.getLast? = some '\r'
  · obtain ⟨init, rfl⟩ := List.getLast?_eq_some_iff.mp h
    exact ⟨['\r'], by decide, by rw [dropReturn_append]⟩
  · refine ⟨[], rfl, ?_⟩
    rw [dropReturn, if_neg h, List.append_nil]

/-! ### The cut into lines -/

/-- A text and its lines. A line ends at a newline, together with a return directly before it, or
with the text; the line after the last newline is there only if it is not empty. -/
inductive Lined : List Char → List (List Char) → Prop where
  | nil : Lined [] []
  | last {l : List Char} (hne : l ≠ []) (hl : '\n' ∉ l) : Lined l [l]
  | newline {l cs : List Char} {ls : List (List Char)} (hl : '\n' ∉ l)
    (hr : l.getLast? ≠ some '\r') (h : Lined cs ls) : Lined (l ++ '\n' :: cs) (l :: ls)
  | returned {l cs : List Char} {ls : List (List Char)} (hl : '\n' ∉ l) (h : Lined cs ls) :
    Lined (l ++ '\r' :: '\n' :: cs) (l :: ls)

theorem Lined.lines_eq (h : Lined cs ls) : lines cs = ls := by
  induction h with
  | nil => rfl
  | last hne hl => exact lines_eq_singleton hne hl
  | newline hl hr _ ih => rw [lines_append_newline hl, dropReturn, if_neg hr, ih]
  | @returned l cs ls hl _ ih =>
    have hlr : '\n' ∉ l ++ ['\r'] := by simpa using hl
    have hlines := lines_append_newline hlr cs
    rw [dropReturn_append, ih, List.append_assoc] at hlines
    exact hlines

theorem Lined.cons (hl : '\n' ∉ l) (h : Lined cs ls) :
    Lined (l ++ '\n' :: cs) (dropReturn l :: ls) := by
  by_cases hr : l.getLast? = some '\r'
  · obtain ⟨init, rfl⟩ := List.getLast?_eq_some_iff.mp hr
    have hinit : '\n' ∉ init := fun hmem => hl (List.mem_append_left _ hmem)
    rw [dropReturn_append, List.append_assoc]
    exact .returned hinit h
  · rw [dropReturn, if_neg hr]
    exact .newline hl hr h

theorem lined_lines (cs : List Char) : Lined cs (lines cs) := by
  -- on the length, since what follows the first newline is shorter but no tail by itself
  induction hn : cs.length using Nat.strong_induction_on generalizing cs with
  | _ n ih =>
    by_cases hmem : '\n' ∈ cs
    · obtain ⟨l, rest, rfl, hl⟩ := List.eq_append_cons_of_mem hmem
      have hlt : rest.length < n := by
        simp only [List.length_append, List.length_cons] at hn
        omega
      rw [lines_append_newline hl]
      exact .cons hl (ih _ hlt rest rfl)
    · by_cases hne : cs = []
      · subst hne
        exact .nil
      · rw [lines_eq_singleton hne hmem]
        exact .last hne hmem

theorem Lined.newline_not_mem (h : Lined cs ls) : ∀ l ∈ ls, '\n' ∉ l := by
  induction h with
  | nil => exact fun l hl => absurd hl List.not_mem_nil
  | last _ hl => exact fun m hm => List.mem_singleton.mp hm ▸ hl
  | newline hl _ _ ih => exact List.forall_mem_cons.mpr ⟨hl, ih⟩
  | returned hl _ ih => exact List.forall_mem_cons.mpr ⟨hl, ih⟩

/-! ### Ways to write lines -/

/-- Lines and a text of them, each line with one of the two endings, or the last with none. -/
inductive Ended : List (List Char) → List Char → Prop where
  | nil : Ended [] []
  | last {l : List Char} (hl : '\n' ∉ l) : Ended [l] l
  | newline {l cs : List Char} {ls : List (List Char)} (hl : '\n' ∉ l) (h : Ended ls cs) :
    Ended (l :: ls) (l ++ '\n' :: cs)
  | returned {l cs : List Char} {ls : List (List Char)} (hl : '\n' ∉ l) (h : Ended ls cs) :
    Ended (l :: ls) (l ++ '\r' :: '\n' :: cs)

theorem ended_unlines (h : ∀ l ∈ ls, '\n' ∉ l) : Ended ls (unlines ls) := by
  unfold unlines
  induction ls with
  | nil => exact .nil
  | cons l ls ih =>
    obtain ⟨hl, hls⟩ := List.forall_mem_cons.mp h
    cases ls with
    | nil =>
      rw [List.intercalate_singleton]
      exact .last hl
    | cons m ls =>
      rw [List.intercalate_cons_cons, List.append_assoc]
      exact .newline hl (ih hls)

end ChomskyChart.Text
