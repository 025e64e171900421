import ChomskyChart.Text.Words
import Mathlib.Data.List.TakeWhile

/-!
# Words and the blanks around them

A text is some words with blanks before, between and after them. Which words, is determined by the
text; how many blanks and which, is not. `words` is the function side of this relation. Blanks at
the end of a text change neither its words nor what is left when it is trimmed.
-/

namespace ChomskyChart.Text

/-- At least one character, and none that is blank. -/
def IsWord (w : List Char) : Prop := w ≠ [] ∧ ∀ c ∈ w, isBlank c = false

/-- A text and its words, in order, with at least one blank between two of them. -/
inductive Spaced : List Char → List (List Char) → Prop where
  | blanks {p : List Char} (hp : allBlank p = true) : Spaced p []
  | word {p w q cs : List Char} {ws : List (List Char)} (hp : allBlank p = true) (hw : IsWord w)
    (hq : allBlank q = true) (hsep : ws ≠ [] → q ≠ []) (h : Spaced cs ws) :
    Spaced (p ++ w ++ q ++ cs) (w :: ws)

variable {p q w cs xs : List Char} {ws : List (List Char)} {c : Char}

theorem allBlank_iff : allBlank cs = true ↔ ∀ c ∈ cs, isBlank c = true := List.all_eq_true

theorem allBlank_append : allBlank (p ++ q) = (allBlank p && allBlank q) := List.all_append

theorem isWord_iff : IsWord w ↔ w.isEmpty = false ∧ w.any isBlank = false := by
  unfold IsWord
  rw [List.isEmpty_eq_false_iff, List.any_eq_false]
  simp only [Bool.not_eq_true]

theorem IsWord.not_mem (hw : IsWord w) (hc : isBlank c = true) : c ∉ w := by
  intro hmem
  have hblank := hw.2 c hmem
  rw [hc] at hblank
  cases hblank

/-! ### The words of a text -/

theorem words_append_of_allBlank (hp : allBlank p = true) : words (p ++ cs) = words cs := by
  induction p with
  | nil => rfl
  | cons c p ih =>
    have hc := allBlank_iff.mp hp c List.mem_cons_self
    have hrest : allBlank p = true :=
      allBlank_iff.mpr fun d hd => allBlank_iff.mp hp d (List.mem_cons_of_mem c hd)
    have hsplit := words_append_cons hc [] (p ++ cs)
    rw [List.nil_append, words_nil, List.nil_append] at hsplit
    rw [List.cons_append, hsplit, ih hrest]

theorem words_of_allBlank (hp : allBlank p = true) : words p = [] := by
  have h : words (p ++ []) = words [] := words_append_of_allBlank hp
  rwa [List.append_nil, words_nil] at h

/-- A word ends where the text does or at a blank. -/
theorem words_append_of_isWord (hw : IsWord w) (h : ∀ c ∈ cs.head?, isBlank c = true) :
    words (w ++ cs) = w :: words cs := by
  have hone := words_eq_singleton hw.1 hw.2
  cases cs with
  | nil => rw [List.append_nil, hone, words_nil]
  | cons c cs =>
    have hc : isBlank c = true := h c rfl
    have hcs := words_append_cons hc [] cs
    rw [List.nil_append, words_nil, List.nil_append] at hcs
    rw [words_append_cons hc, hone, hcs]
    rfl

theorem words_append_blanks (hq : allBlank q = true) : words (cs ++ q) = words cs := by
  cases q with
  | nil => rw [List.append_nil]
  | cons c q =>
    have hc := allBlank_iff.mp hq c List.mem_cons_self
    have hrest : allBlank q = true :=
      allBlank_iff.mpr fun d hd => allBlank_iff.mp hq d (List.mem_cons_of_mem c hd)
    rw [words_append_cons hc, words_of_allBlank hrest, List.append_nil]

namespace Spaced

theorem allBlank_of_nil (h : Spaced cs []) : allBlank cs = true := by
  cases h with
  | blanks hp => exact hp

/-- What follows a word is empty or starts with a blank. -/
theorem head_after (hq : allBlank q = true) (hsep : ws ≠ [] → q ≠ []) (h : Spaced cs ws) :
    ∀ c ∈ (q ++ cs).head?, isBlank c = true := by
  intro c hc
  cases q with
  | cons d q =>
    obtain rfl : d = c := Option.some.inj hc
    exact allBlank_iff.mp hq d List.mem_cons_self
  | nil =>
    have hnil : ws = [] := by
      by_contra hne
      exact hsep hne rfl
    subst hnil
    exact allBlank_iff.mp h.allBlank_of_nil c (List.mem_of_mem_head? hc)

theorem words_eq (h : Spaced cs ws) : words cs = ws := by
  induction h with
  | blanks hp => exact words_of_allBlank hp
  | word hp hw hq hsep h ih =>
    rw [List.append_assoc, List.append_assoc, words_append_of_allBlank hp,
      words_append_of_isWord hw (head_after hq hsep h), words_append_of_allBlank hq, ih]

theorem isWord (h : Spaced cs ws) : ∀ w ∈ ws, IsWord w := by
  induction h with
  | blanks _ => exact fun w hw => absurd hw List.not_mem_nil
  | word _ hw _ _ _ ih =>
    intro v hv
    rcases List.mem_cons.mp hv with rfl | hv
    · exact hw
    · exact ih v hv

theorem infix_of_mem (h : Spaced cs ws) : ∀ w ∈ ws, w <:+: cs := by
  induction h with
  | blanks _ => exact fun w hw => absurd hw List.not_mem_nil
  | @word p w q cs ws _ _ _ _ _ ih =>
    intro v hv
    rcases List.mem_cons.mp hv with rfl | hv
    · exact ⟨p, q ++ cs, (List.append_assoc ..).symm⟩
    · exact (ih v hv).trans (List.suffix_append (p ++ w ++ q) cs).isInfix

theorem prepend (hp : allBlank p = true) (h : Spaced cs ws) : Spaced (p ++ cs) ws := by
  cases h with
  | blanks hc =>
    refine .blanks ?_
    rw [allBlank_append, hp, hc]
    rfl
  | @word p' w q cs ws hp' hw hq hsep h =>
    have hpp : allBlank (p ++ p') = true := by
      rw [allBlank_append, hp, hp']
      rfl
    have hword := Spaced.word hpp hw hq hsep h
    simpa only [List.append_assoc] using hword

theorem append_blanks (hq : allBlank q = true) (h : Spaced cs ws) : Spaced (cs ++ q) ws := by
  induction h with
  | blanks hc =>
    refine .blanks ?_
    rw [allBlank_append, hc, hq]
    rfl
  | word hp hw hq' hsep _ ih =>
    rw [List.append_assoc]
    exact .word hp hw hq' hsep ih

theorem of_isWord (hw : IsWord w) : Spaced w [w] := by
  have h := Spaced.word (p := []) (q := []) rfl hw rfl (fun hne => absurd rfl hne)
    (.blanks (p := []) rfl)
  simpa using h

theorem intercalate (h : ∀ w ∈ ws, IsWord w) : Spaced ([' '].intercalate ws) ws := by
  induction ws with
  | nil => exact .blanks rfl
  | cons w ws ih =>
    obtain ⟨hw, hws⟩ := List.forall_mem_cons.mp h
    by_cases hne : ws = []
    · rw [hne, List.intercalate_singleton]
      exact .of_isWord hw
    · have hword := Spaced.word (p := []) rfl hw (q := [' ']) (by decide)
        (fun _ => List.cons_ne_nil _ _) (ih hws)
      rw [List.intercalate_cons_of_ne_nil hne]
      exact hword

end Spaced

/-- A text that is not blank is blanks, a word, and what follows the word. -/
theorem exists_first_word (h : allBlank cs = false) :
    ∃ p w rest, cs = p ++ w ++ rest ∧ allBlank p = true ∧ IsWord w ∧
      ∀ c ∈ rest.head?, isBlank c = true := by
  refine ⟨cs.takeWhile isBlank, (cs.dropWhile isBlank).takeWhile (!isBlank ·),
    (cs.dropWhile isBlank).dropWhile (!isBlank ·), ?_, ?_, ⟨?_, ?_⟩, ?_⟩
  · rw [List.append_assoc, List.takeWhile_append_dropWhile, List.takeWhile_append_dropWhile]
  · exact allBlank_iff.mpr fun c hc => List.mem_takeWhile_imp hc
  · intro hnil
    cases hd : cs.dropWhile isBlank with
    | nil =>
      have hall : allBlank cs = true := allBlank_iff.mpr (List.dropWhile_eq_nil_iff.mp hd)
      rw [h] at hall
      cases hall
    | cons d rest =>
      have hhead : isBlank d = false := by
        have hnot := List.head_dropWhile_not isBlank (l := cs) (by rw [hd]; exact List.cons_ne_nil _ _)
        simpa [hd] using hnot
      rw [hd, List.takeWhile_cons_of_pos (by rw [hhead]; rfl)] at hnil
      cases hnil
  · intro c hc
    simpa using List.mem_takeWhile_imp hc
  · intro c hc
    have hne : (cs.dropWhile isBlank).dropWhile (!isBlank ·) ≠ [] := by
      rintro he
      rw [he] at hc
      cases hc
    have hnot := List.head_dropWhile_not (!isBlank ·) hne
    rw [List.head?_eq_some_head hne] at hc
    obtain rfl := Option.some.inj hc
    simpa using hnot

theorem spaced_words (cs : List Char) : Spaced cs (words cs) := by
  -- on the length, since the text after a word is a part of the text
  induction hn : cs.length using Nat.strong_induction_on generalizing cs with
  | _ n ih =>
    cases hb : allBlank cs with
    | true =>
      rw [words_of_allBlank hb]
      exact .blanks hb
    | false =>
      obtain ⟨p, w, rest, rfl, hp, hw, hrest⟩ := exists_first_word hb
      have hpos := List.length_pos_iff.mpr hw.1
      rw [List.append_assoc, words_append_of_allBlank hp, words_append_of_isWord hw hrest,
        ← List.append_assoc]
      cases rest with
      | nil =>
        rw [List.append_nil, words_nil]
        exact (Spaced.of_isWord hw).prepend hp
      | cons c rest =>
        have hc : allBlank [c] = true := allBlank_iff.mpr (by simpa using hrest)
        have hlt : rest.length < n := by
          simp only [List.length_append, List.length_cons] at hn
          omega
        have hwords : words (c :: rest) = words rest := words_append_of_allBlank (p := [c]) hc
        have hspaced := Spaced.word hp hw hc (fun _ => List.cons_ne_nil c []) (ih _ hlt rest rfl)
        rw [hwords]
        simpa only [List.append_assoc, List.singleton_append] using hspaced

/-- The words of a text are the only words it is made of. -/
theorem words_eq_iff : words cs = ws ↔ Spaced cs ws := by
  constructor
  · rintro rfl
    exact spaced_words cs
  · exact Spaced.words_eq

theorem words_eq_nil_iff : words cs = [] ↔ allBlank cs = true :=
  words_eq_iff.trans ⟨Spaced.allBlank_of_nil, Spaced.blanks⟩

/-! ### Trimming -/

theorem trimStart_append (hp : allBlank p = true) : trimStart (p ++ cs) = trimStart cs := by
  unfold trimStart
  exact List.dropWhile_append_of_pos (allBlank_iff.mp hp)

theorem trimEnd_append (hq : allBlank q = true) : trimEnd (cs ++ q) = trimEnd cs := by
  have hrev : ∀ c ∈ q.reverse, isBlank c = true := fun c hc =>
    allBlank_iff.mp hq c (List.mem_reverse.mp hc)
  unfold trimEnd
  rw [List.reverse_append, List.dropWhile_append_of_pos hrev]

/-- Trimming at the end stops at the last character that is not blank. -/
theorem trimEnd_cons (hc : isBlank c = false) : trimEnd (c :: cs) = c :: trimEnd cs := by
  have hone : [c].dropWhile isBlank = [c] := by simp [hc]
  unfold trimEnd
  rw [List.reverse_cons, List.dropWhile_append, hone]
  by_cases hd : (cs.reverse.dropWhile isBlank).isEmpty = true
  · rw [if_pos hd, List.isEmpty_iff.mp hd]
    rfl
  · rw [if_neg hd, List.reverse_append]
    rfl

/-- What is cut off at the end is blank. -/
theorem exists_trimEnd_append (cs : List Char) :
    ∃ q, allBlank q = true ∧ cs = trimEnd cs ++ q := by
  refine ⟨(cs.reverse.takeWhile isBlank).reverse, ?_, ?_⟩
  · exact allBlank_iff.mpr fun c hc => List.mem_takeWhile_imp (List.mem_reverse.mp hc)
  · unfold trimEnd
    rw [← List.reverse_append, List.takeWhile_append_dropWhile, List.reverse_reverse]

theorem trim_append_cons (hp : allBlank p = true) (hc : isBlank c = false) :
    trim (p ++ c :: cs) = c :: trimEnd cs := by
  have hstart : trimStart (c :: cs) = c :: cs := by
    unfold trimStart
    exact List.dropWhile_cons_of_neg (by rw [hc]; exact Bool.false_ne_true)
  unfold trim
  rw [trimStart_append hp, hstart, trimEnd_cons hc]

theorem trim_of_allBlank (hp : allBlank p = true) : trim p = [] := by
  have hstart : trimStart p = [] := List.dropWhile_eq_nil_iff.mpr (allBlank_iff.mp hp)
  unfold trim
  rw [hstart]
  rfl

/-- The first character that is not blank, with the blanks before it. -/
theorem exists_eq_append_cons (h : allBlank cs = false) :
    ∃ p c rest, cs = p ++ c :: rest ∧ allBlank p = true ∧ isBlank c = false := by
  obtain ⟨p, w, rest, rfl, hp, hw, -⟩ := exists_first_word h
  obtain ⟨c, w', rfl⟩ := List.exists_cons_of_ne_nil hw.1
  exact ⟨p, c, w' ++ rest, by rw [List.append_assoc, List.cons_append], hp,
    hw.2 c List.mem_cons_self⟩

theorem trim_append_blanks (hq : allBlank q = true) : trim (cs ++ q) = trim cs := by
  cases hb : allBlank cs with
  | true =>
    have hcq : allBlank (cs ++ q) = true := by
      rw [allBlank_append, hb, hq]
      rfl
    rw [trim_of_allBlank hcq, trim_of_allBlank hb]
  | false =>
    obtain ⟨p, c, rest, rfl, hp, hc⟩ := exists_eq_append_cons hb
    rw [List.append_assoc, List.cons_append, trim_append_cons hp hc, trim_append_cons hp hc,
      trimEnd_append hq]

end ChomskyChart.Text
