import ChomskyChart.Proofs.Text.Lines
import ChomskyChart.Rule.Line
import Mathlib.Data.List.Forall2
import Mathlib.Data.List.Infix

/-!
# Kinds of lines of rule text

What a line is, said without the way it is read: how many arrows it has, which words stand before
its arrow, and whether it starts with a bar. Reading a line finds just this. Blanks at the end of a
line make no difference.
-/

namespace ChomskyChart.RuleLine

open Text (Spaced IsWord allBlank)

/-- The number of places in a text at which an arrow stands. -/
def arrows (cs : List Char) : Nat :=
  cs.tails.countP fun rest => ['-', '>'].isPrefixOf rest

/-- The texts before and after the arrow of a line that has just one. -/
def Arrow (line before right : List Char) : Prop :=
  line = before ++ '-' :: '>' :: right ∧ arrows line = 1

/-- A line that states a rule: one arrow, and one word before it. -/
def States (line : List Char) (left : String) (right : List Char) : Prop :=
  ∃ before, Arrow line before right ∧ Spaced before [left.toList]

/-- A line that goes on with the rule above it: no arrow, and first of all a bar. -/
def Continues (line right : List Char) : Prop :=
  arrows line = 0 ∧ ∃ blanks, allBlank blanks = true ∧ line = blanks ++ '|' :: right

/-- A body for each piece between bars, made of its words. -/
def Lists (right : List Char) (bodies : List Body) : Prop :=
  List.Forall₂ (fun piece body => Spaced piece (body.map String.toList)) (right.splitOn '|') bodies

/-- The flaw of a line that is of no kind. -/
inductive Flawed (line : List Char) : LineFlaw → Prop where
  | tooManyArrows (h : 2 ≤ arrows line) : Flawed line .tooManyArrows
  | emptyLeftSide {before right : List Char} (h : Arrow line before right)
    (hb : allBlank before = true) : Flawed line .emptyLeftSide
  | leftSideWhitespace {before right : List Char} {ws : List (List Char)}
    (h : Arrow line before right) (hw : Spaced before ws) (hn : 2 ≤ ws.length) :
    Flawed line .leftSideWhitespace
  | missingLeftSide (h : arrows line = 0) : Flawed line .missingLeftSide

variable {line before right cs xs ys q : List Char} {c : Char} {left : String}

/-! ### Arrows -/

theorem arrows_nil : arrows [] = 0 := by decide

theorem arrows_cons (c : Char) (cs : List Char) :
    arrows (c :: cs) = arrows cs + if ['-', '>'].isPrefixOf (c :: cs) then 1 else 0 := by
  unfold arrows
  rw [List.tails_cons, List.countP_cons]

theorem arrows_arrow (cs : List Char) : arrows ('-' :: '>' :: cs) = arrows cs + 1 := by
  rw [arrows_cons, arrows_cons]
  simp [List.isPrefixOf]

theorem arrows_cons_of_ne (h : ¬(c = '-' ∧ cs.head? = some '>')) :
    arrows (c :: cs) = arrows cs := by
  have hnot : ['-', '>'].isPrefixOf (c :: cs) = false := by
    cases cs with
    | nil => simp [List.isPrefixOf]
    | cons d cs =>
      simp only [List.head?_cons, Option.some.injEq] at h
      rw [Bool.eq_false_iff]
      intro hp
      simp only [List.isPrefixOf, Bool.and_true, Bool.and_eq_true, beq_iff_eq] at hp
      exact h ⟨hp.1.symm, hp.2.symm⟩
  rw [arrows_cons, hnot, if_neg Bool.false_ne_true, Nat.add_zero]

/-- No arrow lies across a cut, unless the cut goes through it. -/
theorem arrows_append (h : ¬(xs.getLast? = some '-' ∧ ys.head? = some '>')) :
    arrows (xs ++ ys) = arrows xs + arrows ys := by
  induction xs with
  | nil => rw [List.nil_append, arrows_nil, Nat.zero_add]
  | cons x xs ih =>
    cases xs with
    | nil =>
      have hone : arrows [x] = 0 := by
        rw [arrows_cons_of_ne (by simp), arrows_nil]
      rw [List.singleton_append, hone, Nat.zero_add]
      apply arrows_cons_of_ne
      rintro ⟨rfl, hy⟩
      exact h ⟨rfl, hy⟩
    | cons y xs =>
      have hstep := ih (by simpa only [List.getLast?_cons_cons] using h)
      have hpre : ['-', '>'].isPrefixOf (x :: y :: xs ++ ys) =
          ['-', '>'].isPrefixOf (x :: y :: xs) := by simp [List.isPrefixOf]
      rw [List.cons_append, arrows_cons, hstep, arrows_cons x (y :: xs), ← List.cons_append, hpre]
      omega

theorem arrows_of_not_mem (h : '-' ∉ cs) : arrows cs = 0 := by
  induction cs with
  | nil => exact arrows_nil
  | cons c cs ih =>
    have hcs : '-' ∉ cs := fun hmem => h (List.mem_cons_of_mem c hmem)
    rw [arrows_cons_of_ne, ih hcs]
    rintro ⟨rfl, -⟩
    exact h List.mem_cons_self

theorem not_mem_of_allBlank (hq : allBlank q = true) (hc : Text.isBlank c = false) : c ∉ q := by
  intro hmem
  have hblank := Text.allBlank_iff.mp hq c hmem
  rw [hc] at hblank
  cases hblank

theorem arrows_of_allBlank (hq : allBlank q = true) : arrows q = 0 :=
  arrows_of_not_mem (not_mem_of_allBlank hq (by decide))

/-- A part of a text has no more arrows than the text. -/
theorem arrows_le_of_infix (h : xs <:+: cs) : arrows xs ≤ arrows cs := by
  obtain ⟨pre, post, rfl⟩ := h
  have hpre : ∀ zs, arrows zs ≤ arrows (pre ++ zs) := by
    intro zs
    induction pre with
    | nil => exact Nat.le_refl _
    | cons p pre ih =>
      rw [List.cons_append, arrows_cons]
      omega
  have hpost : arrows xs ≤ arrows (xs ++ post) := by
    induction xs with
    | nil =>
      rw [arrows_nil]
      exact Nat.zero_le _
    | cons x xs ih =>
      have hmono : ['-', '>'].isPrefixOf (x :: xs) = true →
          ['-', '>'].isPrefixOf (x :: xs ++ post) = true := by
        simp only [List.isPrefixOf_iff_prefix]
        exact fun hp => hp.trans (List.prefix_append _ _)
      rw [List.cons_append, arrows_cons, arrows_cons]
      by_cases hp : ['-', '>'].isPrefixOf (x :: xs) = true
      · have hp' := hmono hp
        rw [List.cons_append] at hp'
        rw [if_pos hp, if_pos hp']
        omega
      · rw [if_neg hp]
        omega
  rw [List.append_assoc]
  exact hpost.trans (hpre _)

/-! ### The pieces between arrows -/

theorem splitArrow_cons_of_ne (h : ¬(c = '-' ∧ cs.head? = some '>')) :
    splitArrow (c :: cs) = (splitArrow cs).modifyHead (c :: ·) := by
  refine splitArrow.eq_3 c cs fun rest hc hcs => h ⟨hc, ?_⟩
  rw [hcs]
  rfl

theorem length_splitArrow (cs : List Char) : (splitArrow cs).length = arrows cs + 1 := by
  fun_induction splitArrow cs with
  | case1 => rw [arrows_nil]; rfl
  | case2 rest ih => rw [List.length_cons, ih, arrows_arrow]
  | case3 c rest hne ih =>
    have hfront : ¬(c = '-' ∧ rest.head? = some '>') := by
      rintro ⟨rfl, hd⟩
      obtain ⟨rest', rfl⟩ := List.head?_eq_some_iff.mp hd
      exact hne rest' rfl rfl
    rw [List.length_modifyHead, ih, arrows_cons_of_ne hfront]

theorem intercalate_splitArrow (cs : List Char) : ['-', '>'].intercalate (splitArrow cs) = cs := by
  fun_induction splitArrow cs with
  | case1 => rfl
  | case2 rest ih =>
    obtain ⟨piece, pieces, hsplit⟩ := List.exists_cons_of_ne_nil (splitArrow_ne_nil rest)
    rw [hsplit] at ih ⊢
    rw [List.intercalate_cons_cons, ih]
    rfl
  | case3 c rest _ ih =>
    obtain ⟨piece, pieces, hsplit⟩ := List.exists_cons_of_ne_nil (splitArrow_ne_nil rest)
    rw [hsplit] at ih ⊢
    rw [List.modifyHead_cons, List.intercalate_cons_cons_left, ih]

theorem splitArrow_append_arrow (xs ys : List Char) :
    splitArrow (xs ++ '-' :: '>' :: ys) = splitArrow xs ++ splitArrow ys := by
  fun_induction splitArrow xs with
  | case1 => rfl
  | case2 rest ih => rw [List.cons_append, List.cons_append, splitArrow, ih, List.cons_append]
  | case3 c rest hne ih =>
    have hfront : ¬(c = '-' ∧ (rest ++ '-' :: '>' :: ys).head? = some '>') := by
      rintro ⟨rfl, hd⟩
      cases rest with
      | nil => cases hd
      | cons d rest =>
        obtain rfl : d = '>' := Option.some.inj hd
        exact hne rest rfl rfl
    obtain ⟨piece, pieces, hsplit⟩ := List.exists_cons_of_ne_nil (splitArrow_ne_nil rest)
    rw [List.cons_append, splitArrow_cons_of_ne hfront, ih, hsplit]
    rfl

theorem splitArrow_eq_singleton_iff : splitArrow line = [cs] ↔ arrows line = 0 ∧ cs = line := by
  have hlength := length_splitArrow line
  have htext := intercalate_splitArrow line
  constructor
  · intro h
    rw [h, List.length_singleton] at hlength
    rw [h, List.intercalate_singleton] at htext
    exact ⟨by omega, htext⟩
  · rintro ⟨h, rfl⟩
    rw [h] at hlength
    obtain ⟨piece, hsplit⟩ := List.length_eq_one_iff.mp hlength
    rw [hsplit, List.intercalate_singleton] at htext
    rw [hsplit, htext]

theorem splitArrow_eq_pair_iff : splitArrow line = [before, right] ↔ Arrow line before right := by
  constructor
  · intro h
    have hlength := length_splitArrow line
    have htext := intercalate_splitArrow line
    rw [h, List.length_cons, List.length_singleton] at hlength
    rw [h, List.intercalate_cons_cons, List.intercalate_singleton, List.append_assoc] at htext
    exact ⟨htext.symm, by omega⟩
  · rintro ⟨rfl, hone⟩
    have hsplit := splitArrow_append_arrow before right
    have hlength := congrArg List.length hsplit
    simp only [List.length_append, length_splitArrow, hone] at hlength
    rw [hsplit, splitArrow_eq_singleton_iff.mpr ⟨by omega, rfl⟩,
      splitArrow_eq_singleton_iff.mpr ⟨by omega, rfl⟩]
    rfl

/-- There is no other arrow, on either side. -/
theorem Arrow.arrows_eq_zero (h : Arrow line before right) :
    arrows before = 0 ∧ arrows right = 0 := by
  have hsplit := splitArrow_append_arrow before right
  rw [← h.1, splitArrow_eq_pair_iff.mpr h] at hsplit
  have hlength := congrArg List.length hsplit
  simp only [List.length_append, length_splitArrow, List.length_cons, List.length_nil] at hlength
  omega

theorem Arrow.of_arrows (hb : arrows before = 0) (hr : arrows right = 0) :
    Arrow (before ++ '-' :: '>' :: right) before right := by
  rw [← splitArrow_eq_pair_iff, splitArrow_append_arrow,
    splitArrow_eq_singleton_iff.mpr ⟨hb, rfl⟩, splitArrow_eq_singleton_iff.mpr ⟨hr, rfl⟩]
  rfl

theorem Arrow.not_allBlank (h : Arrow line before right) : allBlank line = false := by
  rw [Bool.eq_false_iff]
  intro hb
  have hzero := arrows_of_allBlank hb
  rw [h.2] at hzero
  cases hzero

theorem Continues.not_allBlank (h : Continues line right) : allBlank line = false := by
  obtain ⟨-, blanks, -, rfl⟩ := h
  rw [Bool.eq_false_iff]
  intro hb
  exact not_mem_of_allBlank hb Text.isBlank_bar (List.mem_append_right _ List.mem_cons_self)

/-- A line that goes on with a rule states none. -/
theorem Continues.not_states (h : Continues line right) (left : String) (right' : List Char) :
    ¬States line left right' := by
  intro hs
  obtain ⟨_, harrow, -⟩ := hs
  have hone := harrow.2
  rw [h.1] at hone
  cases hone

/-- A blank text behind a line belongs to the piece behind the last arrow. -/
theorem exists_splitArrow_append (cs : List Char) :
    ∃ init last, splitArrow cs = init ++ [last] ∧
      ∀ q, allBlank q = true → splitArrow (cs ++ q) = init ++ [last ++ q] := by
  fun_induction splitArrow cs with
  | case1 =>
    refine ⟨[], [], rfl, fun q hq => ?_⟩
    exact splitArrow_eq_singleton_iff.mpr ⟨arrows_of_allBlank hq, rfl⟩
  | case2 rest ih =>
    obtain ⟨init, last, hsplit, happend⟩ := ih
    refine ⟨[] :: init, last, by rw [hsplit]; rfl, fun q hq => ?_⟩
    rw [List.cons_append, List.cons_append, splitArrow, happend q hq]
    rfl
  | case3 c rest hne ih =>
    obtain ⟨init, last, hsplit, happend⟩ := ih
    have hfront : ∀ q, allBlank q = true → ¬(c = '-' ∧ (rest ++ q).head? = some '>') := by
      rintro q hq ⟨rfl, hd⟩
      cases rest with
      | nil => exact not_mem_of_allBlank hq (by decide) (List.mem_of_mem_head? hd)
      | cons d rest =>
        obtain rfl : d = '>' := Option.some.inj hd
        exact hne rest rfl rfl
    cases init with
    | nil =>
      refine ⟨[], c :: last, by rw [hsplit]; rfl, fun q hq => ?_⟩
      rw [List.cons_append, splitArrow_cons_of_ne (hfront q hq), happend q hq]
      rfl
    | cons first init =>
      refine ⟨(c :: first) :: init, last, by rw [hsplit]; rfl, fun q hq => ?_⟩
      rw [List.cons_append, splitArrow_cons_of_ne (hfront q hq), happend q hq]
      rfl

/-! ### Bodies -/

theorem bodies_eq_iff {bs : List Body} : bodies right = bs ↔ Lists right bs := by
  have hbody : ∀ (piece : List Char) (body : Body),
      (Text.words piece).map String.ofList = body ↔ Spaced piece (body.map String.toList) := by
    intro piece body
    rw [← Text.words_eq_iff]
    constructor
    · rintro rfl
      rw [List.map_map, show String.toList ∘ String.ofList = id from funext fun l => String.toList_ofList]
      exact (List.map_id _).symm
    · intro h
      rw [h, List.map_map,
        show String.ofList ∘ String.toList = id from funext fun s => String.ofList_toList]
      exact List.map_id _
  unfold bodies Lists
  simp only [← hbody]
  rw [← List.forall₂_map_left_iff (f := fun piece => (Text.words piece).map String.ofList)
    (R := fun a b => a = b), List.forall₂_eq_eq_eq]

theorem lists_bodies (right : List Char) : Lists right (bodies right) :=
  bodies_eq_iff.mp rfl

theorem bodies_append_blanks (hq : allBlank q = true) : bodies (right ++ q) = bodies right := by
  obtain ⟨init, last, hsplit, happend⟩ := Text.exists_splitOn_append '|' right
  unfold bodies
  rw [happend q (not_mem_of_allBlank hq Text.isBlank_bar), hsplit, List.map_append,
    List.map_append, List.map_singleton, List.map_singleton, Text.words_append_blanks hq]

/-! ### Reading a line -/

theorem ofChars_of_allBlank (h : allBlank line = true) : ofChars line = .ok .blank := by
  unfold ofChars
  rw [if_pos h]

theorem ofChars_of_states (h : States line left right) :
    ofChars line = .ok (.rule left (bodies right)) := by
  obtain ⟨before, harrow, hleft⟩ := h
  have hnb := Bool.eq_false_iff.mp harrow.not_allBlank
  unfold ofChars
  rw [if_neg hnb, splitArrow_eq_pair_iff.mpr harrow]
  simp only [hleft.words_eq, String.ofList_toList]

theorem ofChars_of_continues (h : Continues line right) :
    ofChars line = .ok (.alternatives (bodies right)) := by
  have hnb := Bool.eq_false_iff.mp h.not_allBlank
  obtain ⟨hzero, blanks, hblanks, rfl⟩ := h
  obtain ⟨q, hq, hright⟩ := Text.exists_trimEnd_append right
  have hbodies : bodies right = bodies (Text.trimEnd right) := by
    conv_lhs => rw [hright]
    exact bodies_append_blanks hq
  unfold ofChars
  rw [if_neg hnb, splitArrow_eq_singleton_iff.mpr ⟨hzero, rfl⟩]
  simp only [Text.trim_append_cons hblanks Text.isBlank_bar, hbodies]

/-- A line that is of no kind has a flaw, and reading reports it. -/
theorem ofChars_of_flawed (hb : allBlank line = false) (hs : ∀ left right, ¬States line left right)
    (hc : ∀ right, ¬Continues line right) :
    ∃ flaw, Flawed line flaw ∧ ofChars line = .error flaw := by
  have hnb := Bool.eq_false_iff.mp hb
  have hlength := length_splitArrow line
  unfold ofChars
  rw [if_neg hnb]
  -- the cases of the reader: how many arrows, and then what stands before the only one
  match hsplit : splitArrow line with
  | [] => exact absurd hsplit (splitArrow_ne_nil line)
  | [text] =>
    obtain ⟨hzero, rfl⟩ := splitArrow_eq_singleton_iff.mp hsplit
    obtain ⟨blanks, c, rest, htext, hblanks, hcb⟩ := Text.exists_eq_append_cons hb
    have hbar : c ≠ '|' := by
      rintro rfl
      exact hc rest ⟨hzero, blanks, hblanks, htext⟩
    refine ⟨.missingLeftSide, .missingLeftSide hzero, ?_⟩
    have htrim : Text.trim text = c :: Text.trimEnd rest := by
      rw [htext, Text.trim_append_cons hblanks hcb]
    simp only [htrim]
    split
    · next hcons => exact absurd (List.cons.inj hcons).1 hbar
    · rfl
  | [before, right] =>
    have harrow := splitArrow_eq_pair_iff.mp hsplit
    match hwords : Text.words before with
    | [] =>
      refine ⟨.emptyLeftSide, .emptyLeftSide harrow (Text.words_eq_nil_iff.mp hwords), ?_⟩
      simp only [hwords]
    | [name] =>
      have hleft : Spaced before [(String.ofList name).toList] := by
        rw [String.toList_ofList]
        exact Text.words_eq_iff.mp hwords
      exact absurd ⟨before, harrow, hleft⟩ (hs (String.ofList name) right)
    | first :: second :: rest =>
      refine ⟨.leftSideWhitespace,
        .leftSideWhitespace harrow (Text.words_eq_iff.mp hwords) (Nat.le_add_left 2 _), ?_⟩
      simp only [hwords]
  | first :: second :: third :: rest =>
    rw [hsplit] at hlength
    simp only [List.length_cons] at hlength
    exact ⟨.tooManyArrows, .tooManyArrows (by omega), rfl⟩

theorem ofChars_append_blanks (hq : allBlank q = true) : ofChars (line ++ q) = ofChars line := by
  cases hb : allBlank line with
  | true =>
    have hlq : allBlank (line ++ q) = true := by rw [Text.allBlank_append, hb, hq]; rfl
    rw [ofChars_of_allBlank hlq, ofChars_of_allBlank hb]
  | false =>
    have hlq : allBlank (line ++ q) = false := by
      rw [Text.allBlank_append, hb]
      rfl
    have hl := Bool.eq_false_iff.mp hb
    obtain ⟨init, last, hsplit, happend⟩ := exists_splitArrow_append line
    unfold ofChars
    rw [if_neg (Bool.eq_false_iff.mp hlq), if_neg hl, hsplit, happend q hq]
    match init with
    | [] => simp only [List.nil_append, Text.trim_append_blanks hq]
    | [before] => simp only [List.singleton_append, bodies_append_blanks hq]
    | first :: second :: init =>
      have hlong : ∀ piece : List Char, ∃ third rest, init ++ [piece] = third :: rest := fun piece =>
        List.exists_cons_of_ne_nil (List.append_ne_nil_of_right_ne_nil init (List.cons_ne_nil piece []))
      obtain ⟨a, as, ha⟩ := hlong last
      obtain ⟨b, bs, hb⟩ := hlong (last ++ q)
      simp only [List.cons_append, ha, hb]

theorem ofChars_dropReturn (line : List Char) : ofChars (Text.dropReturn line) = ofChars line := by
  obtain ⟨q, hq, hline⟩ := Text.exists_dropReturn_append line
  conv_rhs => rw [hline]
  exact (ofChars_append_blanks hq).symm

end ChomskyChart.RuleLine
