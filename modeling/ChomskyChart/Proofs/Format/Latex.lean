import ChomskyChart.Format.Latex
import Mathlib.Data.List.Forall2

/-!
# Reading a LaTeX text

A LaTeX text is read from left to right, a backslash together with the character after it. What is
not behind a backslash is free: free braces make groups, a free ampersand ends a field, and two
backslashes end a row.

A text that is put together is read part by part, as long as no part ends in a free backslash. So
what is asked of a document is asked of its parts. An escaped text is the simplest part: it has no
free special characters, groups that are closed, and no end of a field or of a row.
-/

namespace ChomskyChart.Latex

/-- What is read in one step. -/
inductive Atom where
  | free (c : Char)
  | escaped (c : Char)
  deriving DecidableEq

def readAtoms : List Char → List Atom
  | [] => []
  | '\\' :: c :: cs => .escaped c :: readAtoms cs
  | c :: cs => .free c :: readAtoms cs

def atoms (text : String) : List Atom :=
  readAtoms text.toList

/-- The depth of groups behind an atom, if the atom closes no group that is not open. -/
def Atom.nest (depth : Nat) (a : Atom) : Option Nat :=
  if a = .free '\x7b' then some (depth + 1)
  else if a = .free '\x7d' then if depth = 0 then none else some (depth - 1)
  else some depth

/-- Every group is closed, and none is closed that is not open. -/
def Balanced (as : List Atom) : Prop :=
  as.foldlM Atom.nest 0 = some 0

instance (as : List Atom) : Decidable (Balanced as) :=
  inferInstanceAs (Decidable (_ = _))

/-- Characters with a meaning wherever they are free, other than those that shape a table. -/
def reserved : List Char := ['%', '$', '#', '_', '^', '~']

def specials : List Char := ['\\', '\x7b', '\x7d', '&'] ++ reserved

/-- A text that is read on its own, whatever comes behind it. -/
structure Clean (text : String) : Prop where
  whole : .free '\\' ∉ atoms text
  balanced : Balanced (atoms text)
  unreserved : ∀ c ∈ reserved, .free c ∉ atoms text

/-- A clean text within one row. No command starts as the one for the rule under a header does. -/
structure Fields (separators : Nat) (text : String) : Prop extends Clean text where
  count_separators : (atoms text).count (.free '&') = separators
  no_end : .escaped '\\' ∉ atoms text
  no_rule : .escaped 'h' ∉ atoms text

/-- Just the reserved characters are looked for, not every character there is. -/
instance (text : String) : Decidable (∀ c ∈ reserved, .free c ∉ atoms text) :=
  List.decidableBAll _ _

instance (text : String) : Decidable (Clean text) :=
  decidable_of_iff (_ ∧ _ ∧ ∀ c ∈ reserved, .free c ∉ atoms text)
    ⟨fun h => ⟨h.1, h.2.1, h.2.2⟩, fun h => ⟨h.whole, h.balanced, h.unreserved⟩⟩

instance (separators : Nat) (text : String) : Decidable (Fields separators text) :=
  decidable_of_iff (_ ∧ _ ∧ _ ∧ _) ⟨fun h => ⟨h.1, h.2.1, h.2.2.1, h.2.2.2⟩,
    fun h => ⟨h.toClean, h.count_separators, h.no_end, h.no_rule⟩⟩

/-- Rows with an end between any two of them, and the same number of separators in each. -/
structure Rows (rows separators : Nat) (as : List Atom) : Prop where
  count_ends : as.count (.escaped '\\') + 1 = rows
  length_rows : (as.splitOn (.escaped '\\')).length = rows
  count_separators : ∀ row ∈ as.splitOn (.escaped '\\'), row.count (.free '&') = separators

/-- A header with the rule under it, and rows. The rule is the only command that starts with `h`. -/
structure Layout (rows separators : Nat) (as header body : List Atom) : Prop where
  eq_append :
    as = header ++ .escaped '\\' :: atoms "\\hline" ++ body ++ atoms "\\end\x7barray\x7d\\]"
  no_end_header : .escaped '\\' ∉ header
  no_rule_header : .escaped 'h' ∉ header
  count_separators_header : header.count (.free '&') = separators
  no_rule_body : .escaped 'h' ∉ body
  rows_body : Rows rows separators body

structure Table (rows separators : Nat) (as : List Atom) : Prop where
  balanced : Balanced as
  unreserved : ∀ c ∈ reserved, .free c ∉ as
  exists_layout : ∃ header body, Layout rows separators as header body

variable {s t sep header text : String} {as bs : List Atom} {cs ds : List Char} {j k m n : Nat}
  {parts rows : List String} {c : Char}

/-! ### Parts of a text -/

theorem readAtoms_append (h : .free '\\' ∉ readAtoms cs) :
    readAtoms (cs ++ ds) = readAtoms cs ++ readAtoms ds := by
  induction cs using readAtoms.induct with
  | case1 => rfl
  | case2 c cs ih =>
    rw [readAtoms, List.mem_cons, not_or] at h
    rw [List.cons_append, List.cons_append, readAtoms, readAtoms, ih h.2, List.cons_append]
  | case3 c cs hpair ih =>
    rw [readAtoms.eq_3 c cs hpair, List.mem_cons, not_or] at h
    have hc : c ≠ '\\' := fun hc => h.1 (congrArg Atom.free hc.symm)
    rw [List.cons_append, readAtoms.eq_3 c _ fun _ _ hc' => absurd hc' hc,
      readAtoms.eq_3 c cs hpair, ih h.2, List.cons_append]

theorem atoms_append (h : .free '\\' ∉ atoms s) : atoms (s ++ t) = atoms s ++ atoms t := by
  rw [atoms, String.toList_append]
  exact readAtoms_append h

theorem readAtoms_eq_map (h : '\\' ∉ cs) : readAtoms cs = cs.map .free := by
  induction cs with
  | nil => rfl
  | cons c cs ih =>
    rw [List.mem_cons, not_or] at h
    rw [readAtoms.eq_3 c cs fun _ _ hc => absurd hc.symm h.1, ih h.2, List.map_cons]

/-! ### Groups -/

theorem Atom.nest_add {a : Atom} (h : a.nest m = some n) (k : Nat) :
    a.nest (m + k) = some (n + k) := by
  unfold nest at h ⊢
  by_cases hopen : a = .free '\x7b'
  · rw [if_pos hopen, Option.some.injEq] at h ⊢
    omega
  · rw [if_neg hopen] at h ⊢
    by_cases hclose : a = .free '\x7d'
    · rw [if_pos hclose] at h ⊢
      split at h
      · cases h
      · obtain rfl := Option.some.inj h
        rw [if_neg (by omega), Nat.sub_add_comm (by omega)]
    · rw [if_neg hclose, Option.some.injEq] at h ⊢
      omega

theorem foldlM_nest_add (h : as.foldlM Atom.nest m = some n) (k : Nat) :
    as.foldlM Atom.nest (m + k) = some (n + k) := by
  induction as generalizing m with
  | nil =>
    obtain rfl := Option.some.inj h
    rfl
  | cons a as ih =>
    rw [List.foldlM_cons] at h
    obtain ⟨d, ha, has⟩ := Option.bind_eq_some_iff.mp h
    rw [List.foldlM_cons, a.nest_add ha k]
    exact ih has

theorem Balanced.append (ha : Balanced as) (hb : Balanced bs) : Balanced (as ++ bs) := by
  rw [Balanced, List.foldlM_append, show as.foldlM Atom.nest 0 = some 0 from ha]
  exact hb

theorem Balanced.group (h : Balanced as) :
    Balanced (.free '\x7b' :: as ++ [.free '\x7d']) := by
  have has : as.foldlM Atom.nest 1 = some 1 := foldlM_nest_add h 1
  rw [Balanced, List.foldlM_append, List.foldlM_cons]
  change (as.foldlM Atom.nest 1 >>= _) = _
  rw [has]
  rfl

theorem balanced_of_flat (h : ∀ a ∈ as, a ≠ .free '\x7b' ∧ a ≠ .free '\x7d') : Balanced as := by
  induction as with
  | nil => rfl
  | cons a as ih =>
    obtain ⟨⟨hopen, hclose⟩, has⟩ := List.forall_mem_cons.mp h
    have ha : a.nest 0 = some 0 := by rw [Atom.nest, if_neg hopen, if_neg hclose]
    rw [Balanced, List.foldlM_cons, ha]
    exact ih has

/-! ### Clean texts and fields -/

theorem not_mem_atoms_append {a : Atom} (h : .free '\\' ∉ atoms s) (hs : a ∉ atoms s)
    (ht : a ∉ atoms t) : a ∉ atoms (s ++ t) := by
  rw [atoms_append h, List.mem_append, not_or]
  exact ⟨hs, ht⟩

theorem Clean.append (hs : Clean s) (ht : Clean t) : Clean (s ++ t) := by
  constructor
  case whole => exact not_mem_atoms_append hs.whole hs.whole ht.whole
  case balanced =>
    rw [atoms_append hs.whole]
    exact hs.balanced.append ht.balanced
  case unreserved =>
    exact fun c hc => not_mem_atoms_append hs.whole (hs.unreserved c hc) (ht.unreserved c hc)

theorem Fields.append (hs : Fields j s) (ht : Fields k t) : Fields (j + k) (s ++ t) := by
  refine ⟨hs.toClean.append ht.toClean, ?_, ?_, ?_⟩
  · rw [atoms_append hs.whole, List.count_append, hs.count_separators, ht.count_separators]
  · exact not_mem_atoms_append hs.whole hs.no_end ht.no_end
  · exact not_mem_atoms_append hs.whole hs.no_rule ht.no_rule

theorem atoms_group (h : .free '\\' ∉ atoms s) :
    atoms (group s) = .free '\x7b' :: atoms s ++ [.free '\x7d'] := by
  rw [group, String.append_assoc, atoms_append (by decide), atoms_append h]
  rfl

theorem Clean.group (h : Clean s) : Clean (group s) := by
  constructor
  case whole => simp [atoms_group h.whole, h.whole]
  case balanced =>
    rw [atoms_group h.whole]
    exact h.balanced.group
  case unreserved =>
    intro c hc
    have hbrace : c ≠ '\x7b' ∧ c ≠ '\x7d' := by
      constructor <;> (rintro rfl; revert hc; decide)
    simp [atoms_group h.whole, hbrace, h.unreserved c hc]

theorem Fields.group (h : Fields k s) : Fields k (group s) := by
  refine ⟨h.toClean.group, ?_, ?_, ?_⟩
  · simp [atoms_group h.whole, h.count_separators]
  · simp [atoms_group h.whole, h.no_end]
  · simp [atoms_group h.whole, h.no_rule]

theorem fields_empty : Fields 0 "" := by decide

theorem Fields.intercalate (hsep : Fields j sep) (h : ∀ part ∈ parts, Fields 0 part) :
    Fields ((parts.length - 1) * j) (sep.intercalate parts) := by
  induction parts with
  | nil => simpa using fields_empty
  | cons part parts ih =>
    obtain ⟨hpart, hparts⟩ := List.forall_mem_cons.mp h
    cases parts with
    | nil => simpa using hpart
    | cons next parts =>
      have hall := (hpart.append hsep).append (ih hparts)
      have hcount : ((part :: next :: parts).length - 1) * j =
          0 + j + ((next :: parts).length - 1) * j := by
        rw [List.length_cons, List.length_cons, Nat.add_sub_cancel, Nat.add_sub_cancel,
          Nat.zero_add, Nat.succ_mul, Nat.add_comm]
      rw [String.intercalate_cons_cons, hcount]
      exact hall

/-- A text without special characters is read character by character. -/
theorem fields_of_plain (h : ∀ c ∈ s.toList, c ∉ specials) : Fields 0 s := by
  have hfree : ∀ c ∈ specials, c ∉ s.toList := fun c hc hs => h c hs hc
  have hatoms : atoms s = s.toList.map .free := readAtoms_eq_map (hfree '\\' (by decide))
  have hnot : ∀ c ∈ specials, .free c ∉ atoms s := by
    intro c hc hmem
    rw [hatoms, List.mem_map] at hmem
    obtain ⟨d, hd, hdc⟩ := hmem
    obtain rfl := Atom.free.inj hdc
    exact hfree d hc hd
  have hflat : Balanced (atoms s) := balanced_of_flat fun a ha => by
    constructor <;> (rintro rfl; exact absurd ha (hnot _ (by decide)))
  refine ⟨⟨hnot '\\' (by decide), hflat, fun c hc => hnot c (List.mem_append_right _ hc)⟩,
    List.count_eq_zero.mpr (hnot '&' (by decide)), ?_, ?_⟩
  · simp [hatoms]
  · simp [hatoms]

/-! ### Escaped texts -/

/-- How a character can be written so that it stands for itself. A special character takes a
backslash, or is a text command with an empty group. Any other character may stay as it is, and a
group keeps it apart from its neighbours where they mean something together, as two hyphens do. -/
inductive Written (c : Char) : String → Prop
  | plain (h : c ∉ specials) : Written c (String.ofList [c])
  | apart (h : c ∉ specials) : Written c (String.ofList [c] ++ group "")
  | grouped (h : c ∉ specials) : Written c (group (String.ofList [c]))
  | backslash (h : c ∈ specials) (hne : c ≠ '\\') : Written c ("\\" ++ String.ofList [c])
  | symbol (name : String) (h : name.toList.all Char.isAlpha) :
    Written c (command ("text" ++ name))

/-- A function that escapes a text character by character. -/
def Escapes (escape : String → String) : Prop :=
  ∀ text, ∃ forms, List.Forall₂ Written text.toList forms ∧ escape text = String.join forms

theorem fields_of_written (h : Written c s) : Fields 0 s := by
  have hsingle : c ∉ specials → Fields 0 (String.ofList [c]) := fun hc =>
    fields_of_plain (by simpa using hc)
  cases h with
  | plain hc => exact hsingle hc
  | apart hc => exact (hsingle hc).append fields_empty.group
  | grouped hc => exact (hsingle hc).group
  | backslash hc hne =>
    have hall : specials.all fun c => c ≠ '\\' → Fields 0 ("\\" ++ String.ofList [c]) := by decide
    exact of_decide_eq_true (List.all_eq_true.mp hall c hc) hne
  | symbol name hname =>
    have hletter : specials.all fun d => ¬ d.isAlpha := by decide
    have hplain : Fields 0 name := fields_of_plain fun d hd hspecial =>
      of_decide_eq_true (List.all_eq_true.mp hletter d hspecial) (List.all_eq_true.mp hname d hd)
    have htext : Fields 0 "\\text" := by decide
    have hall := (htext.append hplain).append fields_empty.group
    rw [command, ← String.append_assoc]
    exact hall

theorem fields_join (h : List.Forall₂ Written cs parts) : Fields 0 (String.join parts) := by
  induction h with
  | nil => exact fields_empty
  | cons hc _ ih =>
    rw [String.join_cons]
    exact (fields_of_written hc).append ih

theorem Escapes.fields {escape : String → String} (h : Escapes escape) (text : String) :
    Fields 0 (escape text) := by
  obtain ⟨forms, hforms, heq⟩ := h text
  rw [heq]
  exact fields_join hforms

theorem written_escapeChar (c : Char) (next : Option Char) : Written c (escapeChar c next) := by
  unfold escapeChar
  split
  case h_1 =>
    split
    · exact .apart (by decide)
    · exact .plain (by decide)
  case h_2 | h_3 | h_4 | h_5 | h_6 | h_7 | h_8 => exact .backslash (by decide) (by decide)
  case h_9 | h_10 => exact .grouped (by decide)
  case h_11 => exact .symbol "asciitilde" (by decide)
  case h_12 => exact .symbol "asciicircum" (by decide)
  case h_13 => exact .symbol "less" (by decide)
  case h_14 => exact .symbol "greater" (by decide)
  case h_15 => exact .apart (by decide)
  case h_16 => exact .symbol "backslash" (by decide)
  case h_17 =>
    refine .plain ?_
    simp_all [specials, reserved]

/-- An escaped text is put together from the written forms of its characters. -/
theorem exists_forms {form : Char → String → Prop} (h : ∀ c next, form c (escapeChar c next))
    (text : String) :
    ∃ forms, List.Forall₂ form text.toList forms ∧ escape text = String.join forms := by
  rw [escape]
  generalize text.toList = cs
  induction cs with
  | nil => exact ⟨[], .nil, rfl⟩
  | cons c cs ih =>
    obtain ⟨forms, hforms, heq⟩ := ih
    refine ⟨escapeChar c cs.head? :: forms, .cons (h c _) hforms, ?_⟩
    rw [escapeChars, String.ofList_append, String.ofList_toList, heq, String.join_cons]

theorem escapes_escape : Escapes escape :=
  exists_forms written_escapeChar

/-! ### Tables -/

theorem Rows.single (hends : .escaped '\\' ∉ as) (hcount : as.count (.free '&') = n) :
    Rows 1 n as := by
  constructor
  · rw [List.count_eq_zero.mpr hends]
  · rw [List.splitOn_eq_singleton hends, List.length_singleton]
  · rw [List.splitOn_eq_singleton hends]
    simpa using hcount

theorem Rows.cons (hends : .escaped '\\' ∉ as) (hcount : as.count (.free '&') = n)
    (h : Rows m n bs) : Rows (m + 1) n (as ++ .escaped '\\' :: bs) := by
  have hsplit : (as ++ .escaped '\\' :: bs).splitOn (.escaped '\\') =
      as :: bs.splitOn (.escaped '\\') := by
    rw [List.splitOn_append_cons_self, List.splitOn_eq_singleton hends, List.singleton_append]
  constructor
  · rw [List.count_append, List.count_cons_self, List.count_eq_zero.mpr hends, Nat.zero_add,
      h.count_ends]
  · rw [hsplit, List.length_cons, h.length_rows]
  · rw [hsplit]
    exact List.forall_mem_cons.mpr ⟨hcount, h.count_separators⟩

/-- The rows with the ends of the lines around them. -/
def body (rows : List String) : String :=
  "\n" ++ newRow.intercalate rows ++ "\n"

theorem body_cons_cons (row next : String) (rows : List String) :
    body (row :: next :: rows) = "\n" ++ row ++ ("\\\\" ++ body (next :: rows)) := by
  have hrow : newRow = "\\\\" ++ "\n" := rfl
  rw [body, body, String.intercalate_cons_cons]
  nth_rewrite 1 [hrow]
  simp only [String.append_assoc]

theorem clean_body (hne : rows ≠ []) (h : ∀ row ∈ rows, Fields n row) : Clean (body rows) ∧
    .escaped 'h' ∉ atoms (body rows) ∧ Rows rows.length n (atoms (body rows)) := by
  have hline : Fields 0 "\n" := by decide
  induction rows with
  | nil => exact absurd rfl hne
  | cons row rows ih =>
    obtain ⟨hrow, hrows⟩ := List.forall_mem_cons.mp h
    have hfirst : Fields n ("\n" ++ row) := by simpa using hline.append hrow
    cases rows with
    | nil =>
      have hbody : Fields n ("\n" ++ row ++ "\n") := hfirst.append hline
      rw [body, String.intercalate_singleton]
      exact ⟨hbody.toClean, hbody.no_rule, .single hbody.no_end hbody.count_separators⟩
    | cons next rows =>
      obtain ⟨hclean, hrule, hbody⟩ := ih (List.cons_ne_nil _ _) hrows
      have hend : Clean "\\\\" := by decide
      have hatoms : atoms ("\n" ++ row ++ ("\\\\" ++ body (next :: rows))) =
          atoms ("\n" ++ row) ++ .escaped '\\' :: atoms (body (next :: rows)) := by
        rw [atoms_append hfirst.whole, atoms_append hend.whole]
        rfl
      rw [body_cons_cons]
      refine ⟨hfirst.toClean.append (hend.append hclean), ?_, ?_⟩
      · rw [hatoms]
        simpa using ⟨hfirst.no_rule, hrule⟩
      · rw [hatoms]
        exact hbody.cons hfirst.no_end hfirst.count_separators

/-- A document is a table if its header and its rows are fields. -/
theorem table_of_fields (hheader : Fields n header) (hlen : rows.length = m) (hpos : 0 < m)
    (h : ∀ row ∈ rows, Fields n row) :
    Table m n (atoms (header ++ "\\\\\\hline\n" ++ newRow.intercalate rows ++ "\n" ++
      apply "end" "array" ++ "\\]")) := by
  obtain ⟨hbody, hrule, hrows⟩ := clean_body (List.length_pos_iff.mp (hlen ▸ hpos)) h
  rw [hlen] at hrows
  have hstart : Clean "\\\\\\hline" := by decide
  have hstop : Clean "\\end\x7barray\x7d\\]" := by decide
  have heq : header ++ "\\\\\\hline\n" ++ newRow.intercalate rows ++ "\n" ++
      apply "end" "array" ++ "\\]" =
        header ++ ("\\\\\\hline" ++ (body rows ++ "\\end\x7barray\x7d\\]")) := by
    have hline : "\\\\\\hline\n" = "\\\\\\hline" ++ "\n" := rfl
    have hclose : apply "end" "array" ++ "\\]" = "\\end\x7barray\x7d\\]" := rfl
    rw [body, hline, ← hclose]
    simp only [String.append_assoc]
  have hdocument := hheader.toClean.append (hstart.append (hbody.append hstop))
  rw [heq]
  refine ⟨hdocument.balanced, hdocument.unreserved, _, _, ?_, hheader.no_end, hheader.no_rule,
    hheader.count_separators, hrule, hrows⟩
  rw [atoms_append hheader.whole, atoms_append hstart.whole, atoms_append hbody.whole]
  simp only [List.append_assoc, List.cons_append]
  rfl

end ChomskyChart.Latex
