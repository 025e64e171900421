import ChomskyChart.Proofs.Text.Lines
import ChomskyChart.Text.Column
import Mathlib.Algebra.Order.Ring.Nat

/-!
# Lines of columns

The fields of a line are aligned when each of them stands flush right in a column of a given width,
with a separator between any two columns. The places where the columns start depend on the widths
alone. So they are the same in all lines of a table, whatever the fields are.
-/

namespace ChomskyChart.Text

/-- The place of the first character of a column. -/
def columnStart (between : List Char) (widths : List Nat) (j : Nat) : Nat :=
  (widths.take j).sum + between.length * j

/-- A field with the spaces before it that make it fill a column. -/
def padded (w : Nat) (text : String) : List Char :=
  List.replicate (w - text.length) ' ' ++ text.toList

/-- A line with the fields of a row in their columns. -/
structure Aligned (between : List Char) (widths : List Nat) (row : List String) (line : List Char) :
    Prop where
  length_eq : line.length = widths.sum + between.length * (widths.length - 1)
  field : ∀ (j w : Nat) (text : String), widths[j]? = some w → row[j]? = some text →
    (line.drop (columnStart between widths j)).take w = padded w text
  separator : ∀ j w, widths[j]? = some w → j + 1 < widths.length →
    (line.drop (columnStart between widths j + w)).take between.length = between

variable (between : List Char) {part : List Char} {parts : List (List Char)} {widths : List Nat}
  {row fields : List String} {j : Nat}

theorem toList_alignRight (w : Nat) (text : String) : (alignRight w text).toList = padded w text := by
  rw [alignRight, String.toList_append, String.toList_ofList, padded]

theorem length_padded {w : Nat} {text : String} (h : text.length ≤ w) : (padded w text).length = w := by
  rw [← toList_alignRight, String.length_toList, length_alignRight, Nat.max_eq_left h]

theorem length_intercalate : (between.intercalate parts).length =
    (parts.map List.length).sum + between.length * (parts.length - 1) := by
  induction parts with
  | nil => rfl
  | cons first parts ih =>
    cases parts with
    | nil => simp
    | cons next parts =>
      have hcount : between.length * ((first :: next :: parts).length - 1) =
          between.length + between.length * ((next :: parts).length - 1) := by
        rw [List.length_cons, List.length_cons, Nat.add_sub_cancel, Nat.add_sub_cancel,
          Nat.mul_succ, Nat.add_comm]
      have hsum : ((first :: next :: parts).map List.length).sum =
          first.length + ((next :: parts).map List.length).sum := List.sum_cons
      rw [List.intercalate_cons_cons, List.length_append, List.length_append, ih, hcount, hsum]
      omega

/-- Behind the parts before it comes a part, and then the separator if it is not the last. -/
theorem drop_intercalate (h : parts[j]? = some part) : ∃ rest,
    (between.intercalate parts).drop (columnStart between (parts.map List.length) j) =
      part ++ rest ∧ (j + 1 < parts.length → between <+: rest) := by
  induction parts generalizing j with
  | nil => simp at h
  | cons first parts ih =>
    cases j with
    | zero =>
      obtain rfl := Option.some.inj h
      cases parts with
      | nil => exact ⟨[], by simp [columnStart], by simp⟩
      | cons next parts =>
        refine ⟨between ++ between.intercalate (next :: parts), ?_, fun _ =>
          List.prefix_append _ _⟩
        rw [List.intercalate_cons_cons, columnStart, List.append_assoc]
        rfl
    | succ j =>
      rw [List.getElem?_cons_succ] at h
      obtain ⟨rest, hdrop, hsep⟩ := ih h
      have hne : parts ≠ [] := by
        rintro rfl
        cases h
      refine ⟨rest, ?_, fun hlt => hsep (by simpa using hlt)⟩
      have hstart : columnStart between ((first :: parts).map List.length) (j + 1) =
          (first ++ between).length + columnStart between (parts.map List.length) j := by
        rw [columnStart, columnStart, List.map_cons, List.take_succ_cons, List.sum_cons,
          List.length_append, Nat.mul_succ]
        omega
      rw [List.intercalate_cons_of_ne_nil hne, hstart, ← List.drop_drop, List.drop_left, hdrop]

/-- Fields that are not wider than their columns are aligned by the spaces before them. -/
theorem aligned_intercalate (sep : String) (hlen : row.length = widths.length)
    (hle : ∀ (j w : Nat) (text : String), widths[j]? = some w → row[j]? = some text →
      text.length ≤ w) :
    Aligned sep.toList widths row
      (sep.intercalate (List.zipWith alignRight widths row)).toList := by
  have hparts : (List.zipWith alignRight widths row).map String.toList =
      List.zipWith padded widths row := by
    rw [List.map_zipWith]
    simp only [toList_alignRight]
  have hlengths : (List.zipWith padded widths row).map List.length = widths := by
    refine List.ext_getElem (by simp [hlen]) fun j hj hj' => ?_
    have hrow : j < row.length := hlen ▸ hj'
    rw [List.getElem_map, List.getElem_zipWith]
    exact length_padded
      (hle j _ _ (List.getElem?_eq_getElem hj') (List.getElem?_eq_getElem hrow))
  have hcount : (List.zipWith padded widths row).length = widths.length := by
    rw [List.length_zipWith, hlen, Nat.min_self]
  have hplace : ∀ (j w : Nat) (text : String), widths[j]? = some w → row[j]? = some text →
      ∃ rest, (sep.toList.intercalate (List.zipWith padded widths row)).drop
        (columnStart sep.toList widths j) = padded w text ++ rest ∧
        (j + 1 < widths.length → sep.toList <+: rest) := by
    intro j w text hw htext
    have hpart : (List.zipWith padded widths row)[j]? = some (padded w text) := by
      rw [List.getElem?_zipWith, hw, htext]
    have hdrop := drop_intercalate sep.toList hpart
    rwa [hlengths, hcount] at hdrop
  rw [String.toList_intercalate, hparts]
  constructor
  case length_eq => rw [length_intercalate, hlengths, hcount]
  case field =>
    intro j w text hw htext
    obtain ⟨rest, hdrop, -⟩ := hplace j w text hw htext
    rw [hdrop, List.take_left' (length_padded (hle j w text hw htext))]
  case separator =>
    intro j w hw hlt
    have htext := List.getElem?_eq_getElem (show j < row.length by omega)
    obtain ⟨rest, hdrop, hsep⟩ := hplace j w _ hw htext
    obtain ⟨rest, rfl⟩ := hsep hlt
    rw [← List.drop_drop, hdrop, List.drop_left' (length_padded (hle j w _ hw htext)),
      List.take_left]

/-- Alignment adds nothing but spaces and separators. -/
theorem not_mem_intercalate_alignRight {sep : String} {c : Char} (hsep : c ∉ sep.toList)
    (hspace : c ≠ ' ') (h : ∀ text ∈ row, c ∉ text.toList) :
    c ∉ (sep.intercalate (List.zipWith alignRight widths row)).toList := by
  rw [String.toList_intercalate]
  refine not_mem_intercalate hsep (List.forall_mem_map.mpr fun field hfield => ?_)
  obtain ⟨j, hj⟩ := List.mem_iff_getElem?.mp hfield
  obtain ⟨w, text, -, htext, rfl⟩ := List.getElem?_zipWith_eq_some.mp hj
  rw [toList_alignRight, padded, List.mem_append, List.mem_replicate, not_or]
  exact ⟨fun hc => hspace hc.2, h text (List.mem_of_getElem? htext)⟩

theorem exists_length_eq_columnWidth (h : fields ≠ []) :
    ∃ field ∈ fields, field.length = columnWidth fields := by
  induction fields with
  | nil => exact absurd rfl h
  | cons first rest ih =>
    have hwidth : columnWidth (first :: rest) = max first.length (columnWidth rest) := rfl
    by_cases hle : columnWidth rest ≤ first.length
    · exact ⟨first, List.mem_cons_self, by rw [hwidth, Nat.max_eq_left hle]⟩
    · have hne : rest ≠ [] := by
        rintro rfl
        exact hle (Nat.zero_le _)
      obtain ⟨field, hfield, he⟩ := ih hne
      exact ⟨field, List.mem_cons_of_mem _ hfield, by omega⟩

variable {rows : List (List String)} {m w : Nat} {text : String}

theorem getElem?_columnWidths (h : (columnWidths m rows)[j]? = some w) :
    j < m ∧ w = columnWidth (rows.map fun row => row.getD j "") := by
  obtain ⟨hlt, rfl⟩ := List.getElem?_eq_some_iff.mp h
  rw [columnWidths, List.length_map, List.length_range] at hlt
  refine ⟨hlt, ?_⟩
  simp only [columnWidths, List.getElem_map, List.getElem_range]

/-- No field is wider than its column. -/
theorem length_le_columnWidths (h : (columnWidths m rows)[j]? = some w) (hrow : row ∈ rows)
    (htext : row[j]? = some text) : text.length ≤ w := by
  obtain ⟨-, rfl⟩ := getElem?_columnWidths h
  refine length_le_columnWidth (List.mem_map.mpr ⟨row, hrow, ?_⟩)
  rw [List.getD_eq_getElem?_getD, htext, Option.getD_some]

/-- Some field is as wide as its column. -/
theorem exists_length_eq_columnWidths (hne : rows ≠ []) (hlen : ∀ row ∈ rows, row.length = m)
    (h : (columnWidths m rows)[j]? = some w) :
    ∃ row ∈ rows, ∃ text, row[j]? = some text ∧ text.length = w := by
  obtain ⟨hj, rfl⟩ := getElem?_columnWidths h
  have hfields : rows.map (fun row => row.getD j "") ≠ [] := mt List.map_eq_nil_iff.mp hne
  obtain ⟨field, hfield, he⟩ := exists_length_eq_columnWidth hfields
  obtain ⟨row, hrow, rfl⟩ := List.mem_map.mp hfield
  have hlt : j < row.length := (hlen row hrow).symm ▸ hj
  have htext := List.getElem?_eq_getElem hlt
  rw [List.getD_eq_getElem?_getD, htext, Option.getD_some] at he
  exact ⟨row, hrow, row[j], htext, he⟩

end ChomskyChart.Text
