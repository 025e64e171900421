/-!
# Columns of text

A field is set flush right in a column by spaces before it. Widths count characters, that is
Unicode scalar values, and a field wider than its column is kept whole.
-/

namespace ChomskyChart.Text

def alignRight (width : Nat) (field : String) : String :=
  String.ofList (List.replicate (width - field.length) ' ') ++ field

/-- The largest width among the fields, and zero when there is none. -/
def columnWidth (fields : List String) : Nat :=
  fields.foldr (fun field width => max field.length width) 0

/-- The widths of the first columns of a table of fields, given row by row. -/
def columnWidths (count : Nat) (rows : List (List String)) : List Nat :=
  (List.range count).map fun j => columnWidth (rows.map fun row => row.getD j "")

theorem length_alignRight (width : Nat) (field : String) :
    (alignRight width field).length = max width field.length := by
  simp only [alignRight, String.length_append, String.length_ofList, List.length_replicate]
  omega

theorem length_le_columnWidth {fields : List String} {field : String} (h : field ∈ fields) :
    field.length ≤ columnWidth fields := by
  induction fields with
  | nil => cases h
  | cons first rest ih =>
    simp only [columnWidth, List.foldr_cons] at ih ⊢
    rcases List.mem_cons.mp h with rfl | h
    · omega
    · have := ih h
      omega

end ChomskyChart.Text
