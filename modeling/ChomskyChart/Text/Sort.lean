/-!
# Texts in order

Texts are ordered by their characters, and characters by code point. Sorting keeps repeated texts.
-/

namespace ChomskyChart.Text

def insertSorted (s : String) : List String → List String
  | [] => [s]
  | t :: ts => if s ≤ t then s :: t :: ts else t :: insertSorted s ts

def sort : List String → List String
  | [] => []
  | s :: ss => insertSorted s (sort ss)

theorem insertSorted_perm (s : String) (ts : List String) : (insertSorted s ts).Perm (s :: ts) := by
  fun_induction insertSorted s ts with
  | case1 => rfl
  | case2 => rfl
  | case3 t ts _ ih => exact (ih.cons t).trans (List.Perm.swap s t ts)

theorem sort_perm (ss : List String) : (sort ss).Perm ss := by
  induction ss with
  | nil => rfl
  | cons s ss ih => exact (insertSorted_perm s (sort ss)).trans (ih.cons s)

theorem pairwise_insertSorted {s : String} {ts : List String} (h : ts.Pairwise (· ≤ ·)) :
    (insertSorted s ts).Pairwise (· ≤ ·) := by
  fun_induction insertSorted s ts with
  | case1 => simp
  | case2 t ts hst =>
    refine List.pairwise_cons.mpr ⟨fun u hu => ?_, h⟩
    rcases List.mem_cons.mp hu with rfl | hu
    · exact hst
    · exact String.le_trans hst ((List.pairwise_cons.mp h).1 u hu)
  | case3 t ts hst ih =>
    obtain ⟨ht, hts⟩ := List.pairwise_cons.mp h
    refine List.pairwise_cons.mpr ⟨fun u hu => ?_, ih hts⟩
    rcases List.mem_cons.mp ((insertSorted_perm s ts).mem_iff.mp hu) with rfl | hu
    · exact (String.le_total t u).resolve_right hst
    · exact ht u hu

theorem pairwise_sort (ss : List String) : (sort ss).Pairwise (· ≤ ·) := by
  induction ss with
  | nil => exact .nil
  | cons s ss ih => exact pairwise_insertSorted ih

end ChomskyChart.Text
