import ChomskyChart.Text.Blank

/-!
# Words and trimmed text

`words` are the maximal blank-free runs of a text, in order. `trim` drops the blanks at both
ends. Both work on lists of characters, so that no offset can fall inside a character. Two equations
determine `words`: a blank separates, and characters without a blank make one word.
-/

namespace ChomskyChart.Text

/-- The maximal runs of characters that are not blank. -/
def words (cs : List Char) : List (List Char) :=
  (cs.splitOnP isBlank).filter fun w => !w.isEmpty

def trimStart (cs : List Char) : List Char :=
  cs.dropWhile isBlank

def trimEnd (cs : List Char) : List Char :=
  (cs.reverse.dropWhile isBlank).reverse

def trim (cs : List Char) : List Char :=
  trimEnd (trimStart cs)

/-- No character other than blanks, and possibly none at all. -/
def allBlank (cs : List Char) : Bool :=
  cs.all isBlank

theorem words_nil : words [] = [] := rfl

/-- A blank separates the words before it from those after it. -/
theorem words_append_cons {c : Char} (hc : isBlank c = true) (xs ys : List Char) :
    words (xs ++ c :: ys) = words xs ++ words ys := by
  rw [words, List.splitOnP_append_cons xs ys hc, List.filter_append]
  rfl

/-- Characters none of which is blank are one word. -/
theorem words_eq_singleton {cs : List Char} (hne : cs ≠ []) (h : ∀ c ∈ cs, isBlank c = false) :
    words cs = [cs] := by
  rw [words, List.splitOnP_eq_singleton fun c hc => by simp [h c hc]]
  simp [hne]

end ChomskyChart.Text
