/-!
# Blank characters

A character is blank when it has the Unicode property `White_Space`. The table lists the 25
code points as ten closed ranges. It is the only notion of blank in the library: rule text,
sentences and empty lines all use it.
-/

namespace ChomskyChart.Text

/-- The closed ranges of code points that are blank, in ascending order. -/
def blankRanges : List (Nat × Nat) :=
  [(0x9, 0xd), (0x20, 0x20), (0x85, 0x85), (0xa0, 0xa0), (0x1680, 0x1680), (0x2000, 0x200a),
    (0x2028, 0x2029), (0x202f, 0x202f), (0x205f, 0x205f), (0x3000, 0x3000)]

def isBlank (c : Char) : Bool :=
  blankRanges.any fun r => r.1 ≤ c.toNat && c.toNat ≤ r.2

theorem isBlank_newline : isBlank '\n' = true := by decide

theorem isBlank_bar : isBlank '|' = false := by decide

/-- The ranges are disjoint, ascending, and hold 25 code points. -/
example : blankRanges.Pairwise (fun r s => r.2 < s.1) ∧
    (blankRanges.map fun r => r.2 + 1 - r.1).sum = 25 := by decide

end ChomskyChart.Text
