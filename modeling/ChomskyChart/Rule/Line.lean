import ChomskyChart.Rule
import ChomskyChart.Text.Words

/-!
# One line of rule text

A line is blank, or states a rule as `left -> body | body`, or starts with a bar and gives further
bodies to the rule above it. Everything else has a flaw. When a line has several flaws, a second
arrow is reported first, and an empty left side before a left side of several words.

Whether a line with further bodies has a rule above it is not decided here.
-/

namespace ChomskyChart

inductive RuleLine where
  | blank
  | rule (left : String) (bodies : List Body)
  | alternatives (bodies : List Body)
  deriving DecidableEq

inductive LineFlaw where
  | tooManyArrows
  | emptyLeftSide
  | leftSideWhitespace
  | missingLeftSide
  deriving DecidableEq

namespace RuleLine

/-- The pieces of a text between its arrows. -/
def splitArrow : List Char → List (List Char)
  | [] => [[]]
  | '-' :: '>' :: rest => [] :: splitArrow rest
  | c :: rest => (splitArrow rest).modifyHead (c :: ·)

theorem splitArrow_ne_nil (cs : List Char) : splitArrow cs ≠ [] := by
  fun_induction splitArrow cs with
  | case1 => simp
  | case2 => simp
  | case3 c rest _ ih =>
    intro h
    cases hr : splitArrow rest with
    | nil => exact ih hr
    | cons piece pieces => simp [hr] at h

/-- One body for each piece between bars: its words. A piece without words is an empty body. -/
def bodies (right : List Char) : List Body :=
  (right.splitOn '|').map fun piece => (Text.words piece).map String.ofList

def ofChars (line : List Char) : Except LineFlaw RuleLine :=
  if Text.allBlank line then .ok .blank else
  match splitArrow line with
  | [text] =>
    match Text.trim text with
    | '|' :: rest => .ok (.alternatives (bodies rest))
    | _ => .error .missingLeftSide
  | [left, right] =>
    match Text.words left with
    | [] => .error .emptyLeftSide
    | [name] => .ok (.rule (String.ofList name) (bodies right))
    | _ => .error .leftSideWhitespace
  | _ => .error .tooManyArrows

example : splitArrow "a-->b->".toList = ["a-".toList, "b".toList, []] := by decide

end RuleLine

end ChomskyChart
