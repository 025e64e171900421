/-!
# Lines

A newline ends a line, and one carriage return directly before it belongs to the line ending.
Text after the last newline is a line of its own, and keeps a carriage return at its end. A text
that ends in a newline has no further line.
-/

namespace ChomskyChart.Text

/-- A line without the carriage return of its ending. -/
def dropReturn (line : List Char) : List Char :=
  if line.getLast? = some '\r' then line.dropLast else line

/-- The lines of a text that was cut at its newlines. -/
def linesOfPieces : List (List Char) → List (List Char)
  | [] => []
  | [rest] => if rest.isEmpty then [] else [rest]
  | line :: next :: pieces => dropReturn line :: linesOfPieces (next :: pieces)

def lines (cs : List Char) : List (List Char) :=
  linesOfPieces (cs.splitOn '\n')

/-- Lines written one under the other, without a newline after the last. -/
def unlines (ls : List (List Char)) : List Char :=
  ['\n'].intercalate ls

theorem dropReturn_append (line : List Char) : dropReturn (line ++ ['\r']) = line := by
  simp [dropReturn]

example : lines "a\r\n\nb\r".toList = ["a".toList, [], "b\r".toList] := by decide

example : lines "a\n".toList = ["a".toList] := by decide

end ChomskyChart.Text
