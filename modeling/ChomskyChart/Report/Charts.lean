import ChomskyChart.Format.Basic
import ChomskyChart.Format.Json
import ChomskyChart.Format.Latex
import ChomskyChart.Grammar.Names
import ChomskyChart.Grammar.Recognition
import ChomskyChart.Text.Column

/-!
# Chart reports

The chart of one sentence, with names in place of numbers. Row `i`, column `j` shows the cell of
the tokens from `i` to `j`, so the fields below the diagonal stay blank.
-/

namespace ChomskyChart

structure CellReport where
  start : Nat
  stop : Nat
  symbols : List String
  deriving DecidableEq

structure ChartReport where
  tokens : List String
  cells : List CellReport
  accepted : Bool
  deriving DecidableEq

def CellReport.json (c : CellReport) : Json :=
  .object [("start", .number c.start), ("end", .number c.stop), ("symbols", Json.strings c.symbols)]

namespace ChartReport

variable (r : ChartReport)

def size : Nat :=
  r.tokens.length

/-- The symbols of a cell, if there is such a cell. -/
def symbolsAt? (i j : Nat) : Option (List String) :=
  if Triangle.Inside r.size i j then
    r.cells[Triangle.offset r.size i j]?.map (·.symbols)
  else none

/-- Each row with its token in front. -/
def rows (token : String → String) (field : Option (List String) → String) : List (List String) :=
  r.tokens.zipIdx.map fun p =>
    token p.1 :: (List.range r.size).map fun j => field (r.symbolsAt? p.2 j)

def plainField : Option (List String) → String
  | none => ""
  | some [] => "-"
  | some names => " ".intercalate names

/-- The header and the rows, before they are aligned. -/
def plainRows : List (List String) :=
  ("" :: r.tokens) :: r.rows id plainField

def plain : String :=
  let rows := r.plainRows
  let widths := Text.columnWidths (r.size + 1) rows
  let lines := rows.map fun row => " | ".intercalate (List.zipWith Text.alignRight widths row)
  "\n".intercalate (lines ++ ["accepted: " ++ verdict r.accepted])

def latexToken (escape : String → String) (token : String) : String :=
  Latex.apply "text" (escape token)

def latexField (escape : String → String) : Option (List String) → String
  | none => ""
  | some [] => "\\emptyset"
  | some names => ",\\ ".intercalate (names.map escape)

/-- The start of the table, with a column for the tokens in front and one for each token. -/
def latexStart : String :=
  let columns := "c" ++ String.join (List.replicate r.size "|l")
  "\\[" ++ Latex.apply "begin" "array" ++ Latex.group columns ++ "\n"

/-- The report in LaTeX, given how a text is escaped. -/
def latexWith (escape : String → String) : String :=
  let rows := r.rows (latexToken escape) (latexField escape)
  " & ".intercalate (r.latexStart :: r.tokens.map (latexToken escape)) ++ "\\\\\\hline\n" ++
    Latex.newRow.intercalate (rows.map (" & ".intercalate ·)) ++
    "\n" ++ Latex.apply "end" "array" ++ "\\]"

def latex : String :=
  r.latexWith Latex.escape

def json : Json :=
  .object [("tokens", Json.strings r.tokens), ("cells", .array (r.cells.map (·.json))),
    ("accepted", .bool r.accepted)]

def render : Format → String
  | .plain => r.plain
  | .latex => r.latex
  | .json => r.json.render

end ChartReport

def Grammar.chartReport (g : Grammar) (tokens : List String) : Except Fault ChartReport := do
  let chart := g.chart tokens
  let cells ← (Triangle.positions chart.size).mapM fun p => do
    return { start := p.1, stop := p.2, symbols := ← g.symbolNames (← chart.cell p.1 p.2) }
  let accepted := if tokens.isEmpty then g.derivesEmpty else chart.accepts g.start
  return { tokens, cells, accepted }

end ChomskyChart
