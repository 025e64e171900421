import ChomskyChart.Format.Basic
import ChomskyChart.Format.Json
import ChomskyChart.Format.Latex
import ChomskyChart.Grammar.Names
import ChomskyChart.Text.Column

/-!
# Production reports

The productions of a grammar with names in place of numbers, one line for each non-terminal that
has any.
-/

namespace ChomskyChart

structure ProductionLine where
  left : String
  rights : List (List String)
  deriving DecidableEq

structure ProductionReport where
  start : String
  productions : List ProductionLine
  deriving DecidableEq

namespace ProductionLine

variable (p : ProductionLine)

def plain (width : Nat) : String :=
  Text.alignRight width p.left ++ " -> " ++ ", ".intercalate (p.rights.map (" ".intercalate ·))

/-- The line in LaTeX, given how a text is escaped. A left side without bodies is not shown. In a
table the arrow has a column of its own. -/
def latexWith (escape : String → String) (inTable : Bool) : String :=
  if p.rights.isEmpty then "" else
  let arrow := if inTable then " & \\rightarrow &" else " \\rightarrow "
  let bodies := p.rights.map fun right => " \\ ".intercalate (right.map escape)
  Latex.replaceEpsilon (escape p.left ++ arrow ++ " \\mid ".intercalate bodies)

def latex (inTable : Bool) : String :=
  p.latexWith Latex.escape inTable

def json : Json :=
  .object [("left", .string p.left), ("rights", .array (p.rights.map Json.strings))]

end ProductionLine

namespace ProductionReport

variable (r : ProductionReport)

/-- All left sides are set flush right under each other. -/
def plain : String :=
  let width := Text.columnWidth (r.productions.map (·.left))
  "\n".intercalate (r.productions.map (·.plain width))

def latex : String :=
  let first := "\\[" ++ Latex.apply "begin" "array" ++ Latex.group "cll"
  let last := Latex.apply "end" "array" ++ "\\]"
  Latex.newRow.intercalate ([first] ++ r.productions.map (·.latex true) ++ [last])

def json : Json :=
  .object [("start", .string r.start), ("productions", .array (r.productions.map (·.json)))]

def render : Format → String
  | .plain => r.plain
  | .latex => r.latex
  | .json => r.json.render

end ProductionReport

def Grammar.productionReport (g : Grammar) : Except Fault ProductionReport := do
  let productions ← g.producing.mapM fun nt => do
    return ⟨nt.name, ← nt.productions.mapM g.productionSymbols⟩
  return { start := ← g.startName, productions }

end ChomskyChart
