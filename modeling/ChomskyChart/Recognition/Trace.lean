import ChomskyChart.Recognition.Fill

/-!
# Traces of a fill

A trace has one block for each span length, in ascending order, made when the cells of that length
are all filled. Cells show ascending indices: recognition sees a rule index and no names.
-/

namespace ChomskyChart

structure TraceCell where
  start : Nat
  stop : Nat
  symbols : List Nat
  deriving DecidableEq

structure TraceBlock where
  span : Nat
  size : Nat
  cells : List TraceCell
  deriving DecidableEq

def TraceCell.render (c : TraceCell) : String :=
  "|  (" ++ toString c.start ++ ", " ++ toString c.stop ++ ") => [" ++
    ", ".intercalate (c.symbols.map fun a => toString a) ++ "]\n"

namespace TraceBlock

/-- The block of a span length, from a chart in which it is filled. -/
def ofChart (chart : Chart) (span : Nat) : TraceBlock where
  span := span
  size := chart.size
  cells := (Chart.starts chart.size span).map fun i =>
    let j := i + span - 1
    ⟨i, j, (chart.get i j).toList⟩

def note : String :=
  "= note: this trace was output as a debugging aid because `cfg(feature = \"cky-trace-stderr\")`.\n\n"

def render (b : TraceBlock) : String :=
  "[fill_table] span " ++ toString b.span ++ " of " ++ toString b.size ++ "\n" ++
    String.join (b.cells.map (·.render)) ++ note

def observer : Observer (StateM (List TraceBlock)) where
  onToken _ := pure ()
  onPair _ _ := pure ()
  onSpan chart span := modify (· ++ [ofChart chart span])

def recognizer (index : RuleIndex) : Recognizer (StateM (List TraceBlock)) where
  index := index
  observer := observer

/-- The blocks of a whole fill. -/
def ofFill (index : RuleIndex) (tokens : List String) : List TraceBlock :=
  (((recognizer index).fill tokens).run []).2

end TraceBlock

end ChomskyChart
