/-!
# Faults

A fault is a question about something that does not exist: a cell outside the chart, or the name of
an index that no symbol has. Callers who keep to indices of their own grammar and to cells of their
own chart never see one.
-/

namespace ChomskyChart

inductive Fault where
  | noCell (start stop : Nat)
  | noSymbol (count index : Nat)
  deriving DecidableEq

def Fault.message : Fault → String
  | .noCell start stop => "cell (" ++ toString start ++ ", " ++ toString stop ++ ") out of table"
  | .noSymbol count index =>
    "index out of bounds: the len is " ++ toString count ++ " but the index is " ++ toString index

end ChomskyChart
