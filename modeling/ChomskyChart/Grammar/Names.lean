import ChomskyChart.Fault
import ChomskyChart.Grammar.Basic
import ChomskyChart.Text.Sort

/-!
# Names of symbols

Going from numbers back to names can fail, because any number can be asked for. The names of a set
are sorted by code point, which in general is not the order of their numbers.
-/

namespace ChomskyChart.Grammar

variable (g : Grammar)

def symbolName (i : Nat) : Except Fault String :=
  match g.nonTerminals[i]? with
  | some nt => .ok nt.name
  | none => .error (.noSymbol g.nonTerminals.length i)

def terminalName (i : Nat) : Except Fault String :=
  match g.terminals[i]? with
  | some t => .ok t
  | none => .error (.noSymbol g.terminals.length i)

def startName : Except Fault String :=
  g.symbolName g.start

/-- The body of a production as it is shown. Of a pair, the left symbol is looked up first. -/
def productionSymbols : Production → Except Fault (List String)
  | .empty => .ok [epsilon]
  | .terminal t => do return [← g.terminalName t]
  | .pair b c => do
    let left ← g.symbolName b
    let right ← g.symbolName c
    return [left, right]

def symbolNames (s : IndexSet) : Except Fault (List String) := do
  return Text.sort (← s.toList.mapM g.symbolName)

/-- One line for each non-terminal that has productions, its bodies separated by commas. -/
def display : Except Fault String := do
  let lines ← g.producing.mapM fun nt => do
    let bodies ← nt.productions.mapM g.productionSymbols
    return nt.name ++ " -> " ++ ", ".intercalate (bodies.map (" ".intercalate ·))
  return "\n".intercalate lines

end ChomskyChart.Grammar
