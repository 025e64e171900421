import ChomskyChart.Grammar.Draft
import ChomskyChart.Rule.Reader

/-!
# Grammars from rule text

Without a given start symbol the first left side is the start symbol, so there has to be a rule.
With one, even a text without rules is a grammar.
-/

namespace ChomskyChart.Grammar

def read (text : String) : Except RuleError Grammar := do
  let rules ← Rule.readAll text
  match rules with
  | [] => throw .noStartSymbol
  | first :: _ => return build rules first.left

def readWithStart (text start : String) : Except RuleError Grammar := do
  return build (← Rule.readAll text) start

/-- Read with the start symbol if one is given. -/
def readFrom (text : String) : Option String → Except RuleError Grammar
  | some start => readWithStart text start
  | none => read text

end ChomskyChart.Grammar
