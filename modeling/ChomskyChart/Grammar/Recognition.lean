import ChomskyChart.Grammar.Basic
import ChomskyChart.Recognition.Fill

/-!
# Recognition with a grammar

A grammar answers the questions of recognition from its two indices.
-/

namespace ChomskyChart.Grammar

variable (g : Grammar)

def index : RuleIndex where
  terminalDerivers := g.terminalDerivers
  pairDerivers := g.pairDerivers
  derivesEmpty := g.derivesEmpty
  start := g.start

/-- The finished chart of a list of tokens. -/
def chart (tokens : List String) : Chart :=
  g.index.fill tokens

/-- Whether the tokens are a sentence of the grammar. -/
def recognize (tokens : List String) : Bool :=
  g.index.recognize tokens

end ChomskyChart.Grammar
