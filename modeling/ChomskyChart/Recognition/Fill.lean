import ChomskyChart.Recognition.Basic

/-!
# Filling a chart

The diagonal is filled from the tokens. Then the cells of span length two, three and so on are
filled from the cells of shorter spans: a cell gets the derivers of every pair of a symbol of its
left part and a symbol of its right part, over all ways to cut it in two.
-/

namespace ChomskyChart

namespace Recognizer

variable {m : Type → Type} [Monad m] (r : Recognizer m)

/-- Fill the diagonal, token by token. -/
@[specialize]
def base (tokens : List String) : m Chart :=
  tokens.zipIdx.foldlM (fun chart p => do
    r.observer.onToken p.1
    return chart.set p.2 p.2 (r.index.terminalDerivers p.1)) (.blank tokens.length)

/-- The pairs to look up for the cell `(i, j)`, cut by cut. -/
def pairs (chart : Chart) (i j : Nat) : List (Nat × Nat) :=
  (Chart.splits i j).flatMap fun k =>
    let rights := r.order.list (k + 1) j (chart.get (k + 1) j)
    (r.order.list i k (chart.get i k)).flatMap fun b => rights.map fun c => (b, c)

/-- The union of the derivers of the pairs. -/
@[specialize]
def derivers (pairs : List (Nat × Nat)) : m IndexSet :=
  pairs.foldlM (fun derived p => do
    r.observer.onPair p.1 p.2
    return derived ∪ r.index.pairDerivers p.1 p.2) ∅

/-- Compute the cell `(i, j)` from the cells of its parts, and overwrite it. -/
@[specialize]
def fillCell (chart : Chart) (i j : Nat) : m Chart := do
  let derived ← r.derivers (r.pairs chart i j)
  return chart.set i j derived

/-- Fill every cell of a span length. -/
@[specialize]
def fillSpan (chart : Chart) (span : Nat) : m Chart :=
  (Chart.starts chart.size span).foldlM (fun chart i => r.fillCell chart i (i + span - 1)) chart

/-- Fill every cell of a span length and report it. -/
@[specialize]
def advance (chart : Chart) (span : Nat) : m Chart := do
  let chart ← r.fillSpan chart span
  r.observer.onSpan chart span
  return chart

/-- Fill the diagonal and report it, unless there are no tokens. -/
@[specialize]
def begin (tokens : List String) : m Chart := do
  let chart ← r.base tokens
  if !chart.isEmpty then r.observer.onSpan chart 1
  return chart

/-- The finished chart of a list of tokens. -/
@[specialize]
def fill (tokens : List String) : m Chart := do
  let chart ← r.begin tokens
  (Chart.spans chart.size).foldlM r.advance chart

/-- Whether the start symbol derives the tokens. No chart is needed for the empty sentence. -/
@[specialize]
def recognize (tokens : List String) : m Bool := do
  if tokens.isEmpty then return r.index.derivesEmpty
  let chart ← r.fill tokens
  return chart.accepts r.index.start

end Recognizer

namespace RuleIndex

variable (index : RuleIndex)

def fill (tokens : List String) : Chart :=
  Id.run (index.recognizer.fill tokens)

def recognize (tokens : List String) : Bool :=
  Id.run (index.recognizer.recognize tokens)

end RuleIndex

end ChomskyChart
