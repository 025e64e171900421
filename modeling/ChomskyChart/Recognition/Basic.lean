import ChomskyChart.Chart.Basic

/-!
# What recognition needs and shows

A rule index answers the questions that recognition asks of a grammar. Its answers are fixed, and
need not come from a grammar. An order says how the symbols of a cell are enumerated; every order
is admissible. An observer is told of each question, and of each span length once all its cells
are filled, and may act in a monad. Observers do not influence the answers.
-/

namespace ChomskyChart

structure RuleIndex where
  /-- The symbols with the token as a body. -/
  terminalDerivers : String → IndexSet
  /-- The symbols with the pair as a body. -/
  pairDerivers : Nat → Nat → IndexSet
  derivesEmpty : Bool
  start : Nat

/-- How the symbols of the cell `(i, j)` are enumerated. -/
structure Order where
  list : Nat → Nat → IndexSet → List Nat
  perm : ∀ i j s, (list i j s).Perm s.toList

def Order.ascending : Order where
  list _ _ s := s.toList
  perm _ _ _ := .refl _

structure Observer (m : Type → Type) where
  onToken : String → m Unit
  onPair : Nat → Nat → m Unit
  onSpan : Chart → Nat → m Unit

def Observer.silent {m : Type → Type} [Monad m] : Observer m where
  onToken _ := pure ()
  onPair _ _ := pure ()
  onSpan _ _ := pure ()

structure Recognizer (m : Type → Type) where
  index : RuleIndex
  order : Order := .ascending
  observer : Observer m

/-- The recognizer of an index that nobody watches. -/
def RuleIndex.recognizer (index : RuleIndex) : Recognizer Id where
  index := index
  observer := .silent

end ChomskyChart
