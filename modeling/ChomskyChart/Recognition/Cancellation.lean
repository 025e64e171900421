import ChomskyChart.Recognition.Fill

/-!
# Recognition that can be cancelled

A flag is read before each span length from two upward, and recognition is given up once it is
found raised. So a single token, like the empty sentence, is always decided, and a flag that is
raised while the last span length is filled comes too late.
-/

namespace ChomskyChart

structure Cancelled where
  span : Nat
  deriving DecidableEq

def Cancelled.message (c : Cancelled) : String :=
  "recognition cancelled before span length " ++ toString c.span

namespace Recognizer

variable {m : Type → Type} [Monad m] (r : Recognizer m)

/-- Fill one span length, unless the flag is raised. -/
@[specialize]
def advanceUnless (cancelled : m Bool) (chart : Chart) (span : Nat) : ExceptT Cancelled m Chart := do
  if ← cancelled then throw ⟨span⟩
  r.advance chart span

@[specialize]
def recognizeUnless (cancelled : m Bool) (tokens : List String) : m (Except Cancelled Bool) :=
  ExceptT.run do
    if tokens.isEmpty then return r.index.derivesEmpty
    let chart ← r.begin tokens
    let chart ← (Chart.spans chart.size).foldlM (r.advanceUnless cancelled) chart
    return chart.accepts r.index.start

end Recognizer

/-- Recognition under a flag that does not change. -/
def RuleIndex.recognizeUnless (index : RuleIndex) (cancelled : Bool) (tokens : List String) :
    Except Cancelled Bool :=
  Id.run (index.recognizer.recognizeUnless (pure cancelled) tokens)

end ChomskyChart
