import ChomskyChart.Recognition.Cancellation

/-!
# Watching recognition

A probe counts the pairs that are looked up, notes the tokens in the order they are asked for, and
can raise the cancellation flag at a pair of given number. The flag is part of the probe, so that
it outlives the run.
-/

namespace ChomskyChart

structure Probe where
  pairs : Nat := 0
  tokens : List String := []
  raised : Bool := false
  deriving DecidableEq

namespace Probe

/-- Count a pair, and raise the flag if it is the one with the given number. -/
def countPair (raiseAt : Nat) (p : Probe) : Probe :=
  let pairs := p.pairs + 1
  { p with pairs := pairs, raised := p.raised || pairs == raiseAt }

def noteToken (token : String) (p : Probe) : Probe :=
  { p with tokens := p.tokens ++ [token] }

/-- Pairs are numbered from one, so zero raises no flag. -/
def observer (raiseAt : Nat) : Observer (StateM Probe) where
  onToken token := modify (noteToken token)
  onPair _ _ := modify (countPair raiseAt)
  onSpan _ _ := pure ()

def recognizer (index : RuleIndex) (raiseAt : Nat) : Recognizer (StateM Probe) where
  index := index
  observer := observer raiseAt

/-- Recognition under a probe, and what the probe has seen. -/
def recognize (index : RuleIndex) (raiseAt : Nat) (raised : Bool) (tokens : List String) :
    Bool × Probe :=
  ((recognizer index raiseAt).recognize tokens).run { raised }

/-- Recognition under a probe, with the flag of the probe for cancellation. -/
def recognizeUnless (index : RuleIndex) (raiseAt : Nat) (raised : Bool) (tokens : List String) :
    Except Cancelled Bool × Probe :=
  ((recognizer index raiseAt).recognizeUnless (return (← get).raised) tokens).run { raised }

end Probe

end ChomskyChart
