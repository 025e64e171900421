import ChomskyChart.Proofs.Recognition.Checkpoints
import ChomskyChart.Proofs.Recognition.Records
import ChomskyChart.Proofs.Recognition.Schedules
import ChomskyChart.Recognition.Trace
import ChomskyChart.Samples
import Mathlib.Data.List.Nodup

/-!
# Traces and the finished chart

A block is made in the middle of a fill, from a chart that is not finished. It shows the cells of
the finished chart all the same, since no later step touches them. So the trace of a run is read off
the finished chart: one block for each span length, in order, and for a run that is cancelled those
of the span lengths that were filled.
-/

namespace ChomskyChart

namespace TraceBlock

/-- A trace as a record: a block is added for each span length. -/
def record : Record (List TraceBlock) where
  onSpan chart span blocks := blocks ++ [ofChart chart span]

/-- The blocks of the span lengths below one. -/
def below (chart : Chart) (stop : Nat) : List TraceBlock :=
  (List.range' 1 (stop - 1)).map (ofChart chart)

variable {index : RuleIndex} {tokens : List String}

end TraceBlock

/-- Writing cells of one length is not seen below it. -/
theorem Chart.AgreeBelow.setAll {span : Nat} {c d : Chart} (h : AgreeBelow span c d)
    (value : Nat → Nat → IndexSet) (is : List Nat) :
    AgreeBelow span (c.setAll value (is.map fun i => (i, i + span - 1))) d := by
  induction is generalizing c with
  | nil => exact h
  | cons i is ih => exact ih (h.set i _)

namespace Recognizer

section Moments

variable {m : Type → Type} [Monad m] (r : Recognizer m)

variable [LawfulMonad m] {tokens : List String}

end Moments

section Traced

variable {m : Type → Type} (r : Recognizer m) {tokens : List String}

variable [Monad m]

/-- The same recognizer with a trace. -/
def traced : Recognizer (StateT (List TraceBlock) m) :=
  r.recorded TraceBlock.record

variable [LawfulMonad m]

end Traced

end Recognizer

namespace TraceBlock

variable {index : RuleIndex} {tokens : List String}

end TraceBlock

end ChomskyChart
