import ChomskyChart.Text.Words

/-!
# Tokens of a sentence

A sentence is cut at its blanks, or into its single characters without the blanks.
-/

namespace ChomskyChart

inductive TokenMode where
  | words
  | characters
  deriving DecidableEq

def tokenize (mode : TokenMode) (sentence : String) : List String :=
  match mode with
  | .words => (Text.words sentence.toList).map String.ofList
  | .characters => (sentence.toList.filter fun c => !Text.isBlank c).map fun c => String.ofList [c]

end ChomskyChart
