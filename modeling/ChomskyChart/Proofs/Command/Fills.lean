import ChomskyChart.Proofs.Command.Answers
import ChomskyChart.Proofs.Recognition.Accesses

/-!
# The charts that a command fills

A command fills a chart for every sentence of a section that asks about sentences. Its trace shows
these charts, in order, and nothing else. So what is shown of the accesses of a fill is shown of a
whole command.
-/

namespace ChomskyChart.Command

/-- A chart to be filled, with the grammar and the tokens of a sentence. -/
structure Fill where
  grammar : Grammar
  tokens : List String

def Fill.trace (f : Fill) : String :=
  String.join ((TraceBlock.ofFill f.grammar.index f.tokens).map (·.render))

def fillsOf (g : Grammar) (mode : TokenMode) (sentences : List String) : List Fill :=
  sentences.map fun s => ⟨g, tokenize mode s⟩

def sampleFills : List Fill :=
  Sample.all.flatMap fun s => fillsOf s.grammar .characters s.sentences

def Section.fills (g : Grammar) (o : Options) (sentences : List String) : Section → List Fill
  | .productions => []
  | .recognition | .charts => fillsOf g o.mode sentences
  | .demo => sampleFills

/-- The charts of an answer. There are none when the rules or the sentences cannot be read. -/
def Request.fills (inputs : Inputs) (r : Request) : List Fill :=
  if r.isDemo then sampleFills
  else
    match readGrammar inputs r, readSentences inputs r with
    | .ok g, .ok sentences => r.sections.flatMap (·.fills g r.options sentences)
    | _, _ => []

/-- The charts that a command fills. -/
def fills (inputs : Inputs) (args : List String) : List Fill :=
  match Request.ofArguments args with
  | .ok r => r.fills inputs
  | .error _ => []

-- Two sections ask about each sentence, and the productions about none.
example : (fills ⟨"S -> a".toUTF8, fun _ => .error .notFound⟩
    ["prod", "recognize", "table", "-s", "a b", "-s", "a"]).map (·.tokens) =
      [["a", "b"], ["a"], ["a", "b"], ["a"]] := by decide +kernel

variable {inputs : Inputs} {g : Grammar} {o : Options} {sentences : List String}

end ChomskyChart.Command
