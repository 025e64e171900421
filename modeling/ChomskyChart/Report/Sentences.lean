import ChomskyChart.Format.Basic
import ChomskyChart.Format.Json
import ChomskyChart.Format.Latex
import ChomskyChart.Grammar.Reader
import ChomskyChart.Grammar.Recognition
import ChomskyChart.Tokens

/-!
# Sentence reports

For each sentence whether it is in the language of a grammar.
-/

namespace ChomskyChart

structure SentenceResult where
  sentence : String
  tokens : List String
  accepted : Bool
  deriving DecidableEq

structure SentenceReport where
  results : List SentenceResult
  deriving DecidableEq

namespace SentenceResult

variable (r : SentenceResult)

def plain : String :=
  r.sentence ++ " -> " ++ verdict r.accepted

def latex : String :=
  Latex.apply "texttt" (Latex.escape r.sentence) ++ " & " ++ verdict r.accepted

def json : Json :=
  .object [("sentence", .string r.sentence), ("tokens", Json.strings r.tokens),
    ("accepted", .bool r.accepted)]

end SentenceResult

namespace SentenceReport

variable (r : SentenceReport)

def plain : String :=
  "\n".intercalate (r.results.map (·.plain))

def latex : String :=
  Latex.apply "begin" "tabular" ++ Latex.group "l|c" ++ "\n" ++
    "Sentence & Accepted\\\\\\hline\n" ++
    Latex.newRow.intercalate (r.results.map (·.latex)) ++
    Latex.newRow ++ Latex.apply "end" "tabular"

def json : Json :=
  .object [("data", .array (r.results.map (·.json)))]

def render : Format → String
  | .plain => r.plain
  | .latex => r.latex
  | .json => r.json.render

def accepted : List Bool :=
  r.results.map (·.accepted)

end SentenceReport

def Grammar.sentenceReport (g : Grammar) (mode : TokenMode) (sentences : List String) :
    SentenceReport where
  results := sentences.map fun sentence =>
    let tokens := tokenize mode sentence
    { sentence, tokens, accepted := g.recognize tokens }

/-- The lines of a text that are not blank, each one sentence. -/
def sentenceLines (text : String) : List String :=
  ((Text.lines text.toList).filter fun line => !Text.allBlank line).map String.ofList

/-- The sentence report of a text of sentences for a text of rules, or the error in the rules. -/
def reportValue (rules sentences : String) : Json :=
  match Grammar.read rules with
  | .ok g => (g.sentenceReport .words (sentenceLines sentences)).json
  | .error e => .object [("error", .string e.message)]

/-- The report as one JSON text, with its strings escaped in a given way. -/
def reportJsonWith (escape : String → String) (rules sentences : String) : String :=
  (reportValue rules sentences).renderWith escape

def reportJson (rules sentences : String) : String :=
  reportJsonWith Json.escape rules sentences

end ChomskyChart
