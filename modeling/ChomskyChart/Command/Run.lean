import ChomskyChart.Command.Inputs
import ChomskyChart.Command.Request
import ChomskyChart.Recognition.Trace
import ChomskyChart.Report.Charts
import ChomskyChart.Report.Productions
import ChomskyChart.Report.Sentences
import ChomskyChart.Samples

/-!
# Answering a command

The answer is a function of the arguments and of what can be read. Standard output holds the
sections in the order they were asked for. Standard error holds the warnings of the grammar and
after them either one error or, when tracing, the trace of every chart that was filled.

A fault would mean that a report asked its own grammar for a symbol that does not exist.
-/

namespace ChomskyChart.Command

def helpText : String :=
  "Usage: cky-recognizer outputs [options] [grammar file]
outputs:
  prod: Productions
  recognize: Whether each sentence is in the language
  table: CKY table of each sentence
  demo: Run the sample grammars G1 and G2 (no grammar needed)
options:
  -h: Print this help
  -l: Print in LaTeX format
  -j: Print in JSON format
  -c: One token per character instead of whitespace separated
  -S <symbol>: Start symbol (default: first left side)
  -s <sentence>: Sentence to check, may be repeated
Without -s, sentences are read from stdin, one per line.
"

structure Outcome where
  exit : Nat
  stdout : String
  stderr : String
  deriving DecidableEq

/-- Why a request cannot be answered. -/
inductive Failure where
  | unreadableFile (path : String) (error : ReadError)
  | unreadableStdin (error : ReadError)
  | badRules (error : RuleError)
  | noSentences
  deriving DecidableEq

def Failure.message : Failure → String
  | .unreadableFile path e => "failed to read " ++ path ++ ": " ++ e.message
  | .unreadableStdin e => "failed to read stdin: " ++ e.message
  | .badRules e => e.message
  | .noSentences => "the grammar was read from stdin, give sentences with -s"

def HelpCause.exit : HelpCause → Nat
  | .asked | .badArguments => 0
  | .badOption => 1

def line (text : String) : String :=
  text ++ "\n"

def warningLines (ws : List Warning) : String :=
  String.join (ws.map fun w => line ("warning: " ++ w.message))

/-- The text of the rules, from the path or else from standard input. -/
def ruleText (inputs : Inputs) : Option String → Except Failure String
  | some path => (inputs.fileText path).mapError (.unreadableFile path)
  | none => inputs.stdinRules.mapError .unreadableStdin

def readGrammar (inputs : Inputs) (r : Request) : Except Failure Grammar := do
  let text ← ruleText inputs r.path
  (Grammar.readFrom text r.options.start).mapError .badRules

/-- The sentences to answer for. They cannot come from standard input when the grammar did. -/
def readSentences (inputs : Inputs) (r : Request) : Except Failure (List String) :=
  if !r.lacksSentences then .ok r.options.sentences
  else if r.path.isNone then .error .noSentences
  else (inputs.stdinText.map sentenceLines).mapError .unreadableStdin

/-! What a section prints, and the trace of the charts that it fills. -/

def sampleText (format : Format) (s : Sample) : Except Fault String := do
  let productions ← s.grammar.productionReport
  let sentences := s.grammar.sentenceReport .characters s.sentences
  return match format with
    | .plain => line ("\nGrammar " ++ s.title) ++ line productions.plain ++ line sentences.plain
    | .latex => line productions.latex ++ line sentences.latex
    | .json => line sentences.json.render

def traceText (g : Grammar) (mode : TokenMode) (sentences : List String) : String :=
  String.join (sentences.map fun s =>
    String.join ((TraceBlock.ofFill g.index (tokenize mode s)).map (·.render)))

def samplesText (format : Format) : Except Fault String := do
  return String.join (← Sample.all.mapM (sampleText format))

def samplesTrace : String :=
  String.join (Sample.all.map fun s => traceText s.grammar .characters s.sentences)

def Section.text (g : Grammar) (o : Options) (sentences : List String) :
    Section → Except Fault String
  | .productions => do return line ((← g.productionReport).render o.format)
  | .recognition => .ok (line ((g.sentenceReport o.mode sentences).render o.format))
  | .charts => do
    let reports ← sentences.mapM fun s => g.chartReport (tokenize o.mode s)
    return String.join (reports.map fun r => line (r.render o.format))
  | .demo => samplesText o.format

def Section.trace (g : Grammar) (o : Options) (sentences : List String) : Section → String
  | .productions => ""
  | .recognition | .charts => traceText g o.mode sentences
  | .demo => samplesTrace

def failed (ws : List Warning) (f : Failure) : Outcome where
  exit := 1
  stdout := ""
  stderr := warningLines ws ++ line ("error: " ++ f.message)

def answer (traced : Bool) (inputs : Inputs) (r : Request) : Except Fault Outcome := do
  if r.isDemo then
    return {
      exit := 0
      stdout := ← samplesText r.options.format
      stderr := if traced then samplesTrace else "" }
  match readGrammar inputs r with
  | .error f => return failed [] f
  | .ok g =>
    match readSentences inputs r with
    | .error f => return failed g.warnings f
    | .ok sentences =>
      let texts ← r.sections.mapM (·.text g r.options sentences)
      let traces := r.sections.map (·.trace g r.options sentences)
      return {
        exit := 0
        stdout := String.join texts
        stderr := warningLines g.warnings ++ if traced then String.join traces else "" }

def run (traced : Bool) (inputs : Inputs) (args : List String) : Except Fault Outcome :=
  match Request.ofArguments args with
  | .error cause => .ok { exit := cause.exit, stdout := helpText, stderr := "" }
  | .ok request => answer traced inputs request

end ChomskyChart.Command
