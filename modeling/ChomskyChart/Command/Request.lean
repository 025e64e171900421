import ChomskyChart.Format.Basic
import ChomskyChart.Tokens

/-!
# The command line

The arguments are section words, then options, then at most one path. The first argument that is
no section word ends the sections, and the first after them that does not start with a hyphen ends
the options.
-/

namespace ChomskyChart.Command

/-- What to print. -/
inductive Section where
  | productions
  | recognition
  | charts
  | demo
  deriving DecidableEq

def Section.ofWord? : String → Option Section
  | "prod" => some .productions
  | "recognize" => some .recognition
  | "table" => some .charts
  | "demo" => some .demo
  | _ => none

/-- Whether a section is about sentences of the user. -/
def Section.needsSentences : Section → Bool
  | .recognition | .charts => true
  | .productions | .demo => false

inductive Flag where
  | help
  | format (format : Format)
  | characters
  | start
  | sentence
  deriving DecidableEq

def Flag.ofArgument? : String → Option Flag
  | "-h" | "--help" => some .help
  | "-l" => some (.format .latex)
  | "-j" => some (.format .json)
  | "-c" => some .characters
  | "-S" => some .start
  | "-s" => some .sentence
  | _ => none

/-- Of a format and a start symbol the last one given counts, of sentences all. -/
structure Options where
  format : Format := .plain
  mode : TokenMode := .words
  start : Option String := none
  sentences : List String := []
  deriving DecidableEq

/-- Why the help is shown instead of an answer. -/
inductive HelpCause where
  | asked
  | badOption
  | badArguments
  deriving DecidableEq

structure Request where
  sections : List Section
  options : Options
  path : Option String
  deriving DecidableEq

def readSections : List String → List Section × List String
  | [] => ([], [])
  | arg :: args =>
    match Section.ofWord? arg with
    | some s => ((s :: (readSections args).1), (readSections args).2)
    | none => ([], arg :: args)

def startsWithHyphen (arg : String) : Bool :=
  arg.toList.head? == some '-'

/-- Read options until an argument without a hyphen. A start symbol or a sentence is the whole next
argument, whatever it looks like. -/
def readOptions (o : Options) : List String → Except HelpCause (Options × List String)
  | [] => .ok (o, [])
  | arg :: args =>
    if !startsWithHyphen arg then .ok (o, arg :: args) else
    match Flag.ofArgument? arg, args with
    | some .help, _ => .error .asked
    | some (.format format), args => readOptions { o with format } args
    | some .characters, args => readOptions { o with mode := .characters } args
    | some .start, name :: args => readOptions { o with start := some name } args
    | some .sentence, s :: args => readOptions { o with sentences := o.sentences ++ [s] } args
    | _, _ => .error .badOption

def Request.ofArguments (args : List String) : Except HelpCause Request := do
  let (sections, rest) := readSections args
  let (options, rest) ← readOptions {} rest
  match sections, rest with
  | _ :: _, [] => return { sections, options, path := none }
  | _ :: _, [path] => return { sections, options, path := some path }
  | _, _ => throw .badArguments

/-- Whether the request is for the demonstration alone, which needs no grammar. -/
def Request.isDemo (r : Request) : Bool :=
  r.sections == [.demo]

/-- Whether sentences have to be read from somewhere. -/
def Request.lacksSentences (r : Request) : Bool :=
  r.sections.any (·.needsSentences) && r.options.sentences.isEmpty

/-- Whether the answer depends on standard input. -/
def Request.readsInput (r : Request) : Bool :=
  !r.isDemo && (r.path.isNone || r.lacksSentences)

end ChomskyChart.Command
