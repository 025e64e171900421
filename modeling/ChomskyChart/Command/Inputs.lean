import ChomskyChart.Text.Lines

/-!
# What a command reads

Standard input and files are bytes; they have to be UTF-8 to be read as text.
-/

namespace ChomskyChart.Command

inductive ReadError where
  | notFound
  | isDirectory
  | notText
  | other (message : String)
  deriving DecidableEq

def ReadError.message : ReadError → String
  | .notFound => "No such file or directory (os error 2)"
  | .isDirectory => "Is a directory (os error 21)"
  | .notText => "stream did not contain valid UTF-8"
  | .other message => message

structure Inputs where
  stdin : ByteArray
  file : String → Except ReadError ByteArray

def decode (bytes : ByteArray) : Except ReadError String :=
  match String.fromUTF8? bytes with
  | some text => .ok text
  | none => .error .notText

namespace Inputs

variable (inputs : Inputs)

def fileText (path : String) : Except ReadError String := do
  decode (← inputs.file path)

def stdinText : Except ReadError String :=
  decode inputs.stdin

/-- Standard input as rule text: every line ending is made a newline, and the last line has none. -/
def stdinRules : Except ReadError String := do
  return String.ofList (Text.unlines (Text.lines (← inputs.stdinText).toList))

end Inputs

end ChomskyChart.Command
