import ChomskyChart.Command.Run

/-!
# The program

Reads what the request needs and prints the answer. Nothing is decided here.
-/

namespace ChomskyChart.Command

/-- Everything a stream still holds. -/
partial def readToEnd (stream : IO.FS.Stream) (bytes : ByteArray) : IO ByteArray := do
  let more ← stream.read 65536
  if more.isEmpty then return bytes
  readToEnd stream (bytes ++ more)

def readErrorOf : IO.Error → ReadError
  | .noFileOrDirectory .. => .notFound
  | .inappropriateType _ 21 _ => .isDirectory
  | e => .other (toString e)

def readBytes (path : String) : IO (Except ReadError ByteArray) := do
  try
    return .ok (← IO.FS.readBinFile path)
  catch e =>
    return .error (readErrorOf e)

/-- Read standard input and the file of a request, as far as the answer depends on them. -/
def gather : Except HelpCause Request → IO Inputs
  | .error _ => return { stdin := .empty, file := fun _ => .error .notFound }
  | .ok r => do
    let file ← match r.path with
      | some path => if r.isDemo then pure (.error .notFound) else readBytes path
      | none => pure (.error .notFound)
    let stdin ← if r.readsInput then readToEnd (← IO.getStdin) .empty else pure .empty
    return { stdin, file := fun _ => file }

end ChomskyChart.Command

open ChomskyChart Command in
def main (args : List String) : IO UInt32 := do
  let inputs ← gather (Request.ofArguments args)
  match run false inputs args with
  | .ok outcome =>
    IO.eprint outcome.stderr
    IO.print outcome.stdout
    return outcome.exit.toUInt32
  | .error fault =>
    IO.eprintln fault.message
    return 101
