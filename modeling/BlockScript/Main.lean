import BlockScript.Console.Dialogue
import BlockScript.Console.Program

/-!
# The command-line program

The outer layer: it asks the console what the arguments mean, reads the input or the file
that is needed, and prints what the console answers.
-/

set_option autoImplicit false

open BlockScript

/-- Print a transcript on the two output channels. -/
def printTranscript (printed : Transcript) : IO Unit := do
  let out ← IO.getStdout
  let err ← IO.getStderr
  out.putStr printed.out
  out.flush
  err.putStr printed.err
  err.flush

/-- All bytes of a stream. -/
partial def readAll (stream : IO.FS.Stream) (read : ByteArray) : IO ByteArray := do
  let more ← stream.read 65536
  if more.isEmpty then return read else readAll stream (read ++ more)

/-- Go on with a dialogue until it is over or the input ends. -/
partial def converse (input : IO.FS.Stream) (dialogue : Dialogue) : IO Unit := do
  let line ← input.getLine
  if line.isEmpty then printTranscript Dialogue.farewell
  else
    match dialogue.enter standardBudget (line.dropEndWhile (· == '\n')).toString with
    | some (.more printed next) => do
        printTranscript printed
        converse input next
    | some (.over printed) => printTranscript printed
    | none => return ()

/-- The text of a file, if it can be read. -/
def fileText? (path : String) : IO (Option String) := do
  try
    return some (← IO.FS.readFile path)
  catch _ => return none

/-- Perform a request that takes its input from a file or from bytes. -/
def performWith (request : Request) (text : Option String) (input : ByteArray) : IO UInt32 := do
  match Console.perform standardBudget (fun _ => text) input.toList request with
  | some ending => do
      printTranscript ending.printed
      return ending.code.toUInt32
  | none => return 1

/-- Run the program on its command-line arguments. -/
def main (arguments : List String) : IO UInt32 := do
  let request := Arguments.parse arguments
  match request with
  | .run .input options => do
      let input ← IO.getStdin
      if ← input.isTty then
        printTranscript Dialogue.banner
        converse input (.start options.debugParse options.maxDepth)
        return 0
      else performWith request none (← readAll input .empty)
  | .run (.batch file _) _ => do performWith request (← fileText? file) .empty
  | _ => performWith request none .empty
