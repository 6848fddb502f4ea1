import BlockScript.Batch
import BlockScript.Console.Arguments
import BlockScript.Console.Transcript

/-!
# The program as a whole

Everything that the program does with its arguments, an input that is not typed by a person,
and the file it is asked to read, up to what it prints and the exit code it ends with.
-/

set_option autoImplicit false

namespace BlockScript

/-- How a program ends. -/
structure Ending where
  code : Nat
  printed : Transcript
  deriving DecidableEq, Repr

namespace Console

/-- The program refused its arguments. -/
def badUsage : Ending := ⟨2, .empty⟩

/-- A file could not be read. -/
def unreadable : Ending := ⟨1, .empty⟩

/-- Run the program on a request.  `readFile` gives the text of a file if it can be read. -/
def perform (budget : Nat) (readFile : String → Option String) (input : List UInt8) :
    Request → Option Ending
  | .refuse => some badUsage
  | .help batch => some ⟨0, ⟨Arguments.helpText batch, ""⟩⟩
  | .run (.expression text) options => do
      return ⟨0, ← once budget options.debugParse options.maxDepth text⟩
  | .run .input options => do
      return ⟨0, ← pipe budget options.debugParse options.maxDepth input⟩
  | .run (.batch file _) options =>
      match readFile file with
      | none => some unreadable
      | some table => do
          let lines ← Batch.run budget options.maxDepth table
          return ⟨0, ⟨String.join (lines.map (· ++ "\n")), ""⟩⟩

end Console

end BlockScript
