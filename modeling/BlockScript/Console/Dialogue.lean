import BlockScript.Console.Transcript
import BlockScript.Highlight.Token

/-!
# The interactive program

Lines are typed one at a time.  As long as the lines typed so far leave a bracket open they
are kept, and the next line goes on with them; otherwise they are evaluated together.  A
character that starts no token also ends the wait, so that the error can be reported.  The
word `exit` by itself ends the dialogue.
-/

set_option autoImplicit false

namespace BlockScript

/-- The state of a dialogue. -/
structure Dialogue where
  interpreter : Interpreter
  debugParse : Bool
  /-- The lines that wait for a closing bracket, if there are any. -/
  pending : Option String

/-- What a typed line leads to. -/
inductive Turn where
  /-- The dialogue goes on. -/
  | more (printed : Transcript) (next : Dialogue)
  /-- The dialogue is over. -/
  | over (printed : Transcript)

namespace Dialogue

/-- What is printed first. -/
def banner : Transcript :=
  .line "Paxl REPL - Type programs to evaluate (exit, Ctrl+D or Ctrl+C to quit)"

/-- What is printed when the dialogue is broken off. -/
def farewell : Transcript := .line "\nGoodbye!"

/-- A new dialogue. -/
def start (debugParse : Bool) (limit : Nat) : Dialogue := ⟨.fresh limit, debugParse, none⟩

/-- Whether a text leaves a bracket open. -/
def isUnfinished (text : String) : Bool :=
  match openBrackets text.toList with
  | some n => 0 < n
  | none => false

/-- Evaluate a finished text. -/
def submit (budget : Nat) (d : Dialogue) (text : String) : Option Turn :=
  let word := trim text.toList
  if word = ['e', 'x', 'i', 't'] then some (.over (.line "Goodbye!"))
  else if word.isEmpty then some (.more .empty { d with pending := none })
  else do
    let (printed, interpreter) ← Console.interpret budget d.debugParse "=> " text d.interpreter
    return .more printed ⟨interpreter, d.debugParse, none⟩

/-- Type a line. -/
def enter (budget : Nat) (d : Dialogue) (line : String) : Option Turn :=
  let text := match d.pending with
    | some lines => lines ++ "\n" ++ line
    | none => line
  if isUnfinished text then some (.more .empty { d with pending := some text })
  else submit budget d text

/-- Type lines one after another and then break the dialogue off. -/
def typeAll (budget : Nat) : Dialogue → List String → Option Transcript
  | _, [] => some farewell
  | d, line :: rest => do
      match ← d.enter budget line with
      | .over printed => return printed
      | .more printed d => return printed ++ (← typeAll budget d rest)

/-- The transcript of a whole dialogue. -/
def transcript (budget : Nat) (debugParse : Bool) (limit : Nat) (lines : List String) :
    Option Transcript := do
  return banner ++ (← typeAll budget (start debugParse limit) lines)

end Dialogue

end BlockScript
