import BlockScript.Report.Layout
import BlockScript.Run.Interpreter
import BlockScript.Text.Blank
import BlockScript.Text.Rows
import BlockScript.Tree.Inspect

/-!
# What the program prints

A transcript is what has been printed on the two output channels.  Values go to the first
channel and reports of failures, in colour, to the second; a failure does not end the
program.
-/

set_option autoImplicit false

namespace BlockScript

/-- What has been printed on the two output channels. -/
structure Transcript where
  out : String
  err : String
  deriving DecidableEq, Repr

namespace Transcript

/-- Nothing has been printed. -/
def empty : Transcript := ⟨"", ""⟩

/-- One transcript after another. -/
def append (a b : Transcript) : Transcript := ⟨a.out ++ b.out, a.err ++ b.err⟩

instance : Append Transcript := ⟨append⟩

/-- A line on the first channel. -/
def line (text : String) : Transcript := ⟨text ++ "\n", ""⟩

end Transcript

namespace Console

/-- The text that shows a program before it is evaluated. -/
def programText (tree : Node Unit) : String :=
  "=== Parsed Program ===\n" ++ (tree.doc fun _ => false).pretty 0 ++ "\n\n"

/-- Evaluate a source text in the root frame and print its value after `lead`, or a report of
why there is none. -/
def interpret (budget : Nat) (debugParse : Bool) (lead source : String) (i : Interpreter) :
    Option (Transcript × Interpreter) :=
  match parse source with
  | .error e => some (⟨"", (Failure.source e).report true source⟩, i)
  | .ok tree =>
      let shown := if debugParse then programText tree else ""
      let (node, i) := i.adopt (fun _ => none) tree
      match i.evaluateTree budget node with
      | none => none
      | some (.ok value, i) => some (⟨shown ++ lead ++ value.text ++ "\n", ""⟩, i)
      | some (.error e, i) => some (⟨shown, e.report true source⟩, i)

/-! ## Programs that are piped in -/

/-- Evaluate the rows of an input one after another in the same root frame.  Blank rows are
passed over, and a row that is not valid text ends the input. -/
def pipeRows (budget : Nat) (debugParse : Bool) : Interpreter → List (List UInt8) →
    Option Transcript
  | _, [] => some .empty
  | i, row :: rest =>
      match String.fromUTF8? ⟨row.toArray⟩ with
      | none =>
          some ⟨"", "Error reading line from stdin: stream did not contain valid UTF-8\n"⟩
      | some source =>
          if isBlankText source.toList then pipeRows budget debugParse i rest
          else do
            let (printed, i) ← interpret budget debugParse "" source i
            return printed ++ (← pipeRows budget debugParse i rest)

/-- Evaluate an input of bytes row by row. -/
def pipe (budget : Nat) (debugParse : Bool) (limit : Nat) (input : List UInt8) :
    Option Transcript :=
  pipeRows budget debugParse (.fresh limit) (rows 10 13 input)

/-- Evaluate a single source text. -/
def once (budget : Nat) (debugParse : Bool) (limit : Nat) (source : String) :
    Option Transcript := do
  let (printed, _) ← interpret budget debugParse "" source (.fresh limit)
  return printed

end Console

end BlockScript
