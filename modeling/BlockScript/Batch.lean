import BlockScript.Run.Interpreter
import BlockScript.Text.Blank
import BlockScript.Text.Rows

/-!
# Tables of programs

A table is a text with one row per line and cells between tabs.  Every cell is a program.
The cells of a row are run from left to right in an interpreter of their own, and the value
of each is bound to the letter of its column, so that later cells of the row can use it.  A
blank cell counts as `nil` and binds nothing, a cell that fails shows its error, and there
is no letter for cells past the twenty-sixth.

The answer to a row is one line: the index of the row and the texts of its cells between
commas.
-/

set_option autoImplicit false

namespace BlockScript

namespace Batch

/-- The letters of the columns. -/
def columnLetters : List Char := "ABCDEFGHIJKLMNOPQRSTUVWXYZ".toList

/-- The text of a failure in a cell. -/
def failureText : Failure → String
  | .source error => error.diagnostic.message
  | .evaluation error => error.message

/-- Run a cell in a column: its text, and the interpreter afterwards. -/
def runCell (budget : Nat) (i : Interpreter) (column : Nat) (cell : List Char) :
    Option (String × Interpreter) :=
  match columnLetters[column]? with
  | none => some (s!"#ERROR: no column label for cell {column + 1}", i)
  | some letter =>
      if isBlankText cell then some (Value.nil.text, i)
      else
        match i.run budget (String.ofList cell) with
        | none => none
        | some (.ok value, i) =>
            some (value.text, i.bind i.root (String.singleton letter) value)
        | some (.error e, i) => some ("#ERROR: " ++ failureText e, i)

/-- Run cells from a column on. -/
def runCells (budget : Nat) (i : Interpreter) : (column : Nat) → List (List Char) →
    Option (List String)
  | _, [] => some []
  | column, cell :: rest => do
      let (text, i) ← runCell budget i column cell
      return text :: (← runCells budget i (column + 1) rest)

/-- The line that answers a row. -/
def runRow (budget limit index : Nat) (row : List Char) : Option String := do
  let texts ← runCells budget (.fresh limit) 0 (splitAtMark '\t' row)
  return s!"{index}," ++ ",".intercalate texts

/-- The lines that answer rows from an index on. -/
def runRows (budget limit : Nat) : (index : Nat) → List (List Char) → Option (List String)
  | _, [] => some []
  | index, row :: rest => do
      let line ← runRow budget limit index row
      return line :: (← runRows budget limit (index + 1) rest)

/-- The lines that answer a table. -/
def run (budget limit : Nat) (table : String) : Option (List String) :=
  runRows budget limit 0 (textRows table.toList)

end Batch

end BlockScript
