/-!
# Rows of an input

An input is cut into rows at each line feed, and a carriage return right before the line
feed is dropped with it.  What stands after the last line feed is a row of its own unless it
is empty.  Inputs may be rows of characters or rows of bytes, so the two marks are
parameters.
-/

set_option autoImplicit false

namespace BlockScript

variable {α : Type} [DecidableEq α]

/-- Add a symbol in front of the first row. -/
def prependToRow (x : α) : List (List α) → List (List α)
  | [] => [[x]]
  | row :: rest => (x :: row) :: rest

/-- The rows of an input with the given line feed and carriage return. -/
def rows (feed carriage : α) : List α → List (List α)
  | [] => []
  | x :: rest =>
      if x = feed then [] :: rows feed carriage rest
      else if x = carriage && rest.head? = some feed then rows feed carriage rest
      else prependToRow x (rows feed carriage rest)

/-- The rows of a text. -/
def textRows (text : List Char) : List (List Char) := rows '\n' '\r' text

/-- A text cut at each `mark`; there is always at least one part. -/
def splitAtMark (mark : α) : List α → List (List α)
  | [] => [[]]
  | x :: rest =>
      if x = mark then [] :: splitAtMark mark rest
      else prependToRow x (splitAtMark mark rest)

end BlockScript
