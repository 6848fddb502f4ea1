/-!
# The lines of a text

A text is cut into lines after each line end, which stays with its line.  A carriage return
and a line feed in a row are one line end.  A text that ends in a line end has no further
empty line, and an empty text is one empty line.
-/

set_option autoImplicit false

namespace BlockScript

/-- The characters that end a line: line feed, vertical tab, form feed, carriage return, next
line, and the line and paragraph separators. -/
def isLineEnd (c : Char) : Bool :=
  c = '\n' || c = '\x0b' || c = '\x0c' || c = '\r' || c = '\u0085' || c = '\u2028' ||
    c = '\u2029'

/-- A text cut after each line end. -/
def cutLines : List Char → List (List Char)
  | [] => []
  | '\r' :: '\n' :: rest => ['\r', '\n'] :: cutLines rest
  | c :: rest =>
      if isLineEnd c then [c] :: cutLines rest
      else
        match cutLines rest with
        | [] => [[c]]
        | line :: lines => (c :: line) :: lines

/-- A line of a text. -/
structure Line where
  /-- The number of lines before it. -/
  index : Nat
  /-- The number of characters before it. -/
  offset : Nat
  chars : List Char
  deriving Repr

namespace Line

/-- Lines with their places, from a place on. -/
def place (index offset : Nat) : List (List Char) → List Line
  | [] => []
  | chars :: rest => ⟨index, offset, chars⟩ :: place (index + 1) (offset + chars.length) rest

/-- The lines of a text. -/
def all (text : List Char) : List Line :=
  if text.isEmpty then [⟨0, 0, []⟩] else place 0 0 (cutLines text)

/-- The line that holds a character of a text, by the number of characters before it.  The
end of the text belongs to the last line; there is no line past it. -/
def at? (text : List Char) (offset : Nat) : Option Line :=
  if text.length < offset then none
  else ((all text).filter fun line => line.offset ≤ offset).getLast?

end Line

end BlockScript
