/-!
# Places in a source text

A cursor is what is left of the text and how many bytes of it have been read.  The steps
below recognise the words and marks of the language at a cursor; each of them also passes
over the white space that follows, so a cursor always rests on something that counts.

Only ASCII text is ever recognised, so the number of bytes read by a step is the number of
characters.
-/

set_option autoImplicit false

namespace BlockScript

/-- A half-open range of byte offsets into a source text. -/
structure Span where
  start : Nat
  stop : Nat
  deriving DecidableEq, Repr

/-! ## Character classes -/

/-- White space between words: space, tab, carriage return and line feed. -/
def isGap (c : Char) : Bool := c = ' ' || c = '\t' || c = '\r' || c = '\n'

/-- A character that a name may start with. -/
def isNameStart (c : Char) : Bool := c.isAlpha

/-- A character that a name may go on with. -/
def isNameChar (c : Char) : Bool := c.isAlphanum || c = '_'

/-- A place in a source text. -/
structure Cursor where
  /-- The text that has not been read yet. -/
  rest : List Char
  /-- How many bytes have been read. -/
  pos : Nat
  deriving Repr

namespace Cursor

/-- The place at the start of a text. -/
def start (text : List Char) : Cursor := ⟨text, 0⟩

/-- Pass over white space. -/
def skipGap (c : Cursor) : Cursor :=
  go c.rest c.pos
where
  /-- Pass over white space at the front of a text. -/
  go : List Char → Nat → Cursor
    | [], pos => ⟨[], pos⟩
    | x :: rest, pos => if isGap x then go rest (pos + 1) else ⟨x :: rest, pos⟩

/-- Read a fixed text and the white space after it. -/
def mark? (text : List Char) (c : Cursor) : Option (Unit × Cursor) :=
  match text.isPrefixOf? c.rest with
  | some rest => some ((), skipGap ⟨rest, c.pos + text.length⟩)
  | none => none

/-- Whether a name could go on at the front of a text. -/
def continuesName : List Char → Bool
  | [] => false
  | x :: _ => isNameChar x

/-- Read a fixed word that no name character follows, and the white space after it. -/
def word? (text : List Char) (c : Cursor) : Option (Unit × Cursor) :=
  match text.isPrefixOf? c.rest with
  | some rest =>
      if continuesName rest then none else some ((), skipGap ⟨rest, c.pos + text.length⟩)
  | none => none

/-- The words that are not names. -/
def reservedWords : List (List Char) :=
  [['i', 'f'], ['e', 'l', 's', 'e'], ['f', 'o', 'r'], ['a', 'n', 'd'], ['o', 'r'],
    ['n', 'o', 't'], ['t', 'r', 'u', 'e'], ['f', 'a', 'l', 's', 'e']]

/-- Read a name and the white space after it.  A reserved word is not a name. -/
def name? (c : Cursor) : Option (String × Cursor) :=
  match c.rest with
  | [] => none
  | x :: rest =>
      if isNameStart x then
        let name := x :: rest.takeWhile isNameChar
        if reservedWords.contains name then none
        else
          some (String.ofList name, skipGap ⟨rest.dropWhile isNameChar, c.pos + name.length⟩)
      else none

/-- Read a row of digits and the white space after it. -/
def digits? (c : Cursor) : Option (List Char × Cursor) :=
  let digits := c.rest.takeWhile Char.isDigit
  if digits.isEmpty then none
  else some (digits, skipGap ⟨c.rest.dropWhile Char.isDigit, c.pos + digits.length⟩)

/-- Read a number with a point, as the digits before and after it, and the white space that
follows.  There may be no digit before the point, but there is one after it. -/
def fraction? (c : Cursor) : Option ((List Char × List Char) × Cursor) :=
  let whole := c.rest.takeWhile Char.isDigit
  match c.rest.dropWhile Char.isDigit with
  | '.' :: rest =>
      let fraction := rest.takeWhile Char.isDigit
      if fraction.isEmpty then none
      else
        some ((whole, fraction),
          skipGap ⟨rest.dropWhile Char.isDigit, c.pos + whole.length + 1 + fraction.length⟩)
  | _ => none

/-- Succeed at the end of the text only. -/
def finish? (c : Cursor) : Option (Unit × Cursor) :=
  if c.rest.isEmpty then some ((), c) else none

end Cursor

end BlockScript
