/-!
# Coloured text on a terminal

Text is coloured by an escape sequence before it and another one after it that ends all
colours.  Where no colour is wanted the same text is written without them.
-/

set_option autoImplicit false

namespace BlockScript

/-- The colour of a piece of text. -/
inductive Ink where
  | plain
  | red
  /-- A colour of the palette of 256 colours. -/
  | palette (index : Nat)
  deriving DecidableEq, Repr

/-- The escape sequence that starts a colour. -/
def Ink.escape : Ink → String
  | .plain => ""
  | .red => "\x1b[31m"
  | .palette index => s!"\x1b[38;5;{index}m"

/-- A text in a colour, if colours are wanted. -/
def Ink.write (colored : Bool) (ink : Ink) (text : String) : String :=
  if colored && ink ≠ .plain then ink.escape ++ text ++ "\x1b[0m" else text

/-- Each character of a text in a colour by itself. -/
def Ink.writeEach (colored : Bool) (ink : Ink) (text : String) : String :=
  String.join (text.toList.map fun c => ink.write colored (String.singleton c))

end BlockScript
