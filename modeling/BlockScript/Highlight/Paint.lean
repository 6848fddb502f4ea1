import BlockScript.Highlight.Token

/-!
# Colours of a line

Each piece of a line gets a colour.  White space has the colour of marks, and a character
that starts no token is underlined.
-/

set_option autoImplicit false

namespace BlockScript

/-- The colours in which a line is shown. -/
inductive Hue where
  | magenta
  | cyan
  | yellow
  | red
  | blue
  | white
  deriving DecidableEq, Repr

/-- How a segment of a line is shown. -/
structure Style where
  hue : Hue
  underlined : Bool
  deriving DecidableEq, Repr

/-- The colour of a kind of token. -/
def TokenKind.hue : TokenKind → Hue
  | .keyword => .magenta
  | .wordOperator => .magenta
  | .boolean => .cyan
  | .float => .cyan
  | .integer => .cyan
  | .self => .yellow
  | .name => .red
  | .bar => .blue
  | _ => .white

/-- How a piece is shown. -/
def PieceKind.style : PieceKind → Style
  | .token kind => ⟨kind.hue, false⟩
  | .gap => ⟨.white, false⟩
  | .stray => ⟨.white, true⟩

/-- The segments of a line, each with its style. -/
def paint (line : List Char) : List (Style × List Char) :=
  (Piece.cut line).map fun piece => (piece.kind.style, piece.text)

end BlockScript
