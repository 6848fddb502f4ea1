import BlockScript.Grammar.Nesting

/-!
# Tokens of a line

A line that is being typed is cut into pieces: tokens, runs of white space between them, and
single characters that start no token.  Nothing is dropped, so the pieces of a line joined
together are the line.  A token is always the longest one that starts at its place, and a
word is a name only if it is not one of the fixed words.

The cut does not know the grammar.  It is enough to colour a line and to see whether its
brackets are closed.
-/

set_option autoImplicit false

namespace BlockScript

/-- The kinds of tokens. -/
inductive TokenKind where
  | openBrace
  | closeBrace
  | openParen
  | closeParen
  | bar
  | separator
  | keyword
  | wordOperator
  | boolean
  /-- The word `this`. -/
  | self
  | float
  | integer
  | name
  | operator
  deriving DecidableEq, Repr

/-- What a piece of a line is. -/
inductive PieceKind where
  | token (kind : TokenKind)
  | gap
  /-- A character that starts no token. -/
  | stray
  deriving DecidableEq, Repr

/-- A piece of a line. -/
structure Piece where
  kind : PieceKind
  text : List Char
  deriving DecidableEq, Repr

namespace Piece

/-- White space between tokens. -/
def isSpace (c : Char) : Bool := isGap c || c = '\x0c'

/-- The kind of a word. -/
def wordKind (word : List Char) : TokenKind :=
  if word ∈ [['i', 'f'], ['e', 'l', 's', 'e'], ['f', 'o', 'r']] then .keyword
  else if word ∈ [['a', 'n', 'd'], ['o', 'r'], ['n', 'o', 't']] then .wordOperator
  else if word ∈ [['t', 'r', 'u', 'e'], ['f', 'a', 'l', 's', 'e']] then .boolean
  else if word = ['t', 'h', 'i', 's'] then .self
  else .name

/-- The kind of a mark of a single character. -/
def markKind (x : Char) : Option TokenKind :=
  if x = '{' then some .openBrace
  else if x = '}' then some .closeBrace
  else if x = '(' then some .openParen
  else if x = ')' then some .closeParen
  else if x = '|' then some .bar
  else if x = ';' || x = ',' then some .separator
  else if x ∈ ['<', '>', '=', '+', '-', '*', '/'] then some .operator
  else none

/-- The kind of the piece that starts with `x`, and its characters after `x`. -/
def first (x : Char) (rest : List Char) : PieceKind × List Char :=
  if isSpace x then (.gap, rest.takeWhile isSpace)
  else if isNameStart x then
    let tail := rest.takeWhile isNameChar
    (.token (wordKind (x :: tail)), tail)
  else if x.isDigit || x = '.' then
    let digits := (x :: rest).takeWhile Char.isDigit
    let fraction := match (x :: rest).dropWhile Char.isDigit with
      | '.' :: after => after.takeWhile Char.isDigit
      | _ => []
    if !fraction.isEmpty then (.token .float, (digits ++ '.' :: fraction).tail)
    else if x.isDigit then (.token .integer, digits.tail)
    else (.stray, [])
  else if x ∈ ['=', '!', '<', '>'] && rest.head? = some '=' then (.token .operator, ['='])
  else
    match markKind x with
    | some kind => (.token kind, [])
    | none => (.stray, [])

/-- Cut a text into at most `fuel` pieces. -/
def cutWithin : (fuel : Nat) → List Char → List Piece
  | 0, _ => []
  | _ + 1, [] => []
  | fuel + 1, x :: rest =>
      let (kind, tail) := first x rest
      ⟨kind, x :: tail⟩ :: cutWithin fuel (rest.drop tail.length)

/-- Cut a line into pieces.  There is at most one piece per character. -/
def cut (line : List Char) : List Piece := cutWithin line.length line

end Piece

/-! ## Tokens with their places -/

/-- A token, or a character that starts none, and its place in bytes. -/
structure Token where
  /-- The kind; none for a character that starts no token. -/
  kind : Option TokenKind
  span : Span
  deriving DecidableEq, Repr

/-- The tokens among pieces that start at byte offset `pos`. -/
def tokensFrom (pos : Nat) : List Piece → List Token
  | [] => []
  | piece :: rest =>
      let stop := pos + Nesting.byteLength piece.text
      match piece.kind with
      | .gap => tokensFrom stop rest
      | .stray => ⟨none, ⟨pos, stop⟩⟩ :: tokensFrom stop rest
      | .token kind => ⟨some kind, ⟨pos, stop⟩⟩ :: tokensFrom stop rest

/-- The tokens of a line. -/
def tokens (line : List Char) : List Token := tokensFrom 0 (Piece.cut line)

/-! ## Open brackets -/

/-- What a kind of token adds to the number of open brackets. -/
def TokenKind.opening : TokenKind → Int
  | .openBrace => 1
  | .openParen => 1
  | .closeBrace => -1
  | .closeParen => -1
  | _ => 0

/-- The number of brackets that a text leaves open, or nothing if a character in it starts
no token.  More closing than opening brackets leave none open. -/
def openBrackets (text : List Char) : Option Nat :=
  let kinds := (tokens text).map Token.kind
  if kinds.contains none then none
  else some (((kinds.filterMap id).map TokenKind.opening).foldr (· + ·) 0).toNat

end BlockScript
