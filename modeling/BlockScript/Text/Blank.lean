import BlockScript.Text.Ranges

/-!
# Blank text

White space in the sense of the Unicode property `White_Space`, which is wider than the
white space that may stand between the words of a program.
-/

set_option autoImplicit false

namespace BlockScript

/-- The characters with the property `White_Space`. -/
def blanks : CharRanges :=
  [(0x9, 0xd), (0x20, 0x20), (0x85, 0x85), (0xa0, 0xa0), (0x1680, 0x1680), (0x2000, 0x200a),
    (0x2028, 0x2029), (0x202f, 0x202f), (0x205f, 0x205f), (0x3000, 0x3000)]

/-- Whether a character is white space. -/
def isBlank (c : Char) : Bool := blanks.contains c

/-- Whether there is nothing but white space in a text. -/
def isBlankText (text : List Char) : Bool := text.all isBlank

/-- A text without the white space at its end. -/
def trimEnd (text : List Char) : List Char := (text.reverse.dropWhile isBlank).reverse

/-- A text without the white space at its two ends. -/
def trim (text : List Char) : List Char := trimEnd (text.dropWhile isBlank)

end BlockScript
