/-!
# Sets of characters as ranges of code points

Properties that the Unicode standard gives to characters are kept as tables of ranges of
code points, both ends included.
-/

set_option autoImplicit false

namespace BlockScript

/-- A set of characters: ranges of code points, both ends included. -/
abbrev CharRanges := List (Nat × Nat)

/-- Whether a character is in the set. -/
def CharRanges.contains (ranges : CharRanges) (c : Char) : Bool :=
  ranges.any fun (first, last) => first ≤ c.toNat && c.toNat ≤ last

end BlockScript
