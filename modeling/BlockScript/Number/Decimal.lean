/-!
# Decimal text of floating-point numbers

A float is written with the fewest decimal digits that read back to the same float; of two
texts with that many digits the nearer one is taken, and the upper one if both are equally
near.  The search tests each candidate by reading its text with `ofDigits`, the function
that also gives float literals their value, so that what is printed and what is read cannot
drift apart.

A finite float is the exact quotient of two natural numbers (`Magnitude`), and all digit
arithmetic is done on that quotient.
-/

set_option autoImplicit false

namespace BlockScript

/-! ## Reading -/

/-- The value of a digit character, `0` to `9`. -/
def digitValue (c : Char) : Nat := c.toNat - '0'.toNat

/-- The number that a row of decimal digits denotes; no digits denote zero. -/
def natOfDigits (digits : List Char) : Nat :=
  digits.foldl (fun total c => 10 * total + digitValue c) 0

/-- The float nearest to `whole.fraction`, halves to the even neighbour.  Too large a
number gives infinity and too small a one zero. -/
def ofDigits (whole fraction : List Char) : Float :=
  Float.ofScientific (natOfDigits (whole ++ fraction)) true fraction.length

/-! ## Positional decimals -/

/-- A positive decimal number: its significant digits, and how many of them stand before
the point.  A `point` below zero counts the zeros that follow the point first. -/
structure Decimal where
  digits : List Char
  point : Int
  deriving DecidableEq, Repr

namespace Decimal

/-- The digits before the point, at least one. -/
def whole (d : Decimal) : List Char :=
  match d.point with
  | .ofNat 0 => ['0']
  | .ofNat p => d.digits.take p ++ List.replicate (p - d.digits.length) '0'
  | .negSucc _ => ['0']

/-- The digits after the point, at least one. -/
def fraction (d : Decimal) : List Char :=
  match d.point with
  | .ofNat p => if p < d.digits.length then d.digits.drop p else ['0']
  | .negSucc p => List.replicate (p + 1) '0' ++ d.digits

/-- The number written out without an exponent, always with a fraction. -/
def positional (d : Decimal) : List Char := d.whole ++ '.' :: d.fraction

/-- The number written with one digit before the point and a power of ten; the point is
left out after a single digit. -/
def scientific (d : Decimal) : List Char :=
  let mantissa := match d.digits with
    | [] => []
    | [c] => [c]
    | c :: rest => c :: '.' :: rest
  mantissa ++ 'e' :: (toString (d.point - 1)).toList

/-- The float that the written number reads back to. -/
def toFloat (d : Decimal) : Float := ofDigits d.whole d.fraction

/-- The decimal of `n` units of the power `unit` of ten, without zeros at its end. -/
def ofUnits (n : Nat) (unit : Int) : Decimal :=
  let row := Nat.toDigits 10 n
  { digits := (row.reverse.dropWhile (· == '0')).reverse
    point := row.length + unit }

end Decimal

/-! ## The exact value of a float -/

/-- A positive number whose denominator is a power of two. -/
structure Magnitude where
  num : Nat
  den : Nat
  deriving Repr

namespace Magnitude

/-- The absolute value of a finite float. -/
def ofFloat (x : Float) : Magnitude :=
  let bits := x.toBits.toNat
  let exponent := bits / Nat.pow 2 52 % Nat.pow 2 11
  let tail := bits % Nat.pow 2 52
  -- the exponent zero marks the numbers without the leading binary digit
  let mantissa := if exponent = 0 then tail else tail + Nat.pow 2 52
  let shift := max exponent 1
  if 1075 ≤ shift then ⟨mantissa * Nat.pow 2 (shift - 1075), 1⟩
  else ⟨mantissa, Nat.pow 2 (1075 - shift)⟩

/-- How many digits stand before the point; zero or less for numbers below one. -/
def point (v : Magnitude) : Int :=
  if v.den ≤ v.num then (Nat.toDigits 10 (v.num / v.den)).length
  else
    let row := (Nat.toDigits 10 (v.den / v.num)).length
    if v.num * Nat.pow 10 (row - 1) = v.den then 2 - row else 1 - row

/-- The two neighbours of the number among the multiples of the power `unit` of ten, the
nearer one first and the upper one first if both are equally near. -/
def neighbours (v : Magnitude) (unit : Int) : List Decimal :=
  let (num, den) := match unit with
    | .ofNat u => (v.num, v.den * Nat.pow 10 u)
    | .negSucc u => (v.num * Nat.pow 10 (u + 1), v.den)
  let lower := num / den
  let upper := lower + 1
  if 2 * (num % den) < den then [.ofUnits lower unit, .ofUnits upper unit]
  else [.ofUnits upper unit, .ofUnits lower unit]

/-- All digits of the number. -/
def expansion (v : Magnitude) : Decimal :=
  .ofUnits (v.num * Nat.pow 5 v.den.log2) (-v.den.log2)

end Magnitude

/-! ## Shortest digits -/

/-- Whether a decimal reads back to a float. -/
def Decimal.readsBack (x : Float) (d : Decimal) : Bool := d.toFloat.toBits == x.toBits

/-- The decimal with the fewest digits that reads back to the finite positive float `x`: one
of the two neighbours of `x` with 1, 2, … 17 digits.  Seventeen digits are enough. -/
def Decimal.shortest (x : Float) : Decimal :=
  let v := Magnitude.ofFloat x
  let found := (List.range 17).findSome? fun (n : Nat) =>
    (v.neighbours (v.point - (n + 1))).find? (Decimal.readsBack x)
  found.getD v.expansion

/-! ## Layouts -/

/-- How floats are laid out as text. -/
structure FloatLayout where
  /-- The text of a float that is not a number. -/
  notANumber : String
  /-- Whether a number with this many digits before its point is written out in full. -/
  inFull : Int → Bool

/-- The text of a float in a layout.  A whole number keeps a zero after its point, and
negative zero keeps its sign. -/
def FloatLayout.text (layout : FloatLayout) (x : Float) : String :=
  if x.isNaN then layout.notANumber
  else
    let sign := if x.toBits.toNat / Nat.pow 2 63 = 1 then "-" else ""
    let body :=
      if x.isInf then "inf"
      else if x == 0.0 then "0.0"
      else
        let d := Decimal.shortest x.abs
        String.ofList (if layout.inFull d.point then d.positional else d.scientific)
    sign ++ body

/-- Printed floats never have an exponent. -/
def FloatLayout.printed : FloatLayout where
  notANumber := "nan"
  inFull _ := true

/-- Floats in debug text have an exponent from `1e16` upwards and below `1e-4`. -/
def FloatLayout.debug : FloatLayout where
  notANumber := "NaN"
  inFull point := -4 < point && point ≤ 16

end BlockScript
