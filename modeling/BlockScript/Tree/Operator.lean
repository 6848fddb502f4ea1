/-!
# Operators

The operators of the language in the three families that the evaluator tells apart,
arithmetic, logic and comparison, and the binary operators as an expression writes them
between its operands.  `not` belongs to the logic family but stands before its operand, so
it is not a `BinaryOp`.
-/

set_option autoImplicit false

namespace BlockScript

/-- Operators on numbers. -/
inductive ArithOp where
  | add
  | sub
  | mul
  | div
  deriving DecidableEq, Repr

/-- Operators on truth values.  `not` keeps a second operand, which it ignores. -/
inductive LogicOp where
  | and
  | or
  | not
  deriving DecidableEq, Repr

/-- Comparisons. -/
inductive CompareOp where
  | eq
  | ne
  | le
  | ge
  | lt
  | gt
  deriving DecidableEq, Repr

namespace ArithOp

/-- All arithmetic operators, in the order in which they are listed to a reader. -/
def all : List ArithOp := [.add, .sub, .mul, .div]

/-- The operator as it is written in a program. -/
def symbol : ArithOp → String
  | .add => "+"
  | .sub => "-"
  | .mul => "*"
  | .div => "/"

/-- The short name of the operator in debug text. -/
def name : ArithOp → String
  | .add => "Add"
  | .sub => "Sub"
  | .mul => "Mul"
  | .div => "Div"

end ArithOp

namespace LogicOp

/-- All logic operators, in the order in which they are listed to a reader. -/
def all : List LogicOp := [.and, .or, .not]

/-- The operator as it is written in a program. -/
def symbol : LogicOp → String
  | .and => "and"
  | .or => "or"
  | .not => "not"

/-- The short name of the operator in debug text. -/
def name : LogicOp → String
  | .and => "And"
  | .or => "Or"
  | .not => "Not"

end LogicOp

namespace CompareOp

/-- All comparisons, in the order in which they are listed to a reader. -/
def all : List CompareOp := [.eq, .ne, .le, .ge, .lt, .gt]

/-- The comparison as it is written in a program. -/
def symbol : CompareOp → String
  | .eq => "=="
  | .ne => "!="
  | .le => "<="
  | .ge => ">="
  | .lt => "<"
  | .gt => ">"

/-- The short name of the comparison in debug text. -/
def name : CompareOp → String
  | .eq => "Eq"
  | .ne => "Neq"
  | .le => "Le"
  | .ge => "Ge"
  | .lt => "Lt"
  | .gt => "Gt"

end CompareOp

/-! ## Operators between two operands -/

/-- An operator that an expression writes between two operands. -/
inductive BinaryOp where
  | arith (op : ArithOp)
  | and
  | or
  | compare (op : CompareOp)
  deriving DecidableEq, Repr

/-- How tightly an operator binds.  Products and quotients bind tighter than everything
else, and everything else shares one level. -/
def BinaryOp.power : BinaryOp → Nat
  | .arith .mul => 2
  | .arith .div => 2
  | _ => 1

end BlockScript
