import BlockScript.Run.Failure
import BlockScript.Run.Value

/-!
# Operations on values

Arithmetic on two integers wraps at 64 bits and its division goes toward zero; if one
operand is a float, the other is turned into the nearest float first.  Equality is defined
for all values and likewise turns an integer next to a float into a float.  The order is
defined for numbers only, and a float that is not a number stands in no order to anything.
-/

set_option autoImplicit false

namespace BlockScript

/-- The float nearest to an integer. -/
def promote (n : Int64) : Float := Float.ofInt n.toInt

/-- The error of an operator that does not take its operands.  A signal among them is
reported first, the left one before the right one. -/
def operandError (op : String) (left right : Value) : EvalError :=
  match left, right with
  | .signal message, _ => .signalOperand op message
  | _, .signal message => .signalOperand op message
  | _, _ => .typeMismatch op left.kind right.kind

namespace ArithOp

/-- The operator on integers. -/
def onInts : ArithOp → Int64 → Int64 → Except EvalError Int64
  | .add, a, b => .ok (a + b)
  | .sub, a, b => .ok (a - b)
  | .mul, a, b => .ok (a * b)
  | .div, a, b => if b = 0 then .error .divisionByZero else .ok (a / b)

/-- The operator on floats. -/
def onFloats : ArithOp → Float → Float → Float
  | .add, a, b => a + b
  | .sub, a, b => a - b
  | .mul, a, b => a * b
  | .div, a, b => a / b

/-- The operator on values. -/
def onValues (op : ArithOp) : Value → Value → Except EvalError Value
  | .int a, .int b => (op.onInts a b).map .int
  | .int a, .float b => .ok (.float (op.onFloats (promote a) b))
  | .float a, .int b => .ok (.float (op.onFloats a (promote b)))
  | .float a, .float b => .ok (.float (op.onFloats a b))
  | left, right => .error (operandError op.symbol left right)

end ArithOp

/-- The operator on values, by whether they count as true.  `not` looks at the left operand
only. -/
def LogicOp.onValues : LogicOp → Value → Value → Bool
  | .and, left, right => left.truthy && right.truthy
  | .or, left, right => left.truthy || right.truthy
  | .not, left, _ => !left.truthy

/-- The equality of the language. -/
def Value.equals : Value → Value → Bool
  | .int a, .float b => promote a == b
  | .float a, .int b => a == promote b
  | left, right => left.same right

namespace CompareOp

/-- The comparison of integers. -/
def onInts : CompareOp → Int64 → Int64 → Bool
  | .eq, a, b => a == b
  | .ne, a, b => a != b
  | .le, a, b => a ≤ b
  | .ge, a, b => b ≤ a
  | .lt, a, b => a < b
  | .gt, a, b => b < a

/-- The comparison of floats. -/
def onFloats : CompareOp → Float → Float → Bool
  | .eq, a, b => a == b
  | .ne, a, b => a != b
  | .le, a, b => a ≤ b
  | .ge, a, b => b ≤ a
  | .lt, a, b => a < b
  | .gt, a, b => b < a

/-- The order of numbers. -/
def onNumbers (op : CompareOp) : Value → Value → Except EvalError Bool
  | .int a, .int b => .ok (op.onInts a b)
  | .int a, .float b => .ok (op.onFloats (promote a) b)
  | .float a, .int b => .ok (op.onFloats a (promote b))
  | .float a, .float b => .ok (op.onFloats a b)
  | left, right => .error (operandError op.symbol left right)

/-- The comparison of values. -/
def onValues : CompareOp → Value → Value → Except EvalError Bool
  | .eq, left, right => .ok (left.equals right)
  | .ne, left, right => .ok (!left.equals right)
  | op, left, right => op.onNumbers left right

end CompareOp

end BlockScript
