import BlockScript.Grammar.Phrase
import BlockScript.Tree.Node

/-!
# Grouping of operators

A flat series of operands and operators becomes a tree by reading it once from left to
right.  An operator and its left operand wait on a stack until an operator that binds no
tighter arrives, or the series ends; then they take what has been built since as their right
operand.  Operators of the same power therefore group to the left.

A `not` takes all the rest of the series as its operand, whatever stands before it.
-/

set_option autoImplicit false

namespace BlockScript

variable {δ : Type}

/-- Left operands that wait with their operator for a right operand, the innermost first. -/
abbrev Waiting (δ : Type) := List (Node δ × BinaryOp)

namespace Waiting

/-- Give `right` to every waiting operator that binds at least as tightly as `power`. -/
def settle (power : Nat) : Waiting δ → Node δ → Waiting δ × Node δ
  | [], right => ([], right)
  | (left, op) :: rest, right =>
      if power ≤ op.power then settle power rest (.binary op left right)
      else ((left, op) :: rest, right)

/-- Give `right` to all waiting operators. -/
def finish (waiting : Waiting δ) (right : Node δ) : Node δ := (waiting.settle 0 right).2

end Waiting

/-- An operand below a number of `not`s. -/
def Node.negations : Nat → Node δ → Node δ
  | 0, operand => operand
  | n + 1, operand => .negation (negations n operand)

namespace Series

/-- The tree of a series behind waiting operators. -/
def arrange : Waiting δ → Series (Node δ) → Node δ
  | waiting, .last nots operand => waiting.finish (.negations nots operand)
  | waiting, .link 0 operand op rest =>
      let (waiting, left) := waiting.settle op.power operand
      arrange ((left, op) :: waiting) rest
  | waiting, .link (nots + 1) operand op rest =>
      waiting.finish (.negations (nots + 1) (arrange [(operand, op)] rest))

/-- The tree of a series. -/
def group (series : Series (Node δ)) : Node δ := arrange [] series

end Series

end BlockScript
