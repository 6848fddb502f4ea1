import BlockScript.Tree.Operator

/-!
# Program trees

A program is a tree of nodes.  Every block literal in it carries a label: a tree that was
just read from text has no labels (`Node Unit`), and a tree that is about to run has labels
that tell one block literal from another (`Node DefId`), because the machine remembers for
each block literal which frame it captured last.

Labels are given in the order in which the block literals stand in the text, an outer block
before the blocks inside it (`Node.number`), so joining two programs with `;` gives the same
labels as numbering one after the other.
-/

set_option autoImplicit false

namespace BlockScript

/-- A node of a program tree, with labels `δ` on its block literals. -/
inductive Node (δ : Type) where
  /-- Statements that run in order; the value is that of the last one. -/
  | list (statements : List (Node δ))
  /-- A loop: `start` once, then `body` and `step` as long as `test` holds. -/
  | loop (start test step : Node δ) (body : List (Node δ))
  /-- A conditional without an `else` part. -/
  | branch (test : Node δ) (yes : List (Node δ))
  /-- A conditional with an `else` part. -/
  | branchElse (test : Node δ) (yes no : List (Node δ))
  /-- A block literal. -/
  | block (label : δ) (parameters : List String) (body : List (Node δ))
  /-- A call of the block bound to `name`. -/
  | call (name : String) (arguments : List (Node δ))
  | assign (name : String) (value : Node δ)
  | var (name : String)
  | logic (op : LogicOp) (left right : Node δ)
  | compare (op : CompareOp) (left right : Node δ)
  | arith (op : ArithOp) (left right : Node δ)
  | int (value : Int64)
  | float (value : Float)
  | bool (value : Bool)

/-- The identity of a block literal in a running program. -/
structure DefId where
  index : Nat
  deriving DecidableEq, Repr

namespace Node

variable {δ ε : Type}

/-- The node that joins two operands with a binary operator. -/
def binary : BinaryOp → Node δ → Node δ → Node δ
  | .arith op, left, right => .arith op left right
  | .and, left, right => .logic .and left right
  | .or, left, right => .logic .or left right
  | .compare op, left, right => .compare op left right

/-- The negation of an operand, with `true` as the operand that `not` ignores. -/
def negation (operand : Node δ) : Node δ := .logic .not operand (.bool true)

/-- The boolean literal of a number: zero is false and every other number is true. -/
def ofNumber (n : Int64) : Node δ := .bool (n != 0)

/-- The name of the kind of node. -/
def kind : Node δ → String
  | .list _ => "StatementList"
  | .loop .. => "ForLoop"
  | .branch .. => "IfStatement"
  | .branchElse .. => "IfStatement"
  | .block .. => "BlockDefinition"
  | .call .. => "BlockCall"
  | .assign .. => "VariableAssignment"
  | .var _ => "VariableReference"
  | .logic .. => "LogicalExpression"
  | .compare .. => "Comparison"
  | .arith .mul _ _ => "Multiplication"
  | .arith .div _ _ => "Division"
  | .arith .add _ _ => "Addition"
  | .arith .sub _ _ => "Subtraction"
  | .int _ => "Integer"
  | .float _ => "Float"
  | .bool _ => "Boolean"

/-! ## Labels -/

mutual
/-- The same tree with other labels. -/
def mapLabels (f : δ → ε) : Node δ → Node ε
  | .list statements => .list (mapLabelsAll f statements)
  | .loop start test step body =>
      .loop (mapLabels f start) (mapLabels f test) (mapLabels f step) (mapLabelsAll f body)
  | .branch test yes => .branch (mapLabels f test) (mapLabelsAll f yes)
  | .branchElse test yes no =>
      .branchElse (mapLabels f test) (mapLabelsAll f yes) (mapLabelsAll f no)
  | .block label parameters body => .block (f label) parameters (mapLabelsAll f body)
  | .call name arguments => .call name (mapLabelsAll f arguments)
  | .assign name value => .assign name (mapLabels f value)
  | .var name => .var name
  | .logic op left right => .logic op (mapLabels f left) (mapLabels f right)
  | .compare op left right => .compare op (mapLabels f left) (mapLabels f right)
  | .arith op left right => .arith op (mapLabels f left) (mapLabels f right)
  | .int value => .int value
  | .float value => .float value
  | .bool value => .bool value

/-- The same statements with other labels. -/
def mapLabelsAll (f : δ → ε) : List (Node δ) → List (Node ε)
  | [] => []
  | node :: rest => mapLabels f node :: mapLabelsAll f rest
end

mutual
/-- Number the block literals from `next` on, except those that `known` already gives an
identity.  The result holds the first number that is still free. -/
def number (known : δ → Option DefId) : Node δ → Nat → Node DefId × Nat
  | .list statements, next =>
      let (statements, next) := numberAll known statements next
      (.list statements, next)
  | .loop start test step body, next =>
      let (start, next) := number known start next
      let (test, next) := number known test next
      let (step, next) := number known step next
      let (body, next) := numberAll known body next
      (.loop start test step body, next)
  | .branch test yes, next =>
      let (test, next) := number known test next
      let (yes, next) := numberAll known yes next
      (.branch test yes, next)
  | .branchElse test yes no, next =>
      let (test, next) := number known test next
      let (yes, next) := numberAll known yes next
      let (no, next) := numberAll known no next
      (.branchElse test yes no, next)
  | .block label parameters body, next =>
      match known label with
      | some id =>
          let (body, next) := numberAll known body next
          (.block id parameters body, next)
      | none =>
          let (body, after) := numberAll known body (next + 1)
          (.block ⟨next⟩ parameters body, after)
  | .call name arguments, next =>
      let (arguments, next) := numberAll known arguments next
      (.call name arguments, next)
  | .assign name value, next =>
      let (value, next) := number known value next
      (.assign name value, next)
  | .var name, next => (.var name, next)
  | .logic op left right, next =>
      let (left, next) := number known left next
      let (right, next) := number known right next
      (.logic op left right, next)
  | .compare op left right, next =>
      let (left, next) := number known left next
      let (right, next) := number known right next
      (.compare op left right, next)
  | .arith op left right, next =>
      let (left, next) := number known left next
      let (right, next) := number known right next
      (.arith op left right, next)
  | .int value, next => (.int value, next)
  | .float value, next => (.float value, next)
  | .bool value, next => (.bool value, next)

/-- Number the block literals of statements in order. -/
def numberAll (known : δ → Option DefId) : List (Node δ) → Nat → List (Node DefId) × Nat
  | [], next => ([], next)
  | node :: rest, next =>
      let (node, next) := number known node next
      let (rest, next) := numberAll known rest next
      (node :: rest, next)
end

/-! ## Equality of trees

Two trees are the same when they have the same shape and the same leaves; labels do not
count.  Floats are compared as numbers, so a literal that is not a number makes a tree
differ from itself. -/

mutual
/-- Whether two trees are the same up to labels. -/
def same : Node δ → Node ε → Bool
  | .list s, .list s' => sameAll s s'
  | .loop a b c d, .loop a' b' c' d' => same a a' && same b b' && same c c' && sameAll d d'
  | .branch t y, .branch t' y' => same t t' && sameAll y y'
  | .branchElse t y n, .branchElse t' y' n' => same t t' && sameAll y y' && sameAll n n'
  | .block _ p b, .block _ p' b' => p == p' && sameAll b b'
  | .call f a, .call f' a' => f == f' && sameAll a a'
  | .assign x v, .assign x' v' => x == x' && same v v'
  | .var x, .var x' => x == x'
  | .logic o l r, .logic o' l' r' => o == o' && same l l' && same r r'
  | .compare o l r, .compare o' l' r' => o == o' && same l l' && same r r'
  | .arith o l r, .arith o' l' r' => o == o' && same l l' && same r r'
  | .int v, .int v' => v == v'
  | .float v, .float v' => v == v'
  | .bool v, .bool v' => v == v'
  | _, _ => false

/-- Whether two rows of statements are the same up to labels. -/
def sameAll : List (Node δ) → List (Node ε) → Bool
  | [], [] => true
  | a :: s, b :: s' => same a b && sameAll s s'
  | _, _ => false
end

end Node

end BlockScript
