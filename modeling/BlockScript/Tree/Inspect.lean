import BlockScript.Number.Decimal
import BlockScript.Text.Doc
import BlockScript.Tree.Node

/-!
# Debug text of program trees

A tree is shown with all its nodes and fields.  A block literal also tells whether it has
recorded a capture, which is a matter of the machine and not of the tree, so it is asked for
by label.
-/

set_option autoImplicit false

namespace BlockScript

namespace Node

variable {δ : Type}

/-- A node that joins two operands. -/
def pairDoc (name : String) (left right : Doc) : Doc :=
  .record name [.field "left" left, .field "right" right]

/-- A node that joins two operands with one of several operators. -/
def operatorDoc (name op : String) (left right : Doc) : Doc :=
  .record name [.field "left" left, .field "op" (.atom op), .field "right" right]

mutual
/-- The debug text of a node. -/
def doc (captured : δ → Bool) : Node δ → Doc
  | .list statements => .tuple "StatementList" [listDoc captured statements]
  | .loop start test step body =>
      .record "ForLoop"
        [.field "init" (doc captured start), .field "test" (doc captured test),
          .field "increment" (doc captured step), .field "body" (listDoc captured body)]
  | .branch test yes =>
      .record "IfStatement"
        [.field "test" (doc captured test), .field "then_branch" (listDoc captured yes),
          .field "else_branch" (.atom "None")]
  | .branchElse test yes no =>
      .record "IfStatement"
        [.field "test" (doc captured test), .field "then_branch" (listDoc captured yes),
          .field "else_branch" (.tuple "Some" [listDoc captured no])]
  | .block label parameters body =>
      .tuple "BlockDefinition"
        [.record "BlockDefinition"
          [.field "parameters" (.list (parameters.map .text)),
            .field "body" (listDoc captured body),
            .field "captured" (.truth (captured label))]]
  | .call name arguments =>
      .record "BlockCall"
        [.field "identifier" (.text name), .field "arguments" (.list (docs captured arguments))]
  | .assign name value =>
      .record "VariableAssignment"
        [.field "identifier" (.text name), .field "value" (doc captured value)]
  | .var name => .tuple "VariableReference" [.text name]
  | .logic op left right =>
      operatorDoc "LogicalExpression" op.name (doc captured left) (doc captured right)
  | .compare op left right =>
      operatorDoc "Comparison" op.name (doc captured left) (doc captured right)
  | .arith .add left right => pairDoc "Addition" (doc captured left) (doc captured right)
  | .arith .sub left right => pairDoc "Subtraction" (doc captured left) (doc captured right)
  | .arith .mul left right => pairDoc "Multiplication" (doc captured left) (doc captured right)
  | .arith .div left right => pairDoc "Division" (doc captured left) (doc captured right)
  | .int value => .tuple "Integer" [.atom (toString value)]
  | .float value => .tuple "Float" [.atom (FloatLayout.debug.text value)]
  | .bool value => .tuple "Boolean" [.truth value]

/-- The debug text of statements in a row. -/
def listDoc (captured : δ → Bool) (statements : List (Node δ)) : Doc :=
  .tuple "StatementList" [.list (docs captured statements)]

/-- The debug texts of nodes. -/
def docs (captured : δ → Bool) : List (Node δ) → List Doc
  | [] => []
  | node :: rest => doc captured node :: docs captured rest
end

end Node

end BlockScript
