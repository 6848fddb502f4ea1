import BlockScript.Number.Decimal
import BlockScript.Tree.Node

/-!
# Outlines of program trees

The outline of a tree is a single line with every node in parentheses, its kind first.
-/

set_option autoImplicit false

namespace BlockScript

/-- Words in parentheses. -/
def parenthesized (words : List String) : String := "(" ++ " ".intercalate words ++ ")"

namespace Node

variable {δ : Type}

mutual
/-- The outline of a node. -/
def outline : Node δ → String
  | .list statements => outlineList statements
  | .loop start test step body =>
      parenthesized ["for", outline start, outline test, outline step, outlineList body]
  | .branch test yes => parenthesized ["if", outline test, outlineList yes, "-"]
  | .branchElse test yes no =>
      parenthesized ["if", outline test, outlineList yes, outlineList no]
  | .block _ parameters body =>
      parenthesized ["block", parenthesized parameters, outlineList body]
  | .call name arguments => parenthesized ("call" :: name :: outlines arguments)
  | .assign name value => parenthesized ["assign", name, outline value]
  | .var name => parenthesized ["var", name]
  | .logic op left right => parenthesized [op.symbol, outline left, outline right]
  | .compare op left right => parenthesized [op.symbol, outline left, outline right]
  | .arith op left right => parenthesized [op.symbol, outline left, outline right]
  | .int value => parenthesized ["int", toString value]
  | .float value => parenthesized ["float", FloatLayout.printed.text value]
  | .bool value => parenthesized ["bool", toString value]

/-- The outline of statements as one list. -/
def outlineList (statements : List (Node δ)) : String :=
  parenthesized ("list" :: outlines statements)

/-- The outlines of nodes. -/
def outlines : List (Node δ) → List String
  | [] => []
  | node :: rest => outline node :: outlines rest
end

end Node

end BlockScript
