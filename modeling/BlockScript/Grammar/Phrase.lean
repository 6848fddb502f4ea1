import BlockScript.Grammar.Cursor
import BlockScript.Tree.Operator

/-!
# Programs as they are written

The grammar reads a source text into phrases, which still show how the program was written:
an expression is a flat series of operands and operators, parentheses are kept, literals are
the digits that stand in the text, and a loop has any number of statements in its header.
Turning phrases into nodes is a second step, which can fail for reasons of its own.
-/

set_option autoImplicit false

namespace BlockScript

/-- A flat expression: operands, each below some number of `not`s, with operators between
them. -/
inductive Series (α : Type) where
  | last (nots : Nat) (operand : α)
  | link (nots : Nat) (operand : α) (op : BinaryOp) (rest : Series α)
  deriving Repr

/-- A series from its first operand and the operators and operands that follow. -/
def Series.ofLinks {α : Type} : Nat × α → List (BinaryOp × Nat × α) → Series α
  | (nots, operand), [] => .last nots operand
  | (nots, operand), (op, next) :: rest => .link nots operand op (ofLinks next rest)

mutual
/-- A statement as it is written. -/
inductive Phrase where
  | branch (test yes : List Phrase)
  | branchElse (test yes no : List Phrase)
  /-- A loop, with the place of its header. -/
  | loop (header : List Phrase) (span : Span) (body : List Phrase)
  | expression (series : Series Operand)

/-- An operand as it is written. -/
inductive Operand where
  | block (parameters : List String) (body : List Phrase)
  | call (name : String) (arguments : List Phrase)
  | assign (name : String) (value : Series Operand)
  | bool (value : Bool)
  /-- The digits before and after the point. -/
  | float (whole fraction : List Char)
  /-- The digits, and where they stand. -/
  | int (digits : List Char) (span : Span)
  | var (name : String)
  /-- An expression in parentheses. -/
  | group (series : Series Operand)
end

/-- Statements in a row, with the place they take. -/
structure Listing where
  phrases : List Phrase
  span : Span

end BlockScript
