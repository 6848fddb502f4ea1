import BlockScript.Tree.Operator

/-!
# What a reader of the source may expect

A `Form` is a part of the language that can be looked for at some place of a source text.
When a text is refused, the forms that were looked for in vain tell what could have stood
there.  To a person they are described by a few broader words (`Form.concept`), each of
which is named once.
-/

set_option autoImplicit false

namespace BlockScript

/-- A part of the language that can be looked for in a source text. -/
inductive Form where
  | endOfInput
  | program
  | statements
  | conditional
  | loop
  | expression
  | negation
  | operator (op : BinaryOp)
  | block
  | parameters
  | call
  | assignment
  | reference
  | boolean
  | float
  | integer
  | keyword
  | name
  deriving DecidableEq, Repr

/-- The operators in the order in which an expression looks for them. -/
def BinaryOp.all : List BinaryOp :=
  [.arith .add, .arith .sub, .arith .mul, .arith .div, .and, .or, .compare .eq, .compare .ne,
    .compare .le, .compare .ge, .compare .lt, .compare .gt]

namespace Form

/-- All forms, in the order in which they are reported. -/
def all : List Form :=
  [.endOfInput, .program, .statements, .conditional, .loop, .expression, .negation] ++
    BinaryOp.all.map .operator ++
    [.block, .parameters, .call, .assignment, .reference, .boolean, .float, .integer, .keyword,
      .name]

/-- The word that describes a form to a person. -/
def concept : Form → String
  | .integer => "literal"
  | .float => "literal"
  | .boolean => "literal"
  | .name => "identifier"
  | .reference => "identifier"
  | .operator _ => "operator"
  | .endOfInput => "end of input"
  | _ => "expression"

/-- The words for a row of forms, each word once, in the order of first use. -/
def concepts (forms : List Form) : List String :=
  forms.foldl (fun found form =>
    if found.contains form.concept then found else found ++ [form.concept]) []

/-- A row of forms described in words: `a`, `a or b`, `a, b or c`. -/
def describe (forms : List Form) : String :=
  match (concepts forms).reverse with
  | [] => "something else"
  | [only] => only
  | last :: others => ", ".intercalate others.reverse ++ " or " ++ last

end Form

end BlockScript
