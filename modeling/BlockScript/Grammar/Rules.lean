import BlockScript.Grammar.Phrase
import BlockScript.Grammar.Scanner

/-!
# The rules of the grammar

A program is a row of statements between `;`.  A statement is a conditional, a loop or an
expression; an expression is a series of operands; and an operand may hold statements or an
expression again, inside brackets or after an assignment's `=`.

Each rule below is given the scanners for what stands one level further inside.  The
recursion is tied once, at the end, by depth: every level of nesting reads at least one
character, so a depth of the length of the text is never exceeded.
-/

set_option autoImplicit false

namespace BlockScript

namespace Scanner

/-! ## Words and marks -/

/-- A name. -/
def name : Scanner String := named .name (ofStep Cursor.name?)

/-- The word `not`. -/
def negation : Scanner Unit := named .negation (ofStep (Cursor.word? ['n', 'o', 't']))

/-- The operator `op` itself. -/
def operator (op : BinaryOp) : Scanner BinaryOp :=
  named (.operator op) <|
    match op with
    | .arith .add => written ['+']
    | .arith .sub => written ['-']
    | .arith .mul => written ['*']
    | .arith .div => written ['/']
    | .and => spelled ['a', 'n', 'd']
    | .or => spelled ['o', 'r']
    | .compare .eq => written ['=', '=']
    | .compare .ne => written ['!', '=']
    | .compare .le => written ['<', '=']
    | .compare .ge => written ['>', '=']
    | .compare .lt => written ['<']
    | .compare .gt => written ['>']
where
  /-- The operator written as a mark. -/
  written (text : List Char) : Scanner BinaryOp := do mark text; return op
  /-- The operator written as a word. -/
  spelled (text : List Char) : Scanner BinaryOp := do ofStep (Cursor.word? text); return op

/-- The first operator of a row that stands here. -/
def firstOf : List BinaryOp → Scanner BinaryOp
  | [] => fail
  | op :: rest => orElse (operator op) (firstOf rest)

/-- Any operator. -/
def anyOperator : Scanner BinaryOp := firstOf BinaryOp.all

/-- `true` or `false`. -/
def boolean : Scanner Operand :=
  named .boolean <| orElse
    (do ofStep (Cursor.word? ['t', 'r', 'u', 'e']); return .bool true)
    (do ofStep (Cursor.word? ['f', 'a', 'l', 's', 'e']); return .bool false)

/-- A number with a point. -/
def float : Scanner Operand :=
  named .float do
    let (whole, fraction) ← ofStep Cursor.fraction?
    return .float whole fraction

/-- A number without a point. -/
def integer : Scanner Operand :=
  named .integer do
    let start ← position
    let digits ← ofStep Cursor.digits?
    return .int digits ⟨start, start + digits.length⟩

/-- A name used as a value. -/
def reference : Scanner Operand := named .reference do return .var (← name)

/-- Nothing is left of the text. -/
def endOfInput : Scanner Unit := named .endOfInput (ofStep Cursor.finish?)

/-! ## Operands -/

section Inside

variable (statements : Scanner Listing) (expression : Scanner (Series Operand))

/-- The parameters of a block: names between bars. -/
def parameters : Scanner (List String) :=
  named .parameters do
    mark ['|']
    let first ← name
    let rest ← many (do mark [',']; name)
    mark ['|']
    return first :: rest

/-- A block literal. -/
def block : Scanner Operand :=
  named .block do
    mark ['{']
    let names ← optional parameters
    let body ← statements
    mark ['}']
    return .block (names.getD []) body.phrases

/-- A call. -/
def call : Scanner Operand :=
  named .call do
    let callee ← name
    mark ['(']
    let arguments ← optional statements
    mark [')']
    return .call callee ((arguments.map Listing.phrases).getD [])

/-- The mark `=` that is not the start of `==`, nor of `= =`. -/
def becomes : Scanner Unit := ofStep fun c =>
  match Cursor.mark? ['='] c with
  | some (u, c') => if c'.rest.head? = some '=' then none else some (u, c')
  | none => none

/-- An assignment. -/
def assignment : Scanner Operand :=
  named .assignment do
    let target ← name
    becomes
    return .assign target (← expression)

/-- An expression in parentheses. -/
def group : Scanner Operand := do
  mark ['(']
  let inner ← expression
  mark [')']
  return .group inner

/-- An operand.  A name is a call, an assignment or a reference, in this order. -/
def operand : Scanner Operand :=
  orElse (block statements) <| orElse (call statements) <| orElse (assignment expression) <|
    orElse boolean <| orElse float <| orElse integer <| orElse reference (group expression)

/-! ## Expressions and statements -/

/-- An operand with the `not`s before it. -/
def signed : Scanner (Nat × Operand) := do
  let nots ← many negation
  let inner ← operand statements expression
  return (nots.length, inner)

/-- Operands with operators between them. -/
def series : Scanner (Series Operand) :=
  named .expression do
    let first ← signed statements expression
    let rest ← many do
      let op ← anyOperator
      return (op, ← signed statements expression)
    return .ofLinks first rest

/-- The part of a conditional that follows `else`. -/
def elsePart : Scanner Listing := do
  mark ['e', 'l', 's', 'e']
  mark ['{']
  let no ← statements
  mark ['}']
  return no

/-- A conditional. -/
def conditional : Scanner Phrase :=
  named .conditional do
    mark ['i', 'f']
    mark ['(']
    let test ← statements
    mark [')']
    mark ['{']
    let yes ← statements
    mark ['}']
    match ← optional (elsePart statements) with
    | some no => return .branchElse test.phrases yes.phrases no.phrases
    | none => return .branch test.phrases yes.phrases

/-- A loop. -/
def loop : Scanner Phrase :=
  named .loop do
    mark ['f', 'o', 'r']
    mark ['(']
    let header ← statements
    mark [')']
    mark ['{']
    let body ← statements
    mark ['}']
    return .loop header.phrases header.span body.phrases

/-- A statement. -/
def statement : Scanner Phrase :=
  orElse (conditional statements) <| orElse (loop statements) do
    return .expression (← series statements expression)

/-- The `;` that may end a row of statements, as the place right after it. -/
def terminator : Scanner Nat := do
  let pos ← position
  mark [';']
  return pos + 1

/-- Statements with `;` between them.  The place of the row reaches up to what follows it,
or up to its last `;` if it ends in one. -/
def listing : Scanner Listing :=
  named .statements do
    let start ← position
    let first ← statement statements expression
    let rest ← many (do mark [';']; statement statements expression)
    let ended ← optional terminator
    let here ← position
    return ⟨first :: rest, ⟨start, ended.getD here⟩⟩

end Inside

/-! ## Nesting -/

mutual
/-- Rows of statements that nest at most `depth` levels. -/
def statements : (depth : Nat) → Scanner Listing
  | 0, _, t => (none, t)
  | depth + 1, c, t => listing (statements depth) (expression depth) c t

/-- Expressions that nest at most `depth` levels. -/
def expression : (depth : Nat) → Scanner (Series Operand)
  | 0, _, t => (none, t)
  | depth + 1, c, t => series (statements depth) (expression depth) c t
end

/-- A whole program, nested at most `depth` levels. -/
def program (depth : Nat) : Scanner (List Phrase) :=
  named .program do
    ofStep fun c => some ((), c.skipGap)
    let body ← statements depth
    endOfInput
    return body.phrases

end Scanner

/-- Read a whole text as a program: its statements, or the farthest refusal. -/
def readPhrases (text : List Char) : Except Tracker (List Phrase) :=
  match Scanner.program (text.length + 1) (.start text) .empty with
  | (some (phrases, _), _) => .ok phrases
  | (none, t) => .error t

end BlockScript
