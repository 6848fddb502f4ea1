import BlockScript.Grammar.Fault

/-!
# Why an evaluation stops

An evaluation error ends the evaluation of a whole program.  A failure is the reason why a
source text gave no value: it is not a program, or its evaluation stopped.
-/

set_option autoImplicit false

namespace BlockScript

/-- Why an evaluation stopped. -/
inductive EvalError where
  /-- An integer was divided by zero. -/
  | divisionByZero
  /-- A block was called with fewer arguments than it has parameters. -/
  | arity (block : String) (expected received : Nat)
  /-- An operator was applied to kinds of values that it does not take. -/
  | typeMismatch (op left right : String)
  /-- An operator was applied to an error signal. -/
  | signalOperand (op message : String)
  /-- Too many block calls were active at once. -/
  | stackOverflow (depth limit : Nat)
  deriving DecidableEq, Repr

namespace EvalError

/-- What happened, in words. -/
def message : EvalError → String
  | .divisionByZero => "Division by zero"
  | .arity block expected received =>
      s!"Block `{block}` expects {expected} argument(s) but received {received}"
  | .typeMismatch op left right => s!"Unsupported operand types for `{op}`: {left} and {right}"
  | .signalOperand op message => s!"Cannot apply `{op}` to an error signal: {message}"
  | .stackOverflow depth limit =>
      s!"Evaluation stack overflow: call depth {depth} exceeds maximum of {limit}"

/-- The code under which the error is documented. -/
def code : EvalError → String
  | .divisionByZero => "E001"
  | .arity .. => "E002"
  | .typeMismatch .. => "E003"
  | .signalOperand .. => "E004"
  | .stackOverflow .. => "E005"

end EvalError

/-- Why a source text gave no value. -/
inductive Failure where
  | source (error : SourceError)
  | evaluation (error : EvalError)
  deriving DecidableEq, Repr

/-- The failure as one text. -/
def Failure.text : Failure → String
  | .source error => error.text
  | .evaluation error => error.message

end BlockScript
