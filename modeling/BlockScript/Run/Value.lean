import BlockScript.Number.Decimal
import BlockScript.Text.Doc
import BlockScript.Tree.Node

/-!
# Values

What a program computes with: integers of 64 bits, floats, truth values, blocks, the empty
value `nil`, and error signals, which are ordinary values that carry a message.

A block value is a block literal together with the frame it captured.  Two block values are
the same only if both agree.
-/

set_option autoImplicit false

namespace BlockScript

/-- The identity of a frame of variables. -/
structure FrameId where
  index : Nat
  deriving DecidableEq, Repr

/-- A block literal of a running program. -/
structure Definition where
  id : DefId
  parameters : List String
  body : List (Node DefId)

/-- A value of the language. -/
inductive Value where
  | int (value : Int64)
  | float (value : Float)
  | bool (value : Bool)
  | block (definition : Definition) (frame : FrameId)
  | nil
  /-- A message in the place of a result. -/
  | signal (message : String)

/-- The signal that stands for the result of calling something that is not a block. -/
def notABlock : Value := .signal "Error! Attempting to use a non-block as a block."

namespace Value

/-- Every value counts as true except `false` and `nil`; zero is true. -/
def truthy : Value → Bool
  | .bool false => false
  | .nil => false
  | _ => true

/-- Whether the value is `nil`. -/
def isNil : Value → Bool
  | .nil => true
  | _ => false

/-- The name of the kind of value. -/
def kind : Value → String
  | .int _ => "integer"
  | .float _ => "float"
  | .bool _ => "boolean"
  | .block .. => "block"
  | .nil => "nil"
  | .signal _ => "error signal"

/-- Whether two values are of the same kind and equal.  Floats are compared as numbers, so a
float that is not a number differs from itself. -/
def same : Value → Value → Bool
  | .int a, .int b => a == b
  | .float a, .float b => a == b
  | .bool a, .bool b => a == b
  | .block d f, .block d' f' => d.id == d'.id && f == f'
  | .nil, .nil => true
  | .signal a, .signal b => a == b
  | _, _ => false

/-! ## Views -/

/-- The integer, if the value is one. -/
def int? : Value → Option Int64
  | .int value => some value
  | _ => none

/-- The float, if the value is one. -/
def float? : Value → Option Float
  | .float value => some value
  | _ => none

/-- The truth value, if the value is one. -/
def bool? : Value → Option Bool
  | .bool value => some value
  | _ => none

/-- The block, if the value is one. -/
def block? : Value → Option (Definition × FrameId)
  | .block definition frame => some (definition, frame)
  | _ => none

/-- The message, if the value is an error signal. -/
def signal? : Value → Option String
  | .signal message => some message
  | _ => none

end Value

/-! ## Texts -/

namespace Definition

/-- A block as it is printed: its parameters, and an ellipsis in place of its body. -/
def text (d : Definition) : String :=
  if d.parameters.isEmpty then "\x7b … \x7d"
  else "\x7b |" ++ ", ".intercalate d.parameters ++ "| … \x7d"

/-- The debug text of a block. -/
def debug (d : Definition) : String :=
  (Doc.record "BlockRef" [.field "parameters" (.list (d.parameters.map .text)), .atom ".."]).compact

end Definition

namespace Value

/-- A value as it is printed. -/
def text : Value → String
  | .int value => toString value
  | .float value => FloatLayout.printed.text value
  | .bool value => toString value
  | .block definition _ => definition.text
  | .nil => "nil"
  | .signal message => message

/-- The debug text of a value. -/
def doc : Value → Doc
  | .int value => .tuple "Integer" [.atom (toString value)]
  | .float value => .tuple "Float" [.atom (FloatLayout.debug.text value)]
  | .bool value => .tuple "Boolean" [.truth value]
  | .block definition _ => .tuple "Block" [.atom definition.text]
  | .nil => .atom "Absent"
  | .signal message => .tuple "ErrorSignal" [.text message]

end Value

end BlockScript
