import BlockScript.Text.Quoted

/-!
# Debug text

Debug text shows the structure of a value: constructors with their fields, and lists.  A
`Doc` is such a text before it is laid out, either on one line or with every part on a line
of its own.
-/

set_option autoImplicit false

namespace BlockScript

/-- A debug text that is not laid out yet. -/
inductive Doc where
  /-- A text that is not broken up. -/
  | atom (text : String)
  /-- A field of a record. -/
  | field (label : String) (value : Doc)
  /-- A constructor with its arguments. -/
  | tuple (name : String) (parts : List Doc)
  /-- A constructor with its fields. -/
  | record (name : String) (parts : List Doc)
  | list (parts : List Doc)

namespace Doc

/-- A quoted text. -/
def text (s : String) : Doc := .atom (quoted s)

/-- The word for a truth value. -/
def truth (b : Bool) : Doc := .atom (toString b)

/-! ## On one line -/

mutual
/-- The text on one line. -/
def compact : Doc → String
  | .atom text => text
  | .field label value => label ++ ": " ++ compact value
  | .tuple name parts => name ++ "(" ++ ", ".intercalate (compacts parts) ++ ")"
  | .record name parts => name ++ " \x7b " ++ ", ".intercalate (compacts parts) ++ " \x7d"
  | .list parts => "[" ++ ", ".intercalate (compacts parts) ++ "]"

/-- The texts of parts, each on one line. -/
def compacts : List Doc → List String
  | [] => []
  | part :: rest => compact part :: compacts rest
end

/-! ## On several lines -/

/-- The white space before a line that is `level` levels inside. -/
def indent (level : Nat) : String := String.ofList (List.replicate (4 * level) ' ')

mutual
/-- The text with each part on its own line, for a text that starts `level` levels inside. -/
def pretty (level : Nat) : Doc → String
  | .atom text => text
  | .field label value => label ++ ": " ++ pretty level value
  | .tuple name parts => name ++ "(\n" ++ prettyParts (level + 1) parts ++ indent level ++ ")"
  | .record name parts =>
      name ++ " \x7b\n" ++ prettyParts (level + 1) parts ++ indent level ++ "\x7d"
  | .list [] => "[]"
  | .list parts => "[\n" ++ prettyParts (level + 1) parts ++ indent level ++ "]"

/-- The lines of parts that are `level` levels inside. -/
def prettyParts (level : Nat) : List Doc → String
  | [] => ""
  | part :: rest => indent level ++ pretty level part ++ ",\n" ++ prettyParts level rest
end

end Doc

end BlockScript
