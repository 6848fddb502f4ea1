import BlockScript.Grammar.Cursor

/-!
# Why a source text is refused

A fault is the reason, a source error adds the place.  A diagnostic is what a person gets to
see of it: a message, a code, a place and, for the faults that have an obvious remedy, a
line of help.
-/

set_option autoImplicit false

namespace BlockScript

/-- Why a source text is not a program. -/
inductive Fault where
  /-- Something else stands where one of the expected forms should. -/
  | unexpected (expected found : String)
  /-- An integer literal is too large. -/
  | number (text : String)
  /-- The header of a loop does not have three statements. -/
  | loopHeader (count : Nat)
  /-- The text nests deeper than the limit. -/
  | nesting (depth limit : Nat)
  /-- Any other reason, in words. -/
  | other (message : String)
  deriving DecidableEq, Repr

/-- A fault and its place in the source text. -/
structure SourceError where
  fault : Fault
  span : Span
  deriving DecidableEq, Repr

/-- How bad a diagnostic is. -/
inductive Severity where
  | error
  | warning
  deriving DecidableEq, Repr

/-- The severities, the worst first. -/
def Severity.all : List Severity := [.error, .warning]

/-- The word for a severity. -/
def Severity.word : Severity → String
  | .error => "error"
  | .warning => "warning"

/-- A message for a person about a place in a source text. -/
structure Diagnostic where
  severity : Severity
  message : String
  span : Span
  help : Option String
  code : String
  deriving DecidableEq, Repr

namespace Fault

/-- What is wrong, in words. -/
def message : Fault → String
  | .unexpected expected found => s!"Expected {expected}, found {found}"
  | .number text => s!"Invalid number literal '{text}'"
  | .loopHeader count =>
      s!"A for loop header needs 3 statements (init; test; increment), found {count}"
  | .nesting _ limit => s!"Expression nesting depth exceeds maximum of {limit} levels"
  | .other message => message

/-- The code under which the fault is documented. -/
def code : Fault → String
  | .unexpected .. => "P001"
  | .number _ => "P002"
  | .loopHeader _ => "P003"
  | .nesting .. => "P004"
  | .other _ => "P999"

/-- How to mend the fault. -/
def help : Fault → Option String
  | .unexpected .. => none
  | .number _ => some "Integer literals must fit in 64 bits"
  | .loopHeader _ => some "Write the header as `for (i = 0; i < n; i = i + 1)`"
  | .nesting .. => some "Move inner parts into named blocks"
  | .other _ => none

end Fault

namespace SourceError

/-- The diagnostic of a source error. -/
def diagnostic (e : SourceError) : Diagnostic where
  severity := .error
  message := e.fault.message
  span := e.span
  help := e.fault.help
  code := e.fault.code

/-- The error as one text: severity, message and code, and the help on a line of its own. -/
def text (e : SourceError) : String :=
  let d := e.diagnostic
  let head := s!"{d.severity.word}: {d.message} [{d.code}]"
  match d.help with
  | some help => s!"{head}\nhelp: {help}"
  | none => head

end SourceError

end BlockScript
