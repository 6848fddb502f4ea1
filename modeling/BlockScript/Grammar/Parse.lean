import BlockScript.Grammar.Grouping
import BlockScript.Grammar.Nesting
import BlockScript.Grammar.Rules
import BlockScript.Number.Decimal

/-!
# Reading programs

`parse` turns a source text into a program tree in three steps.  The depth of the text is
checked against the limit; the text is read by the grammar; and its phrases are turned into
nodes, which refuses integers that do not fit in 64 bits and loops whose header does not
have three statements.  A text with faults of several kinds is refused for the first step
that finds one.

Nodes are made from left to right, so of several faults found by the last step the leftmost
one is reported, with one exception: the `else` part of a conditional is looked at before
its test.
-/

set_option autoImplicit false

namespace BlockScript

/-! ## From phrases to nodes -/

/-- The largest integer literal. -/
def maxInteger : Nat := (1 <<< 63) - 1

/-- An integer literal. -/
def integerNode (digits : List Char) (span : Span) : Except SourceError (Node Unit) :=
  let n := natOfDigits digits
  if n ≤ maxInteger then .ok (.int (Int64.ofNat n))
  else .error ⟨.number (String.ofList digits), span⟩

/-- A loop from the nodes of its header. -/
def loopNode (header : List (Node Unit)) (span : Span)
    (body : Except SourceError (List (Node Unit))) : Except SourceError (Node Unit) :=
  match header with
  | [start, test, step] => do return .loop start test step (← body)
  | _ => .error ⟨.loopHeader header.length, span⟩

mutual
/-- The node of a statement. -/
def Phrase.node : Phrase → Except SourceError (Node Unit)
  | .branch test yes => do
      let test ← nodes test
      let yes ← nodes yes
      return .branch (.list test) yes
  | .branchElse test yes no => do
      let no ← nodes no
      let test ← nodes test
      let yes ← nodes yes
      return .branchElse (.list test) yes no
  | .loop header span body => do loopNode (← nodes header) span (nodes body)
  | .expression series => do return (← seriesNodes series).group

/-- The nodes of statements in a row. -/
def nodes : List Phrase → Except SourceError (List (Node Unit))
  | [] => .ok []
  | phrase :: rest => do
      let first ← phrase.node
      return first :: (← nodes rest)

/-- The series of the nodes of its operands. -/
def seriesNodes : Series Operand → Except SourceError (Series (Node Unit))
  | .last nots operand => do return .last nots (← operand.node)
  | .link nots operand op rest => do
      let first ← operand.node
      return .link nots first op (← seriesNodes rest)

/-- The node of an operand. -/
def Operand.node : Operand → Except SourceError (Node Unit)
  | .block parameters body => do return .block () parameters (← nodes body)
  | .call name arguments => do return .call name (← nodes arguments)
  | .assign name value => do return .assign name (← seriesNodes value).group
  | .bool value => .ok (.bool value)
  | .float whole fraction => .ok (.float (ofDigits whole fraction))
  | .int digits span => integerNode digits span
  | .var name => .ok (.var name)
  | .group series => do return (← seriesNodes series).group
end

/-! ## From text to nodes -/

/-- The text from a byte offset on; nothing if the offset lies inside a character or past
the end. -/
def textFrom (pos : Nat) : List Char → Option (List Char)
  | [] => if pos = 0 then some [] else none
  | x :: rest =>
      if pos = 0 then some (x :: rest)
      else if pos < x.utf8Size then none
      else textFrom (pos - x.utf8Size) rest

/-- What stands at a byte offset of a text. -/
def describeAt (text : List Char) (pos : Nat) : String :=
  match textFrom pos text with
  | some (x :: _) => s!"'{x}'"
  | _ => "end of input"

/-- The error that forms were expected at the start of a span in vain. -/
def unexpectedAt (text : List Char) (expected : List Form) (span : Span) : SourceError :=
  ⟨.unexpected (Form.describe expected) (describeAt text span.start), span⟩

/-- The deepest text that is read unless another limit is given. -/
def defaultNestingLimit : Nat := 128

/-- The phrases of a text, with a refusal turned into an error. -/
def readText (text : List Char) : Except SourceError (List Phrase) :=
  match readPhrases text with
  | .ok phrases => .ok phrases
  | .error t => .error (unexpectedAt text t.expected ⟨t.farthest, t.farthest⟩)

/-- Read a program that nests at most `limit` levels. -/
def parseWithin (limit : Nat) (source : String) : Except SourceError (Node Unit) := do
  let text := source.toList
  Nesting.check limit text
  let phrases ← readText text
  return .list (← nodes phrases)

/-- Read a program. -/
def parse (source : String) : Except SourceError (Node Unit) :=
  parseWithin defaultNestingLimit source

end BlockScript
