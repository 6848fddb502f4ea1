import BlockScript.Grammar.Parse
import BlockScript.Run.Evaluate

/-!
# Interpreters

An interpreter holds a root frame in which one source text after another is run, and the
limit of active block calls.  What a run has assigned before it fails stays assigned.

Runs are given a budget.  The standard budget is so large that a program does not use it up
in any time one could wait for.
-/

set_option autoImplicit false

namespace BlockScript

/-- The limit of active block calls unless another one is given. -/
def defaultCallLimit : Nat := 256

/-- The budget of a run unless another one is given. -/
def standardBudget : Nat := Nat.pow 2 62

/-- A root frame and the limit under which programs run in it. -/
structure Interpreter where
  store : Store
  root : FrameId
  limit : Nat
  /-- The number that the next block literal will get. -/
  nextDefinition : Nat

namespace Interpreter

/-- An interpreter with an empty root frame. -/
def fresh (limit : Nat) : Interpreter :=
  let (root, store) := Store.empty.newFrame none
  ⟨store, root, limit, 0⟩

/-- Give the block literals of a tree identities of their own, except those that `known`
gives one already. -/
def adopt {δ : Type} (known : δ → Option DefId) (node : Node δ) (i : Interpreter) :
    Node DefId × Interpreter :=
  let (node, next) := node.number known i.nextDefinition
  (node, { i with nextDefinition := next })

/-- Evaluate a tree in a frame. -/
def evaluateIn (budget : Nat) (f : FrameId) (node : Node DefId) (i : Interpreter) :
    Option (Except EvalError Value × Interpreter) :=
  match evaluate i.limit budget node f ⟨i.store, 0⟩ with
  | some (r, m) => some (r, { i with store := m.store })
  | none => none

/-- Evaluate a tree in the root frame. -/
def evaluateTree (budget : Nat) (node : Node DefId) (i : Interpreter) :
    Option (Except Failure Value × Interpreter) :=
  match i.evaluateIn budget i.root node with
  | some (r, i) => some (r.mapError .evaluation, i)
  | none => none

/-- Read a source text and evaluate it in the root frame. -/
def run (budget : Nat) (source : String) (i : Interpreter) :
    Option (Except Failure Value × Interpreter) :=
  match parse source with
  | .error e => some (.error (.source e), i)
  | .ok tree =>
      let (node, i) := i.adopt (fun _ => none) tree
      i.evaluateTree budget node

/-- The bindings of the root frame as names and printed values. -/
def bindings (i : Interpreter) : List (String × String) := i.store.printedBindings i.root

/-- Bind a name in a frame. -/
def bind (i : Interpreter) (f : FrameId) (name : String) (value : Value) : Interpreter :=
  { i with store := i.store.bind f name value }

/-- Assign to a name as seen from a frame. -/
def assign (i : Interpreter) (f : FrameId) (name : String) (value : Value) : Interpreter :=
  { i with store := i.store.assign f name value }

/-- Add a frame without bindings. -/
def newFrame (i : Interpreter) (parent : Option FrameId) : FrameId × Interpreter :=
  let (f, store) := i.store.newFrame parent
  (f, { i with store })

/-- Add a copy of a frame. -/
def snapshot (i : Interpreter) (f : FrameId) : FrameId × Interpreter :=
  let (f, store) := i.store.snapshot f
  (f, { i with store })

/-- A new block in an empty root frame of its own, whose literal has captured nothing. -/
def newBlock (i : Interpreter) (parameters : List String) (body : List (Node DefId)) :
    Value × Interpreter :=
  let (f, i) := i.newFrame none
  let definition : Definition := ⟨⟨i.nextDefinition⟩, parameters, body⟩
  (.block definition f, { i with nextDefinition := i.nextDefinition + 1 })

/-- A copy of a block literal with an identity of its own, which starts with the same
capture. -/
def copyBlock (i : Interpreter) (id : DefId) (parameters : List String)
    (body : List (Node DefId)) : Node DefId × Interpreter :=
  let copy : DefId := ⟨i.nextDefinition⟩
  let captures := match i.store.captured? id with
    | some f => i.store.captures.insert copy f
    | none => i.store.captures
  (.block copy parameters body,
    { i with store := { i.store with captures }, nextDefinition := i.nextDefinition + 1 })

/-- The debug text of an interpreter. -/
def debug (i : Interpreter) : String :=
  (Doc.record "Interpreter"
    [.field "scope" (.atom (i.store.debug i.root)),
      .field "options" (.record "EvaluatorOptions"
        [.field "max_depth" (.atom (toString i.limit))])]).compact

end Interpreter

end BlockScript
