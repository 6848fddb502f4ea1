import BlockScript.Run.Machine
import BlockScript.Run.Operation

/-!
# Evaluation

Every node is evaluated in a frame.  Operands are evaluated from left to right, both of them
always.  A loop runs in one new frame below the frame it stands in.  A block literal
captures a copy of the frame it stands in.

A call of a name that holds no block gives an error signal and evaluates no argument.
Otherwise the call needs room below the limit of active calls; a copy of the frame that the
block captured last becomes the frame of the call; the arguments are evaluated in the
caller's frame, as many as there are parameters, and bound in the frame of the call; and the
body is evaluated there.

Every step that goes from a node to a part of it, or from a statement, an argument or a
round of a loop to the next, takes one unit of the budget, so evaluation is defined by
recursion on the budget.
-/

set_option autoImplicit false

namespace BlockScript

mutual
/-- Evaluate a node in a frame. -/
def evaluate (limit : Nat) : (budget : Nat) → Node DefId → FrameId → Run Value
  | 0, _, _ => .exhausted
  | budget + 1, node, f =>
      match node with
      | .list statements => evaluateAll limit budget statements f .nil
      | .loop start test step body => do
          let inner ← Run.act fun s => s.newFrame (some f)
          let _ ← evaluate limit budget start inner
          evaluateLoop limit budget test step body inner .nil
      | .branch test yes => do
          if (← evaluate limit budget test f).truthy then evaluateAll limit budget yes f .nil
          else return .nil
      | .branchElse test yes no => do
          if (← evaluate limit budget test f).truthy then evaluateAll limit budget yes f .nil
          else evaluateAll limit budget no f .nil
      | .block id parameters body => Run.act fun s => s.capture ⟨id, parameters, body⟩ f
      | .call name arguments => do
          match ← Run.read fun s => s.lookup f name with
          | .block definition own => do
              let active ← Run.activeCalls
              if limit ≤ active then Run.fail (.stackOverflow (active + 1) limit)
              else
                let inner ← Run.act fun s => s.snapshot (s.callFrame definition own)
                let short := EvalError.arity name definition.parameters.length arguments.length
                bindArguments limit budget short definition.parameters arguments f inner
                Run.calling (evaluateAll limit budget definition.body inner .nil)
          | _ => return notABlock
      | .assign name value => do
          let v ← evaluate limit budget value f
          Run.change fun s => s.assign f name v
          return v
      | .var name => Run.read fun s => s.lookup f name
      | .logic op left right => do
          let l ← evaluate limit budget left f
          let r ← evaluate limit budget right f
          return .bool (op.onValues l r)
      | .compare op left right => do
          let l ← evaluate limit budget left f
          let r ← evaluate limit budget right f
          return .bool (← Run.ofExcept (op.onValues l r))
      | .arith op left right => do
          let l ← evaluate limit budget left f
          let r ← evaluate limit budget right f
          Run.ofExcept (op.onValues l r)
      | .int value => return .int value
      | .float value => return .float value
      | .bool value => return .bool value

/-- Evaluate statements in order; `last` is the value if there are none. -/
def evaluateAll (limit : Nat) : (budget : Nat) → List (Node DefId) → FrameId → (last : Value) →
    Run Value
  | 0, _, _, _ => .exhausted
  | _ + 1, [], _, last => return last
  | budget + 1, node :: rest, f, _ => do
      let v ← evaluate limit budget node f
      evaluateAll limit budget rest f v

/-- Evaluate the rounds of a loop in its frame; `last` is the value if there is no round. -/
def evaluateLoop (limit : Nat) : (budget : Nat) → (test step : Node DefId) →
    (body : List (Node DefId)) → FrameId → (last : Value) → Run Value
  | 0, _, _, _, _, _ => .exhausted
  | budget + 1, test, step, body, f, last => do
      if (← evaluate limit budget test f).truthy then
        let v ← evaluateAll limit budget body f .nil
        let _ ← evaluate limit budget step f
        evaluateLoop limit budget test step body f v
      else return last

/-- Evaluate one argument for each parameter in the frame `caller` and bind it in the frame
`inner`.  `short` is the error if the arguments run out. -/
def bindArguments (limit : Nat) : (budget : Nat) → (short : EvalError) →
    (parameters : List String) → (arguments : List (Node DefId)) → (caller inner : FrameId) →
    Run Unit
  | 0, _, _, _, _, _ => .exhausted
  | _ + 1, _, [], _, _, _ => return ()
  | _ + 1, short, _ :: _, [], _, _ => Run.fail short
  | budget + 1, short, parameter :: parameters, argument :: arguments, caller, inner => do
      let v ← evaluate limit budget argument caller
      Run.change fun s => s.bind inner parameter v
      bindArguments limit budget short parameters arguments caller inner
end

end BlockScript
