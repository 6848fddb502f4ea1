import BlockScript.Proofs.Congruence
import BlockScript.Proofs.Frames

/-!
# Evaluation step by step

The same evaluation as a machine that takes one small step after another.  A configuration is
what is to be done now (`Focus`), what is to be done with its outcome (a stack of `Pending`
work), and the machine with its store.  So every intermediate state of an evaluation can be
named, also of one that stops with an error and of one that never ends.

The two ways of evaluating agree: an evaluation ends with a result exactly if the steps lead to
that result (`ends_iff_steps`).  From left to right the recursion on the budget is followed
with any work pending below (`steps_of_evaluate`).  From right to left the meaning of a
configuration, put back together from the functions of evaluation, does not change over a step
(`Config.run_of_step`).
-/

set_option autoImplicit false

namespace BlockScript

/-- A call whose callee has been found and whose frame has been made. -/
structure Call where
  /-- The error if there are too few arguments. -/
  short : EvalError
  body : List (Node DefId)
  /-- The frame in which the arguments are evaluated. -/
  caller : FrameId
  /-- The frame of the call. -/
  inner : FrameId

/-- What is to be done now. -/
inductive Focus where
  | node (node : Node DefId) (f : FrameId)
  | all (statements : List (Node DefId)) (f : FrameId) (last : Value)
  | rounds (test step : Node DefId) (body : List (Node DefId)) (f : FrameId) (last : Value)
  /-- Evaluate and bind the arguments that are left, then run the body. -/
  | arguments (call : Call) (parameters : List String) (arguments : List (Node DefId))
  /-- Hand an outcome to the work that waits for it. -/
  | give (outcome : Except EvalError Value)

/-- Work that waits for the value of a part. -/
inductive Pending where
  | statements (rest : List (Node DefId)) (f : FrameId)
  /-- The start of a loop is being evaluated. -/
  | start (test step : Node DefId) (body : List (Node DefId)) (f : FrameId)
  /-- The test of a loop is being evaluated. -/
  | test (test step : Node DefId) (body : List (Node DefId)) (f : FrameId) (last : Value)
  /-- The body of a loop is being evaluated. -/
  | body (test step : Node DefId) (body : List (Node DefId)) (f : FrameId)
  /-- The step of a loop is being evaluated. -/
  | step (test step : Node DefId) (body : List (Node DefId)) (f : FrameId) (last : Value)
  | branches (yes no : List (Node DefId)) (f : FrameId)
  | argument (call : Call) (parameter : String) (parameters : List String)
      (arguments : List (Node DefId))
  /-- The body of a block is being evaluated. -/
  | leave
  | assign (name : String) (f : FrameId)
  | right (combine : Value → Value → Except EvalError Value) (right : Node DefId) (f : FrameId)
  | combine (combine : Value → Value → Except EvalError Value) (left : Value)

/-- A state of an evaluation. -/
structure Config where
  focus : Focus
  stack : List Pending
  machine : Machine

/-- The store of a configuration. -/
def Config.store (c : Config) : Store := c.machine.store

/-- What an error does to the machine as it passes pending work: the body of a block is left. -/
def Pending.abort : Pending → Machine → Machine
  | .leave, m => { m with active := m.active - 1 }
  | _, m => m

/-- The first step into a node. -/
def enter (limit : Nat) (node : Node DefId) (f : FrameId) (stack : List Pending) (m : Machine) :
    Config :=
  match node with
  | .list statements => ⟨.all statements f .nil, stack, m⟩
  | .loop start test step body =>
      let (inner, store) := m.store.newFrame (some f)
      ⟨.node start inner, .start test step body inner :: stack, { m with store }⟩
  | .branch test yes => ⟨.node test f, .branches yes [] f :: stack, m⟩
  | .branchElse test yes no => ⟨.node test f, .branches yes no f :: stack, m⟩
  | .block id parameters body =>
      let (block, store) := m.store.capture ⟨id, parameters, body⟩ f
      ⟨.give (.ok block), stack, { m with store }⟩
  | .call name arguments =>
      match m.store.lookup f name with
      | .block definition own =>
          if limit ≤ m.active then
            ⟨.give (.error (.stackOverflow (m.active + 1) limit)), stack, m⟩
          else
            let (inner, store) := m.store.snapshot (m.store.callFrame definition own)
            let short := EvalError.arity name definition.parameters.length arguments.length
            ⟨.arguments ⟨short, definition.body, f, inner⟩ definition.parameters arguments, stack,
              { m with store }⟩
      | _ => ⟨.give (.ok notABlock), stack, m⟩
  | .assign name value => ⟨.node value f, .assign name f :: stack, m⟩
  | .var name => ⟨.give (.ok (m.store.lookup f name)), stack, m⟩
  | .logic op left right =>
      ⟨.node left f, .right (fun l r => .ok (.bool (op.onValues l r))) right f :: stack, m⟩
  | .compare op left right =>
      ⟨.node left f, .right (fun l r => (op.onValues l r).map .bool) right f :: stack, m⟩
  | .arith op left right => ⟨.node left f, .right op.onValues right f :: stack, m⟩
  | .int value => ⟨.give (.ok (.int value)), stack, m⟩
  | .float value => ⟨.give (.ok (.float value)), stack, m⟩
  | .bool value => ⟨.give (.ok (.bool value)), stack, m⟩

/-- How pending work goes on with the value it waited for. -/
def resume (pending : Pending) (v : Value) (stack : List Pending) (m : Machine) : Config :=
  match pending with
  | .statements rest f => ⟨.all rest f v, stack, m⟩
  | .start test step body f => ⟨.rounds test step body f .nil, stack, m⟩
  | .test test step body f last =>
      if v.truthy then ⟨.all body f .nil, .body test step body f :: stack, m⟩
      else ⟨.give (.ok last), stack, m⟩
  | .body test step body f => ⟨.node step f, .step test step body f v :: stack, m⟩
  | .step test step body f last => ⟨.rounds test step body f last, stack, m⟩
  | .branches yes no f => ⟨.all (if v.truthy then yes else no) f .nil, stack, m⟩
  | .argument call parameter parameters arguments =>
      ⟨.arguments call parameters arguments, stack,
        { m with store := m.store.bind call.inner parameter v }⟩
  | .leave => ⟨.give (.ok v), stack, Pending.leave.abort m⟩
  | .assign name f => ⟨.give (.ok v), stack, { m with store := m.store.assign f name v }⟩
  | .right combine right f => ⟨.node right f, .combine combine v :: stack, m⟩
  | .combine combine left => ⟨.give (combine left v), stack, m⟩

/-- One step; there is none from an outcome that no work waits for. -/
def step (limit : Nat) : Config → Option Config
  | ⟨.node node f, stack, m⟩ => some (enter limit node f stack m)
  | ⟨.all [] _ last, stack, m⟩ => some ⟨.give (.ok last), stack, m⟩
  | ⟨.all (node :: rest) f _, stack, m⟩ => some ⟨.node node f, .statements rest f :: stack, m⟩
  | ⟨.rounds test step body f last, stack, m⟩ =>
      some ⟨.node test f, .test test step body f last :: stack, m⟩
  | ⟨.arguments call [] _, stack, m⟩ =>
      some ⟨.all call.body call.inner .nil, .leave :: stack, { m with active := m.active + 1 }⟩
  | ⟨.arguments call (_ :: _) [], stack, m⟩ => some ⟨.give (.error call.short), stack, m⟩
  | ⟨.arguments call (parameter :: parameters) (argument :: arguments), stack, m⟩ =>
      some ⟨.node argument call.caller, .argument call parameter parameters arguments :: stack, m⟩
  | ⟨.give _, [], _⟩ => none
  | ⟨.give (.ok v), pending :: stack, m⟩ => some (resume pending v stack m)
  | ⟨.give (.error e), pending :: stack, m⟩ => some ⟨.give (.error e), stack, pending.abort m⟩

/-- Zero or more steps. -/
abbrev Steps (limit : Nat) : Config → Config → Prop :=
  Relation.ReflTransGen fun c c' => step limit c = some c'

/-! ## Calls

The three ways in which a call begins, for evaluation and for the first step into it. -/

section Calls

variable {limit budget : Nat} {name : String} {arguments : List (Node DefId)} {f own : FrameId}
  {d : Definition} {m : Machine} {stack : List Pending}

/-- The error of a call of a block with too few arguments. -/
def Definition.short (d : Definition) (name : String) (arguments : List (Node DefId)) :
    EvalError :=
  .arity name d.parameters.length arguments.length

/-- What a call of a known block does once there is room for it. -/
def calls (limit budget : Nat) (name : String) (arguments : List (Node DefId)) (f : FrameId)
    (d : Definition) (inner : FrameId) : Run Value := do
  bindArguments limit budget (d.short name arguments) d.parameters arguments f inner
  Run.calling (evaluateAll limit budget d.body inner .nil)

theorem evaluate_call :
    evaluate limit (budget + 1) (.call name arguments) f m =
      (match m.store.lookup f name with
        | .block d own => Run.guarded limit (do
            let inner ← Run.act fun s => s.snapshot (s.callFrame d own)
            calls limit budget name arguments f d inner)
        | _ => pure notABlock) m :=
  rfl

theorem evaluate_call_block (callee : m.store.lookup f name = .block d own)
    (room : m.active < limit) :
    evaluate limit (budget + 1) (.call name arguments) f m =
      calls limit budget name arguments f d m.store.next
        { m with store := (m.store.snapshot (m.store.callFrame d own)).2 } := by
  rw [evaluate_call, callee]
  simp only [Run.guarded_apply, if_neg (Nat.not_le.mpr room)]
  rfl

theorem evaluate_call_full (callee : m.store.lookup f name = .block d own)
    (full : limit ≤ m.active) :
    evaluate limit (budget + 1) (.call name arguments) f m =
      some (.error (.stackOverflow (m.active + 1) limit), m) := by
  rw [evaluate_call, callee]
  simp only [Run.guarded_apply, if_pos full]

theorem evaluate_call_other (callee : ∀ d own, m.store.lookup f name ≠ .block d own) :
    evaluate limit (budget + 1) (.call name arguments) f m = some (.ok notABlock, m) := by
  rw [evaluate_call]
  cases found : m.store.lookup f name with
  | block d own => exact absurd found (callee d own)
  | int | float | bool | nil | signal => rfl

theorem enter_call_block (callee : m.store.lookup f name = .block d own)
    (room : m.active < limit) :
    enter limit (.call name arguments) f stack m =
      ⟨.arguments ⟨d.short name arguments, d.body, f, m.store.next⟩ d.parameters arguments, stack,
        { m with store := (m.store.snapshot (m.store.callFrame d own)).2 }⟩ := by
  simp only [enter, callee, if_neg (Nat.not_le.mpr room), Definition.short, Store.snapshot,
    Store.add_fst]

theorem enter_call_full (callee : m.store.lookup f name = .block d own)
    (full : limit ≤ m.active) :
    enter limit (.call name arguments) f stack m =
      ⟨.give (.error (.stackOverflow (m.active + 1) limit)), stack, m⟩ := by
  simp only [enter, callee, if_pos full]

theorem enter_call_other (callee : ∀ d own, m.store.lookup f name ≠ .block d own) :
    enter limit (.call name arguments) f stack m = ⟨.give (.ok notABlock), stack, m⟩ := by
  cases found : m.store.lookup f name with
  | block d own => exact absurd found (callee d own)
  | int | float | bool | nil | signal => simp only [enter, found]

end Calls

section Follow

variable {limit : Nat}

/-! ## From evaluation to steps -/

/-- A computation whose results the steps from a focus lead to, whatever work is pending. -/
def Follows (limit : Nat) (x : Run Value) (focus : Focus) : Prop :=
  ∀ ⦃m : Machine⦄ ⦃r : Except EvalError Value⦄ ⦃m' : Machine⦄, x m = some (r, m') →
    ∀ stack, Steps limit ⟨focus, stack, m⟩ ⟨.give r, stack, m'⟩

/-- Steps of a part and of the work that waits for its value: an error passes the work by. -/
theorem Follows.andThen {x : Run Value} {focus : Focus} (first : Follows limit x focus)
    (pending : Pending) (passes : ∀ m, pending.abort m = m) {f : Value → Run Value}
    {stack : List Pending}
    (second : ∀ v m₁ r m', f v m₁ = some (r, m') →
      Steps limit (resume pending v stack m₁) ⟨.give r, stack, m'⟩)
    {m m' : Machine} {r : Except EvalError Value} (gives : (x >>= f) m = some (r, m')) :
    Steps limit ⟨focus, pending :: stack, m⟩ ⟨.give r, stack, m'⟩ := by
  rcases Run.bind_eq_some_iff.mp gives with ⟨e, stopped, rfl⟩ | ⟨v, m₁, went, further⟩
  · refine (first stopped _).tail ?_
    simp [step, passes]
  · have resumed : step limit ⟨.give (.ok v), pending :: stack, m₁⟩ =
        some (resume pending v stack m₁) := rfl
    exact (first went _).trans (.head resumed (second v m₁ r m' further))

/-- Binary operations, which differ only in how the two values are combined. -/
theorem Follows.binary {x y : Run Value} {left right : Node DefId} {f : FrameId}
    (first : Follows limit x (.node left f)) (second : Follows limit y (.node right f))
    (combine : Value → Value → Except EvalError Value) {stack : List Pending}
    {m m' : Machine} {r : Except EvalError Value}
    (gives : (x >>= fun l => y >>= fun r => Run.ofExcept (combine l r)) m = some (r, m')) :
    Steps limit ⟨.node left f, .right combine right f :: stack, m⟩ ⟨.give r, stack, m'⟩ := by
  refine first.andThen (.right combine right f) (fun _ => rfl) (fun l m₁ r m' further => ?_) gives
  refine second.andThen (.combine combine l) (fun _ => rfl) (fun v m₂ r m' last => ?_) further
  cases last
  exact .refl

/-- Where the steps through the arguments of a call lead: to the call with no parameter left,
or to an error. -/
def BindSteps (limit : Nat) (call : Call) (parameters : List String)
    (arguments : List (Node DefId)) (stack : List Pending) (m : Machine) :
    Except EvalError Unit → Machine → Prop
  | .ok _, m' => ∃ rest, Steps limit ⟨.arguments call parameters arguments, stack, m⟩
      ⟨.arguments call [] rest, stack, m'⟩
  | .error e, m' => Steps limit ⟨.arguments call parameters arguments, stack, m⟩
      ⟨.give (.error e), stack, m'⟩

theorem Follows.call {call : Call} {parameters : List String} {arguments : List (Node DefId)}
    {binding : Run Unit} {body : Run Value}
    (bound : ∀ m r m' stack, binding m = some (r, m') →
      BindSteps limit call parameters arguments stack m r m')
    (runs : Follows limit body (.all call.body call.inner .nil)) :
    Follows limit (binding >>= fun _ => Run.calling body)
      (.arguments call parameters arguments) := by
  intro m r m' gives stack
  rcases Run.bind_eq_some_iff.mp gives with ⟨e, stopped, rfl⟩ | ⟨_, m₁, went, further⟩
  · exact bound m _ m' stack stopped
  · obtain ⟨rest, steps⟩ := bound m _ m₁ stack went
    obtain ⟨m₂, inside, rfl⟩ := Run.calling_eq_some_iff.mp further
    refine steps.trans (.head rfl ((runs inside (.leave :: stack)).tail ?_))
    cases r <;> rfl

mutual
/-- **Whatever an evaluation gives, the steps lead to.** -/
theorem steps_of_evaluate : ∀ (budget : Nat) (node : Node DefId) (f : FrameId),
    Follows limit (evaluate limit budget node f) (.node node f)
  | 0, _, _ => fun _ _ _ gives => by cases gives
  | budget + 1, node, f => by
      intro m r m' gives stack
      refine .head rfl ?_
      cases node with
      | list statements => exact steps_of_evaluateAll budget statements f .nil gives stack
      | loop start test step body =>
          refine (steps_of_evaluate budget start m.store.next).andThen (.start test step body _)
            (fun _ => rfl) (fun v m₁ r m' further => ?_) gives
          exact steps_of_evaluateLoop budget test step body _ .nil further stack
      | branch test yes =>
          refine (steps_of_evaluate budget test f).andThen (.branches yes [] f) (fun _ => rfl)
            (fun v m₁ r m' further => ?_) gives
          cases truth : v.truthy with
          | true =>
              simp only [truth, if_true] at further
              simp only [resume, truth, if_true]
              exact steps_of_evaluateAll budget yes f .nil further stack
          | false =>
              simp only [truth, Bool.false_eq_true, if_false] at further
              simp only [resume, truth, Bool.false_eq_true, if_false]
              cases further
              exact .single rfl
      | branchElse test yes no =>
          refine (steps_of_evaluate budget test f).andThen (.branches yes no f) (fun _ => rfl)
            (fun v m₁ r m' further => ?_) gives
          cases truth : v.truthy with
          | true =>
              simp only [truth, if_true] at further
              simp only [resume, truth, if_true]
              exact steps_of_evaluateAll budget yes f .nil further stack
          | false =>
              simp only [truth, Bool.false_eq_true, if_false] at further
              simp only [resume, truth, Bool.false_eq_true, if_false]
              exact steps_of_evaluateAll budget no f .nil further stack
      | block id parameters body =>
          cases gives
          exact .refl
      | call name arguments =>
          cases callee : m.store.lookup f name with
          | block d own =>
              by_cases full : limit ≤ m.active
              · rw [evaluate_call_full callee full] at gives
                cases gives
                rw [enter_call_full callee full]
              · rw [evaluate_call_block callee (Nat.not_le.mp full)] at gives
                rw [enter_call_block callee (Nat.not_le.mp full)]
                exact Follows.call (steps_of_bindArguments ⟨_, _, _, _⟩ budget _ _)
                  (steps_of_evaluateAll budget d.body m.store.next .nil) gives stack
          | int | float | bool | nil | signal =>
              rw [evaluate_call_other (by simp [callee])] at gives
              cases gives
              rw [enter_call_other (by simp [callee])]
      | assign name value =>
          refine (steps_of_evaluate budget value f).andThen (.assign name f) (fun _ => rfl)
            (fun v m₁ r m' further => ?_) gives
          cases further
          exact .refl
      | var name =>
          cases gives
          exact .refl
      | logic op left right =>
          exact (steps_of_evaluate budget left f).binary (steps_of_evaluate budget right f) _ gives
      | compare op left right =>
          refine (steps_of_evaluate budget left f).binary (steps_of_evaluate budget right f)
            (fun l r => (op.onValues l r).map .bool) ?_
          simpa only [evaluate, Run.ofExcept_map] using gives
      | arith op left right =>
          exact (steps_of_evaluate budget left f).binary (steps_of_evaluate budget right f) _ gives
      | int | float | bool =>
          cases gives
          exact .refl

theorem steps_of_evaluateAll : ∀ (budget : Nat) (statements : List (Node DefId)) (f : FrameId)
    (last : Value), Follows limit (evaluateAll limit budget statements f last)
      (.all statements f last)
  | 0, _, _, _ => fun _ _ _ gives => by cases gives
  | budget + 1, [], f, last => by
      intro m r m' gives stack
      cases gives
      exact .single rfl
  | budget + 1, node :: rest, f, last => by
      intro m r m' gives stack
      refine .head rfl ?_
      refine (steps_of_evaluate budget node f).andThen (.statements rest f) (fun _ => rfl)
        (fun v m₁ r m' further => ?_) gives
      exact steps_of_evaluateAll budget rest f v further stack

theorem steps_of_evaluateLoop : ∀ (budget : Nat) (test step : Node DefId)
    (body : List (Node DefId)) (f : FrameId) (last : Value),
    Follows limit (evaluateLoop limit budget test step body f last)
      (.rounds test step body f last)
  | 0, _, _, _, _, _ => fun _ _ _ gives => by cases gives
  | budget + 1, test, step, body, f, last => by
      intro m r m' gives stack
      refine .head rfl ?_
      refine (steps_of_evaluate budget test f).andThen (.test test step body f last)
        (fun _ => rfl) (fun v m₁ r m' further => ?_) gives
      cases truth : v.truthy with
      | false =>
          simp only [truth, Bool.false_eq_true, if_false] at further
          cases further
          simp only [resume, truth, Bool.false_eq_true, if_false]
          exact .refl
      | true =>
          simp only [truth, if_true] at further
          simp only [resume, truth, if_true]
          refine (steps_of_evaluateAll budget body f .nil).andThen (.body test step body f)
            (fun _ => rfl) (fun v m₂ r m' further => ?_) further
          refine (steps_of_evaluate budget step f).andThen (.step test step body f v)
            (fun _ => rfl) (fun _ m₃ r m' further => ?_) further
          exact steps_of_evaluateLoop budget test step body f v further stack

theorem steps_of_bindArguments (call : Call) : ∀ (budget : Nat) (parameters : List String)
    (arguments : List (Node DefId)) (m : Machine) (r : Except EvalError Unit) (m' : Machine)
    (stack : List Pending),
    bindArguments limit budget call.short parameters arguments call.caller call.inner m =
      some (r, m') → BindSteps limit call parameters arguments stack m r m'
  | 0, _, _, _, _, _, _, gives => by cases gives
  | budget + 1, [], arguments, m, r, m', stack, gives => by
      cases gives
      exact ⟨arguments, .refl⟩
  | budget + 1, _ :: _, [], m, r, m', stack, gives => by
      cases gives
      exact .single rfl
  | budget + 1, parameter :: parameters, argument :: arguments, m, r, m', stack, gives => by
      have first := steps_of_evaluate budget argument call.caller
      rcases Run.bind_eq_some_iff.mp gives with ⟨e, stopped, rfl⟩ | ⟨v, m₁, went, further⟩
      · exact .head rfl ((first stopped _).tail rfl)
      · have bound := steps_of_bindArguments call budget parameters arguments _ r m' stack further
        have steps : Steps limit
            ⟨.arguments call (parameter :: parameters) (argument :: arguments), stack, m⟩
            ⟨.arguments call parameters arguments, stack,
              { m₁ with store := m₁.store.bind call.inner parameter v }⟩ :=
          .head rfl ((first went _).tail rfl)
        cases r with
        | ok _ =>
            obtain ⟨rest, others⟩ := bound
            exact ⟨rest, steps.trans others⟩
        | error e => exact steps.trans bound
end

end Follow

/-! ## From steps back to evaluation

A configuration means a computation: its focus, evaluated by the functions of evaluation, and
then the pending work from the top of the stack down. -/

section Meaning

variable {limit : Nat}

/-- A focus by the functions of evaluation. -/
def Focus.run (limit budget : Nat) : Focus → Run Value
  | .node n f => evaluate limit budget n f
  | .all statements f last => evaluateAll limit budget statements f last
  | .rounds test step body f last => evaluateLoop limit budget test step body f last
  | .arguments call ps as => do
      bindArguments limit budget call.short ps as call.caller call.inner
      Run.calling (evaluateAll limit budget call.body call.inner .nil)
  | .give outcome => Run.ofExcept outcome

/-- What pending work does with the value it waits for. -/
def Pending.goOn (limit budget : Nat) : Pending → Value → Run Value
  | .statements rest f, v => evaluateAll limit budget rest f v
  | .start t s b f, _ => evaluateLoop limit budget t s b f .nil
  | .test t s b f last, v =>
      if v.truthy then do
        let v ← evaluateAll limit budget b f .nil
        let _ ← evaluate limit budget s f
        evaluateLoop limit budget t s b f v
      else return last
  | .body t s b f, v => do
      let _ ← evaluate limit budget s f
      evaluateLoop limit budget t s b f v
  | .step t s b f last, _ => evaluateLoop limit budget t s b f last
  | .branches yes no f, v => evaluateAll limit budget (if v.truthy then yes else no) f .nil
  | .argument call parameter ps as, v => do
      Run.change fun s => s.bind call.inner parameter v
      (Focus.arguments call ps as).run limit budget
  | .leave, v => fun m => some (.ok v, Pending.leave.abort m)
  | .assign name f, v => do
      Run.change fun s => s.assign f name v
      return v
  | .right k n f, l => do
      let r ← evaluate limit budget n f
      Run.ofExcept (k l r)
  | .combine k l, r => Run.ofExcept (k l r)

/-- A computation and then the work that is pending; an error passes it by. -/
def Pending.after (limit budget : Nat) (x : Run Value) (pending : Pending) : Run Value := fun m =>
  match x m with
  | none => none
  | some (.ok v, m') => pending.goOn limit budget v m'
  | some (.error e, m') => some (.error e, pending.abort m')

/-- A configuration as a computation: its focus, then the stack from the top down. -/
def Config.run (limit budget : Nat) (c : Config) : Option (Except EvalError Value × Machine) :=
  c.stack.foldl (Pending.after limit budget) (c.focus.run limit budget) c.machine

theorem Focus.run_budget (focus : Focus) {budget more : Nat} (le : budget ≤ more) :
    Run.Le (focus.run limit budget) (focus.run limit more) := by
  cases focus with
  | node n f => exact evaluate_budget le n f
  | all statements f last => exact evaluateAll_budget le statements f last
  | rounds test step body f last => exact evaluateLoop_budget le test step body f last
  | arguments call ps as =>
      exact (bindArguments_budget le _ ps as _ _).andThen fun _ =>
        (evaluateAll_budget le call.body call.inner .nil).calling
  | give outcome => exact Run.Le.refl _

theorem Pending.goOn_budget (pending : Pending) (v : Value) {budget more : Nat}
    (le : budget ≤ more) : Run.Le (pending.goOn limit budget v) (pending.goOn limit more v) := by
  cases pending with
  | statements rest f => exact evaluateAll_budget le rest f v
  | start t s b f => exact evaluateLoop_budget le t s b f .nil
  | test t s b f last =>
      simp only [goOn]
      split
      · refine (evaluateAll_budget le b f .nil).andThen fun v => ?_
        exact (evaluate_budget le s f).andThen fun _ => evaluateLoop_budget le t s b f v
      · exact Run.Le.refl _
  | body t s b f =>
      exact (evaluate_budget le s f).andThen fun _ => evaluateLoop_budget le t s b f v
  | step t s b f last => exact evaluateLoop_budget le t s b f last
  | branches yes no f => exact evaluateAll_budget le _ f .nil
  | argument call parameter ps as =>
      exact (Run.Le.refl _).andThen fun _ => (Focus.arguments call ps as).run_budget le
  | leave => exact Run.Le.refl _
  | assign name f => exact Run.Le.refl _
  | right k n f => exact (evaluate_budget le n f).andThen fun _ => Run.Le.refl _
  | combine k l => exact Run.Le.refl _

/-- Pending work is monotone: in the budget, and in the computation before it. -/
theorem foldl_after {budget more : Nat} (le : budget ≤ more) (stack : List Pending) :
    ∀ {x y : Run Value} {m m' : Machine} {out : Except EvalError Value × Machine},
      stack.foldl (Pending.after limit budget) x m = some out →
        (∀ out, x m = some out → y m' = some out) →
          stack.foldl (Pending.after limit more) y m' = some out := by
  induction stack with
  | nil => exact fun gives first => first _ gives
  | cons pending stack ih =>
      intro x y m m' out gives first
      refine ih gives fun out after => ?_
      unfold Pending.after at after ⊢
      cases before : x m with
      | none => simp [before] at after
      | some result =>
          obtain ⟨r, m₁⟩ := result
          rw [first _ before]
          simp only [before] at after
          cases r with
          | ok v => exact pending.goOn_budget v le after
          | error e => exact after

/-- Work that an error passes by without a trace is what a computation goes on with. -/
theorem Pending.after_eq {budget : Nat} {pending : Pending} (passes : ∀ m, pending.abort m = m)
    (x : Run Value) : Pending.after limit budget x pending = x >>= pending.goOn limit budget := by
  funext m
  change _ = Run.andThen x (pending.goOn limit budget) m
  unfold Pending.after Run.andThen
  split
  · rename_i unfinished
    simp only [unfinished]
  · rename_i v m' ok
    simp only [ok]
  · rename_i e m' error
    simp only [error, passes]

theorem Pending.of_after {budget : Nat} {pending : Pending} (passes : ∀ m, pending.abort m = m)
    {x : Run Value} {m : Machine} {out : Except EvalError Value × Machine}
    (gives : Pending.after limit budget x pending m = some out) :
    (x >>= pending.goOn limit budget) m = some out := by
  rw [← after_eq passes]
  exact gives

theorem Pending.after_leave {budget : Nat} (x : Run Value) (m : Machine) :
    Pending.after limit budget x .leave { m with active := m.active + 1 } = Run.calling x m := by
  unfold Pending.after Run.calling
  cases x { m with active := m.active + 1 } with
  | none => rfl
  | some result =>
      obtain ⟨r, m'⟩ := result
      cases r <;> rfl

/-- The first step into a node, undone. -/
theorem Config.run_enter {budget : Nat} {node : Node DefId} {f : FrameId} {stack : List Pending}
    {m : Machine} {out : Except EvalError Value × Machine}
    (gives : (enter limit node f stack m).run limit budget = some out) :
    (⟨.node node f, stack, m⟩ : Config).run limit (budget + 1) = some out := by
  have le := Nat.le_succ budget
  cases node with
  | list statements => exact foldl_after le stack gives fun _ inside => inside
  | loop start test step body =>
      exact foldl_after le stack gives fun _ inside => Pending.of_after (fun _ => rfl) inside
  | branch test yes =>
      refine foldl_after le stack gives fun _ inside => ?_
      refine Run.Le.andThen (Run.Le.refl _) (fun v => ?_) (Pending.of_after (fun _ => rfl) inside)
      intro m₁ out further
      simp only [Pending.goOn] at further
      split
      · rename_i truth
        simpa only [truth, if_true] using further
      · rename_i truth
        simp only [truth, Bool.false_eq_true, if_false] at further
        cases budget with
        | zero => cases further
        | succ budget => exact further
  | branchElse test yes no =>
      refine foldl_after le stack gives fun _ inside => ?_
      refine Run.Le.andThen (Run.Le.refl _) (fun v => ?_) (Pending.of_after (fun _ => rfl) inside)
      intro m₁ out further
      simp only [Pending.goOn] at further
      split
      · rename_i truth
        simpa only [truth, if_true] using further
      · rename_i truth
        simpa only [truth, Bool.false_eq_true, if_false] using further
  | block id parameters body => exact foldl_after le stack gives fun _ inside => inside
  | call name arguments =>
      cases callee : m.store.lookup f name with
      | block d own =>
          by_cases full : limit ≤ m.active
          · rw [enter_call_full callee full] at gives
            refine foldl_after le stack gives fun _ inside => ?_
            exact (evaluate_call_full callee full).trans inside
          · rw [enter_call_block callee (Nat.not_le.mp full)] at gives
            refine foldl_after le stack gives fun _ inside => ?_
            exact (evaluate_call_block callee (Nat.not_le.mp full)).trans inside
      | int | float | bool | nil | signal =>
          rw [enter_call_other (by simp [callee])] at gives
          refine foldl_after le stack gives fun _ inside => ?_
          exact (evaluate_call_other (by simp [callee])).trans inside
  | assign name value =>
      exact foldl_after le stack gives fun _ inside => Pending.of_after (fun _ => rfl) inside
  | var name => exact foldl_after le stack gives fun _ inside => inside
  | logic op left right =>
      exact foldl_after le stack gives fun _ inside => Pending.of_after (fun _ => rfl) inside
  | compare op left right =>
      refine foldl_after le stack gives fun _ inside => ?_
      change evaluate limit (budget + 1) (.compare op left right) f m = _
      simp only [evaluate, Run.ofExcept_map]
      exact Pending.of_after (fun _ => rfl) inside
  | arith op left right =>
      exact foldl_after le stack gives fun _ inside => Pending.of_after (fun _ => rfl) inside
  | int | float | bool => exact foldl_after le stack gives fun _ inside => inside

/-- The step that goes on with a value, undone. -/
theorem Config.run_resume {budget : Nat} {pending : Pending} {v : Value} {stack : List Pending}
    {m : Machine} {out : Except EvalError Value × Machine}
    (gives : (resume pending v stack m).run limit budget = some out) :
    (⟨.give (.ok v), pending :: stack, m⟩ : Config).run limit (budget + 1) = some out := by
  have le := Nat.le_succ budget
  change stack.foldl (Pending.after limit (budget + 1)) (pending.goOn limit (budget + 1) v) m = _
  cases pending with
  | statements | start | step | branches | argument | leave | assign | combine =>
      exact foldl_after le stack gives fun _ inside => Pending.goOn_budget _ v le inside
  | test test step body f last =>
      simp only [resume] at gives
      split at gives
      · rename_i truth
        refine foldl_after le stack gives fun _ inside => Pending.goOn_budget _ v le ?_
        simp only [Pending.goOn, truth, if_true]
        exact Pending.of_after (fun _ => rfl) inside
      · rename_i truth
        refine foldl_after le stack gives fun _ inside => Pending.goOn_budget _ v le ?_
        simp only [Pending.goOn, truth]
        exact inside
  | body | right =>
      refine foldl_after le stack gives fun _ inside => Pending.goOn_budget _ v le ?_
      exact Pending.of_after (fun _ => rfl) inside

/-- **A step undone costs at most one unit of budget.** -/
theorem Config.run_of_step {budget : Nat} {c c' : Config}
    {out : Except EvalError Value × Machine} (stepped : step limit c = some c')
    (gives : c'.run limit budget = some out) : c.run limit (budget + 1) = some out := by
  have le := Nat.le_succ budget
  obtain ⟨focus, stack, m⟩ := c
  cases focus with
  | node node f =>
      cases stepped
      exact run_enter gives
  | all statements f last =>
      cases statements with
      | nil =>
          cases stepped
          exact foldl_after le stack gives fun _ inside => inside
      | cons node rest =>
          cases stepped
          exact foldl_after le stack gives fun _ inside => Pending.of_after (fun _ => rfl) inside
  | rounds test step body f last =>
      cases stepped
      exact foldl_after le stack gives fun _ inside => Pending.of_after (fun _ => rfl) inside
  | arguments call parameters arguments =>
      cases parameters with
      | nil =>
          cases stepped
          refine foldl_after le stack gives fun _ inside => ?_
          rw [Pending.after_leave] at inside
          exact (evaluateAll_budget le call.body call.inner .nil).calling inside
      | cons parameter parameters =>
          cases arguments with
          | nil =>
              cases stepped
              exact foldl_after le stack gives fun _ inside => inside
          | cons argument arguments =>
              cases stepped
              refine foldl_after le stack gives fun _ inside => ?_
              simp only [Focus.run, bindArguments, Run.bind_assoc]
              refine Run.Le.andThen (Run.Le.refl _) (fun v => ?_)
                (Pending.of_after (fun _ => rfl) inside)
              refine Run.Le.andThen (Run.Le.refl _) fun _ => ?_
              refine Run.Le.andThen (Run.Le.refl _) fun _ => ?_
              exact (evaluateAll_budget le call.body call.inner .nil).calling
  | give outcome =>
      cases stack with
      | nil => cases stepped
      | cons pending stack =>
          cases outcome with
          | ok v =>
              cases stepped
              exact run_resume gives
          | error e =>
              cases stepped
              exact foldl_after le stack gives fun _ inside => inside

theorem Config.run_of_steps {c c' : Config} {budget : Nat}
    {out : Except EvalError Value × Machine} (steps : Steps limit c c')
    (gives : c'.run limit budget = some out) : ∃ more, c.run limit more = some out := by
  induction steps using Relation.ReflTransGen.head_induction_on with
  | refl => exact ⟨budget, gives⟩
  | head stepped _ ih =>
      obtain ⟨more, gives⟩ := ih
      exact ⟨more + 1, run_of_step stepped gives⟩

/-- **Evaluation and its steps agree.**  An evaluation ends with a result exactly if the steps
lead from the node, with no work pending, to that result. -/
theorem ends_iff_steps {node : Node DefId} {f : FrameId} {m m' : Machine}
    {r : Except EvalError Value} :
    Ends limit node f m r m' ↔ Steps limit ⟨.node node f, [], m⟩ ⟨.give r, [], m'⟩ := by
  constructor
  · rintro ⟨budget, gives⟩
    exact steps_of_evaluate budget node f gives []
  · intro steps
    have done : (⟨.give r, [], m'⟩ : Config).run limit 0 = some (r, m') := rfl
    exact Config.run_of_steps steps done

end Meaning

end BlockScript
