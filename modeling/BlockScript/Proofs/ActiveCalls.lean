import BlockScript.Proofs.Stepping
import BlockScript.Run.Interpreter

/-!
# The number of active calls

A machine counts the block calls that are active.  The count is raised when a body is entered and
lowered when the body is left, with a value or with an error.  What it ought to be is said without
it, by the steps of the run that enter a body and those that leave one (`tally`), and the two agree
in every state of an evaluation (`active_calls_exact`).

The reason is that a body that has been entered leaves a mark on the stack, and an outcome on its
way down the stack passes every mark (`marks_of_step`).  The limit is tested before the arguments
of a call are evaluated, and the body is entered after them.  Other calls may begin and end in
between, but when an argument has its value there is as much room as before
(`Pending.Reserved`), so the count does not pass the limit, and a call that finds no room finds
exactly as many calls active as the limit allows.
-/

set_option autoImplicit false

namespace BlockScript

variable {limit : Nat}

/-! ## Bodies entered and left -/

namespace Config

/-- Whether the next step enters the body of a block: all its parameters are bound. -/
def enters : Config → Bool
  | ⟨.arguments _ [] _, _, _⟩ => true
  | _ => false

/-- Whether the next step leaves the body of a block, with a value or with an error. -/
def leaves : Config → Bool
  | ⟨.give _, .leave :: _, _⟩ => true
  | _ => false

end Config

/-- A state of a run, with the number of bodies entered and left on the way to it. -/
structure Tally where
  entered : Nat
  left : Nat
  state : Config

/-- The state after a number of steps from a start, if the run is that long. -/
def tally (limit : Nat) (start : Config) : (steps : Nat) → Option Tally
  | 0 => some ⟨0, 0, start⟩
  | steps + 1 => do
      let before ← tally limit start steps
      let state ← step limit before.state
      return ⟨before.entered + before.state.enters.toNat,
        before.left + before.state.leaves.toNat, state⟩

theorem tally_succ_iff {start : Config} {steps : Nat} {after : Tally} :
    tally limit start (steps + 1) = some after ↔
      ∃ before, tally limit start steps = some before ∧
        step limit before.state = some after.state ∧
        after.entered = before.entered + before.state.enters.toNat ∧
        after.left = before.left + before.state.leaves.toNat := by
  obtain ⟨entered, left, state⟩ := after
  simp only [tally, Option.bind_eq_bind, Option.bind_eq_some_iff, Option.pure_def,
    Option.some.injEq, Tally.mk.injEq]
  constructor
  · rintro ⟨before, so, state, stepped, rfl, rfl, rfl⟩
    exact ⟨before, so, stepped, rfl, rfl⟩
  · rintro ⟨before, so, stepped, rfl, rfl⟩
    exact ⟨before, so, state, stepped, rfl, rfl, rfl⟩

/-- Every state of a run comes after some number of steps. -/
theorem steps_iff_exists_tally {start c : Config} :
    Steps limit start c ↔
      ∃ steps entered left, tally limit start steps = some ⟨entered, left, c⟩ := by
  constructor
  · intro run
    induction run with
    | refl => exact ⟨0, 0, 0, rfl⟩
    | tail _ stepped ih =>
        obtain ⟨steps, entered, left, before⟩ := ih
        exact ⟨steps + 1, _, _, tally_succ_iff.mpr ⟨_, before, stepped, rfl, rfl⟩⟩
  · rintro ⟨steps, entered, left, run⟩
    induction steps generalizing entered left c with
    | zero =>
        cases run
        exact .refl
    | succ steps ih =>
        obtain ⟨before, run, stepped, -, -⟩ := tally_succ_iff.mp run
        exact (ih _ _ run).tail stepped

/-! ## Marks on the stack -/

/-- The number of bodies that are left when an outcome passes the work. -/
def Pending.marks : Pending → Nat
  | .leave => 1
  | _ => 0

/-- The number of bodies that are being evaluated above the bottom of the stack. -/
def openBodies : List Pending → Nat
  | [] => 0
  | pending :: stack => pending.marks + openBodies stack

theorem marks_enter (node : Node DefId) (f : FrameId) (stack : List Pending) (m : Machine) :
    openBodies (enter limit node f stack m).stack = openBodies stack ∧
      (enter limit node f stack m).machine.active = m.active := by
  cases node with
  | call name arguments =>
      cases callee : m.store.lookup f name with
      | block d own =>
          by_cases full : limit ≤ m.active
          · rw [enter_call_full callee full]
            exact ⟨rfl, rfl⟩
          · rw [enter_call_block callee (Nat.not_le.mp full)]
            exact ⟨rfl, rfl⟩
      | int | float | bool | nil | signal =>
          rw [enter_call_other (by simp [callee])]
          exact ⟨rfl, rfl⟩
  | loop | branch | branchElse | assign | logic | compare | arith =>
      exact ⟨Nat.zero_add _, rfl⟩
  | list | block | var | int | float | bool => exact ⟨rfl, rfl⟩

theorem marks_resume (pending : Pending) (v : Value) (stack : List Pending) (m : Machine) :
    openBodies (resume pending v stack m).stack = openBodies stack ∧
      (resume pending v stack m).machine.active = m.active - pending.marks := by
  cases pending with
  | test test step body f last =>
      simp only [resume]
      split
      · exact ⟨Nat.zero_add _, rfl⟩
      · exact ⟨rfl, rfl⟩
  | body | right => exact ⟨Nat.zero_add _, rfl⟩
  | statements | start | step | branches | argument | leave | assign | combine => exact ⟨rfl, rfl⟩

/-- **A step that enters a body puts a mark on the stack and raises the count, and a step that
leaves one takes the mark off and lowers it.**  No other step does either. -/
theorem marks_of_step {c c' : Config} (stepped : step limit c = some c') :
    openBodies c'.stack + c.leaves.toNat = openBodies c.stack + c.enters.toNat ∧
      c'.machine.active = c.machine.active + c.enters.toNat - c.leaves.toNat := by
  obtain ⟨focus, stack, m⟩ := c
  cases focus with
  | node node f =>
      cases stepped
      exact marks_enter node f stack m
  | all statements f last =>
      cases statements with
      | nil =>
          cases stepped
          exact ⟨rfl, rfl⟩
      | cons node rest =>
          cases stepped
          exact ⟨Nat.zero_add _, rfl⟩
  | rounds test step body f last =>
      cases stepped
      exact ⟨Nat.zero_add _, rfl⟩
  | arguments call parameters arguments =>
      cases parameters with
      | nil =>
          cases stepped
          exact ⟨Nat.add_comm 1 _, rfl⟩
      | cons parameter parameters =>
          cases arguments with
          | nil =>
              cases stepped
              exact ⟨rfl, rfl⟩
          | cons argument arguments =>
              cases stepped
              exact ⟨Nat.zero_add _, rfl⟩
  | give outcome =>
      cases stack with
      | nil => cases stepped
      | cons pending stack =>
          have mark : (⟨.give outcome, pending :: stack, m⟩ : Config).leaves.toNat =
              pending.marks := by
            cases pending <;> rfl
          have noEntry : (⟨.give outcome, pending :: stack, m⟩ : Config).enters = false := rfl
          rw [mark, noEntry]
          cases outcome with
          | ok v =>
              cases stepped
              obtain ⟨marks, active⟩ := marks_resume pending v stack m
              exact ⟨by rw [marks]; exact Nat.add_comm _ _, active⟩
          | error e =>
              cases stepped
              refine ⟨Nat.add_comm _ _, ?_⟩
              cases pending <;> rfl

/-! ## Room for calls -/

/-- An error that is an overflow of the limit by one call, if it is an overflow. -/
def EvalError.Fair (limit : Nat) (e : EvalError) : Prop :=
  ∀ depth bound, e = .stackOverflow depth bound → depth = limit + 1 ∧ bound = limit

theorem fair_operandError (op : String) (left right : Value) :
    (operandError op left right).Fair limit := by
  intro depth bound overflow
  unfold operandError at overflow
  split at overflow <;> cases overflow

/-- An operation on two values whose errors are all fair. -/
def FairOperation (limit : Nat) (combine : Value → Value → Except EvalError Value) : Prop :=
  ∀ ⦃left right : Value⦄ ⦃e : EvalError⦄, combine left right = .error e → e.Fair limit

theorem ArithOp.fair (op : ArithOp) : FairOperation limit op.onValues := by
  intro left right e fails
  unfold ArithOp.onValues at fails
  split at fails
  · cases op with
    | div =>
        simp only [ArithOp.onInts] at fails
        split at fails
        · cases fails
          intro depth bound overflow
          cases overflow
        · cases fails
    | add | sub | mul => cases fails
  · cases fails
  · cases fails
  · cases fails
  · cases fails
    exact fair_operandError _ _ _

theorem CompareOp.fair (op : CompareOp) :
    FairOperation limit fun left right => (op.onValues left right).map .bool := by
  intro left right e fails
  change (op.onValues left right).map Value.bool = .error e at fails
  cases outcome : op.onValues left right with
  | ok _ =>
      rw [outcome] at fails
      cases fails
  | error e' =>
      rw [outcome] at fails
      cases fails
      -- Equality has no errors, and the order has one only.
      have ordered : op.onNumbers left right = .error e := by
        cases op with
        | eq | ne => cases outcome
        | le | ge | lt | gt => exact outcome
      unfold CompareOp.onNumbers at ordered
      split at ordered
      · cases ordered
      · cases ordered
      · cases ordered
      · cases ordered
      · cases ordered
        exact fair_operandError _ _ _

theorem LogicOp.fair (op : LogicOp) :
    FairOperation limit fun left right => .ok (.bool (op.onValues left right)) := by
  intro left right e fails
  cases fails

/-- There is room for the call that is being prepared when `active` calls are, and an error that is
handed on is fair. -/
def Focus.Reserved (limit active : Nat) : Focus → Prop
  | .arguments call _ _ => active < limit ∧ call.short.Fair limit
  | .give (.error e) => e.Fair limit
  | _ => True

/-- There is room for the call that the argument belongs to when `active` calls are, and the
operators that wait have fair errors only. -/
def Pending.Reserved (limit active : Nat) : Pending → Prop
  | .argument call _ _ _ => active < limit ∧ call.short.Fair limit
  | .right operation _ _ => FairOperation limit operation
  | .combine operation _ => FairOperation limit operation
  | _ => True

/-- All work on the stack finds the room that it needs, if `k` calls are active below it. -/
def StackReserved (limit k : Nat) : List Pending → Prop
  | [] => True
  | pending :: stack =>
      pending.Reserved limit (k + openBodies stack) ∧ StackReserved limit k stack

/-- A state in which the count is `k` and one for each body that is being evaluated, within the
limit, and all calls that are being prepared have room. -/
structure Config.Counted (limit k : Nat) (c : Config) : Prop where
  active : c.machine.active = k + openBodies c.stack
  bounded : c.machine.active ≤ limit
  focus : c.focus.Reserved limit c.machine.active
  stack : StackReserved limit k c.stack

section Reserved

variable {k : Nat} {stack : List Pending} {m : Machine}

/-- The focus and the stack after the first step into a node. -/
theorem reserved_enter (node : Node DefId) (f : FrameId) (bounded : m.active ≤ limit)
    (below : StackReserved limit k stack) :
    (enter limit node f stack m).focus.Reserved limit m.active ∧
      StackReserved limit k (enter limit node f stack m).stack := by
  cases node with
  | call name arguments =>
      cases callee : m.store.lookup f name with
      | block d own =>
          by_cases full : limit ≤ m.active
          · rw [enter_call_full callee full]
            refine ⟨fun depth bound overflow => ?_, below⟩
            cases overflow
            exact ⟨congrArg (· + 1) (Nat.le_antisymm bounded full), rfl⟩
          · rw [enter_call_block callee (Nat.not_le.mp full)]
            refine ⟨⟨Nat.not_le.mp full, fun depth bound overflow => ?_⟩, below⟩
            cases overflow
      | int | float | bool | nil | signal =>
          rw [enter_call_other (by simp [callee])]
          exact ⟨trivial, below⟩
  | logic op left right => exact ⟨trivial, op.fair, below⟩
  | compare op left right => exact ⟨trivial, op.fair, below⟩
  | arith op left right => exact ⟨trivial, op.fair, below⟩
  | loop | branch | branchElse | assign => exact ⟨trivial, trivial, below⟩
  | list | block | var | int | float | bool => exact ⟨trivial, below⟩

/-- The focus and the stack after the step that goes on with a value. -/
theorem reserved_resume {pending : Pending} (v : Value)
    (active : m.active = k + openBodies (pending :: stack))
    (below : StackReserved limit k (pending :: stack)) :
    (resume pending v stack m).focus.Reserved limit (resume pending v stack m).machine.active ∧
      StackReserved limit k (resume pending v stack m).stack := by
  obtain ⟨top, below⟩ := below
  cases pending with
  | argument call parameter parameters arguments =>
      -- No mark lies between the call and its argument, so the count is that of the caller.
      have same : m.active = k + openBodies stack := by
        rw [active]
        exact congrArg (k + ·) (Nat.zero_add _)
      refine ⟨?_, below⟩
      change m.active < limit ∧ _
      rw [same]
      exact top
  | test test step body f last =>
      simp only [resume]
      split
      · exact ⟨trivial, trivial, below⟩
      · exact ⟨trivial, below⟩
  | right combine right f => exact ⟨trivial, top, below⟩
  | combine combine left =>
      refine ⟨?_, below⟩
      change (Focus.give (combine left v)).Reserved limit _
      cases outcome : combine left v with
      | ok _ => exact trivial
      | error e => exact top outcome
  | body => exact ⟨trivial, trivial, below⟩
  | statements | start | step | branches | leave | assign => exact ⟨trivial, below⟩

end Reserved

namespace Config.Counted

variable {k : Nat} {c c' : Config}

/-- **A step keeps the count exact and within the limit.** -/
theorem step (counted : c.Counted limit k) (stepped : BlockScript.step limit c = some c') :
    c'.Counted limit k := by
  obtain ⟨marks, raised⟩ := marks_of_step stepped
  have exact : c'.machine.active = k + openBodies c'.stack := by
    have before := counted.active
    omega
  obtain ⟨active, bounded, here, below⟩ := counted
  obtain ⟨focus, stack, m⟩ := c
  cases focus with
  | node node f =>
      cases stepped
      obtain ⟨ready, reserved⟩ := reserved_enter node f bounded below
      have same : (enter limit node f stack m).machine.active = m.active :=
        (marks_enter node f stack m).2
      refine ⟨exact, ?_, ?_, reserved⟩
      · rw [same]
        exact bounded
      · rw [same]
        exact ready
  | all statements f last =>
      cases statements with
      | nil =>
          cases stepped
          exact ⟨exact, bounded, trivial, below⟩
      | cons node rest =>
          cases stepped
          exact ⟨exact, bounded, trivial, trivial, below⟩
  | rounds test step body f last =>
      cases stepped
      exact ⟨exact, bounded, trivial, trivial, below⟩
  | arguments call parameters arguments =>
      cases parameters with
      | nil =>
          cases stepped
          exact ⟨exact, here.1, trivial, trivial, below⟩
      | cons parameter parameters =>
          cases arguments with
          | nil =>
              cases stepped
              exact ⟨exact, bounded, here.2, below⟩
          | cons argument arguments =>
              cases stepped
              refine ⟨exact, bounded, trivial, ?_, below⟩
              change k + openBodies stack < limit ∧ _
              rw [← active]
              exact here
  | give outcome =>
      cases stack with
      | nil => cases stepped
      | cons pending stack =>
          have lower : c'.machine.active ≤ m.active := by
            rw [raised]
            exact Nat.sub_le _ _
          cases outcome with
          | ok v =>
              cases stepped
              obtain ⟨ready, reserved⟩ := reserved_resume v active below
              exact ⟨exact, Nat.le_trans lower bounded, ready, reserved⟩
          | error e =>
              cases stepped
              exact ⟨exact, Nat.le_trans lower bounded, here, below.2⟩

/-- The run lemma: the count stays exact, and the bodies that are being evaluated are those that
were entered and not left. -/
theorem run {start : Config} (counted : start.Counted limit k) {steps : Nat} {t : Tally}
    (run : tally limit start steps = some t) :
    t.state.Counted limit k ∧
      openBodies t.state.stack + t.left = openBodies start.stack + t.entered := by
  induction steps generalizing t with
  | zero =>
      cases run
      exact ⟨counted, rfl⟩
  | succ steps ih =>
      obtain ⟨before, run, stepped, entered, left⟩ := tally_succ_iff.mp run
      obtain ⟨counted, balance⟩ := ih run
      have marks := (marks_of_step stepped).1
      exact ⟨counted.step stepped, by omega⟩

/-- An overflow that is handed on is one of the limit by one call. -/
theorem overflow (counted : c.Counted limit k) {depth bound : Nat}
    (focus : c.focus = .give (.error (.stackOverflow depth bound))) :
    depth = limit + 1 ∧ bound = limit := by
  have fair := counted.focus
  rw [focus] at fair
  exact fair depth bound rfl

end Config.Counted

/-- **The number of active calls is exact.**  After any number of steps of an evaluation that begins
with `k` active calls, which the limit allows, the count is `k` and one for each body that has been
entered and not left, and it is within the limit.  After the evaluation, with a value or with any
error, it is `k` again.  An overflow, wherever it comes from, says that one call more than the
limit would be active. -/
theorem active_calls_exact {limit k : Nat} (allowed : k ≤ limit) (node : Node DefId) (f : FrameId)
    (s : Store) :
    (∀ c, Steps limit ⟨.node node f, [], ⟨s, k⟩⟩ c ↔ ∃ steps entered left,
      tally limit ⟨.node node f, [], ⟨s, k⟩⟩ steps = some ⟨entered, left, c⟩) ∧
    (∀ steps entered left c,
      tally limit ⟨.node node f, [], ⟨s, k⟩⟩ steps = some ⟨entered, left, c⟩ →
        left ≤ entered ∧ c.machine.active = k + (entered - left) ∧ c.machine.active ≤ limit ∧
          ∀ depth bound, c.focus = .give (.error (.stackOverflow depth bound)) →
            depth = limit + 1 ∧ bound = limit) ∧
    ∀ r m, Ends limit node f ⟨s, k⟩ r m →
      m.active = k ∧ ∀ depth bound, r = .error (.stackOverflow depth bound) →
        depth = limit + 1 ∧ bound = limit := by
  have start : (⟨.node node f, [], ⟨s, k⟩⟩ : Config).Counted limit k :=
    ⟨rfl, allowed, trivial, trivial⟩
  refine ⟨fun c => steps_iff_exists_tally, fun steps entered left c run => ?_, fun r m ends => ?_⟩
  · obtain ⟨counted, balance⟩ := start.run run
    replace balance : openBodies c.stack + left = 0 + entered := balance
    have active : c.machine.active = k + openBodies c.stack := counted.active
    exact ⟨by omega, by omega, counted.bounded, fun depth bound focus => counted.overflow focus⟩
  · obtain ⟨steps, entered, left, run⟩ := steps_iff_exists_tally.mp (ends_iff_steps.mp ends)
    obtain ⟨counted, -⟩ := start.run run
    exact ⟨counted.active,
      fun depth bound overflow => counted.overflow (congrArg Focus.give overflow)⟩

/-- A block that calls itself with a call of itself as the argument, and a call of it. -/
def nestedCalls : Node DefId :=
  .list [.assign "f" (.block ⟨0⟩ ["n"] [.call "this" [.call "this" [.var "n"]]]),
    .call "f" [.int 1]]

/-- With the limit 2 the call in the argument of the first body enters a second one, and the next
call finds no room.  The error leaves through the argument and through both bodies. -/
theorem active_calls_exact_nestedCalls :
    0 ≤ 2 ∧
    (∃ c, tally 2 ⟨.node nestedCalls ⟨0⟩, [], ⟨(Interpreter.fresh 2).store, 0⟩⟩ 20 =
      some ⟨2, 0, c⟩ ∧ c.machine.active = 0 + (2 - 0)) ∧
    ∃ m, Ends 2 nestedCalls ⟨0⟩ ⟨(Interpreter.fresh 2).store, 0⟩
      (.error (.stackOverflow (2 + 1) 2)) m ∧ m.active = 0 := by
  obtain ⟨-, during, after⟩ := active_calls_exact (Nat.zero_le 2) nestedCalls ⟨0⟩
    (Interpreter.fresh 2).store
  have inside : (tally 2 ⟨.node nestedCalls ⟨0⟩, [], ⟨(Interpreter.fresh 2).store, 0⟩⟩ 20).map
      (fun t => (t.entered, t.left)) = some (2, 0) := rfl
  obtain ⟨⟨entered, left, c⟩, run, counts⟩ := Option.map_eq_some_iff.mp inside
  cases counts
  have ends : ∃ m, Ends 2 nestedCalls ⟨0⟩ ⟨(Interpreter.fresh 2).store, 0⟩
      (.error (.stackOverflow 3 2)) m := ⟨_, 20, rfl⟩
  obtain ⟨m, ends⟩ := ends
  exact ⟨Nat.zero_le 2, ⟨c, run, (during _ _ _ _ run).2.1⟩, m, ends, (after _ _ ends).1⟩

end BlockScript
