import BlockScript.Proofs.Captures
import BlockScript.Proofs.Composition

/-!
# The contract of a call

A call of a name that holds no block, and a call for which there is no room, end at once and
change nothing.  Any other call evaluates its arguments from left to right, one for each
parameter, and then ends in one of three ways (`CallEnds`): an argument failed, the arguments ran
out before the parameters, or the body was evaluated in the frame of the call with one more call
active.  The other direction holds as well, so the three ways say exactly when a call ends and
how (`ends_call_iff`).

The block and the frame it starts from are settled before the first argument is evaluated, and an
argument beyond the last parameter is not looked at (`evaluate_surplus`).
-/

set_option autoImplicit false

namespace BlockScript

variable {limit : Nat} {caller inner : FrameId}

/-! ## Binding the arguments -/

/-- The evaluation and binding of arguments ends with a result, on some budget. -/
def BindEnds (limit : Nat) (short : EvalError) (caller inner : FrameId) (parameters : List String)
    (arguments : List (Node DefId)) (m : Machine) (r : Except EvalError Unit) (m' : Machine) :
    Prop :=
  ∃ budget, bindArguments limit budget short parameters arguments caller inner m = some (r, m')

section BindEnds

variable {short : EvalError} {parameter : String} {parameters : List String}
  {argument : Node DefId} {arguments : List (Node DefId)} {m m' : Machine}
  {r : Except EvalError Unit}

theorem bindEnds_nil :
    BindEnds limit short caller inner [] arguments m r m' ↔ r = .ok () ∧ m' = m := by
  constructor
  · rintro ⟨budget, gives⟩
    cases budget with
    | zero => cases gives
    | succ budget =>
        cases gives
        exact ⟨rfl, rfl⟩
  · rintro ⟨rfl, rfl⟩
    exact ⟨1, rfl⟩

theorem bindEnds_short :
    BindEnds limit short caller inner (parameter :: parameters) [] m r m' ↔
      r = .error short ∧ m' = m := by
  constructor
  · rintro ⟨budget, gives⟩
    cases budget with
    | zero => cases gives
    | succ budget =>
        cases gives
        exact ⟨rfl, rfl⟩
  · rintro ⟨rfl, rfl⟩
    exact ⟨1, rfl⟩

theorem bindEnds_cons :
    BindEnds limit short caller inner (parameter :: parameters) (argument :: arguments) m r m' ↔
      (∃ e, Ends limit argument caller m (.error e) m' ∧ r = .error e) ∨
        ∃ v m₁, Ends limit argument caller m (.ok v) m₁ ∧
          BindEnds limit short caller inner parameters arguments
            { m₁ with store := m₁.store.bind inner parameter v } r m' := by
  constructor
  · rintro ⟨budget, gives⟩
    cases budget with
    | zero => cases gives
    | succ budget =>
        rcases Run.bind_eq_some_iff.mp gives with ⟨e, stopped, rfl⟩ | ⟨v, m₁, went, further⟩
        · exact .inl ⟨e, ⟨budget, stopped⟩, rfl⟩
        · exact .inr ⟨v, m₁, ⟨budget, went⟩, budget, further⟩
  · rintro (⟨e, ⟨budget, stopped⟩, rfl⟩ | ⟨v, m₁, ⟨budget, went⟩, budget', further⟩)
    · exact ⟨budget + 1, Run.bind_error stopped⟩
    · refine ⟨max budget budget' + 1, Run.bind_eq_some_iff.mpr (.inr ⟨v, m₁, ?_, ?_⟩)⟩
      · exact evaluate_budget (Nat.le_max_left ..) argument caller went
      · exact bindArguments_budget (Nat.le_max_right ..) short parameters arguments caller inner
          further

/-- **All the arguments that are wanted have values.** -/
theorem bindEnds_ok_iff :
    BindEnds limit short caller inner parameters arguments m (.ok ()) m' ↔
      ∃ values, Passes limit caller inner parameters arguments m values m' := by
  constructor
  · rintro ⟨budget, gives⟩
    exact exists_passes gives
  · rintro ⟨values, passes⟩
    induction passes with
    | done arguments m => exact bindEnds_nil.mpr ⟨rfl, rfl⟩
    | next value _ ih => exact bindEnds_cons.mpr (.inr ⟨_, _, value, ih⟩)

/-- Why binding the arguments fails: one of those that are wanted does, with everything done that
the ones before it have done, or there are not enough of them. -/
inductive BindFails (limit : Nat) (short : EvalError) (caller inner : FrameId)
    (parameters : List String) (arguments : List (Node DefId)) (m : Machine) :
    EvalError → Machine → Prop where
  | stops {k : Nat} {argument : Node DefId} {values : List Value} {e : EvalError} {m₁ m' : Machine}
      (wanted : k < parameters.length) (here : arguments[k]? = some argument)
      (before : Passes limit caller inner (parameters.take k) (arguments.take k) m values m₁)
      (fails : Ends limit argument caller m₁ (.error e) m') :
      BindFails limit short caller inner parameters arguments m e m'
  | short {values : List Value} {m' : Machine} (few : arguments.length < parameters.length)
      (all : Passes limit caller inner (parameters.take arguments.length) arguments m values m') :
      BindFails limit short caller inner parameters arguments m short m'

/-- An argument that has a value, before others of which one fails. -/
theorem BindFails.next {v : Value} {m₁ : Machine} {e : EvalError}
    (value : Ends limit argument caller m (.ok v) m₁)
    (fails : BindFails limit short caller inner parameters arguments
      { m₁ with store := m₁.store.bind inner parameter v } e m') :
    BindFails limit short caller inner (parameter :: parameters) (argument :: arguments) m e m' := by
  cases fails with
  | stops wanted here before fails =>
      exact .stops (Nat.succ_lt_succ wanted) here (.next value before) fails
  | short few all => exact .short (Nat.succ_lt_succ few) (.next value all)

theorem bindEnds_error_iff {e : EvalError} :
    BindEnds limit short caller inner parameters arguments m (.error e) m' ↔
      BindFails limit short caller inner parameters arguments m e m' := by
  induction parameters generalizing arguments m with
  | nil =>
      rw [bindEnds_nil]
      constructor
      · rintro ⟨⟨⟩, -⟩
      · rintro (⟨⟨⟩⟩ | ⟨⟨⟩⟩)
  | cons parameter parameters ih =>
      cases arguments with
      | nil =>
          rw [bindEnds_short]
          constructor
          · rintro ⟨⟨⟩, rfl⟩
            exact .short (Nat.zero_lt_succ _) (.done [] _)
          · rintro (⟨_, ⟨⟩⟩ | ⟨_, ⟨⟩⟩)
            exact ⟨rfl, rfl⟩
      | cons argument arguments =>
          simp only [bindEnds_cons, ih]
          constructor
          · rintro (⟨_, fails, ⟨⟩⟩ | ⟨v, m₁, value, fails⟩)
            · exact .stops (Nat.zero_lt_succ _) rfl (.done _ m) fails
            · exact fails.next value
          · intro fails
            cases fails with
            | @stops k _ _ _ _ _ wanted here before fails =>
                cases k with
                | zero =>
                    cases here
                    cases before
                    exact .inl ⟨e, fails, rfl⟩
                | succ k =>
                    cases before with
                    | next value before =>
                        exact .inr ⟨_, _, value,
                          .stops (Nat.lt_of_succ_lt_succ wanted) here before fails⟩
            | short few all =>
                cases all with
                | next value all => exact .inr ⟨_, _, value, .short (Nat.lt_of_succ_lt_succ few) all⟩

end BindEnds

theorem Passes.active {parameters : List String} {arguments : List (Node DefId)} {m m' : Machine}
    {values : List Value} (passes : Passes limit caller inner parameters arguments m values m') :
    m'.active = m.active := by
  induction passes with
  | done => rfl
  | next value _ ih =>
      obtain ⟨_, gives⟩ := value
      have kept := active_of_evaluate gives
      exact ih.trans kept

/-- One value for each parameter, and an argument for each value. -/
theorem Passes.length {parameters : List String} {arguments : List (Node DefId)} {m m' : Machine}
    {values : List Value} (passes : Passes limit caller inner parameters arguments m values m') :
    values.length = parameters.length ∧ parameters.length ≤ arguments.length := by
  induction passes with
  | done => exact ⟨rfl, Nat.zero_le _⟩
  | next _ _ ih => exact ⟨congrArg Nat.succ ih.1, Nat.succ_le_succ ih.2⟩

/-! ## Calls -/

/-- How a call of the block `d` ends, once its frame `inner` has been made in the machine. -/
inductive CallEnds (limit : Nat) (name : String) (arguments : List (Node DefId))
    (caller inner : FrameId) (d : Definition) (m : Machine) :
    Except EvalError Value → Machine → Prop where
  /-- The arguments cannot be bound, and the body is not entered. -/
  | fails {e : EvalError} {m' : Machine}
      (reason : BindFails limit (.arity name d.parameters.length arguments.length) caller inner
        d.parameters arguments m e m') :
      CallEnds limit name arguments caller inner d m (.error e) m'
  /-- The parameters are bound and the body is evaluated with one more call active. -/
  | enters {values : List Value} {m₁ : Machine} {r : Except EvalError Value} {s : Store}
      (passes : Passes limit caller inner d.parameters arguments m values m₁)
      (body : AllEnd limit d.body inner .nil ⟨m₁.store, m.active + 1⟩ r ⟨s, m.active + 1⟩) :
      CallEnds limit name arguments caller inner d m r ⟨s, m.active⟩

section Calls

variable {name : String} {arguments arguments' : List (Node DefId)} {f own : FrameId}
  {d : Definition} {m m' : Machine} {r : Except EvalError Value}

/-- What a call of a known block comes to: its arguments are bound and its body is evaluated. -/
theorem exists_calls_iff :
    (∃ budget, calls limit budget name arguments caller d inner m = some (r, m')) ↔
      (∃ e, BindEnds limit (d.short name arguments) caller inner d.parameters arguments m
        (.error e) m' ∧ r = .error e) ∨
      ∃ m₁ m₂, BindEnds limit (d.short name arguments) caller inner d.parameters arguments m
          (.ok ()) m₁ ∧
        AllEnd limit d.body inner .nil { m₁ with active := m₁.active + 1 } r m₂ ∧
        m' = { m₂ with active := m₂.active - 1 } := by
  constructor
  · rintro ⟨budget, gives⟩
    rcases Run.bind_eq_some_iff.mp gives with ⟨e, stopped, rfl⟩ | ⟨_, m₁, went, further⟩
    · exact .inl ⟨e, ⟨budget, stopped⟩, rfl⟩
    · obtain ⟨m₂, inside, rfl⟩ := Run.calling_eq_some_iff.mp further
      exact .inr ⟨m₁, m₂, ⟨budget, went⟩, ⟨budget, inside⟩, rfl⟩
  · rintro (⟨e, ⟨budget, stopped⟩, rfl⟩ | ⟨m₁, m₂, ⟨budget, went⟩, ⟨budget', inside⟩, rfl⟩)
    · exact ⟨budget, Run.bind_error stopped⟩
    · refine ⟨max budget budget', Run.bind_eq_some_iff.mpr (.inr ⟨(), m₁, ?_, ?_⟩)⟩
      · exact bindArguments_budget (Nat.le_max_left ..) _ d.parameters arguments caller inner went
      · exact Run.calling_eq_some_iff.mpr
          ⟨m₂, evaluateAll_budget (Nat.le_max_right ..) d.body inner .nil inside, rfl⟩

/-- **The three ways in which a call of a known block ends are all there are.** -/
theorem exists_calls_iff_callEnds :
    (∃ budget, calls limit budget name arguments caller d inner m = some (r, m')) ↔
      CallEnds limit name arguments caller inner d m r m' := by
  rw [exists_calls_iff]
  simp only [bindEnds_error_iff, bindEnds_ok_iff]
  constructor
  · rintro (⟨e, reason, rfl⟩ | ⟨m₁, ⟨s, count⟩, ⟨values, passes⟩, body, rfl⟩)
    · exact .fails reason
    · obtain rfl : count = m₁.active + 1 := active_of_allEnd body
      rw [passes.active] at body ⊢
      exact .enters passes body
  · intro ends
    cases ends with
    | fails reason => exact .inl ⟨_, reason, rfl⟩
    | @enters values m₁ _ s passes body =>
        refine .inr ⟨m₁, ⟨s, m.active + 1⟩, ⟨values, passes⟩, ?_, rfl⟩
        rw [passes.active]
        exact body

/-- A call that begins ends exactly as its arguments and its body let it. -/
theorem ends_call_iff (callee : m.store.lookup f name = .block d own) (room : m.active < limit) :
    Ends limit (.call name arguments) f m r m' ↔
      CallEnds limit name arguments f m.store.next d
        { m with store := (m.store.snapshot (m.store.callFrame d own)).2 } r m' := by
  rw [← exists_calls_iff_callEnds]
  constructor
  · rintro ⟨budget, gives⟩
    cases budget with
    | zero => cases gives
    | succ budget => exact ⟨budget, (evaluate_call_block callee room).symm.trans gives⟩
  · rintro ⟨budget, gives⟩
    exact ⟨budget + 1, (evaluate_call_block callee room).trans gives⟩

/-- An evaluation whose budget does not matter ends as it says. -/
theorem ends_iff_of_evaluate {node : Node DefId} {result : Except EvalError Value × Machine}
    (gives : ∀ budget, evaluate limit (budget + 1) node f m = some result) :
    Ends limit node f m r m' ↔ (r, m') = result := by
  constructor
  · rintro ⟨budget, ended⟩
    cases budget with
    | zero => cases ended
    | succ budget => exact Option.some.inj (ended.symm.trans (gives budget))
  · rintro rfl
    exact ⟨1, gives 0⟩

/-! ## Arguments beyond the parameters -/

/-- Binding looks at one argument for each parameter. -/
theorem bindArguments_surplus {short short' : EvalError} {parameters : List String} {budget : Nat}
    (enough : parameters.length ≤ arguments.length)
    (enough' : parameters.length ≤ arguments'.length)
    (same : arguments'.take parameters.length = arguments.take parameters.length) :
    bindArguments limit budget short' parameters arguments' caller inner =
      bindArguments limit budget short parameters arguments caller inner := by
  induction parameters generalizing budget arguments arguments' with
  | nil => cases budget <;> rfl
  | cons parameter parameters ih =>
      cases budget with
      | zero => rfl
      | succ budget =>
          obtain ⟨argument, arguments, rfl⟩ := List.exists_cons_of_length_pos
            (Nat.lt_of_lt_of_le (Nat.zero_lt_succ _) enough)
          obtain ⟨argument', arguments', rfl⟩ := List.exists_cons_of_length_pos
            (Nat.lt_of_lt_of_le (Nat.zero_lt_succ _) enough')
          obtain ⟨rfl, rest⟩ := List.cons.inj same
          simp only [bindArguments,
            ih (Nat.le_of_succ_le_succ enough) (Nat.le_of_succ_le_succ enough') rest]

/-- **Arguments beyond the last parameter make no difference.** -/
theorem evaluate_surplus (callee : m.store.lookup f name = .block d own)
    (enough : d.parameters.length ≤ arguments.length)
    (enough' : d.parameters.length ≤ arguments'.length)
    (same : arguments'.take d.parameters.length = arguments.take d.parameters.length)
    (budget : Nat) :
    evaluate limit budget (.call name arguments') f m =
      evaluate limit budget (.call name arguments) f m := by
  cases budget with
  | zero => rfl
  | succ budget =>
      by_cases full : limit ≤ m.active
      · rw [evaluate_call_full callee full, evaluate_call_full callee full]
      · have room := Nat.not_le.mp full
        rw [evaluate_call_block callee room, evaluate_call_block callee room, calls, calls,
          bindArguments_surplus enough enough' same]

end Calls

/-- **The contract of a call.**  In every state of a session in which `name(arguments)` is about
to be evaluated in a frame `f`, with the store as it is then:

* If `name` is not a block, the next step gives the signal for that and changes nothing.
* If it is a block and the limit of active calls is reached, the next step gives the overflow and
  changes nothing.
* Otherwise the call ends exactly in the ways that `CallEnds` lists.  The arguments are evaluated
  in `f`, in order, one for each parameter; the first one that fails ends the call, with what has
  been done until then; if there are fewer arguments than parameters the call ends with the error
  that says so; and else the body of the block that was found at the beginning is evaluated with
  one more call active in a new frame.  When the body is entered, that frame holds under each name
  the value of the last parameter of that name, and under any other name what the frame holds that
  the literal had captured last when the call began.  Arguments beyond the last parameter make no
  difference. -/
theorem call_contract {i : Interpreter} {programs : List (Node DefId)} {name : String}
    {arguments : List (Node DefId)} {f : FrameId} {stack : List Pending} {m : Machine}
    (reachable :
      (Session.running i programs ⟨.node (.call name arguments) f, stack, m⟩).Reachable) :
    ((∀ d own, m.store.lookup f name ≠ .block d own) →
      step i.limit ⟨.node (.call name arguments) f, stack, m⟩ =
          some ⟨.give (.ok notABlock), stack, m⟩ ∧
        ∀ r m', Ends i.limit (.call name arguments) f m r m' ↔ (r, m') = (.ok notABlock, m)) ∧
    ∀ d own, m.store.lookup f name = .block d own →
      (i.limit ≤ m.active →
        step i.limit ⟨.node (.call name arguments) f, stack, m⟩ =
            some ⟨.give (.error (.stackOverflow (m.active + 1) i.limit)), stack, m⟩ ∧
          ∀ r m', Ends i.limit (.call name arguments) f m r m' ↔
            (r, m') = (.error (.stackOverflow (m.active + 1) i.limit), m)) ∧
      (m.active < i.limit →
        ∃ captured, m.store.captured? d.id = some captured ∧
          (∀ r m', Ends i.limit (.call name arguments) f m r m' ↔
            CallEnds i.limit name arguments f m.store.next d
              { m with store := (m.store.snapshot captured).2 } r m') ∧
          (∀ values m₁, Passes i.limit f m.store.next d.parameters arguments
              { m with store := (m.store.snapshot captured).2 } values m₁ →
            (values.length = d.parameters.length ∧
              d.parameters.length ≤ arguments.length) ∧
            BodyEntry m.store d captured m.store.next values m₁.store) ∧
          ∀ arguments', d.parameters.length ≤ arguments.length →
            d.parameters.length ≤ arguments'.length →
            arguments'.take d.parameters.length = arguments.take d.parameters.length →
            ∀ budget, evaluate i.limit budget (.call name arguments') f m =
              evaluate i.limit budget (.call name arguments) f m) := by
  refine ⟨fun callee => ⟨?_, fun r m' => ?_⟩, fun d own callee => ⟨fun full => ⟨?_, fun r m' => ?_⟩,
    fun room => ?_⟩⟩
  · rw [step, enter_call_other callee]
  · exact ends_iff_of_evaluate fun budget => evaluate_call_other callee
  · rw [step, enter_call_full callee full]
  · exact ends_iff_of_evaluate fun budget => evaluate_call_full callee full
  · obtain ⟨forest, has, captured, latest, self⟩ := reachable.callee callee
    have start : m.store.callFrame d own = captured := by
      rw [Store.callFrame, latest, Option.getD_some]
    refine ⟨captured, latest, fun r m' => ?_, fun values m₁ passes => ?_,
      fun arguments' enough enough' same budget => ?_⟩
    · rw [ends_call_iff callee room, start]
    · exact ⟨passes.length, passes.bodyEntry forest has self⟩
    · exact evaluate_surplus callee enough enough' same budget

/-- The block of the source `c=1;f={|x,x|x+c};f(c=5;2;f)`, which has one name for both of its
parameters. -/
def twice : Definition := ⟨⟨0⟩, ["x", "x"], [.arith .add (.var "x") (.var "c")]⟩

/-- The arguments of the call in that source: the first one assigns to a name that the block has
captured, and the last one is surplus. -/
def threeArguments : List (Node DefId) := [.assign "c" (.int 5), .int 2, .var "f"]

/-- Whether a tree is that of the source. -/
def isTwiceCall : Node Unit → Bool
  | .list [.assign "c" (.int 1),
      .assign "f" (.block () ["x", "x"] [.arith .add (.var "x") (.var "c")]),
      .call "f" [.assign "c" (.int 5), .int 2, .var "f"]] => true
  | _ => false

/-- The machine when the block has been assigned. -/
def twiceMachine : Machine :=
  ⟨(((Interpreter.fresh 1).store.assign ⟨0⟩ "c" (.int 1)).capture twice ⟨0⟩).2.assign ⟨0⟩ "f"
    (.block twice ⟨1⟩), 0⟩

/-- A session that has come to the call. -/
def twiceCall : Session :=
  .running { Interpreter.fresh 1 with nextDefinition := 1 }
    [.list [.assign "c" (.int 1), .assign "f" (.block ⟨0⟩ twice.parameters twice.body),
      .call "f" threeArguments]]
    ⟨.node (.call "f" threeArguments) ⟨0⟩, [.statements [] ⟨0⟩], twiceMachine⟩

/-- The first argument changes `c` of the caller before the body is entered, the body sees the
value that was captured, and the second parameter is the one that counts. -/
theorem call_contract_twice : twiceCall.Reachable ∧
    twiceMachine.store.lookup ⟨0⟩ "f" = .block twice ⟨1⟩ ∧ twiceMachine.active < 1 ∧
    (∃ m, CallEnds 1 "f" threeArguments ⟨0⟩ ⟨2⟩ twice
      { twiceMachine with store := (twiceMachine.store.snapshot ⟨1⟩).2 } (.ok (.int 3)) m) ∧
    ∃ (m : Machine) (values : List Value),
      BodyEntry twiceMachine.store twice ⟨1⟩ ⟨2⟩ values m.store ∧
      m.store.own? ⟨0⟩ "c" = some (.int 5) ∧ m.store.own? ⟨2⟩ "c" = some (.int 1) ∧
      m.store.own? ⟨2⟩ "x" = some (.int 2) := by
  have read : (parse "c=1;f={|x,x|x+c};f(c=5;2;f)").toOption.map isTwiceCall = some true := by
    decide +kernel
  obtain ⟨tree, parsed, shape⟩ := Option.map_eq_some_iff.mp read
  have reachable : twiceCall.Reachable := by
    unfold isTwiceCall at shape
    split at shape
    · cases outcome : parse "c=1;f={|x,x|x+c};f(c=5;2;f)" with
      | error e => simp [outcome, Except.toOption] at parsed
      | ok tree' =>
          simp only [outcome, Except.toOption, Option.some.injEq] at parsed
          subst parsed
          refine ⟨1, .head (.read outcome) (.head (.start (List.mem_cons_self ..)) ?_)⟩
          iterate 12 refine .head (.step rfl) ?_
          exact .refl
    · cases shape
  have callee : twiceMachine.store.lookup ⟨0⟩ "f" = .block twice ⟨1⟩ := rfl
  have room : twiceMachine.active < 1 := by decide
  obtain ⟨captured, latest, ends, enters, _⟩ := ((call_contract reachable).2 _ _ callee).2 room
  obtain rfl : (⟨1⟩ : FrameId) = captured := Option.some.inj latest
  have ended : ∃ m, Ends 1 (.call "f" threeArguments) ⟨0⟩ twiceMachine (.ok (.int 3)) m :=
    ⟨_, 9, rfl⟩
  obtain ⟨m, ended⟩ := ended
  have passes : ∃ m values, Passes 1 ⟨0⟩ ⟨2⟩ twice.parameters threeArguments
      { twiceMachine with store := (twiceMachine.store.snapshot ⟨1⟩).2 } values m ∧
      m.store.own? ⟨0⟩ "c" = some (.int 5) ∧ m.store.own? ⟨2⟩ "c" = some (.int 1) ∧
      m.store.own? ⟨2⟩ "x" = some (.int 2) :=
    ⟨_, _, .next ⟨2, rfl⟩ (.next ⟨1, rfl⟩ (.done _ _)), rfl, rfl, rfl⟩
  obtain ⟨m₁, values, passes, bound⟩ := passes
  exact ⟨reachable, callee, room, ⟨m, (ends _ _).mp ended⟩, m₁, values, (enters _ _ passes).2,
    bound⟩

end BlockScript
