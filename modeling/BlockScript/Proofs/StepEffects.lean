import BlockScript.Proofs.Provenance

/-!
# What a step does to the store and to the stack

A step changes the store in one of five ways, and the configuration tells which: the focus, if a
frame is added, and the top of the stack, if a name is bound (`effect_of_step`).  So the bindings
of a frame that exists change only where a parameter is bound in the frame of a call or where an
assignment waits for its value (`Effect.own?_eq`).

A step changes the stack at its top.  The work below waits until all above it is done, and the
steps until then are those of the same evaluation with nothing below (`stepsAbove_iff`).  The
mark that a body leaves on the stack is put there when the body is entered, so a state with such a
mark lies inside a call (`Steps.entered`).
-/

set_option autoImplicit false

namespace BlockScript

variable {limit : Nat} {c c' : Config}

/-! ## The store -/

/-- What a step from the configuration can make of the store. -/
inductive Effect (c : Config) : Store → Prop where
  | none : Effect c c.store
  | loop {start test step : Node DefId} {body : List (Node DefId)} {f : FrameId}
      (focus : c.focus = .node (.loop start test step body) f) :
      Effect c (c.store.newFrame (some f)).2
  | capture {d : Definition} {f : FrameId} (focus : c.focus = .node d.literal f) :
      Effect c (c.store.capture d f).2
  | call {name : String} {arguments : List (Node DefId)} {f own : FrameId} {d : Definition}
      (focus : c.focus = .node (.call name arguments) f)
      (callee : c.store.lookup f name = .block d own) :
      Effect c (c.store.snapshot (c.store.callFrame d own)).2
  | bind {call : Call} {parameter : String} {parameters : List String}
      {arguments : List (Node DefId)} {stack : List Pending} {v : Value}
      (focus : c.focus = .give (.ok v))
      (top : c.stack = .argument call parameter parameters arguments :: stack) :
      Effect c (c.store.bind call.inner parameter v)
  | assign {name : String} {f : FrameId} {stack : List Pending} {v : Value}
      (focus : c.focus = .give (.ok v)) (top : c.stack = .assign name f :: stack) :
      Effect c (c.store.assign f name v)

/-- **Every step has one of these effects.** -/
theorem effect_of_step (stepped : step limit c = some c') : Effect c c'.store := by
  obtain ⟨focus, stack, m⟩ := c
  cases focus with
  | node node f =>
      cases stepped
      cases node with
      | loop => exact .loop rfl
      | block id parameters body =>
          exact Effect.capture (c := ⟨_, _, _⟩) (d := ⟨id, parameters, body⟩) rfl
      | call name arguments =>
          cases callee : m.store.lookup f name with
          | block d own =>
              by_cases full : limit ≤ m.active
              · rw [enter_call_full callee full]
                exact .none
              · rw [enter_call_block callee (Nat.not_le.mp full)]
                exact Effect.call (c := ⟨_, _, m⟩) rfl callee
          | int | float | bool | nil | signal =>
              rw [enter_call_other (by simp [callee])]
              exact .none
      | list | branch | branchElse | assign | var | logic | compare | arith | int | float | bool =>
          exact .none
  | all statements f last => cases statements <;> cases stepped <;> exact .none
  | rounds test step body f last =>
      cases stepped
      exact .none
  | arguments call parameters arguments =>
      cases parameters with
      | nil =>
          cases stepped
          exact .none
      | cons parameter parameters => cases arguments <;> cases stepped <;> exact .none
  | give outcome =>
      cases stack with
      | nil => cases stepped
      | cons pending stack =>
          cases outcome with
          | error e =>
              cases stepped
              cases pending <;> exact .none
          | ok v =>
              cases stepped
              cases pending with
              | argument => exact .bind rfl rfl
              | assign => exact .assign rfl rfl
              | test test step body f last =>
                  simp only [resume]
                  split <;> exact .none
              | statements | start | body | step | branches | leave | right | combine => exact .none

namespace Effect

variable {s : Store}

/-- No frame is lost. -/
theorem has (effect : Effect c s) {f : FrameId} (old : c.store.Has f) : s.Has f := by
  cases effect with
  | none => exact old
  | loop => exact Store.has_add.mpr (.inl old)
  | capture => exact Store.has_capture.mpr (.inl old)
  | call => exact Store.has_add.mpr (.inl old)
  | bind => exact Store.has_bind.mpr old
  | @assign name g _ v =>
      obtain ⟨target, assigned⟩ := c.store.assign_eq_bind g name
      rw [assigned]
      exact Store.has_bind.mpr old

/-- A binding of a frame that exists is changed by a parameter of a call or by an assignment to the
name. -/
theorem own?_eq (effect : Effect c s) {f : FrameId} (old : c.store.Has f) {name : String}
    (free : ∀ call parameter parameters arguments stack,
      c.stack = .argument call parameter parameters arguments :: stack → call.inner ≠ f)
    (unassigned : ∀ g stack v, c.focus = .give (.ok v) → c.stack ≠ .assign name g :: stack) :
    s.own? f name = c.store.own? f name := by
  cases effect with
  | none => rfl
  | loop => exact (Store.own?_add _ _ _ _).trans (if_neg (Store.ne_next old))
  | capture => exact (Store.own?_capture _ _ _ _ _).trans (if_neg (Store.ne_next old))
  | call => exact (Store.own?_add _ _ _ _).trans (if_neg (Store.ne_next old))
  | bind _ top =>
      rw [Store.own?, Store.frame_bind_of_ne (free _ _ _ _ _ top).symm]
      rfl
  | @assign other g _ v focus top =>
      obtain ⟨target, assigned⟩ := c.store.assign_eq_bind g other
      rw [assigned]
      have apart : name ≠ other := by
        rintro rfl
        exact unassigned g _ v focus top
      by_cases has : c.store.Has target
      · rw [Store.own?_bind has, if_neg fun both => apart both.2]
      · rw [Store.bind_of_not_has has]

end Effect

/-! ## Writes to come -/

section Writes

variable (named : String → Prop) (apart : FrameId → Prop)

/-- The call that is being prepared has a frame of the given kind. -/
def Focus.Writes : Focus → Prop
  | .arguments call _ _ => apart call.inner
  | _ => True

/-- The call that is being prepared has a frame of the given kind, and the name that is to be
assigned is of the given kind. -/
def Pending.Writes : Pending → Prop
  | .argument call _ _ _ => apart call.inner
  | .assign name _ => named name
  | _ => True

/-- Everything that is going to be bound is of the given kinds. -/
structure Config.Writes (c : Config) : Prop where
  focus : c.focus.Writes apart
  stack : ∀ pending ∈ c.stack, pending.Writes named apart

end Writes

namespace Config.Writes

variable {named : String → Prop} {apart : FrameId → Prop}

theorem mono {apart' : FrameId → Prop} (writes : c.Writes named apart)
    (weaker : ∀ f, apart f → apart' f) : c.Writes named apart' := by
  obtain ⟨focus, stack, m⟩ := c
  refine ⟨?_, fun pending member => ?_⟩
  · have here := writes.focus
    cases focus with
    | arguments => exact weaker _ here
    | node | all | rounds | give => exact trivial
  · have here := writes.stack pending member
    cases pending with
    | argument => exact weaker _ here
    | assign => exact here
    | statements | start | test | body | step | branches | leave | right | combine => exact trivial

theorem enter {node : Node DefId} {f : FrameId} {stack : List Pending} {m : Machine}
    (below : ∀ pending ∈ stack, pending.Writes named apart) (next : apart m.store.next)
    (entered : ∀ name value, node = .assign name value → named name) :
    (BlockScript.enter limit node f stack m).Writes named apart := by
  cases node with
  | loop | branch | branchElse | logic | compare | arith =>
      exact ⟨trivial, List.forall_mem_cons.mpr ⟨trivial, below⟩⟩
  | assign name value =>
      exact ⟨trivial, List.forall_mem_cons.mpr ⟨entered name value rfl, below⟩⟩
  | call name arguments =>
      cases callee : m.store.lookup f name with
      | block d own =>
          by_cases full : limit ≤ m.active
          · rw [enter_call_full callee full]
            exact ⟨trivial, below⟩
          · rw [enter_call_block callee (Nat.not_le.mp full)]
            exact ⟨next, below⟩
      | int | float | bool | nil | signal =>
          rw [enter_call_other (by simp [callee])]
          exact ⟨trivial, below⟩
  | list | block | var | int | float | bool => exact ⟨trivial, below⟩

theorem resume {pending : Pending} {v : Value} {stack : List Pending} {m : Machine}
    (writes : ∀ work ∈ pending :: stack, work.Writes named apart) :
    (BlockScript.resume pending v stack m).Writes named apart := by
  obtain ⟨top, below⟩ := List.forall_mem_cons.mp writes
  cases pending with
  | argument => exact ⟨top, below⟩
  | test test step body f last =>
      simp only [BlockScript.resume]
      split
      · exact ⟨trivial, List.forall_mem_cons.mpr ⟨trivial, below⟩⟩
      · exact ⟨trivial, below⟩
  | body | right => exact ⟨trivial, List.forall_mem_cons.mpr ⟨trivial, below⟩⟩
  | statements | start | step | branches | leave | assign | combine => exact ⟨trivial, below⟩

/-- **What is going to be bound stays of the kinds**, if the next frame and the assignment that is
entered are. -/
theorem step (writes : c.Writes named apart) (next : apart c.store.next)
    (entered : ∀ name value f, c.focus = .node (.assign name value) f → named name)
    (stepped : BlockScript.step limit c = some c') : c'.Writes named apart := by
  obtain ⟨focus, stack, m⟩ := c
  obtain ⟨here, below⟩ := writes
  cases focus with
  | node node f =>
      cases stepped
      exact enter below next fun name value same =>
        entered name value f (congrArg (Focus.node · f) same)
  | all statements f last =>
      cases statements with
      | nil =>
          cases stepped
          exact ⟨trivial, below⟩
      | cons node rest =>
          cases stepped
          exact ⟨trivial, List.forall_mem_cons.mpr ⟨trivial, below⟩⟩
  | rounds test step body f last =>
      cases stepped
      exact ⟨trivial, List.forall_mem_cons.mpr ⟨trivial, below⟩⟩
  | arguments call parameters arguments =>
      cases parameters with
      | nil =>
          cases stepped
          exact ⟨trivial, List.forall_mem_cons.mpr ⟨trivial, below⟩⟩
      | cons parameter parameters =>
          cases arguments with
          | nil =>
              cases stepped
              exact ⟨trivial, below⟩
          | cons argument arguments =>
              cases stepped
              exact ⟨trivial, List.forall_mem_cons.mpr ⟨here, below⟩⟩
  | give outcome =>
      cases stack with
      | nil => cases stepped
      | cons pending stack =>
          cases outcome with
          | ok v =>
              cases stepped
              exact resume below
          | error e =>
              cases stepped
              exact ⟨trivial, (List.forall_mem_cons.mp below).2⟩

end Config.Writes

/-- No frame is lost on the way. -/
theorem Steps.has (run : Steps limit c c') {f : FrameId} (old : c.store.Has f) :
    c'.store.Has f := by
  induction run with
  | refl => exact old
  | tail _ stepped ih => exact (effect_of_step stepped).has ih

/-- **An evaluation binds parameters only in frames that it has made itself**, and assigns only to
the names that its assignments have. -/
theorem Steps.writes {named : String → Prop} {n : Node DefId} {f : FrameId} {m : Machine}
    (run : Steps limit ⟨.node n f, [], m⟩ c)
    (entered : ∀ d name value g, Steps limit ⟨.node n f, [], m⟩ d →
      d.focus = .node (.assign name value) g → named name) :
    c.Writes named fun g => ¬ m.store.Has g := by
  induction run with
  | refl => exact ⟨trivial, fun _ pending => by cases pending⟩
  | @tail d _ before stepped ih =>
      have fresh : ¬ m.store.Has d.store.next := fun old =>
        Store.ne_next (Steps.has before (f := d.store.next) old) rfl
      exact ih.step fresh (fun name value g => entered d name value g before) stepped

/-! ## The stack -/

/-- What a step with the given focus can make of the stack.  Only an outcome takes work off it. -/
inductive StackChange (focus : Focus) : List Pending → List Pending → Prop where
  | same (stack : List Pending) (busy : ∀ outcome, focus ≠ .give outcome) :
      StackChange focus stack stack
  /-- Work is put on the stack, and the mark of a body only where the body is entered. -/
  | push {pending : Pending} (stack : List Pending) (busy : ∀ outcome, focus ≠ .give outcome)
      (mark : pending = .leave → ∃ call rest, focus = .arguments call [] rest) :
      StackChange focus stack (pending :: stack)
  | pop (pending : Pending) (stack : List Pending) : StackChange focus (pending :: stack) stack
  | replace {pending next : Pending} (stack : List Pending) (other : next ≠ pending)
      (unmarked : next ≠ .leave) : StackChange focus (pending :: stack) (next :: stack)

/-- **Every step changes the top of the stack only.** -/
theorem stackChange_of_step (stepped : step limit c = some c') :
    StackChange c.focus c.stack c'.stack := by
  obtain ⟨focus, stack, m⟩ := c
  cases focus with
  | node node f =>
      cases stepped
      cases node with
      | loop | branch | branchElse | assign | logic | compare | arith =>
          exact .push stack (by simp) (by simp)
      | call name arguments =>
          cases callee : m.store.lookup f name with
          | block d own =>
              by_cases full : limit ≤ m.active
              · rw [enter_call_full callee full]
                exact .same stack (by simp)
              · rw [enter_call_block callee (Nat.not_le.mp full)]
                exact .same stack (by simp)
          | int | float | bool | nil | signal =>
              rw [enter_call_other (by simp [callee])]
              exact .same stack (by simp)
      | list | block | var | int | float | bool => exact .same stack (by simp)
  | all statements f last =>
      cases statements with
      | nil =>
          cases stepped
          exact .same stack (by simp)
      | cons node rest =>
          cases stepped
          exact .push stack (by simp) (by simp)
  | rounds test step body f last =>
      cases stepped
      exact .push stack (by simp) (by simp)
  | arguments call parameters arguments =>
      cases parameters with
      | nil =>
          cases stepped
          exact .push stack (by simp) fun _ => ⟨call, arguments, rfl⟩
      | cons parameter parameters =>
          cases arguments with
          | nil =>
              cases stepped
              exact .same stack (by simp)
          | cons argument arguments =>
              cases stepped
              exact .push stack (by simp) (by simp)
  | give outcome =>
      cases stack with
      | nil => cases stepped
      | cons pending stack =>
          cases outcome with
          | error e =>
              cases stepped
              exact .pop pending stack
          | ok v =>
              cases stepped
              cases pending with
              | test test step body f last =>
                  simp only [resume]
                  split
                  · exact .replace stack (by simp) (by simp)
                  · exact .pop _ stack
              | body | right => exact .replace stack (by simp) (by simp)
              | statements | start | step | branches | argument | leave | assign | combine =>
                  exact .pop _ stack

/-- An outcome is handed to the top of the stack, which does not stay what it is. -/
theorem not_suffix_of_give {outcome : Except EvalError Value} {stack : List Pending} {m : Machine}
    (stepped : step limit ⟨.give outcome, stack, m⟩ = some c') : ¬ stack <:+ c'.stack := by
  intro suffix
  have change := stackChange_of_step stepped
  generalize c'.stack = stack' at change suffix
  cases change with
  | same _ busy => exact busy outcome rfl
  | push _ busy => exact busy outcome rfl
  | pop pending stack => exact Nat.not_succ_le_self _ suffix.length_le
  | replace stack other =>
      rcases List.suffix_cons_iff.mp suffix with same | suffix
      · exact other (List.cons.inj same).1.symm
      · exact Nat.not_succ_le_self _ suffix.length_le

/-! ## The work below -/

/-- A configuration with more work below what is pending. -/
def Config.above (base : List Pending) (c : Config) : Config :=
  { c with stack := c.stack ++ base }

theorem enter_above (node : Node DefId) (f : FrameId) (stack base : List Pending) (m : Machine) :
    enter limit node f (stack ++ base) m = (enter limit node f stack m).above base := by
  cases node with
  | call name arguments =>
      cases callee : m.store.lookup f name with
      | block d own =>
          by_cases full : limit ≤ m.active
          · rw [enter_call_full callee full, enter_call_full callee full]
            rfl
          · rw [enter_call_block callee (Nat.not_le.mp full),
              enter_call_block callee (Nat.not_le.mp full)]
            rfl
      | int | float | bool | nil | signal =>
          rw [enter_call_other (by simp [callee]), enter_call_other (by simp [callee])]
          rfl
  | list | loop | branch | branchElse | block | assign | var | logic | compare | arith | int |
      float | bool => rfl

theorem resume_above (pending : Pending) (v : Value) (stack base : List Pending) (m : Machine) :
    resume pending v (stack ++ base) m = (resume pending v stack m).above base := by
  cases pending with
  | test test step body f last =>
      simp only [resume]
      split <;> rfl
  | statements | start | body | step | branches | argument | leave | assign | right | combine => rfl

/-- A step does not look at the work below. -/
theorem step_above (stepped : step limit c = some c') (base : List Pending) :
    step limit (c.above base) = some (c'.above base) := by
  obtain ⟨focus, stack, m⟩ := c
  cases focus with
  | node node f =>
      cases stepped
      exact congrArg some (enter_above node f stack base m)
  | all statements f last => cases statements <;> cases stepped <;> rfl
  | rounds test step body f last =>
      cases stepped
      rfl
  | arguments call parameters arguments =>
      cases parameters with
      | nil =>
          cases stepped
          rfl
      | cons parameter parameters => cases arguments <;> cases stepped <;> rfl
  | give outcome =>
      cases stack with
      | nil => cases stepped
      | cons pending stack =>
          cases outcome with
          | ok v =>
              cases stepped
              exact congrArg some (resume_above pending v stack base m)
          | error e =>
              cases stepped
              rfl

/-- Only an outcome that nothing waits for has no next step. -/
theorem exists_step_or_give (limit : Nat) (c : Config) :
    (∃ c', step limit c = some c') ∨ ∃ outcome m, c = ⟨.give outcome, [], m⟩ := by
  obtain ⟨focus, stack, m⟩ := c
  cases focus with
  | node | rounds => exact .inl ⟨_, rfl⟩
  | all statements f last => cases statements <;> exact .inl ⟨_, rfl⟩
  | arguments call parameters arguments =>
      cases parameters with
      | nil => exact .inl ⟨_, rfl⟩
      | cons parameter parameters => cases arguments <;> exact .inl ⟨_, rfl⟩
  | give outcome =>
      cases stack with
      | nil => exact .inr ⟨outcome, m, rfl⟩
      | cons pending stack => cases outcome <;> exact .inl ⟨_, rfl⟩

/-- Zero or more steps that leave the work `base` at the bottom of the stack where it is. -/
abbrev StepsAbove (limit : Nat) (base : List Pending) : Config → Config → Prop :=
  Relation.ReflTransGen fun c c' => step limit c = some c' ∧ base <:+ c'.stack

/-- Steps lead to the same above any work. -/
theorem Steps.above (run : Steps limit c c') (base : List Pending) :
    StepsAbove limit base (c.above base) (c'.above base) := by
  induction run with
  | refl => exact .refl
  | tail _ stepped ih => exact ih.tail ⟨step_above stepped base, List.suffix_append _ _⟩

/-- **Steps above some work are the steps that there are without it.** -/
theorem stepsAbove_iff {base : List Pending} {d' : Config} :
    StepsAbove limit base (c.above base) d' ↔ ∃ d, Steps limit c d ∧ d' = d.above base := by
  constructor
  · intro run
    induction run with
    | refl => exact ⟨c, .refl, rfl⟩
    | tail _ next ih =>
        obtain ⟨d, before, rfl⟩ := ih
        obtain ⟨stepped', suffix⟩ := next
        rcases exists_step_or_give limit d with ⟨e, stepped⟩ | ⟨outcome, m, rfl⟩
        · cases (step_above stepped base).symm.trans stepped'
          exact ⟨e, before.tail stepped, rfl⟩
        · exact absurd suffix (not_suffix_of_give stepped')
  · rintro ⟨d, run, rfl⟩
    exact run.above base

/-- **A state with the mark of a body on its stack lies inside a call**, which began in the same
run and has not ended. -/
theorem Steps.entered {n : Node DefId} {f : FrameId} {m : Machine} {c : Config}
    (run : Steps limit ⟨.node n f, [], m⟩ c) {base : List Pending}
    (inside : .leave :: base <:+ c.stack) :
    ∃ call rest m', Steps limit ⟨.node n f, [], m⟩ ⟨.arguments call [] rest, base, m'⟩ ∧
      StepsAbove limit base ⟨.arguments call [] rest, base, m'⟩ c := by
  induction run with
  | refl => exact absurd inside.length_le (by simp)
  | @tail c c' before stepped ih =>
      by_cases already : .leave :: base <:+ c.stack
      · obtain ⟨call, rest, m', start, above⟩ := ih already
        exact ⟨call, rest, m', start, above.tail ⟨stepped, (List.suffix_cons _ _).trans inside⟩⟩
      · -- The mark is new, so it is this step that enters the body.
        have change := stackChange_of_step stepped
        obtain ⟨focus, stack, m'⟩ := c
        generalize after : c'.stack = stack' at change inside
        cases change with
        | same => exact absurd inside already
        | pop => exact absurd (inside.trans (List.suffix_cons _ _)) already
        | push _ _ mark =>
            rcases List.suffix_cons_iff.mp inside with same | suffix
            · obtain ⟨rfl, rfl⟩ := List.cons.inj same
              obtain ⟨call, rest, rfl⟩ := mark rfl
              refine ⟨call, rest, m', before, .single ⟨stepped, ?_⟩⟩
              rw [after]
              exact List.suffix_cons _ _
            · exact absurd suffix already
        | replace _ _ unmarked =>
            rcases List.suffix_cons_iff.mp inside with same | suffix
            · exact absurd (List.cons.inj same).1.symm unmarked
            · exact absurd (suffix.trans (List.suffix_cons _ _)) already

/-- A run of a session began with one of its trees in the root frame. -/
theorem Session.Reachable.began {i : Interpreter} {programs : List (Node DefId)} {c : Config}
    (reachable : (Session.running i programs c).Reachable) :
    ∃ node ∈ programs, (Session.idle i programs).Reachable ∧
      Steps i.limit ⟨.node node i.root, [], ⟨i.store, 0⟩⟩ c := by
  obtain ⟨limit, later⟩ := reachable
  generalize same : Session.running i programs c = σ at later
  induction later generalizing c with
  | refl => cases same
  | tail before next ih =>
      cases next with
      | limit | read | finish => cases same
      | start member =>
          cases same
          exact ⟨_, member, ⟨limit, before⟩, .refl⟩
      | step stepped =>
          cases same
          obtain ⟨node, member, idle, run⟩ := ih rfl
          exact ⟨node, member, idle, run.tail stepped⟩

end BlockScript
