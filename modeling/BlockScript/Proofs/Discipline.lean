import BlockScript.Proofs.Provenance

/-!
# What an evaluation keeps to

A discipline is a property of the nodes that are evaluated, of the values that are held and stored,
and of the errors that an evaluation may stop with.  It is upheld if no single operation breaks it:
literals and operators give good values or good errors from good ones, a block of good nodes is a
good value and its body is good again, and so on (`Discipline.Upheld`).  Then no evaluation breaks
it: from a store of good values, good nodes lead to a store of good values and to a good outcome
(`Discipline.Upheld.evaluate`).

The proof goes over the computations that evaluation is put together from, with what each of them
promises (`Discipline.Keeps`).
-/

set_option autoImplicit false

namespace BlockScript

/-- Properties of the nodes, values and errors of an evaluation. -/
structure Discipline where
  tree : Node DefId → Prop
  value : Value → Prop
  error : EvalError → Prop

namespace Discipline

variable {α β : Type}

/-- An outcome with a good result or a good error. -/
def Outcome (d : Discipline) (good : α → Prop) : Except EvalError α → Prop
  | .ok a => good a
  | .error e => d.error e

/-- All values that stand in frames are good. -/
def Stored (d : Discipline) (s : Store) : Prop :=
  ∀ ⦃f : FrameId⦄ ⦃name : String⦄ ⦃v : Value⦄, s.own? f name = some v → d.value v

/-- No operation of an evaluation breaks the discipline. -/
structure Upheld (d : Discipline) (limit : Nat) : Prop where
  nil : d.value .nil
  int : ∀ n, d.value (.int n)
  float : ∀ x, d.value (.float x)
  bool : ∀ b, d.value (.bool b)
  notABlock : d.value notABlock
  /-- A block literal of good nodes gives a good value. -/
  block : ∀ {definition frame}, definition.literal.Every d.tree → d.value (.block definition frame)
  /-- The body of a block that is a good value is good. -/
  body : ∀ {definition frame}, d.value (.block definition frame) →
    Node.EveryAll d.tree definition.body
  arith : ∀ op {left right}, d.value left → d.value right →
    d.Outcome d.value (ArithOp.onValues op left right)
  compare : ∀ op {left right}, d.value left → d.value right →
    d.Outcome (fun _ => True) (CompareOp.onValues op left right)
  /-- There is no room for a call. -/
  full : ∀ {active}, limit ≤ active → d.error (.stackOverflow (active + 1) limit)
  /-- A call has too few arguments. -/
  short : ∀ {name arguments}, d.tree (.call name arguments) →
    ∀ expected received, d.error (.arity name expected received)

/-! ## Stores of good values -/

namespace Stored

variable {d : Discipline} {s : Store}

theorem lookup (stored : d.Stored s) (nil : d.value .nil) (f : FrameId) (name : String) :
    d.value (s.lookup f name) := by
  rcases s.lookupWithin_stored name s.frames.size f with nothing | ⟨g, bound⟩
  · rw [Store.lookup, nothing]
    exact nil
  · exact stored bound

theorem add (stored : d.Stored s) {frame : Frame}
    (bindings : ∀ name v, frame.bindings.get? name = some v → d.value v) :
    d.Stored (s.add frame).2 := by
  intro f name v bound
  rw [Store.own?_add] at bound
  split at bound
  · exact bindings name v bound
  · exact stored bound

theorem newFrame (stored : d.Stored s) (parent : Option FrameId) :
    d.Stored (s.newFrame parent).2 :=
  stored.add fun _ _ bound => by cases bound

theorem snapshot (stored : d.Stored s) (f : FrameId) : d.Stored (s.snapshot f).2 :=
  stored.add fun _ _ bound => stored bound

theorem bind (stored : d.Stored s) {v : Value} (good : d.value v) (target : FrameId)
    (name : String) : d.Stored (s.bind target name v) := by
  intro f other w bound
  rcases Store.eq_or_own?_of_bind bound with rfl | before
  · exact good
  · exact stored before

theorem assign (stored : d.Stored s) {v : Value} (good : d.value v) (f : FrameId)
    (name : String) : d.Stored (s.assign f name v) := by
  obtain ⟨target, assigned⟩ := s.assign_eq_bind f name
  rw [assigned]
  exact stored.bind good target name

theorem capture (stored : d.Stored s) {definition : Definition}
    (good : ∀ frame, d.value (.block definition frame)) (f : FrameId) :
    d.Stored (s.capture definition f).2 := by
  intro g name v bound
  rw [Store.own?_capture] at bound
  split at bound
  · split at bound
    · cases bound
      exact good _
    · exact stored bound
  · exact stored bound

end Stored

theorem stored_fresh (d : Discipline) (limit : Nat) : d.Stored (Interpreter.fresh limit).store := by
  intro f name v bound
  rw [Store.own?, Store.frame_fresh] at bound
  cases bound

/-! ## Computations -/

/-- A computation that leads from good stores to good stores and good outcomes. -/
def Keeps (d : Discipline) (good : α → Prop) (x : Run α) : Prop :=
  ∀ ⦃m : Machine⦄ ⦃r : Except EvalError α⦄ ⦃m' : Machine⦄, d.Stored m.store →
    x m = some (r, m') → d.Stored m'.store ∧ d.Outcome good r

section Keeps

variable {d : Discipline} {good : α → Prop} {fine : β → Prop}

theorem keeps_exhausted : d.Keeps good Run.exhausted := fun _ _ _ _ gives => by cases gives

theorem keeps_ofExcept {r : Except EvalError α} (outcome : d.Outcome good r) :
    d.Keeps good (Run.ofExcept r) := by
  intro m r m' stored gives
  cases gives
  exact ⟨stored, outcome⟩

theorem keeps_pure {a : α} (here : good a) : d.Keeps good (pure a : Run α) :=
  keeps_ofExcept (r := .ok a) here

theorem keeps_act {f : Store → α × Store}
    (acts : ∀ s, d.Stored s → d.Stored (f s).2 ∧ good (f s).1) : d.Keeps good (Run.act f) := by
  intro m r m' stored gives
  cases gives
  exact acts m.store stored

theorem keeps_act_any {f : Store → α × Store} (acts : ∀ s, d.Stored s → d.Stored (f s).2) :
    d.Keeps (fun _ => True) (Run.act f) :=
  keeps_act fun s stored => ⟨acts s stored, trivial⟩

theorem keeps_change {f : Store → Store} (changes : ∀ s, d.Stored s → d.Stored (f s)) :
    d.Keeps (fun _ => True) (Run.change f) :=
  keeps_act_any (f := fun s => ((), f s)) changes

theorem keeps_read {f : Store → α} (reads : ∀ s, d.Stored s → good (f s)) :
    d.Keeps good (Run.read f) :=
  keeps_act (f := fun s => (f s, s)) fun s stored => ⟨stored, reads s stored⟩

theorem Keeps.andThen {x : Run α} {f : α → Run β} (first : d.Keeps good x)
    (second : ∀ a, good a → d.Keeps fine (f a)) : d.Keeps fine (x >>= f) := by
  intro m r m' stored gives
  rcases Run.bind_eq_some_iff.mp gives with ⟨e, stopped, rfl⟩ | ⟨a, m₁, went, further⟩
  · exact first stored stopped
  · obtain ⟨stored₁, here⟩ := first stored went
    exact second a here stored₁ further

theorem Keeps.calling {x : Run α} (body : d.Keeps good x) : d.Keeps good (Run.calling x) := by
  intro m r m' stored gives
  obtain ⟨m₁, inside, rfl⟩ := Run.calling_eq_some_iff.mp gives
  have kept := body (m := { m with active := m.active + 1 }) stored inside
  exact kept

theorem Keeps.guarded {limit : Nat} (upheld : d.Upheld limit) {x : Run α} (call : d.Keeps good x) :
    d.Keeps good (Run.guarded limit x) := by
  intro m r m' stored gives
  rw [Run.guarded_apply] at gives
  split at gives
  · rename_i full
    cases gives
    exact ⟨stored, upheld.full full⟩
  · exact call stored gives

end Keeps

/-! ## Evaluations -/

namespace Upheld

variable {d : Discipline} {limit : Nat}

theorem lookup (upheld : d.Upheld limit) (f : FrameId) (name : String) :
    d.Keeps d.value (Run.read fun s => s.lookup f name) :=
  keeps_read fun _ stored => stored.lookup upheld.nil f name

mutual
/-- **An evaluation keeps to a discipline that is upheld.**  The recursion is that of the budget. -/
theorem evaluate (upheld : d.Upheld limit) : ∀ (budget : Nat) {node : Node DefId} (f : FrameId),
    node.Every d.tree → d.Keeps d.value (evaluate limit budget node f)
  | 0, _, _, _ => keeps_exhausted
  | budget + 1, .list _, f, ⟨_, all⟩ => upheld.evaluateAll budget f all upheld.nil
  | budget + 1, .loop .., f, ⟨_, start, test, step, body⟩ => by
      refine (keeps_act_any fun s stored => stored.newFrame _).andThen fun inner _ => ?_
      refine (upheld.evaluate budget inner start).andThen fun _ _ => ?_
      exact upheld.evaluateLoop budget inner test step body upheld.nil
  | budget + 1, .branch .., f, ⟨_, test, yes⟩ => by
      refine (upheld.evaluate budget f test).andThen fun v _ => ?_
      split
      · exact upheld.evaluateAll budget f yes upheld.nil
      · exact keeps_pure upheld.nil
  | budget + 1, .branchElse .., f, ⟨_, test, yes, no⟩ => by
      refine (upheld.evaluate budget f test).andThen fun v _ => ?_
      split
      · exact upheld.evaluateAll budget f yes upheld.nil
      · exact upheld.evaluateAll budget f no upheld.nil
  | budget + 1, .block id parameters body, f, literal => by
      have good (frame : FrameId) : d.value (.block ⟨id, parameters, body⟩ frame) :=
        upheld.block literal
      exact keeps_act fun s stored => ⟨stored.capture good f, good _⟩
  | budget + 1, .call name arguments, f, ⟨here, all⟩ => by
      refine (upheld.lookup f name).andThen fun callee good => ?_
      cases callee with
      | block definition own =>
          refine Keeps.guarded upheld ?_
          refine (keeps_act_any fun s stored => stored.snapshot _).andThen fun inner _ => ?_
          refine (upheld.bindArguments budget f inner (upheld.short here _ _) _ all).andThen
            fun _ _ => ?_
          exact (upheld.evaluateAll budget inner (upheld.body good) upheld.nil).calling
      | int | float | bool | nil | signal => exact keeps_pure upheld.notABlock
  | budget + 1, .assign name value, f, ⟨_, tree⟩ => by
      refine (upheld.evaluate budget f tree).andThen fun v good => ?_
      refine (keeps_change fun s stored => stored.assign good f name).andThen fun _ _ => ?_
      exact keeps_pure good
  | budget + 1, .var name, f, _ => upheld.lookup f name
  | budget + 1, .logic .., f, ⟨_, left, right⟩ => by
      refine (upheld.evaluate budget f left).andThen fun l _ => ?_
      refine (upheld.evaluate budget f right).andThen fun r _ => ?_
      exact keeps_pure (upheld.bool _)
  | budget + 1, .compare op .., f, ⟨_, left, right⟩ => by
      refine (upheld.evaluate budget f left).andThen fun l goodLeft => ?_
      refine (upheld.evaluate budget f right).andThen fun r goodRight => ?_
      refine (keeps_ofExcept (upheld.compare op goodLeft goodRight)).andThen fun b _ => ?_
      exact keeps_pure (upheld.bool b)
  | budget + 1, .arith op .., f, ⟨_, left, right⟩ => by
      refine (upheld.evaluate budget f left).andThen fun l goodLeft => ?_
      refine (upheld.evaluate budget f right).andThen fun r goodRight => ?_
      exact keeps_ofExcept (upheld.arith op goodLeft goodRight)
  | budget + 1, .int n, _, _ => keeps_pure (upheld.int n)
  | budget + 1, .float x, _, _ => keeps_pure (upheld.float x)
  | budget + 1, .bool b, _, _ => keeps_pure (upheld.bool b)

theorem evaluateAll (upheld : d.Upheld limit) : ∀ (budget : Nat) {statements : List (Node DefId)}
    (f : FrameId), Node.EveryAll d.tree statements → ∀ {last : Value}, d.value last →
    d.Keeps d.value (evaluateAll limit budget statements f last)
  | 0, _, _, _, _, _ => keeps_exhausted
  | _ + 1, [], _, _, _, good => keeps_pure good
  | budget + 1, _ :: _, f, ⟨first, rest⟩, _, _ =>
      (upheld.evaluate budget f first).andThen fun _ good => upheld.evaluateAll budget f rest good

theorem evaluateLoop (upheld : d.Upheld limit) : ∀ (budget : Nat) {test step : Node DefId}
    {body : List (Node DefId)} (f : FrameId), test.Every d.tree → step.Every d.tree →
    Node.EveryAll d.tree body → ∀ {last : Value}, d.value last →
    d.Keeps d.value (evaluateLoop limit budget test step body f last)
  | 0, _, _, _, _, _, _, _, _, _ => keeps_exhausted
  | budget + 1, _, _, _, f, test, step, body, _, good => by
      refine (upheld.evaluate budget f test).andThen fun v _ => ?_
      split
      · refine (upheld.evaluateAll budget f body upheld.nil).andThen fun v good => ?_
        refine (upheld.evaluate budget f step).andThen fun _ _ => ?_
        exact upheld.evaluateLoop budget f test step body good
      · exact keeps_pure good

theorem bindArguments (upheld : d.Upheld limit) : ∀ (budget : Nat) {arguments : List (Node DefId)}
    (caller inner : FrameId) {short : EvalError}, d.error short → ∀ parameters : List String,
    Node.EveryAll d.tree arguments → d.Keeps (fun _ => True)
      (bindArguments limit budget short parameters arguments caller inner)
  | 0, _, _, _, _, _, _, _ => keeps_exhausted
  | _ + 1, _, _, _, _, _, [], _ => keeps_pure trivial
  | _ + 1, [], _, _, short, bad, _ :: _, _ => keeps_ofExcept (r := .error short) bad
  | budget + 1, _ :: _, caller, inner, _, bad, parameter :: parameters, ⟨first, rest⟩ => by
      refine (upheld.evaluate budget caller first).andThen fun v good => ?_
      refine (keeps_change fun s stored => stored.bind good inner parameter).andThen fun _ _ => ?_
      exact upheld.bindArguments budget caller inner bad parameters rest
end

theorem ends (upheld : d.Upheld limit) {node : Node DefId} {f : FrameId} {m m' : Machine}
    {r : Except EvalError Value} (every : node.Every d.tree) (stored : d.Stored m.store)
    (ends : Ends limit node f m r m') : d.Stored m'.store ∧ d.Outcome d.value r := by
  obtain ⟨budget, gives⟩ := ends
  exact upheld.evaluate budget f every stored gives

end Upheld

end Discipline

end BlockScript
