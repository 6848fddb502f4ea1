import BlockScript.Proofs.FrameGraph
import BlockScript.Proofs.FrameLaw

/-!
# Captured frames and calls

The frame that a block literal captures is never written again, in the whole session
(`Session.Later.frame_eq`), and no frame has it as its parent.  A call starts from a copy of the
frame that the literal captured last when the call begins.  While the arguments are evaluated the
copy is out of reach of the evaluation, because it is neither a scope of the evaluation nor the
parent of a frame, so when the body is entered the parameters have been bound in it and nothing
else has changed (`Passes.own?_inner`).
-/

set_option autoImplicit false

namespace BlockScript

/-! ## The captured frame in the rest of the session -/

/-- **A captured frame stays what it is as long as the session goes on.** -/
theorem Session.Later.frame_eq {σ σ' : Session} (reachable : σ.Reachable) (later : Later σ σ')
    {f : FrameId} (capture : σ.store.IsCapture f) :
    σ'.store.frame f = σ.store.frame f := by
  induction later with
  | refl => rfl
  | @tail σ₁ σ₂ before next ih =>
      obtain ⟨table, w, fits⟩ := (reachable.later before).fits
      obtain ⟨_, _, _, kept⟩ := fits.next next
      have still : σ₁.store.IsCapture f := by
        refine (Store.isCapture_congr ?_).mpr capture
        rw [Store.own?, ih, Store.own?]
      exact (kept f still).trans ih

/-- No frame has a captured frame as its parent. -/
theorem Session.Reachable.parent_ne_capture {σ : Session} (reachable : σ.Reachable) {f : FrameId}
    (capture : σ.store.IsCapture f) (g : FrameId) : σ.store.parent g ≠ some f := by
  obtain ⟨table, w, fits⟩ := reachable.fits
  intro link
  rw [fits.store] at link capture
  exact fits.settled.2.parents g f link capture

/-- Nothing but the evaluation of a block literal records a capture. -/
theorem captured?_step {limit : Nat} {c c' : Config} (stepped : step limit c = some c')
    (other : ∀ id parameters body f, c.focus ≠ .node (.block id parameters body) f) (id : DefId) :
    c'.store.captured? id = c.store.captured? id := by
  obtain ⟨focus, stack, m⟩ := c
  cases focus with
  | node node f =>
      cases stepped
      cases node with
      | block label parameters body => exact absurd rfl (other label parameters body f)
      | call name arguments =>
          cases callee : m.store.lookup f name with
          | block d own =>
              by_cases full : limit ≤ m.active
              · rw [enter_call_full callee full]
                rfl
              · rw [enter_call_block callee (Nat.not_le.mp full)]
                rfl
          | int | float | bool | nil | signal =>
              rw [enter_call_other (by simp [callee])]
              rfl
      | list | loop | branch | branchElse | assign | var | logic | compare | arith | int | float |
          bool => rfl
  | all statements f last => cases statements <;> cases stepped <;> rfl
  | rounds test step body f last =>
      cases stepped
      rfl
  | arguments call parameters arguments =>
      cases parameters with
      | nil =>
          cases stepped
          rfl
      | cons parameter parameters => cases arguments <;> cases stepped <;> rfl
  | give outcome =>
      cases stack with
      | nil => cases stepped
      | cons pending stack =>
          cases outcome with
          | error e =>
              cases stepped
              cases pending <;> rfl
          | ok v =>
              cases stepped
              cases pending with
              | assign name f => exact Store.captured?_assign m.store f name v id
              | test test step body f last =>
                  simp only [resume]
                  split <;> rfl
              | statements | start | body | step | branches | argument | leave | right |
                  combine => rfl

/-! ## The frame of a call while the arguments are bound -/

/-- Arguments are evaluated one after another in the frame of the caller and bound to the
parameters in the frame of the call.  The list has the values. -/
inductive Passes (limit : Nat) (caller inner : FrameId) :
    List String → List (Node DefId) → Machine → List Value → Machine → Prop where
  | done (arguments : List (Node DefId)) (m : Machine) :
      Passes limit caller inner [] arguments m [] m
  | next {parameter : String} {parameters : List String} {argument : Node DefId}
      {arguments : List (Node DefId)} {m m₁ m' : Machine} {v : Value} {values : List Value}
      (value : Ends limit argument caller m (.ok v) m₁)
      (rest : Passes limit caller inner parameters arguments
        { m₁ with store := m₁.store.bind inner parameter v } values m') :
      Passes limit caller inner (parameter :: parameters) (argument :: arguments) m
        (v :: values) m'

theorem exists_passes {limit : Nat} {short : EvalError} {caller inner : FrameId} :
    ∀ {budget : Nat} {parameters : List String} {arguments : List (Node DefId)} {m m' : Machine},
      bindArguments limit budget short parameters arguments caller inner m = some (.ok (), m') →
        ∃ values, Passes limit caller inner parameters arguments m values m'
  | 0, _, _, _, _, gives => by cases gives
  | _ + 1, [], arguments, m, _, gives => by
      cases gives
      exact ⟨[], .done arguments m⟩
  | _ + 1, _ :: _, [], _, _, gives => by cases gives
  | budget + 1, parameter :: parameters, argument :: arguments, m, m', gives => by
      rcases Run.bind_eq_some_iff.mp gives with ⟨_, _, impossible⟩ | ⟨v, m₁, went, further⟩
      · cases impossible
      · obtain ⟨values, rest⟩ := exists_passes further
        exact ⟨v :: values, .next ⟨budget, went⟩ rest⟩

/-- The frame of a call that no evaluation in the frame of the caller can reach: it is another
frame, and no frame has it as its parent. -/
structure Apart (s : Store) (caller inner : FrameId) : Prop where
  forest : s.Forest
  hasCaller : s.Has caller
  hasInner : s.Has inner
  ne : inner ≠ caller
  childless : ∀ h, s.parent h ≠ some inner

namespace Apart

variable {s : Store} {caller inner : FrameId}

theorem bind (apart : Apart s caller inner) (name : String) (v : Value) :
    Apart (s.bind inner name v) caller inner where
  forest := apart.forest.bind inner name v
  hasCaller := Store.has_bind.mpr apart.hasCaller
  hasInner := Store.has_bind.mpr apart.hasInner
  ne := apart.ne
  childless h := by
    rw [Store.parent_bind]
    exact apart.childless h

/-- The frame of a call that has just begun. -/
theorem snapshot (forest : s.Forest) (has : s.Has caller) (copied : FrameId) :
    Apart (s.snapshot copied).2 caller s.next where
  forest := forest.add fun _ link => forest.has_parent link
  hasCaller := Store.has_add.mpr (.inl has)
  hasInner := Store.has_add.mpr (.inr rfl)
  ne := (Store.ne_next has).symm
  childless h link := by
    -- The parent of any frame is a frame of the store before, and the new frame is not.
    rw [Store.snapshot, Store.parent_add] at link
    split at link
    · exact Store.ne_next (forest.has_parent (f := copied) link) rfl
    · exact Store.ne_next (forest.has_parent link) rfl

end Apart

/-- An evaluation in the frame of the caller does not touch the frame of the call. -/
theorem Ends.apart {limit : Nat} {n : Node DefId} {caller inner : FrameId} {m m' : Machine}
    {r : Except EvalError Value} (ends : Ends limit n caller m r m')
    (apart : Apart m.store caller inner) :
    Apart m'.store caller inner ∧ m'.store.parent inner = m.store.parent inner ∧
      ∀ name, m'.store.own? inner name = m.store.own? inner name := by
  obtain ⟨w, guarded, store⟩ := ends.guarded apart.forest apart.hasCaller
  rw [store]
  have spares := guarded.spares
  refine ⟨⟨guarded.forest, spares.has _ apart.hasCaller, spares.has _ apart.hasInner, apart.ne, ?_⟩,
    spares.parent inner apart.hasInner, spares.bindings inner apart.hasInner apart.ne apart.childless⟩
  exact guarded.childless apart.hasInner apart.ne apart.childless

namespace Passes

variable {limit : Nat} {caller inner : FrameId} {parameters : List String}
  {arguments : List (Node DefId)} {m m' : Machine} {values : List Value}

theorem parent_inner (passes : Passes limit caller inner parameters arguments m values m')
    (apart : Apart m.store caller inner) : m'.store.parent inner = m.store.parent inner := by
  induction passes with
  | done => rfl
  | next value rest ih =>
      obtain ⟨apart', parent, _⟩ := value.apart apart
      rw [ih (apart'.bind _ _), Store.parent_bind, parent]

/-- **The frame of a call when the body is entered** has the bindings it had when the call began,
overridden by the parameters; if two parameters have one name, the later one counts. -/
theorem own?_inner (passes : Passes limit caller inner parameters arguments m values m')
    (apart : Apart m.store caller inner) (name : String) :
    m'.store.own? inner name =
      ((parameters.zip values).reverse.lookup name).or (m.store.own? inner name) := by
  induction passes with
  | done => rfl
  | @next parameter parameters argument arguments m m₁ m' v values value rest ih =>
      obtain ⟨apart', _, kept⟩ := value.apart apart
      rw [ih (apart'.bind _ _), Store.own?_bind apart'.hasInner, kept, List.zip_cons_cons,
        List.reverse_cons, List.lookup_append, Option.or_assoc]
      congr 1
      by_cases here : name = parameter
      · simp [here]
      · have differs : (name == parameter) = false := beq_false_of_ne here
        simp [here, differs, List.lookup_cons]

/-- A name that is not a parameter is not overridden. -/
theorem own?_inner_of_not_mem
    (passes : Passes limit caller inner parameters arguments m values m')
    (apart : Apart m.store caller inner) {name : String} (other : name ∉ parameters) :
    m'.store.own? inner name = m.store.own? inner name := by
  have nothing : (parameters.zip values).reverse.lookup name = none := by
    rw [List.lookup_eq_none_iff]
    intro pair member
    have parameter := (List.of_mem_zip (List.mem_reverse.mp member)).1
    simp only [bne_iff_ne, ne_eq]
    rintro rfl
    exact other parameter
  rw [passes.own?_inner apart, nothing, Option.none_or]

end Passes

/-! ## Evaluating a literal and calling a block -/

section Moments

variable {i : Interpreter} {programs : List (Node DefId)} {f : FrameId} {stack : List Pending}
  {m : Machine} {d : Definition}

/-- The frame that a literal captures holds for ever what the defining frame held then, with the
block as `this`, and is never a parent. -/
theorem Session.Later.of_literal
    (reachable : (Session.running i programs
      ⟨.node (.block d.id d.parameters d.body) f, stack, m⟩).Reachable) {σ : Session}
    (later : Session.Later (.running i programs ⟨.give (.ok (.block d m.store.next)), stack,
      { m with store := (m.store.capture d f).2 }⟩) σ) :
    (∀ name, σ.store.own? m.store.next name =
      if name = Store.selfName then some (.block d m.store.next) else m.store.own? f name) ∧
    ∀ g, σ.store.parent g ≠ some m.store.next := by
  have recorded := reachable.later (.single (.step rfl))
  have own : ∀ name, (m.store.capture d f).2.own? m.store.next name =
      if name = Store.selfName then some (.block d m.store.next) else m.store.own? f name :=
    fun name => (Store.own?_capture _ _ _ _ _).trans (if_pos rfl)
  have capture : (m.store.capture d f).2.IsCapture m.store.next :=
    ⟨d, (own _).trans (if_pos rfl)⟩
  have same := Session.Later.frame_eq recorded later capture
  have owned : ∀ name, σ.store.own? m.store.next name =
      (m.store.capture d f).2.own? m.store.next name := by
    intro name
    rw [Store.own?, same]
    rfl
  refine ⟨fun name => (owned name).trans (own name), ?_⟩
  refine (recorded.later later).parent_ne_capture ⟨d, ?_⟩
  exact (owned _).trans ((own _).trans (if_pos rfl))

/-- The frame `inner` of a call of `d` when the body is entered, for a call that began in the
store `s` when `d` had captured the frame `captured` last. -/
structure BodyEntry (s : Store) (d : Definition) (captured inner : FrameId) (values : List Value)
    (t : Store) : Prop where
  new : ¬ s.Has inner
  parent : t.parent inner = s.parent captured
  bindings : ∀ name, t.own? inner name =
    ((d.parameters.zip values).reverse.lookup name).or (s.own? captured name)
  self : Store.selfName ∉ d.parameters →
    t.own? inner Store.selfName = some (.block d captured)

variable {name : String} {arguments : List (Node DefId)} {own : FrameId}

/-- A block that is called has captured, and its latest capture is a captured frame of the same
definition. -/
theorem Session.Reachable.callee
    (reachable : (Session.running i programs ⟨.node (.call name arguments) f, stack, m⟩).Reachable)
    (callee : m.store.lookup f name = .block d own) :
    m.store.Forest ∧ m.store.Has f ∧ ∃ captured, m.store.captured? d.id = some captured ∧
      m.store.own? captured Store.selfName = some (.block d captured) := by
  obtain ⟨table, w, settled, fits⟩ := reachable.fits
  have store : m.store = w.store := fits.store
  rw [store] at callee ⊢
  have sound := settled.sound
  refine ⟨sound.forest, (sound.scopes f fits.focus.2).1, ?_⟩
  exact sound.latest settled.labelled (sound.proper_of_lookup callee)

/-- What the arguments of a call leave of the frame of the call. -/
theorem Passes.bodyEntry {limit : Nat} {captured : FrameId} {values : List Value} {m' : Machine}
    (forest : m.store.Forest) (has : m.store.Has f)
    (self : m.store.own? captured Store.selfName = some (.block d captured))
    (passes : Passes limit f m.store.next d.parameters arguments
      { m with store := (m.store.snapshot captured).2 } values m') :
    BodyEntry m.store d captured m.store.next values m'.store := by
  have apart := Apart.snapshot forest has captured
  have copied : ∀ other, (m.store.snapshot captured).2.own? m.store.next other =
      m.store.own? captured other := by
    intro other
    rw [Store.snapshot, Store.own?_add, if_pos rfl]
    rfl
  refine ⟨fun old => Store.ne_next old rfl, ?_, fun other => ?_, fun unnamed => ?_⟩
  · rw [passes.parent_inner apart, Store.snapshot, Store.parent_add, if_pos rfl]
    rfl
  · rw [passes.own?_inner apart, copied]
  · rw [passes.own?_inner_of_not_mem apart unnamed, copied, self]

end Moments

/-- **Captured frames are immutable, and every call starts from the latest one.**  In every state
of every session:

* If a block literal `d` is evaluated in a frame `f`, a new frame is recorded for `d` and for no
  other definition.  From then on and for ever it holds the own bindings that `f` had, with the
  block as `this`, and no frame ever has it as its parent.
* Nothing else records a capture.
* If a block with the definition `d` is called, `d` has a latest capture, and once the arguments
  are bound the body is entered in a new frame.  Its parent is the parent of the capture, its
  bindings are those of the capture overridden by the parameters, and unless a parameter is named
  `this`, its `this` is a block of `d`.  The latest capture is that at the beginning of the call,
  before the arguments are evaluated. -/
theorem captures_immutable_calls_latest {i : Interpreter} {programs : List (Node DefId)}
    {c : Config} (reachable : (Session.running i programs c).Reachable) :
    (∀ d f stack m, c = ⟨.node (.block d.id d.parameters d.body) f, stack, m⟩ →
      ∃ m', step i.limit c = some ⟨.give (.ok (.block d m.store.next)), stack, m'⟩ ∧
        (∀ id, m'.store.captured? id =
          if id = d.id then some m.store.next else m.store.captured? id) ∧
        ∀ σ, Session.Later
            (.running i programs ⟨.give (.ok (.block d m.store.next)), stack, m'⟩) σ →
          (∀ name, σ.store.own? m.store.next name =
            if name = Store.selfName then some (.block d m.store.next)
            else m.store.own? f name) ∧
          ∀ g, σ.store.parent g ≠ some m.store.next) ∧
    (∀ c', step i.limit c = some c' →
      (∀ id parameters body f, c.focus ≠ .node (.block id parameters body) f) →
      ∀ id, c'.store.captured? id = c.store.captured? id) ∧
    (∀ name arguments f stack m d own, c = ⟨.node (.call name arguments) f, stack, m⟩ →
      m.store.lookup f name = .block d own → m.active < i.limit →
      ∃ captured, m.store.captured? d.id = some captured ∧
        (∀ budget, evaluate i.limit (budget + 1) (.call name arguments) f m =
          calls i.limit budget name arguments f d m.store.next
            { m with store := (m.store.snapshot captured).2 }) ∧
        ∀ budget m', bindArguments i.limit budget (d.short name arguments) d.parameters arguments
            f m.store.next { m with store := (m.store.snapshot captured).2 } =
              some (.ok (), m') →
          Session.Later (.running i programs c) (.running i programs
            ⟨.all d.body m.store.next .nil, .leave :: stack,
              { m' with active := m'.active + 1 }⟩) ∧
          ∃ values, Passes i.limit f m.store.next d.parameters arguments
              { m with store := (m.store.snapshot captured).2 } values m' ∧
            BodyEntry m.store d captured m.store.next values m'.store) := by
  refine ⟨?_, fun c' stepped other => captured?_step stepped other, ?_⟩
  · rintro d f stack m rfl
    refine ⟨_, rfl, Store.captured?_capture m.store d f, fun σ later => ?_⟩
    exact Session.Later.of_literal reachable later
  · rintro name arguments f stack m d own rfl callee room
    obtain ⟨forest, has, captured, latest, self⟩ := reachable.callee callee
    have start : m.store.callFrame d own = captured := by
      rw [Store.callFrame, latest, Option.getD_some]
    refine ⟨captured, latest, fun budget => ?_, fun budget m' gives => ⟨?_, ?_⟩⟩
    · rw [evaluate_call_block callee room, start]
    · have entered : step i.limit ⟨.node (.call name arguments) f, stack, m⟩ =
          some ⟨.arguments ⟨d.short name arguments, d.body, f, m.store.next⟩ d.parameters arguments,
            stack, { m with store := (m.store.snapshot captured).2 }⟩ := by
        rw [step, enter_call_block callee room, start]
      obtain ⟨rest, steps⟩ := steps_of_bindArguments
        ⟨d.short name arguments, d.body, f, m.store.next⟩ budget _ _ _ _ _ stack gives
      refine Session.later_of_steps (.head entered (steps.tail ?_)) programs
      rfl
    · obtain ⟨values, passes⟩ := exists_passes gives
      exact ⟨values, passes, passes.bodyEntry forest has self⟩

/-- Whether a tree is that of the source `f={|k|k};f(f)`, which calls a block with itself. -/
def isSelfCall : Node Unit → Bool
  | .list [.assign "f" (.block () ["k"] [.var "k"]), .call "f" [.var "f"]] => true
  | _ => false

/-- The definition of the block in that source. -/
def identity : Definition := ⟨⟨0⟩, ["k"], [.var "k"]⟩

/-- The store when the block has been assigned. -/
def identityStore : Store :=
  ((Interpreter.fresh 1).store.capture identity ⟨0⟩).2.assign ⟨0⟩ "f" (.block identity ⟨1⟩)

/-- A session that has come to the call. -/
def selfCall : Session :=
  .running { Interpreter.fresh 1 with nextDefinition := 1 }
    [.list [.assign "f" (.block ⟨0⟩ ["k"] [.var "k"]), .call "f" [.var "f"]]]
    ⟨.node (.call "f" [.var "f"]) ⟨0⟩, [.statements [] ⟨0⟩], ⟨identityStore, 0⟩⟩

/-- There is room for the call, its argument is bound, and the body is entered in a frame made
from the frame that the literal captured. -/
theorem captures_immutable_calls_latest_selfCall :
    selfCall.Reachable ∧ identityStore.lookup ⟨0⟩ "f" = .block identity ⟨1⟩ ∧
      ∃ (m : Machine) (values : List Value),
        BodyEntry identityStore identity ⟨1⟩ ⟨2⟩ values m.store := by
  have read : (parse "f={|k|k};f(f)").toOption.map isSelfCall = some true := by decide +kernel
  obtain ⟨tree, parsed, shape⟩ := Option.map_eq_some_iff.mp read
  have reachable : selfCall.Reachable := by
    unfold isSelfCall at shape
    split at shape
    · cases outcome : parse "f={|k|k};f(f)" with
      | error e => simp [outcome, Except.toOption] at parsed
      | ok tree' =>
          simp only [outcome, Except.toOption, Option.some.injEq] at parsed
          subst parsed
          refine ⟨1, .head (.read outcome) (.head (.start (List.mem_cons_self ..)) ?_)⟩
          refine .head (.step rfl) (.head (.step rfl) (.head (.step rfl) (.head (.step rfl) ?_)))
          exact .head (.step rfl) (.head (.step rfl) (.head (.step rfl) .refl))
    · cases shape
  have callee : identityStore.lookup ⟨0⟩ "f" = .block identity ⟨1⟩ := rfl
  obtain ⟨captured, latest, _, enters⟩ := (captures_immutable_calls_latest reachable).2.2
    _ _ _ _ _ _ _ rfl callee (by decide)
  obtain rfl : (⟨1⟩ : FrameId) = captured := Option.some.inj latest
  obtain ⟨m, gives⟩ : ∃ m, bindArguments 1 5 (identity.short "f" [.var "f"]) identity.parameters
      [.var "f"] ⟨0⟩ ⟨2⟩ ⟨(identityStore.snapshot ⟨1⟩).2, 0⟩ = some (.ok (), m) := ⟨_, rfl⟩
  obtain ⟨_, values, _, entry⟩ := enters 5 m gives
  exact ⟨reachable, callee, m, values, entry⟩

end BlockScript
