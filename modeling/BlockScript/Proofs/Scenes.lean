import BlockScript.Proofs.Stepping
import Mathlib.Data.Set.Insert

/-!
# What a step can do to a store

A scene is what an invariant of the store needs to know of an evaluation: the frames in which
something is evaluated or will be, the values that the evaluation holds, and the store.  A step
changes a scene in one of a few ways (`Change`): it reads a name, makes the frame of a loop or
of a call, captures a frame, binds a parameter or assigns.  Every step of an evaluation is such a
change (`Config.Fits.step`), so an invariant is proved once for each kind of change and then
holds in every state that an evaluation passes through (`Config.Fits.steps`).

Scenes only grow: a frame or a value that an evaluation is done with stays in the scene.

What is known of the trees that are evaluated is a property of all their nodes, those in the
bodies of block literals included (`Node.Every`), because bodies come back when blocks are called.
-/

set_option autoImplicit false

namespace BlockScript

/-! ## Properties of all nodes -/

namespace Node

variable {δ : Type} {p q : Node δ → Prop}

mutual
/-- A node and all the nodes in it have a property. -/
def Every (p : Node δ → Prop) : Node δ → Prop
  | .list statements => p (.list statements) ∧ EveryAll p statements
  | .loop start test step body =>
      p (.loop start test step body) ∧ Every p start ∧ Every p test ∧ Every p step ∧ EveryAll p body
  | .branch test yes => p (.branch test yes) ∧ Every p test ∧ EveryAll p yes
  | .branchElse test yes no =>
      p (.branchElse test yes no) ∧ Every p test ∧ EveryAll p yes ∧ EveryAll p no
  | .block label parameters body => p (.block label parameters body) ∧ EveryAll p body
  | .call name arguments => p (.call name arguments) ∧ EveryAll p arguments
  | .assign name value => p (.assign name value) ∧ Every p value
  | .var name => p (.var name)
  | .logic op left right => p (.logic op left right) ∧ Every p left ∧ Every p right
  | .compare op left right => p (.compare op left right) ∧ Every p left ∧ Every p right
  | .arith op left right => p (.arith op left right) ∧ Every p left ∧ Every p right
  | .int value => p (.int value)
  | .float value => p (.float value)
  | .bool value => p (.bool value)

/-- All the nodes in all statements have a property. -/
def EveryAll (p : Node δ → Prop) : List (Node δ) → Prop
  | [] => True
  | node :: rest => Every p node ∧ EveryAll p rest
end

mutual
theorem Every.imp (weaker : ∀ n, p n → q n) : ∀ {node : Node δ}, Every p node → Every q node
  | .list _, ⟨here, all⟩ => ⟨weaker _ here, EveryAll.imp weaker all⟩
  | .loop .., ⟨here, start, test, step, body⟩ =>
      ⟨weaker _ here, start.imp weaker, test.imp weaker, step.imp weaker,
        EveryAll.imp weaker body⟩
  | .branch .., ⟨here, test, yes⟩ => ⟨weaker _ here, test.imp weaker, EveryAll.imp weaker yes⟩
  | .branchElse .., ⟨here, test, yes, no⟩ =>
      ⟨weaker _ here, test.imp weaker, EveryAll.imp weaker yes, EveryAll.imp weaker no⟩
  | .block .., ⟨here, body⟩ => ⟨weaker _ here, EveryAll.imp weaker body⟩
  | .call .., ⟨here, arguments⟩ => ⟨weaker _ here, EveryAll.imp weaker arguments⟩
  | .assign .., ⟨here, value⟩ => ⟨weaker _ here, value.imp weaker⟩
  | .var _, here => weaker _ here
  | .logic .., ⟨here, left, right⟩ => ⟨weaker _ here, left.imp weaker, right.imp weaker⟩
  | .compare .., ⟨here, left, right⟩ => ⟨weaker _ here, left.imp weaker, right.imp weaker⟩
  | .arith .., ⟨here, left, right⟩ => ⟨weaker _ here, left.imp weaker, right.imp weaker⟩
  | .int _, here => weaker _ here
  | .float _, here => weaker _ here
  | .bool _, here => weaker _ here

theorem EveryAll.imp (weaker : ∀ n, p n → q n) :
    ∀ {nodes : List (Node δ)}, EveryAll p nodes → EveryAll q nodes
  | [], _ => trivial
  | _ :: _, ⟨first, rest⟩ => ⟨first.imp weaker, EveryAll.imp weaker rest⟩
end

mutual
theorem every_of_forall (all : ∀ n, p n) : ∀ node : Node δ, Every p node
  | .list _ => ⟨all _, everyAll_of_forall all _⟩
  | .loop .. =>
      ⟨all _, every_of_forall all _, every_of_forall all _, every_of_forall all _,
        everyAll_of_forall all _⟩
  | .branch .. => ⟨all _, every_of_forall all _, everyAll_of_forall all _⟩
  | .branchElse .. =>
      ⟨all _, every_of_forall all _, everyAll_of_forall all _, everyAll_of_forall all _⟩
  | .block .. => ⟨all _, everyAll_of_forall all _⟩
  | .call .. => ⟨all _, everyAll_of_forall all _⟩
  | .assign .. => ⟨all _, every_of_forall all _⟩
  | .var _ => all _
  | .logic .. => ⟨all _, every_of_forall all _, every_of_forall all _⟩
  | .compare .. => ⟨all _, every_of_forall all _, every_of_forall all _⟩
  | .arith .. => ⟨all _, every_of_forall all _, every_of_forall all _⟩
  | .int _ => all _
  | .float _ => all _
  | .bool _ => all _

theorem everyAll_of_forall (all : ∀ n, p n) : ∀ nodes : List (Node δ), EveryAll p nodes
  | [] => trivial
  | node :: rest => ⟨every_of_forall all node, everyAll_of_forall all rest⟩
end

end Node

/-- A value that is not a block. -/
def Value.Plain (v : Value) : Prop := ∀ d c, v ≠ .block d c

theorem ArithOp.plain {op : ArithOp} {l r v : Value} (gives : op.onValues l r = .ok v) :
    v.Plain := by
  intro d c block
  subst block
  cases l <;> cases r <;> simp [ArithOp.onValues] at gives
  rename_i a b
  cases result : op.onInts a b <;> simp [result, Except.map] at gives

theorem CompareOp.plain {op : CompareOp} {l r v : Value}
    (gives : (op.onValues l r).map Value.bool = .ok v) : v.Plain := by
  intro d c block
  subst block
  cases result : op.onValues l r <;> simp [result, Except.map] at gives

/-! ## Scenes -/

/-- The frames and values that an evaluation has to do with, and its store. -/
structure Scene where
  scopes : Set FrameId
  values : Set Value
  store : Store

/-- A value that the evaluation may hold: one of the scene, or not a block. -/
def Scene.Holds (w : Scene) (v : Value) : Prop := v.Plain ∨ v ∈ w.values

/-- One change of a scene in an evaluation of trees whose nodes all have the property `p`. -/
inductive Change (p : Node DefId → Prop) : Scene → Scene → Prop where
  | stay (w : Scene) : Change p w w
  | read {w : Scene} {f : FrameId} {name : String} (scope : f ∈ w.scopes) :
      Change p w { w with values := insert (w.store.lookup f name) w.values }
  | loop {w : Scene} {f : FrameId} {start test step : Node DefId} {body : List (Node DefId)}
      (scope : f ∈ w.scopes) (tree : p (.loop start test step body)) :
      Change p w { w with
        scopes := insert w.store.next w.scopes
        store := (w.store.newFrame (some f)).2 }
  | capture {w : Scene} {f : FrameId} {d : Definition} (scope : f ∈ w.scopes)
      (tree : (Node.block d.id d.parameters d.body).Every p) :
      Change p w { w with
        values := insert (.block d w.store.next) w.values
        store := (w.store.capture d f).2 }
  | call {w : Scene} {f own : FrameId} {name : String} {d : Definition} (scope : f ∈ w.scopes)
      (callee : w.store.lookup f name = .block d own) :
      Change p w { w with
        scopes := insert w.store.next w.scopes
        store := (w.store.snapshot (w.store.callFrame d own)).2 }
  | bind {w : Scene} {f : FrameId} {name : String} {v : Value} (scope : f ∈ w.scopes)
      (held : w.Holds v) : Change p w { w with store := w.store.bind f name v }
  | assign {w : Scene} {f : FrameId} {name : String} {v : Value} (scope : f ∈ w.scopes)
      (held : w.Holds v) : Change p w { w with store := w.store.assign f name v }

/-- The bodies of the blocks that can be called have the property. -/
def Scene.Bodies (p : Node DefId → Prop) (w : Scene) : Prop :=
  ∀ ⦃f : FrameId⦄ ⦃name : String⦄ ⦃d : Definition⦄ ⦃own : FrameId⦄, f ∈ w.scopes →
    w.store.lookup f name = .block d own → Node.EveryAll p d.body

/-- A scene with more in it. -/
structure Scene.Extends (w w' : Scene) : Prop where
  scopes : w.scopes ⊆ w'.scopes
  values : w.values ⊆ w'.values

theorem Change.extends {p : Node DefId → Prop} {w w' : Scene} (change : Change p w w') :
    w.Extends w' := by
  cases change with
  | stay => exact ⟨fun _ h => h, fun _ h => h⟩
  | read => exact ⟨fun _ h => h, fun _ h => .inr h⟩
  | loop => exact ⟨fun _ h => .inr h, fun _ h => h⟩
  | capture => exact ⟨fun _ h => h, fun _ h => .inr h⟩
  | call => exact ⟨fun _ h => .inr h, fun _ h => h⟩
  | bind => exact ⟨fun _ h => h, fun _ h => h⟩
  | assign => exact ⟨fun _ h => h, fun _ h => h⟩

theorem Scene.Extends.holds {w w' : Scene} (more : w.Extends w') {v : Value} (held : w.Holds v) :
    w'.Holds v :=
  held.imp_right fun member => more.values member

/-! ## Configurations in a scene -/

section Fits

variable (p : Node DefId → Prop) (w : Scene)

/-- The combination of two values never gives a block. -/
def Yields (combine : Value → Value → Except EvalError Value) : Prop :=
  ∀ l r v, combine l r = .ok v → v.Plain

/-- A focus that has to do only with what is in the scene, and with trees that have the
property. -/
def Focus.Fits : Focus → Prop
  | .node n f => n.Every p ∧ f ∈ w.scopes
  | .all statements f last => Node.EveryAll p statements ∧ f ∈ w.scopes ∧ w.Holds last
  | .rounds test step body f last =>
      test.Every p ∧ step.Every p ∧ Node.EveryAll p body ∧ f ∈ w.scopes ∧ w.Holds last
  | .arguments call _ as =>
      Node.EveryAll p as ∧ Node.EveryAll p call.body ∧ call.caller ∈ w.scopes ∧
        call.inner ∈ w.scopes
  | .give (.ok v) => w.Holds v
  | .give (.error _) => True

/-- Pending work that has to do only with what is in the scene. -/
def Pending.Fits : Pending → Prop
  | .statements rest f => Node.EveryAll p rest ∧ f ∈ w.scopes
  | .start t s b f => t.Every p ∧ s.Every p ∧ Node.EveryAll p b ∧ f ∈ w.scopes
  | .test t s b f last =>
      t.Every p ∧ s.Every p ∧ Node.EveryAll p b ∧ f ∈ w.scopes ∧ w.Holds last
  | .body t s b f => t.Every p ∧ s.Every p ∧ Node.EveryAll p b ∧ f ∈ w.scopes
  | .step t s b f last =>
      t.Every p ∧ s.Every p ∧ Node.EveryAll p b ∧ f ∈ w.scopes ∧ w.Holds last
  | .branches yes no f => Node.EveryAll p yes ∧ Node.EveryAll p no ∧ f ∈ w.scopes
  | .argument call _ _ as =>
      Node.EveryAll p as ∧ Node.EveryAll p call.body ∧ call.caller ∈ w.scopes ∧
        call.inner ∈ w.scopes
  | .leave => True
  | .assign _ f => f ∈ w.scopes
  | .right k n f => Yields k ∧ n.Every p ∧ f ∈ w.scopes
  | .combine k l => Yields k ∧ w.Holds l

/-- A configuration in a scene. -/
structure Config.Fits (c : Config) : Prop where
  store : c.store = w.store
  focus : c.focus.Fits p w
  stack : ∀ pending ∈ c.stack, pending.Fits p w

end Fits

variable {p : Node DefId → Prop} {w w' : Scene}

theorem Pending.Fits.extend {pending : Pending} (fits : pending.Fits p w) (more : w.Extends w') :
    pending.Fits p w' := by
  cases pending with
  | statements => exact ⟨fits.1, more.scopes fits.2⟩
  | start => exact ⟨fits.1, fits.2.1, fits.2.2.1, more.scopes fits.2.2.2⟩
  | test =>
      obtain ⟨test, step, body, scope, held⟩ := fits
      exact ⟨test, step, body, more.scopes scope, more.holds held⟩
  | body => exact ⟨fits.1, fits.2.1, fits.2.2.1, more.scopes fits.2.2.2⟩
  | step =>
      obtain ⟨test, step, body, scope, held⟩ := fits
      exact ⟨test, step, body, more.scopes scope, more.holds held⟩
  | branches => exact ⟨fits.1, fits.2.1, more.scopes fits.2.2⟩
  | argument =>
      obtain ⟨arguments, body, caller, inner⟩ := fits
      exact ⟨arguments, body, more.scopes caller, more.scopes inner⟩
  | leave => exact trivial
  | assign => exact more.scopes fits
  | right => exact ⟨fits.1, fits.2.1, more.scopes fits.2.2⟩
  | combine => exact ⟨fits.1, more.holds fits.2⟩

theorem Value.plain_nil : Value.nil.Plain := fun _ _ => by simp

section Steps

variable {limit : Nat}

/-- The first step into a node is a change of the scene. -/
theorem Config.Fits.enter {node : Node DefId} {f : FrameId} {stack : List Pending} {m : Machine}
    (fits : (⟨.node node f, stack, m⟩ : Config).Fits p w) (bodies : w.Bodies p) :
    ∃ w', Change p w w' ∧ (BlockScript.enter limit node f stack m).Fits p w' := by
  obtain ⟨scopes, values, s⟩ := w
  obtain ⟨store, ⟨tree, scope⟩, below⟩ := fits
  subst store
  cases node with
  | list statements =>
      exact ⟨_, .stay _, rfl, ⟨tree.2, scope, .inl Value.plain_nil⟩, below⟩
  | loop start test step body =>
      have change := Change.loop (w := ⟨scopes, values, m.store⟩) scope tree.1
      refine ⟨_, change, rfl, ⟨tree.2.1, .inl rfl⟩, ?_⟩
      refine List.forall_mem_cons.mpr ⟨⟨tree.2.2.1, tree.2.2.2.1, tree.2.2.2.2, .inl rfl⟩, ?_⟩
      exact fun pending member => (below pending member).extend change.extends
  | branch test yes =>
      refine ⟨_, .stay _, rfl, ⟨tree.2.1, scope⟩, ?_⟩
      exact List.forall_mem_cons.mpr ⟨⟨tree.2.2, trivial, scope⟩, below⟩
  | branchElse test yes no =>
      refine ⟨_, .stay _, rfl, ⟨tree.2.1, scope⟩, ?_⟩
      exact List.forall_mem_cons.mpr ⟨⟨tree.2.2.1, tree.2.2.2, scope⟩, below⟩
  | block id parameters body =>
      have change := Change.capture (w := ⟨scopes, values, m.store⟩) (d := ⟨id, parameters, body⟩)
        scope tree
      refine ⟨_, change, rfl, .inr (.inl rfl), ?_⟩
      exact fun pending member => (below pending member).extend change.extends
  | call name arguments =>
      cases callee : m.store.lookup f name with
      | block d own =>
          by_cases full : limit ≤ m.active
          · rw [enter_call_full callee full]
            exact ⟨_, .stay _, rfl, trivial, below⟩
          · rw [enter_call_block callee (Nat.not_le.mp full)]
            have change := Change.call (p := p) (w := ⟨scopes, values, m.store⟩) scope callee
            refine ⟨_, change, rfl, ⟨tree.2, bodies scope callee, .inr scope, .inl rfl⟩, ?_⟩
            exact fun pending member => (below pending member).extend change.extends
      | int | float | bool | nil | signal =>
          rw [enter_call_other (by simp [callee])]
          exact ⟨_, .stay _, rfl, .inl fun _ _ => by simp [notABlock], below⟩
  | assign name value =>
      refine ⟨_, .stay _, rfl, ⟨tree.2, scope⟩, ?_⟩
      exact List.forall_mem_cons.mpr ⟨scope, below⟩
  | var name =>
      have change : Change p ⟨scopes, values, m.store⟩
          ⟨scopes, insert (m.store.lookup f name) values, m.store⟩ := .read scope
      refine ⟨_, change, rfl, .inr (.inl rfl), ?_⟩
      exact fun pending member => (below pending member).extend change.extends
  | logic op left right =>
      refine ⟨_, .stay _, rfl, ⟨tree.2.1, scope⟩, ?_⟩
      refine List.forall_mem_cons.mpr ⟨⟨fun l r v gives => ?_, tree.2.2, scope⟩, below⟩
      cases gives
      exact fun _ _ => by simp
  | compare op left right =>
      refine ⟨_, .stay _, rfl, ⟨tree.2.1, scope⟩, ?_⟩
      exact List.forall_mem_cons.mpr
        ⟨⟨fun _ _ _ gives => CompareOp.plain gives, tree.2.2, scope⟩, below⟩
  | arith op left right =>
      refine ⟨_, .stay _, rfl, ⟨tree.2.1, scope⟩, ?_⟩
      exact List.forall_mem_cons.mpr
        ⟨⟨fun _ _ _ gives => ArithOp.plain gives, tree.2.2, scope⟩, below⟩
  | int | float | bool => exact ⟨_, .stay _, rfl, .inl fun _ _ => by simp, below⟩

/-- Going on with a value is a change of the scene. -/
theorem Config.Fits.resume {pending : Pending} {v : Value} {stack : List Pending} {m : Machine}
    (fits : (⟨.give (.ok v), pending :: stack, m⟩ : Config).Fits p w) :
    ∃ w', Change p w w' ∧ (BlockScript.resume pending v stack m).Fits p w' := by
  obtain ⟨scopes, values, s⟩ := w
  obtain ⟨store, held, stacked⟩ := fits
  obtain ⟨top, below⟩ := List.forall_mem_cons.mp stacked
  subst store
  cases pending with
  | statements rest f => exact ⟨_, .stay _, rfl, ⟨top.1, top.2, held⟩, below⟩
  | start test step body f =>
      obtain ⟨test, step, body, scope⟩ := top
      exact ⟨_, .stay _, rfl, ⟨test, step, body, scope, .inl Value.plain_nil⟩, below⟩
  | test test step body f last =>
      obtain ⟨test, step, body, scope, last⟩ := top
      simp only [BlockScript.resume]
      split
      · refine ⟨_, .stay _, rfl, ⟨body, scope, .inl Value.plain_nil⟩, ?_⟩
        exact List.forall_mem_cons.mpr ⟨⟨test, step, body, scope⟩, below⟩
      · exact ⟨_, .stay _, rfl, last, below⟩
  | body test step body f =>
      obtain ⟨test, step, body, scope⟩ := top
      refine ⟨_, .stay _, rfl, ⟨step, scope⟩, ?_⟩
      exact List.forall_mem_cons.mpr ⟨⟨test, step, body, scope, held⟩, below⟩
  | step test step body f last => exact ⟨_, .stay _, rfl, top, below⟩
  | branches yes no f =>
      obtain ⟨yes, no, scope⟩ := top
      refine ⟨_, .stay _, rfl, ⟨?_, scope, .inl Value.plain_nil⟩, below⟩
      split
      · exact yes
      · exact no
  | argument call parameter parameters arguments =>
      have change : Change p ⟨scopes, values, m.store⟩
          ⟨scopes, values, m.store.bind call.inner parameter v⟩ := .bind top.2.2.2 held
      refine ⟨_, change, rfl, top, ?_⟩
      exact fun pending member => (below pending member).extend change.extends
  | leave => exact ⟨_, .stay _, rfl, held, below⟩
  | assign name f =>
      have change : Change p ⟨scopes, values, m.store⟩
          ⟨scopes, values, m.store.assign f name v⟩ := .assign top held
      refine ⟨_, change, rfl, change.extends.holds held, ?_⟩
      exact fun pending member => (below pending member).extend change.extends
  | right combine right f =>
      refine ⟨_, .stay _, rfl, ⟨top.2.1, top.2.2⟩, ?_⟩
      exact List.forall_mem_cons.mpr ⟨⟨top.1, held⟩, below⟩
  | combine combine left =>
      refine ⟨_, .stay _, rfl, ?_, below⟩
      simp only [BlockScript.resume]
      cases gives : combine left v with
      | ok result => exact .inl (top.1 _ _ _ gives)
      | error e => exact trivial

/-- **Every step is a change of the scene.** -/
theorem Config.Fits.step {c c' : Config} (fits : c.Fits p w) (bodies : w.Bodies p)
    (stepped : step limit c = some c') : ∃ w', Change p w w' ∧ c'.Fits p w' := by
  obtain ⟨focus, stack, m⟩ := c
  cases focus with
  | node node f =>
      cases stepped
      exact fits.enter bodies
  | all statements f last =>
      obtain ⟨store, ⟨trees, scope, held⟩, below⟩ := fits
      cases statements with
      | nil =>
          cases stepped
          exact ⟨_, .stay _, store, held, below⟩
      | cons node rest =>
          cases stepped
          refine ⟨_, .stay _, store, ⟨trees.1, scope⟩, ?_⟩
          exact List.forall_mem_cons.mpr ⟨⟨trees.2, scope⟩, below⟩
  | rounds test step body f last =>
      obtain ⟨store, here, below⟩ := fits
      cases stepped
      refine ⟨_, .stay _, store, ⟨here.1, here.2.2.2.1⟩, ?_⟩
      exact List.forall_mem_cons.mpr ⟨here, below⟩
  | arguments call parameters arguments =>
      obtain ⟨store, ⟨trees, body, caller, inner⟩, below⟩ := fits
      cases parameters with
      | nil =>
          cases stepped
          refine ⟨_, .stay _, store, ⟨body, inner, .inl Value.plain_nil⟩, ?_⟩
          exact List.forall_mem_cons.mpr ⟨trivial, below⟩
      | cons parameter parameters =>
          cases arguments with
          | nil =>
              cases stepped
              exact ⟨_, .stay _, store, trivial, below⟩
          | cons argument arguments =>
              cases stepped
              refine ⟨_, .stay _, store, ⟨trees.1, caller⟩, ?_⟩
              exact List.forall_mem_cons.mpr ⟨⟨trees.2, body, caller, inner⟩, below⟩
  | give outcome =>
      cases stack with
      | nil => cases stepped
      | cons pending stack =>
          cases outcome with
          | ok v =>
              cases stepped
              exact fits.resume
          | error e =>
              cases stepped
              refine ⟨_, .stay _, ?_, trivial, (List.forall_mem_cons.mp fits.stack).2⟩
              have store := fits.store
              cases pending <;> exact store

/-- **What every change of the scene keeps, every run keeps.** -/
theorem Config.Fits.steps {Inv : Scene → Prop}
    (keeps : ∀ ⦃w w' : Scene⦄, Inv w → Change p w w' → Inv w')
    (bodies : ∀ ⦃w : Scene⦄, Inv w → w.Bodies p) {c c' : Config} (fits : c.Fits p w)
    (inv : Inv w) (run : Steps limit c c') :
    ∃ w', Inv w' ∧ c'.Fits p w' := by
  induction run with
  | refl => exact ⟨w, inv, fits⟩
  | tail _ stepped ih =>
      obtain ⟨w₁, inv₁, fits₁⟩ := ih
      obtain ⟨w₂, change, fits₂⟩ := fits₁.step (bodies inv₁) stepped
      exact ⟨w₂, keeps inv₁ change, fits₂⟩

end Steps

end BlockScript
