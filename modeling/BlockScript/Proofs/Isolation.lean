import BlockScript.Proofs.FrameLaw
import BlockScript.Proofs.StepEffects

/-!
# Blocks without loops keep to themselves

A frame gets a parent only from a loop, or by being a copy of a frame that has one.  So as long as
no tree with a loop is read, all frames are roots (`Flat`), and an assignment never leaves the
frame in which it stands.

The body of a block runs in the frame of its call, and what it evaluates further runs in frames
that are newer.  Without parents none of this reaches a frame that was there when the body was
entered (`Session.Reachable.own?_of_body`).  The root frame is such a frame for every call, so the
variables of a program change only where an assignment is evaluated outside all bodies.
-/

set_option autoImplicit false

namespace BlockScript

/-! ## Frames without parents -/

/-- An assignment in a frame without a parent binds the name there. -/
theorem Store.assign_eq_bind_of_root {s : Store} {f : FrameId} (root : s.parent f = none)
    (name : String) (v : Value) : s.assign f name v = s.bind f name v := by
  rw [assign]
  cases s.frames.size with
  | zero => rfl
  | succ steps =>
      rw [assignWithin, root]
      split <;> rfl

/-- A store without parents is a forest. -/
theorem Store.forest_of_roots {s : Store} (roots : ∀ f, s.parent f = none) : s.Forest := by
  intro f p link
  cases (roots f).symm.trans link

/-- A scene with blocks that have no loops in them, and with no frame below another. -/
structure Flat (w : Scene) : Prop where
  made : w.MadeOf fun n => n.isLoop = false
  roots : ∀ f, w.store.parent f = none
  scopes : ∀ f ∈ w.scopes, w.store.Has f

namespace Flat

variable {w w' : Scene}

/-- The scene of a session that has done nothing yet. -/
theorem fresh : Flat ⟨{⟨0⟩}, ∅, (Store.empty.newFrame none).2⟩ where
  made := (Store.madeOf_fresh 0).scene _
  roots f := by
    change (Interpreter.fresh 0).store.parent f = none
    rw [Store.parent, Store.frame_fresh]
    rfl
  scopes f member := by
    obtain rfl : f = ⟨0⟩ := member
    decide

/-- **Every change of a scene without loops keeps all frames without parents.** -/
theorem change (flat : Flat w) (change : Change (fun n => n.isLoop = false) w w') : Flat w' := by
  have made := flat.made.change change
  have copied : ∀ f g, (w.store.snapshot f).2.parent g = none := by
    intro f g
    rw [Store.snapshot, Store.parent_add]
    split
    · exact flat.roots f
    · exact flat.roots g
  cases change with
  | stay => exact flat
  | read => exact ⟨made, flat.roots, flat.scopes⟩
  | loop _ tree => cases tree
  | @capture f d _ _ =>
      refine ⟨made, fun g => ?_, fun g scope => Store.has_capture.mpr (.inl (flat.scopes g scope))⟩
      rw [Store.parent_capture]
      split
      · exact flat.roots f
      · exact flat.roots g
  | call =>
      refine ⟨made, copied _, ?_⟩
      rintro g (rfl | scope)
      · exact Store.has_add.mpr (.inr rfl)
      · exact Store.has_add.mpr (.inl (flat.scopes g scope))
  | bind =>
      exact ⟨made, fun g => (Store.parent_bind _ _ _ _ g).trans (flat.roots g),
        fun g scope => Store.has_bind.mpr (flat.scopes g scope)⟩
  | @assign f name v _ _ =>
      have assigned := Store.assign_eq_bind_of_root (flat.roots f) name v
      refine ⟨made, fun g => ?_, fun g scope => ?_⟩
      · rw [assigned, Store.parent_bind]
        exact flat.roots g
      · rw [assigned]
        exact Store.has_bind.mpr (flat.scopes g scope)

end Flat

namespace Session.Reachable

/-- **A session that has read no loop is flat.** -/
theorem flat {σ : Session} (reachable : σ.Reachable)
    (loopFree : ∀ tree ∈ σ.programs, tree.LoopFree) :
    ∃ w, Flat w ∧ σ.In (fun n => n.isLoop = false) w :=
  reachable.keeps Flat.fresh (fun _ _ flat => flat.change) (fun _ flat => flat.made.bodies) loopFree

theorem parent_eq_none {σ : Session} (reachable : σ.Reachable)
    (loopFree : ∀ tree ∈ σ.programs, tree.LoopFree) (f : FrameId) : σ.store.parent f = none := by
  obtain ⟨w, flat, inside⟩ := reachable.flat loopFree
  rw [inside.store]
  exact flat.roots f

end Session.Reachable

/-! ## Bodies -/

/-- After the arguments a call runs its body in its own frame, or fails. -/
theorem Config.fits_body {limit : Nat} {call : Call} {parameters : List String}
    {arguments : List (Node DefId)} {m : Machine} {c : Config}
    (done : parameters = [] ∨ arguments = [])
    (stepped : step limit ⟨.arguments call parameters arguments, [], m⟩ = some c) :
    c.Fits (fun _ => True) ⟨{call.inner}, ∅, m.store⟩ := by
  cases parameters with
  | nil =>
      cases stepped
      exact ⟨rfl, ⟨Node.everyAll_of_forall (fun _ => trivial) _, rfl, .inl Value.plain_nil⟩,
        List.forall_mem_singleton.mpr trivial⟩
  | cons parameter parameters =>
      obtain rfl : arguments = [] := done.resolve_left (List.cons_ne_nil _ _)
      cases stepped
      exact ⟨rfl, trivial, fun _ pending => by cases pending⟩

namespace Session.Reachable

variable {i : Interpreter} {programs : List (Node DefId)}

/-- **From the last argument of a call to its end the frames that are there keep their bindings**,
except the frame of the call. -/
theorem own?_of_body {call : Call} {parameters : List String} {arguments : List (Node DefId)}
    {stack : List Pending} {m : Machine}
    (reachable : (running i programs ⟨.arguments call parameters arguments, stack, m⟩).Reachable)
    (loopFree : ∀ tree ∈ programs, tree.LoopFree) (done : parameters = [] ∨ arguments = [])
    {c : Config}
    (body : StepsAbove i.limit stack ⟨.arguments call parameters arguments, stack, m⟩ c)
    {g : FrameId} (old : m.store.Has g) (other : g ≠ call.inner) (name : String) :
    c.store.own? g name = m.store.own? g name := by
  obtain ⟨w, flat, _, fits⟩ := reachable.flat loopFree
  have store : m.store = w.store := fits.store
  have roots : ∀ f, m.store.parent f = none := store ▸ flat.roots
  have inner : m.store.Has call.inner := store ▸ flat.scopes _ fits.focus.2.2.2
  obtain ⟨d, run, rfl⟩ :=
    (stepsAbove_iff (c := ⟨.arguments call parameters arguments, [], m⟩)).mp body
  rcases run.cases_head with rfl | ⟨e, first, rest⟩
  · rfl
  · obtain ⟨w', guarded, last⟩ :=
      Guarded.steps (Store.forest_of_roots roots) inner (Config.fits_body done first) rest
    have childless : ∀ h, m.store.parent h ≠ some g := by
      intro h
      rw [roots h]
      simp
    calc d.store.own? g name = w'.store.own? g name := by rw [last]
      _ = m.store.own? g name := guarded.spares.bindings g old other childless name

/-! ## The root frame -/

theorem has_root {σ : Session} (reachable : σ.Reachable)
    (loopFree : ∀ tree ∈ σ.programs, tree.LoopFree) : σ.store.Has σ.interpreter.root := by
  obtain ⟨w, flat, inside⟩ := reachable.flat loopFree
  rw [inside.store]
  cases σ with
  | idle => exact flat.scopes _ inside.1
  | running => exact flat.scopes _ inside.1

variable {c c' : Config} {name : String}

/-- The frames of calls are never the root frame. -/
theorem writes (reachable : (running i programs c).Reachable)
    (loopFree : ∀ tree ∈ programs, tree.LoopFree) :
    c.Writes (fun _ => True) fun f => f ≠ i.root := by
  obtain ⟨node, _, idle, run⟩ := reachable.began
  have root : i.store.Has i.root := idle.has_root loopFree
  have new : c.Writes (fun _ => True) fun f => ¬ i.store.Has f :=
    run.writes fun _ _ _ _ _ _ => trivial
  exact new.mono fun f fresh same => fresh (same ▸ root)

/-- Only an assignment that stands in the root frame changes a binding there. -/
theorem assign_of_root_changed (reachable : (running i programs c).Reachable)
    (loopFree : ∀ tree ∈ programs, tree.LoopFree) (stepped : step i.limit c = some c')
    (changed : c'.store.own? i.root name ≠ c.store.own? i.root name) :
    ∃ v stack m, c = ⟨.give (.ok v), .assign name i.root :: stack, m⟩ := by
  have root : c.store.Has i.root := reachable.has_root loopFree
  have free : ∀ call parameter parameters arguments stack,
      c.stack = .argument call parameter parameters arguments :: stack → call.inner ≠ i.root := by
    intro call parameter parameters arguments stack top
    exact (reachable.writes loopFree).stack (.argument call parameter parameters arguments)
      (top ▸ List.mem_cons_self ..)
  by_contra unassigned
  refine changed ((effect_of_step stepped).own?_eq root free ?_)
  -- An assignment that stands in another frame stays there, because that frame has no parent.
  intro g stack v focus top
  obtain ⟨_, _, m⟩ := c
  cases focus
  cases top
  cases stepped
  have here : m.store.parent g = none := reachable.parent_eq_none loopFree g
  have elsewhere : i.root ≠ g := by
    rintro rfl
    exact unassigned ⟨v, stack, m, rfl⟩
  refine changed ?_
  change (m.store.assign g name v).own? i.root name = m.store.own? i.root name
  rw [Store.assign_eq_bind_of_root here, Store.own?, Store.frame_bind_of_ne elsewhere]
  rfl

/-- Inside the body of a block no binding of the root frame changes. -/
theorem root_kept_of_leave (reachable : (running i programs c).Reachable)
    (loopFree : ∀ tree ∈ programs, tree.LoopFree) {base : List Pending}
    (inside : .leave :: base <:+ c.stack) (stepped : step i.limit c = some c')
    (further : base <:+ c'.stack) (name : String) :
    c'.store.own? i.root name = c.store.own? i.root name := by
  obtain ⟨node, member, idle, run⟩ := reachable.began
  obtain ⟨call, rest, m, start, body⟩ := run.entered inside
  have entry : (running i programs ⟨.arguments call [] rest, base, m⟩).Reachable :=
    idle.later (.head (.start member) (later_of_steps start programs))
  have root : m.store.Has i.root := entry.has_root loopFree
  have other : i.root ≠ call.inner := (entry.writes loopFree).focus.symm
  calc c'.store.own? i.root name
      = m.store.own? i.root name :=
        entry.own?_of_body loopFree (.inl rfl) (body.tail ⟨stepped, further⟩) root other name
    _ = c.store.own? i.root name :=
        (entry.own?_of_body loopFree (.inl rfl) body root other name).symm

end Session.Reachable

/-- **Blocks without loops change nothing outside themselves.**  In a session that has read no
loop no frame has a parent.  From the moment when the arguments of a call have been evaluated until
the call has ended, with a value or with an error, all frames that there are keep their bindings
and get no new ones, except the frame of the call.  And what changes a variable of the root frame
is an assignment that is not inside the body of a block. -/
theorem loopFree_blocks_isolated {σ : Session} (reachable : σ.Reachable)
    (loopFree : ∀ tree ∈ σ.programs, tree.LoopFree) :
    (∀ f, σ.store.parent f = none) ∧
    (∀ i programs call parameters arguments stack m,
      σ = .running i programs ⟨.arguments call parameters arguments, stack, m⟩ →
      parameters = [] ∨ arguments = [] →
      ∀ c, StepsAbove i.limit stack ⟨.arguments call parameters arguments, stack, m⟩ c →
        ∀ f, m.store.Has f → f ≠ call.inner →
          ∀ name, c.store.own? f name = m.store.own? f name) ∧
    (∀ σ' name, σ.Next σ' →
      σ'.store.own? σ.interpreter.root name ≠ σ.store.own? σ.interpreter.root name →
      ∃ i programs v stack m,
        σ = .running i programs ⟨.give (.ok v), .assign name i.root :: stack, m⟩ ∧
          .leave ∉ stack) := by
  refine ⟨reachable.parent_eq_none loopFree, ?_, ?_⟩
  · rintro i programs call parameters arguments stack m rfl done c body f old other name
    exact reachable.own?_of_body loopFree done body old other name
  · intro σ' name next changed
    cases next with
    | limit | read | start | finish => exact absurd rfl changed
    | @step i programs c c' stepped =>
        obtain ⟨v, stack, m, rfl⟩ := reachable.assign_of_root_changed loopFree stepped changed
        refine ⟨i, programs, v, stack, m, rfl, fun member => changed ?_⟩
        obtain ⟨above, base, rfl⟩ := List.append_of_mem member
        cases stepped
        exact reachable.root_kept_of_leave loopFree ⟨.assign name i.root :: above, rfl⟩ rfl
          ⟨above ++ [.leave], List.append_assoc above [.leave] base⟩ name

/-- The inner block of the source `c=1;f={|x|c=x;c};g={|h|c=5;h(2)};g(f)`, which assigns its
argument to `c`. -/
def innerSetter : Definition := ⟨⟨0⟩, ["x"], [.assign "c" (.var "x"), .var "c"]⟩

/-- The outer block of that source, which assigns to `c` and then calls its argument. -/
def outerSetter : Definition := ⟨⟨1⟩, ["h"], [.assign "c" (.int 5), .call "h" [.int 2]]⟩

/-- Whether a tree is that of the source. -/
def isNestedSetters : Node Unit → Bool
  | .list [.assign "c" (.int 1),
      .assign "f" (.block () ["x"] [.assign "c" (.var "x"), .var "c"]),
      .assign "g" (.block () ["h"] [.assign "c" (.int 5), .call "h" [.int 2]]),
      .call "g" [.var "f"]] => true
  | _ => false

/-- The machine when the argument of the outer call has been bound. -/
def setterMachine : Machine :=
  let first := ((Interpreter.fresh 2).store.assign ⟨0⟩ "c" (.int 1)).capture innerSetter ⟨0⟩
  let second := (first.2.assign ⟨0⟩ "f" first.1).capture outerSetter ⟨0⟩
  let called := (second.2.assign ⟨0⟩ "g" second.1).snapshot ⟨2⟩
  ⟨called.2.bind ⟨3⟩ "h" first.1, 0⟩

/-- The machine when the outer call has ended. -/
def setterEnd : Machine :=
  let called := (setterMachine.store.assign ⟨3⟩ "c" (.int 5)).snapshot ⟨1⟩
  ⟨(called.2.bind ⟨4⟩ "x" (.int 2)).assign ⟨4⟩ "c" (.int 2), 0⟩

/-- The outer call. -/
def setterCall : Call := ⟨.arity "g" 1 1, outerSetter.body, ⟨0⟩, ⟨3⟩⟩

/-- A session that is about to enter the body of the outer call. -/
def setterSession : Session :=
  .running { Interpreter.fresh 2 with nextDefinition := 2 }
    [.list [.assign "c" (.int 1), .assign "f" innerSetter.literal, .assign "g" outerSetter.literal,
      .call "g" [.var "f"]]]
    ⟨.arguments setterCall [] [], [.statements [] ⟨0⟩], setterMachine⟩

/-- Both blocks assign to `c` in the frames of their calls, and `c` of the root frame stays what
it is. -/
theorem loopFree_blocks_isolated_setters :
    setterSession.Reachable ∧ (∀ tree ∈ setterSession.programs, tree.LoopFree) ∧
      StepsAbove 2 [.statements [] ⟨0⟩]
        ⟨.arguments setterCall [] [], [.statements [] ⟨0⟩], setterMachine⟩
        ⟨.give (.ok (.int 2)), [.statements [] ⟨0⟩], setterEnd⟩ ∧
      setterEnd.store.own? ⟨3⟩ "c" = some (.int 5) ∧
      setterEnd.store.own? ⟨4⟩ "c" = some (.int 2) ∧
      setterEnd.store.own? ⟨0⟩ "c" = some (.int 1) := by
  have read : (parse "c=1;f={|x|c=x;c};g={|h|c=5;h(2)};g(f)").toOption.map isNestedSetters =
      some true := by
    decide +kernel
  obtain ⟨tree, parsed, shape⟩ := Option.map_eq_some_iff.mp read
  have reachable : setterSession.Reachable := by
    unfold isNestedSetters at shape
    split at shape
    · cases outcome : parse "c=1;f={|x|c=x;c};g={|h|c=5;h(2)};g(f)" with
      | error e => simp [outcome, Except.toOption] at parsed
      | ok tree' =>
          simp only [outcome, Except.toOption, Option.some.injEq] at parsed
          subst parsed
          refine ⟨2, .head (.read outcome) (.head (.start (List.mem_cons_self ..)) ?_)⟩
          iterate 21 refine .head (.step rfl) ?_
          exact .refl
    · cases shape
  have loopFree : ∀ tree ∈ setterSession.programs, tree.LoopFree := by decide
  have run : Steps 2 ⟨.arguments setterCall [] [], [], setterMachine⟩
      ⟨.give (.ok (.int 2)), [], setterEnd⟩ := by
    iterate 25 refine .head rfl ?_
    exact .refl
  have above := run.above [.statements [] ⟨0⟩]
  have kept := (loopFree_blocks_isolated reachable loopFree).2.1 _ _ _ _ _ _ _ rfl (.inl rfl) _
    above ⟨0⟩ (by decide) (by decide) "c"
  exact ⟨reachable, loopFree, above, rfl, rfl, kept⟩

end BlockScript
