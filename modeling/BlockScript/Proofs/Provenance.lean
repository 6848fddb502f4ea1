import BlockScript.Proofs.Scenes
import BlockScript.Proofs.Session

/-!
# Where blocks come from

A block that an evaluation meets was made by a literal, and the literal stood in a tree that was
evaluated.  So what is true of all the nodes of those trees is true of all the nodes of every
block that stands in a frame or is held (`Scene.MadeOf`), and in particular of the body that runs
when the block is called.  This is how a property of the trees that are read reaches the bodies
that come out of the store.

The property is carried along the numbering of a tree (`Node.Every.number`), along the changes of
a scene (`Scene.MadeOf.change`) and, with any other invariant of scenes, along a whole session
(`Session.Reachable.keeps`).
-/

set_option autoImplicit false

namespace BlockScript

/-! ## Stores, without a word about parents -/

namespace Store

/-- What is looked up is `nil` or stands in some frame. -/
theorem lookupWithin_stored (s : Store) (name : String) (steps : Nat) (f : FrameId) :
    s.lookupWithin name steps f = .nil ∨
      ∃ g, s.own? g name = some (s.lookupWithin name steps f) := by
  induction steps generalizing f with
  | zero => exact .inl rfl
  | succ steps ih =>
      rw [lookupWithin]
      cases own : s.own? f name with
      | some value => exact .inr ⟨f, own⟩
      | none =>
          cases s.parent f with
          | some p => exact ih p
          | none => exact .inl rfl

theorem stored_of_lookup {s : Store} {f own : FrameId} {name : String} {d : Definition}
    (found : s.lookup f name = .block d own) : ∃ g, s.own? g name = some (.block d own) := by
  rcases s.lookupWithin_stored name s.frames.size f with nothing | ⟨g, bound⟩
  · cases found.symm.trans nothing
  · exact ⟨g, bound.trans (congrArg some found)⟩

/-- An assignment binds the name in some frame, whatever the value is. -/
theorem assignWithin_eq_bind (s : Store) (name : String) (steps : Nat) (f : FrameId) :
    ∃ target, ∀ v, s.assignWithin name v steps f = s.bind target name v := by
  induction steps generalizing f with
  | zero => exact ⟨f, fun _ => rfl⟩
  | succ steps ih =>
      simp only [assignWithin]
      split
      · exact ⟨f, fun _ => rfl⟩
      · cases s.parent f with
        | some p => exact ih p
        | none => exact ⟨f, fun _ => rfl⟩

theorem assign_eq_bind (s : Store) (f : FrameId) (name : String) :
    ∃ target, ∀ v, s.assign f name v = s.bind target name v :=
  s.assignWithin_eq_bind name s.frames.size f

/-- A binding in a frame that does not exist is lost. -/
theorem bind_of_not_has {s : Store} {target : FrameId} (missing : ¬ s.Has target) (name : String)
    (v : Value) : s.bind target name v = s := by
  have outside : ¬ target.index < s.frames.size := missing
  simp only [bind, Array.modify, Array.modifyM, outside, ↓reduceDIte]
  rfl

/-- What stands in a frame after a binding is the value bound or stood there before. -/
theorem eq_or_own?_of_bind {s : Store} {target f : FrameId} {name other : String} {v w : Value}
    (bound : (s.bind target name v).own? f other = some w) :
    w = v ∨ s.own? f other = some w := by
  by_cases has : s.Has target
  · rw [own?_bind has] at bound
    split at bound
    · exact .inl (Option.some.inj bound).symm
    · exact .inr bound
  · rw [bind_of_not_has has] at bound
    exact .inr bound

end Store

/-! ## Properties of trees -/

namespace Node

variable {δ : Type} {p : Node δ → Prop} {q : Node DefId → Prop}

theorem Every.here {node : Node δ} (every : node.Every p) : p node := by
  cases node with
  | list | loop | branch | branchElse | block | call | assign | logic | compare | arith =>
      exact every.1
  | var | int | float | bool => exact every

mutual
/-- A property that numbering carries from each node to its numbered form is carried from the
whole tree. -/
theorem Every.number (carries : ∀ n next, p n → q (n.number (fun _ => none) next).1) :
    ∀ {node : Node δ}, node.Every p → ∀ next, (node.number (fun _ => none) next).1.Every q
  | .list s, ⟨here, all⟩, next => ⟨carries (.list s) next here, EveryAll.number carries all _⟩
  | .loop a b c d, ⟨here, start, test, step, body⟩, next =>
      ⟨carries (.loop a b c d) next here, start.number carries _, test.number carries _,
        step.number carries _, EveryAll.number carries body _⟩
  | .branch a b, ⟨here, test, yes⟩, next =>
      ⟨carries (.branch a b) next here, test.number carries _, EveryAll.number carries yes _⟩
  | .branchElse a b c, ⟨here, test, yes, no⟩, next =>
      ⟨carries (.branchElse a b c) next here, test.number carries _,
        EveryAll.number carries yes _, EveryAll.number carries no _⟩
  | .block a b c, ⟨here, body⟩, next =>
      ⟨carries (.block a b c) next here, EveryAll.number carries body _⟩
  | .call a b, ⟨here, arguments⟩, next =>
      ⟨carries (.call a b) next here, EveryAll.number carries arguments _⟩
  | .assign a b, ⟨here, value⟩, next => ⟨carries (.assign a b) next here, value.number carries _⟩
  | .var a, here, next => carries (.var a) next here
  | .logic a b c, ⟨here, left, right⟩, next =>
      ⟨carries (.logic a b c) next here, left.number carries _, right.number carries _⟩
  | .compare a b c, ⟨here, left, right⟩, next =>
      ⟨carries (.compare a b c) next here, left.number carries _, right.number carries _⟩
  | .arith a b c, ⟨here, left, right⟩, next =>
      ⟨carries (.arith a b c) next here, left.number carries _, right.number carries _⟩
  | .int a, here, next => carries (.int a) next here
  | .float a, here, next => carries (.float a) next here
  | .bool a, here, next => carries (.bool a) next here

theorem EveryAll.number (carries : ∀ n next, p n → q (n.number (fun _ => none) next).1) :
    ∀ {nodes : List (Node δ)}, EveryAll p nodes →
      ∀ next, EveryAll q (numberAll (fun _ => none) nodes next).1
  | [], _, _ => trivial
  | _ :: _, ⟨first, rest⟩, _ => ⟨first.number carries _, EveryAll.number carries rest _⟩
end

end Node

namespace Node

variable {δ : Type}

/-- Whether a node is a loop. -/
def isLoop : Node δ → Bool
  | .loop .. => true
  | _ => false

/-- A tree without a loop, in the bodies of its block literals either. -/
def LoopFree (node : Node δ) : Prop := node.Every fun n => n.isLoop = false

theorem isLoop_number (n : Node δ) (next : Nat) :
    (n.number (fun _ => none) next).1.isLoop = n.isLoop := by
  cases n <;> rfl

theorem LoopFree.number {node : Node δ} (loopFree : node.LoopFree) (next : Nat) :
    (node.number (fun _ => none) next).1.LoopFree :=
  Every.number (fun n next straight => (n.isLoop_number next).trans straight) loopFree next

section Decide

variable (p : Node δ → Prop) [DecidablePred p]

mutual
/-- A property that can be decided of each node can be decided of all nodes of a tree. -/
def decideEvery : ∀ node : Node δ, Decidable (Every p node)
  | .list s => @instDecidableAnd _ _ _ (decideEveryAll s)
  | .loop a b c d =>
      @instDecidableAnd _ _ _ (@instDecidableAnd _ _ (decideEvery a)
        (@instDecidableAnd _ _ (decideEvery b)
          (@instDecidableAnd _ _ (decideEvery c) (decideEveryAll d))))
  | .branch a b =>
      @instDecidableAnd _ _ _ (@instDecidableAnd _ _ (decideEvery a) (decideEveryAll b))
  | .branchElse a b c =>
      @instDecidableAnd _ _ _ (@instDecidableAnd _ _ (decideEvery a)
        (@instDecidableAnd _ _ (decideEveryAll b) (decideEveryAll c)))
  | .block _ _ b => @instDecidableAnd _ _ _ (decideEveryAll b)
  | .call _ b => @instDecidableAnd _ _ _ (decideEveryAll b)
  | .assign _ b => @instDecidableAnd _ _ _ (decideEvery b)
  | .var a => inferInstanceAs (Decidable (p (.var a)))
  | .logic _ a b => @instDecidableAnd _ _ _ (@instDecidableAnd _ _ (decideEvery a) (decideEvery b))
  | .compare _ a b =>
      @instDecidableAnd _ _ _ (@instDecidableAnd _ _ (decideEvery a) (decideEvery b))
  | .arith _ a b => @instDecidableAnd _ _ _ (@instDecidableAnd _ _ (decideEvery a) (decideEvery b))
  | .int a => inferInstanceAs (Decidable (p (.int a)))
  | .float a => inferInstanceAs (Decidable (p (.float a)))
  | .bool a => inferInstanceAs (Decidable (p (.bool a)))

/-- The same for a row of trees. -/
def decideEveryAll : ∀ nodes : List (Node δ), Decidable (EveryAll p nodes)
  | [] => .isTrue trivial
  | node :: rest => @instDecidableAnd _ _ (decideEvery node) (decideEveryAll rest)
end

instance : DecidablePred (Every p) := decideEvery p

end Decide

instance (node : Node δ) : Decidable node.LoopFree :=
  inferInstanceAs (Decidable (Every _ node))

end Node

/-! ## Blocks and their literals -/

/-- The literal that makes blocks of a definition. -/
def Definition.literal (d : Definition) : Node DefId := .block d.id d.parameters d.body

section MadeOf

variable (p : Node DefId → Prop)

/-- Every block that stands in a frame was made by a literal all of whose nodes have the
property. -/
def Store.MadeOf (s : Store) : Prop :=
  ∀ ⦃f : FrameId⦄ ⦃name : String⦄ ⦃d : Definition⦄ ⦃g : FrameId⦄,
    s.own? f name = some (.block d g) → d.literal.Every p

/-- The same for the blocks that an evaluation holds. -/
structure Scene.MadeOf (w : Scene) : Prop where
  stored : w.store.MadeOf p
  held : ∀ d g, .block d g ∈ w.values → d.literal.Every p

end MadeOf

variable {p : Node DefId → Prop}

namespace Store.MadeOf

variable {s : Store}

theorem lookup (made : s.MadeOf p) {f own : FrameId} {name : String} {d : Definition}
    (found : s.lookup f name = .block d own) : d.literal.Every p := by
  obtain ⟨g, bound⟩ := stored_of_lookup found
  exact made bound

theorem add (made : s.MadeOf p) {frame : Frame}
    (bindings : ∀ name d g, frame.bindings.get? name = some (.block d g) → d.literal.Every p) :
    (s.add frame).2.MadeOf p := by
  intro f name d g bound
  rw [own?_add] at bound
  split at bound
  · exact bindings name d g bound
  · exact made bound

theorem snapshot (made : s.MadeOf p) (f : FrameId) : (s.snapshot f).2.MadeOf p :=
  made.add fun _ _ _ bound => made bound

theorem bind (made : s.MadeOf p) {v : Value} (value : ∀ d g, v = .block d g → d.literal.Every p)
    (target : FrameId) (name : String) : (s.bind target name v).MadeOf p := by
  intro f other d g bound
  rcases eq_or_own?_of_bind bound with block | before
  · exact value d g block.symm
  · exact made before

theorem capture (made : s.MadeOf p) {d : Definition} (literal : d.literal.Every p) (f : FrameId) :
    (s.capture d f).2.MadeOf p := by
  intro g name e h bound
  rw [own?_capture] at bound
  split at bound
  · split at bound
    · cases bound
      exact literal
    · exact made bound
  · exact made bound

end Store.MadeOf

namespace Scene.MadeOf

variable {w w' : Scene}

theorem of_holds (made : w.MadeOf p) {v : Value} (held : w.Holds v) (d : Definition) (g : FrameId)
    (block : v = .block d g) : d.literal.Every p := by
  subst block
  rcases held with plain | member
  · exact absurd rfl (plain d g)
  · exact made.held d g member

/-- **Every change of the scene keeps to blocks that were made so.** -/
theorem change (made : w.MadeOf p) (change : Change p w w') : w'.MadeOf p := by
  cases change with
  | stay => exact made
  | read =>
      refine ⟨made.stored, ?_⟩
      rintro d g (block | member)
      · exact made.stored.lookup block.symm
      · exact made.held d g member
  | loop => exact ⟨made.stored.add fun _ _ _ bound => (by cases bound), made.held⟩
  | capture _ tree =>
      refine ⟨made.stored.capture tree _, ?_⟩
      rintro d g (block | member)
      · cases block
        exact tree
      · exact made.held d g member
  | call => exact ⟨made.stored.snapshot _, made.held⟩
  | bind _ held => exact ⟨made.stored.bind (made.of_holds held) _ _, made.held⟩
  | @assign f name v _ held =>
      obtain ⟨target, assigned⟩ := w.store.assign_eq_bind f name
      refine ⟨?_, made.held⟩
      change (w.store.assign f name v).MadeOf p
      rw [assigned]
      exact made.stored.bind (made.of_holds held) target name

theorem bodies (made : w.MadeOf p) : w.Bodies p :=
  fun _ _ _ _ _ callee => (made.stored.lookup callee).2

end Scene.MadeOf

/-- An evaluation of a node begins with its frame as the only scope. -/
theorem Config.fits_of_every {n : Node DefId} (tree : n.Every p) (f : FrameId) (m : Machine) :
    (⟨.node n f, [], m⟩ : Config).Fits p ⟨{f}, ∅, m.store⟩ :=
  ⟨rfl, ⟨tree, rfl⟩, fun _ member => by cases member⟩

theorem Store.MadeOf.scene {s : Store} (made : s.MadeOf p) (scopes : Set FrameId) :
    Scene.MadeOf p ⟨scopes, ∅, s⟩ :=
  ⟨made, fun _ _ member => member.elim⟩

/-- The trees in the configuration, and in all blocks that it can come to call, are made of nodes
with the property. -/
def Config.MadeOf (p : Node DefId → Prop) (c : Config) : Prop :=
  ∃ w : Scene, w.MadeOf p ∧ c.Fits p w

namespace Config.MadeOf

variable {limit : Nat} {c c' : Config}

theorem start {s : Store} (made : s.MadeOf p) {n : Node DefId} (tree : n.Every p) (f : FrameId)
    (active : Nat) : Config.MadeOf p ⟨.node n f, [], ⟨s, active⟩⟩ :=
  ⟨_, made.scene {f}, Config.fits_of_every tree f ⟨s, active⟩⟩

/-- **What an evaluation is made of, it stays made of.** -/
theorem steps (made : c.MadeOf p) (run : Steps limit c c') : c'.MadeOf p := by
  obtain ⟨w, inv, fits⟩ := made
  exact fits.steps (fun _ _ made change => made.change change) (fun _ made => made.bodies) inv run

theorem step (made : c.MadeOf p) (limit : Nat) (stepped : BlockScript.step limit c = some c') :
    c'.MadeOf p :=
  made.steps (.single stepped)

theorem stored (made : c.MadeOf p) : c.store.MadeOf p := by
  obtain ⟨w, inv, fits⟩ := made
  rw [fits.store]
  exact inv.stored

/-- The node that is to be evaluated next has the property. -/
theorem node (made : c.MadeOf p) {n : Node DefId} {f : FrameId} (focus : c.focus = .node n f) :
    p n := by
  obtain ⟨w, _, fits⟩ := made
  have here := fits.focus
  rw [focus] at here
  exact here.1.here

end Config.MadeOf

/-- The root frame of a fresh interpreter is blank, like the frames that do not exist. -/
theorem Store.frame_fresh (limit : Nat) (f : FrameId) :
    (Interpreter.fresh limit).store.frame f = .blank := by
  rw [Interpreter.fresh, newFrame, frame_add]
  split
  · rfl
  · exact frame_of_not_has (Nat.not_lt_zero _)

theorem Store.madeOf_fresh (limit : Nat) : (Interpreter.fresh limit).store.MadeOf p := by
  intro f name d g bound
  rw [own?, frame_fresh] at bound
  cases bound

/-! ## Sessions -/

namespace Session

/-- The trees that have been read. -/
def programs : Session → List (Node DefId)
  | idle _ programs => programs
  | running _ programs _ => programs

/-- A session in a scene that has the root frame among its scopes. -/
def In (p : Node DefId → Prop) (w : Scene) : Session → Prop
  | idle i _ => i.root ∈ w.scopes ∧ i.store = w.store
  | running i _ c => i.root ∈ w.scopes ∧ c.Fits p w

theorem In.store {w : Scene} {σ : Session} (inside : σ.In p w) : σ.store = w.store := by
  cases σ with
  | idle => exact inside.2
  | running => exact inside.2.store

/-- Trees that have been read are not forgotten. -/
theorem Next.programs_subset {σ σ' : Session} (next : Next σ σ') : σ.programs ⊆ σ'.programs := by
  cases next with
  | read => exact fun _ member => List.mem_cons_of_mem _ member
  | limit | start | step | finish => exact fun _ member => member

/-- **What every change of a scene keeps, every session keeps**, if all the trees that it has read
have the property. -/
theorem Reachable.keeps {Inv : Scene → Prop} (fresh : Inv ⟨{⟨0⟩}, ∅, (Store.empty.newFrame none).2⟩)
    (keeps : ∀ ⦃w w' : Scene⦄, Inv w → Change p w w' → Inv w')
    (bodies : ∀ ⦃w : Scene⦄, Inv w → w.Bodies p) {σ : Session} (reachable : σ.Reachable)
    (trees : ∀ node ∈ σ.programs, node.Every p) : ∃ w, Inv w ∧ σ.In p w := by
  obtain ⟨limit, later⟩ := reachable
  induction later with
  | refl => exact ⟨_, fresh, rfl, rfl⟩
  | @tail σ σ' _ next ih =>
      obtain ⟨w, inv, inside⟩ := ih fun node member => trees node (next.programs_subset member)
      cases next with
      | limit | read => exact ⟨w, inv, inside⟩
      | start member =>
          obtain ⟨root, store⟩ := inside
          exact ⟨w, inv, root, store, ⟨trees _ member, root⟩, fun _ pending => by cases pending⟩
      | step stepped =>
          obtain ⟨root, fits⟩ := inside
          obtain ⟨w', change, fits'⟩ := fits.step (bodies inv) stepped
          exact ⟨w', keeps inv change, change.extends.scopes root, fits'⟩
      | finish =>
          obtain ⟨root, fits⟩ := inside
          exact ⟨w, inv, root, fits.store⟩

end Session

end BlockScript
