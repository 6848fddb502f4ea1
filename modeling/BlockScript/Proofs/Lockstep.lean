import BlockScript.Proofs.Renaming
import BlockScript.Proofs.Stepping
import Mathlib.Logic.Equiv.Basic

/-!
# Evaluation in lockstep

An evaluation and the evaluation of the renamed tree in a store that mirrors the first one take
the same steps.  What can set them apart is only how the two stores remember captures, so that is
left open: `recalls` says how the captures of the two stores are related, and `Lockstep` asks that
the relation survive a new capture and that related captures give a call the same frame to start
from, at least in the stores that the first evaluation passes through.

Each configuration of the first evaluation has its image (`Config.Image`), a step goes from image
to image (`Lockstep.step`), and so both evaluations end or neither does (`Lockstep.ends`,
`Lockstep.ends_of_image`).

The first use is that names are opaque.  With the frames and the labels left alone and any
injective change of names that keeps `this`, the two stores have the same size and the same
captures, so nothing at all is asked of the store (`evaluation_commutes_with_renaming`).
-/

set_option autoImplicit false

namespace BlockScript

variable (R : Renaming)

/-! ## Configurations -/

/-- A call, renamed. -/
def Call.rename (call : Call) : Call :=
  ⟨call.short.rename R, Node.renameAll R call.body, R.frame call.caller, R.frame call.inner⟩

/-- What is to be done now, renamed. -/
def Focus.rename : Focus → Focus
  | .node n f => .node (n.rename R) (R.frame f)
  | .all statements f last => .all (Node.renameAll R statements) (R.frame f) (last.rename R)
  | .rounds t s b f last =>
      .rounds (t.rename R) (s.rename R) (Node.renameAll R b) (R.frame f) (last.rename R)
  | .arguments call ps as => .arguments (call.rename R) (ps.map R.name) (Node.renameAll R as)
  | .give outcome => .give (renameOutcome R outcome)

/-- Pending work, renamed. -/
def Pending.rename : Pending → Pending
  | .statements rest f => .statements (Node.renameAll R rest) (R.frame f)
  | .start t s b f => .start (t.rename R) (s.rename R) (Node.renameAll R b) (R.frame f)
  | .test t s b f last =>
      .test (t.rename R) (s.rename R) (Node.renameAll R b) (R.frame f) (last.rename R)
  | .body t s b f => .body (t.rename R) (s.rename R) (Node.renameAll R b) (R.frame f)
  | .step t s b f last =>
      .step (t.rename R) (s.rename R) (Node.renameAll R b) (R.frame f) (last.rename R)
  | .branches yes no f => .branches (Node.renameAll R yes) (Node.renameAll R no) (R.frame f)
  | .argument call parameter ps as =>
      .argument (call.rename R) (R.name parameter) (ps.map R.name) (Node.renameAll R as)
  | .leave => .leave
  | .assign name f => .assign (R.name name) (R.frame f)
  | .right k n f => .right k (n.rename R) (R.frame f)
  | .combine k l => .combine k (l.rename R)

/-- Pending work that does not see names. -/
def Pending.Commutes : Pending → Prop
  | .right k _ _ => BlockScript.Commutes R k
  | .combine k _ => BlockScript.Commutes R k
  | _ => True

/-- How the captures of two stores are related. -/
abbrev Recalls := Assoc DefId FrameId → Assoc DefId FrameId → Prop

variable (recalls : Recalls)

/-- The second store mirrors the first one, and its captures are related to those of the first. -/
structure Store.Image (s t : Store) : Prop where
  mirrors : s.Mirrors R t
  recalls : recalls s.captures t.captures

/-- The second configuration is the first one renamed, with a store that is an image. -/
structure Config.Image (c c' : Config) : Prop where
  focus : c'.focus = c.focus.rename R
  stack : c'.stack = c.stack.map (Pending.rename R)
  commutes : ∀ pending ∈ c.stack, pending.Commutes R
  active : c'.machine.active = c.machine.active
  store : c.store.Image R recalls c'.store

/-- What the two evaluations need in order to go on alike, where the first one keeps to stores
with the property `keeps`. -/
structure Lockstep (keeps : Store → Prop) : Prop where
  unbounded : ∀ {s : Store}, keeps s → s.Unbounded R
  insert : ∀ {c c' : Assoc DefId FrameId}, recalls c c' → ∀ id f,
    recalls (c.insert id f) (c'.insert (R.label id) (R.frame f))
  callFrame : ∀ {s t : Store}, keeps s → recalls s.captures t.captures →
    ∀ {f own : FrameId} {name : String} {d : Definition}, s.lookup f name = .block d own →
      t.callFrame (d.rename R) (R.frame own) = R.frame (s.callFrame d own)

variable {R recalls}

/-! ## Stores -/

namespace Store.Image

variable {s t : Store} {keeps : Store → Prop} (image : s.Image R recalls t)
include image

theorem newFrame (parent : Option FrameId) :
    (s.newFrame parent).2.Image R recalls (t.newFrame (parent.map R.frame)).2 :=
  ⟨image.mirrors.newFrame parent, image.recalls⟩

theorem snapshot (f : FrameId) :
    (s.snapshot f).2.Image R recalls (t.snapshot (R.frame f)).2 :=
  ⟨image.mirrors.snapshot f, image.recalls⟩

theorem bind (f : FrameId) (name : String) (v : Value) :
    (s.bind f name v).Image R recalls (t.bind (R.frame f) (R.name name) (v.rename R)) :=
  ⟨image.mirrors.bind f name v, image.recalls⟩

theorem assign (unbounded : s.Unbounded R) (f : FrameId) (name : String) (v : Value) :
    (s.assign f name v).Image R recalls (t.assign (R.frame f) (R.name name) (v.rename R)) := by
  obtain ⟨target, assigned, assigned'⟩ := image.mirrors.assign unbounded f name v
  rw [assigned, assigned']
  exact image.bind target name v

theorem capture_fst (d : Definition) (f : FrameId) :
    (t.capture (d.rename R) (R.frame f)).1 = (s.capture d f).1.rename R := by
  change Value.block _ t.next = Value.block _ (R.frame s.next)
  rw [image.mirrors.next]

theorem capture (lockstep : Lockstep R recalls keeps) (d : Definition) (f : FrameId) :
    (s.capture d f).2.Image R recalls (t.capture (d.rename R) (R.frame f)).2 := by
  have copied := (image.snapshot f).bind s.next selfName (.block d s.next)
  have recalled := lockstep.insert image.recalls d.id s.next
  rw [R.self] at copied
  simp only [Value.rename, ← image.mirrors.next] at copied recalled
  exact ⟨⟨copied.mirrors.size, copied.mirrors.frame⟩, recalled⟩

/-- The beginning of an evaluation and its image. -/
theorem start (node : Node DefId) (f : FrameId) (active : Nat) :
    Config.Image R recalls ⟨.node node f, [], ⟨s, active⟩⟩
      ⟨.node (node.rename R) (R.frame f), [], ⟨t, active⟩⟩ :=
  ⟨rfl, rfl, fun _ pending => (by cases pending), rfl, image⟩

end Store.Image

/-! ## Steps -/

namespace Lockstep

variable {keeps : Store → Prop} (lockstep : Lockstep R recalls keeps) {limit : Nat}
include lockstep

/-- The first steps into a node and into its renaming. -/
theorem enter {node : Node DefId} {f : FrameId} {stack : List Pending} {s t : Store} {active : Nat}
    (kept : keeps s) (commutes : ∀ pending ∈ stack, pending.Commutes R)
    (image : s.Image R recalls t) :
    (BlockScript.enter limit node f stack ⟨s, active⟩).Image R recalls
      (BlockScript.enter limit (node.rename R) (R.frame f) (stack.map (Pending.rename R))
        ⟨t, active⟩) := by
  have lookup := image.mirrors.lookup (lockstep.unbounded kept) f
  cases node with
  | list statements => exact ⟨rfl, rfl, commutes, rfl, image⟩
  | loop start test step body =>
      have next : (t.newFrame (some (R.frame f))).1 = R.frame (s.newFrame (some f)).1 :=
        image.mirrors.next
      simp only [BlockScript.enter, Node.rename, next]
      exact ⟨rfl, rfl, List.forall_mem_cons.mpr ⟨trivial, commutes⟩, rfl, image.newFrame (some f)⟩
  | branch test yes => exact ⟨rfl, rfl, List.forall_mem_cons.mpr ⟨trivial, commutes⟩, rfl, image⟩
  | branchElse test yes no =>
      exact ⟨rfl, rfl, List.forall_mem_cons.mpr ⟨trivial, commutes⟩, rfl, image⟩
  | block id parameters body =>
      refine ⟨?_, rfl, commutes, rfl, image.capture lockstep ⟨id, parameters, body⟩ f⟩
      exact congrArg (fun v => Focus.give (.ok v)) (image.capture_fst ⟨id, parameters, body⟩ f)
  | call name arguments =>
      -- The two callees are one block up to renaming, so the calls begin in the same way.
      have callee' := lookup name
      cases callee : s.lookup f name with
      | block d own =>
          rw [callee] at callee'
          by_cases full : limit ≤ active
          · rw [Node.rename, enter_call_full callee full, enter_call_full callee' full]
            exact ⟨rfl, rfl, commutes, rfl, image⟩
          · have room := Nat.not_le.mp full
            rw [Node.rename, enter_call_block callee room, enter_call_block callee' room]
            simp only [lockstep.callFrame kept image.recalls callee, image.mirrors.next]
            refine ⟨?_, rfl, commutes, rfl, image.snapshot _⟩
            simp only [Focus.rename, Call.rename, Definition.short, Definition.rename,
              EvalError.rename, List.length_map, Node.length_renameAll]
      | int | float | bool | nil | signal =>
          rw [callee] at callee'
          rw [Node.rename, enter_call_other (by simp [callee]),
            enter_call_other (by simp [callee', Value.rename])]
          exact ⟨rfl, rfl, commutes, rfl, image⟩
  | assign name value =>
      exact ⟨rfl, rfl, List.forall_mem_cons.mpr ⟨trivial, commutes⟩, rfl, image⟩
  | var name =>
      refine ⟨?_, rfl, commutes, rfl, image⟩
      exact congrArg (fun v => Focus.give (.ok v)) (lookup name)
  | logic op left right =>
      exact ⟨rfl, rfl, List.forall_mem_cons.mpr ⟨op.commutes R, commutes⟩, rfl, image⟩
  | compare op left right =>
      exact ⟨rfl, rfl, List.forall_mem_cons.mpr ⟨op.commutes R, commutes⟩, rfl, image⟩
  | arith op left right =>
      exact ⟨rfl, rfl, List.forall_mem_cons.mpr ⟨op.commutes R, commutes⟩, rfl, image⟩
  | int | float | bool => exact ⟨rfl, rfl, commutes, rfl, image⟩

/-- Going on with a value and with its renaming. -/
theorem resume {pending : Pending} {v : Value} {stack : List Pending} {s t : Store} {active : Nat}
    (kept : keeps s) (commutes : ∀ work ∈ pending :: stack, work.Commutes R)
    (image : s.Image R recalls t) :
    (BlockScript.resume pending v stack ⟨s, active⟩).Image R recalls
      (BlockScript.resume (pending.rename R) (v.rename R) (stack.map (Pending.rename R))
        ⟨t, active⟩) := by
  obtain ⟨top, below⟩ := List.forall_mem_cons.mp commutes
  cases pending with
  | statements | start | step | leave => exact ⟨rfl, rfl, below, rfl, image⟩
  | test test step body f last =>
      simp only [BlockScript.resume, Pending.rename, Value.truthy_rename]
      split
      · exact ⟨rfl, rfl, List.forall_mem_cons.mpr ⟨trivial, below⟩, rfl, image⟩
      · exact ⟨rfl, rfl, below, rfl, image⟩
  | body => exact ⟨rfl, rfl, List.forall_mem_cons.mpr ⟨trivial, below⟩, rfl, image⟩
  | branches yes no f =>
      simp only [BlockScript.resume, Pending.rename, Value.truthy_rename]
      split <;> exact ⟨rfl, rfl, below, rfl, image⟩
  | argument call parameter parameters arguments =>
      exact ⟨rfl, rfl, below, rfl, image.bind call.inner parameter v⟩
  | assign name f =>
      exact ⟨rfl, rfl, below, rfl, image.assign (lockstep.unbounded kept) f name v⟩
  | right => exact ⟨rfl, rfl, List.forall_mem_cons.mpr ⟨top, below⟩, rfl, image⟩
  | combine combine left =>
      exact ⟨congrArg Focus.give (top left v), rfl, below, rfl, image⟩

/-- **A step goes from image to image.**  A configuration has a next one exactly if its image has
one, and that is the image of the next one. -/
theorem step (limit : Nat) {c c' : Config} (kept : keeps c.store) (image : c.Image R recalls c') :
    Option.Rel (Config.Image R recalls) (BlockScript.step limit c)
      (BlockScript.step limit c') := by
  obtain ⟨focus, stack, s, active⟩ := c
  obtain ⟨focus', stack', t, active'⟩ := c'
  obtain ⟨same, stacked, commutes, count, image⟩ := image
  cases same
  cases stacked
  cases count
  cases focus with
  | node node f => exact .some (lockstep.enter kept commutes image)
  | all statements f last =>
      cases statements with
      | nil => exact .some ⟨rfl, rfl, commutes, rfl, image⟩
      | cons node rest =>
          exact .some ⟨rfl, rfl, List.forall_mem_cons.mpr ⟨trivial, commutes⟩, rfl, image⟩
  | rounds test step body f last =>
      exact .some ⟨rfl, rfl, List.forall_mem_cons.mpr ⟨trivial, commutes⟩, rfl, image⟩
  | arguments call parameters arguments =>
      cases parameters with
      | nil => exact .some ⟨rfl, rfl, List.forall_mem_cons.mpr ⟨trivial, commutes⟩, rfl, image⟩
      | cons parameter parameters =>
          cases arguments with
          | nil => exact .some ⟨rfl, rfl, commutes, rfl, image⟩
          | cons argument arguments =>
              exact .some ⟨rfl, rfl, List.forall_mem_cons.mpr ⟨trivial, commutes⟩, rfl, image⟩
  | give outcome =>
      cases stack with
      | nil => exact .none
      | cons pending stack =>
          cases outcome with
          | ok v => exact .some (lockstep.resume kept commutes image)
          | error e =>
              have below := (List.forall_mem_cons.mp commutes).2
              cases pending <;> exact .some ⟨rfl, rfl, below, rfl, image⟩

/-! ## Runs -/

/-- Every run has an image. -/
theorem steps {c c' d : Config} (kept : ∀ e, Steps limit c e → keeps e.store)
    (image : c.Image R recalls c') (run : Steps limit c d) :
    ∃ d', Steps limit c' d' ∧ d.Image R recalls d' := by
  induction run with
  | refl => exact ⟨c', .refl, image⟩
  | @tail d e before stepped ih =>
      obtain ⟨d', before', image⟩ := ih
      have next := lockstep.step limit (kept d before) image
      rw [stepped] at next
      generalize stepped' : BlockScript.step limit d' = after at next
      cases next with
      | some image => exact ⟨_, before'.tail stepped', image⟩

/-- Every run of an image is the image of a run. -/
theorem steps_of_image {c c' d' : Config} (kept : ∀ e, Steps limit c e → keeps e.store)
    (image : c.Image R recalls c') (run : Steps limit c' d') :
    ∃ d, Steps limit c d ∧ d.Image R recalls d' := by
  induction run with
  | refl => exact ⟨c, .refl, image⟩
  | @tail d' e' _ stepped' ih =>
      obtain ⟨d, before, image⟩ := ih
      have next := lockstep.step limit (kept d before) image
      rw [stepped'] at next
      generalize stepped : BlockScript.step limit d = after at next
      cases next with
      | some image => exact ⟨_, before.tail stepped, image⟩

section Ends

variable {node : Node DefId} {f : FrameId} {s t : Store} {active : Nat}
  (kept : ∀ c, Steps limit ⟨.node node f, [], ⟨s, active⟩⟩ c → keeps c.store)
  (image : s.Image R recalls t)
include kept image

/-- **If an evaluation ends, its image ends with the renamed outcome.** -/
theorem ends {outcome : Except EvalError Value} {m : Machine}
    (ends : Ends limit node f ⟨s, active⟩ outcome m) :
    ∃ t', m.store.Image R recalls t' ∧
      Ends limit (node.rename R) (R.frame f) ⟨t, active⟩ (renameOutcome R outcome)
        ⟨t', m.active⟩ := by
  obtain ⟨⟨focus, stack, t', count⟩, run, same, stacked, _, counted, image⟩ :=
    lockstep.steps kept (image.start node f active) (ends_iff_steps.mp ends)
  cases same
  cases stacked
  cases counted
  exact ⟨t', image, ends_iff_steps.mpr run⟩

/-- **If the image of an evaluation ends, so does the evaluation.** -/
theorem ends_of_image {outcome' : Except EvalError Value} {m' : Machine}
    (ends : Ends limit (node.rename R) (R.frame f) ⟨t, active⟩ outcome' m') :
    ∃ outcome m, Ends limit node f ⟨s, active⟩ outcome m ∧ outcome' = renameOutcome R outcome ∧
      m'.active = m.active ∧ m.store.Image R recalls m'.store := by
  obtain ⟨⟨focus, stack, m⟩, run, same, stacked, _, counted, image⟩ :=
    lockstep.steps_of_image kept (image.start node f active) (ends_iff_steps.mp ends)
  cases List.map_eq_nil_iff.mp stacked.symm
  cases focus with
  | give outcome =>
      exact ⟨outcome, m, ends_iff_steps.mpr run, Focus.give.inj same, counted, image⟩
  | node | all | rounds | arguments => cases same

end Ends

end Lockstep

/-! ## Names are opaque -/

/-- The renaming that changes only names. -/
def Renaming.ofNames (r : String → String) (injective : Function.Injective r)
    (self : r Store.selfName = Store.selfName) : Renaming where
  name := r
  label := id
  offset := 0
  name_injective := injective
  label_injective := Function.injective_id
  self := self

section Stores

variable (R)

/-- A store with renamed frames and captures in the same places. -/
def Store.rename (s : Store) : Store :=
  ⟨s.frames.map (Frame.rename R), s.captures.rename R.label R.frame⟩

/-- A machine with a renamed store. -/
def Machine.rename (m : Machine) : Machine := ⟨m.store.rename R, m.active⟩

/-- The captures of the second store are the renamed ones of the first, and there are no more. -/
def Renaming.CarriesOver : Recalls := fun c c' => c' = c.rename R.label R.frame

theorem Store.frame_rename (s : Store) (f : FrameId) :
    (s.rename R).frame f = (s.frame f).rename R := by
  by_cases has : f.index < s.frames.size
  · simp [Store.frame, rename, Array.getD, has]
  · simp [Store.frame, rename, Array.getD, has, Frame.blank, Frame.rename, Assoc.rename,
      Assoc.empty]

theorem Store.frames_ext {s t : Store} (size : s.frames.size = t.frames.size)
    (frame : ∀ f, s.frame f = t.frame f) : s.frames = t.frames := by
  refine Array.ext size fun i has has' => ?_
  simpa [Store.frame, Array.getD, has, has'] using frame ⟨i⟩

variable {R} (fixed : R.offset = 0)
include fixed

theorem Renaming.frame_of_fixed (f : FrameId) : R.frame f = f := by
  rw [Renaming.frame, fixed]
  rfl

theorem Store.image_iff_eq_rename {s t : Store} : s.Image R R.CarriesOver t ↔ t = s.rename R := by
  constructor
  · intro image
    have frames : t.frames = (s.rename R).frames := by
      refine frames_ext ?_ fun f => ?_
      · rw [image.mirrors.size, fixed, rename, Array.size_map]
        rfl
      · rw [frame_rename, ← image.mirrors.frame, Renaming.frame_of_fixed fixed]
    cases t
    cases frames
    cases image.recalls
    rfl
  · rintro rfl
    refine ⟨⟨?_, fun f => ?_⟩, rfl⟩
    · rw [fixed, rename, Array.size_map]
      rfl
    · rw [Renaming.frame_of_fixed fixed, frame_rename]

theorem Lockstep.of_fixed : Lockstep R R.CarriesOver fun _ => True where
  unbounded _ := .inl fixed
  insert carried id f := by
    cases carried
    exact Assoc.insert_rename R.label_injective R.frame _ id f
  callFrame {s t} _ carried {_ own _ d} _ := by
    have captured : t.captured? (R.label d.id) = (s.captured? d.id).map R.frame := by
      rw [Store.captured?, carried]
      exact Assoc.get?_rename R.label_injective R.frame _ _
    rw [Store.callFrame, Store.callFrame, Definition.rename, captured, Option.getD_map]

end Stores

/-- **Names are opaque, except `this`.**  Take any injective change of names that keeps `this`,
any tree, any frame and any machine.  The renamed tree in the renamed store ends exactly as the
tree does: with the same value, up to the names in a block, or with the same error, up to the
name of the block that was called with too few arguments, and with the renamed store.  In
particular the one ends if and only if the other does. -/
theorem evaluation_commutes_with_renaming {r : String → String} (injective : Function.Injective r)
    (self : r Store.selfName = Store.selfName) (limit : Nat) (node : Node DefId) (f : FrameId)
    (m : Machine) (outcome' : Except EvalError Value) (m' : Machine) :
    Ends limit (node.rename (.ofNames r injective self)) f (m.rename (.ofNames r injective self))
        outcome' m' ↔
      ∃ outcome m₁, Ends limit node f m outcome m₁ ∧
        outcome' = renameOutcome (.ofNames r injective self) outcome ∧
        m' = m₁.rename (.ofNames r injective self) := by
  generalize named : Renaming.ofNames r injective self = R
  have fixed : R.offset = 0 := by rw [← named, Renaming.ofNames]
  have lockstep := Lockstep.of_fixed fixed
  have start : m.store.Image R R.CarriesOver (m.store.rename R) :=
    (Store.image_iff_eq_rename fixed).mpr rfl
  constructor
  · intro ends
    rw [← Renaming.frame_of_fixed fixed f] at ends
    obtain ⟨outcome, m₁, ends, same, count, image⟩ :=
      lockstep.ends_of_image (fun _ _ => trivial) start ends
    refine ⟨outcome, m₁, ends, same, ?_⟩
    cases m'
    cases (Store.image_iff_eq_rename fixed).mp image
    cases count
    rfl
  · rintro ⟨outcome, m₁, ends, rfl, rfl⟩
    obtain ⟨t, image, ends⟩ := lockstep.ends (fun _ _ => trivial) start ends
    rw [(Store.image_iff_eq_rename fixed).mp image, Renaming.frame_of_fixed fixed] at ends
    exact ends

/-- The names `f` and `g` change places, in the tree, in the store and in the error. -/
theorem evaluation_commutes_with_renaming_swap :
    Equiv.swap "f" "g" Store.selfName = Store.selfName ∧
    (∃ m, Ends 2 (.call "g" []) ⟨0⟩
      ⟨⟨#[⟨⟨[("g", .block ⟨⟨0⟩, ["f", "x"], [.var "f"]⟩ ⟨0⟩)]⟩, none⟩], .empty⟩, 0⟩
      (.error (.arity "g" 2 0)) m) ∧
    ∃ m', Ends 2 (.call "f" []) ⟨0⟩
      ⟨⟨#[⟨⟨[("f", .block ⟨⟨0⟩, ["g", "x"], [.var "g"]⟩ ⟨0⟩)]⟩, none⟩], .empty⟩, 0⟩
      (.error (.arity "f" 2 0)) m' := by
  have self : Equiv.swap "f" "g" Store.selfName = Store.selfName := by decide
  have short : ∃ m, Ends 2 (.call "g" []) ⟨0⟩
      ⟨⟨#[⟨⟨[("g", .block ⟨⟨0⟩, ["f", "x"], [.var "f"]⟩ ⟨0⟩)]⟩, none⟩], .empty⟩, 0⟩
      (.error (.arity "g" 2 0)) m := ⟨_, 2, rfl⟩
  refine ⟨self, short, ?_⟩
  obtain ⟨m, ends⟩ := short
  have renamed := (evaluation_commutes_with_renaming (Equiv.injective _) self 2 _ _ _ _ _).mpr
    ⟨_, m, ends, rfl, rfl⟩
  have other : Equiv.swap "f" "g" "x" = "x" := by decide
  simp only [Node.rename, Node.renameAll, Machine.rename, Store.rename, Frame.rename, Assoc.rename,
    List.map_toArray, List.map_cons, List.map_nil, Prod.map, Value.rename, Definition.rename,
    renameOutcome, EvalError.rename, Renaming.ofNames, Equiv.swap_apply_left,
    Equiv.swap_apply_right, other] at renamed
  exact ⟨_, renamed⟩

end BlockScript
