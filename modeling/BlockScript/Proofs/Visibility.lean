import BlockScript.Proofs.StepEffects
import Mathlib.Data.Option.Basic

/-!
# What an evaluation sees of a store

An evaluation reads and assigns only names that its trees mention.  Two stores with the same
frames, links and captures that agree on those names look the same to it: looking such a name up
gives the same value, and an assignment to it finds the same target.  The other bindings may
differ everywhere, because whole frames are copied into captures and into the frames of calls, so
the stores are compared frame by frame and name by name (`Store.Agrees`).

From agreeing configurations the steps lead to agreeing configurations (`Config.Agrees.step`), so
both evaluations end, with the same outcome, or neither does (`Ends.of_agrees`).  And a binding of
a name that the trees do not mention stays as it is in every frame that was there before
(`Steps.own?_of_hidden`).
-/

set_option autoImplicit false

namespace BlockScript

/-! ## The names in a tree -/

namespace Node

variable {δ : Type}

/-- The names that a node mentions itself, those in its parts not counted. -/
def names : Node δ → List String
  | .block _ parameters _ => parameters
  | .call name _ => [name]
  | .assign name _ => [name]
  | .var name => [name]
  | _ => []

mutual
/-- The identifiers that occur in a tree. -/
def identifiers : Node δ → List String
  | .list statements => identifiersAll statements
  | .loop start test step body =>
      identifiers start ++ identifiers test ++ identifiers step ++ identifiersAll body
  | .branch test yes => identifiers test ++ identifiersAll yes
  | .branchElse test yes no => identifiers test ++ identifiersAll yes ++ identifiersAll no
  | .block _ parameters body => parameters ++ identifiersAll body
  | .call name arguments => name :: identifiersAll arguments
  | .assign name value => name :: identifiers value
  | .var name => [name]
  | .logic _ left right => identifiers left ++ identifiers right
  | .compare _ left right => identifiers left ++ identifiers right
  | .arith _ left right => identifiers left ++ identifiers right
  | .int _ => []
  | .float _ => []
  | .bool _ => []

/-- The identifiers that occur in a row of trees. -/
def identifiersAll : List (Node δ) → List String
  | [] => []
  | node :: rest => identifiers node ++ identifiersAll rest
end

/-- A node that mentions only the given names itself. -/
def Keeps (names : String → Prop) (node : Node δ) : Prop := ∀ name ∈ node.names, names name

variable {names : String → Prop}

mutual
/-- If all the identifiers of a tree are among some names, then every node keeps to them. -/
theorem every_keeps : ∀ (node : Node δ), (∀ name ∈ node.identifiers, names name) →
    node.Every (Keeps names)
  | .list statements, all => ⟨by simp [Keeps, Node.names], everyAll_keeps statements all⟩
  | .loop start test step body, all => by
      simp only [identifiers, List.mem_append, or_imp, forall_and] at all
      obtain ⟨⟨⟨first, second⟩, third⟩, fourth⟩ := all
      exact ⟨by simp [Keeps, Node.names], every_keeps start first, every_keeps test second,
        every_keeps step third, everyAll_keeps body fourth⟩
  | .branch test yes, all => by
      obtain ⟨first, second⟩ := List.forall_mem_append.mp all
      exact ⟨by simp [Keeps, Node.names], every_keeps test first, everyAll_keeps yes second⟩
  | .branchElse test yes no, all => by
      simp only [identifiers, List.mem_append, or_imp, forall_and] at all
      obtain ⟨⟨first, second⟩, third⟩ := all
      exact ⟨by simp [Keeps, Node.names], every_keeps test first, everyAll_keeps yes second,
        everyAll_keeps no third⟩
  | .block label parameters body, all => by
      obtain ⟨first, second⟩ := List.forall_mem_append.mp all
      exact ⟨first, everyAll_keeps body second⟩
  | .call name arguments, all => by
      obtain ⟨first, second⟩ := List.forall_mem_cons.mp all
      exact ⟨List.forall_mem_singleton.mpr first, everyAll_keeps arguments second⟩
  | .assign name value, all => by
      obtain ⟨first, second⟩ := List.forall_mem_cons.mp all
      exact ⟨List.forall_mem_singleton.mpr first, every_keeps value second⟩
  | .var name, all => all
  | .logic op left right, all => by
      obtain ⟨first, second⟩ := List.forall_mem_append.mp all
      exact ⟨by simp [Keeps, Node.names], every_keeps left first, every_keeps right second⟩
  | .compare op left right, all => by
      obtain ⟨first, second⟩ := List.forall_mem_append.mp all
      exact ⟨by simp [Keeps, Node.names], every_keeps left first, every_keeps right second⟩
  | .arith op left right, all => by
      obtain ⟨first, second⟩ := List.forall_mem_append.mp all
      exact ⟨by simp [Keeps, Node.names], every_keeps left first, every_keeps right second⟩
  | .int _, all => all
  | .float _, all => all
  | .bool _, all => all

theorem everyAll_keeps : ∀ (nodes : List (Node δ)), (∀ name ∈ identifiersAll nodes, names name) →
    EveryAll (Keeps names) nodes
  | [], _ => trivial
  | node :: rest, all => by
      obtain ⟨first, second⟩ := List.forall_mem_append.mp all
      exact ⟨every_keeps node first, everyAll_keeps rest second⟩
end

/-- Numbering changes no name. -/
theorem names_number (n : Node δ) (next : Nat) :
    (n.number (fun _ => none) next).1.names = n.names := by
  cases n <;> rfl

theorem Every.number_keeps {node : Node δ} (every : node.Every (Keeps names)) (next : Nat) :
    (node.number (fun _ => none) next).1.Every (Keeps names) := by
  refine every.number (fun n next keeps => ?_) next
  rw [Keeps, names_number]
  exact keeps

end Node

/-! ## Stores that agree on some names -/

/-- The same frames with the same parents, the same captures, and the same values for the given
names. -/
structure Store.Agrees (names : String → Prop) (s t : Store) : Prop where
  size : s.frames.size = t.frames.size
  captures : s.captures = t.captures
  parent : ∀ f, s.parent f = t.parent f
  own? : ∀ f name, names name → s.own? f name = t.own? f name

namespace Store.Agrees

variable {names : String → Prop} {s t : Store}

theorem next (agrees : s.Agrees names t) : s.next = t.next :=
  congrArg FrameId.mk agrees.size

theorem has (agrees : s.Agrees names t) (f : FrameId) : s.Has f ↔ t.Has f := by
  rw [Store.Has, Store.Has, agrees.size]

theorem callFrame (agrees : s.Agrees names t) (d : Definition) (own : FrameId) :
    s.callFrame d own = t.callFrame d own := by
  rw [Store.callFrame, Store.callFrame, Store.captured?, Store.captured?, agrees.captures]

theorem lookupWithin (agrees : s.Agrees names t) {name : String} (named : names name)
    (steps : Nat) (f : FrameId) : s.lookupWithin name steps f = t.lookupWithin name steps f := by
  induction steps generalizing f with
  | zero => rfl
  | succ steps ih =>
      rw [Store.lookupWithin, Store.lookupWithin, agrees.own? f name named, agrees.parent f]
      cases t.own? f name with
      | some value => rfl
      | none =>
          cases t.parent f with
          | some p => exact ih p
          | none => rfl

theorem lookup (agrees : s.Agrees names t) {name : String} (named : names name) (f : FrameId) :
    s.lookup f name = t.lookup f name := by
  rw [Store.lookup, Store.lookup, agrees.size]
  exact agrees.lookupWithin named _ f

theorem add (agrees : s.Agrees names t) {frame frame' : Frame}
    (parent : frame.parent = frame'.parent)
    (bindings : ∀ name, names name → frame.bindings.get? name = frame'.bindings.get? name) :
    (s.add frame).2.Agrees names (t.add frame').2 where
  size := by simp only [Store.add, Array.size_push, agrees.size]
  captures := agrees.captures
  parent f := by rw [Store.parent_add, Store.parent_add, agrees.next, agrees.parent f, parent]
  own? f name named := by
    rw [Store.own?_add, Store.own?_add, agrees.next, agrees.own? f name named, bindings name named]

theorem newFrame (agrees : s.Agrees names t) (parent : Option FrameId) :
    (s.newFrame parent).2.Agrees names (t.newFrame parent).2 :=
  agrees.add rfl fun _ _ => rfl

theorem snapshot (agrees : s.Agrees names t) (f : FrameId) :
    (s.snapshot f).2.Agrees names (t.snapshot f).2 :=
  agrees.add (agrees.parent f) (agrees.own? f)

theorem bind (agrees : s.Agrees names t) (target : FrameId) (name : String) (v : Value) :
    (s.bind target name v).Agrees names (t.bind target name v) where
  size := by simp only [Store.bind, Array.size_modify, agrees.size]
  captures := agrees.captures
  parent f := by rw [Store.parent_bind, Store.parent_bind, agrees.parent f]
  own? f other named := by
    by_cases has : s.Has target
    · rw [Store.own?_bind has, Store.own?_bind ((agrees.has target).mp has),
        agrees.own? f other named]
    · rw [Store.bind_of_not_has has, Store.bind_of_not_has (mt (agrees.has target).mpr has)]
      exact agrees.own? f other named

theorem capture (agrees : s.Agrees names t) (d : Definition) (f : FrameId) :
    (s.capture d f).1 = (t.capture d f).1 ∧
      (s.capture d f).2.Agrees names (t.capture d f).2 := by
  have copied : ((s.snapshot f).2.bind s.next selfName (.block d s.next)).Agrees names
      ((t.snapshot f).2.bind t.next selfName (.block d t.next)) := by
    rw [← agrees.next]
    exact (agrees.snapshot f).bind s.next selfName (.block d s.next)
  have recalled : s.captures.insert d.id s.next = t.captures.insert d.id t.next := by
    rw [agrees.captures, agrees.next]
  exact ⟨congrArg (Value.block d) agrees.next,
    copied.size, recalled, copied.parent, copied.own?⟩

/-- An assignment to a name on which the stores agree has one target. -/
theorem assign (agrees : s.Agrees names t) {name : String} (named : names name) (f : FrameId)
    (v : Value) : (s.assign f name v).Agrees names (t.assign f name v) := by
  have within (steps : Nat) (f : FrameId) :
      (s.assignWithin name v steps f).Agrees names (t.assignWithin name v steps f) := by
    induction steps generalizing f with
    | zero => exact agrees.bind f name v
    | succ steps ih =>
        have owned : s.owns f name = t.owns f name :=
          congrArg Option.isSome (agrees.own? f name named)
        rw [Store.assignWithin, Store.assignWithin, owned, agrees.lookup named f, agrees.parent f]
        split
        · exact agrees.bind f name v
        · cases t.parent f with
          | some p => exact ih p
          | none => exact agrees.bind f name v
  rw [Store.assign, Store.assign, agrees.size]
  exact within _ f

end Store.Agrees

/-! ## Steps in agreement -/

/-- The same is to be done, with stores that agree. -/
structure Config.Agrees (names : String → Prop) (c c' : Config) : Prop where
  focus : c.focus = c'.focus
  stack : c.stack = c'.stack
  active : c.machine.active = c'.machine.active
  store : c.store.Agrees names c'.store

namespace Config.Agrees

variable {names : String → Prop} {limit active : Nat} {s t : Store}

theorem enter {node : Node DefId} (keeps : node.Keeps names) (f : FrameId) (stack : List Pending)
    (agrees : s.Agrees names t) :
    (BlockScript.enter limit node f stack ⟨s, active⟩).Agrees names
      (BlockScript.enter limit node f stack ⟨t, active⟩) := by
  cases node with
  | loop start test step body =>
      have inner : (s.newFrame (some f)).1 = (t.newFrame (some f)).1 := agrees.next
      simp only [BlockScript.enter, inner]
      exact ⟨rfl, rfl, rfl, agrees.newFrame (some f)⟩
  | block id parameters body =>
      obtain ⟨block, captured⟩ := agrees.capture ⟨id, parameters, body⟩ f
      exact ⟨congrArg (fun v => Focus.give (.ok v)) block, rfl, rfl, captured⟩
  | call name arguments =>
      have found := agrees.lookup (keeps name (List.mem_singleton.mpr rfl)) f
      cases callee : s.lookup f name with
      | block d own =>
          have callee' := found.symm.trans callee
          by_cases full : limit ≤ active
          · rw [enter_call_full callee full, enter_call_full callee' full]
            exact ⟨rfl, rfl, rfl, agrees⟩
          · have room := Nat.not_le.mp full
            rw [enter_call_block callee room, enter_call_block callee' room]
            simp only [agrees.callFrame, agrees.next]
            exact ⟨rfl, rfl, rfl, agrees.snapshot _⟩
      | int | float | bool | nil | signal =>
          have callee' := found.symm.trans callee
          rw [enter_call_other (by simp [callee]), enter_call_other (by simp [callee'])]
          exact ⟨rfl, rfl, rfl, agrees⟩
  | var name =>
      have found := agrees.lookup (keeps name (List.mem_singleton.mpr rfl)) f
      exact ⟨congrArg (fun v => Focus.give (.ok v)) found, rfl, rfl, agrees⟩
  | list | branch | branchElse | assign | logic | compare | arith | int | float | bool =>
      exact ⟨rfl, rfl, rfl, agrees⟩

theorem resume {pending : Pending} (named : ∀ name f, pending = .assign name f → names name)
    (v : Value) (stack : List Pending) (agrees : s.Agrees names t) :
    (BlockScript.resume pending v stack ⟨s, active⟩).Agrees names
      (BlockScript.resume pending v stack ⟨t, active⟩) := by
  cases pending with
  | test test step body f last =>
      simp only [BlockScript.resume]
      split <;> exact ⟨rfl, rfl, rfl, agrees⟩
  | argument call parameter parameters arguments =>
      exact ⟨rfl, rfl, rfl, agrees.bind call.inner parameter v⟩
  | assign name f => exact ⟨rfl, rfl, rfl, agrees.assign (named name f rfl) f v⟩
  | statements | start | body | step | branches | leave | right | combine =>
      exact ⟨rfl, rfl, rfl, agrees⟩

/-- **A step leads from agreement to agreement**, if the node that is entered and the assignment
that is carried out keep to the names. -/
theorem step {c c' : Config} (agrees : c.Agrees names c')
    (reads : ∀ n f, c.focus = .node n f → n.Keeps names)
    (writes : ∀ name f, .assign name f ∈ c.stack → names name) (limit : Nat) :
    Option.Rel (Config.Agrees names) (BlockScript.step limit c) (BlockScript.step limit c') := by
  obtain ⟨focus, stack, s, active⟩ := c
  obtain ⟨_, _, t, _⟩ := c'
  obtain ⟨rfl, rfl, rfl, stores⟩ := agrees
  have agrees : s.Agrees names t := stores
  cases focus with
  | node node f => exact .some (enter (reads node f rfl) f stack agrees)
  | all statements f last => cases statements <;> exact .some ⟨rfl, rfl, rfl, agrees⟩
  | rounds => exact .some ⟨rfl, rfl, rfl, agrees⟩
  | arguments call parameters arguments =>
      cases parameters with
      | nil => exact .some ⟨rfl, rfl, rfl, agrees⟩
      | cons parameter parameters => cases arguments <;> exact .some ⟨rfl, rfl, rfl, agrees⟩
  | give outcome =>
      cases stack with
      | nil => exact .none
      | cons pending stack =>
          cases outcome with
          | ok v =>
              refine .some (resume (fun name f top => ?_) v stack agrees)
              exact writes name f (top ▸ List.mem_cons_self ..)
          | error e => cases pending <;> exact .some ⟨rfl, rfl, rfl, agrees⟩

end Config.Agrees

/-! ## Evaluations of trees that keep to the names -/

section Run

variable {names : String → Prop} {limit active : Nat} {n : Node DefId} {f : FrameId}
  {s t : Store} {c : Config} (made : s.MadeOf (Node.Keeps names))
  (tree : n.Every (Node.Keeps names))
include made tree

/-- Only the names are assigned to, and parameters are bound only in new frames. -/
theorem Steps.writes_of_keeps (run : Steps limit ⟨.node n f, [], ⟨s, active⟩⟩ c) :
    c.Writes names fun g => ¬ s.Has g := by
  refine Steps.writes run fun d name value g before focus => ?_
  have keeps := ((Config.MadeOf.start made tree f active).steps before).node focus
  exact keeps name (List.mem_singleton.mpr rfl)

/-- Every run has one that agrees with it from any store that agrees. -/
theorem Steps.of_agrees (agrees : s.Agrees names t)
    (run : Steps limit ⟨.node n f, [], ⟨s, active⟩⟩ c) :
    ∃ c', Steps limit ⟨.node n f, [], ⟨t, active⟩⟩ c' ∧ c.Agrees names c' := by
  induction run with
  | refl => exact ⟨_, .refl, rfl, rfl, rfl, agrees⟩
  | @tail c d before stepped ih =>
      obtain ⟨c', before', agrees'⟩ := ih
      have reads : ∀ n f, c.focus = .node n f → n.Keeps names := fun _ _ focus =>
        ((Config.MadeOf.start made tree f active).steps before).node focus
      have writes : ∀ name f, .assign name f ∈ c.stack → names name := fun _ _ member =>
        (Steps.writes_of_keeps made tree before).stack _ member
      have next := agrees'.step reads writes limit
      rw [stepped] at next
      generalize stepped' : BlockScript.step limit c' = after at next
      cases next with
      | some agrees => exact ⟨_, before'.tail stepped', agrees⟩

/-- **Stores that agree on the names give the same outcome**, and agree again afterwards. -/
theorem Ends.of_agrees (agrees : s.Agrees names t) {r : Except EvalError Value} {m : Machine}
    (ends : Ends limit n f ⟨s, active⟩ r m) :
    ∃ t', Ends limit n f ⟨t, active⟩ r ⟨t', m.active⟩ ∧ m.store.Agrees names t' := by
  obtain ⟨⟨focus, stack, t', count⟩, run, rfl, rfl, rfl, agrees'⟩ :=
    Steps.of_agrees made tree agrees (ends_iff_steps.mp ends)
  exact ⟨t', ends_iff_steps.mpr run, agrees'⟩

/-- **A binding of any other name stays as it is** in the frames that were there before. -/
theorem Steps.own?_of_hidden (run : Steps limit ⟨.node n f, [], ⟨s, active⟩⟩ c) {g : FrameId}
    (old : s.Has g) {name : String} (hidden : ¬ names name) :
    c.store.own? g name = s.own? g name := by
  induction run with
  | refl => rfl
  | @tail c d before stepped ih =>
      have writes := Steps.writes_of_keeps made tree before
      refine ((effect_of_step stepped).own?_eq (Steps.has before old) ?_ ?_).trans ih
      · rintro call parameter parameters arguments stack top rfl
        exact writes.stack (.argument call parameter parameters arguments)
          (top ▸ List.mem_cons_self ..) old
      · intro g stack v _ top
        exact hidden (writes.stack (.assign name g) (top ▸ List.mem_cons_self ..))

end Run

end BlockScript
