import BlockScript.Proofs.Composition
import BlockScript.Proofs.Provenance

/-!
# Programs without loops end

Without loops an evaluation goes from a node to its parts, except that a call goes to a body that
comes out of the store.  No order on trees makes the body smaller than the call.  But one more
call is active while it runs, and the limit bounds how many can be.  So the induction is on the
number of calls for which there is room and, for calls at one level, on the tree
(`Arrives.of_node`).  An argument of a call is a part of it and is evaluated at the level of the
caller.  The body is evaluated one level deeper, where the first induction applies.

The bodies have no loops either, because the literals that they come from stood in trees without
loops (`Tame`).
-/

set_option autoImplicit false

namespace BlockScript

/-! ## Configurations without loops -/

/-- No tree in the configuration has a loop, and no block that it can come to call. -/
abbrev Tame (c : Config) : Prop := c.MadeOf fun n => n.isLoop = false

variable {limit : Nat}

/-! ## Arriving at an outcome -/

/-- The steps lead to an outcome for the work in the stack, and `k` calls are active then. -/
def Arrives (limit k : Nat) (stack : List Pending) (c : Config) : Prop :=
  ∃ r m, Steps limit c ⟨.give r, stack, m⟩ ∧ m.active = k

namespace Arrives

variable {k : Nat} {stack : List Pending}

theorem step {c c' : Config} (stepped : BlockScript.step limit c = some c')
    (arrives : Arrives limit k stack c') : Arrives limit k stack c := by
  obtain ⟨r, m, run, active⟩ := arrives
  exact ⟨r, m, .head stepped run, active⟩

theorem give (r : Except EvalError Value) {m : Machine} (active : m.active = k) :
    Arrives limit k stack ⟨.give r, stack, m⟩ :=
  ⟨r, m, .refl, active⟩

/-- A part arrives at an outcome, and the work that waits for it arrives at one with any value. -/
theorem andThen {focus : Focus} {m : Machine} (pending : Pending)
    (passes : ∀ m, pending.abort m = m)
    (tame : Tame ⟨focus, pending :: stack, m⟩)
    (first : Arrives limit k (pending :: stack) ⟨focus, pending :: stack, m⟩)
    (second : ∀ v m', m'.active = k → Tame (resume pending v stack m') →
      Arrives limit k stack (resume pending v stack m')) :
    Arrives limit k stack ⟨focus, pending :: stack, m⟩ := by
  obtain ⟨r, m₁, run, active⟩ := first
  cases r with
  | error e =>
      refine ⟨.error e, m₁, run.tail ?_, active⟩
      simp [BlockScript.step, passes]
  | ok v =>
      have resumed : BlockScript.step limit ⟨.give (.ok v), pending :: stack, m₁⟩ =
          some (resume pending v stack m₁) := rfl
      obtain ⟨r, m₂, further, active⟩ := second v m₁ active ((tame.steps run).step limit resumed)
      exact ⟨r, m₂, run.trans (.head resumed further), active⟩

/-- Binary operations, which differ only in how the two values are combined. -/
theorem binary {left right : Node DefId} {f : FrameId}
    {combine : Value → Value → Except EvalError Value} {m : Machine}
    (tame : Tame ⟨.node left f, .right combine right f :: stack, m⟩)
    (first : Arrives limit k (.right combine right f :: stack)
      ⟨.node left f, .right combine right f :: stack, m⟩)
    (second : ∀ l m', m'.active = k → Tame ⟨.node right f, .combine combine l :: stack, m'⟩ →
      Arrives limit k (.combine combine l :: stack)
        ⟨.node right f, .combine combine l :: stack, m'⟩) :
    Arrives limit k stack ⟨.node left f, .right combine right f :: stack, m⟩ := by
  refine andThen _ (fun _ => rfl) tame first fun l m₁ active tame => ?_
  refine andThen _ (fun _ => rfl) tame (second l m₁ active tame) fun r m₂ active _ => ?_
  exact give _ active

/-- Every body that is entered one level deeper arrives at an outcome. -/
def Deeper (limit k : Nat) : Prop :=
  ∀ ⦃body : List (Node DefId)⦄ ⦃f : FrameId⦄ ⦃stack : List Pending⦄ ⦃m : Machine⦄, k < limit →
    m.active = k + 1 → Tame ⟨.all body f .nil, stack, m⟩ →
      Arrives limit (k + 1) stack ⟨.all body f .nil, stack, m⟩

mutual
/-- **At one level of calls, a tree without loops arrives at an outcome**, if all bodies one level
deeper do.  The recursion is that of the tree. -/
theorem of_node (deeper : Deeper limit k) : ∀ (n : Node DefId) (f : FrameId)
    (stack : List Pending) (m : Machine), m.active = k → Tame ⟨.node n f, stack, m⟩ →
      Arrives limit k stack ⟨.node n f, stack, m⟩
  | .list statements, f, stack, m, active, tame => by
      refine step rfl ?_
      exact of_all deeper statements f .nil stack m active (tame.step limit rfl)
  | .loop start test body rest, f, stack, m, active, tame => by
      obtain ⟨w, _, fits⟩ := tame
      exact absurd fits.focus.1.1 (by simp [Node.isLoop])
  | .branch test yes, f, stack, m, active, tame => by
      have entered := tame.step limit rfl
      refine step rfl (andThen _ (fun _ => rfl) entered
        (of_node deeper test f _ m active entered) fun v m₁ active tame => ?_)
      cases truth : v.truthy with
      | true =>
          simp only [resume, truth, if_true] at tame ⊢
          exact of_all deeper yes f .nil stack m₁ active tame
      | false =>
          simp only [resume, truth, Bool.false_eq_true, if_false]
          exact step rfl (give _ active)
  | .branchElse test yes no, f, stack, m, active, tame => by
      have entered := tame.step limit rfl
      refine step rfl (andThen _ (fun _ => rfl) entered
        (of_node deeper test f _ m active entered) fun v m₁ active tame => ?_)
      cases truth : v.truthy with
      | true =>
          simp only [resume, truth, if_true] at tame ⊢
          exact of_all deeper yes f .nil stack m₁ active tame
      | false =>
          simp only [resume, truth, Bool.false_eq_true, if_false] at tame ⊢
          exact of_all deeper no f .nil stack m₁ active tame
  | .block id parameters body, f, stack, m, active, tame => step rfl (give _ active)
  | .call name arguments, f, stack, m, active, tame => by
      have entered := tame.step limit rfl
      refine step rfl ?_
      cases callee : m.store.lookup f name with
      | block d own =>
          by_cases full : limit ≤ m.active
          · rw [enter_call_full callee full]
            exact give _ active
          · have room := Nat.not_le.mp full
            rw [enter_call_block callee room] at entered ⊢
            exact of_arguments deeper (active ▸ room) arguments _ d.parameters stack _ active
              entered
      | int | float | bool | nil | signal =>
          rw [enter_call_other (by simp [callee])]
          exact give _ active
  | .assign name value, f, stack, m, active, tame => by
      have entered := tame.step limit rfl
      refine step rfl (andThen _ (fun _ => rfl) entered
        (of_node deeper value f _ m active entered) fun v m₁ active _ => ?_)
      exact give _ active
  | .var name, f, stack, m, active, tame => step rfl (give _ active)
  | .logic op left right, f, stack, m, active, tame => by
      have entered := tame.step limit rfl
      exact step rfl (binary entered (of_node deeper left f _ m active entered)
        fun l m₁ active tame => of_node deeper right f _ m₁ active tame)
  | .compare op left right, f, stack, m, active, tame => by
      have entered := tame.step limit rfl
      exact step rfl (binary entered (of_node deeper left f _ m active entered)
        fun l m₁ active tame => of_node deeper right f _ m₁ active tame)
  | .arith op left right, f, stack, m, active, tame => by
      have entered := tame.step limit rfl
      exact step rfl (binary entered (of_node deeper left f _ m active entered)
        fun l m₁ active tame => of_node deeper right f _ m₁ active tame)
  | .int _, f, stack, m, active, tame => step rfl (give _ active)
  | .float _, f, stack, m, active, tame => step rfl (give _ active)
  | .bool _, f, stack, m, active, tame => step rfl (give _ active)

theorem of_all (deeper : Deeper limit k) : ∀ (statements : List (Node DefId)) (f : FrameId)
    (last : Value) (stack : List Pending) (m : Machine), m.active = k →
      Tame ⟨.all statements f last, stack, m⟩ →
        Arrives limit k stack ⟨.all statements f last, stack, m⟩
  | [], f, last, stack, m, active, tame => step rfl (give _ active)
  | node :: rest, f, last, stack, m, active, tame => by
      have entered := tame.step limit rfl
      refine step rfl (andThen _ (fun _ => rfl) entered
        (of_node deeper node f _ m active entered) fun v m₁ active tame => ?_)
      exact of_all deeper rest f v stack m₁ active tame

/-- The arguments of a call are parts of it; its body is one level deeper. -/
theorem of_arguments (deeper : Deeper limit k) (room : k < limit) :
    ∀ (arguments : List (Node DefId)) (call : Call) (parameters : List String)
      (stack : List Pending) (m : Machine), m.active = k →
        Tame ⟨.arguments call parameters arguments, stack, m⟩ →
          Arrives limit k stack ⟨.arguments call parameters arguments, stack, m⟩
  | arguments, call, [], stack, m, active, tame => by
      have entered := tame.step limit rfl
      obtain ⟨r, m₁, run, deep⟩ := deeper room (congrArg (· + 1) active) entered
      refine step rfl ⟨r, Pending.leave.abort m₁, run.tail ?_, ?_⟩
      · cases r <;> rfl
      · exact (congrArg (· - 1) deep).trans (Nat.add_sub_cancel k 1)
  | [], call, _ :: _, stack, m, active, tame => step rfl (give _ active)
  | argument :: arguments, call, parameter :: parameters, stack, m, active, tame => by
      have entered := tame.step limit rfl
      refine step rfl (andThen _ (fun _ => rfl) entered
        (of_node deeper argument call.caller _ m active entered) fun v m₁ active tame => ?_)
      exact of_arguments deeper room arguments call parameters stack _ active tame
end

/-- **Bodies arrive at an outcome at every level.**  The induction is on the number of calls for
which there is room. -/
theorem deeper (limit k : Nat) : Deeper limit k := by
  induction h : limit - k generalizing k with
  | zero =>
      intro body f stack m room
      omega
  | succ room ih =>
      intro body f stack m _ active tame
      exact of_all (ih (k + 1) (by omega)) body f .nil stack m active tame

end Arrives

/-- **An evaluation without loops ends**, and leaves only blocks without loops behind. -/
theorem exists_ends_of_loopFree (limit : Nat) {s : Store}
    (made : s.MadeOf fun n => n.isLoop = false) {n : Node DefId} (loopFree : n.LoopFree)
    (f : FrameId) (active : Nat) :
    ∃ r m, Ends limit n f ⟨s, active⟩ r m ∧ m.store.MadeOf fun n => n.isLoop = false := by
  have tame := Config.MadeOf.start made loopFree f active
  obtain ⟨r, m, run, _⟩ := Arrives.of_node (Arrives.deeper limit active) n f [] _ rfl tame
  exact ⟨r, m, ends_iff_steps.mpr run, (tame.steps run).stored⟩

/-! ## Runs of sources -/

/-- A source without a loop.  What is not a program has none. -/
def LoopFreeSource (source : String) : Prop := ∀ tree, parse source = .ok tree → tree.LoopFree

instance (source : String) : Decidable (LoopFreeSource source) :=
  match parsed : parse source with
  | .ok tree =>
      decidable_of_iff tree.LoopFree
        ⟨fun loopFree other same => by cases parsed.symm.trans same; exact loopFree,
          fun loopFree => loopFree tree parsed⟩
  | .error _ => isTrue fun _ same => by cases parsed.symm.trans same

namespace Interpreter

/-- Runs of sources, one after another, with an outcome for each. -/
inductive RunsEnd :
    Interpreter → List String → List (Except Failure Value) → Interpreter → Prop where
  | nil (i : Interpreter) : RunsEnd i [] [] i
  | cons {i j k : Interpreter} {source : String} {sources : List String}
      {r : Except Failure Value} {rs : List (Except Failure Value)} (first : i.RunEnds source r j)
      (rest : RunsEnd j sources rs k) : RunsEnd i (source :: sources) (r :: rs) k

/-- A run of a source without loops ends, and the next one finds no loop in the store. -/
theorem exists_runEnds_of_loopFree {i : Interpreter}
    (made : i.store.MadeOf fun n => n.isLoop = false) {source : String}
    (loopFree : LoopFreeSource source) :
    ∃ r j, i.RunEnds source r j ∧ j.store.MadeOf fun n => n.isLoop = false := by
  cases parsed : parse source with
  | error e => exact ⟨_, i, (runEnds_iff_of_error parsed).mpr ⟨rfl, rfl⟩, made⟩
  | ok tree =>
      obtain ⟨r, m, ends, made'⟩ := exists_ends_of_loopFree i.limit made
        ((loopFree tree parsed).number i.nextDefinition) i.root 0
      exact ⟨_, _, (runEnds_iff_ends parsed).mpr ⟨r, m, ends, rfl, rfl⟩, made'⟩

theorem exists_runsEnd_of_loopFree {i : Interpreter}
    (made : i.store.MadeOf fun n => n.isLoop = false) {sources : List String}
    (loopFree : ∀ source ∈ sources, LoopFreeSource source) : ∃ rs j, i.RunsEnd sources rs j := by
  induction sources generalizing i with
  | nil => exact ⟨[], i, .nil i⟩
  | cons source sources ih =>
      obtain ⟨first, others⟩ := List.forall_mem_cons.mp loopFree
      obtain ⟨r, j, ran, made'⟩ := exists_runEnds_of_loopFree made first
      obtain ⟨rs, k, rest⟩ := ih made' others
      exact ⟨r :: rs, k, .cons ran rest⟩

end Interpreter

/-- **Programs without loops end.**  Any number of sources without a loop, run one after another
in an interpreter with any limit, all end: each run gives a value or an error, however the blocks
of the sources call themselves and each other. -/
theorem loopFree_runs_end (limit : Nat) (sources : List String)
    (loopFree : ∀ source ∈ sources, LoopFreeSource source) :
    ∃ outcomes i, (Interpreter.fresh limit).RunsEnd sources outcomes i :=
  Interpreter.exists_runsEnd_of_loopFree (Store.madeOf_fresh limit) loopFree

/-- A block that calls itself for ever and a block that calls the block it is given: both runs
end, the second with the blocks that the first left behind. -/
theorem loopFree_runs_end_runaway :
    (∀ source ∈ ["f={|n|this(n)};g={|k|k(k)+f(k)};f(1)", "g(g)"], LoopFreeSource source) ∧
      ∃ outcomes i, (Interpreter.fresh 3).RunsEnd
        ["f={|n|this(n)};g={|k|k(k)+f(k)};f(1)", "g(g)"] outcomes i :=
  have loopFree : ∀ source ∈ ["f={|n|this(n)};g={|k|k(k)+f(k)};f(1)", "g(g)"],
      LoopFreeSource source := by decide +kernel
  ⟨loopFree, loopFree_runs_end 3 _ loopFree⟩

end BlockScript
