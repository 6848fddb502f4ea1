import BlockScript.Run.Evaluate

/-!
# Relations that evaluation respects

Evaluation is put together from a few computations on the machine: results that are known,
actions on the store, one computation after another, a call behind the test of the limit.  A
relation between computations that all of these respect holds between two evaluations of the
same tree (`Congruence.evaluate`), also when the two obey different limits or one has more
budget.

The first use is the budget: a result does not change when there is more of it
(`evaluate_budget`), so it makes sense to say that an evaluation ends (`Ends`) without saying
on which budget, and an evaluation ends in one way only (`Ends.unique`).
-/

set_option autoImplicit false

namespace BlockScript

namespace Run

variable {α β : Type}

section Bind

variable {x : Run α} {f : α → Run β} {m m₁ : Machine}

theorem bind_none (nothing : x m = none) : (x >>= f) m = none := by
  change andThen x f m = none
  simp [andThen, nothing]

theorem bind_ok {a : α} (went : x m = some (.ok a, m₁)) : (x >>= f) m = f a m₁ := by
  change andThen x f m = f a m₁
  simp [andThen, went]

theorem bind_error {e : EvalError} (stopped : x m = some (.error e, m₁)) :
    (x >>= f) m = some (.error e, m₁) := by
  change andThen x f m = _
  simp [andThen, stopped]

/-- A result of two computations in order: the first one stopped with an error, or the second
one went on from where the first one ended. -/
theorem bind_eq_some_iff {m' : Machine} {r : Except EvalError β} :
    (x >>= f) m = some (r, m') ↔
      (∃ e, x m = some (.error e, m') ∧ r = .error e) ∨
        ∃ a m₁, x m = some (.ok a, m₁) ∧ f a m₁ = some (r, m') := by
  constructor
  · intro gives
    cases outcome : x m with
    | none => simp [bind_none outcome] at gives
    | some result =>
        obtain ⟨first, m₁⟩ := result
        cases first with
        | ok a => exact .inr ⟨a, m₁, rfl, (bind_ok outcome).symm.trans gives⟩
        | error e =>
            cases (bind_error outcome).symm.trans gives
            exact .inl ⟨e, rfl, rfl⟩
  · rintro (⟨e, stopped, rfl⟩ | ⟨a, m₁, went, second⟩)
    · exact bind_error stopped
    · exact (bind_ok went).trans second

end Bind

theorem bind_assoc {γ : Type} (x : Run α) (f : α → Run β) (g : β → Run γ) :
    (x >>= f) >>= g = x >>= fun a => f a >>= g := by
  funext m
  change andThen (andThen x f) g m = andThen x (fun a => andThen (f a) g) m
  unfold andThen
  cases x m with
  | none => rfl
  | some result =>
      obtain ⟨r, m'⟩ := result
      cases r <;> rfl

theorem ofExcept_map (r : Except EvalError α) (f : α → β) :
    (ofExcept r >>= fun a => pure (f a)) = ofExcept (r.map f) := by
  cases r <;> rfl

/-- A call behind the test of the limit of active calls. -/
def guarded (limit : Nat) (call : Run α) : Run α := do
  let active ← activeCalls
  if limit ≤ active then fail (.stackOverflow (active + 1) limit) else call

end Run

/-- A relation between computations, one for each number of active calls, that respects
everything evaluation is put together from.  Computations on the left obey `limit`, those on
the right `limit'`, and have `spare` units of budget more. -/
structure Congruence (limit limit' spare : Nat)
    (rel : Nat → ∀ {α : Type}, Run α → Run α → Prop) : Prop where
  exhausted {k : Nat} {α : Type} {y : Run α} :
    (spare = 0 → y = Run.exhausted) → rel k Run.exhausted y
  ofExcept {k : Nat} {α : Type} (r : Except EvalError α) : rel k (Run.ofExcept r) (Run.ofExcept r)
  act {k : Nat} {α : Type} (f : Store → α × Store) : rel k (Run.act f) (Run.act f)
  andThen {k : Nat} {α β : Type} {x y : Run α} {f g : α → Run β} :
    rel k x y → (∀ a, rel k (f a) (g a)) → rel k (x >>= f) (y >>= g)
  guarded {k : Nat} {α : Type} {x y : Run α} :
    (k < limit → rel k x y) → rel k (Run.guarded limit x) (Run.guarded limit' y)
  calling {k : Nat} {α : Type} {x y : Run α} :
    k < limit → rel (k + 1) x y → rel k (Run.calling x) (Run.calling y)

namespace Congruence

variable {limit limit' spare : Nat} {rel : Nat → ∀ {α : Type}, Run α → Run α → Prop}

theorem give (congruence : Congruence limit limit' spare rel) {k : Nat} {α : Type} (a : α) :
    rel k (pure a : Run α) (pure a) :=
  congruence.ofExcept (.ok a)

theorem read (congruence : Congruence limit limit' spare rel) {k : Nat} {α : Type}
    (f : Store → α) : rel k (Run.read f) (Run.read f) :=
  congruence.act fun s => (f s, s)

theorem change (congruence : Congruence limit limit' spare rel) {k : Nat}
    (f : Store → Store) : rel k (Run.change f) (Run.change f) :=
  congruence.act fun s => ((), f s)

mutual
/-- **A relation that respects the parts of evaluation holds between evaluations.**  The
recursion is that of the budget, and each case takes the relation through the computation of
one kind of node. -/
theorem evaluate (congruence : Congruence limit limit' spare rel) : ∀ (budget k : Nat)
    (node : Node DefId) (f : FrameId),
    rel k (BlockScript.evaluate limit budget node f)
      (BlockScript.evaluate limit' (budget + spare) node f)
  | 0, _, _, _ => congruence.exhausted fun spent => by subst spent; rfl
  | budget + 1, k, node, f => by
      rw [Nat.succ_add]
      cases node with
      | list statements => exact congruence.evaluateAll budget k statements f .nil
      | loop start test step body =>
          refine congruence.andThen (congruence.act _) fun inner => ?_
          refine congruence.andThen (congruence.evaluate budget k start inner) fun _ => ?_
          exact congruence.evaluateLoop budget k test step body inner .nil
      | branch test yes =>
          refine congruence.andThen (congruence.evaluate budget k test f) fun v => ?_
          split
          · exact congruence.evaluateAll budget k yes f .nil
          · exact congruence.give _
      | branchElse test yes no =>
          refine congruence.andThen (congruence.evaluate budget k test f) fun v => ?_
          split
          · exact congruence.evaluateAll budget k yes f .nil
          · exact congruence.evaluateAll budget k no f .nil
      | block id parameters body =>
          exact congruence.act fun s => s.capture ⟨id, parameters, body⟩ f
      | call name arguments =>
          refine congruence.andThen (congruence.read _) fun callee => ?_
          cases callee with
          | block definition own =>
              refine congruence.guarded fun room => ?_
              refine congruence.andThen (congruence.act _) fun inner => ?_
              refine congruence.andThen
                (congruence.bindArguments budget k _ definition.parameters arguments f inner)
                fun _ => ?_
              exact congruence.calling room
                (congruence.evaluateAll budget (k + 1) definition.body inner .nil)
          | int | float | bool | nil | signal => exact congruence.give _
      | assign name value =>
          refine congruence.andThen (congruence.evaluate budget k value f) fun v => ?_
          exact congruence.andThen (congruence.change _) fun _ => congruence.give _
      | var name => exact congruence.read fun s => s.lookup f name
      | logic op left right =>
          refine congruence.andThen (congruence.evaluate budget k left f) fun l => ?_
          refine congruence.andThen (congruence.evaluate budget k right f) fun r => ?_
          exact congruence.give _
      | compare op left right =>
          refine congruence.andThen (congruence.evaluate budget k left f) fun l => ?_
          refine congruence.andThen (congruence.evaluate budget k right f) fun r => ?_
          exact congruence.andThen (congruence.ofExcept _) fun _ => congruence.give _
      | arith op left right =>
          refine congruence.andThen (congruence.evaluate budget k left f) fun l => ?_
          refine congruence.andThen (congruence.evaluate budget k right f) fun r => ?_
          exact congruence.ofExcept _
      | int | float | bool => exact congruence.give _

theorem evaluateAll (congruence : Congruence limit limit' spare rel) : ∀ (budget k : Nat)
    (statements : List (Node DefId)) (f : FrameId) (last : Value),
    rel k (BlockScript.evaluateAll limit budget statements f last)
      (BlockScript.evaluateAll limit' (budget + spare) statements f last)
  | 0, _, _, _, _ => congruence.exhausted fun spent => by subst spent; rfl
  | budget + 1, k, [], f, last => by
      rw [Nat.succ_add]
      exact congruence.give _
  | budget + 1, k, node :: rest, f, last => by
      rw [Nat.succ_add]
      refine congruence.andThen (congruence.evaluate budget k node f) fun v => ?_
      exact congruence.evaluateAll budget k rest f v

theorem evaluateLoop (congruence : Congruence limit limit' spare rel) : ∀ (budget k : Nat)
    (test step : Node DefId) (body : List (Node DefId)) (f : FrameId) (last : Value),
    rel k (BlockScript.evaluateLoop limit budget test step body f last)
      (BlockScript.evaluateLoop limit' (budget + spare) test step body f last)
  | 0, _, _, _, _, _, _ => congruence.exhausted fun spent => by subst spent; rfl
  | budget + 1, k, test, step, body, f, last => by
      rw [Nat.succ_add]
      refine congruence.andThen (congruence.evaluate budget k test f) fun v => ?_
      split
      · refine congruence.andThen (congruence.evaluateAll budget k body f .nil) fun v => ?_
        refine congruence.andThen (congruence.evaluate budget k step f) fun _ => ?_
        exact congruence.evaluateLoop budget k test step body f v
      · exact congruence.give _

theorem bindArguments (congruence : Congruence limit limit' spare rel) : ∀ (budget k : Nat)
    (short : EvalError) (parameters : List String) (arguments : List (Node DefId))
    (caller inner : FrameId),
    rel k (BlockScript.bindArguments limit budget short parameters arguments caller inner)
      (BlockScript.bindArguments limit' (budget + spare) short parameters arguments caller inner)
  | 0, _, _, _, _, _, _ => congruence.exhausted fun spent => by subst spent; rfl
  | budget + 1, k, short, [], arguments, caller, inner => by
      rw [Nat.succ_add]
      exact congruence.give _
  | budget + 1, k, short, _ :: _, [], caller, inner => by
      rw [Nat.succ_add]
      exact congruence.ofExcept (.error short)
  | budget + 1, k, short, parameter :: parameters, argument :: arguments, caller, inner => by
      rw [Nat.succ_add]
      refine congruence.andThen (congruence.evaluate budget k argument caller) fun v => ?_
      refine congruence.andThen (congruence.change _) fun _ => ?_
      exact congruence.bindArguments budget k short parameters arguments caller inner
end

end Congruence

/-! ## Budgets -/

namespace Run

variable {α β : Type}

/-- Whatever the first computation gives when `k` calls are active, the second one gives too,
and `k` calls are active again. -/
def Below (k : Nat) (x y : Run α) : Prop :=
  ∀ ⦃m : Machine⦄ ⦃r : Except EvalError α⦄ ⦃m' : Machine⦄, m.active = k → x m = some (r, m') →
    y m = some (r, m') ∧ m'.active = k

theorem Below.andThen {k : Nat} {x y : Run α} {f g : α → Run β} (first : Below k x y)
    (second : ∀ a, Below k (f a) (g a)) : Below k (x >>= f) (y >>= g) := by
  intro m r m' active gives
  rcases bind_eq_some_iff.mp gives with ⟨e, stopped, rfl⟩ | ⟨a, m₁, went, further⟩
  · obtain ⟨stopped', active'⟩ := first active stopped
    exact ⟨bind_eq_some_iff.mpr (.inl ⟨e, stopped', rfl⟩), active'⟩
  · obtain ⟨went', active₁⟩ := first active went
    obtain ⟨further', active'⟩ := second a active₁ further
    exact ⟨bind_eq_some_iff.mpr (.inr ⟨a, m₁, went', further'⟩), active'⟩

theorem calling_eq_some_iff {x : Run α} {m m' : Machine} {r : Except EvalError α} :
    calling x m = some (r, m') ↔
      ∃ m₁, x { m with active := m.active + 1 } = some (r, m₁) ∧
        m' = { m₁ with active := m₁.active - 1 } := by
  unfold calling
  split
  · rename_i unfinished
    simp [unfinished]
  · rename_i r₁ m₁ ended
    simp only [ended, Option.some.injEq, Prod.mk.injEq]
    constructor
    · rintro ⟨rfl, rfl⟩
      exact ⟨m₁, ⟨rfl, rfl⟩, rfl⟩
    · rintro ⟨_, ⟨rfl, rfl⟩, rfl⟩
      exact ⟨rfl, rfl⟩

theorem Below.calling {k : Nat} {x y : Run α} (body : Below (k + 1) x y) :
    Below k (calling x) (calling y) := by
  intro m r m' active gives
  obtain ⟨m₁, inside, rfl⟩ := calling_eq_some_iff.mp gives
  obtain ⟨inside', active₁⟩ := body (by simp [active]) inside
  exact ⟨calling_eq_some_iff.mpr ⟨m₁, inside', rfl⟩, by simp [active₁]⟩

/-- The test of the limit, on a machine that is known. -/
theorem guarded_apply (limit : Nat) (x : Run α) (m : Machine) :
    guarded limit x m =
      if limit ≤ m.active then some (.error (.stackOverflow (m.active + 1) limit), m) else x m := by
  change (if limit ≤ m.active then fail (.stackOverflow (m.active + 1) limit) else x) m = _
  split <;> rfl

/-- One unit of budget more changes no result. -/
theorem below_congruence (limit : Nat) :
    Congruence limit limit 1 fun k {_} x y => Below k x y where
  exhausted _ := fun _ _ _ _ gives => by simp [exhausted] at gives
  ofExcept _ := fun _ _ _ active gives => by
    cases gives
    exact ⟨rfl, active⟩
  act _ := fun _ _ _ active gives => by
    cases gives
    exact ⟨rfl, active⟩
  andThen first second := first.andThen second
  guarded call := fun m r m' active gives => by
    rw [guarded_apply] at gives ⊢
    by_cases full : limit ≤ m.active
    · simp only [if_pos full, Option.some.injEq, Prod.mk.injEq] at gives ⊢
      obtain ⟨rfl, rfl⟩ := gives
      exact ⟨⟨rfl, rfl⟩, active⟩
    · rw [if_neg full] at gives ⊢
      exact call (by omega) active gives
  calling _ body := body.calling

end Run

namespace Run

variable {α β : Type}

/-- Whatever the first computation gives, the second one gives too. -/
def Le (x y : Run α) : Prop := ∀ ⦃m : Machine⦄ ⦃out⦄, x m = some out → y m = some out

theorem Le.refl (x : Run α) : Le x x := fun _ _ gives => gives

theorem Le.trans {x y z : Run α} (first : Le x y) (second : Le y z) : Le x z :=
  fun _ _ gives => second (first gives)

theorem Le.andThen {x y : Run α} {f g : α → Run β} (first : Le x y)
    (second : ∀ a, Le (f a) (g a)) : Le (x >>= f) (y >>= g) := by
  rintro m ⟨r, m'⟩ gives
  rcases bind_eq_some_iff.mp gives with ⟨e, stopped, rfl⟩ | ⟨a, m₁, went, further⟩
  · exact bind_eq_some_iff.mpr (.inl ⟨e, first stopped, rfl⟩)
  · exact bind_eq_some_iff.mpr (.inr ⟨a, m₁, first went, second a further⟩)

theorem Le.calling {x y : Run α} (body : Le x y) : Le (calling x) (calling y) := by
  rintro m ⟨r, m'⟩ gives
  obtain ⟨m₁, inside, rfl⟩ := calling_eq_some_iff.mp gives
  exact calling_eq_some_iff.mpr ⟨m₁, body inside, rfl⟩

theorem Le.of_below {x y : Run α} (below : ∀ k, Below k x y) : Le x y :=
  fun _ _ gives => (below _ rfl gives).1

/-- A family of computations that each do no more than the next one is increasing. -/
theorem Le.of_succ {x : Nat → Run α} (next : ∀ n, Le (x n) (x (n + 1))) {n k : Nat}
    (le : n ≤ k) : Le (x n) (x k) := by
  induction le with
  | refl => exact Le.refl _
  | step _ ih => exact ih.trans (next _)

end Run

section Budget

variable {limit : Nat}

/-- **A result stays the same with more budget.** -/
theorem evaluate_budget {budget more : Nat} (le : budget ≤ more) (node : Node DefId)
    (f : FrameId) : Run.Le (evaluate limit budget node f) (evaluate limit more node f) :=
  Run.Le.of_succ (fun n => .of_below fun k =>
    (Run.below_congruence limit).evaluate n k node f) le

theorem evaluateAll_budget {budget more : Nat} (le : budget ≤ more)
    (statements : List (Node DefId)) (f : FrameId) (last : Value) :
    Run.Le (evaluateAll limit budget statements f last)
      (evaluateAll limit more statements f last) :=
  Run.Le.of_succ (fun n => .of_below fun k =>
    (Run.below_congruence limit).evaluateAll n k statements f last) le

theorem evaluateLoop_budget {budget more : Nat} (le : budget ≤ more) (test step : Node DefId)
    (body : List (Node DefId)) (f : FrameId) (last : Value) :
    Run.Le (evaluateLoop limit budget test step body f last)
      (evaluateLoop limit more test step body f last) :=
  Run.Le.of_succ (fun n => .of_below fun k =>
    (Run.below_congruence limit).evaluateLoop n k test step body f last) le

theorem bindArguments_budget {budget more : Nat} (le : budget ≤ more) (short : EvalError)
    (parameters : List String) (arguments : List (Node DefId)) (caller inner : FrameId) :
    Run.Le (bindArguments limit budget short parameters arguments caller inner)
      (bindArguments limit more short parameters arguments caller inner) :=
  Run.Le.of_succ (fun n => .of_below fun k =>
    (Run.below_congruence limit).bindArguments n k short parameters arguments caller inner) le

/-- The number of active calls is the same after an evaluation as before it. -/
theorem active_of_evaluate {budget : Nat} {node : Node DefId} {f : FrameId} {m m' : Machine}
    {r : Except EvalError Value} (gives : evaluate limit budget node f m = some (r, m')) :
    m'.active = m.active :=
  ((Run.below_congruence limit).evaluate _ _ node f rfl gives).2

/-- The evaluation of a node in a frame ends with a result, on some budget. -/
def Ends (limit : Nat) (node : Node DefId) (f : FrameId) (m : Machine)
    (r : Except EvalError Value) (m' : Machine) : Prop :=
  ∃ budget, evaluate limit budget node f m = some (r, m')

/-- An evaluation ends in one way only. -/
theorem Ends.unique {node : Node DefId} {f : FrameId} {m m₁ m₂ : Machine}
    {r₁ r₂ : Except EvalError Value} (first : Ends limit node f m r₁ m₁)
    (second : Ends limit node f m r₂ m₂) : r₁ = r₂ ∧ m₁ = m₂ := by
  obtain ⟨b₁, gives₁⟩ := first
  obtain ⟨b₂, gives₂⟩ := second
  have both := (evaluate_budget (Nat.le_max_left b₁ b₂) node f gives₁).symm.trans
    (evaluate_budget (Nat.le_max_right b₁ b₂) node f gives₂)
  cases both
  exact ⟨rfl, rfl⟩

end Budget

end BlockScript
