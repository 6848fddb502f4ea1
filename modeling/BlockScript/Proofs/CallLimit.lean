import BlockScript.Proofs.Congruence
import BlockScript.Run.Interpreter

/-!
# The limit of active calls

A lower limit does not make a program compute something else; it only makes it stop earlier,
with one particular error.  Two computations under different limits are compared by a relation
that says so: they do the same, or the one under the lower limit stops because of it
(`Run.Cut`).  Everything evaluation is put together from respects the relation, because no
part of evaluation catches an error, and because the test of the limit is the only place that
reads it.
-/

set_option autoImplicit false

namespace BlockScript

namespace Run

variable {α β : Type}

/-- When `k` calls are active, which `limit` allows, the first computation does the same as the
second one and `k` calls are active again, or it stops because `limit` calls are active and one
more would begin. -/
def Cut (limit k : Nat) (x y : Run α) : Prop :=
  k ≤ limit → ∀ ⦃m : Machine⦄, m.active = k →
    (x m = y m ∧ ∀ r m', x m = some (r, m') → m'.active = k) ∨
      ∃ m', x m = some (.error (.stackOverflow (limit + 1) limit), m')

theorem Cut.refl {limit k : Nat} {x : Run α}
    (keeps : ∀ m r m', x m = some (r, m') → m'.active = m.active) : Cut limit k x x := by
  intro _ m active
  exact .inl ⟨rfl, fun r m' gives => (keeps m r m' gives).trans active⟩

theorem Cut.andThen {limit k : Nat} {x y : Run α} {f g : α → Run β} (first : Cut limit k x y)
    (second : ∀ a, Cut limit k (f a) (g a)) : Cut limit k (x >>= f) (y >>= g) := by
  intro allowed m active
  rcases first allowed active with ⟨same, keeps⟩ | ⟨m', cut⟩
  · cases outcome : x m with
    | none =>
        have nothing : (x >>= f) m = none := bind_none outcome
        refine .inl ⟨nothing.trans (bind_none (same ▸ outcome)).symm, fun r m' gives => ?_⟩
        simp [nothing] at gives
    | some result =>
        obtain ⟨r, m₁⟩ := result
        have outcome' := same.symm.trans outcome
        cases r with
        | ok a =>
            rw [bind_ok outcome, bind_ok outcome']
            exact second a allowed (keeps _ _ outcome)
        | error e =>
            have stopped : (x >>= f) m = some (.error e, m₁) := bind_error outcome
            refine .inl ⟨stopped.trans (bind_error outcome').symm, fun r m' gives => ?_⟩
            cases stopped.symm.trans gives
            exact keeps _ _ outcome
  · exact .inr ⟨m', bind_eq_some_iff.mpr (.inl ⟨_, cut, rfl⟩)⟩

theorem Cut.calling {limit k : Nat} {x y : Run α} (room : k < limit)
    (body : Cut limit (k + 1) x y) : Cut limit k (calling x) (calling y) := by
  intro _ m active
  have raised : ({ m with active := m.active + 1 } : Machine).active = k + 1 := by simp [active]
  rcases body room raised with ⟨same, keeps⟩ | ⟨m', cut⟩
  · refine .inl ⟨by simp only [Run.calling, same], fun r m' gives => ?_⟩
    obtain ⟨m₁, inside, rfl⟩ := calling_eq_some_iff.mp gives
    simp [keeps r m₁ inside]
  · exact .inr ⟨_, calling_eq_some_iff.mpr ⟨m', cut, rfl⟩⟩

theorem Cut.guarded {limit limit' k : Nat} (le : limit ≤ limit') {x y : Run α}
    (call : k < limit → Cut limit k x y) : Cut limit k (guarded limit x) (guarded limit' y) := by
  intro allowed m active
  simp only [guarded_apply]
  by_cases full : limit ≤ m.active
  · -- All the calls that the lower limit allows are active, so this is where it cuts.
    have exactly : m.active = limit := by omega
    exact .inr ⟨m, by rw [if_pos full, exactly]⟩
  · have room : ¬ limit' ≤ m.active := by omega
    rw [if_neg full, if_neg room]
    exact call (by omega) allowed active

theorem cut_congruence {limit limit' : Nat} (le : limit ≤ limit') :
    Congruence limit limit' 0 fun k {_} x y => Cut limit k x y where
  exhausted same := by
    rw [same rfl]
    exact Cut.refl fun _ _ _ gives => by simp [exhausted] at gives
  ofExcept _ := Cut.refl fun _ _ _ gives => by
    cases gives
    rfl
  act _ := Cut.refl fun _ _ _ gives => by
    cases gives
    rfl
  andThen first second := first.andThen second
  guarded call := Cut.guarded le call
  calling room body := Cut.calling room body

end Run

/-- **The limit of active calls only cuts evaluations off.**  An evaluation that ends under a
limit with anything but a stack overflow ends in the same way under every higher limit.  An
evaluation that ends under the higher limit ends under the lower one in the same way, or with
the overflow of the lower limit. -/
theorem limit_only_cuts {limit limit' : Nat} (le : limit ≤ limit') (node : Node DefId)
    (f : FrameId) (s : Store) :
    (∀ r m, Ends limit node f ⟨s, 0⟩ r m →
      (∀ depth bound, r ≠ .error (.stackOverflow depth bound)) → Ends limit' node f ⟨s, 0⟩ r m) ∧
    (∀ r m, Ends limit' node f ⟨s, 0⟩ r m →
      Ends limit node f ⟨s, 0⟩ r m ∨
        ∃ m', Ends limit node f ⟨s, 0⟩ (.error (.stackOverflow (limit + 1) limit)) m') := by
  have cut : ∀ budget, Run.Cut limit 0 (evaluate limit budget node f)
      (evaluate limit' budget node f) :=
    fun budget => (Run.cut_congruence le).evaluate budget 0 node f
  have idle : (⟨s, 0⟩ : Machine).active = 0 := rfl
  constructor
  · rintro r m ⟨budget, gives⟩ other
    rcases cut budget (Nat.zero_le limit) idle with ⟨same, _⟩ | ⟨m', overflow⟩
    · exact ⟨budget, same ▸ gives⟩
    · cases gives.symm.trans overflow
      exact absurd rfl (other _ _)
  · rintro r m ⟨budget, gives⟩
    rcases cut budget (Nat.zero_le limit) idle with ⟨same, _⟩ | ⟨m', overflow⟩
    · exact .inl ⟨budget, same.trans gives⟩
    · exact .inr ⟨m', budget, overflow⟩

/-- A block that calls itself once through `this`, and its call. -/
def twoCalls : Node DefId :=
  .list [.assign "f" (.block ⟨0⟩ ["n"] [.branchElse (.var "n") [.call "this" [.bool false]]
    [.int 7]]), .call "f" [.bool true]]

/-- Two calls are active at once in `twoCalls`: the limit 2 lets it end, and what it does under
the limit 1 is one of two things. -/
theorem limit_only_cuts_twoCalls :
    1 ≤ 2 ∧ ∃ m, Ends 2 twoCalls ⟨0⟩ ⟨(Interpreter.fresh 2).store, 0⟩ (.ok (.int 7)) m ∧
      (Ends 1 twoCalls ⟨0⟩ ⟨(Interpreter.fresh 2).store, 0⟩ (.ok (.int 7)) m ∨
        ∃ m', Ends 1 twoCalls ⟨0⟩ ⟨(Interpreter.fresh 2).store, 0⟩
          (.error (.stackOverflow 2 1)) m') := by
  have ends : ∃ m, Ends 2 twoCalls ⟨0⟩ ⟨(Interpreter.fresh 2).store, 0⟩ (.ok (.int 7)) m :=
    ⟨_, 20, rfl⟩
  obtain ⟨m, ends⟩ := ends
  exact ⟨by decide, m, ends, (limit_only_cuts (by decide) twoCalls ⟨0⟩ _).2 _ _ ends⟩

end BlockScript
