import BlockScript.Proofs.Congruence
import BlockScript.Run.Interpreter
import Mathlib.Data.Int.ModEq

/-!
# Arithmetic on whole numbers

Integers have 64 bits, and sums, differences and products wrap.  A tree of such operations may
wrap at every node, but its value is still the one integer that is congruent to the exact value of
the whole tree modulo `2 ^ 64`.  The exact value is that of unbounded integers (`Whole`), and
wrapping commutes with the three operations, so it does not matter whether each node wraps or only
the last one (`Whole.ends`).

It does matter for a quotient, which is taken of the operands as they were wrapped.  It goes
toward zero and fits, except for the least integer divided by `-1`, which is the least integer
again (`toInt_div_eq`).
-/

set_option autoImplicit false

namespace BlockScript

/-! ## Wrapping -/

/-- **The integer that a number wraps to** is the one in range that is congruent to it. -/
theorem eq_toInt_ofInt_iff {z k : Int} :
    k = (Int64.ofInt z).toInt ↔ -2 ^ 63 ≤ k ∧ k < 2 ^ 63 ∧ k ≡ z [ZMOD 2 ^ 64] := by
  rw [Int64.toInt_ofInt]
  change k = z.bmod (2 ^ 64) ↔ _
  constructor
  · rintro rfl
    refine ⟨Int.le_bmod (by decide), Int.bmod_lt (by decide), ?_⟩
    exact Int.bmod_emod
  · rintro ⟨low, high, congruent⟩
    have same : k.bmod (2 ^ 64) = z.bmod (2 ^ 64) := by
      rw [← Int.emod_bmod k, ← Int.emod_bmod z]
      exact congrArg (Int.bmod · (2 ^ 64)) congruent
    rw [← same, Int.bmod_eq_of_le (by omega) (by omega)]

/-- The quotient goes toward zero, except for the one quotient that does not fit. -/
theorem toInt_div_eq (a b : Int64) :
    (a / b).toInt =
      if a.toInt = -2 ^ 63 ∧ b.toInt = -1 then -2 ^ 63 else a.toInt.tdiv b.toInt := by
  split
  · rename_i least
    obtain rfl : a = Int64.minValue := Int64.toInt_inj.mp least.1
    obtain rfl : b = -1 := Int64.toInt_inj.mp least.2
    rfl
  · rename_i fits
    rcases Decidable.not_and_iff_not_or_not.mp fits with other | other
    · exact Int64.toInt_div_of_ne_left a b fun least => other (congrArg Int64.toInt least)
    · exact Int64.toInt_div_of_ne_right a b fun minus => other (congrArg Int64.toInt minus)

/-! ## Trees -/

/-- Trees of sums, differences and products over integer literals and names that are bound to
integers as seen from a frame, each with its exact value. -/
inductive Whole (s : Store) (f : FrameId) : Node DefId → Int → Prop where
  | literal (n : Int64) : Whole s f (.int n) n.toInt
  | bound {name : String} {n : Int64} (here : s.lookup f name = .int n) :
      Whole s f (.var name) n.toInt
  | add {left right : Node DefId} {a b : Int} (first : Whole s f left a)
      (second : Whole s f right b) : Whole s f (.arith .add left right) (a + b)
  | sub {left right : Node DefId} {a b : Int} (first : Whole s f left a)
      (second : Whole s f right b) : Whole s f (.arith .sub left right) (a - b)
  | mul {left right : Node DefId} {a b : Int} (first : Whole s f left a)
      (second : Whole s f right b) : Whole s f (.arith .mul left right) (a * b)

section Evaluation

variable {limit active : Nat} {s : Store} {f : FrameId}

/-- Both operands are evaluated, and then the operator is applied. -/
theorem Ends.arith (op : ArithOp) {left right : Node DefId} {l r : Value} {m m₁ m₂ : Machine}
    (first : Ends limit left f m (.ok l) m₁) (second : Ends limit right f m₁ (.ok r) m₂) :
    Ends limit (.arith op left right) f m (op.onValues l r) m₂ := by
  obtain ⟨b₁, gives₁⟩ := first
  obtain ⟨b₂, gives₂⟩ := second
  refine ⟨max b₁ b₂ + 1, ?_⟩
  have gives₁ := evaluate_budget (Nat.le_max_left b₁ b₂) left f gives₁
  have gives₂ := evaluate_budget (Nat.le_max_right b₁ b₂) right f gives₂
  exact (Run.bind_ok gives₁).trans (Run.bind_ok gives₂)

/-- **A tree evaluates to what its exact value wraps to**, and the store stays as it is. -/
theorem Whole.ends {node : Node DefId} {z : Int} (whole : Whole s f node z) :
    Ends limit node f ⟨s, active⟩ (.ok (.int (.ofInt z))) ⟨s, active⟩ := by
  induction whole with
  | literal n =>
      rw [Int64.ofInt_toInt]
      exact ⟨1, rfl⟩
  | bound here =>
      rw [Int64.ofInt_toInt, ← here]
      exact ⟨1, rfl⟩
  | add _ _ first second =>
      rw [Int64.ofInt_add]
      exact first.arith .add second
  | sub _ _ first second =>
      rw [Int64.ofInt_sub]
      exact first.arith .sub second
  | mul _ _ first second =>
      rw [Int64.ofInt_mul]
      exact first.arith .mul second

/-- A quotient of two integers, on the values of its operands. -/
theorem Ends.div {left right : Node DefId} {l r : Int64} {m : Machine}
    (first : Ends limit left f m (.ok (.int l)) m)
    (second : Ends limit right f m (.ok (.int r)) m) :
    Ends limit (.arith .div left right) f m
      (if r = 0 then .error .divisionByZero else .ok (.int (l / r))) m := by
  have ends := first.arith .div second
  rw [ArithOp.onValues, ArithOp.onInts] at ends
  split at ends <;> rename_i zero
  · rw [if_pos zero]
    exact ends
  · rw [if_neg zero]
    exact ends

end Evaluation

/-- **Arithmetic on integers is exact modulo `2 ^ 64`.**  A tree of sums, differences and products
over integers evaluates in every frame, under every limit and with any number of calls active, and
changes nothing; its value is the one integer in range that is congruent to the exact value.  A
quotient of two such trees fails exactly if the right one evaluates to zero, and otherwise it is
the quotient of the two values toward zero, except that the least integer divided by `-1` is the
least integer. -/
theorem whole_arithmetic_wraps (limit active : Nat) (s : Store) (f : FrameId) :
    (∀ node z, Whole s f node z →
      ∃ n : Int64, Ends limit node f ⟨s, active⟩ (.ok (.int n)) ⟨s, active⟩ ∧
        ∀ k : Int, k = n.toInt ↔ -2 ^ 63 ≤ k ∧ k < 2 ^ 63 ∧ k ≡ z [ZMOD 2 ^ 64]) ∧
    ∀ left right a b, Whole s f left a → Whole s f right b →
      ∃ l r : Int64, Ends limit left f ⟨s, active⟩ (.ok (.int l)) ⟨s, active⟩ ∧
        Ends limit right f ⟨s, active⟩ (.ok (.int r)) ⟨s, active⟩ ∧
        ((∃ m, Ends limit (.arith .div left right) f ⟨s, active⟩ (.error .divisionByZero) m) ↔
          r = 0) ∧
        (r ≠ 0 → ∃ q : Int64,
          Ends limit (.arith .div left right) f ⟨s, active⟩ (.ok (.int q)) ⟨s, active⟩ ∧
          q.toInt =
            if l.toInt = -2 ^ 63 ∧ r.toInt = -1 then -2 ^ 63 else l.toInt.tdiv r.toInt) := by
  refine ⟨fun node z whole => ⟨.ofInt z, whole.ends, fun k => eq_toInt_ofInt_iff⟩,
    fun left right a b first second => ?_⟩
  have quotient : Ends limit (.arith .div left right) f ⟨s, active⟩ _ ⟨s, active⟩ :=
    first.ends.div second.ends
  refine ⟨.ofInt a, .ofInt b, first.ends, second.ends, ⟨?_, fun zero => ?_⟩, fun nonzero => ?_⟩
  · rintro ⟨m, fails⟩
    by_contra nonzero
    rw [if_neg nonzero] at quotient
    cases (fails.unique quotient).1
  · rw [if_pos zero] at quotient
    exact ⟨_, quotient⟩
  · rw [if_neg nonzero] at quotient
    exact ⟨_, quotient, toInt_div_eq _ _⟩

/-- A store in which `x` is the largest integer. -/
def largestBound : Store := (Interpreter.fresh 0).store.bind ⟨0⟩ "x" (.int Int64.maxValue)

/-- `(x + 1) * x`, which overflows twice. -/
def overflowing : Node DefId := .arith .mul (.arith .add (.var "x") (.int 1)) (.var "x")

/-- The product wraps to the least integer, and so does its quotient by `-1`. -/
theorem whole_arithmetic_wraps_overflowing :
    Whole largestBound ⟨0⟩ overflowing ((2 ^ 63 - 1 + 1) * (2 ^ 63 - 1)) ∧
    Whole largestBound ⟨0⟩ (.int (-1)) (-1) ∧
    Ends 0 overflowing ⟨0⟩ ⟨largestBound, 0⟩ (.ok (.int Int64.minValue)) ⟨largestBound, 0⟩ ∧
    Ends 0 (.arith .div overflowing (.int (-1))) ⟨0⟩ ⟨largestBound, 0⟩
      (.ok (.int Int64.minValue)) ⟨largestBound, 0⟩ := by
  have largest : Whole largestBound ⟨0⟩ (.var "x") (2 ^ 63 - 1) := .bound (n := Int64.maxValue) rfl
  have product : Whole largestBound ⟨0⟩ overflowing ((2 ^ 63 - 1 + 1) * (2 ^ 63 - 1)) :=
    .mul (.add largest (.literal 1)) largest
  have minus : Whole largestBound ⟨0⟩ (.int (-1)) (-1) := .literal (-1)
  obtain ⟨wraps, divides⟩ := whole_arithmetic_wraps 0 0 largestBound ⟨0⟩
  obtain ⟨n, value, range⟩ := wraps _ _ product
  obtain ⟨l, r, left, right, -, quotient⟩ := divides _ _ _ _ product minus
  -- The value of the product is the one that the congruence leaves.
  obtain rfl : Int64.minValue = n :=
    Int64.toInt_inj.mp ((range (-2 ^ 63)).mpr ⟨by decide, by decide, by decide⟩)
  obtain ⟨same, -⟩ := left.unique value
  cases same
  obtain ⟨same, -⟩ := right.unique ⟨1, rfl⟩
  cases same
  obtain ⟨q, fits, exact⟩ := quotient (by decide)
  obtain rfl : Int64.minValue = q := Int64.toInt_inj.mp exact.symm
  exact ⟨product, minus, value, fits⟩

end BlockScript
