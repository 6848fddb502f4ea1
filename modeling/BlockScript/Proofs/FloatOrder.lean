import Mathlib

/-!
# The order of floats

Two floats compare as less, equal or greater, or not at all if one of them is a NaN
(`floatOrdering`).  All other floats stand in one line, the two zeros at the same place.  The place
of a float is its rank: first the side of zero on which it lies, then, on the same side, the
exponent and the mantissa (`rank`).  Ranks are ordered lexicographically, and floats compare as
their ranks do (`floatOrdering_eq_some`), so what holds in every linear order holds for floats that
are numbers.
-/

set_option autoImplicit false

open Float.Model (UnpackedFloat)

namespace BlockScript

/-! ## Ranks -/

/-- A place in the line of all floats. -/
abbrev Rank := ℤ ×ₗ ℤ ×ₗ ℤ

/-- The place of an unpacked float.  A NaN has none; it is put at zero. -/
def rank : UnpackedFloat → Rank
  | .infinity .negative => toLex (-2, toLex (0, 0))
  | .finite .negative m e _ => toLex (-1, toLex (-e, -(m : ℤ)))
  | .zero _ => 0
  | .finite .positive m e _ => toLex (1, toLex (e, (m : ℤ)))
  | .infinity .positive => toLex (2, toLex (0, 0))
  | .notANumber => 0

/-- Negation turns the line around. -/
theorem rank_neg (x : UnpackedFloat) : rank x.neg = -rank x := by
  cases x with
  | infinity s => cases s <;> rfl
  | zero s => rfl
  | notANumber => rfl
  | finite s m e p =>
      cases s with
      | positive => rfl
      | negative =>
          change toLex ((1 : ℤ), toLex (e, (m : ℤ))) = toLex (- -1, toLex (- -e, - -(m : ℤ)))
          rw [neg_neg, neg_neg, neg_neg]

section Comparing

variable {m m' : ℕ} {e e' : ℤ}

theorem cmp_toLex {α β : Type} [LinearOrder α] [LinearOrder β] (a b : α) (c d : β) :
    cmp (toLex (a, c)) (toLex (b, d)) = (cmp a b).then (cmp c d) := by
  simp only [cmp_eq_compare, Prod.Lex.compare_def]
  rfl

theorem compare_positive (p : 0 < m) (p' : 0 < m') :
    (UnpackedFloat.finite .positive m e p).compare (.finite .positive m' e' p') =
      some (cmp (rank (.finite .positive m e p)) (rank (.finite .positive m' e' p'))) := by
  have mantissas : cmp (m : ℤ) m' = cmp m m' := Nat.strictMono_cast.cmp_map_eq m m'
  rw [rank, rank, cmp_toLex, cmp_toLex, mantissas, cmp_eq_compare e, cmp_eq_compare m]
  rfl

theorem compare_negative (p : 0 < m) (p' : 0 < m') :
    (UnpackedFloat.finite .negative m e p).compare (.finite .negative m' e' p') =
      some (cmp (rank (.finite .negative m e p)) (rank (.finite .negative m' e' p'))) := by
  have turned : StrictAnti fun r : Rank => -r := fun _ _ less => neg_lt_neg less
  calc
    _ = ((UnpackedFloat.finite .positive m e p).compare (.finite .positive m' e' p')).map
        Ordering.swap := rfl
    _ = some (cmp (rank (.finite .positive m' e' p')) (rank (.finite .positive m e p))) := by
        rw [compare_positive, Option.map_some, cmp_swap]
    _ = some (cmp (-rank (.finite .positive m e p)) (-rank (.finite .positive m' e' p'))) := by
        rw [turned.cmp_map_eq]

/-- **Unpacked floats that are numbers compare as their ranks do.**  Only on the same side of zero
is there more to compare than the side. -/
theorem compare_eq_some {x y : UnpackedFloat} (left : x.isNaN = false) (right : y.isNaN = false) :
    x.compare y = some (cmp (rank x) (rank y)) := by
  cases x with
  | notANumber => cases left
  | infinity s =>
      cases y with
      | notANumber => cases right
      | infinity s' => cases s <;> cases s' <;> rfl
      | zero s' => cases s <;> rfl
      | finite s' m' e' p' => cases s <;> cases s' <;> rfl
  | zero s =>
      cases y with
      | notANumber => cases right
      | infinity s' => cases s' <;> rfl
      | zero s' => rfl
      | finite s' m' e' p' => cases s' <;> rfl
  | finite s m e p =>
      cases y with
      | notANumber => cases right
      | infinity s' => cases s <;> cases s' <;> rfl
      | zero s' => cases s <;> rfl
      | finite s' m' e' p' =>
          cases s with
          | negative =>
              cases s' with
              | negative => exact compare_negative p p'
              | positive => rfl
          | positive =>
              cases s' with
              | negative => rfl
              | positive => exact compare_positive p p'

end Comparing

/-! ## Floats -/

/-- The place of a float. -/
def floatRank (x : Float) : Rank := rank x.toModel.unpack

/-- How two floats compare, if they do. -/
def floatOrdering (x y : Float) : Option Ordering := x.toModel.unpack.compare y.toModel.unpack

section Floats

variable {x y : Float}

/-- **Floats that are numbers compare as their ranks do.** -/
theorem floatOrdering_eq_some (left : x.isNaN = false) (right : y.isNaN = false) :
    floatOrdering x y = some (cmp (floatRank x) (floatRank y)) :=
  compare_eq_some left right

theorem floatOrdering_eq_none (nan : (x.isNaN || y.isNaN) = true) : floatOrdering x y = none := by
  have unordered : ∀ u : UnpackedFloat, u.compare .notANumber = none := by
    intro u
    cases u <;> rfl
  rcases Bool.or_eq_true_iff.mp nan with left | right
  · rw [floatOrdering, UnpackedFloat.isNaN_iff.mp left]
    rfl
  · rw [floatOrdering, UnpackedFloat.isNaN_iff.mp right]
    exact unordered _

theorem floatOrdering_swap (x y : Float) :
    floatOrdering y x = (floatOrdering x y).map Ordering.swap := by
  by_cases nan : (x.isNaN || y.isNaN) = true
  · rw [floatOrdering_eq_none nan, floatOrdering_eq_none (Bool.or_comm .. ▸ nan), Option.map_none]
  · obtain ⟨left, right⟩ : x.isNaN = false ∧ y.isNaN = false := by simpa using nan
    rw [floatOrdering_eq_some left right, floatOrdering_eq_some right left, Option.map_some,
      cmp_swap]

theorem beq_eq_floatOrdering (x y : Float) : (x == y) = (floatOrdering x y == some .eq) := rfl

theorem beq_floats_comm (x y : Float) : (x == y) = (y == x) := by
  rw [beq_eq_floatOrdering, beq_eq_floatOrdering, floatOrdering_swap x y]
  rcases floatOrdering x y with _ | _ | _ | _ <;> rfl

theorem lt_eq_floatOrdering (x y : Float) : decide (x < y) = (floatOrdering x y == some .lt) := by
  change decide (x.lt y = true) = _
  rw [Bool.decide_eq_true]
  exact Bool.decide_eq_true

theorem le_eq_floatOrdering (x y : Float) :
    decide (x ≤ y) = (floatOrdering x y).any Ordering.isLE := by
  change decide (x.le y = true) = _
  rw [Bool.decide_eq_true]
  exact Bool.decide_eq_true

end Floats

end BlockScript
