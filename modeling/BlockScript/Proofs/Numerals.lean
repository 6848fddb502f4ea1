import BlockScript.Number.Decimal
import Mathlib

/-!
# Digits of decimals

Every decimal that is printed is a number of units of a power of ten (`Decimal.shortest_cases`), so
what stands before and behind its point are digits (`Decimal.isNumeral_shortest`).

The number that is written with these digits is the number of units
(`Decimal.natOfDigits_ofUnits`).  It does not matter where the point stands: zeros are written in
front if it stands before all digits, and behind if it stands behind them.
-/

set_option autoImplicit false

namespace BlockScript

/-! ## Rows of digits -/

namespace Decimal

variable {d : Decimal}

/-- The digits of a decimal are digits. -/
def IsNumeral (d : Decimal) : Prop := ∀ x ∈ d.digits, x.isDigit = true

theorem isNumeral_ofUnits (n : Nat) (unit : Int) : (ofUnits n unit).IsNumeral := by
  intro x member
  have kept : x ∈ (Nat.toDigits 10 n).reverse :=
    (List.dropWhile_sublist _).mem (List.mem_reverse.mp member)
  exact Nat.isDigit_of_mem_toDigits (by decide) (by decide) (List.mem_reverse.mp kept)

theorem isDigit_of_mem_replicate {n : Nat} {x : Char} (member : x ∈ List.replicate n '0') :
    x.isDigit = true := by
  rw [List.eq_of_mem_replicate member]
  rfl

namespace IsNumeral

theorem whole (numeral : d.IsNumeral) : ∀ x ∈ d.whole, x.isDigit = true := by
  intro x member
  unfold Decimal.whole at member
  split at member
  · rw [List.mem_singleton.mp member]
    rfl
  · rcases List.mem_append.mp member with front | filled
    · exact numeral x (List.mem_of_mem_take front)
    · exact isDigit_of_mem_replicate filled
  · rw [List.mem_singleton.mp member]
    rfl

theorem fraction (numeral : d.IsNumeral) : ∀ x ∈ d.fraction, x.isDigit = true := by
  intro x member
  unfold Decimal.fraction at member
  split at member
  · split at member
    · exact numeral x (List.mem_of_mem_drop member)
    · rw [List.mem_singleton.mp member]
      rfl
  · rcases List.mem_append.mp member with filled | back
    · exact isDigit_of_mem_replicate filled
    · exact numeral x back

end IsNumeral

end Decimal

theorem Magnitude.exists_ofUnits_of_mem_neighbours {v : Magnitude} {unit : Int} {d : Decimal}
    (member : d ∈ v.neighbours unit) : ∃ n, d = .ofUnits n unit := by
  have either {near : Prop} [Decidable near] {a b : Decimal}
      (member : d ∈ if near then [a, b] else [b, a]) : d = a ∨ d = b := by
    split at member
    · simpa using member
    · simpa [or_comm] using member
  cases unit with
  | ofNat u => exact (either member).elim (⟨_, ·⟩) (⟨_, ·⟩)
  | negSucc u => exact (either member).elim (⟨_, ·⟩) (⟨_, ·⟩)

namespace Decimal

/-- The digits that are printed have been tested, or they are all the digits there are. -/
theorem shortest_cases (x : Float) :
    ((shortest x).readsBack x = true ∧ ∃ n unit, shortest x = ofUnits n unit) ∨
      shortest x = (Magnitude.ofFloat x).expansion := by
  unfold shortest
  dsimp only
  generalize search : (List.range 17).findSome? _ = found
  cases found with
  | none => exact .inr rfl
  | some d =>
      obtain ⟨n, -, chosen⟩ := List.exists_of_findSome?_eq_some search
      obtain ⟨units, same⟩ :=
        Magnitude.exists_ofUnits_of_mem_neighbours (List.mem_of_find?_eq_some chosen)
      exact .inl ⟨List.find?_some chosen, units, _, same⟩

theorem exists_ofUnits_shortest (x : Float) : ∃ n unit, shortest x = ofUnits n unit := by
  rcases shortest_cases x with ⟨-, units⟩ | expanded
  · exact units
  · exact ⟨_, _, expanded⟩

theorem isNumeral_shortest (x : Float) : (shortest x).IsNumeral := by
  obtain ⟨n, unit, same⟩ := exists_ofUnits_shortest x
  rw [same]
  exact isNumeral_ofUnits n unit

end Decimal

/-! ## Written decimals -/

theorem natOfDigits_append (front back : List Char) :
    natOfDigits (front ++ back) = 10 ^ back.length * natOfDigits front + natOfDigits back := by
  change Nat.ofDigitChars 10 (front ++ back) 0 = _
  rw [Nat.ofDigitChars_append, Nat.ofDigitChars_eq_ofDigitChars_zero]
  rfl

theorem natOfDigits_zeros (n : Nat) : natOfDigits (List.replicate n '0') = 0 := by
  change Nat.ofDigitChars 10 _ 0 = 0
  rw [Nat.ofDigitChars_replicate_zero, Nat.mul_zero]

namespace Decimal

/-- The point stands before the last digit: zeros stand in front, if any. -/
theorem written_of_lt {d : Decimal} (inside : d.point < d.digits.length)
    (nonempty : d.digits ≠ []) :
    (∃ zeros, d.whole ++ d.fraction = List.replicate zeros '0' ++ d.digits) ∧
      (d.fraction.length : Int) = d.digits.length - d.point := by
  obtain ⟨digits, point⟩ := d
  have size : 0 < digits.length := List.length_pos_iff.mpr nonempty
  match point, inside with
  | .ofNat 0, _ =>
      have back : (⟨digits, .ofNat 0⟩ : Decimal).fraction = digits := if_pos size
      rw [back]
      exact ⟨⟨1, rfl⟩, (Int.sub_zero _).symm⟩
  | .ofNat (p + 1), inside =>
      have inside : p + 1 < digits.length := Int.ofNat_lt.mp inside
      have front : (⟨digits, .ofNat (p + 1)⟩ : Decimal).whole = digits.take (p + 1) := by
        change digits.take (p + 1) ++ List.replicate (p + 1 - digits.length) '0' = _
        rw [Nat.sub_eq_zero_of_le inside.le, List.replicate_zero, List.append_nil]
      have back : (⟨digits, .ofNat (p + 1)⟩ : Decimal).fraction = digits.drop (p + 1) :=
        if_pos inside
      rw [front, back]
      refine ⟨⟨0, List.take_append_drop _ _⟩, ?_⟩
      rw [List.length_drop]
      change ((digits.length - (p + 1) : Nat) : Int) = digits.length - ((p + 1 : Nat) : Int)
      omega
  | .negSucc q, _ =>
      have back : (⟨digits, .negSucc q⟩ : Decimal).fraction =
          List.replicate (q + 1) '0' ++ digits := rfl
      rw [back]
      refine ⟨⟨q + 2, rfl⟩, ?_⟩
      rw [List.length_append, List.length_replicate]
      change ((q + 1 + digits.length : Nat) : Int) = digits.length - Int.negSucc q
      omega

/-- The point stands behind the last digit: zeros stand between them, and one behind the point. -/
theorem written_of_le {d : Decimal} (behind : d.digits.length ≤ d.point)
    (nonempty : d.digits ≠ []) :
    (∃ zeros : Nat, d.whole ++ d.fraction = d.digits ++ List.replicate (zeros + 1) '0' ∧
      d.point = d.digits.length + zeros) ∧ d.fraction.length = 1 := by
  obtain ⟨digits, point⟩ := d
  have size : 0 < digits.length := List.length_pos_iff.mpr nonempty
  obtain ⟨p, rfl⟩ : ∃ p : Nat, point = .ofNat (p + 1) := by
    have behind : (digits.length : Int) ≤ point := behind
    refine ⟨(point - 1).toNat, ?_⟩
    change point = (((point - 1).toNat + 1 : Nat) : Int)
    omega
  have behind : digits.length ≤ p + 1 := Int.ofNat_le.mp behind
  have front : (⟨digits, .ofNat (p + 1)⟩ : Decimal).whole =
      digits ++ List.replicate (p + 1 - digits.length) '0' := by
    change digits.take (p + 1) ++ _ = _
    rw [List.take_of_length_le behind]
  have back : (⟨digits, .ofNat (p + 1)⟩ : Decimal).fraction = ['0'] :=
    if_neg (Nat.not_lt.mpr behind)
  rw [front, back]
  refine ⟨⟨p + 1 - digits.length, ?_, ?_⟩, rfl⟩
  · rw [List.append_assoc, List.replicate_succ']
  · change ((p + 1 : Nat) : Int) = digits.length + ((p + 1 - digits.length : Nat) : Int)
    omega

/-- **The number that a written decimal denotes.** -/
theorem natOfDigits_written {d : Decimal} (nonempty : d.digits ≠ []) :
    (natOfDigits (d.whole ++ d.fraction) : ℚ) =
      natOfDigits d.digits * 10 ^ (d.point - d.digits.length) * 10 ^ d.fraction.length := by
  rw [mul_assoc, ← zpow_natCast, ← zpow_add₀ (by norm_num)]
  rcases lt_or_ge d.point d.digits.length with inside | behind
  · obtain ⟨⟨zeros, written⟩, size⟩ := written_of_lt inside nonempty
    have settled : d.point - d.digits.length + (d.fraction.length : Int) = 0 := by omega
    rw [written, natOfDigits_append, natOfDigits_zeros, settled]
    simp
  · obtain ⟨⟨zeros, written, point⟩, size⟩ := written_of_le behind nonempty
    have more : d.point - d.digits.length + (d.fraction.length : Int) = (zeros + 1 : Nat) := by
      omega
    rw [written, natOfDigits_append, natOfDigits_zeros, more, List.length_replicate, zpow_natCast]
    push_cast
    ring

/-- A row of digits is its digits up to the last that is not zero, and zeros. -/
theorem exists_zeros (n : Nat) (unit : Int) :
    ∃ zeros, Nat.toDigits 10 n = (ofUnits n unit).digits ++ List.replicate zeros '0' := by
  have cut := List.takeWhile_append_dropWhile (p := (· == '0')) (l := (Nat.toDigits 10 n).reverse)
  have all : ∀ x ∈ (Nat.toDigits 10 n).reverse.takeWhile (· == '0'), x = '0' := by
    intro x member
    simpa using List.mem_takeWhile_imp member
  rw [List.eq_replicate_of_mem all] at cut
  have turned := congrArg List.reverse cut
  rw [List.reverse_append, List.reverse_replicate, List.reverse_reverse] at turned
  exact ⟨_, turned.symm⟩

/-- **Units of a power of ten are written as that number of them.** -/
theorem natOfDigits_ofUnits {n : Nat} (positive : 0 < n) (unit : Int) :
    (natOfDigits ((ofUnits n unit).whole ++ (ofUnits n unit).fraction) : ℚ) =
        n * 10 ^ unit * 10 ^ (ofUnits n unit).fraction.length ∧
      0 < (ofUnits n unit).fraction.length ∧
      (ofUnits n unit).fraction.length ≤ max 1 (-unit).toNat := by
  obtain ⟨zeros, row⟩ := exists_zeros n unit
  have value : n = 10 ^ zeros * natOfDigits (ofUnits n unit).digits := by
    have whole : natOfDigits (Nat.toDigits 10 n) = n :=
      Nat.ofDigitChars_toDigits (by decide) (by decide)
    rw [row, natOfDigits_append, natOfDigits_zeros, List.length_replicate, Nat.add_zero] at whole
    exact whole.symm
  have nonempty : (ofUnits n unit).digits ≠ [] := by
    intro empty
    rw [empty] at value
    simp [natOfDigits] at value
    omega
  have point : (ofUnits n unit).point = (ofUnits n unit).digits.length + zeros + unit := by
    change ((Nat.toDigits 10 n).length : Int) + unit = _
    rw [row, List.length_append, List.length_replicate]
    push_cast
    ring
  refine ⟨?_, ?_⟩
  · have place : (ofUnits n unit).point - (ofUnits n unit).digits.length =
        (zeros : Int) + unit := by
      omega
    have scaled : (n : ℚ) = 10 ^ zeros * natOfDigits (ofUnits n unit).digits := by
      exact_mod_cast value
    rw [natOfDigits_written nonempty, place, zpow_add₀ (by norm_num), zpow_natCast]
    conv_rhs => rw [scaled]
    ring
  · rcases lt_or_ge (ofUnits n unit).point (ofUnits n unit).digits.length with inside | behind
    · have size := (written_of_lt inside nonempty).2
      omega
    · have size := (written_of_le behind nonempty).2
      omega

end Decimal

end BlockScript
