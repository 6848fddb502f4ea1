import BlockScript.Proofs.Decimals
import Mathlib

/-!
# Decimals that are floats

A decimal literal is rounded to the nearest float.  If it denotes a float, nothing is rounded: the
literal is read as that float (`ofScientific_exact`).

A number is given by a mantissa and an exponent of two.  A float of its size has one exponent
(`Canonical`), and rounding to that exponent drops nothing but zeros (`roundWithAccuracy_exact`).
The literal is computed as a quotient by a power of ten, either on whole numbers or, if there are
few digits, on floats that are both exact (`ofNat_exact`, `exists_power_exact`).  The quotient is
taken at an exponent that is low enough for the result, so there is no remainder (`div_exact`).

The floats themselves are unpacked to such numbers (`unpack_cases`).
-/

set_option autoImplicit false

open Float.Model (UnpackedFloat Format totalExponent)
open Float.Model.UnpackedFloat (Sign Accuracy ExtendedMantissa shiftToExponent shiftToTargetExponent
  roundWithAccuracy divCore packComponents)

namespace BlockScript

/-- A mantissa with the exponent that a float of its size has. -/
def Canonical (mantissa : Nat) (exponent : Int) : Prop :=
  Format.binary64.targetExponent (totalExponent mantissa exponent) = exponent

theorem targetExponent_eq (t : Int) : Format.binary64.targetExponent t = max (t - 53) (-1074) :=
  rfl

/-! ## Rounding -/

theorem shiftRight_exact (mantissa shift : Nat) :
    (⟨mantissa * 2 ^ shift, false, false⟩ : ExtendedMantissa) >>> shift =
      ⟨mantissa, false, false⟩ := by
  change shift.repeat ExtendedMantissa.shiftRightOne _ = _
  induction shift generalizing mantissa with
  | zero => simp [Nat.repeat]
  | succ shift ih =>
      rw [Nat.repeat, Nat.pow_succ', ← Nat.mul_assoc, ih]
      simp [ExtendedMantissa.shiftRightOne]

theorem totalExponent_shift {mantissa : Nat} (positive : 0 < mantissa) (exponent : Int)
    (shift : Nat) :
    totalExponent (mantissa * 2 ^ shift) (exponent - shift) = totalExponent mantissa exponent := by
  have log : (mantissa * 2 ^ shift).log2 = mantissa.log2 + shift := by
    induction shift with
    | zero => simp
    | succ shift ih =>
        have double : mantissa * 2 ^ (shift + 1) = 2 * (mantissa * 2 ^ shift) := by ring
        rw [double, Nat.log2_two_mul (by positivity), ih, Nat.add_assoc]
  simp only [totalExponent, log]
  push_cast
  omega

theorem shiftToTargetExponent_exact {mantissa : Nat} {exponent : Int} (positive : 0 < mantissa)
    (canonical : Canonical mantissa exponent) (shift : Nat) :
    shiftToTargetExponent .binary64 (mantissa * 2 ^ shift) (exponent - shift) .exact =
      (⟨mantissa, false, false⟩, exponent) := by
  have amount : (exponent - (exponent - shift)).toNat = shift := by omega
  rw [shiftToTargetExponent, totalExponent_shift positive, canonical, shiftToExponent]
  simp only [amount, ExtendedMantissa.ofMantissaAndAccuracy, shiftRight_exact]
  rw [Int.sub_add_cancel]

/-- Rounding takes a number as it is if a float is equal to it. -/
theorem roundWithAccuracy_exact {mantissa : Nat} {exponent : Int} (positive : 0 < mantissa)
    (canonical : Canonical mantissa exponent) (sign : Sign) (shift : Nat) :
    roundWithAccuracy .binary64 sign (mantissa * 2 ^ shift) (exponent - shift) .exact =
      .finite sign mantissa exponent positive := by
  have again := shiftToTargetExponent_exact positive canonical 0
  simp only [Nat.pow_zero, Nat.mul_one, Nat.cast_zero, Int.sub_zero] at again
  rw [roundWithAccuracy, shiftToTargetExponent_exact positive canonical]
  simp only [ExtendedMantissa.roundedMantissa, ExtendedMantissa.accuracy,
    Accuracy.roundToNearestEven, again]
  rw [dif_neg positive.ne']

/-! ## Division -/

/-- A number lies between the powers of two around its total exponent. -/
theorem le_value_lt {mantissa : Nat} (positive : 0 < mantissa) (exponent : Int) :
    (2 : ℚ) ^ (totalExponent mantissa exponent - 1) ≤ mantissa * 2 ^ exponent ∧
      mantissa * 2 ^ exponent < (2 : ℚ) ^ totalExponent mantissa exponent := by
  have below : (2 : ℚ) ^ mantissa.log2 ≤ mantissa := by
    exact_mod_cast Nat.log2_self_le positive.ne'
  have above : (mantissa : ℚ) < 2 ^ (mantissa.log2 + 1) := by
    exact_mod_cast Nat.lt_log2_self (n := mantissa)
  have low : totalExponent mantissa exponent - 1 = (mantissa.log2 : ℕ) + exponent := by
    rw [totalExponent]
    omega
  have high : totalExponent mantissa exponent = (mantissa.log2 + 1 : ℕ) + exponent := by
    rw [totalExponent]
    omega
  have two : (2 : ℚ) ≠ 0 := two_ne_zero
  have scale : (0 : ℚ) < 2 ^ exponent := by positivity
  constructor
  · rw [low, zpow_add₀ two, zpow_natCast]
    exact mul_le_mul_of_nonneg_right below scale.le
  · rw [high, zpow_add₀ two, zpow_natCast]
    exact mul_lt_mul_of_pos_right above scale

section Division

variable {m₁ m₂ m : Nat} {e₁ e₂ e : Int}

/-- A quotient is not smaller than the total exponents of its operands say. -/
theorem totalExponent_quotient (p₁ : 0 < m₁) (p₂ : 0 < m₂) (p : 0 < m)
    (quotient : (m₁ : ℚ) * 2 ^ e₁ = m * 2 ^ e * (m₂ * 2 ^ e₂)) :
    totalExponent m₁ e₁ - totalExponent m₂ e₂ ≤ totalExponent m e := by
  have product : (2 : ℚ) ^ (totalExponent m₁ e₁ - 1) <
      2 ^ (totalExponent m e + totalExponent m₂ e₂) := by
    calc (2 : ℚ) ^ (totalExponent m₁ e₁ - 1) ≤ m₁ * 2 ^ e₁ := (le_value_lt p₁ e₁).1
      _ = m * 2 ^ e * (m₂ * 2 ^ e₂) := quotient
      _ < 2 ^ totalExponent m e * 2 ^ totalExponent m₂ e₂ := by
        have first := (le_value_lt p e).2
        have second := (le_value_lt p₂ e₂).2
        gcongr
      _ = 2 ^ (totalExponent m e + totalExponent m₂ e₂) := (zpow_add₀ two_ne_zero _ _).symm
  have := (zpow_lt_zpow_iff_right₀ (by norm_num : (1 : ℚ) < 2)).mp product
  omega

theorem divCore_exact (p₁ : 0 < m₁) (p₂ : 0 < m₂) (p : 0 < m) (canonical : Canonical m e)
    (quotient : (m₁ : ℚ) * 2 ^ e₁ = m * 2 ^ e * (m₂ * 2 ^ e₂)) :
    ∃ shift : Nat, divCore .binary64 m₁ e₁ m₂ e₂ = (m * 2 ^ shift, e - shift, .exact) := by
  -- The exponent of the quotient is at most the one that is right for it.
  have target : Format.binary64.targetExponent (totalExponent m₁ e₁ - totalExponent m₂ e₂) ≤ e := by
    refine le_of_le_of_eq ?_ canonical
    exact max_le_max_right _ (Int.sub_le_sub_right (totalExponent_quotient p₁ p₂ p quotient) _)
  rw [divCore]
  generalize Format.binary64.targetExponent _ = t at target
  obtain ⟨shift, small⟩ : ∃ shift : Nat, min (e₁ - e₂) t = e - shift :=
    ⟨(e - min (e₁ - e₂) t).toNat, by omega⟩
  obtain ⟨amount, large⟩ : ∃ amount : Nat, e₁ - e₂ = e - shift + amount :=
    ⟨(e₁ - e₂ - min (e₁ - e₂) t).toNat, by omega⟩
  have exact : m₁ * 2 ^ amount = m * 2 ^ shift * m₂ := by
    have powers : (2 : ℚ) ^ e₁ * 2 ^ shift = 2 ^ e * 2 ^ e₂ * 2 ^ amount := by
      simp only [← zpow_natCast, ← zpow_add₀ (two_ne_zero : (2 : ℚ) ≠ 0)]
      congr 1
      omega
    have scale : (2 : ℚ) ^ e * 2 ^ e₂ ≠ 0 := by positivity
    have both : (m₁ : ℚ) * 2 ^ amount = m * 2 ^ shift * m₂ := by
      apply mul_right_cancel₀ scale
      calc (m₁ : ℚ) * 2 ^ amount * (2 ^ e * 2 ^ e₂)
          = m₁ * 2 ^ e₁ * 2 ^ shift := by rw [mul_assoc (m₁ : ℚ) (2 ^ e₁), powers]; ring
        _ = m * 2 ^ shift * m₂ * (2 ^ e * 2 ^ e₂) := by rw [quotient]; ring
    exact_mod_cast both
  have moved : (e₁ - e₂ - (e - shift)).toNat = amount := by omega
  refine ⟨shift, ?_⟩
  simp only [small, moved, Nat.shiftLeft_eq, exact, Nat.mul_div_cancel _ p₂, Nat.mul_mod_left]
  rfl

/-- **A quotient that is a float is found exactly.** -/
theorem div_exact (p₁ : 0 < m₁) (p₂ : 0 < m₂) (p : 0 < m) (canonical : Canonical m e)
    (quotient : (m₁ : ℚ) * 2 ^ e₁ = m * 2 ^ e * (m₂ * 2 ^ e₂)) :
    UnpackedFloat.div .binary64 (.finite .positive m₁ e₁ p₁) (.finite .positive m₂ e₂ p₂) =
      .finite .positive m e p := by
  obtain ⟨shift, found⟩ := divCore_exact p₁ p₂ p canonical quotient
  rw [UnpackedFloat.div, found]
  exact roundWithAccuracy_exact p canonical .positive shift

end Division

/-! ## Whole numbers -/

/-- A whole number of at most 53 binary digits is a float: it is moved up to 53 digits. -/
theorem ofNat_exact {n : Nat} (positive : 0 < n) (small : n < 2 ^ 53) :
    ∃ shift : Nat, shift ≤ 52 ∧ 2 ^ 52 ≤ n * 2 ^ shift ∧ n * 2 ^ shift < 2 ^ 53 ∧
      ∃ p, UnpackedFloat.ofNat .binary64 n = .finite .positive (n * 2 ^ shift) (-shift) p := by
  have digits : n.log2 < 53 := (Nat.log2_lt positive.ne').mpr small
  obtain ⟨shift, moved⟩ : ∃ shift, n.log2 + shift = 52 := ⟨52 - n.log2, by omega⟩
  have low : 2 ^ 52 ≤ n * 2 ^ shift := by
    rw [← moved, Nat.pow_add]
    exact Nat.mul_le_mul_right _ (Nat.log2_self_le positive.ne')
  have high : n * 2 ^ shift < 2 ^ 53 := by
    have above := Nat.mul_lt_mul_of_pos_right (Nat.lt_log2_self (n := n)) (Nat.two_pow_pos shift)
    rw [← Nat.pow_add] at above
    have total : n.log2 + 1 + shift = 53 := by omega
    rwa [total] at above
  have target : Format.binary64.targetExponent (totalExponent n 0) = -shift := by
    rw [targetExponent_eq, totalExponent]
    omega
  have canonical : Canonical (n * 2 ^ shift) (-shift) := by
    have same := totalExponent_shift positive 0 shift
    rw [Int.zero_sub] at same
    rw [Canonical, same, target]
  have p : 0 < n * 2 ^ shift := by positivity
  refine ⟨shift, by omega, low, high, p, ?_⟩
  have above : compare (n : Int) 0 = .gt := compare_gt_iff_gt.mpr (by exact_mod_cast positive)
  have rounded := roundWithAccuracy_exact p canonical .positive 0
  rw [Nat.pow_zero, Nat.mul_one, Nat.cast_zero, Int.sub_zero] at rounded
  rw [UnpackedFloat.ofNat, UnpackedFloat.ofInt, UnpackedFloat.normalize, above]
  simp only [UnpackedFloat.round, target, UnpackedFloat.decreaseExponent, Nat.shiftLeft_eq,
    Int.zero_sub, Int.neg_neg, Int.toNat_natCast]
  exact rounded

/-! ## Packing -/

/-- The leading digit of a mantissa is not stored. -/
theorem toNat_one_append (tail : BitVec 52) : (1#1 ++ tail).toNat = tail.toNat + 2 ^ 52 := by
  rw [BitVec.toNat_append, ← Nat.shiftLeft_add_eq_or_of_lt tail.isLt, Nat.add_comm]
  rfl

/-- A mantissa of 53 binary digits is unpacked as it was packed. -/
theorem unpack_pack_normal {sign : Sign} {m : Nat} {e : Int} (p : 0 < m) (low : 2 ^ 52 ≤ m)
    (high : m < 2 ^ 53) (least : -1074 ≤ e) (most : e ≤ 971) :
    (Float.Model.pack (.finite sign m e p)).unpack = .finite sign m e p := by
  obtain ⟨biased, bias⟩ : ∃ biased : Nat, e = biased - 1075 := ⟨(e + 1075).toNat, by omega⟩
  have digits : m.log2 = 52 := (Nat.log2_eq_iff p.ne').mpr ⟨low, high⟩
  have packed : UnpackedFloat.pack .binary64 (.finite sign m e p) =
      packComponents .binary64 sign (BitVec.ofNat 11 biased) (BitVec.ofNat 52 m) := by
    have stored : (e + Format.binary64.exponentBias +
        Format.binary64.mantissaBitsWithoutImplicit).toNat = biased := by
      change (e + (1023 : Nat) + (52 : Nat)).toNat = biased
      omega
    have finite : ¬2 ^ Format.binary64.exponentBits ≤ biased + 1 := by
      change ¬2 ^ 11 ≤ biased + 1
      omega
    have full : m.log2 + 1 = Format.binary64.mantissaBits := by
      rw [digits]
      rfl
    simp only [UnpackedFloat.pack, stored]
    rw [if_neg finite, if_pos full]
  have exponent : (BitVec.ofNat 11 biased).toNat = biased := by
    rw [BitVec.toNat_ofNat, Nat.mod_eq_of_lt (by omega)]
  have infinite : BitVec.ofNat 11 biased ≠ -1#11 := by
    intro same
    have largest := congrArg BitVec.toNat same
    rw [exponent] at largest
    change biased = 2047 at largest
    omega
  have subnormal : BitVec.ofNat 11 biased ≠ 0#11 := by
    intro same
    have least := congrArg BitVec.toNat same
    rw [exponent] at least
    change biased = 0 at least
    omega
  have mantissa : (1#1 ++ BitVec.ofNat 52 m).toNat = m := by
    rw [toNat_one_append, BitVec.toNat_ofNat]
    omega
  rw [Float.Model.unpack, Float.Model.pack, UInt64.toBitVec_ofBitVec, packed, UnpackedFloat.unpack]
  simp only [UnpackedFloat.unpackSign_packComponents, UnpackedFloat.unpackExponent_packComponents,
    UnpackedFloat.unpackMantissa_packComponents, Sign.ofBitVec_toBitVec]
  rw [if_neg infinite, if_neg subnormal]
  simp only [exponent, mantissa]
  congr 1
  change (biased : Int) - ((1023 : Nat) + (52 : Nat)) = e
  omega

/-! ## Decimals -/

theorem two_zpow (e : Int) : (2 : ℚ) ^ e = 2 ^ e.toNat / 2 ^ (-e).toNat := by
  cases e with
  | ofNat n => simp
  | negSucc n => simp [zpow_negSucc, Int.neg_negSucc]

/-- Whether an unpacked float is the given power of ten. -/
def isPowerOfTen (k : Nat) : UnpackedFloat → Bool
  | .finite .positive mantissa exponent _ =>
      mantissa * 2 ^ exponent.toNat == 10 ^ k * 2 ^ (-exponent).toNat
  | _ => false

theorem isPowerOfTen_table : ∀ k : Fin Float.exactlyRepresentablePowersOfTen.size,
    isPowerOfTen k (Float.exactlyRepresentablePowersOfTen[k]).toModel.unpack = true := by
  decide +kernel

/-- The powers of ten that are kept in a table are exact. -/
theorem exists_power_exact {k : Nat} (low : k < Float.exactlyRepresentablePowersOfTen.size) :
    ∃ mantissa exponent nonzero, (Float.exactlyRepresentablePowersOfTen[k]).toModel.unpack =
      .finite .positive mantissa exponent nonzero ∧ (mantissa : ℚ) * 2 ^ exponent = 10 ^ k := by
  have power := isPowerOfTen_table ⟨k, low⟩
  simp only [Fin.getElem_fin] at power
  generalize (Float.exactlyRepresentablePowersOfTen[k]).toModel.unpack = unpacked at power
  match unpacked, power with
  | .finite .positive mantissa exponent nonzero, power =>
      refine ⟨mantissa, exponent, nonzero, rfl, ?_⟩
      have same : mantissa * 2 ^ exponent.toNat = 10 ^ k * 2 ^ (-exponent).toNat := by
        simpa [isPowerOfTen] using power
      rw [two_zpow, mul_div_assoc', div_eq_iff (by positivity)]
      exact_mod_cast same

section Scientific

variable {digits places m : Nat} {e : Int}

/-- A small number and a power of ten of the table are exact, so their quotient is too. -/
theorem div_power_exact (p : 0 < m) (canonical : Canonical m e) (nonzero : 0 < digits)
    (small : digits < 2 ^ 53) (low : places < Float.exactlyRepresentablePowersOfTen.size)
    (value : (digits : ℚ) = m * 2 ^ e * 10 ^ places) :
    UnpackedFloat.div .binary64 (Float.Model.pack (.ofNat .binary64 digits)).unpack
      (Float.exactlyRepresentablePowersOfTen[places]).toModel.unpack = .finite .positive m e p := by
  obtain ⟨shift, few, least, most, p₁, whole⟩ := ofNat_exact nonzero small
  obtain ⟨m₂, e₂, p₂, power, ten⟩ := exists_power_exact low
  have unpacked : (Float.Model.pack (.ofNat .binary64 digits)).unpack =
      .finite .positive (digits * 2 ^ shift) (-shift) p₁ := by
    rw [whole]
    exact unpack_pack_normal p₁ least most (by omega) (by omega)
  have same : ((digits * 2 ^ shift : Nat) : ℚ) * 2 ^ (-(shift : Int)) =
      m * 2 ^ e * (m₂ * 2 ^ e₂) := by
    rw [ten, ← value, zpow_neg, zpow_natCast]
    push_cast
    rw [mul_assoc, mul_inv_cancel₀ (by positivity), mul_one]
  rw [unpacked, power]
  exact div_exact p₁ p₂ p canonical same

/-- Other decimals are divided as whole numbers. -/
theorem unpacked_ofScientific_exact (p : 0 < m) (canonical : Canonical m e) (nonzero : 0 < digits)
    (fractional : 0 < places) (few : places ≤ 2048 + digits.log2)
    (value : (digits : ℚ) = m * 2 ^ e * 10 ^ places) :
    UnpackedFloat.ofScientific .binary64 digits (-places) = .finite .positive m e p := by
  have below : ¬-(places : Int) > 2 ^ Format.binary64.exponentBits := by
    change ¬-(places : Int) > 2 ^ 11
    omega
  have above : ¬-(places : Int) < -(2 ^ Format.binary64.exponentBits + digits.log2) := by
    change ¬-(places : Int) < -(2 ^ 11 + (digits.log2 : Int))
    omega
  have negative : ¬0 ≤ -(places : Int) := by omega
  have amount : (- -(places : Int)).toNat = places := by omega
  rw [UnpackedFloat.ofScientific, dif_neg nonzero.ne', if_neg below, if_neg above, if_neg negative]
  refine div_exact _ _ p canonical ?_
  rw [amount, value]
  push_cast
  ring

/-- **A decimal that is a float is read exactly.** -/
theorem ofScientific_exact (p : 0 < m) (canonical : Canonical m e) (fractional : 0 < places)
    (few : places ≤ 2048 + digits.log2) (value : (digits : ℚ) = m * 2 ^ e * 10 ^ places) :
    Float.ofScientific digits true places = .ofModel (.pack (.finite .positive m e p)) := by
  have nonzero : 0 < digits := by
    have positive : (0 : ℚ) < digits := by
      rw [value]
      positivity
    exact_mod_cast positive
  rw [Float.ofScientific]
  split
  · rename_i small
    have fits : digits.toUInt64.toNat = digits :=
      UInt64.toNat_ofNat_of_lt' (lt_trans small.1 (by decide))
    have low : places < Float.exactlyRepresentablePowersOfTen.size := Nat.lt_succ_of_le small.2
    have quotient := div_power_exact p canonical nonzero small.1 low value
    rw [← fits] at quotient
    exact congrArg (fun number => Float.ofModel (.pack number)) quotient
  · have sign : (if true = true then Int.negOfNat places else Int.ofNat places) = -(places : Int) :=
      Int.negOfNat_eq
    have read := unpacked_ofScientific_exact p canonical nonzero fractional few value
    rw [← sign] at read
    exact congrArg (fun number => Float.ofModel (.pack number)) read

end Scientific

/-! ## The exact value of a float -/

section Unpacking

variable (b : BitVec Format.binary64.numBits)

theorem toNat_unpackMantissa : (UnpackedFloat.unpackMantissa b).toNat = b.toNat % 2 ^ 52 := by
  rw [UnpackedFloat.unpackMantissa_def, BitVec.extractLsb'_toNat, Nat.shiftRight_zero]

theorem toNat_unpackExponent :
    (UnpackedFloat.unpackExponent b).toNat = b.toNat / 2 ^ 52 % 2 ^ 11 := by
  rw [UnpackedFloat.unpackExponent_def, BitVec.extractLsb'_toNat, Nat.shiftRight_eq_div_pow]

theorem ofBitVec_unpackSign (small : b.toNat < 2 ^ 63) :
    Sign.ofBitVec (UnpackedFloat.unpackSign b) = .positive := by
  have zero : UnpackedFloat.unpackSign b = 0#1 := by
    apply BitVec.eq_of_toNat_eq
    rw [UnpackedFloat.unpackSign_def, BitVec.extractLsb'_toNat, Nat.shiftRight_eq_div_pow]
    change b.toNat / 2 ^ 63 % 2 = 0
    omega
  rw [zero]
  rfl

/-- The bits of a number without a sign that is neither infinite nor zero. -/
theorem unpack_bits (small : b.toNat < 2 ^ 63)
    (finite : (UnpackedFloat.unpack .binary64 b).isFinite = true) :
    UnpackedFloat.unpack .binary64 b = .zero .positive ∨
      ∃ m e p, UnpackedFloat.unpack .binary64 b = .finite .positive m e p ∧ Canonical m e ∧
        (m = if b.toNat / 2 ^ 52 % 2 ^ 11 = 0 then b.toNat % 2 ^ 52
          else b.toNat % 2 ^ 52 + 2 ^ 52) ∧
        e = (max (b.toNat / 2 ^ 52 % 2 ^ 11) 1 : Nat) - 1075 := by
  rw [← toNat_unpackMantissa, ← toNat_unpackExponent]
  rw [UnpackedFloat.unpack] at finite ⊢
  simp only [ofBitVec_unpackSign b small] at finite ⊢
  have bias : ((Format.binary64.exponentBias : Int) +
      Format.binary64.mantissaBitsWithoutImplicit) = 1075 := rfl
  rw [bias] at finite ⊢
  have below := (UnpackedFloat.unpackMantissa b).isLt
  split at finite
  · split at finite <;> cases finite
  · rename_i notLargest
    rw [if_neg notLargest]
    by_cases least : UnpackedFloat.unpackExponent b = 0#11
    · rw [if_pos least]
      have lowest : (UnpackedFloat.unpackExponent b).toNat = 0 := by rw [least]; rfl
      by_cases nothing : UnpackedFloat.unpackMantissa b = 0#52
      · exact .inl (dif_pos nothing)
      · rw [dif_neg nothing]
        have positive : (UnpackedFloat.unpackMantissa b).toNat ≠ 0 :=
          fun zero => nothing (BitVec.eq_of_toNat_eq zero)
        have digits : (UnpackedFloat.unpackMantissa b).toNat.log2 < 52 :=
          (Nat.log2_lt positive).mpr below
        refine .inr ⟨_, _, Nat.pos_of_ne_zero positive, rfl, ?_, by rw [if_pos lowest], by omega⟩
        rw [Canonical, targetExponent_eq, totalExponent]
        omega
    · rw [if_neg least]
      have positive : (UnpackedFloat.unpackExponent b).toNat ≠ 0 :=
        fun zero => least (BitVec.eq_of_toNat_eq zero)
      have leading : (1#1 ++ UnpackedFloat.unpackMantissa b).toNat =
          (UnpackedFloat.unpackMantissa b).toNat + 2 ^ 52 :=
        toNat_one_append _
      have digits : (1#1 ++ UnpackedFloat.unpackMantissa b).toNat.log2 = 52 := by
        rw [leading, Nat.log2_eq_iff (by omega)]
        change _ < 2 ^ 52 at below
        omega
      have nonzero : 0 < (1#1 ++ UnpackedFloat.unpackMantissa b).toNat := by omega
      refine .inr ⟨_, _, nonzero, rfl, ?_, by rw [if_neg positive, leading], by omega⟩
      rw [Canonical, targetExponent_eq, totalExponent, digits]
      omega

end Unpacking

/-- The magnitude of a float from the parts of its bits. -/
theorem ofFloat_eq {x : Float} {exponent tail : Nat}
    (high : x.toBits.toNat / 2 ^ 52 % 2 ^ 11 = exponent) (low : x.toBits.toNat % 2 ^ 52 = tail)
    {mantissa : Nat} {e : Int} (leading : mantissa = if exponent = 0 then tail else tail + 2 ^ 52)
    (unbiased : e = (max exponent 1 : Nat) - 1075) :
    Magnitude.ofFloat x = ⟨mantissa * 2 ^ e.toNat, 2 ^ (-e).toNat⟩ := by
  have whole : Magnitude.ofFloat x =
      if 1075 ≤ max exponent 1 then ⟨mantissa * 2 ^ (max exponent 1 - 1075), 1⟩
      else ⟨mantissa, 2 ^ (1075 - max exponent 1)⟩ := by
    rw [leading, ← low, ← high]
    rfl
  rw [whole]
  by_cases large : 1075 ≤ max exponent 1
  · have up : e.toNat = max exponent 1 - 1075 := by omega
    have down : (-e).toNat = 0 := by omega
    rw [if_pos large, up, down, pow_zero]
  · have up : e.toNat = 0 := by omega
    have down : (-e).toNat = 1075 - max exponent 1 := by omega
    rw [if_neg large, up, down, pow_zero, mul_one]

/-- A positive float as a mantissa and an exponent. -/
structure Unpacks (x : Float) (m : Nat) (e : Int) : Prop where
  positive : 0 < m
  unpacked : x.toModel.unpack = .finite .positive m e positive
  canonical : Canonical m e
  least : -1074 ≤ e
  magnitude : Magnitude.ofFloat x = ⟨m * 2 ^ e.toNat, 2 ^ (-e).toNat⟩

/-- A finite float without a sign is zero, or it has a mantissa and an exponent. -/
theorem unpack_cases {x : Float} (finite : x.isFinite = true)
    (sign : x.toBits < 0x8000000000000000) :
    x.toModel.unpack = .zero .positive ∨ ∃ m e, Unpacks x m e := by
  rcases unpack_bits x.toModel.toBits.toBitVec sign finite with
    zero | ⟨m, e, p, unpacked, canonical, leading, unbiased⟩
  · exact .inl zero
  · exact .inr ⟨m, e, p, unpacked, canonical, by omega, ofFloat_eq rfl rfl leading unbiased⟩

end BlockScript
