import BlockScript.Number.Decimal
import Mathlib

/-!
# The value of a decimal literal

A float literal is a row of digits with a point, without a sign and without an exponent.  Its
value is not negative and not a NaN, though it may be infinite (`isUnsigned_ofDigits`).

The value is computed on unpacked floats and then packed into bits.  How it is rounded does not
matter here: a rounded number keeps the sign that it is given (`unsigned_roundWithAccuracy`), and
no number is packed into the bits of a NaN (`exists_packComponents`).
-/

set_option autoImplicit false

open Float.Model (UnpackedFloat Format)
open Float.Model.UnpackedFloat (Sign Accuracy packComponents)

namespace BlockScript

/-- A float that is a number and has no sign, also if it is zero. -/
structure IsUnsigned (value : Float) : Prop where
  number : value.isNaN = false
  nonnegative : 0 ≤ value
  sign : value.toBits < 0x8000000000000000

/-- Whether an unpacked float is a number without a sign. -/
def unsigned : UnpackedFloat → Bool
  | .infinity .positive | .zero .positive | .finite .positive .. => true
  | _ => false

/-! ## Packing -/

section Packing

variable {exponent : BitVec 11} {mantissa : BitVec 52}

/-- A number without a sign is packed without one, and not as a NaN. -/
theorem exists_packComponents {number : UnpackedFloat} (positive : unsigned number = true) :
    ∃ exponent mantissa,
      number.pack .binary64 = packComponents .binary64 .positive exponent mantissa ∧
      (exponent = -1#11 → mantissa = 0#52) := by
  match number, positive with
  | .infinity .positive, _ => exact ⟨-1#11, 0#52, rfl, fun _ => rfl⟩
  | .zero .positive, _ => exact ⟨0#11, 0#52, rfl, fun _ => rfl⟩
  | .finite .positive mantissa exponent _, _ =>
      rw [UnpackedFloat.pack]
      dsimp only
      split
      · exact ⟨-1#11, 0#52, rfl, fun _ => rfl⟩
      · rename_i small
        split
        · refine ⟨_, _, rfl, fun infinite => ?_⟩
          -- The exponent of an infinite number is the one that has just been ruled out.
          have largest := congrArg BitVec.toNat infinite
          rw [BitVec.toNat_ofNat, Nat.mod_eq_of_lt (by omega)] at largest
          exact absurd largest (Nat.ne_of_lt (Nat.lt_of_succ_lt_succ (Nat.not_le.mp small)))
        · exact ⟨0#11, _, rfl, fun infinite => absurd infinite (by decide)⟩

theorem toNat_packComponents (exponent : BitVec 11) (mantissa : BitVec 52) :
    (packComponents .binary64 .positive exponent mantissa).toNat < 0x8000000000000000 := by
  have low : (0#1 ++ exponent).toNat < 0x800 := by
    rw [BitVec.toNat_append]
    simpa using exponent.isLt
  change ((0#1 ++ exponent) ++ mantissa).toNat < _
  rw [BitVec.toNat_append, ← Nat.shiftLeft_add_eq_or_of_lt mantissa.isLt, Nat.shiftLeft_eq]
  have := mantissa.isLt
  omega

/-- What has been packed without a sign is unpacked without one. -/
theorem unsigned_unpack (number : exponent = -1#11 → mantissa = 0#52) :
    unsigned (.unpack .binary64 (packComponents .binary64 .positive exponent mantissa)) = true := by
  rw [UnpackedFloat.unpack]
  simp only [UnpackedFloat.unpackSign_packComponents, UnpackedFloat.unpackExponent_packComponents,
    UnpackedFloat.unpackMantissa_packComponents, Sign.ofBitVec_toBitVec]
  split
  · rename_i infinite
    rw [if_pos (number infinite)]
    rfl
  · split
    · split <;> rfl
    · rfl

end Packing

theorem unsigned_unpack_pack {number : UnpackedFloat} (positive : unsigned number = true) :
    unsigned (Float.Model.pack number).unpack = true := by
  obtain ⟨exponent, mantissa, packed, finite⟩ := exists_packComponents positive
  rw [Float.Model.unpack, Float.Model.pack, UInt64.toBitVec_ofBitVec, packed]
  exact unsigned_unpack finite

/-- The float of a number without a sign. -/
theorem isUnsigned_pack {number : UnpackedFloat} (positive : unsigned number = true) :
    IsUnsigned (.ofModel (.pack number)) := by
  have unpacked := unsigned_unpack_pack positive
  obtain ⟨exponent, mantissa, packed, -⟩ := exists_packComponents positive
  refine ⟨?_, ?_, ?_⟩
  · change (Float.Model.pack number).unpack.isNaN = false
    match (Float.Model.pack number).unpack, unpacked with
    | .infinity .positive, _ | .zero .positive, _ | .finite .positive .., _ => rfl
  · have zero : (0 : Float).toModel.unpack = .zero .positive := rfl
    apply decide_eq_true
    change (0 : Float).toModel.unpack.le (Float.Model.pack number).unpack = true
    rw [zero]
    match (Float.Model.pack number).unpack, unpacked with
    | .infinity .positive, _ | .zero .positive, _ | .finite .positive .., _ => rfl
  · change UInt64.ofBitVec (number.pack .binary64) < _
    rw [packed]
    exact toNat_packComponents exponent mantissa

/-! ## Arithmetic -/

theorem unsigned_roundWithAccuracy (mantissa : Nat) (exponent : Int) (accuracy : Accuracy) :
    unsigned (.roundWithAccuracy .binary64 .positive mantissa exponent accuracy) = true := by
  rw [UnpackedFloat.roundWithAccuracy]
  dsimp only
  split <;> rfl

theorem unsigned_ofNat (n : Nat) : unsigned (.ofNat .binary64 n) = true := by
  rw [UnpackedFloat.ofNat, UnpackedFloat.ofInt, UnpackedFloat.normalize]
  cases n with
  | zero => rfl
  | succ n => exact unsigned_roundWithAccuracy ..

theorem unsigned_div {number : UnpackedFloat} (positive : unsigned number = true) (mantissa : Nat)
    (exponent : Int) (nonzero : 0 < mantissa) :
    unsigned (.div .binary64 number (.finite .positive mantissa exponent nonzero)) = true := by
  match number, positive with
  | .infinity .positive, _ => rfl
  | .zero .positive, _ => rfl
  | .finite .positive .., _ => exact unsigned_roundWithAccuracy ..

/-- A whole number times a power of ten, on the way that is always open. -/
theorem unsigned_ofScientific (digits : Nat) (power : Int) :
    unsigned (.ofScientific .binary64 digits power) = true := by
  rw [UnpackedFloat.ofScientific]
  split
  · rfl
  · split
    · rfl
    · split
      · rfl
      · split
        · exact unsigned_roundWithAccuracy ..
        · exact unsigned_roundWithAccuracy ..

/-- The powers of ten that are kept in a table are finite and have no sign. -/
theorem exists_power {e : Nat} (low : e < Float.exactlyRepresentablePowersOfTen.size) :
    ∃ mantissa exponent nonzero, (Float.exactlyRepresentablePowersOfTen[e]).toModel.unpack =
      .finite .positive mantissa exponent nonzero := by
  have all : ∀ power ∈ Float.exactlyRepresentablePowersOfTen.toList,
      (power.toModel.unpack matches .finite .positive ..) = true := by
    decide +kernel
  have finite := all Float.exactlyRepresentablePowersOfTen[e] (by simp)
  split at finite
  · exact ⟨_, _, _, ‹_›⟩
  · cases finite

/-- **The value of a decimal literal is a number without a sign.** -/
theorem isUnsigned_ofDigits (whole fraction : List Char) :
    IsUnsigned (ofDigits whole fraction) := by
  rw [ofDigits, Float.ofScientific]
  split
  · rename_i small
    -- Both parts are exact, and only the quotient is rounded.
    obtain ⟨mantissa, exponent, nonzero, power⟩ := exists_power (Nat.lt_succ_of_le small.2)
    have number := unsigned_ofNat (natOfDigits (whole ++ fraction)).toUInt64.toNat
    have quotient := unsigned_div (unsigned_unpack_pack number) mantissa exponent nonzero
    rw [← power] at quotient
    exact isUnsigned_pack quotient
  · exact isUnsigned_pack (unsigned_ofScientific ..)

end BlockScript
