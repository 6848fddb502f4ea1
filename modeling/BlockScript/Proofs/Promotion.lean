import BlockScript.Proofs.ExactDecimals
import BlockScript.Proofs.FloatOrder
import BlockScript.Run.Operation
import Mathlib

/-!
# Integers as floats

An integer is turned into the nearest float.  Of its binary digits the first 53 are kept, rounded
(`leading`), and the exponent says how many there are in all.  If the rounding carries into one
digit more, the exponent is one higher (`Rounds`).

Rounding keeps the order.  What is left of a mantissa when digits are dropped is the mantissa with
two more bits, and both a shift and the rounding at the end are monotone in the number that the
three make up (`weight`).  So integers that are turned into floats do not change sides
(`floatRank_promote_le`).  An integer below `2 ^ 53` loses nothing and stays apart from every other
one (`floatRank_promote_lt`); from there on different integers can become one float.
-/

set_option autoImplicit false

open Float.Model (UnpackedFloat Format totalExponent)
open Float.Model.UnpackedFloat (Sign Accuracy ExtendedMantissa shiftToExponent shiftToTargetExponent
  roundWithAccuracy)

namespace BlockScript

/-! ## Rounding is monotone -/

/-- A mantissa and the two bits that are kept of what was dropped, as one number. -/
def weight (em : ExtendedMantissa) : ℕ :=
  4 * em.mantissa + 2 * em.roundBit.toNat + em.stickyBit.toNat

theorem weight_div (a : ExtendedMantissa) : weight a / 4 = a.mantissa := by
  have round := Bool.toNat_le a.roundBit
  have sticky := Bool.toNat_le a.stickyBit
  rw [weight]
  omega

/-- A shift halves the weight, and the last bit remembers that something was dropped. -/
theorem weight_shiftRightOne (a : ExtendedMantissa) :
    weight a.shiftRightOne = 2 * (weight a / 4) + min 1 (weight a % 4) := by
  have digit : (a.mantissa % 2 != 0).toNat = a.mantissa % 2 := by
    rcases Nat.mod_two_eq_zero_or_one a.mantissa with even | odd
    · rw [even]
      rfl
    · rw [odd]
      rfl
  have dropped : (a.roundBit || a.stickyBit).toNat = min 1 (weight a % 4) := by
    obtain ⟨m, r, s⟩ := a
    cases r <;> cases s <;> simp only [weight, Bool.toNat_false, Bool.toNat_true, Bool.or_self,
      Bool.or_true, Bool.or_false] <;> omega
  change 4 * (a.mantissa / 2) + 2 * (a.mantissa % 2 != 0).toNat + (a.roundBit || a.stickyBit).toNat
    = _
  rw [digit, dropped, weight_div]
  omega

/-- A weight of two quarters goes to the even neighbour, and every other one to the nearer one. -/
theorem roundedMantissa_eq (a : ExtendedMantissa) :
    a.roundedMantissa = (weight a + 1 + weight a / 4 % 2) / 4 := by
  rw [weight_div]
  obtain ⟨m, r, s⟩ := a
  cases r <;> cases s <;> simp only [weight, Bool.toNat_false, Bool.toNat_true,
    ExtendedMantissa.roundedMantissa, ExtendedMantissa.accuracy, Accuracy.roundToNearestEven] <;>
    omega

section Monotone

variable {a b : ExtendedMantissa}

theorem weight_shift_le (le : weight a ≤ weight b) (shift : ℕ) :
    weight (a >>> shift) ≤ weight (b >>> shift) := by
  change weight (shift.repeat ExtendedMantissa.shiftRightOne a) ≤
    weight (shift.repeat ExtendedMantissa.shiftRightOne b)
  induction shift with
  | zero => exact le
  | succ shift ih =>
      rw [Nat.repeat, Nat.repeat, weight_shiftRightOne, weight_shiftRightOne]
      omega

theorem roundedMantissa_le (le : weight a ≤ weight b) :
    a.roundedMantissa ≤ b.roundedMantissa := by
  rw [roundedMantissa_eq, roundedMantissa_eq]
  have quarters : weight a / 4 ≤ weight b / 4 := Nat.div_le_div_right le
  rcases quarters.eq_or_lt with same | less
  · rw [same]
    exact Nat.div_le_div_right (by omega)
  · -- The smaller one goes up to its upper neighbour at most.
    have up : (weight a + 1 + weight a / 4 % 2) / 4 ≤ weight a / 4 + 1 := by omega
    have down : weight b / 4 ≤ (weight b + 1 + weight b / 4 % 2) / 4 := by omega
    exact up.trans (Nat.succ_le_of_lt less |>.trans down)

end Monotone

/-- A whole number without its last binary digits, rounded to the nearest, halves to the even
one. -/
def rounded (n shift : ℕ) : ℕ := ((⟨n, false, false⟩ : ExtendedMantissa) >>> shift).roundedMantissa

theorem rounded_le {n n' : ℕ} (le : n ≤ n') (shift : ℕ) : rounded n shift ≤ rounded n' shift := by
  refine roundedMantissa_le (weight_shift_le ?_ shift)
  exact Nat.mul_le_mul_left 4 le

/-- Nothing is rounded if the digits are zeros. -/
theorem rounded_exact (n shift : ℕ) : rounded (n * 2 ^ shift) shift = n := by
  rw [rounded, shiftRight_exact]
  rfl

/-! ## Leading digits -/

/-- The first 53 binary digits of a whole number, rounded. -/
def leading (n : ℕ) : ℕ := rounded (n * 2 ^ 53) (n.log2 + 1)

section Leading

variable {n n' : ℕ}

theorem log2_le (positive : 0 < n) (le : n ≤ n') : n.log2 ≤ n'.log2 :=
  (Nat.le_log2 (positive.trans_le le).ne').mpr ((Nat.log2_self_le positive.ne').trans le)

theorem leading_bounds (positive : 0 < n) : 2 ^ 52 ≤ leading n ∧ leading n ≤ 2 ^ 53 := by
  have low : 2 ^ n.log2 ≤ n := Nat.log2_self_le positive.ne'
  have high : n < 2 ^ (n.log2 + 1) := Nat.lt_log2_self
  constructor
  · calc 2 ^ 52 = rounded (2 ^ 52 * 2 ^ (n.log2 + 1)) (n.log2 + 1) := (rounded_exact _ _).symm
      _ ≤ leading n := by
        refine rounded_le ?_ _
        rw [Nat.pow_succ]
        omega
  · calc leading n ≤ rounded (2 ^ 53 * 2 ^ (n.log2 + 1)) (n.log2 + 1) := by
          refine rounded_le ?_ _
          omega
      _ = 2 ^ 53 := rounded_exact _ _

/-- Of two numbers with equally many digits the smaller one does not get the larger leading
digits. -/
theorem leading_le (same : n.log2 = n'.log2) (le : n ≤ n') : leading n ≤ leading n' := by
  rw [leading, leading, same]
  exact rounded_le (Nat.mul_le_mul_right _ le) _

/-- A number of at most 53 digits is moved up to 53 digits. -/
theorem leading_exact {shift : ℕ} (digits : n.log2 + shift = 52) : leading n = n * 2 ^ shift := by
  have moved : n * 2 ^ 53 = n * 2 ^ shift * 2 ^ (n.log2 + 1) := by
    rw [Nat.mul_assoc, ← Nat.pow_add]
    congr 2
    omega
  rw [leading, moved, rounded_exact]

end Leading

/-! ## The nearest float -/

/-- The mantissa and the exponent of the float nearest to a positive whole number. -/
inductive Rounds (n : ℕ) : ℕ → ℤ → Prop where
  | fits (below : leading n < 2 ^ 53) : Rounds n (leading n) (n.log2 - 52)
  /-- The leading digits are all ones, and rounding up makes one digit more of them. -/
  | carries (full : leading n = 2 ^ 53) : Rounds n (2 ^ 52) (n.log2 - 51)

section Rounds

variable {n n' m m' : ℕ} {e e' : ℤ}

theorem exists_rounds (positive : 0 < n) : ∃ m e, Rounds n m e := by
  rcases (leading_bounds positive).2.eq_or_lt with full | below
  · exact ⟨_, _, .carries full⟩
  · exact ⟨_, _, .fits below⟩

theorem Rounds.bounds (rounds : Rounds n m e) (positive : 0 < n) : 2 ^ 52 ≤ m ∧ m < 2 ^ 53 := by
  cases rounds with
  | fits below => exact ⟨(leading_bounds positive).1, below⟩
  | carries => exact ⟨le_rfl, by decide⟩

theorem Rounds.canonical (rounds : Rounds n m e) (positive : 0 < n) : Canonical m e := by
  have bounds := rounds.bounds positive
  have digits : m.log2 = 52 := (Nat.log2_eq_iff (by omega)).mpr bounds
  rw [Canonical, targetExponent_eq, totalExponent, digits]
  cases rounds <;> omega

/-- The digits are dropped in one shift, and what rounding carries in another one. -/
theorem Rounds.roundWithAccuracy (rounds : Rounds n m e) (positive : 0 < n) (p : 0 < m) :
    roundWithAccuracy .binary64 .positive (n * 2 ^ 53) (-53) .exact =
      .finite .positive m e p := by
  have total : totalExponent (n * 2 ^ 53) (-53) = n.log2 + 1 :=
    (totalExponent_shift positive 0 53).trans (Int.add_zero _)
  have first : shiftToTargetExponent .binary64 (n * 2 ^ 53) (-53) .exact =
      ((⟨n * 2 ^ 53, false, false⟩ : ExtendedMantissa) >>> (n.log2 + 1), (n.log2 : ℤ) - 52) := by
    have target : Format.binary64.targetExponent (n.log2 + 1) = n.log2 - 52 := by
      rw [targetExponent_eq]
      omega
    have amount : ((n.log2 : ℤ) - 52 - -53).toNat = n.log2 + 1 := by omega
    rw [shiftToTargetExponent, total, target, shiftToExponent]
    simp only [amount, ExtendedMantissa.ofMantissaAndAccuracy]
    congr 1
    push_cast
    omega
  have second : shiftToTargetExponent .binary64 (leading n) (n.log2 - 52) .exact =
      (⟨m, false, false⟩, e) := by
    have canonical := rounds.canonical positive
    cases rounds with
    | fits below =>
        have exact := shiftToTargetExponent_exact p canonical 0
        simpa using exact
    | carries full =>
        have exact := shiftToTargetExponent_exact p canonical 1
        have doubled : (2 : ℕ) ^ 52 * 2 ^ 1 = 2 ^ 53 := by decide
        have lower : (n.log2 : ℤ) - 51 - (1 : ℕ) = n.log2 - 52 := by omega
        rwa [doubled, ← full, lower] at exact
  have leads : ((⟨n * 2 ^ 53, false, false⟩ : ExtendedMantissa) >>> (n.log2 + 1)).roundedMantissa =
      leading n := rfl
  rw [UnpackedFloat.roundWithAccuracy, first]
  simp only [leads, second]
  rw [dif_neg p.ne']

/-- **Rounding keeps the order**, first of the exponents, then of the mantissas. -/
theorem Rounds.le (rounds : Rounds n m e) (rounds' : Rounds n' m' e') (positive : 0 < n)
    (le : n ≤ n') : toLex (e, (m : ℤ)) ≤ toLex (e', (m' : ℤ)) := by
  have positive' : 0 < n' := positive.trans_le le
  have bounds := rounds.bounds positive
  have bounds' := rounds'.bounds positive'
  rw [Prod.Lex.toLex_le_toLex]
  rcases (log2_le positive le).eq_or_lt with same | fewer
  · have leads := leading_le same le
    cases rounds <;> cases rounds' <;> omega
  · cases rounds <;> cases rounds' <;> omega

/-- A number of at most 53 digits is apart from every larger one. -/
theorem Rounds.lt (rounds : Rounds n m e) (rounds' : Rounds n' m' e') (positive : 0 < n)
    (small : n < 2 ^ 53) (lt : n < n') : toLex (e, (m : ℤ)) < toLex (e', (m' : ℤ)) := by
  have positive' : 0 < n' := positive.trans lt
  have bounds' := rounds'.bounds positive'
  have digits : n.log2 < 53 := (Nat.log2_lt positive.ne').mpr small
  obtain ⟨shift, moved⟩ : ∃ shift, n.log2 + shift = 52 := ⟨52 - n.log2, by omega⟩
  have below : leading n < 2 ^ 53 := by
    rw [leading_exact moved]
    calc n * 2 ^ shift < 2 ^ (n.log2 + 1) * 2 ^ shift :=
          Nat.mul_lt_mul_of_pos_right Nat.lt_log2_self (Nat.two_pow_pos shift)
      _ = 2 ^ 53 := by
        rw [← Nat.pow_add]
        congr 1
        omega
  rw [Prod.Lex.toLex_lt_toLex]
  rcases (log2_le positive lt.le).eq_or_lt with same | fewer
  · have leads : leading n < leading n' := by
      rw [leading_exact moved, leading_exact (same ▸ moved)]
      exact Nat.mul_lt_mul_of_pos_right lt (Nat.two_pow_pos shift)
    cases rounds <;> cases rounds' <;> omega
  · cases rounds <;> cases rounds' <;> omega

theorem unpack_one : (Float.exactlyRepresentablePowersOfTen[0]).toModel.unpack =
    .finite .positive (2 ^ 52) (-52) (by decide) := rfl

/-- A small whole number is multiplied by one, and nothing is rounded. -/
theorem Rounds.ofNat_small (rounds : Rounds n m e) (positive : 0 < n) (small : n < 2 ^ 53)
    (p : 0 < m) : Float.ofNat n = .ofModel (.pack (.finite .positive m e p)) := by
  have canonical := rounds.canonical positive
  obtain ⟨shift, few, least, most, p', whole⟩ := ofNat_exact positive small
  have digits : n.log2 + shift = 52 := by
    have moved := totalExponent_shift positive 0 shift
    have log : (n * 2 ^ shift).log2 = 52 := (Nat.log2_eq_iff p'.ne').mpr ⟨least, most⟩
    rw [totalExponent, totalExponent, log] at moved
    omega
  obtain ⟨rfl, rfl⟩ : m = n * 2 ^ shift ∧ e = -shift := by
    have leads := leading_exact digits
    cases rounds <;> omega
  have unpacked : (Float.Model.pack (.ofNat .binary64 n.toUInt64.toNat)).unpack =
      .finite .positive (n * 2 ^ shift) (-shift) p' := by
    have same : n.toUInt64.toNat = n := UInt64.toNat_ofNat_of_lt' (lt_trans small (by decide))
    rw [same, whole]
    exact unpack_pack_normal p' least most (by omega) (by omega)
  have product : UnpackedFloat.mul .binary64
      (Float.Model.pack (.ofNat .binary64 n.toUInt64.toNat)).unpack
      (Float.exactlyRepresentablePowersOfTen[0]).toModel.unpack =
        .finite .positive (n * 2 ^ shift) (-shift) p := by
    rw [unpacked, unpack_one]
    exact roundWithAccuracy_exact p canonical .positive 52
  change Float.ofScientific n false 0 = _
  rw [Float.ofScientific, dif_pos ⟨small, Nat.zero_le 22⟩]
  exact congrArg (fun number => Float.ofModel (.pack number)) product

/-- Any other whole number is rounded once. -/
theorem Rounds.ofNat_large (rounds : Rounds n m e) (positive : 0 < n) (large : ¬n < 2 ^ 53)
    (p : 0 < m) : Float.ofNat n = .ofModel (.pack (.finite .positive m e p)) := by
  have product : UnpackedFloat.ofScientific .binary64 n 0 = .finite .positive m e p := by
    have below : ¬(0 : ℤ) > 2 ^ Format.binary64.exponentBits := by decide
    have above : ¬(0 : ℤ) < -(2 ^ Format.binary64.exponentBits + n.log2) := by
      change ¬(0 : ℤ) < -(2 ^ 11 + (n.log2 : ℤ))
      omega
    rw [UnpackedFloat.ofScientific, dif_neg positive.ne', if_neg below, if_neg above,
      if_pos le_rfl]
    have digits : n <<< 53 * 10 ^ (0 : ℤ).toNat = n * 2 ^ 53 := by
      rw [Int.toNat_zero, pow_zero, Nat.mul_one, Nat.shiftLeft_eq]
    rw [UnpackedFloat.mul]
    change UnpackedFloat.roundWithAccuracy .binary64 .positive (n <<< 53 * 10 ^ (0 : ℤ).toNat) (-53)
      .exact = _
    rw [digits]
    exact rounds.roundWithAccuracy positive p
  change Float.ofScientific n false 0 = _
  rw [Float.ofScientific, dif_neg fun fast => large fast.1]
  exact congrArg (fun number => Float.ofModel (.pack number)) product

/-- Below `2 ^ 64` the exponent is far from both of its ends. -/
theorem Rounds.unpack_pack (rounds : Rounds n m e) (positive : 0 < n) (fits : n < 2 ^ 64)
    (sign : Sign) (p : 0 < m) :
    (Float.Model.pack (.finite sign m e p)).unpack = .finite sign m e p := by
  have bounds := rounds.bounds positive
  have digits : n.log2 < 64 := (Nat.log2_lt positive.ne').mpr fits
  refine unpack_pack_normal p bounds.1 bounds.2 ?_ ?_
  · cases rounds <;> omega
  · cases rounds <;> omega

/-- **The float of a positive whole number.** -/
theorem Rounds.unpack_ofNat (rounds : Rounds n m e) (positive : 0 < n) (fits : n < 2 ^ 64)
    (p : 0 < m) : (Float.ofNat n).toModel.unpack = .finite .positive m e p := by
  by_cases small : n < 2 ^ 53
  · rw [rounds.ofNat_small positive small p]
    exact rounds.unpack_pack positive fits .positive p
  · rw [rounds.ofNat_large positive small p]
    exact rounds.unpack_pack positive fits .positive p

end Rounds

/-! ## The places of whole numbers -/

section Places

variable {n n' : ℕ}

/-- A positive whole number becomes a positive float with the mantissa and the exponent that it
rounds to. -/
theorem exists_unpack_ofNat (positive : 0 < n) (fits : n < 2 ^ 64) :
    ∃ m e p, Rounds n m e ∧ (Float.ofNat n).toModel.unpack = .finite .positive m e p := by
  obtain ⟨m, e, rounds⟩ := exists_rounds positive
  have p : 0 < m := (Nat.two_pow_pos 52).trans_le (rounds.bounds positive).1
  exact ⟨m, e, p, rounds, rounds.unpack_ofNat positive fits p⟩

theorem floatRank_ofNat_zero : floatRank (Float.ofNat 0) = 0 := rfl

theorem floatRank_ofNat_pos (positive : 0 < n) (fits : n < 2 ^ 64) :
    0 < floatRank (Float.ofNat n) := by
  obtain ⟨m, e, p, -, unpacked⟩ := exists_unpack_ofNat positive fits
  rw [floatRank, unpacked]
  exact Prod.Lex.toLex_lt_toLex.mpr (.inl Int.one_pos)

theorem floatRank_ofNat_le (le : n ≤ n') (fits : n' < 2 ^ 64) :
    floatRank (Float.ofNat n) ≤ floatRank (Float.ofNat n') := by
  rcases n'.eq_zero_or_pos with rfl | positive'
  · rw [Nat.le_zero.mp le]
  · rcases n.eq_zero_or_pos with rfl | positive
    · rw [floatRank_ofNat_zero]
      exact (floatRank_ofNat_pos positive' fits).le
    · obtain ⟨m, e, p, rounds, unpacked⟩ := exists_unpack_ofNat positive (le.trans_lt fits)
      obtain ⟨m', e', p', rounds', unpacked'⟩ := exists_unpack_ofNat positive' fits
      rw [floatRank, floatRank, unpacked, unpacked']
      exact Prod.Lex.toLex_le_toLex.mpr (.inr ⟨rfl, rounds.le rounds' positive le⟩)

theorem floatRank_ofNat_lt (lt : n < n') (small : n < 2 ^ 53) (fits : n' < 2 ^ 64) :
    floatRank (Float.ofNat n) < floatRank (Float.ofNat n') := by
  rcases n.eq_zero_or_pos with rfl | positive
  · rw [floatRank_ofNat_zero]
    exact floatRank_ofNat_pos lt fits
  · obtain ⟨m, e, p, rounds, unpacked⟩ := exists_unpack_ofNat positive (lt.trans fits)
    obtain ⟨m', e', p', rounds', unpacked'⟩ := exists_unpack_ofNat (positive.trans lt) fits
    rw [floatRank, floatRank, unpacked, unpacked']
    exact Prod.Lex.toLex_lt_toLex.mpr (.inr ⟨rfl, rounds.lt rounds' positive small lt⟩)

/-- A negative whole number is negated after it has been turned into a float. -/
theorem unpack_neg_ofNat (positive : 0 < n) (fits : n < 2 ^ 64) :
    (Float.ofNat n).neg.toModel.unpack = (Float.ofNat n).toModel.unpack.neg := by
  obtain ⟨m, e, p, rounds, unpacked⟩ := exists_unpack_ofNat positive fits
  change (Float.Model.pack (Float.ofNat n).toModel.unpack.neg).unpack = _
  rw [unpacked]
  exact rounds.unpack_pack positive fits .negative p

end Places

/-! ## Integers -/

section Integers

variable (n : Int64)

theorem natAbs_toInt_lt : n.toInt.natAbs < 2 ^ 64 := by
  have low := n.le_toInt
  have high := n.toInt_lt
  omega

/-- An integer becomes the float of its absolute value, negated if it is negative. -/
theorem unpack_promote : (promote n).toModel.unpack =
    if 0 ≤ n.toInt then (Float.ofNat n.toInt.natAbs).toModel.unpack
    else (Float.ofNat n.toInt.natAbs).toModel.unpack.neg := by
  have fits := natAbs_toInt_lt n
  rw [promote]
  cases sign : n.toInt with
  | ofNat k => rfl
  | negSucc k =>
      rw [sign] at fits
      exact unpack_neg_ofNat k.succ_pos fits

theorem isNaN_promote : (promote n).isNaN = false := by
  change (promote n).toModel.unpack.isNaN = false
  rw [unpack_promote]
  rcases n.toInt.natAbs.eq_zero_or_pos with zero | positive
  · rw [zero]
    split <;> rfl
  · obtain ⟨m, e, p, -, unpacked⟩ := exists_unpack_ofNat positive (natAbs_toInt_lt n)
    rw [unpacked]
    split <;> rfl

theorem floatRank_promote : floatRank (promote n) =
    if 0 ≤ n.toInt then floatRank (Float.ofNat n.toInt.natAbs)
    else -floatRank (Float.ofNat n.toInt.natAbs) := by
  rw [floatRank, unpack_promote, apply_ite rank, rank_neg]
  rfl

variable {n} {n' : Int64}

/-- Turning integers into floats keeps their order, if not always apart. -/
theorem floatRank_promote_le (le : n.toInt ≤ n'.toInt) :
    floatRank (promote n) ≤ floatRank (promote n') := by
  have fits := natAbs_toInt_lt n
  have fits' := natAbs_toInt_lt n'
  rw [floatRank_promote, floatRank_promote]
  split <;> split
  · exact floatRank_ofNat_le (by omega) fits'
  · omega
  · calc -floatRank (Float.ofNat n.toInt.natAbs)
        ≤ 0 := neg_nonpos.mpr (floatRank_ofNat_pos (by omega) fits).le
      _ ≤ floatRank (Float.ofNat n'.toInt.natAbs) := floatRank_ofNat_le (Nat.zero_le _) fits'
  · exact neg_le_neg (floatRank_ofNat_le (by omega) fits)

/-- An integer below `2 ^ 53` stays apart from every other one. -/
theorem floatRank_promote_lt (lt : n.toInt < n'.toInt)
    (small : n.toInt.natAbs < 2 ^ 53 ∨ n'.toInt.natAbs < 2 ^ 53) :
    floatRank (promote n) < floatRank (promote n') := by
  have fits := natAbs_toInt_lt n
  have fits' := natAbs_toInt_lt n'
  rw [floatRank_promote, floatRank_promote]
  split <;> split
  · exact floatRank_ofNat_lt (by omega) (by omega) fits'
  · omega
  · calc -floatRank (Float.ofNat n.toInt.natAbs)
        < 0 := neg_neg_iff_pos.mpr (floatRank_ofNat_pos (by omega) fits)
      _ ≤ floatRank (Float.ofNat n'.toInt.natAbs) := floatRank_ofNat_le (Nat.zero_le _) fits'
  · exact neg_lt_neg (floatRank_ofNat_lt (by omega) (by omega) fits)

theorem le_natAbs_of_promote_eq (apart : n ≠ n')
    (same : floatRank (promote n) = floatRank (promote n')) :
    2 ^ 53 ≤ n.toInt.natAbs ∧ 2 ^ 53 ≤ n'.toInt.natAbs := by
  by_contra small
  have small : n.toInt.natAbs < 2 ^ 53 ∨ n'.toInt.natAbs < 2 ^ 53 := by omega
  rcases lt_or_gt_of_ne (mt Int64.toInt_inj.mp apart) with lt | gt
  · exact (floatRank_promote_lt lt small).ne same
  · exact (floatRank_promote_lt gt small.symm).ne same.symm

end Integers

end BlockScript
