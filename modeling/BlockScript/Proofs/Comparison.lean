import BlockScript.Proofs.Promotion

/-!
# Comparison

Equality and the four orders are computed apart from each other, but each can be read off one
thing: how the two numbers compare (`Value.ordering`, `CompareOp.onValues_eq`).  Two integers
compare exactly, and two numbers of which one is a float compare as the places of their floats do
(`ordering_of_mixed`).

So there are two orders, and integers stand in both.  Going from the exact one to that of the
places keeps the order but may put two integers at one place.  Between two such integers a float
at that place is equal to both of them.  This is the only way in which comparisons fail to be
transitive (`comparison_transitive_iff`).
-/

set_option autoImplicit false

namespace BlockScript

/-! ## What a comparison looks at -/

namespace Value

/-- Whether the value is a number. -/
def isNumber : Value → Bool
  | .int _ => true
  | .float _ => true
  | _ => false

/-- Whether the value is a float that is not a number. -/
def isNaN : Value → Bool
  | .float x => x.isNaN
  | _ => false

/-- How two numbers compare, if they do. -/
def ordering : Value → Value → Option Ordering
  | .int m, .int n => some (cmp m.toInt n.toInt)
  | .int m, .float y => floatOrdering (promote m) y
  | .float x, .int n => floatOrdering x (promote n)
  | .float x, .float y => floatOrdering x y
  | _, _ => none

end Value

/-- Whether a comparison holds of two numbers, by how they compare. -/
def CompareOp.admits : CompareOp → Option Ordering → Bool
  | .eq, o => o == some .eq
  | .ne, o => o != some .eq
  | .le, o => o.any Ordering.isLE
  | .ge, o => o.any Ordering.isGE
  | .lt, o => o == some .lt
  | .gt, o => o == some .gt

namespace CompareOp

/-- The comparison that says the same with its operands exchanged. -/
def turned : CompareOp → CompareOp
  | .eq => .eq
  | .ne => .ne
  | .le => .ge
  | .ge => .le
  | .lt => .gt
  | .gt => .lt

theorem admits_turned (op : CompareOp) (o : Option Ordering) :
    op.turned.admits (o.map Ordering.swap) = op.admits o := by
  cases op <;> rcases o with _ | _ | _ | _ <;> rfl

theorem admits_le (o : Option Ordering) :
    CompareOp.le.admits o = (CompareOp.lt.admits o || CompareOp.eq.admits o) := by
  rcases o with _ | _ | _ | _ <;> rfl

theorem admits_ge (o : Option Ordering) :
    CompareOp.ge.admits o = (CompareOp.gt.admits o || CompareOp.eq.admits o) := by
  rcases o with _ | _ | _ | _ <;> rfl

/-- Of two that compare one of three comparisons holds, and of two that do not none. -/
theorem count_admits (o : Option Ordering) :
    [CompareOp.lt.admits o, CompareOp.eq.admits o, CompareOp.gt.admits o].count true =
      if o.isNone then 0 else 1 := by
  rcases o with _ | _ | _ | _ <;> rfl

section Linear

variable {α : Type} [LinearOrder α] (x y : α)

theorem admits_eq_iff : CompareOp.eq.admits (some (cmp x y)) = true ↔ x = y := by
  rw [admits, beq_iff_eq, Option.some_inj, cmp_eq_eq_iff]

theorem admits_lt_iff : CompareOp.lt.admits (some (cmp x y)) = true ↔ x < y := by
  rw [admits, beq_iff_eq, Option.some_inj, cmp_eq_lt_iff]

theorem admits_le_iff : CompareOp.le.admits (some (cmp x y)) = true ↔ x ≤ y := by
  rw [admits, Option.any_some, Ordering.isLE_iff_ne_gt, cmp_eq_gt_iff, not_lt]

end Linear

theorem onFloats_eq (op : CompareOp) (x y : Float) :
    op.onFloats x y = op.admits (floatOrdering x y) := by
  cases op with
  | eq => exact beq_eq_floatOrdering x y
  | ne => exact congrArg not (beq_eq_floatOrdering x y)
  | le => exact le_eq_floatOrdering x y
  | lt => exact lt_eq_floatOrdering x y
  | ge =>
      rw [floatOrdering_swap y x]
      exact (le_eq_floatOrdering y x).trans (admits_turned .le _).symm
  | gt =>
      rw [floatOrdering_swap y x]
      exact (lt_eq_floatOrdering y x).trans (admits_turned .lt _).symm

theorem onInts_eq (op : CompareOp) (m n : Int64) :
    op.onInts m n = op.admits (some (cmp m.toInt n.toInt)) := by
  have same (m n : Int64) : (m == n) = CompareOp.eq.admits (some (cmp m.toInt n.toInt)) := by
    rw [Bool.eq_iff_iff, admits_eq_iff, beq_iff_eq, Int64.toInt_inj]
  have below (m n : Int64) :
      decide (m < n) = CompareOp.lt.admits (some (cmp m.toInt n.toInt)) := by
    rw [Bool.eq_iff_iff, admits_lt_iff, decide_eq_true_iff, Int64.lt_iff_toInt_lt]
  have upTo (m n : Int64) :
      decide (m ≤ n) = CompareOp.le.admits (some (cmp m.toInt n.toInt)) := by
    rw [Bool.eq_iff_iff, admits_le_iff, decide_eq_true_iff, Int64.le_iff_toInt_le]
  cases op with
  | eq => exact same m n
  | ne => exact congrArg not (same m n)
  | le => exact upTo m n
  | lt => exact below m n
  | ge =>
      rw [← cmp_swap]
      exact (upTo n m).trans (admits_turned .le _).symm
  | gt =>
      rw [← cmp_swap]
      exact (below n m).trans (admits_turned .lt _).symm

end CompareOp

/-! ## Comparing numbers -/

theorem Value.isNumber_iff {a : Value} :
    a.isNumber = true ↔ (∃ n, a = .int n) ∨ ∃ x, a = .float x := by
  cases a <;> simp [Value.isNumber]

section Numbers

variable {a b : Value} (left : a.isNumber = true) (right : b.isNumber = true)

include left right

/-- **Every comparison of numbers is read off how they compare.** -/
theorem CompareOp.onValues_eq (op : CompareOp) :
    op.onValues a b = .ok (op.admits (a.ordering b)) := by
  obtain ⟨m, rfl⟩ | ⟨x, rfl⟩ := Value.isNumber_iff.mp left <;>
    obtain ⟨n, rfl⟩ | ⟨y, rfl⟩ := Value.isNumber_iff.mp right
  · rw [Value.ordering, ← op.onInts_eq]
    cases op <;> rfl
  · rw [Value.ordering, ← op.onFloats_eq]
    cases op <;> rfl
  · rw [Value.ordering, ← op.onFloats_eq]
    cases op <;> rfl
  · rw [Value.ordering, ← op.onFloats_eq]
    cases op <;> rfl

theorem Value.ordering_swap : b.ordering a = (a.ordering b).map Ordering.swap := by
  obtain ⟨m, rfl⟩ | ⟨x, rfl⟩ := Value.isNumber_iff.mp left <;>
    obtain ⟨n, rfl⟩ | ⟨y, rfl⟩ := Value.isNumber_iff.mp right
  · rw [Value.ordering, Value.ordering, Option.map_some, cmp_swap]
  · exact floatOrdering_swap _ _
  · exact floatOrdering_swap _ _
  · exact floatOrdering_swap _ _

theorem Value.isNone_ordering : (a.ordering b).isNone = (a.isNaN || b.isNaN) := by
  have floats (x y : Float) : (floatOrdering x y).isNone = (x.isNaN || y.isNaN) := by
    by_cases nan : (x.isNaN || y.isNaN) = true
    · rw [floatOrdering_eq_none nan, nan, Option.isNone_none]
    · obtain ⟨number, number'⟩ : x.isNaN = false ∧ y.isNaN = false := by simpa using nan
      rw [floatOrdering_eq_some number number', number, number', Option.isNone_some, Bool.or_self]
  obtain ⟨m, rfl⟩ | ⟨x, rfl⟩ := Value.isNumber_iff.mp left <;>
    obtain ⟨n, rfl⟩ | ⟨y, rfl⟩ := Value.isNumber_iff.mp right
  · rfl
  · exact (floats _ _).trans (by rw [isNaN_promote]; rfl)
  · exact (floats _ _).trans (by rw [isNaN_promote]; rfl)
  · exact floats x y

end Numbers

/-! ## Comparing any values -/

/-- Equality does not depend on the order of its operands. -/
theorem Value.equals_comm (a b : Value) : a.equals b = b.equals a := by
  cases a <;> cases b <;> try rfl
  case int.int m n => exact BEq.comm
  case int.float m y => exact beq_floats_comm (promote m) y
  case float.int x n => exact beq_floats_comm x (promote n)
  case float.float x y => exact beq_floats_comm x y
  case bool.bool p q => exact BEq.comm
  case block.block d f d' f' => exact congrArg₂ and BEq.comm BEq.comm
  case signal.signal s s' => exact BEq.comm

theorem CompareOp.onNumbers_eq_error (op : CompareOp) {a b : Value}
    (others : ¬(a.isNumber = true ∧ b.isNumber = true)) :
    op.onNumbers a b = .error (operandError op.symbol a b) := by
  cases a <;> cases b <;> first | rfl | exact absurd ⟨rfl, rfl⟩ others

theorem operandError_eq (op : String) (a b : Value) :
    operandError op a b = match a.signal?.or b.signal? with
      | some message => .signalOperand op message
      | none => .typeMismatch op a.kind b.kind := by
  cases a <;> cases b <;> rfl

theorem CompareOp.onValues_order {op : CompareOp} (order : op ∈ [CompareOp.le, .ge, .lt, .gt])
    (a b : Value) : op.onValues a b = op.onNumbers a b := by
  cases op with
  | eq => simp at order
  | ne => simp at order
  | le => rfl
  | ge => rfl
  | lt => rfl
  | gt => rfl

/-- **Equality and the orders agree with each other.**  Equality never fails and does not depend
on the order of its operands.  An order holds between numbers or fails, with the message of the
first signal among its operands, or naming their kinds.  Of numbers, exactly one of less, equal
and greater holds, and none if one of them is a NaN. -/
theorem comparisons_agree (a b : Value) :
    (∃ e, CompareOp.eq.onValues a b = .ok e ∧ CompareOp.eq.onValues b a = .ok e ∧
      CompareOp.ne.onValues a b = .ok !e) ∧
    (∀ op ∈ [CompareOp.le, .ge, .lt, .gt],
      ((∃ r, op.onValues a b = .ok r) ↔ a.isNumber ∧ b.isNumber) ∧
      (¬(a.isNumber ∧ b.isNumber) → op.onValues a b = .error
        (match a.signal?.or b.signal? with
        | some message => .signalOperand op.symbol message
        | none => .typeMismatch op.symbol a.kind b.kind))) ∧
    (a.isNumber → b.isNumber →
      CompareOp.lt.onValues a b = CompareOp.gt.onValues b a ∧
      ∃ l e g, CompareOp.lt.onValues a b = .ok l ∧ CompareOp.eq.onValues a b = .ok e ∧
        CompareOp.gt.onValues a b = .ok g ∧ CompareOp.le.onValues a b = .ok (l || e) ∧
        CompareOp.ge.onValues a b = .ok (g || e) ∧
        [l, e, g].count true = if a.isNaN || b.isNaN then 0 else 1) := by
  refine ⟨⟨a.equals b, rfl, congrArg Except.ok (b.equals_comm a), rfl⟩, ?_, ?_⟩
  · intro op order
    have failure (others : ¬(a.isNumber ∧ b.isNumber)) :
        op.onValues a b = .error (operandError op.symbol a b) :=
      (CompareOp.onValues_order order a b).trans (op.onNumbers_eq_error others)
    refine ⟨⟨fun ⟨r, holds⟩ => ?_, fun ⟨left, right⟩ => ⟨_, op.onValues_eq left right⟩⟩, ?_⟩
    · by_contra others
      cases holds.symm.trans (failure others)
    · rw [← operandError_eq]
      exact failure
  · intro left right
    have read := CompareOp.onValues_eq left right
    refine ⟨?_, _, _, _, read .lt, read .eq, read .gt, ?_, ?_, ?_⟩
    · rw [read .lt, CompareOp.onValues_eq right left .gt, Value.ordering_swap left right]
      exact congrArg Except.ok (CompareOp.admits_turned .lt _).symm
    · rw [read .le, CompareOp.admits_le]
    · rw [read .ge, CompareOp.admits_ge]
    · rw [CompareOp.count_admits, Value.isNone_ordering left right]

theorem comparisons_agree_mixed :
    CompareOp.le.onValues .nil (.signal "no") = .error (.signalOperand "<=" "no") ∧
    ∃ l e g, CompareOp.lt.onValues (.int 9007199254740993) (.float 9007199254740992) = .ok l ∧
      CompareOp.eq.onValues (.int 9007199254740993) (.float 9007199254740992) = .ok e ∧
      CompareOp.gt.onValues (.int 9007199254740993) (.float 9007199254740992) = .ok g ∧
      CompareOp.le.onValues (.int 9007199254740993) (.float 9007199254740992) = .ok (l || e) ∧
      CompareOp.ge.onValues (.int 9007199254740993) (.float 9007199254740992) = .ok (g || e) ∧
      [l, e, g].count true = 1 :=
  ⟨((comparisons_agree .nil (.signal "no")).2.1 .le (by decide)).2 (by decide),
    ((comparisons_agree (.int 9007199254740993) (.float 9007199254740992)).2.2 rfl rfl).2⟩

/-! ## Two orders -/

/-- The place of a number in the line of all floats. -/
def Value.place : Value → Rank
  | .int n => floatRank (promote n)
  | .float x => floatRank x
  | _ => 0

/-- A number that is not a NaN. -/
structure Value.Comparable (a : Value) : Prop where
  number : a.isNumber = true
  notNaN : a.isNaN = false

theorem Value.Comparable.int (n : Int64) : (Value.int n).Comparable := ⟨rfl, rfl⟩

theorem Value.mixed_or_ints (a b : Value) :
    (a.int? = none ∨ b.int? = none) ∨ ∃ m n, a = .int m ∧ b = .int n := by
  cases a with
  | int m =>
      cases b with
      | int n => exact .inr ⟨m, n, rfl, rfl⟩
      | _ => exact .inl (.inr rfl)
  | _ => exact .inl (.inl rfl)

section Places

variable {a b : Value} (left : a.Comparable) (right : b.Comparable)

include left right

/-- A number and a float compare as their places do. -/
theorem ordering_of_mixed (mixed : a.int? = none ∨ b.int? = none) :
    a.ordering b = some (cmp a.place b.place) := by
  obtain ⟨m, rfl⟩ | ⟨x, rfl⟩ := Value.isNumber_iff.mp left.number <;>
    obtain ⟨n, rfl⟩ | ⟨y, rfl⟩ := Value.isNumber_iff.mp right.number
  · rcases mixed with absent | absent <;> cases absent
  · exact floatOrdering_eq_some (isNaN_promote m) right.notNaN
  · exact floatOrdering_eq_some left.notNaN (isNaN_promote n)
  · exact floatOrdering_eq_some left.notNaN right.notNaN

theorem CompareOp.holds_iff (op : CompareOp) :
    op.onValues a b = .ok true ↔ op.admits (a.ordering b) = true := by
  rw [op.onValues_eq left.number right.number, Except.ok.injEq]

theorem eq_iff_place (mixed : a.int? = none ∨ b.int? = none) :
    CompareOp.eq.onValues a b = .ok true ↔ a.place = b.place := by
  rw [CompareOp.holds_iff left right, ordering_of_mixed left right mixed, CompareOp.admits_eq_iff]

theorem le_iff_place (mixed : a.int? = none ∨ b.int? = none) :
    CompareOp.le.onValues a b = .ok true ↔ a.place ≤ b.place := by
  rw [CompareOp.holds_iff left right, ordering_of_mixed left right mixed, CompareOp.admits_le_iff]

end Places

section Integers

variable (m n : Int64)

theorem eq_ints_iff : CompareOp.eq.onValues (.int m) (.int n) = .ok true ↔ m.toInt = n.toInt := by
  rw [CompareOp.holds_iff (.int m) (.int n), Value.ordering, CompareOp.admits_eq_iff]

theorem le_ints_iff : CompareOp.le.onValues (.int m) (.int n) = .ok true ↔ m.toInt ≤ n.toInt := by
  rw [CompareOp.holds_iff (.int m) (.int n), Value.ordering, CompareOp.admits_le_iff]

theorem lt_ints_iff : CompareOp.lt.onValues (.int m) (.int n) = .ok true ↔ m.toInt < n.toInt := by
  rw [CompareOp.holds_iff (.int m) (.int n), Value.ordering, CompareOp.admits_lt_iff]

end Integers

section Turning

variable {a b : Value} (left : a.Comparable) (right : b.Comparable)

include left right

/-- Going over to the places keeps what is equal. -/
theorem place_eq (equal : CompareOp.eq.onValues a b = .ok true) : a.place = b.place := by
  rcases a.mixed_or_ints b with mixed | ⟨m, n, rfl, rfl⟩
  · exact (eq_iff_place left right mixed).mp equal
  · rw [Int64.toInt_inj.mp ((eq_ints_iff m n).mp equal)]

/-- Going over to the places keeps the order. -/
theorem place_le (upTo : CompareOp.le.onValues a b = .ok true) : a.place ≤ b.place := by
  rcases a.mixed_or_ints b with mixed | ⟨m, n, rfl, rfl⟩
  · exact (le_iff_place left right mixed).mp upTo
  · exact floatRank_promote_le ((le_ints_iff m n).mp upTo)

end Turning

/-! ## Transitivity -/

/-- Two different integers with a float between them that both of them become. -/
inductive Merged : Value → Value → Value → Prop where
  | intro {m n : Int64} {x : Float} (apart : m ≠ n) (left : promote m == x)
      (right : promote n == x) : Merged (.int m) (.float x) (.int n)

theorem merged_iff {m n : Int64} {x : Float} (number : (Value.float x).Comparable) :
    Merged (.int m) (.float x) (.int n) ↔
      m ≠ n ∧ (Value.int m).place = (Value.float x).place ∧
        (Value.float x).place = (Value.int n).place := by
  have left := eq_iff_place (.int m) number (.inr rfl)
  have right := eq_iff_place (.int n) number (.inr rfl)
  constructor
  · rintro ⟨apart, equal, equal'⟩
    exact ⟨apart, left.mp (congrArg Except.ok equal), (right.mp (congrArg Except.ok equal')).symm⟩
  · rintro ⟨apart, equal, equal'⟩
    exact ⟨apart, Except.ok.inj (left.mpr equal), Except.ok.inj (right.mpr equal'.symm)⟩

section Transitive

variable {a b c : Value} (first : a.Comparable) (second : b.Comparable) (third : c.Comparable)

include first second third

theorem eq_transitive_iff :
    (CompareOp.eq.onValues a b = .ok true → CompareOp.eq.onValues b c = .ok true →
      CompareOp.eq.onValues a c = .ok true) ↔ ¬Merged a b c := by
  constructor
  · rintro transitive merged
    cases merged with
    | @intro m n x apart left right =>
        have ⟨_, equal, equal'⟩ := (merged_iff second).mp ⟨apart, left, right⟩
        have same := transitive ((eq_iff_place first second (.inr rfl)).mpr equal)
          ((eq_iff_place second third (.inl rfl)).mpr equal')
        exact apart (Int64.toInt_inj.mp ((eq_ints_iff m n).mp same))
  · intro clear equal equal'
    have places := (place_eq first second equal).trans (place_eq second third equal')
    rcases a.mixed_or_ints c with mixed | ⟨m, n, rfl, rfl⟩
    · exact (eq_iff_place first third mixed).mpr places
    · rw [eq_ints_iff]
      obtain ⟨k, rfl⟩ | ⟨x, rfl⟩ := Value.isNumber_iff.mp second.number
      · exact ((eq_ints_iff m k).mp equal).trans ((eq_ints_iff k n).mp equal')
      · by_contra apart
        exact clear ((merged_iff second).mpr ⟨mt Int64.toInt_inj.mpr apart,
          place_eq first second equal, place_eq second third equal'⟩)

theorem le_transitive_iff :
    (CompareOp.le.onValues a b = .ok true → CompareOp.le.onValues b c = .ok true →
      CompareOp.le.onValues a c = .ok true) ↔
      ¬(Merged a b c ∧ CompareOp.lt.onValues c a = .ok true) := by
  constructor
  · rintro transitive ⟨merged, below⟩
    cases merged with
    | @intro m n x apart left right =>
        have ⟨_, equal, equal'⟩ := (merged_iff second).mp ⟨apart, left, right⟩
        have upTo := transitive ((le_iff_place first second (.inr rfl)).mpr equal.le)
          ((le_iff_place second third (.inl rfl)).mpr equal'.le)
        exact ((le_ints_iff m n).mp upTo).not_gt ((lt_ints_iff n m).mp below)
  · intro clear upTo upTo'
    have lower := place_le first second upTo
    have upper := place_le second third upTo'
    rcases a.mixed_or_ints c with mixed | ⟨m, n, rfl, rfl⟩
    · exact (le_iff_place first third mixed).mpr (lower.trans upper)
    · rw [le_ints_iff]
      obtain ⟨k, rfl⟩ | ⟨x, rfl⟩ := Value.isNumber_iff.mp second.number
      · exact ((le_ints_iff m k).mp upTo).trans ((le_ints_iff k n).mp upTo')
      · by_contra above
        have below : n.toInt < m.toInt := not_le.mp above
        -- Turned into floats, the two integers cannot change sides, so all three places are one.
        have back : (Value.int n).place ≤ (Value.int m).place := floatRank_promote_le below.le
        have apart : m ≠ n := fun same => below.ne' (congrArg Int64.toInt same)
        exact clear ⟨(merged_iff second).mpr ⟨apart, lower.antisymm (upper.trans back),
          upper.antisymm (back.trans lower)⟩, (lt_ints_iff n m).mpr below⟩

end Transitive

/-- **Where comparisons of numbers are transitive.**  They are, except where a float stands between
two different integers that both become it: there equality is not, and the order is not if the
larger integer comes first.  Both integers then lie beyond `2 ^ 53`. -/
theorem comparison_transitive_iff {a b c : Value} (first : a.Comparable) (second : b.Comparable)
    (third : c.Comparable) :
    ((CompareOp.eq.onValues a b = .ok true → CompareOp.eq.onValues b c = .ok true →
        CompareOp.eq.onValues a c = .ok true) ↔ ¬Merged a b c) ∧
    ((CompareOp.le.onValues a b = .ok true → CompareOp.le.onValues b c = .ok true →
        CompareOp.le.onValues a c = .ok true) ↔
      ¬(Merged a b c ∧ CompareOp.lt.onValues c a = .ok true)) ∧
    (Merged a b c → ∃ m x n, a = .int m ∧ b = .float x ∧ c = .int n ∧
      2 ^ 53 ≤ m.toInt.natAbs ∧ 2 ^ 53 ≤ n.toInt.natAbs) := by
  refine ⟨eq_transitive_iff first second third, le_transitive_iff first second third, ?_⟩
  intro merged
  cases merged with
  | @intro m n x apart left right =>
      have ⟨_, equal, equal'⟩ := (merged_iff second).mp ⟨apart, left, right⟩
      exact ⟨m, x, n, rfl, rfl, rfl, le_natAbs_of_promote_eq apart (equal.trans equal')⟩

theorem comparison_transitive_iff_neighbours :
    Merged (.int 9007199254740993) (.float 9007199254740992) (.int 9007199254740992) ∧
    ¬(CompareOp.le.onValues (.int 9007199254740993) (.float 9007199254740992) = .ok true →
      CompareOp.le.onValues (.float 9007199254740992) (.int 9007199254740992) = .ok true →
      CompareOp.le.onValues (.int 9007199254740993) (.int 9007199254740992) = .ok true) ∧
    (CompareOp.le.onValues (.int 9007199254740992) (.float 9007199254740992) = .ok true →
      CompareOp.le.onValues (.float 9007199254740992) (.int 9007199254740993) = .ok true →
      CompareOp.le.onValues (.int 9007199254740992) (.int 9007199254740993) = .ok true) := by
  have merged : Merged (.int 9007199254740993) (.float 9007199254740992) (.int 9007199254740992) :=
    ⟨by decide, rfl, rfl⟩
  refine ⟨merged, fun transitive => ?_, ?_⟩
  · exact (comparison_transitive_iff (.int _) ⟨rfl, rfl⟩ (.int _)).2.1.mp transitive ⟨merged, rfl⟩
  · exact (comparison_transitive_iff (.int _) ⟨rfl, rfl⟩ (.int _)).2.1.mpr fun ⟨_, below⟩ =>
      absurd below (by decide)

/-- The first integer that no float is, the float that it becomes, and the integer that this float
is. -/
theorem comparison_not_transitive :
    ((Value.int 9007199254740993).Comparable ∧ (Value.float 9007199254740992).Comparable ∧
      (Value.int 9007199254740992).Comparable) ∧
    (CompareOp.eq.onValues (.int 9007199254740993) (.float 9007199254740992) = .ok true ∧
      CompareOp.eq.onValues (.float 9007199254740992) (.int 9007199254740992) = .ok true ∧
      CompareOp.eq.onValues (.int 9007199254740993) (.int 9007199254740992) = .ok false) ∧
    (CompareOp.le.onValues (.int 9007199254740993) (.float 9007199254740992) = .ok true ∧
      CompareOp.le.onValues (.float 9007199254740992) (.int 9007199254740992) = .ok true ∧
      CompareOp.le.onValues (.int 9007199254740993) (.int 9007199254740992) = .ok false) :=
  ⟨⟨.int _, ⟨rfl, rfl⟩, .int _⟩, ⟨rfl, rfl, rfl⟩, rfl, rfl, rfl⟩

end BlockScript
