import BlockScript.Proofs.ExactDecimals
import BlockScript.Proofs.Numerals
import BlockScript.Proofs.Writing
import BlockScript.Run.Interpreter

/-!
# Printed literals are read back

Integers that are not negative, truth values and finite floats without a sign are values that a
literal stands for (`Value.literal?`).  Printed, such a value is a text that is read as a program
with that literal as its only statement, and the program gives the value back, wherever it is
evaluated (`printed_literal_readsBack`).

The digits of a float are either tested when they are chosen, or they are all digits of the float.
In the second case the literal denotes the float exactly, so it is read as that float
(`Magnitude.toFloat_expansion`).
-/

set_option autoImplicit false

namespace BlockScript

/-! ## Floats -/

/-- A float is what it is unpacked to. -/
theorem ofModel_pack_unpack (x : Float) : Float.ofModel (.pack x.toModel.unpack) = x :=
  Float.ofBits_toBits x

/-- **All digits of a float read back to it.** -/
theorem Magnitude.toFloat_expansion {x : Float} {m : Nat} {e : Int} (unpacks : Unpacks x m e) :
    (ofFloat x).expansion.toFloat = x := by
  obtain ⟨places, depth⟩ : ∃ places, places = (-e).toNat := ⟨_, rfl⟩
  have units : (ofFloat x).expansion = .ofUnits (m * 2 ^ e.toNat * 5 ^ places) (-places) := by
    rw [unpacks.magnitude, expansion, ← depth]
    simp only [Nat.log2_two_pow]
    rfl
  have value : ((m * 2 ^ e.toNat * 5 ^ places : Nat) : ℚ) * 10 ^ (-(places : Int)) = m * 2 ^ e := by
    have ten : (10 : ℚ) ^ places = 5 ^ places * 2 ^ places := by
      rw [← mul_pow]
      norm_num
    rw [two_zpow, ← depth, zpow_neg, zpow_natCast, ten]
    push_cast
    field_simp
  have few : -1074 ≤ e := unpacks.least
  have positive : 0 < m * 2 ^ e.toNat * 5 ^ places := by
    have := unpacks.positive
    positivity
  obtain ⟨written, fractional, short⟩ := Decimal.natOfDigits_ofUnits positive (-places)
  rw [value] at written
  rw [units, Decimal.toFloat, ofDigits]
  conv_rhs => rw [← ofModel_pack_unpack x, unpacks.unpacked]
  exact ofScientific_exact unpacks.positive unpacks.canonical fractional (by omega) written

theorem Decimal.toFloat_shortest {x : Float} {m : Nat} {e : Int} (unpacks : Unpacks x m e) :
    (shortest x).toFloat = x := by
  rcases shortest_cases x with ⟨tested, -⟩ | expanded
  · exact Float.toBits_inj.mp (by simpa [readsBack] using tested)
  · rw [expanded]
    exact Magnitude.toFloat_expansion unpacks

theorem Decimal.fraction_ne_nil (d : Decimal) : d.fraction ≠ [] := by
  unfold fraction
  split
  · split
    · rename_i inside
      simpa using inside
    · simp
  · simp

/-- A finite float without a sign is printed in positional notation. -/
theorem text_of_unsigned {x : Float} (finite : x.isFinite = true)
    (sign : x.toBits < 0x8000000000000000) :
    FloatLayout.printed.text x =
      if x.toModel.unpack.beq (.zero .positive) = true then "0.0"
      else String.ofList (Decimal.shortest x.abs).positional := by
  have status : x.isNaN = false ∧ x.isInf = false := by
    have real : x.toModel.unpack.isFinite = true := finite
    change x.toModel.unpack.isNaN = false ∧ x.toModel.unpack.isInf = false
    generalize x.toModel.unpack = unpacked at real ⊢
    cases unpacked with
    | notANumber | infinity => cases real
    | zero | finite => exact ⟨rfl, rfl⟩
  have unsigned : ¬x.toBits.toNat / Nat.pow 2 63 = 1 := by
    have small : x.toBits.toNat < 2 ^ 63 := sign
    change ¬x.toBits.toNat / 2 ^ 63 = 1
    omega
  have origin : (0.0 : Float).toModel.unpack = .zero .positive := rfl
  have compared : (x == 0.0) = x.toModel.unpack.beq (0.0 : Float).toModel.unpack := rfl
  rw [← origin, ← compared]
  simp only [FloatLayout.text, status, if_neg unsigned]
  exact String.empty_append

theorem Unpacks.abs_eq {x : Float} {m : Nat} {e : Int} (unpacks : Unpacks x m e) : x.abs = x := by
  conv_rhs => rw [← ofModel_pack_unpack x, unpacks.unpacked]
  change Float.ofModel (.pack x.toModel.unpack.abs) = _
  rw [unpacks.unpacked]
  rfl

/-- **A float is printed as a decimal that is read as the same float.** -/
theorem exists_digits_of_float {x : Float} (finite : x.isFinite = true)
    (sign : x.toBits < 0x8000000000000000) :
    ∃ whole fraction, FloatLayout.printed.text x = String.ofList (whole ++ '.' :: fraction) ∧
      (Lexeme.float whole fraction).Proper ∧ ofDigits whole fraction = x := by
  have text := text_of_unsigned finite sign
  rcases unpack_cases finite sign with zero | ⟨m, e, unpacks⟩
  · rw [zero] at text
    have digit : ∀ d ∈ ['0'], d.isDigit = true := List.forall_mem_singleton.mpr rfl
    refine ⟨['0'], ['0'], text, ⟨List.cons_ne_nil _ _, digit, digit⟩, ?_⟩
    rw [← ofModel_pack_unpack x, zero]
    exact Float.toBits_inj.mp (by decide +kernel)
  · rw [unpacks.unpacked, unpacks.abs_eq] at text
    have numeral := Decimal.isNumeral_shortest x
    exact ⟨(Decimal.shortest x).whole, (Decimal.shortest x).fraction, text,
      ⟨Decimal.fraction_ne_nil _, numeral.whole, numeral.fraction⟩,
      Decimal.toFloat_shortest unpacks⟩

/-! ## Literals -/

/-- The literal that stands for a value. -/
def Value.literal? {δ : Type} : Value → Option (Node δ)
  | .int n => if 0 ≤ n then some (.int n) else none
  | .float x => if x.isFinite ∧ x.toBits < 0x8000000000000000 then some (.float x) else none
  | .bool b => some (.bool b)
  | .block .. | .nil | .signal _ => none

theorem Value.literal?_cases {δ : Type} {v : Value} {node : Node δ}
    (literal : v.literal? = some node) :
    (∃ n, v = .int n ∧ node = .int n ∧ 0 ≤ n) ∨
    (∃ x, v = .float x ∧ node = .float x ∧ x.isFinite ∧ x.toBits < 0x8000000000000000) ∨
    ∃ b, v = .bool b ∧ node = .bool b := by
  unfold Value.literal? at literal
  split at literal
  · split at literal <;> cases literal
    exact .inl ⟨_, rfl, rfl, by assumption⟩
  · split at literal <;> cases literal
    exact .inr (.inl ⟨_, rfl, rfl, by assumption⟩)
  · cases literal
    exact .inr (.inr ⟨_, rfl, rfl⟩)
  all_goals cases literal

/-- A value that a literal stands for is printed as a single lexeme. -/
theorem exists_lexeme_of_literal {v : Value} {node : Node Unit} (literal : v.literal? = some node) :
    ∃ lexeme : Lexeme, v.text = String.ofList lexeme.spelling ∧ lexeme.effects = [] ∧
      WritesOperand [lexeme] node := by
  obtain ⟨n, rfl, rfl, positive⟩ | ⟨x, rfl, rfl, finite, sign⟩ | ⟨b, rfl, rfl⟩ :=
    Value.literal?_cases literal
  · refine ⟨.int (Nat.toDigits 10 n.toNatClampNeg), ?_, rfl, writesOperand_int positive⟩
    have whole : n.toInt = (n.toNatClampNeg : Int) :=
      (Int.toNat_of_nonneg (Int64.le_iff_toInt_le.mp positive)).symm
    change n.toInt.repr = _
    rw [whole]
    exact Nat.repr_eq_ofList_toDigits
  · obtain ⟨whole, fraction, text, proper, same⟩ := exists_digits_of_float finite sign
    have writes := writesOperand_float proper
    rw [same] at writes
    exact ⟨.float whole fraction, text, rfl, writes⟩
  · exact ⟨.bool b, by cases b <;> rfl, rfl, writesOperand_bool b⟩

open Nesting in
/-- A lexeme that is an operand is a program. -/
theorem parseWithin_spelling {lexeme : Lexeme} {node : Node Unit}
    (writes : WritesOperand [lexeme] node) (flat : lexeme.effects = []) (limit : Nat) :
    parseWithin limit (String.ofList lexeme.spelling) = .ok (.list [node]) := by
  obtain ⟨legible, row, member, made⟩ := WritesRow.first writes.phrase .nil
  refine parseWithin_eq_ok_iff.mpr ⟨row, [lexeme], [node], mem_ended member, ?_, made, ?_, rfl⟩
  · rw [String.toList_ofList]
    exact legible.readsAs
  · rw [effectsOf_cons, flat]
    exact trivial

theorem evaluate_literal {v : Value} {node : Node Unit} (literal : v.literal? = some node)
    (known : Unit → Option DefId) (next : Nat) :
    ∃ tree, (Node.list [node]).number known next = (tree, next) ∧
      ∀ limit budget f m, 3 ≤ budget → evaluate limit budget tree f m = some (.ok v, m) := by
  have leaf : ∃ tree, node.number known next = (tree, next) ∧
      ∀ limit budget f, evaluate limit (budget + 1) tree f = pure v := by
    obtain ⟨n, rfl, rfl, -⟩ | ⟨x, rfl, rfl, -⟩ | ⟨b, rfl, rfl⟩ := Value.literal?_cases literal
    · exact ⟨.int n, rfl, fun _ _ _ => rfl⟩
    · exact ⟨.float x, rfl, fun _ _ _ => rfl⟩
    · exact ⟨.bool b, rfl, fun _ _ _ => rfl⟩
  obtain ⟨tree, numbered, gives⟩ := leaf
  refine ⟨.list [tree], by simp only [Node.number, Node.numberAll, numbered], ?_⟩
  intro limit budget f m enough
  obtain ⟨spare, rfl⟩ := Nat.exists_eq_add_of_le' enough
  change (evaluate limit (spare + 1) tree f >>= fun v =>
    evaluateAll limit (spare + 1) [] f v) m = some (.ok v, m)
  rw [gives]
  rfl

/-- **A printed literal is read back.**  The text of an integer that is not negative, of a truth
value or of a finite float without a sign is a program under every limit.  Its only statement is
the literal, and in every interpreter, in every frame of every store, it gives the value back and
changes nothing. -/
theorem printed_literal_readsBack {v : Value} {node : Node Unit}
    (literal : v.literal? = some node) :
    (∀ limit, parseWithin limit v.text = .ok (.list [node])) ∧
    ∀ i : Interpreter, ∃ tree, i.adopt (fun _ => none) (.list [node]) = (tree, i) ∧
      (∀ limit budget f m, 3 ≤ budget → evaluate limit budget tree f m = some (.ok v, m)) ∧
      ∀ budget, 3 ≤ budget → i.run budget v.text = some (.ok v, i) := by
  obtain ⟨lexeme, text, flat, writes⟩ := exists_lexeme_of_literal literal
  have parsed (limit : Nat) : parseWithin limit v.text = .ok (.list [node]) := by
    rw [text]
    exact parseWithin_spelling writes flat limit
  refine ⟨parsed, fun i => ?_⟩
  obtain ⟨tree, numbered, gives⟩ := evaluate_literal literal (fun _ => none) i.nextDefinition
  have adopted : i.adopt (fun _ => none) (.list [node]) = (tree, i) := by
    rw [Interpreter.adopt, numbered]
  refine ⟨tree, adopted, gives, fun budget enough => ?_⟩
  have read : parse v.text = .ok (.list [node]) := parsed _
  simp only [Interpreter.run, read, adopted, Interpreter.evaluateTree, Interpreter.evaluateIn,
    gives i.limit budget i.root ⟨i.store, 0⟩ enough]
  rfl

/-- The float nearest to a tenth is not a tenth, and is read back from its one digit. -/
theorem printed_literal_readsBack_tenth :
    (Value.float (.ofBits 0x3FB999999999999A)).literal? =
      some (.float (.ofBits 0x3FB999999999999A) : Node Unit) ∧
    (Value.float (.ofBits 0x3FB999999999999A)).text = "0.1" ∧
    (∀ limit, parseWithin limit "0.1" = .ok (.list [.float (.ofBits 0x3FB999999999999A)])) ∧
    ∀ i : Interpreter, i.run 3 "0.1" = some (.ok (.float (.ofBits 0x3FB999999999999A)), i) := by
  have printable : (Float.ofBits 0x3FB999999999999A).isFinite = true ∧
      (Float.ofBits 0x3FB999999999999A).toBits < 0x8000000000000000 := by
    decide +kernel
  have literal : (Value.float (.ofBits 0x3FB999999999999A)).literal? =
      some (.float (.ofBits 0x3FB999999999999A) : Node Unit) := by
    rw [Value.literal?, if_pos printable]
  have text : (Value.float (.ofBits 0x3FB999999999999A)).text = "0.1" := by decide +kernel
  obtain ⟨parsed, runs⟩ := printed_literal_readsBack literal
  rw [text] at parsed runs
  refine ⟨literal, text, parsed, fun i => ?_⟩
  obtain ⟨tree, -, -, ran⟩ := runs i
  exact ran 3 (Nat.le_refl 3)

end BlockScript
