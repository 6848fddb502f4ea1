import BlockScript.Proofs.Reading.Depth

/-!
# Operators at a cursor

An expression looks for its operators in a fixed order, so that `<=` is found before `<`.
What is found is the operator that is spelled at the cursor, as long as it ends there:
a word ends before anything that no name goes on with, and `<` and `>` end before anything
but `=`.
-/

set_option autoImplicit false

namespace BlockScript

/-- The operator as it is written. -/
def BinaryOp.spelling : BinaryOp → List Char
  | .arith .add => ['+']
  | .arith .sub => ['-']
  | .arith .mul => ['*']
  | .arith .div => ['/']
  | .and => ['a', 'n', 'd']
  | .or => ['o', 'r']
  | .compare .eq => ['=', '=']
  | .compare .ne => ['!', '=']
  | .compare .le => ['<', '=']
  | .compare .ge => ['>', '=']
  | .compare .lt => ['<']
  | .compare .gt => ['>']

/-- Whether the operator is a word. -/
def BinaryOp.isWord : BinaryOp → Bool
  | .and => true
  | .or => true
  | _ => false

/-- Whether an operator stays what it is before a text: a word ends there, and `<` and `>` do
not go on. -/
def BinaryOp.endsBefore : BinaryOp → List Char → Bool
  | .and, text => !Cursor.continuesName text
  | .or, text => !Cursor.continuesName text
  | .compare .lt, text => text.head? != some '='
  | .compare .gt, text => text.head? != some '='
  | _, _ => true

namespace Scanner

theorem find_written {op op' : BinaryOp} {text : List Char} {c c' : Cursor} :
    (operator.written op text).find c = some (op', c') ↔
      op' = op ∧ ∃ gap, Cursor.Takes text gap c c' := by
  simp only [operator.written, find_bind, find_mark, find_pure, Option.bind_eq_some_iff,
    Option.some.injEq, Prod.mk.injEq, Prod.exists, Cursor.mark?_eq_some_iff]
  grind

theorem find_spelled {op op' : BinaryOp} {text : List Char} {c c' : Cursor} :
    (operator.spelled op text).find c = some (op', c') ↔
      op' = op ∧ ∃ gap, Cursor.Takes text gap c c' ∧
        Cursor.continuesName (gap ++ c'.rest) = false := by
  simp only [operator.spelled, find_bind, find_ofStep, find_pure, Option.bind_eq_some_iff,
    Option.some.injEq, Prod.mk.injEq, Prod.exists, Cursor.word?_eq_some_iff]
  grind

theorem find_operator_eq (op : BinaryOp) (c : Cursor) :
    (operator op).find c =
      if op.isWord then (operator.spelled op op.spelling).find c
      else (operator.written op op.spelling).find c := by
  unfold operator
  rw [find_named]
  cases op with
  | arith op => cases op <;> rfl
  | and | or => rfl
  | compare op => cases op <;> rfl

/-- What a search for one operator takes. -/
theorem find_operator {op op' : BinaryOp} {c c' : Cursor}
    (found : (operator op).find c = some (op', c')) :
    op' = op ∧ ∃ gap, Cursor.Takes op.spelling gap c c' ∧
      (op.isWord = true → Cursor.continuesName (gap ++ c'.rest) = false) := by
  rw [find_operator_eq] at found
  split at found
  · obtain ⟨rfl, gap, takes, ends⟩ := find_spelled.mp found
    exact ⟨rfl, gap, takes, fun _ => ends⟩
  · rename_i mark
    obtain ⟨rfl, gap, takes⟩ := find_written.mp found
    exact ⟨rfl, gap, takes, fun word => absurd word mark⟩

theorem find_operator_of_takes {op : BinaryOp} {gap : List Char} {c c' : Cursor}
    (takes : Cursor.Takes op.spelling gap c c') (ends : op.endsBefore (gap ++ c'.rest) = true) :
    (operator op).find c = some (op, c') := by
  rw [find_operator_eq]
  split
  · rename_i word
    refine find_spelled.mpr ⟨rfl, gap, takes, ?_⟩
    cases op with
    | and | or => simpa [BinaryOp.endsBefore] using ends
    | arith | compare => cases word
  · exact find_written.mpr ⟨rfl, gap, takes⟩

theorem spelling_ne_nil (op : BinaryOp) : op.spelling ≠ [] := by
  cases op with
  | arith op => cases op <;> decide
  | and | or => decide
  | compare op => cases op <;> decide

theorem find_operator_of_head {op : BinaryOp} {c : Cursor}
    (other : c.rest.head? ≠ op.spelling.head?) : (operator op).find c = none := by
  rw [Option.eq_none_iff_forall_ne_some]
  rintro ⟨op', c'⟩ found
  obtain ⟨rfl, gap, takes, _⟩ := find_operator found
  exact other (takes.head? (spelling_ne_nil op'))

/-- The first operator of a row that stands here: all before it in the row are refused. -/
theorem find_firstOf {ops : List BinaryOp} {op : BinaryOp} {c c' : Cursor} :
    (firstOf ops).find c = some (op, c') ↔
      op ∈ ops ∧ (operator op).find c = some (op, c') ∧
        ∀ o ∈ ops.takeWhile (· ≠ op), (operator o).find c = none := by
  induction ops with
  | nil => simp [firstOf]
  | cons o rest ih =>
      rw [firstOf, find_orElse, Option.or_eq_some_iff, ih]
      by_cases same : o = op
      · subst same
        simp
        intro refused _ found
        rw [refused] at found
        cases found
      · have apart : (operator o).find c ≠ some (op, c') :=
          fun found => same (find_operator found).1.symm
        simp [same, apart, Ne.symm same]
        grind

/-- An operator that is looked for before another one starts with another character, or is
the other one followed by `=`. -/
theorem spelling_of_before (op : BinaryOp) : ∀ o ∈ BinaryOp.all.takeWhile (· ≠ op),
    o.spelling.head? ≠ op.spelling.head? ∨
      o.spelling = op.spelling ++ ['='] ∧ ∀ text, op.endsBefore ('=' :: text) = false := by
  cases op with
  | arith op => cases op <;> simp [BinaryOp.all, BinaryOp.spelling]
  | and | or => simp [BinaryOp.all, BinaryOp.spelling]
  | compare op => cases op <;> simp [BinaryOp.all, BinaryOp.spelling, BinaryOp.endsBefore]

theorem find_anyOperator {op : BinaryOp} {c c' : Cursor} : anyOperator.find c = some (op, c') ↔
    ∃ gap, Cursor.Takes op.spelling gap c c' ∧ op.endsBefore (gap ++ c'.rest) = true := by
  rw [anyOperator, find_firstOf]
  constructor
  · rintro ⟨-, found, before⟩
    obtain ⟨-, gap, takes, ends⟩ := find_operator found
    refine ⟨gap, takes, ?_⟩
    -- A `<` or `>` before `=` would have been taken for the longer comparison.
    have longer (o : BinaryOp) (first : o ∈ BinaryOp.all.takeWhile (· ≠ op))
        (spelled : o.spelling = op.spelling ++ ['=']) (plain : ∀ text, o.endsBefore text = true) :
        ((gap ++ c'.rest).head? != some '=') = true := by
      rw [bne_iff_ne]
      intro follows
      obtain ⟨text, split⟩ := List.head?_eq_some_iff.mp follows
      have front : c.rest = o.spelling ++ text := by simp [takes.rest, split, spelled]
      obtain ⟨gap', c₁, takes'⟩ := Cursor.exists_takes front
      have := find_operator_of_takes takes' (plain _)
      rw [before o first] at this
      cases this
    cases op with
    | arith op => rfl
    | and => simpa [BinaryOp.endsBefore] using ends rfl
    | or => simpa [BinaryOp.endsBefore] using ends rfl
    | compare op =>
        cases op with
        | eq | ne | le | ge => rfl
        | lt => exact longer (.compare .le) (by decide) rfl fun _ => rfl
        | gt => exact longer (.compare .ge) (by decide) rfl fun _ => rfl
  · rintro ⟨gap, takes, ends⟩
    have member : op ∈ BinaryOp.all := by
      cases op with
      | arith op => cases op <;> decide
      | and | or => decide
      | compare op => cases op <;> decide
    refine ⟨member, find_operator_of_takes takes ends, fun o before => ?_⟩
    rcases spelling_of_before op o before with other | ⟨longer, refuses⟩
    · refine find_operator_of_head ?_
      rw [takes.head? (spelling_ne_nil op)]
      exact other.symm
    · rw [Option.eq_none_iff_forall_ne_some]
      rintro ⟨o', c₁⟩ found
      obtain ⟨-, gap', takes', -⟩ := find_operator found
      have behind := takes'.rest
      rw [longer, List.append_assoc] at behind
      rw [← takes.behind behind] at ends
      simp [refuses] at ends

end Scanner

end BlockScript
