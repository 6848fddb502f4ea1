import BlockScript.Proofs.NestingBound

/-!
# Operators group in layers

Reading a series once from left to right with a stack of waiting operators gives the tree that a
layered grammar describes (`Series.group_eq_layered`).  The reference knows no stack.  The first
`not` of a series and all that follows it are one last operand, whatever stands before it
(`Series.operands`).  What is then left are operands with operators between them.  They are
split at the operators other than `*` and `/` (`Operands.split`), each of the runs between these
is folded to the left, and the runs are folded to the left in turn (`Operands.tree`).

Both sides are compared with a third reading, which goes from left to right as the stack does
but only keeps what will become of the next operand (`Slot`): the product that it goes on with,
and the sum that the product will be added to.

With the reference in the place of the stack, the nodes of a whole program can be made again
(`layeredRow`), and they are the same (`toOption_nodes_eq`).
-/

set_option autoImplicit false

namespace BlockScript

variable {α δ : Type}

/-! ## The layered reference -/

/-- Whether an operator is a product or a quotient, which bind tighter than everything else. -/
def BinaryOp.isProduct : BinaryOp → Bool
  | .arith .mul | .arith .div => true
  | _ => false

/-- Operands with operators between them. -/
structure Operands (α : Type) where
  first : α
  rest : List (BinaryOp × α)

namespace Operands

/-- The tree of operands that group to the left. -/
def foldLeft (operands : Operands (Node δ)) : Node δ :=
  operands.rest.foldl (fun left link => .binary link.1 left link.2) operands.first

/-- What follows an operand, split at the operators other than `*` and `/`: the products that go
on with the operand, and the runs of products behind them, each with the operator before it. -/
def split : List (BinaryOp × α) → List (BinaryOp × α) × List (BinaryOp × Operands α)
  | [] => ([], [])
  | (op, operand) :: rest =>
      if op.isProduct then ((op, operand) :: (split rest).1, (split rest).2)
      else ([], (op, ⟨operand, (split rest).1⟩) :: (split rest).2)

/-- The tree of operands: the runs of products are folded to the left, and what they give is
folded to the left by the operators between the runs. -/
def tree (operands : Operands (Node δ)) : Node δ :=
  foldLeft ⟨foldLeft ⟨operands.first, (split operands.rest).1⟩,
    (split operands.rest).2.map fun run => (run.1, run.2.foldLeft)⟩

/-- Operands behind a number of `not`s.  A `not` makes a single operand of the tree of all that
follows it. -/
def negated : Nat → Operands (Node δ) → Operands (Node δ)
  | 0, operands => operands
  | nots + 1, operands => ⟨.negation (negated nots operands).tree, []⟩

end Operands

/-- The operands of a series, of which the last one takes in all from the first `not` on. -/
def Series.operands : Series (Node δ) → Operands (Node δ)
  | .last nots operand => .negated nots ⟨operand, []⟩
  | .link nots operand op rest =>
      .negated nots ⟨operand, (op, rest.operands.first) :: rest.operands.rest⟩

/-- The tree of a series by the layered reference. -/
def Series.layered (series : Series (Node δ)) : Node δ := series.operands.tree

theorem BinaryOp.power_eq (op : BinaryOp) : op.power = if op.isProduct then 2 else 1 := by
  rcases op with op | _ | _ | _
  · cases op <;> rfl
  all_goals rfl

theorem Operands.tree_single (operand : Node δ) : tree ⟨operand, []⟩ = operand := rfl

theorem Operands.negated_succ (nots : Nat) (operands : Operands (Node δ)) :
    negated (nots + 1) operands = ⟨.negations (nots + 1) operands.tree, []⟩ := by
  induction nots with
  | zero => rfl
  | succ nots ih =>
      rw [negated, ih]
      rfl

theorem Operands.negated_single (nots : Nat) (operand : Node δ) :
    negated nots ⟨operand, []⟩ = ⟨.negations nots operand, []⟩ := by
  cases nots with
  | zero => rfl
  | succ nots => rw [negated_succ, tree_single]

/-! ## From left to right -/

/-- The slot of the next operand, when all before it has been read: what becomes of the operand
in the product that it goes on with, and what becomes of that product. -/
structure Slot (δ : Type) where
  product : Node δ → Node δ
  sum : Node δ → Node δ

namespace Slot

/-- The slot of the first operand. -/
def first : Slot δ := ⟨id, id⟩

/-- An operand in a slot, with nothing behind it. -/
def fill (slot : Slot δ) (operand : Node δ) : Node δ := slot.sum (slot.product operand)

/-- The slot behind an operand and an operator. -/
def next (slot : Slot δ) (operand : Node δ) (op : BinaryOp) : Slot δ :=
  if op.isProduct then ⟨.binary op (slot.product operand), slot.sum⟩
  else ⟨id, .binary op (slot.fill operand)⟩

/-- Operands put into their slots one after another. -/
def put : Slot δ → Node δ → List (BinaryOp × Node δ) → Node δ
  | slot, operand, [] => slot.fill operand
  | slot, operand, (op, following) :: rest => put (slot.next operand op) following rest

theorem next_product (slot : Slot δ) (operand : Node δ) {op : BinaryOp}
    (product : op.isProduct = true) :
    slot.next operand op = ⟨.binary op (slot.product operand), slot.sum⟩ := by
  rw [next, if_pos product]

theorem next_sum (slot : Slot δ) (operand : Node δ) {op : BinaryOp}
    (sum : op.isProduct = false) : slot.next operand op = ⟨id, .binary op (slot.fill operand)⟩ := by
  rw [next, if_neg (by simp [sum])]

/-- **Putting operands into slots is folding in layers.** -/
theorem put_eq (slot : Slot δ) (operand : Node δ) (rest : List (BinaryOp × Node δ)) :
    slot.put operand rest =
      Operands.foldLeft
        ⟨slot.sum (Operands.foldLeft ⟨slot.product operand, (Operands.split rest).1⟩),
          (Operands.split rest).2.map fun run => (run.1, run.2.foldLeft)⟩ := by
  induction rest generalizing slot operand with
  | nil => rfl
  | cons link rest ih =>
      obtain ⟨op, following⟩ := link
      rw [put, ih, Operands.split]
      cases kind : op.isProduct with
      | true =>
          rw [next_product slot operand kind]
          rfl
      | false =>
          rw [next_sum slot operand kind]
          rfl

theorem first_put (operand : Node δ) (rest : List (BinaryOp × Node δ)) :
    first.put operand rest = Operands.tree ⟨operand, rest⟩ :=
  put_eq first operand rest

end Slot

/-! ## The stack -/

namespace Waiting

/-- The operators wait in an order: further inside they bind tighter. -/
def Ordered (waiting : Waiting δ) : Prop :=
  waiting.Pairwise fun inner outer => outer.2.power < inner.2.power

/-- The slot of the operand that waiting operators wait for. -/
def slot : Waiting δ → Slot δ
  | [] => .first
  | (left, op) :: rest =>
      if op.isProduct then ⟨.binary op left, finish rest⟩ else ⟨id, finish ((left, op) :: rest)⟩

theorem slot_product (left : Node δ) {op : BinaryOp} (rest : Waiting δ)
    (product : op.isProduct = true) :
    slot ((left, op) :: rest) = ⟨.binary op left, rest.finish⟩ := by
  rw [slot, if_pos product]

theorem slot_sum (left : Node δ) {op : BinaryOp} (rest : Waiting δ) (sum : op.isProduct = false) :
    slot ((left, op) :: rest) = ⟨id, finish ((left, op) :: rest)⟩ := by
  rw [slot, if_neg (by simp [sum])]

theorem finish_cons (left right : Node δ) (op : BinaryOp) (rest : Waiting δ) :
    finish ((left, op) :: rest) right = rest.finish (.binary op left right) := by
  rw [finish, settle, if_pos (Nat.zero_le _)]
  rfl

theorem slot_fill (waiting : Waiting δ) (right : Node δ) :
    waiting.slot.fill right = waiting.finish right := by
  cases waiting with
  | nil => rfl
  | cons entry rest =>
      obtain ⟨left, op⟩ := entry
      cases kind : op.isProduct with
      | true =>
          rw [slot_product left rest kind]
          exact (finish_cons left right op rest).symm
      | false =>
          rw [slot_sum left rest kind]
          rfl

/-- Operators that all bind at least as tightly are all given their operand. -/
theorem settle_of_le {power : Nat} {waiting : Waiting δ} (right : Node δ)
    (tight : ∀ entry ∈ waiting, power ≤ entry.2.power) :
    waiting.settle power right = ([], waiting.finish right) := by
  induction waiting generalizing right with
  | nil => rfl
  | cons entry rest ih =>
      obtain ⟨left, op⟩ := entry
      rw [settle, if_pos (tight _ List.mem_cons_self), finish_cons,
        ih _ fun entry member => tight entry (List.mem_cons_of_mem _ member)]

/-- Operators that all bind less tightly keep waiting. -/
theorem settle_of_lt {power : Nat} {waiting : Waiting δ} (right : Node δ)
    (loose : ∀ entry ∈ waiting, entry.2.power < power) :
    waiting.settle power right = (waiting, right) := by
  cases waiting with
  | nil => rfl
  | cons entry rest =>
      rw [settle, if_neg (Nat.not_le.mpr (loose entry List.mem_cons_self))]

theorem one_le_power (op : BinaryOp) : 1 ≤ op.power := by
  rw [op.power_eq]
  split <;> omega

/-- **An operator that joins the stack** leaves it ordered, and moves its slot as it moves any. -/
theorem Ordered.settle {waiting : Waiting δ} (ordered : waiting.Ordered) (operand : Node δ)
    (op : BinaryOp) :
    Ordered (((waiting.settle op.power operand).2, op) :: (waiting.settle op.power operand).1) ∧
      slot (((waiting.settle op.power operand).2, op) :: (waiting.settle op.power operand).1) =
        waiting.slot.next operand op := by
  cases kind : op.isProduct with
  | false =>
      have one : op.power = 1 := by simp [op.power_eq, kind]
      rw [one, settle_of_le operand fun entry _ => one_le_power entry.2,
        Slot.next_sum _ _ kind, slot_fill]
      exact ⟨List.pairwise_singleton _ _, slot_sum _ [] kind⟩
  | true =>
      have two : op.power = 2 := by simp [op.power_eq, kind]
      rw [two, Slot.next_product _ _ kind]
      cases waiting with
      | nil =>
          exact ⟨List.pairwise_singleton _ _, slot_product _ [] kind⟩
      | cons entry rest =>
          obtain ⟨left, inner⟩ := entry
          obtain ⟨below, ordered⟩ := List.pairwise_cons.mp ordered
          cases innerKind : inner.isProduct with
          | true =>
              -- The product on top takes the operand; below it only sums can wait.
              have innerTwo : inner.power = 2 := by simp [inner.power_eq, innerKind]
              simp only [innerTwo] at below
              rw [Waiting.settle, if_pos (by omega), settle_of_lt _ below]
              refine ⟨List.pairwise_cons.mpr ⟨by simpa [two] using below, ordered⟩, ?_⟩
              rw [slot_product _ _ kind, slot_product _ _ innerKind]
          | false =>
              have innerOne : inner.power = 1 := by simp [inner.power_eq, innerKind]
              have loose : ∀ entry ∈ (left, inner) :: rest, entry.2.power < 2 := by
                intro entry member
                rcases List.mem_cons.mp member with rfl | member
                · exact innerOne ▸ Nat.one_lt_two
                · exact Nat.lt_trans (below entry member) (innerOne ▸ Nat.one_lt_two)
              rw [settle_of_lt _ loose]
              refine ⟨List.pairwise_cons.mpr ⟨by simpa [two] using loose,
                List.pairwise_cons.mpr ⟨below, ordered⟩⟩, ?_⟩
              rw [slot_product _ _ kind, slot_sum _ _ innerKind]
              rfl

end Waiting

namespace Series

/-- **The stack puts operands into slots.**  By induction on the series: every operator moves the
slot on, and a `not` starts again with an empty stack. -/
theorem arrange_eq {series : Series (Node δ)} {waiting : Waiting δ} (ordered : waiting.Ordered) :
    series.arrange waiting =
      waiting.slot.put series.operands.first series.operands.rest := by
  induction series generalizing waiting with
  | last nots operand =>
      rw [arrange, operands, Operands.negated_single, Slot.put, Waiting.slot_fill]
  | link nots operand op rest ih =>
      cases nots with
      | zero =>
          obtain ⟨ordered', moved⟩ := ordered.settle operand op
          rw [operands, Operands.negated, Slot.put, ← moved]
          exact ih ordered'
      | succ nots =>
          have alone : rest.arrange [(operand, op)] =
              Operands.tree ⟨operand, (op, rest.operands.first) :: rest.operands.rest⟩ := by
            have empty : Waiting.Ordered ([] : Waiting δ) := List.Pairwise.nil
            obtain ⟨ordered', moved⟩ := empty.settle operand op
            rw [← Slot.first_put, Slot.put]
            exact (ih ordered').trans (by rw [moved]; rfl)
          rw [arrange, alone, operands, Operands.negated_succ, Slot.put, Waiting.slot_fill]

/-- **Grouping with a stack is grouping in layers.** -/
theorem group_eq_layered (series : Series (Node δ)) : series.group = series.layered := by
  rw [group, arrange_eq List.Pairwise.nil]
  exact Slot.first_put _ _

end Series

/-! ## The layered reference for whole programs -/

mutual
/-- The node of a statement, with all its expressions grouped in layers. -/
def Phrase.layered : Phrase → Option (Node Unit)
  | .branch test yes => do
      return .branch (.list (← layeredRow test)) (← layeredRow yes)
  | .branchElse test yes no => do
      return .branchElse (.list (← layeredRow test)) (← layeredRow yes) (← layeredRow no)
  | .loop header _ body => do
      match ← layeredRow header with
      | [start, test, step] => return .loop start test step (← layeredRow body)
      | _ => none
  | .expression series => do return (← layeredSeries series).layered

/-- The nodes of statements in a row. -/
def layeredRow : List Phrase → Option (List (Node Unit))
  | [] => some []
  | phrase :: rest => do return (← phrase.layered) :: (← layeredRow rest)

/-- The series of the nodes of its operands. -/
def layeredSeries : Series Operand → Option (Series (Node Unit))
  | .last nots operand => do return .last nots (← operand.layered)
  | .link nots operand op rest => do
      return .link nots (← operand.layered) op (← layeredSeries rest)

/-- The node of an operand. -/
def Operand.layered : Operand → Option (Node Unit)
  | .block parameters body => do return .block () parameters (← layeredRow body)
  | .call name arguments => do return .call name (← layeredRow arguments)
  | .assign name value => do return .assign name (← layeredSeries value).layered
  | .bool value => some (.bool value)
  | .float whole fraction => some (.float (ofDigits whole fraction))
  | .int digits _ =>
      if natOfDigits digits ≤ maxInteger then some (.int (.ofNat (natOfDigits digits))) else none
  | .var name => some (.var name)
  | .group series => do return (← layeredSeries series).layered
end

theorem toOption_integerNode_eq (digits : List Char) (place : Span) :
    (integerNode digits place).toOption = (Operand.int digits place).layered := by
  rw [integerNode, Operand.layered]
  split <;> rfl

theorem toOption_loopNode_eq (header : List (Node Unit)) (place : Span)
    (body : Except SourceError (List (Node Unit))) :
    (loopNode header place body).toOption =
      match header with
      | [start, test, step] => body.toOption.bind fun body => some (.loop start test step body)
      | _ => none :=
  match header with
  | [_, _, _] => toOption_bind body _
  | [] | [_] | [_, _] | _ :: _ :: _ :: _ :: _ => rfl

mutual
theorem Phrase.toOption_node_eq : ∀ phrase : Phrase, phrase.node.toOption = phrase.layered
  | .branch test yes => by
      simp only [Phrase.node, Phrase.layered, toOption_bind, toOption_nodes_eq]
      rfl
  | .branchElse test yes no => by
      simp only [Phrase.node, Phrase.layered, toOption_bind, toOption_nodes_eq]
      cases layeredRow test <;> cases layeredRow yes <;> cases layeredRow no <;> rfl
  | .loop header place body => by
      simp only [Phrase.node, Phrase.layered, toOption_bind, toOption_nodes_eq,
        toOption_loopNode_eq]
      rfl
  | .expression series => by
      simp only [Phrase.node, Phrase.layered, toOption_bind, toOption_seriesNodes_eq,
        Series.group_eq_layered]
      rfl

theorem toOption_nodes_eq : ∀ row : List Phrase, (nodes row).toOption = layeredRow row
  | [] => rfl
  | phrase :: rest => by
      simp only [nodes, layeredRow, toOption_bind, Phrase.toOption_node_eq, toOption_nodes_eq]
      rfl

theorem toOption_seriesNodes_eq : ∀ series : Series Operand,
    (seriesNodes series).toOption = layeredSeries series
  | .last nots operand => by
      simp only [seriesNodes, layeredSeries, toOption_bind, Operand.toOption_node_eq]
      rfl
  | .link nots operand op rest => by
      simp only [seriesNodes, layeredSeries, toOption_bind, Operand.toOption_node_eq,
        toOption_seriesNodes_eq]
      rfl

theorem Operand.toOption_node_eq : ∀ operand : Operand, operand.node.toOption = operand.layered
  | .block parameters body => by
      simp only [Operand.node, Operand.layered, toOption_bind, toOption_nodes_eq]
      rfl
  | .call name arguments => by
      simp only [Operand.node, Operand.layered, toOption_bind, toOption_nodes_eq]
      rfl
  | .assign name value => by
      simp only [Operand.node, Operand.layered, toOption_bind, toOption_seriesNodes_eq,
        Series.group_eq_layered]
      rfl
  | .bool _ | .float _ _ | .var _ => rfl
  | .int digits place => toOption_integerNode_eq digits place
  | .group series => by
      simp only [Operand.node, Operand.layered, toOption_bind, toOption_seriesNodes_eq,
        Series.group_eq_layered]
      rfl
end

end BlockScript
