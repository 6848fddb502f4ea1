import BlockScript.Proofs.Scenes

/-!
# The definitions of a program

Numbering a tree gives each block literal a label of its own, so that a label stands for one
definition, with its parameters and its body.  A table collects the definitions whose labels lie
in a range of numbers, together with all the definitions inside their bodies (`Labelled`).
Tables of ranges that follow each other can be joined, both along the parts of one tree and along
the trees that are run one after another.
-/

set_option autoImplicit false

namespace BlockScript

/-- A block literal is in the table; other nodes are of no concern. -/
def Literal (table : Set Definition) : Node DefId → Prop
  | .block id parameters body => ⟨id, parameters, body⟩ ∈ table
  | _ => True

theorem Literal.mono {small large : Set Definition} (sub : small ⊆ large) (n : Node DefId)
    (literal : Literal small n) : Literal large n := by
  cases n with
  | block => exact sub literal
  | list | loop | branch | branchElse | call | assign | var | logic | compare | arith | int |
      float | bool => exact trivial

/-- A table of definitions whose labels are at least `low` and below `high`: no label stands for
two of them, and the literals in their bodies are in the table as well. -/
structure Labelled (low high : Nat) (table : Set Definition) : Prop where
  le : low ≤ high
  range : ∀ d ∈ table, low ≤ d.id.index ∧ d.id.index < high
  same : ∀ d ∈ table, ∀ d' ∈ table, d.id = d'.id → d = d'
  bodies : ∀ d ∈ table, Node.EveryAll (Literal table) d.body

namespace Labelled

variable {low middle high : Nat} {table other : Set Definition}

theorem none (n : Nat) : Labelled n n ∅ where
  le := Nat.le_refl n
  range _ member := member.elim
  same _ member := member.elim
  bodies _ member := member.elim

/-- Two ranges that follow each other. -/
theorem union (first : Labelled low middle table) (second : Labelled middle high other) :
    Labelled low high (table ∪ other) where
  le := Nat.le_trans first.le second.le
  range d member := by
    have := first.le
    have := second.le
    rcases member with member | member
    · have := first.range d member
      omega
    · have := second.range d member
      omega
  same d member d' member' label := by
    -- Labels of the one range are not labels of the other.
    have apart : ∀ e ∈ table, ∀ e' ∈ other, e.id ≠ e'.id := by
      intro e inFirst e' inSecond equal
      have below := first.range e inFirst
      have above := second.range e' inSecond
      rw [equal] at below
      omega
    rcases member with member | member
    · rcases member' with member' | member'
      · exact first.same d member d' member' label
      · exact absurd label (apart d member d' member')
    · rcases member' with member' | member'
      · exact absurd label.symm (apart d' member' d member)
      · exact second.same d member d' member' label
  bodies d member := by
    rcases member with member | member
    · exact (first.bodies d member).imp (Literal.mono Set.subset_union_left)
    · exact (second.bodies d member).imp (Literal.mono Set.subset_union_right)

/-- The definition of a block comes before the definitions in its body. -/
theorem block (inside : Labelled (low + 1) high table) {body : List (Node DefId)}
    (literals : Node.EveryAll (Literal table) body) (parameters : List String) :
    Labelled low high (insert ⟨⟨low⟩, parameters, body⟩ table) where
  le := by
    have := inside.le
    omega
  range d member := by
    have := inside.le
    rcases member with rfl | member
    · exact ⟨Nat.le_refl low, this⟩
    · have := inside.range d member
      omega
  same d member d' member' label := by
    have later : ∀ e ∈ table, e.id ≠ ⟨low⟩ := by
      intro e old equal
      have above : low + 1 ≤ e.id.index := (inside.range e old).1
      rw [equal] at above
      exact Nat.lt_irrefl low above
    rcases member with rfl | member
    · rcases member' with rfl | member'
      · rfl
      · exact absurd label.symm (later d' member')
    · rcases member' with rfl | member'
      · exact absurd label (later d member)
      · exact inside.same d member d' member' label
  bodies d member := by
    rcases member with rfl | member
    · exact literals.imp (Literal.mono (Set.subset_insert _ _))
    · exact (inside.bodies d member).imp (Literal.mono (Set.subset_insert _ _))

end Labelled

/-! ## Numbering -/

/-- The literals of the trees have labels of their own that lie between the two numbers. -/
def Fresh (low high : Nat) (trees : List (Node DefId)) : Prop :=
  ∃ table, Labelled low high table ∧ Node.EveryAll (Literal table) trees

theorem Node.EveryAll.append {δ : Type} {p : Node δ → Prop} {first second : List (Node δ)}
    (left : EveryAll p first) (right : EveryAll p second) : EveryAll p (first ++ second) := by
  induction first with
  | nil => exact right
  | cons node rest ih => exact ⟨left.1, ih left.2⟩

theorem Node.EveryAll.of_append {δ : Type} {p : Node δ → Prop} {first second : List (Node δ)}
    (all : EveryAll p (first ++ second)) : EveryAll p first ∧ EveryAll p second := by
  induction first with
  | nil => exact ⟨trivial, all⟩
  | cons node rest ih => exact ⟨⟨all.1, (ih all.2).1⟩, (ih all.2).2⟩

namespace Fresh

variable {low middle high : Nat} {first second trees : List (Node DefId)}

theorem append (left : Fresh low middle first) (right : Fresh middle high second) :
    Fresh low high (first ++ second) := by
  obtain ⟨table, labelled, literals⟩ := left
  obtain ⟨other, labelled', literals'⟩ := right
  refine ⟨table ∪ other, labelled.union labelled', ?_⟩
  exact (literals.imp (Literal.mono Set.subset_union_left)).append
    (literals'.imp (Literal.mono Set.subset_union_right))

/-- Other trees with the same literals. -/
theorem regroup (fresh : Fresh low high first)
    (literals : ∀ table, Node.EveryAll (Literal table) first →
      Node.EveryAll (Literal table) trees) : Fresh low high trees := by
  obtain ⟨table, labelled, all⟩ := fresh
  exact ⟨table, labelled, literals table all⟩

theorem none (n : Nat) : Fresh n n [] := ⟨∅, .none n, trivial⟩

/-- A node without parts that is not a literal. -/
theorem leaf (node : Node DefId) (every : ∀ table, node.Every (Literal table)) (n : Nat) :
    Fresh n n [node] :=
  (none n).regroup fun table _ => ⟨every table, trivial⟩

end Fresh

mutual
/-- **Numbering gives every block literal of a tree a label of its own.** -/
theorem Node.fresh_number {δ : Type} : ∀ (node : Node δ) (next : Nat),
    Fresh next (node.number (fun _ => none) next).2 [(node.number (fun _ => none) next).1]
  | .list statements, next =>
      (Node.fresh_numberAll statements next).regroup fun _ all => ⟨⟨trivial, all⟩, trivial⟩
  | .loop start test step body, next => by
      have parts := (Node.fresh_number start next).append ((Node.fresh_number test _).append
        ((Node.fresh_number step _).append (Node.fresh_numberAll body _)))
      exact parts.regroup fun _ all => ⟨⟨trivial, all⟩, trivial⟩
  | .branch test yes, next => by
      have parts := (Node.fresh_number test next).append (Node.fresh_numberAll yes _)
      exact parts.regroup fun _ all => ⟨⟨trivial, all⟩, trivial⟩
  | .branchElse test yes no, next => by
      have parts := (Node.fresh_number test next).append
        ((Node.fresh_numberAll yes _).append (Node.fresh_numberAll no _))
      exact parts.regroup fun _ all => ⟨⟨trivial, all.1, all.of_append.2.of_append⟩, trivial⟩
  | .block _ parameters body, next => by
      obtain ⟨table, labelled, literals⟩ := Node.fresh_numberAll body (next + 1)
      refine ⟨_, labelled.block literals parameters, ⟨.inl rfl, ?_⟩, trivial⟩
      exact literals.imp (Literal.mono (Set.subset_insert _ _))
  | .call _ arguments, next =>
      (Node.fresh_numberAll arguments next).regroup fun _ all => ⟨⟨trivial, all⟩, trivial⟩
  | .assign _ value, next =>
      (Node.fresh_number value next).regroup fun _ all => ⟨⟨trivial, all.1⟩, trivial⟩
  | .var x, next => .leaf (.var x) (fun _ => trivial) next
  | .logic _ left right, next => by
      have parts := (Node.fresh_number left next).append (Node.fresh_number right _)
      exact parts.regroup fun _ all => ⟨⟨trivial, all.1, all.2.1⟩, trivial⟩
  | .compare _ left right, next => by
      have parts := (Node.fresh_number left next).append (Node.fresh_number right _)
      exact parts.regroup fun _ all => ⟨⟨trivial, all.1, all.2.1⟩, trivial⟩
  | .arith _ left right, next => by
      have parts := (Node.fresh_number left next).append (Node.fresh_number right _)
      exact parts.regroup fun _ all => ⟨⟨trivial, all.1, all.2.1⟩, trivial⟩
  | .int x, next => .leaf (.int x) (fun _ => trivial) next
  | .float x, next => .leaf (.float x) (fun _ => trivial) next
  | .bool x, next => .leaf (.bool x) (fun _ => trivial) next

theorem Node.fresh_numberAll {δ : Type} : ∀ (nodes : List (Node δ)) (next : Nat),
    Fresh next (Node.numberAll (fun _ => none) nodes next).2
      (Node.numberAll (fun _ => none) nodes next).1
  | [], next => .none next
  | node :: rest, next => (Node.fresh_number node next).append (Node.fresh_numberAll rest _)
end

end BlockScript
