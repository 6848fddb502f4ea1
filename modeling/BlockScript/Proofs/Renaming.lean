import BlockScript.Proofs.Frames
import BlockScript.Run.Operation
import Mathlib.Logic.Function.Basic

/-!
# Renaming

Names, labels of block literals and identities of frames can be replaced by others.  A renaming
is injective on each of them, keeps the name under which a block finds itself, and moves all
frames up by the same number.

The operators of the language do not tell a value from its renaming (`Commutes`): they look at a
block only to compare labels and frames.  A store mirrors another one if its frames from some
number on are the renamed frames of the other (`Store.Mirrors`).  Below that number it may have
any frames.  Every operation of the store keeps this, because a frame that mirrors another one
has its bindings and its parent from there, so looking a name up and assigning to it climb the
same links.  They could end apart only if the one store were cut short by its size and the other
were not, which cannot be if the two have the same size or if parents are older than their
children (`Store.Unbounded`).
-/

set_option autoImplicit false

namespace BlockScript

/-- Other names and other labels, no two of them made the same, and frames moved up by a number.
The name under which a block finds itself stays. -/
structure Renaming where
  name : String → String
  label : DefId → DefId
  offset : Nat
  name_injective : Function.Injective name
  label_injective : Function.Injective label
  self : name Store.selfName = Store.selfName

/-- The identity of a frame after a renaming. -/
def Renaming.frame (R : Renaming) (f : FrameId) : FrameId := ⟨f.index + R.offset⟩

theorem Renaming.frame_injective (R : Renaming) : Function.Injective R.frame := by
  intro f g same
  rw [FrameId.eq_iff_index] at same ⊢
  exact Nat.add_right_cancel same

/-! ## Trees, values and outcomes -/

variable (R : Renaming)

namespace Node

mutual
/-- A tree with its names and labels renamed. -/
def rename : Node DefId → Node DefId
  | .list statements => .list (renameAll statements)
  | .loop start test step body =>
      .loop (rename start) (rename test) (rename step) (renameAll body)
  | .branch test yes => .branch (rename test) (renameAll yes)
  | .branchElse test yes no => .branchElse (rename test) (renameAll yes) (renameAll no)
  | .block label parameters body =>
      .block (R.label label) (parameters.map R.name) (renameAll body)
  | .call name arguments => .call (R.name name) (renameAll arguments)
  | .assign name value => .assign (R.name name) (rename value)
  | .var name => .var (R.name name)
  | .logic op left right => .logic op (rename left) (rename right)
  | .compare op left right => .compare op (rename left) (rename right)
  | .arith op left right => .arith op (rename left) (rename right)
  | .int value => .int value
  | .float value => .float value
  | .bool value => .bool value

/-- Statements with their names and labels renamed. -/
def renameAll : List (Node DefId) → List (Node DefId)
  | [] => []
  | node :: rest => rename node :: renameAll rest
end

@[simp] theorem length_renameAll (nodes : List (Node DefId)) :
    (renameAll R nodes).length = nodes.length := by
  induction nodes with
  | nil => rfl
  | cons node rest ih => simp only [renameAll, List.length_cons, ih]

end Node

/-- A definition with its names and labels renamed. -/
def Definition.rename (d : Definition) : Definition :=
  ⟨R.label d.id, d.parameters.map R.name, Node.renameAll R d.body⟩

/-- A value with the names, labels and frames in it renamed.  Only blocks have any. -/
def Value.rename : Value → Value
  | .block d f => .block (d.rename R) (R.frame f)
  | .int value => .int value
  | .float value => .float value
  | .bool value => .bool value
  | .nil => .nil
  | .signal message => .signal message

/-- An error with the name in it renamed.  Only a call with too few arguments has one. -/
def EvalError.rename : EvalError → EvalError
  | .arity block expected received => .arity (R.name block) expected received
  | e => e

/-- A value or an error, renamed. -/
def renameOutcome : Except EvalError Value → Except EvalError Value
  | .ok v => .ok (v.rename R)
  | .error e => .error (e.rename R)

@[simp] theorem Value.truthy_rename (v : Value) : (v.rename R).truthy = v.truthy := by
  cases v with
  | bool value => cases value <;> rfl
  | int | float | block | nil | signal => rfl

@[simp] theorem Value.isNil_rename (v : Value) : (v.rename R).isNil = v.isNil := by
  cases v <;> rfl

/-! ## Operators -/

/-- A way of combining two values that does not see names. -/
def Commutes (combine : Value → Value → Except EvalError Value) : Prop :=
  ∀ l r, combine (l.rename R) (r.rename R) = renameOutcome R (combine l r)

theorem Value.same_rename (l r : Value) : (l.rename R).same (r.rename R) = l.same r := by
  cases l with
  | block d f =>
      cases r with
      | block e g =>
          have label : (R.label d.id == R.label e.id) = (d.id == e.id) := by
            rw [Bool.eq_iff_iff, beq_iff_eq, beq_iff_eq, R.label_injective.eq_iff]
          have frame : (R.frame f == R.frame g) = (f == g) := by
            rw [Bool.eq_iff_iff, beq_iff_eq, beq_iff_eq, R.frame_injective.eq_iff]
          simp only [rename, same, Definition.rename, label, frame]
      | int | float | bool | nil | signal => rfl
  | int | float | bool | nil | signal => cases r <;> rfl

theorem Value.equals_rename (l r : Value) : (l.rename R).equals (r.rename R) = l.equals r := by
  cases l with
  | block d f =>
      cases r with
      | block e g => exact same_rename R (.block d f) (.block e g)
      | int | float | bool | nil | signal => rfl
  | int | float | bool | nil | signal => cases r <;> rfl

theorem LogicOp.commutes (op : LogicOp) :
    Commutes R fun l r => .ok (.bool (op.onValues l r)) := by
  intro l r
  have same : op.onValues (l.rename R) (r.rename R) = op.onValues l r := by
    cases op <;> simp only [LogicOp.onValues, Value.truthy_rename]
  exact congrArg (fun truth => Except.ok (Value.bool truth)) same

theorem CompareOp.commutes (op : CompareOp) :
    Commutes R fun l r => (op.onValues l r).map .bool := by
  intro l r
  cases op with
  | eq | ne =>
      simp only [CompareOp.onValues, Value.equals_rename]
      rfl
  | le | ge | lt | gt => cases l <;> cases r <;> rfl

theorem ArithOp.commutes (op : ArithOp) : Commutes R op.onValues := by
  intro l r
  cases l with
  | int a =>
      cases r with
      | int b =>
          cases op with
          | div =>
              simp only [Value.rename, ArithOp.onValues, ArithOp.onInts]
              split <;> rfl
          | add | sub | mul => rfl
      | float | bool | block | nil | signal => rfl
  | float | bool | block | nil | signal => cases r <;> rfl

/-! ## Frames -/

namespace Assoc

variable {κ κ' ν ν' : Type} [DecidableEq κ] [DecidableEq κ']

/-- The map with other keys and other values in the same order. -/
def rename (key : κ → κ') (value : ν → ν') (m : Assoc κ ν) : Assoc κ' ν' :=
  ⟨m.entries.map (Prod.map key value)⟩

variable {key : κ → κ'} (injective : Function.Injective key) (value : ν → ν')

include injective

theorem get?_rename (m : Assoc κ ν) (k : κ) :
    (m.rename key value).get? (key k) = (m.get? k).map value := by
  obtain ⟨entries⟩ := m
  simp only [rename, get?]
  induction entries with
  | nil => rfl
  | cons entry rest ih =>
      obtain ⟨other, w⟩ := entry
      simp only [List.map_cons, Prod.map_apply, find]
      by_cases here : other = k
      · simp only [here, if_true, Option.map_some]
      · simp only [here, injective.ne here, if_false, ih]

theorem insert_rename (m : Assoc κ ν) (k : κ) (v : ν) :
    (m.rename key value).insert (key k) (value v) = (m.insert k v).rename key value := by
  obtain ⟨entries⟩ := m
  simp only [rename, insert, mk.injEq]
  induction entries with
  | nil => rfl
  | cons entry rest ih =>
      obtain ⟨other, w⟩ := entry
      simp only [List.map_cons, Prod.map_apply, put]
      by_cases here : other = k
      · simp only [here, if_true, List.map_cons, Prod.map_apply]
      · simp only [here, injective.ne here, if_false, List.map_cons, Prod.map_apply, ih]

end Assoc

/-- A frame with its names, its values and its parent renamed. -/
def Frame.rename (frame : Frame) : Frame :=
  ⟨frame.bindings.rename R.name (Value.rename R), frame.parent.map R.frame⟩

namespace Store

/-- The frames of the second store from the offset on are the renamed frames of the first. -/
structure Mirrors (s t : Store) : Prop where
  size : t.frames.size = s.frames.size + R.offset
  frame : ∀ f, t.frame (R.frame f) = (s.frame f).rename R

/-- A bound above the size of the store is as good as none. -/
def Unbounded (s : Store) : Prop := R.offset = 0 ∨ s.Forest

variable {R} {s t : Store}

theorem Forest.lookupWithin_add (forest : s.Forest) (name : String) (more : Nat) :
    ∀ {steps : Nat} {f : FrameId}, f.index < steps →
      s.lookupWithin name (steps + more) f = s.lookupWithin name steps f
  | steps + 1, f, room => by
      rw [Nat.add_right_comm, lookupWithin, lookupWithin]
      cases s.own? f name with
      | some value => rfl
      | none =>
          cases link : s.parent f with
          | none => rfl
          | some p =>
              have climbs := forest f p link
              exact forest.lookupWithin_add name more (by omega)

theorem Forest.assignWithin_add (forest : s.Forest) (name : String) (v : Value) (more : Nat) :
    ∀ {steps : Nat} {f : FrameId}, f.index < steps →
      s.assignWithin name v (steps + more) f = s.assignWithin name v steps f
  | steps + 1, f, room => by
      rw [Nat.add_right_comm, assignWithin, assignWithin]
      cases link : s.parent f with
      | none => rfl
      | some p =>
          have climbs := forest f p link
          have further := forest.assignWithin_add name v more (show p.index < steps by omega)
          simp only [further]

namespace Unbounded

variable (unbounded : s.Unbounded R)
include unbounded

theorem lookupWithin (f : FrameId) (name : String) :
    s.lookupWithin name (s.frames.size + R.offset) f = s.lookup f name := by
  rcases unbounded with unmoved | forest
  · rw [unmoved]
    rfl
  · by_cases has : s.Has f
    · exact forest.lookupWithin_add name R.offset has
    · rw [lookupWithin_of_not_has has, lookup_of_not_has has]

theorem assignWithin (f : FrameId) (name : String) (v : Value) :
    s.assignWithin name v (s.frames.size + R.offset) f = s.assign f name v := by
  rcases unbounded with unmoved | forest
  · rw [unmoved]
    rfl
  · by_cases has : s.Has f
    · exact forest.assignWithin_add name v R.offset has
    · rw [assign, assignWithin_of_not_has has, assignWithin_of_not_has has]

end Unbounded

namespace Mirrors

variable (mirrors : s.Mirrors R t)
include mirrors

theorem next : t.next = R.frame s.next := by
  simp only [Store.next, Renaming.frame, mirrors.size]

theorem has_iff (f : FrameId) : t.Has (R.frame f) ↔ s.Has f := by
  simp only [Has, Renaming.frame, mirrors.size, Nat.add_lt_add_iff_right]

theorem own? (f : FrameId) (name : String) :
    t.own? (R.frame f) (R.name name) = (s.own? f name).map (Value.rename R) := by
  rw [Store.own?, mirrors.frame]
  exact Assoc.get?_rename R.name_injective _ _ _

theorem parent (f : FrameId) : t.parent (R.frame f) = (s.parent f).map R.frame := by
  rw [Store.parent, mirrors.frame]
  rfl

theorem owns (f : FrameId) (name : String) : t.owns (R.frame f) (R.name name) = s.owns f name := by
  have same := mirrors.own? f name
  simp only [Store.own?] at same
  simp only [Store.owns, Assoc.contains, same, Option.isSome_map]

/-! ### Reading -/

theorem lookupWithin (name : String) (steps : Nat) (f : FrameId) :
    t.lookupWithin (R.name name) steps (R.frame f) = (s.lookupWithin name steps f).rename R := by
  induction steps generalizing f with
  | zero => rfl
  | succ steps ih =>
      rw [Store.lookupWithin, Store.lookupWithin, mirrors.own?, mirrors.parent]
      cases s.own? f name with
      | some value => rfl
      | none =>
          cases s.parent f with
          | some p => exact ih p
          | none => rfl

/-- **A name has the same value in both stores.** -/
theorem lookup (unbounded : s.Unbounded R) (f : FrameId) (name : String) :
    t.lookup (R.frame f) (R.name name) = (s.lookup f name).rename R := by
  rw [Store.lookup, mirrors.lookupWithin, mirrors.size, unbounded.lookupWithin]

/-! ### Growing -/

theorem add (frame : Frame) : (s.add frame).2.Mirrors R (t.add (frame.rename R)).2 where
  size := by
    simp only [Store.add, Array.size_push, mirrors.size]
    omega
  frame f := by
    rw [frame_add, frame_add, mirrors.next, mirrors.frame]
    by_cases new : f = s.next
    · simp only [new, if_true]
    · simp only [new, R.frame_injective.ne new, if_false]

theorem newFrame (parent : Option FrameId) :
    (s.newFrame parent).2.Mirrors R (t.newFrame (parent.map R.frame)).2 :=
  mirrors.add ⟨.empty, parent⟩

theorem snapshot (f : FrameId) : (s.snapshot f).2.Mirrors R (t.snapshot (R.frame f)).2 := by
  rw [Store.snapshot, Store.snapshot, mirrors.frame]
  exact mirrors.add (s.frame f)

/-! ### Writing -/

theorem bind (f : FrameId) (name : String) (v : Value) :
    (s.bind f name v).Mirrors R (t.bind (R.frame f) (R.name name) (v.rename R)) where
  size := by simp only [Store.bind, Array.size_modify, mirrors.size]
  frame g := by
    by_cases here : g = f
    · subst here
      by_cases has : s.Has g
      · rw [frame_bind_self has, frame_bind_self ((mirrors.has_iff g).mpr has), mirrors.frame]
        simp only [Frame.rename, Assoc.insert_rename R.name_injective]
      · have missing : ¬ t.Has (R.frame g) := fun found => has ((mirrors.has_iff g).mp found)
        rw [frame_of_not_has (by simpa using missing), frame_of_not_has (by simpa using has)]
        rfl
    · rw [frame_bind_of_ne here, frame_bind_of_ne (R.frame_injective.ne here), mirrors.frame]

theorem assignWithin (unbounded : s.Unbounded R) (name : String) (v : Value) (steps : Nat)
    (f : FrameId) :
    ∃ target, s.assignWithin name v steps f = s.bind target name v ∧
      t.assignWithin (R.name name) (v.rename R) steps (R.frame f) =
        t.bind (R.frame target) (R.name name) (v.rename R) := by
  induction steps generalizing f with
  | zero => exact ⟨f, rfl, rfl⟩
  | succ steps ih =>
      rw [Store.assignWithin, Store.assignWithin, mirrors.owns, mirrors.lookup unbounded,
        Value.isNil_rename, mirrors.parent]
      split
      · exact ⟨f, rfl, rfl⟩
      · cases s.parent f with
        | some p => exact ih p
        | none => exact ⟨f, rfl, rfl⟩

/-- **An assignment goes to the same frame in both stores.** -/
theorem assign (unbounded : s.Unbounded R) (f : FrameId) (name : String) (v : Value) :
    ∃ target, s.assign f name v = s.bind target name v ∧
      t.assign (R.frame f) (R.name name) (v.rename R) =
        t.bind (R.frame target) (R.name name) (v.rename R) := by
  rw [← unbounded.assignWithin, Store.assign, mirrors.size]
  exact mirrors.assignWithin unbounded name v _ f

end Mirrors

end Store

end BlockScript
