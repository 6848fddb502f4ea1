import BlockScript.Run.Failure
import BlockScript.Run.Store

/-!
# Computations on a machine

A machine is a store together with the number of block calls that are active.  A computation
changes a machine and gives a value or an evaluation error; what it changed before an error
stays.  Computations run on a budget of steps, and give nothing when the budget is used up.
-/

set_option autoImplicit false

namespace BlockScript

/-- The state of an evaluation. -/
structure Machine where
  store : Store
  /-- The number of block calls that have begun and not ended. -/
  active : Nat

/-- A computation with a result of type `α`.  It gives nothing if its budget is used up. -/
def Run (α : Type) := Machine → Option (Except EvalError α × Machine)

namespace Run

variable {α β : Type}

/-- The computation that only gives `a`. -/
@[inline] def give (a : α) : Run α := fun m => some (.ok a, m)

/-- One computation after another; an error ends both. -/
@[inline] def andThen (x : Run α) (f : α → Run β) : Run β := fun m =>
  match x m with
  | none => none
  | some (.ok a, m') => f a m'
  | some (.error e, m') => some (.error e, m')

instance : Monad Run where
  pure := give
  bind := andThen

/-- The budget is used up. -/
def exhausted : Run α := fun _ => none

/-- Stop with an error. -/
@[inline] def fail (e : EvalError) : Run α := fun m => some (.error e, m)

/-- Go on with a result that was found without the machine. -/
@[inline] def ofExcept (r : Except EvalError α) : Run α := fun m => some (r, m)

/-- Read from the store. -/
@[inline] def read (f : Store → α) : Run α := fun m => some (.ok (f m.store), m)

/-- Change the store. -/
@[inline] def change (f : Store → Store) : Run Unit := fun m =>
  some (.ok (), { m with store := f m.store })

/-- Change the store and keep a result. -/
@[inline] def act (f : Store → α × Store) : Run α := fun m =>
  let (a, store) := f m.store
  some (.ok a, { m with store })

/-- The number of active block calls. -/
@[inline] def activeCalls : Run Nat := fun m => some (.ok m.active, m)

/-- Run the body of a block: one more call is active until it ends, with a value or with an
error. -/
@[inline] def calling (body : Run α) : Run α := fun m =>
  match body { m with active := m.active + 1 } with
  | none => none
  | some (r, m') => some (r, { m' with active := m'.active - 1 })

end Run

end BlockScript
