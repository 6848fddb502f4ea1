import BlockScript.Grammar.Cursor
import BlockScript.Grammar.Tracker

/-!
# Scanners

A scanner looks for something at a cursor.  It either finds it and moves the cursor, or
refuses; in both cases it passes on the record of refused forms.  Alternatives are tried in
order and the first success counts, repetition takes as much as it can, and a refusal leaves
the cursor where it was.

The record of refusals is only written, never read to decide anything, so what a scanner
finds does not depend on it.
-/

set_option autoImplicit false

namespace BlockScript

/-- A search for a value of type `α` at a cursor. -/
def Scanner (α : Type) := Cursor → Tracker → Option (α × Cursor) × Tracker

namespace Scanner

variable {α β : Type}

/-- Find `a` without reading anything. -/
@[inline] def found (a : α) : Scanner α := fun c t => (some (a, c), t)

/-- Refuse everything. -/
def fail : Scanner α := fun _ t => (none, t)

/-- Look for one thing after another. -/
@[inline] def andThen (p : Scanner α) (f : α → Scanner β) : Scanner β := fun c t =>
  match p c t with
  | (some (a, c'), t') => f a c' t'
  | (none, t') => (none, t')

instance : Monad Scanner where
  pure := found
  bind := andThen

/-- A single step that keeps no record. -/
@[inline] def ofStep (step : Cursor → Option (α × Cursor)) : Scanner α := fun c t => (step c, t)

/-- The place that the cursor has reached. -/
def position : Scanner Nat := fun c t => (some (c.pos, c), t)

/-- Look for the second thing where the first is refused. -/
@[inline] def orElse (p q : Scanner α) : Scanner α := fun c t =>
  match p c t with
  | (some r, t') => (some r, t')
  | (none, t') => q c t'

/-- Find something or go on without it. -/
@[inline] def optional (p : Scanner α) : Scanner (Option α) := fun c t =>
  match p c t with
  | (some (a, c'), t') => (some (some a, c'), t')
  | (none, t') => (some (none, c), t')

/-- Look for a named form: a refusal goes on record. -/
@[inline] def named (form : Form) (p : Scanner α) : Scanner α := fun c t =>
  match p c t with
  | (some r, t') => (some r, t')
  | (none, t') => (none, t'.refuse form c.pos (t.count c.pos))

/-- Find the same thing at most `n` times in a row. -/
def upTo (p : Scanner α) : Nat → Cursor → Tracker → (List α × Cursor) × Tracker
  | 0, c, t => (([], c), t)
  | n + 1, c, t =>
      match p c t with
      | (some (a, c'), t') =>
          let ((rest, c''), t'') := upTo p n c' t'
          ((a :: rest, c''), t'')
      | (none, t') => (([], c), t')

/-- Find the same thing as often as possible.  Every scanner that is repeated here reads at
least one character, so the length of the text bounds the number of rounds, and one round
more is refused. -/
def many (p : Scanner α) : Scanner (List α) := fun c t =>
  let (r, t') := upTo p (c.rest.length + 1) c t
  (some r, t')

/-- A fixed mark, such as a bracket.  Marks are not forms, so nothing goes on record. -/
@[inline] def mark (text : List Char) : Scanner Unit := ofStep (Cursor.mark? text)

end Scanner

end BlockScript
