import BlockScript.Grammar.Form

/-!
# The farthest refusal

While a text is read many forms are looked for in vain, most of them because another form
stands at the same place.  Only the refusals at the farthest place that was reached can
explain why the whole text is refused, so the record keeps that place and the forms that
were refused there.

A form that holds other forms is refused after them.  It then takes their place on record,
because it says more about what could have stood there; but if only one of them is on
record, that one is the better explanation and stays.
-/

set_option autoImplicit false

namespace BlockScript

/-- The forms that were refused at the farthest place so far. -/
structure Tracker where
  /-- The farthest place at which a form was refused. -/
  farthest : Nat
  /-- The forms refused there, the earliest first. -/
  forms : Array Form
  deriving Repr

namespace Tracker

/-- Nothing has been refused yet. -/
def empty : Tracker := ⟨0, #[]⟩

/-- How many forms are on record for a place. -/
def count (t : Tracker) (pos : Nat) : Nat :=
  if t.farthest = pos then t.forms.size else 0

/-- Record that `form` was refused at `pos`, where `before` forms were on record when the
search for it began.  A form whose search left exactly one more form on record is described
by that one; otherwise it stands for all that its search recorded at the same place.  A
refusal before the farthest place tells nothing. -/
def refuse (form : Form) (pos before : Nat) (t : Tracker) : Tracker :=
  if t.count pos = before + 1 then t
  else if pos < t.farthest then t
  else if pos = t.farthest then ⟨t.farthest, (t.forms.shrink before).push form⟩
  else ⟨pos, #[form]⟩

/-- The forms on record, each once, in reporting order. -/
def expected (t : Tracker) : List Form := Form.all.filter t.forms.contains

end Tracker

end BlockScript
