import BlockScript.Grammar.Rules
import BlockScript.Proofs.Reading.Steps

/-!
# What a scanner finds

A scanner passes on a record of refusals, but what it finds does not depend on that record
(`Scanner.Blind`).  So it makes sense to speak of what a scanner finds at a cursor
(`Scanner.find`), and what a scanner made of others finds is an equation about what those
find.  A scanner also never goes back (`Scanner.Shrinks`), and most of them read at least one
character where they find something (`Scanner.Consumes`), which is why repetition ends.

Both facts hold of every rule of the grammar because they hold of the scanners it is put
together from; instances carry them along.
-/

set_option autoImplicit false

namespace BlockScript

namespace Scanner

variable {α β : Type}

/-- What a scanner finds at a cursor. -/
def find (p : Scanner α) (c : Cursor) : Option (α × Cursor) := (p c .empty).1

/-- What the scanner finds does not depend on what was refused before. -/
class Blind (p : Scanner α) : Prop where
  same : ∀ c t, (p c t).1 = p.find c

/-- The scanner never goes back. -/
class Shrinks (p : Scanner α) : Prop where
  le : ∀ {c t a c'}, (p c t).1 = some (a, c') → c'.rest.length ≤ c.rest.length

/-- The scanner reads something wherever it finds something. -/
class Consumes (p : Scanner α) : Prop where
  lt : ∀ {c t a c'}, (p c t).1 = some (a, c') → c'.rest.length < c.rest.length

instance (priority := low) (p : Scanner α) [Consumes p] : Shrinks p where
  le found := Nat.le_of_lt (Consumes.lt found)

/-! ## Single steps -/

section Step

variable {step : Cursor → Option (α × Cursor)}

@[simp]
theorem find_ofStep (c : Cursor) : (ofStep step).find c = step c := rfl

instance : Blind (ofStep step) where
  same _ _ := rfl

end Step

@[simp]
theorem find_mark (text : List Char) (c : Cursor) : (mark text).find c = Cursor.mark? text c := rfl

instance (text : List Char) : Blind (mark text) where
  same _ _ := rfl

instance (x : Char) (text : List Char) : Consumes (mark (x :: text)) where
  lt {c t u c'} found := by
    obtain ⟨gap, takes⟩ := Cursor.mark?_eq_some_iff.mp (found : Cursor.mark? _ c = some (u, c'))
    simp [takes.rest]
    omega

@[simp]
theorem find_pure (a : α) (c : Cursor) : (pure a : Scanner α).find c = some (a, c) := rfl

instance (a : α) : Blind (pure a : Scanner α) where
  same _ _ := rfl

instance (a : α) : Shrinks (pure a : Scanner α) where
  le found := by
    cases found
    exact Nat.le_refl _

@[simp]
theorem find_fail (c : Cursor) : (fail : Scanner α).find c = none := rfl

instance : Blind (fail : Scanner α) where
  same _ _ := rfl

instance : Consumes (fail : Scanner α) where
  lt found := by cases found

@[simp]
theorem find_position (c : Cursor) : position.find c = some (c.pos, c) := rfl

instance : Blind position where
  same _ _ := rfl

instance : Shrinks position where
  le found := by
    cases found
    exact Nat.le_refl _

/-! ## One after another -/

section Bind

variable (p : Scanner α) (f : α → Scanner β)

theorem bind_apply (c : Cursor) (t : Tracker) :
    (p >>= f) c t =
      match p c t with
      | (some (a, c'), t') => f a c' t'
      | (none, t') => (none, t') := rfl

@[simp]
theorem find_bind [∀ a, Blind (f a)] (c : Cursor) :
    (p >>= f).find c = (p.find c).bind fun r => (f r.1).find r.2 := by
  rw [find, bind_apply, find]
  split
  · rename_i a c' t' found
    rw [found]
    exact Blind.same c' t'
  · rename_i t' found
    rw [found]
    rfl

instance [Blind p] [∀ a, Blind (f a)] : Blind (p >>= f) where
  same c t := by
    rw [find_bind, bind_apply, ← Blind.same (p := p) c t]
    split
    · rename_i a c' t' found
      rw [found]
      exact Blind.same c' t'
    · rename_i t' found
      rw [found]
      rfl

/-- The two halves of a finding. -/
theorem bind_eq_some {p : Scanner α} {f : α → Scanner β} {c c' : Cursor} {t : Tracker} {b : β}
    (found : ((p >>= f) c t).1 = some (b, c')) :
    ∃ a c₁ t₁, (p c t).1 = some (a, c₁) ∧ (f a c₁ t₁).1 = some (b, c') := by
  rw [bind_apply] at found
  split at found
  · rename_i a c₁ t₁ first
    exact ⟨a, c₁, t₁, by rw [first], found⟩
  · cases found

instance [Shrinks p] [∀ a, Shrinks (f a)] : Shrinks (p >>= f) where
  le found := by
    obtain ⟨a, c₁, t₁, first, second⟩ := bind_eq_some found
    exact Nat.le_trans (Shrinks.le second) (Shrinks.le first)

instance [Consumes p] [∀ a, Shrinks (f a)] : Consumes (p >>= f) where
  lt found := by
    obtain ⟨a, c₁, t₁, first, second⟩ := bind_eq_some found
    exact Nat.lt_of_le_of_lt (Shrinks.le second) (Consumes.lt first)

instance (priority := low) [Shrinks p] [∀ a, Consumes (f a)] : Consumes (p >>= f) where
  lt found := by
    obtain ⟨a, c₁, t₁, first, second⟩ := bind_eq_some found
    exact Nat.lt_of_lt_of_le (Consumes.lt second) (Shrinks.le first)

end Bind

/-! ## Choice -/

section Choice

variable (p q : Scanner α)

@[simp]
theorem find_orElse [Blind q] (c : Cursor) :
    (orElse p q).find c = (p.find c).or (q.find c) := by
  unfold find orElse
  split
  · rename_i r t' found
    simp [found]
  · rename_i t' found
    rw [found]
    exact Blind.same c t'

instance [Blind p] [Blind q] : Blind (orElse p q) where
  same c t := by
    rw [find_orElse, ← Blind.same (p := p) c t]
    unfold orElse
    split
    · rename_i r t' found
      simp [found]
    · rename_i t' found
      rw [found]
      exact Blind.same c t'

theorem orElse_eq_some {p q : Scanner α} {c c' : Cursor} {t : Tracker} {a : α}
    (found : (orElse p q c t).1 = some (a, c')) :
    (p c t).1 = some (a, c') ∨ ∃ t', (q c t').1 = some (a, c') := by
  unfold orElse at found
  split at found
  · rename_i r t' first
    exact .inl (by rw [first]; exact found)
  · rename_i t' first
    exact .inr ⟨t', found⟩

instance [Consumes p] [Consumes q] : Consumes (orElse p q) where
  lt found := by
    rcases orElse_eq_some found with first | ⟨_, second⟩
    · exact Consumes.lt first
    · exact Consumes.lt second

@[simp]
theorem find_optional (c : Cursor) :
    (optional p).find c = some (match p.find c with
      | some (a, c') => (some a, c')
      | none => (none, c)) := by
  unfold find optional
  split
  · rename_i a c' t' found
    rw [found]
  · rename_i t' found
    rw [found]

instance [Blind p] : Blind (optional p) where
  same c t := by
    rw [find_optional, ← Blind.same (p := p) c t]
    unfold optional
    split
    · rename_i a c' t' found
      rw [found]
    · rename_i t' found
      rw [found]

instance [Shrinks p] : Shrinks (optional p) where
  le {c t a c'} found := by
    unfold optional at found
    split at found
    · rename_i b c₁ t' inner
      cases found
      exact Shrinks.le (p := p) (t := t) (by rw [inner])
    · cases found
      exact Nat.le_refl _

@[simp]
theorem find_named (form : Form) (c : Cursor) : (named form p).find c = p.find c := by
  unfold find named
  split <;> rename_i found <;> rw [found]

instance [Blind p] (form : Form) : Blind (named form p) where
  same c t := by
    rw [find_named, ← Blind.same (p := p) c t]
    unfold named
    split <;> rename_i found <;> rw [found]

theorem named_eq_some {p : Scanner α} {form : Form} {c : Cursor} {t : Tracker} {r : α × Cursor}
    (found : (named form p c t).1 = some r) : (p c t).1 = some r := by
  unfold named at found
  split at found
  · rename_i inner
    rw [inner]
    exact found
  · cases found

instance [Consumes p] (form : Form) : Consumes (named form p) where
  lt found := Consumes.lt (named_eq_some found)

end Choice

/-! ## Repetition -/

/-- A row of findings, one right after another, up to a place where nothing more is found. -/
inductive Repeats (p : Scanner α) : Cursor → List α → Cursor → Prop where
  | done {c : Cursor} (refused : p.find c = none) : Repeats p c [] c
  | more {c c₁ c' : Cursor} {a : α} {rest : List α} (found : p.find c = some (a, c₁))
      (further : Repeats p c₁ rest c') : Repeats p c (a :: rest) c'

section Many

variable {p : Scanner α}

theorem Repeats.stop {c c' : Cursor} {row : List α} (repeats : Repeats p c row c') :
    p.find c' = none := by
  induction repeats with
  | done refused => exact refused
  | more _ _ ih => exact ih

theorem Repeats.unique {c c₁ c₂ : Cursor} {row₁ row₂ : List α} (first : Repeats p c row₁ c₁)
    (second : Repeats p c row₂ c₂) : row₁ = row₂ ∧ c₁ = c₂ := by
  induction first generalizing row₂ with
  | done refused =>
      cases second with
      | done => exact ⟨rfl, rfl⟩
      | more found => rw [refused] at found; cases found
  | more found _ ih =>
      cases second with
      | done refused => rw [refused] at found; cases found
      | more found' further =>
          cases found.symm.trans found'
          obtain ⟨rfl, rfl⟩ := ih further
          exact ⟨rfl, rfl⟩

/-- As many rounds as there are characters, and one more, are enough for all that is there. -/
theorem repeats_upTo [Blind p] [Consumes p] : ∀ (n : Nat) (c : Cursor) (t : Tracker),
    c.rest.length < n → Repeats p c (upTo p n c t).1.1 (upTo p n c t).1.2
  | n + 1, c, t, enough => by
      have same := Blind.same (p := p) c t
      rw [upTo]
      split
      · rename_i a c' t' found
        rw [found] at same
        have shorter := Consumes.lt (t := .empty) same.symm
        exact .more same.symm (repeats_upTo n c' t' (by omega))
      · rename_i t' found
        rw [found] at same
        exact .done same.symm

theorem many_apply (p : Scanner α) (c : Cursor) (t : Tracker) :
    many p c t = (some (upTo p (c.rest.length + 1) c t).1, (upTo p (c.rest.length + 1) c t).2) :=
  rfl

theorem find_many_eq_some_iff [Blind p] [Consumes p] {c c' : Cursor} {row : List α} :
    (many p).find c = some (row, c') ↔ Repeats p c row c' := by
  have repeats := repeats_upTo (p := p) (c.rest.length + 1) c .empty (Nat.lt_succ_self _)
  rw [find, many_apply]
  constructor
  · intro found
    rw [Option.some.injEq] at found
    rwa [found] at repeats
  · intro other
    obtain ⟨rows, places⟩ := repeats.unique other
    simp only [← rows, ← places]

instance [Blind p] [Consumes p] : Blind (many p) where
  same c t := by
    have repeats := repeats_upTo (p := p) (c.rest.length + 1) c t (Nat.lt_succ_self _)
    rw [find_many_eq_some_iff.mpr repeats]
    rfl

theorem Repeats.le [Shrinks p] {c c' : Cursor} {row : List α} (repeats : Repeats p c row c') :
    c'.rest.length ≤ c.rest.length := by
  induction repeats with
  | done => exact Nat.le_refl _
  | more found _ ih => exact Nat.le_trans ih (Shrinks.le (t := .empty) found)

instance [Blind p] [Consumes p] : Shrinks (many p) where
  le {c t a c'} found := by
    rw [Blind.same] at found
    exact (find_many_eq_some_iff.mp found).le

end Many

end Scanner

end BlockScript
