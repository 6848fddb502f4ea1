import BlockScript.Grammar.Cursor
import Mathlib.Data.List.Basic
import Mathlib.Data.List.TakeWhile

/-!
# Words and marks at a cursor

Every step at a cursor takes a text off the front of what is left, and then the white space
behind it (`Cursor.Takes`).  The steps differ only in which texts they take and in what may
stand right behind the text, before the white space.  Each of them is described here once by
what it takes, and nothing further on looks into a step again.
-/

set_option autoImplicit false

namespace BlockScript

/-- No white space stands at the front of a text. -/
def Bare (text : List Char) : Prop := text.head?.any isGap = false

/-- A digit stands at the front of a text. -/
def startsDigit (text : List Char) : Bool := text.head?.any Char.isDigit

/-- The characters of a name: a letter, then letters, digits and underscores, and not a
reserved word. -/
structure IsName (text : List Char) : Prop where
  letters : ∃ x rest, text = x :: rest ∧ isNameStart x = true ∧ ∀ y ∈ rest, isNameChar y = true
  free : text ∉ Cursor.reservedWords

section TakeWhile

variable {p : Char → Bool} {taken rest : List Char}

/-- A run of characters is taken whole if nothing behind it goes on with it. -/
theorem takeWhile_append_of_stop (all : ∀ x ∈ taken, p x = true)
    (stop : rest.head?.any p = false) : (taken ++ rest).takeWhile p = taken := by
  rw [List.takeWhile_append_of_pos all]
  cases rest <;> simp_all

theorem dropWhile_append_of_stop (all : ∀ x ∈ taken, p x = true)
    (stop : rest.head?.any p = false) : (taken ++ rest).dropWhile p = rest := by
  rw [List.dropWhile_append_of_pos all]
  cases rest <;> simp_all

theorem stop_dropWhile (p : Char → Bool) (text : List Char) :
    (text.dropWhile p).head?.any p = false := by
  induction text with
  | nil => rfl
  | cons x rest ih => by_cases holds : p x = true <;> simp [holds, ih]

end TakeWhile

namespace Cursor

/-- From one place to another by a text and the white space behind it. -/
structure Takes (text gap : List Char) (c c' : Cursor) : Prop where
  rest : c.rest = text ++ (gap ++ c'.rest)
  pos : c'.pos = c.pos + text.length + gap.length
  blank : ∀ x ∈ gap, isGap x = true
  bare : Bare c'.rest

/-- White space is passed over up to the first character that is none. -/
theorem skipGap_eq (c : Cursor) :
    c.skipGap = ⟨c.rest.dropWhile isGap, c.pos + (c.rest.takeWhile isGap).length⟩ := by
  obtain ⟨rest, pos⟩ := c
  change skipGap.go rest pos = _
  induction rest generalizing pos with
  | nil => rfl
  | cons x rest ih =>
      by_cases gap : isGap x = true
      · rw [skipGap.go, if_pos gap, ih]
        simp [gap]
        omega
      · simp [skipGap.go, gap]

theorem skipGap_eq_iff {rest : List Char} {pos : Nat} {c' : Cursor} :
    skipGap ⟨rest, pos⟩ = c' ↔
      ∃ gap, rest = gap ++ c'.rest ∧ c'.pos = pos + gap.length ∧ (∀ x ∈ gap, isGap x = true) ∧
        Bare c'.rest := by
  rw [skipGap_eq]
  constructor
  · rintro rfl
    exact ⟨rest.takeWhile isGap, List.takeWhile_append_dropWhile.symm, rfl,
      fun x member => List.mem_takeWhile_imp member, stop_dropWhile isGap rest⟩
  · rintro ⟨gap, rfl, pos', blank, bare⟩
    obtain ⟨rest', _⟩ := c'
    simp only at pos' bare
    subst pos'
    rw [dropWhile_append_of_stop blank bare, takeWhile_append_of_stop blank bare]

theorem skipGap_behind {text rest : List Char} {c c' : Cursor} (front : c.rest = text ++ rest) :
    skipGap ⟨rest, c.pos + text.length⟩ = c' ↔
      ∃ gap, Takes text gap c c' ∧ rest = gap ++ c'.rest := by
  rw [skipGap_eq_iff]
  constructor
  · rintro ⟨gap, split, pos, blank, bare⟩
    exact ⟨gap, ⟨by rw [front, split], pos, blank, bare⟩, split⟩
  · rintro ⟨gap, takes, split⟩
    exact ⟨gap, split, takes.pos, takes.blank, takes.bare⟩

theorem Takes.behind {text gap rest : List Char} {c c' : Cursor} (takes : Takes text gap c c')
    (front : c.rest = text ++ rest) : rest = gap ++ c'.rest :=
  List.append_cancel_left (front.symm.trans takes.rest)

theorem exists_takes {text rest : List Char} {c : Cursor} (front : c.rest = text ++ rest) :
    ∃ gap c', Takes text gap c c' := by
  obtain ⟨gap, takes, _⟩ := (skipGap_behind front).mp rfl
  exact ⟨gap, _, takes⟩

theorem Takes.head? {text gap : List Char} {c c' : Cursor} (takes : Takes text gap c c')
    (nonempty : text ≠ []) : c.rest.head? = text.head? := by
  obtain ⟨x, rest, rfl⟩ := List.exists_cons_of_ne_nil nonempty
  rw [takes.rest]
  rfl

/-! ## What each step takes -/

theorem mark?_eq_some_iff {text : List Char} {c c' : Cursor} {u : Unit} :
    mark? text c = some (u, c') ↔ ∃ gap, Takes text gap c c' := by
  unfold mark?
  constructor
  · intro found
    split at found
    · rename_i rest front
      simp only [Option.some.injEq, Prod.mk.injEq] at found
      have front := (List.isPrefixOf?_eq_some_iff_append_eq.mp front).symm
      obtain ⟨gap, takes, _⟩ := (skipGap_behind front).mp found.2
      exact ⟨gap, takes⟩
    · cases found
  · rintro ⟨gap, takes⟩
    rw [List.isPrefixOf?_eq_some_iff_append_eq.mpr takes.rest.symm]
    simp only [(skipGap_behind takes.rest).mpr ⟨gap, takes, rfl⟩]

theorem word?_eq_some_iff {text : List Char} {c c' : Cursor} {u : Unit} :
    word? text c = some (u, c') ↔
      ∃ gap, Takes text gap c c' ∧ continuesName (gap ++ c'.rest) = false := by
  unfold word?
  constructor
  · intro found
    split at found
    · rename_i rest front
      have front := (List.isPrefixOf?_eq_some_iff_append_eq.mp front).symm
      split at found
      · cases found
      · rename_i ends
        simp only [Option.some.injEq, Prod.mk.injEq] at found
        obtain ⟨gap, takes, rfl⟩ := (skipGap_behind front).mp found.2
        exact ⟨gap, takes, by simpa using ends⟩
    · cases found
  · rintro ⟨gap, takes, ends⟩
    rw [List.isPrefixOf?_eq_some_iff_append_eq.mpr takes.rest.symm]
    simp only [ends, (skipGap_behind takes.rest).mpr ⟨gap, takes, rfl⟩]
    rfl

theorem continuesName_eq (text : List Char) : continuesName text = text.head?.any isNameChar := by
  cases text <;> rfl

theorem name?_eq_some_iff {c c' : Cursor} {x : String} :
    name? c = some (x, c') ↔
      ∃ gap, Takes x.toList gap c c' ∧ IsName x.toList ∧
        continuesName (gap ++ c'.rest) = false := by
  unfold name?
  constructor
  · intro found
    split at found
    · cases found
    · rename_i y rest front
      split at found
      · rename_i start
        simp only at found
        split at found
        · cases found
        · rename_i free
          simp only [Option.some.injEq, Prod.mk.injEq] at found
          obtain ⟨rfl, landed⟩ := found
          have split : c.rest = (y :: rest.takeWhile isNameChar) ++ rest.dropWhile isNameChar := by
            rw [List.cons_append, List.takeWhile_append_dropWhile, front]
          obtain ⟨gap, takes, behind⟩ := (skipGap_behind split).mp landed
          rw [String.toList_ofList]
          refine ⟨gap, takes, ⟨⟨y, _, rfl, start, fun z => List.mem_takeWhile_imp⟩, ?_⟩, ?_⟩
          · simpa using free
          · rw [← behind, continuesName_eq, stop_dropWhile]
      · cases found
  · rintro ⟨gap, takes, ⟨⟨y, rest, named, start, more⟩, free⟩, ends⟩
    rw [continuesName_eq] at ends
    have front := takes.rest
    rw [named, List.cons_append] at front
    simp only [front, start, if_true, takeWhile_append_of_stop more ends,
      dropWhile_append_of_stop more ends]
    rw [← named, if_neg (by simpa using free), String.ofList_toList]
    simp only [(skipGap_behind takes.rest).mpr ⟨gap, takes, rfl⟩]

theorem digits?_eq_some_iff {c c' : Cursor} {digits : List Char} :
    digits? c = some (digits, c') ↔
      ∃ gap, Takes digits gap c c' ∧ digits ≠ [] ∧ (∀ d ∈ digits, d.isDigit = true) ∧
        startsDigit (gap ++ c'.rest) = false := by
  unfold digits?
  constructor
  · intro found
    simp only at found
    split at found
    · cases found
    · rename_i nonempty
      simp only [Option.some.injEq, Prod.mk.injEq] at found
      obtain ⟨rfl, landed⟩ := found
      have split := (List.takeWhile_append_dropWhile (p := Char.isDigit) (l := c.rest)).symm
      obtain ⟨gap, takes, behind⟩ := (skipGap_behind split).mp landed
      refine ⟨gap, takes, by simpa using nonempty, fun d => List.mem_takeWhile_imp, ?_⟩
      rw [← behind]
      exact stop_dropWhile Char.isDigit c.rest
  · rintro ⟨gap, takes, nonempty, all, ends⟩
    simp only [takes.rest, takeWhile_append_of_stop all ends, dropWhile_append_of_stop all ends]
    rw [if_neg (by simpa using nonempty)]
    simp only [(skipGap_behind takes.rest).mpr ⟨gap, takes, rfl⟩]

theorem fraction?_eq_some_iff {c c' : Cursor} {whole fraction : List Char} :
    fraction? c = some ((whole, fraction), c') ↔
      ∃ gap, Takes (whole ++ '.' :: fraction) gap c c' ∧ fraction ≠ [] ∧
        (∀ d ∈ whole, d.isDigit = true) ∧ (∀ d ∈ fraction, d.isDigit = true) ∧
        startsDigit (gap ++ c'.rest) = false := by
  -- The number of characters read, as the step counts them.
  have count (a b k : Nat) : k + a + 1 + b = k + (a + (b + 1)) := by omega
  unfold fraction?
  constructor
  · intro found
    simp only at found
    split at found
    · rename_i rest behind
      split at found
      · cases found
      · rename_i nonempty
        simp only [Option.some.injEq, Prod.mk.injEq, count] at found
        obtain ⟨⟨rfl, rfl⟩, landed⟩ := found
        have split : c.rest =
            (c.rest.takeWhile Char.isDigit ++ '.' :: rest.takeWhile Char.isDigit) ++
              rest.dropWhile Char.isDigit := by
          rw [List.append_assoc, List.cons_append, List.takeWhile_append_dropWhile, ← behind,
            List.takeWhile_append_dropWhile]
        obtain ⟨gap, takes, behind⟩ := (skipGap_behind split).mp (by simpa using landed)
        refine ⟨gap, takes, by simpa using nonempty, fun d => List.mem_takeWhile_imp,
          fun d => List.mem_takeWhile_imp, ?_⟩
        rw [← behind]
        exact stop_dropWhile Char.isDigit rest
    · cases found
  · rintro ⟨gap, takes, nonempty, all, all', ends⟩
    have point : ('.' :: (fraction ++ (gap ++ c'.rest))).head?.any Char.isDigit = false := rfl
    have front : c.rest = whole ++ '.' :: (fraction ++ (gap ++ c'.rest)) := by simp [takes.rest]
    have landed := (skipGap_behind takes.rest).mpr ⟨gap, takes, rfl⟩
    simp only [List.length_append, List.length_cons] at landed
    simp only [front, takeWhile_append_of_stop all point, dropWhile_append_of_stop all point,
      takeWhile_append_of_stop all' ends, dropWhile_append_of_stop all' ends, count, landed]
    rw [if_neg (by simpa using nonempty)]

end Cursor

end BlockScript
