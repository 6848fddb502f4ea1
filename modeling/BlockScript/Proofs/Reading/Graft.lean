import BlockScript.Proofs.Reading.Acceptance

/-!
# Lexemes in another text

Lexemes that are read up to some place are read there too if the text behind that place is
replaced by another one, as long as the new text does not go on with the last lexeme.  A
text that starts with white space or with a mark other than `=` never does.

Lexemes can also be written down anew (`write`), with a space between two of them unless one
is a mark.  They are read back from that text if no `=` stands before another one
(`Legible.readsAs`).
-/

set_option autoImplicit false

namespace BlockScript

/-! ## Lexemes are ASCII -/

theorem ascii_of_isDigit {x : Char} (digit : x.isDigit = true) : x.val ≤ 127 := by
  have bounds := isDigit_iff.mp digit
  rw [UInt32.le_iff_toNat_le]
  exact Nat.le_trans bounds.2 (by decide)

theorem ascii_of_isNameChar {x : Char} (more : isNameChar x = true) : x.val ≤ 127 := by
  have opened : isNameChar x = (isNameStart x || x.isDigit || decide (x = '_')) := rfl
  rw [opened, Bool.or_eq_true, Bool.or_eq_true, isNameStart_iff, decide_eq_true_eq] at more
  rcases more with (letter | digit) | rfl
  · rw [UInt32.le_iff_toNat_le]
    have bound : x.val.toNat ≤ 127 := by omega
    exact bound
  · exact ascii_of_isDigit digit
  · decide

theorem ascii_of_isGap {x : Char} (gap : isGap x = true) : x.val ≤ 127 := by
  simp only [isGap, Bool.or_eq_true, decide_eq_true_eq] at gap
  rcases gap with ((rfl | rfl) | rfl) | rfl <;> decide

theorem ascii_of_all {text : List Char} (all : text.all (fun x => x.val ≤ 127) = true) :
    ∀ x ∈ text, x.val ≤ 127 := by
  simpa using all

/-! ## What follows a lexeme -/

/-- A text that starts with a character that no lexeme but `=` goes on with. -/
def Stops (text : List Char) : Prop := ∀ x ∈ text.head?, isBreak x = true

/-- A text that no lexeme goes on with. -/
structure Breaks (text : List Char) : Prop where
  stops : Stops text
  other : (text.dropWhile isGap).head? ≠ some '='

namespace Stops

variable {text : List Char}

theorem not_isNameChar (stops : Stops text) : text.head?.any isNameChar = false := by
  cases head : text.head? with
  | none => rfl
  | some x =>
      have breaks := stops x head
      simp only [isBreak, Bool.and_eq_true, Bool.not_eq_true'] at breaks
      exact breaks.1.1

theorem not_startsDigit (stops : Stops text) : startsDigit text = false := by
  have ended := stops.not_isNameChar
  rw [startsDigit]
  cases head : text.head? with
  | none => rfl
  | some x =>
      rw [head] at ended
      simp_all [isNameChar, Char.isAlphanum]

theorem head?_ne (stops : Stops text) : text.head? ≠ some '=' ∧ text.head? ≠ some '.' := by
  constructor <;> intro head <;> exact absurd (stops _ head) (by decide)

end Stops

namespace Lexeme

variable {lexeme : Lexeme} {text rest rest' : List Char}

theorem endsBefore_of_stops (stops : Stops text)
    (other : lexeme = .equals → (text.dropWhile isGap).head? ≠ some '=') :
    lexeme.endsBefore text = true := by
  have ends : Cursor.continuesName text = false := by
    rw [Cursor.continuesName_eq, stops.not_isNameChar]
  have pointless := stops.head?_ne
  cases lexeme with
  | operator op =>
      cases op with
      | compare op => cases op <;> simp [endsBefore, BinaryOp.endsBefore, pointless]
      | _ => simp [endsBefore, BinaryOp.endsBefore, ends]
  | equals => simpa [endsBefore] using other rfl
  | int => simp [endsBefore, stops.not_startsDigit, pointless]
  | _ => simp [endsBefore, ends, stops.not_startsDigit]

theorem endsBefore_of_breaks (breaks : Breaks text) : lexeme.endsBefore text = true :=
  endsBefore_of_stops breaks.stops fun _ => breaks.other

theorem ascii_spelling (proper : lexeme.Proper) : ∀ x ∈ lexeme.spelling, x.val ≤ 127 := by
  cases lexeme with
  | opening bracket | closing bracket => cases bracket <;> exact ascii_of_all (by decide)
  | operator op =>
      cases op with
      | arith op | compare op => cases op <;> exact ascii_of_all (by decide)
      | and | or => exact ascii_of_all (by decide)
  | bool value => cases value <;> exact ascii_of_all (by decide)
  | name x =>
      obtain ⟨y, rest, named, start, more⟩ := proper.letters
      rw [spelling, named]
      intro z member
      rcases List.mem_cons.mp member with rfl | member
      · exact ascii_of_isNameChar (isNameChar_of_isNameStart start)
      · exact ascii_of_isNameChar (more z member)
  | int digits => exact fun x member => ascii_of_isDigit (proper.2 x member)
  | float whole fraction =>
      obtain ⟨-, digits, digits'⟩ := proper
      intro x member
      rcases List.mem_append.mp member with member | member
      · exact ascii_of_isDigit (digits x member)
      · rcases List.mem_cons.mp member with rfl | member
        · decide
        · exact ascii_of_isDigit (digits' x member)
  | _ => exact ascii_of_all (by decide)

/-- A lexeme that ends somewhere ends there also if what follows further on is replaced. -/
theorem endsBefore_graft (ends : lexeme.endsBefore (text ++ rest) = true)
    (breaks : Breaks rest') : lexeme.endsBefore (text ++ rest') = true := by
  cases text with
  | nil => exact endsBefore_of_breaks breaks
  | cons x text =>
      cases lexeme with
      | operator op =>
          cases op with
          | compare op => cases op <;> exact ends
          | _ => exact ends
      | equals =>
          -- The text may be white space up to what is replaced.
          simp only [endsBefore, bne_iff_ne, List.dropWhile_append] at ends ⊢
          split at ends
          · rename_i blank
            rw [if_pos blank]
            exact breaks.other
          · rename_i solid
            rw [if_neg solid]
            intro head
            apply ends
            cases behind : (x :: text).dropWhile isGap with
            | nil => simp [behind] at solid
            | cons y behind' => simpa [behind] using head
      | int =>
          -- Behind a point it matters whether a digit follows.
          cases text with
          | nil =>
              simp only [endsBefore, Bool.and_eq_true, Bool.not_eq_true'] at ends ⊢
              exact ⟨ends.1, by simp [breaks.stops.not_startsDigit]⟩
          | cons y text => exact ends
      | _ => exact ends

end Lexeme

namespace Cursor

/-- Lexemes are read from the front of what is left, which is ASCII text. -/
theorem Spelled.front {lexemes : List Lexeme} {c c' : Cursor} (spelled : Spelled lexemes c c') :
    ∃ text, c.rest = text ++ c'.rest ∧ c'.pos = c.pos + text.length ∧
      ∀ x ∈ text, x.val ≤ 127 := by
  induction lexemes generalizing c with
  | nil =>
      rw [spelled_nil.mp spelled]
      exact ⟨[], rfl, rfl, nofun⟩
  | cons lexeme rest ih =>
      obtain ⟨c₁, ⟨proper, gap, takes, _⟩, further⟩ := spelled
      obtain ⟨text, split, pos, ascii⟩ := ih further
      refine ⟨lexeme.spelling ++ (gap ++ text), by simp [takes.rest, split], ?_, ?_⟩
      · simp only [pos, takes.pos, List.length_append]
        omega
      · intro x member
        rcases List.mem_append.mp member with member | member
        · exact Lexeme.ascii_spelling proper x member
        · rcases List.mem_append.mp member with member | member
          · exact ascii_of_isGap (takes.blank x member)
          · exact ascii x member

theorem Spelled.bare {lexemes : List Lexeme} {c c' : Cursor} (spelled : Spelled lexemes c c')
    (bare : Bare c.rest) : Bare c'.rest := by
  induction lexemes generalizing c with
  | nil => rwa [spelled_nil.mp spelled]
  | cons lexeme rest ih =>
      obtain ⟨c₁, ⟨_, gap, takes, _⟩, further⟩ := spelled
      exact ih further takes.bare

theorem Spelled.ne_nil {lexeme : Lexeme} {rest : List Lexeme} {text : List Char} {c c' : Cursor}
    (spelled : Spelled (lexeme :: rest) c c') (front : c.rest = text ++ c'.rest) : text ≠ [] := by
  rintro rfl
  obtain ⟨c₁, reads, further⟩ := spelled
  have shorter := reads.lt
  have le := further.le
  rw [front, List.nil_append] at shorter
  omega

theorem bare_append {text rest rest' : List Char} (nonempty : text ≠ [])
    (bare : Bare (text ++ rest)) :
    Bare (text ++ rest') := by
  obtain ⟨x, text, rfl⟩ := List.exists_cons_of_ne_nil nonempty
  exact bare

/-- **Lexemes are read also before another text.**  White space at the front of the new text
is taken along by the last lexeme. -/
theorem Spelled.graft {lexemes : List Lexeme} {text blank rest : List Char} {c c' : Cursor}
    (spelled : Spelled lexemes c c') (front : c.rest = text ++ c'.rest)
    (breaks : Breaks (blank ++ rest)) (gap : ∀ x ∈ blank, isGap x = true) (bare : Bare rest)
    (last : lexemes = [] → blank = []) :
    Spelled lexemes ⟨text ++ (blank ++ rest), c.pos⟩ ⟨rest, c'.pos + blank.length⟩ := by
  induction lexemes generalizing c text with
  | nil =>
      cases spelled
      obtain rfl : text = [] := by simpa using front
      simp [last rfl]
  | cons lexeme further ih =>
      obtain ⟨c₁, ⟨proper, between, takes, ends⟩, spelled⟩ := spelled
      obtain ⟨text₁, front₁, -⟩ := spelled.front
      have split : text = lexeme.spelling ++ (between ++ text₁) := by
        have whole := takes.rest
        rw [front, front₁] at whole
        simpa [← List.append_assoc] using whole
      cases further with
      | nil =>
          cases spelled
          obtain rfl : text₁ = [] := by simpa using front₁
          refine ⟨_, ⟨proper, between ++ blank, ⟨?_, ?_, ?_, bare⟩, ?_⟩, rfl⟩
          · simp [split]
          · simp [takes.pos, Nat.add_assoc]
          · intro x member
            rcases List.mem_append.mp member with member | member
            · exact takes.blank x member
            · exact gap x member
          · rw [List.append_assoc]
            exact Lexeme.endsBefore_graft ends breaks
      | cons next further =>
          have nonempty := spelled.ne_nil front₁
          refine ⟨⟨text₁ ++ (blank ++ rest), c₁.pos⟩, ⟨proper, between, ⟨?_, takes.pos, takes.blank,
            bare_append nonempty (front₁ ▸ takes.bare)⟩, ?_⟩, ih spelled front₁ nofun⟩
          · simp [split]
          · rw [front₁, ← List.append_assoc] at ends
            rw [← List.append_assoc]
            exact Lexeme.endsBefore_graft ends breaks

theorem Spelled.shift {lexemes : List Lexeme} {c c' : Cursor} (spelled : Spelled lexemes c c')
    (k : Nat) : Spelled lexemes ⟨c.rest, c.pos + k⟩ ⟨c'.rest, c'.pos + k⟩ := by
  induction lexemes generalizing c with
  | nil =>
      cases spelled
      rfl
  | cons lexeme rest ih =>
      obtain ⟨c₁, ⟨proper, gap, takes, ends⟩, further⟩ := spelled
      refine ⟨⟨c₁.rest, c₁.pos + k⟩, ⟨proper, gap, ⟨takes.rest, ?_, takes.blank, takes.bare⟩, ends⟩,
        ih further⟩
      simp [takes.pos]
      omega

end Cursor

/-! ## Lexemes written down -/

namespace Lexeme

/-- What is written between two lexemes. -/
def between (lexeme next : Lexeme) : List Char :=
  if lexeme.isMark || next.isMark then [] else [' ']

/-- Whether a lexeme starts with `=`. -/
def startsEqual : Lexeme → Bool
  | .equals | .operator (.compare .eq) => true
  | _ => false

theorem isGap_of_mem_between {lexeme next : Lexeme} {x : Char} (member : x ∈ lexeme.between next) :
    isGap x = true := by
  rw [between] at member
  split at member
  · cases member
  · rw [List.mem_singleton.mp member]
    decide

theorem isGap_of_isNameStart {x : Char} (start : isNameStart x = true) : isGap x = false := by
  cases gap : isGap x with
  | false => rfl
  | true =>
      have breaks := isBreak_of_isGap gap
      simp only [isNameStart] at start
      simp [isBreak, isNameChar, Char.isAlphanum, start] at breaks

theorem isGap_of_isDigit {x : Char} (digit : x.isDigit = true) : isGap x = false := by
  cases gap : isGap x with
  | false => rfl
  | true =>
      have breaks := isBreak_of_isGap gap
      simp [isBreak, isNameChar, Char.isAlphanum, digit] at breaks

/-- A lexeme does not start with white space, and starts with `=` only if it has to. -/
theorem head_spelling {lexeme : Lexeme} (proper : lexeme.Proper) :
    ∃ x rest, lexeme.spelling = x :: rest ∧ isGap x = false ∧
      (lexeme.startsEqual = false → x ≠ '=') ∧ (lexeme.isMark = true → isBreak x = true) := by
  cases lexeme with
  | opening bracket | closing bracket =>
      cases bracket <;> exact ⟨_, _, rfl, by decide, by decide, by decide⟩
  | operator op =>
      cases op with
      | arith op | compare op => cases op <;> exact ⟨_, _, rfl, by decide, by decide, by decide⟩
      | and | or => exact ⟨_, _, rfl, by decide, by decide, by decide⟩
  | bool value => cases value <;> exact ⟨_, _, rfl, by decide, by decide, by decide⟩
  | name x =>
      obtain ⟨y, rest, named, start, -⟩ := proper.letters
      refine ⟨y, rest, named, isGap_of_isNameStart start, ?_, nofun⟩
      rintro - rfl
      cases start
  | int digits =>
      obtain ⟨d, rest, rfl⟩ := List.exists_cons_of_ne_nil proper.1
      have digit := proper.2 d (by simp)
      refine ⟨d, rest, rfl, isGap_of_isDigit digit, ?_, nofun⟩
      rintro - rfl
      cases digit
  | float whole fraction =>
      cases whole with
      | nil => exact ⟨'.', fraction, rfl, by decide, fun _ => by decide, nofun⟩
      | cons d whole =>
          have digit := proper.2.1 d (by simp)
          refine ⟨d, _, rfl, isGap_of_isDigit digit, ?_, nofun⟩
          rintro - rfl
          cases digit
  | _ => exact ⟨_, _, rfl, by decide, by decide, by decide⟩

end Lexeme

/-- Lexemes one after another as a text. -/
def write : List Lexeme → List Char
  | [] => []
  | [lexeme] => lexeme.spelling
  | lexeme :: next :: rest => lexeme.spelling ++ (lexeme.between next ++ write (next :: rest))

/-- Lexemes that are read back from the text that they are written as. -/
inductive Legible : List Lexeme → Prop where
  | nil : Legible []
  | cons {lexeme : Lexeme} {rest : List Lexeme} (proper : lexeme.Proper)
      (other : lexeme ≠ .equals) (further : Legible rest) : Legible (lexeme :: rest)
  | equals {next : Lexeme} {rest : List Lexeme} (other : next.startsEqual = false)
      (further : Legible (next :: rest)) : Legible (.equals :: next :: rest)

namespace Legible

variable {lexemes more : List Lexeme}

theorem append (first : Legible lexemes) (second : Legible more) : Legible (lexemes ++ more) := by
  induction first with
  | nil => exact second
  | cons proper other _ ih => exact .cons proper other ih
  | equals other _ ih => exact .equals other ih

theorem proper (legible : Legible lexemes) : ∀ lexeme ∈ lexemes, lexeme.Proper := by
  induction legible with
  | nil => nofun
  | cons proper _ _ ih =>
      rintro _ (_ | ⟨_, member⟩)
      · exact proper
      · exact ih _ member
  | equals _ _ ih =>
      rintro _ (_ | ⟨_, member⟩)
      · trivial
      · exact ih _ member

theorem head_write {next : Lexeme} {rest : List Lexeme} (legible : Legible (next :: rest)) :
    ∃ x text, write (next :: rest) = x :: text ∧ isGap x = false ∧
      (next.startsEqual = false → x ≠ '=') ∧ (next.isMark = true → isBreak x = true) := by
  obtain ⟨x, text, spelled, facts⟩ := Lexeme.head_spelling (legible.proper next (by simp))
  cases rest with
  | nil => exact ⟨x, text, spelled, facts⟩
  | cons further rest => exact ⟨x, _, by rw [write, spelled]; rfl, facts⟩

theorem bare_write (legible : Legible lexemes) : Bare (write lexemes) := by
  cases lexemes with
  | nil => rfl
  | cons next rest =>
      obtain ⟨x, text, spelled, gap, -⟩ := legible.head_write
      simp [Bare, spelled, gap]

open Cursor

/-- A lexeme is read before lexemes that are written behind it. -/
theorem reads_before {lexeme next : Lexeme} {rest : List Lexeme} (proper : lexeme.Proper)
    (further : Legible (next :: rest)) (other : lexeme = .equals → next.startsEqual = false)
    (pos : Nat) :
    ∃ pos', Reads lexeme ⟨write (lexeme :: next :: rest), pos⟩ ⟨write (next :: rest), pos'⟩ := by
  obtain ⟨x, text, spelled, gap, unequal, mark⟩ := further.head_write
  have bare := further.bare_write
  refine ⟨pos + lexeme.spelling.length + (lexeme.between next).length, proper,
    lexeme.between next, ⟨rfl, rfl, fun _ => Lexeme.isGap_of_mem_between, bare⟩, ?_⟩
  by_cases marked : lexeme.isMark = true
  · cases lexeme with
    | opening | closing | bar | comma | semicolon => rfl
    | _ => cases marked
  · refine Lexeme.endsBefore_of_stops ?_ ?_
    · intro y head
      rw [Lexeme.between] at head
      split at head
      · rename_i either
        have marks : next.isMark = true := by simpa [marked] using either
        rw [List.nil_append, spelled] at head
        cases head
        exact mark marks
      · cases head
        decide
    · intro same
      rw [dropWhile_append_of_stop (fun _ => Lexeme.isGap_of_mem_between) bare, spelled]
      simpa using unequal (other same)

/-- **Legible lexemes are read back.** -/
theorem spelled (legible : Legible lexemes) (pos : Nat) :
    ∃ pos', Spelled lexemes ⟨write lexemes, pos⟩ ⟨[], pos'⟩ := by
  induction legible generalizing pos with
  | nil => exact ⟨pos, rfl⟩
  | @cons lexeme rest proper other further ih =>
      cases rest with
      | nil =>
          have takes : Takes lexeme.spelling [] ⟨write [lexeme], pos⟩
              ⟨[], pos + lexeme.spelling.length⟩ := ⟨by simp [write], by simp, nofun, rfl⟩
          refine ⟨_, _, ⟨proper, [], takes, ?_⟩, rfl⟩
          exact Lexeme.endsBefore_of_stops nofun fun same => absurd same other
      | cons next rest =>
          obtain ⟨pos₁, reads⟩ := reads_before proper further (absurd · other) pos
          obtain ⟨pos', rest⟩ := ih pos₁
          exact ⟨pos', _, reads, rest⟩
  | @equals next rest other further ih =>
      have proper : Lexeme.Proper .equals := trivial
      obtain ⟨pos₁, reads⟩ := reads_before proper further (fun _ => other) pos
      obtain ⟨pos', rest⟩ := ih pos₁
      exact ⟨pos', _, reads, rest⟩

theorem readsAs (legible : Legible lexemes) : ReadsAs (write lexemes) lexemes := by
  have bare := legible.bare_write
  have start : (Cursor.start (write lexemes)).skipGap = ⟨write lexemes, 0⟩ :=
    skipGap_eq_iff.mpr ⟨[], rfl, rfl, nofun, bare⟩
  obtain ⟨pos, spelled⟩ := legible.spelled 0
  exact ⟨pos, by rwa [start]⟩

end Legible

open Cursor in
/-- Lexemes that were read from the front of a text are read with others behind them if
those are written in place of the rest. -/
theorem Legible.readsAs_behind {text front : List Char} {before lexemes : List Lexeme} {c : Cursor}
    (legible : Legible lexemes) (other : ∀ first ∈ lexemes.head?, first.startsEqual = false)
    (spelled : Spelled before (start text).skipGap c) (split : text = front ++ c.rest) :
    ReadsAs (front ++ ' ' :: write lexemes) (before ++ lexemes) := by
  generalize landed : (start text).skipGap = c₀ at spelled
  obtain ⟨gap, split₀, pos, blank, bare⟩ := skipGap_eq_iff.mp landed
  obtain ⟨front₁, split₁, -⟩ := spelled.front
  obtain rfl : front = gap ++ front₁ := by
    rw [split₀, split₁, ← List.append_assoc] at split
    exact (List.append_cancel_right split).symm
  obtain ⟨pos', further⟩ := legible.spelled (c.pos + 1)
  refine ⟨pos', spelled_append.mpr ⟨_, ?_, further⟩⟩
  have bare' := legible.bare_write
  cases before with
  | nil =>
      -- The space goes with the white space at the front.
      cases spelled
      obtain rfl : front₁ = [] := by simpa using split₁
      have blank' : ∀ x ∈ gap ++ [' '], isGap x = true := by
        intro x member
        rcases List.mem_append.mp member with member | member
        · exact blank x member
        · rw [List.mem_singleton.mp member]
          decide
      rw [spelled_nil, eq_comm]
      exact skipGap_eq_iff.mpr ⟨gap ++ [' '], by simp, by simp [pos], blank', bare'⟩
  | cons first rest =>
      have breaks : Breaks ([' '] ++ write lexemes) := by
        constructor
        · intro x head
          cases head
          decide
        · have skips : ([' '] ++ write lexemes).dropWhile isGap = write lexemes :=
            dropWhile_append_of_stop (List.all_eq_true.mp rfl) bare'
          rw [skips]
          cases lexemes with
          | nil => exact nofun
          | cons next rest =>
              obtain ⟨x, text, spelled, -, unequal, -⟩ := legible.head_write
              simpa [spelled] using unequal (other next rfl)
      have start : (start (gap ++ front₁ ++ ' ' :: write lexemes)).skipGap =
          ⟨front₁ ++ ([' '] ++ write lexemes), c₀.pos⟩ := by
        refine skipGap_eq_iff.mpr ⟨gap, by simp, pos, blank, ?_⟩
        exact bare_append (spelled.ne_nil split₁) (split₁ ▸ bare)
      rw [start]
      exact spelled.graft split₁ breaks (List.all_eq_true.mp rfl) bare' nofun

end BlockScript
