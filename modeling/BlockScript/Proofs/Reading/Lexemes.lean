import BlockScript.Proofs.Reading.Operators

/-!
# Lexemes

The steps of the grammar read one lexeme after another.  A lexeme is read at a cursor if it
is spelled there and ends where its spelling ends (`Cursor.Reads`): a word does not go on, a
`<` is not the start of `<=`, and an integer is not the start of a number with a point.
Every step of the grammar reads exactly one kind of lexeme, so from here on a text can be
taken as a row of lexemes with white space between them (`Cursor.Spelled`).

Of all lexemes at most one is read at a cursor (`Cursor.Reads.unique`).  This is what makes
it possible to say that an alternative of the grammar is refused because something else
stands there.
-/

set_option autoImplicit false

namespace BlockScript

/-- A character that no lexeme goes on with, but for the comparisons that start with `=`. -/
def isBreak (x : Char) : Bool := !isNameChar x && x != '=' && x != '.'

theorem isBreak_of_isGap {x : Char} (gap : isGap x = true) : isBreak x = true := by
  simp only [isGap, Bool.or_eq_true, decide_eq_true_eq] at gap
  rcases gap with ((rfl | rfl) | rfl) | rfl <;> decide

theorem isNameStart_iff {x : Char} : isNameStart x = true ↔
    65 ≤ x.val.toNat ∧ x.val.toNat ≤ 90 ∨ 97 ≤ x.val.toNat ∧ x.val.toNat ≤ 122 := by
  have opened : isNameStart x = (decide ('A'.val ≤ x.val ∧ x.val ≤ 'Z'.val) ||
      (decide ('a'.val ≤ x.val) && decide (x.val ≤ 'z'.val))) := rfl
  rw [opened, Bool.or_eq_true, Bool.and_eq_true, decide_eq_true_eq, decide_eq_true_eq,
    decide_eq_true_eq]
  exact Iff.rfl

theorem isDigit_iff {x : Char} :
    x.isDigit = true ↔ 48 ≤ x.val.toNat ∧ x.val.toNat ≤ 57 := by
  have opened : x.isDigit = (decide ('0'.val ≤ x.val) && decide (x.val ≤ '9'.val)) := rfl
  rw [opened, Bool.and_eq_true, decide_eq_true_eq, decide_eq_true_eq]
  exact Iff.rfl

theorem isNameChar_of_isNameStart {x : Char} (start : isNameStart x = true) :
    isNameChar x = true := by
  simp_all [isNameStart, isNameChar, Char.isAlphanum]

/-- A kind of bracket. -/
inductive Bracket where
  | round
  | curly
  deriving DecidableEq

namespace Bracket

/-- The opening bracket. -/
def opening : Bracket → Char
  | .round => '('
  | .curly => '{'

/-- The closing bracket. -/
def closing : Bracket → Char
  | .round => ')'
  | .curly => '}'

end Bracket

/-- A lexeme of the language. -/
inductive Lexeme where
  | opening (bracket : Bracket)
  | closing (bracket : Bracket)
  | bar
  | comma
  | semicolon
  /-- The `=` of an assignment. -/
  | equals
  | operator (op : BinaryOp)
  | negation
  | ifWord
  | elseWord
  | forWord
  | bool (value : Bool)
  | name (x : String)
  | int (digits : List Char)
  | float (whole fraction : List Char)

namespace Lexeme

/-- The lexeme as it is written. -/
def spelling : Lexeme → List Char
  | .opening bracket => [bracket.opening]
  | .closing bracket => [bracket.closing]
  | .bar => ['|']
  | .comma => [',']
  | .semicolon => [';']
  | .equals => ['=']
  | .operator op => op.spelling
  | .negation => ['n', 'o', 't']
  | .ifWord => ['i', 'f']
  | .elseWord => ['e', 'l', 's', 'e']
  | .forWord => ['f', 'o', 'r']
  | .bool true => ['t', 'r', 'u', 'e']
  | .bool false => ['f', 'a', 'l', 's', 'e']
  | .name x => x.toList
  | .int digits => digits
  | .float whole fraction => whole ++ '.' :: fraction

/-- The text that a lexeme carries is of the right kind. -/
def Proper : Lexeme → Prop
  | .name x => IsName x.toList
  | .int digits => digits ≠ [] ∧ ∀ d ∈ digits, d.isDigit = true
  | .float whole fraction =>
      fraction ≠ [] ∧ (∀ d ∈ whole, d.isDigit = true) ∧ ∀ d ∈ fraction, d.isDigit = true
  | _ => True

/-- Whether a lexeme ends before a text, and is not the start of another one. -/
def endsBefore : Lexeme → List Char → Bool
  | .operator op, text => op.endsBefore text
  -- White space between two `=` does not help.
  | .equals, text => (text.dropWhile isGap).head? != some '='
  | .negation, text | .ifWord, text | .elseWord, text | .forWord, text | .bool _, text
  | .name _, text => !Cursor.continuesName text
  | .int _, text => !startsDigit text && !(text.head? == some '.' && startsDigit text.tail)
  | .float _ _, text => !startsDigit text
  | .opening _, _ | .closing _, _ | .bar, _ | .comma, _ | .semicolon, _ => true

/-- Whether a lexeme is a mark, which ends before anything. -/
def isMark : Lexeme → Bool
  | .opening _ | .closing _ | .bar | .comma | .semicolon => true
  | _ => false

theorem spelling_ne_nil {lexeme : Lexeme} (proper : lexeme.Proper) : lexeme.spelling ≠ [] := by
  cases lexeme with
  | operator op => exact Scanner.spelling_ne_nil op
  | bool value => cases value <;> simp [spelling]
  | name x =>
      obtain ⟨y, rest, named, -⟩ := proper.letters
      simp [spelling, named]
  | int digits => exact proper.1
  | _ => simp [spelling]

end Lexeme

namespace Cursor

/-- A lexeme is read at a cursor, with the white space behind it. -/
def Reads (lexeme : Lexeme) (c c' : Cursor) : Prop :=
  lexeme.Proper ∧
    ∃ gap, Takes lexeme.spelling gap c c' ∧ lexeme.endsBefore (gap ++ c'.rest) = true

/-- Lexemes are read one after another. -/
def Spelled : List Lexeme → Cursor → Cursor → Prop
  | [], c, c' => c' = c
  | lexeme :: rest, c, c' => ∃ c₁, Reads lexeme c c₁ ∧ Spelled rest c₁ c'

/-! ## Every step reads a lexeme -/

theorem mark?_iff_reads (lexeme : Lexeme) (mark : lexeme.isMark = true) {c c' : Cursor} {u : Unit} :
    mark? lexeme.spelling c = some (u, c') ↔ Reads lexeme c c' := by
  rw [mark?_eq_some_iff, Reads]
  cases lexeme with
  | opening | closing | bar | comma | semicolon => simp [Lexeme.Proper, Lexeme.endsBefore]
  | _ => cases mark

section Marks

variable {c c' : Cursor} {u : Unit}

theorem openRound_iff_reads : mark? ['('] c = some (u, c') ↔ Reads (.opening .round) c c' :=
  mark?_iff_reads (.opening .round) rfl

theorem closeRound_iff_reads : mark? [')'] c = some (u, c') ↔ Reads (.closing .round) c c' :=
  mark?_iff_reads (.closing .round) rfl

theorem openCurly_iff_reads : mark? ['{'] c = some (u, c') ↔ Reads (.opening .curly) c c' :=
  mark?_iff_reads (.opening .curly) rfl

theorem closeCurly_iff_reads : mark? ['}'] c = some (u, c') ↔ Reads (.closing .curly) c c' :=
  mark?_iff_reads (.closing .curly) rfl

theorem bar_iff_reads : mark? ['|'] c = some (u, c') ↔ Reads .bar c c' :=
  mark?_iff_reads .bar rfl

theorem comma_iff_reads : mark? [','] c = some (u, c') ↔ Reads .comma c c' :=
  mark?_iff_reads .comma rfl

theorem semicolon_iff_reads : mark? [';'] c = some (u, c') ↔ Reads .semicolon c c' :=
  mark?_iff_reads .semicolon rfl

end Marks

theorem negation_iff_reads {c c' : Cursor} {u : Unit} :
    word? ['n', 'o', 't'] c = some (u, c') ↔ Reads .negation c c' := by
  simp [word?_eq_some_iff, Reads, Lexeme.Proper, Lexeme.endsBefore, Lexeme.spelling]

theorem bool_iff_reads {value : Bool} {c c' : Cursor} {u : Unit} :
    word? (Lexeme.bool value).spelling c = some (u, c') ↔ Reads (.bool value) c c' := by
  simp [word?_eq_some_iff, Reads, Lexeme.Proper, Lexeme.endsBefore]

theorem name_iff_reads {x : String} {c c' : Cursor} :
    name? c = some (x, c') ↔ Reads (.name x) c c' := by
  simp only [name?_eq_some_iff, Reads, Lexeme.Proper, Lexeme.endsBefore, Lexeme.spelling,
    Bool.not_eq_true']
  grind

theorem float_iff_reads {whole fraction : List Char} {c c' : Cursor} :
    fraction? c = some ((whole, fraction), c') ↔ Reads (.float whole fraction) c c' := by
  simp only [fraction?_eq_some_iff, Reads, Lexeme.Proper, Lexeme.endsBefore, Lexeme.spelling,
    Bool.not_eq_true']
  grind

/-- An integer is a row of digits where no number with a point stands. -/
theorem int_iff_reads {digits : List Char} {c c' : Cursor} :
    fraction? c = none ∧ digits? c = some (digits, c') ↔ Reads (.int digits) c c' := by
  rw [digits?_eq_some_iff]
  constructor
  · rintro ⟨whole, gap, takes, nonempty, all, ends⟩
    refine ⟨⟨nonempty, all⟩, gap, takes, ?_⟩
    have pointless : ((gap ++ c'.rest).head? == .some '.' &&
        startsDigit (gap ++ c'.rest).tail) = false := by
      rw [Bool.eq_false_iff, ne_eq, Bool.and_eq_true, beq_iff_eq]
      rintro ⟨point, digit⟩
      obtain ⟨text, split⟩ := List.head?_eq_some_iff.mp point
      rw [split] at digit
      have taken := takeWhile_append_of_stop (p := Char.isDigit) all ends
      have dropped := dropWhile_append_of_stop (p := Char.isDigit) all ends
      rw [← takes.rest] at taken dropped
      unfold fraction? at whole
      rw [dropped, split] at whole
      cases text with
      | nil => cases digit
      | cons y text => simp_all [startsDigit]
    rw [Lexeme.endsBefore, ends, pointless]
    rfl
  · rintro ⟨⟨nonempty, all⟩, gap, takes, ends⟩
    simp only [Lexeme.endsBefore, Bool.and_eq_true, Bool.not_eq_true'] at ends
    refine ⟨?_, gap, takes, nonempty, all, ends.1⟩
    have dropped : c.rest.dropWhile Char.isDigit = gap ++ c'.rest := by
      rw [takes.rest]
      exact dropWhile_append_of_stop all ends.1
    unfold fraction?
    rw [dropped]
    split
    · rename_i rest front
      rw [front] at ends
      cases rest with
      | nil => rfl
      | cons y rest => simp_all [startsDigit]
    · rfl

theorem operator_iff_reads {op : BinaryOp} {c c' : Cursor} :
    Scanner.anyOperator.find c = some (op, c') ↔ Reads (.operator op) c c' := by
  simp [Scanner.find_anyOperator, Reads, Lexeme.Proper, Lexeme.endsBefore, Lexeme.spelling]

theorem dropWhile_gap {text gap : List Char} {c c' : Cursor} (takes : Takes text gap c c') :
    (gap ++ c'.rest).dropWhile isGap = c'.rest :=
  dropWhile_append_of_stop takes.blank takes.bare

theorem equals_iff_reads {c c' : Cursor} {u : Unit} :
    Scanner.becomes.find c = some (u, c') ↔ Reads .equals c c' := by
  rw [Scanner.find_becomes]
  constructor
  · intro found
    split at found
    · rename_i c₁ marked
      split at found
      · cases found
      · rename_i other
        cases found
        obtain ⟨gap, takes⟩ := mark?_eq_some_iff.mp marked
        refine ⟨trivial, gap, takes, ?_⟩
        simpa [Lexeme.endsBefore, dropWhile_gap takes] using other
    · cases found
  · rintro ⟨-, gap, takes, ends⟩
    have marked : mark? ['='] c = some (u, c') := mark?_eq_some_iff.mpr ⟨gap, takes⟩
    simp only [Lexeme.endsBefore, dropWhile_gap takes] at ends
    simpa [marked] using ends

/-- A word before a bracket does not go on, so it need not be looked at whether it does. -/
theorem word_before_bracket {lexeme : Lexeme} {bracket : Bracket} {c c₁ c₂ : Cursor}
    (word : lexeme = .ifWord ∨ lexeme = .elseWord ∨ lexeme = .forWord)
    (first : mark? lexeme.spelling c = some ((), c₁)) (second : Reads (.opening bracket) c₁ c₂) :
    Reads lexeme c c₁ := by
  obtain ⟨gap, takes⟩ := mark?_eq_some_iff.mp first
  obtain ⟨-, gap', takes', -⟩ := second
  have ends : continuesName (gap ++ c₁.rest) = false := by
    cases gap with
    | nil =>
        rw [List.nil_append, takes'.rest]
        cases bracket <;> rfl
    | cons x gap =>
        have breaks := isBreak_of_isGap (takes.blank x (by simp))
        simp only [isBreak, Bool.and_eq_true, Bool.not_eq_true'] at breaks
        exact breaks.1.1
  rcases word with rfl | rfl | rfl <;>
    exact ⟨trivial, gap, takes, by simp [Lexeme.endsBefore, ends]⟩

theorem mark?_of_reads {lexeme : Lexeme} {c c' : Cursor} (reads : Reads lexeme c c') :
    mark? lexeme.spelling c = some ((), c') := by
  obtain ⟨-, gap, takes, -⟩ := reads
  exact mark?_eq_some_iff.mpr ⟨gap, takes⟩

end Cursor

/-! ## Only one lexeme is read -/

namespace Lexeme

/-- The lexeme that a word is. -/
def ofWord (text : List Char) : Lexeme :=
  if text = ['n', 'o', 't'] then .negation
  else if text = ['i', 'f'] then .ifWord
  else if text = ['e', 'l', 's', 'e'] then .elseWord
  else if text = ['f', 'o', 'r'] then .forWord
  else if text = ['a', 'n', 'd'] then .operator .and
  else if text = ['o', 'r'] then .operator .or
  else if text = ['t', 'r', 'u', 'e'] then .bool true
  else if text = ['f', 'a', 'l', 's', 'e'] then .bool false
  else .name (String.ofList text)

/-- The number at the front of a text. -/
def ofNumber (text : List Char) : Lexeme :=
  match text.dropWhile Char.isDigit with
  | '.' :: rest =>
      if (rest.takeWhile Char.isDigit).isEmpty then .int (text.takeWhile Char.isDigit)
      else .float (text.takeWhile Char.isDigit) (rest.takeWhile Char.isDigit)
  | _ => .int (text.takeWhile Char.isDigit)

/-- The lexeme of a character that is part of no word and no number, given the character
behind it. -/
def ofSymbol (x : Char) (next : Option Char) : Option Lexeme :=
  let orEqual (short long : Lexeme) : Option Lexeme :=
    some (if next = some '=' then long else short)
  match x with
  | '(' => some (.opening .round)
  | ')' => some (.closing .round)
  | '{' => some (.opening .curly)
  | '}' => some (.closing .curly)
  | '|' => some .bar
  | ',' => some .comma
  | ';' => some .semicolon
  | '+' => some (.operator (.arith .add))
  | '-' => some (.operator (.arith .sub))
  | '*' => some (.operator (.arith .mul))
  | '/' => some (.operator (.arith .div))
  | '!' => some (.operator (.compare .ne))
  | '=' => orEqual .equals (.operator (.compare .eq))
  | '<' => orEqual (.operator (.compare .lt)) (.operator (.compare .le))
  | '>' => orEqual (.operator (.compare .gt)) (.operator (.compare .ge))
  | _ => none

/-- The lexeme at the front of a text. -/
def first : List Char → Option Lexeme
  | [] => none
  | x :: rest =>
      if isNameStart x then some (ofWord (x :: rest.takeWhile isNameChar))
      else if x.isDigit || x == '.' then some (ofNumber (x :: rest))
      else ofSymbol x rest.head?

theorem first_word {x : Char} {text behind : List Char} (start : isNameStart x = true)
    (more : ∀ y ∈ text, isNameChar y = true) (ends : Cursor.continuesName behind = false) :
    first (x :: text ++ behind) = some (ofWord (x :: text)) := by
  rw [Cursor.continuesName_eq] at ends
  simp [first, start, takeWhile_append_of_stop more ends]

theorem not_isNameStart_of_isDigit {x : Char} (digit : x.isDigit = true) :
    isNameStart x = false := by
  rw [isDigit_iff] at digit
  rw [Bool.eq_false_iff, ne_eq, isNameStart_iff]
  omega

theorem first_number {text : List Char}
    (start : text.head?.any (fun x => x.isDigit || x == '.') = true) :
    first text = some (ofNumber text) := by
  cases text with
  | nil => cases start
  | cons x rest =>
      simp only [List.head?_cons, Option.any_some, Bool.or_eq_true, beq_iff_eq] at start
      rcases start with digit | rfl
      · simp [first, not_isNameStart_of_isDigit digit, digit]
      · rfl

theorem first_int {digits behind : List Char} (nonempty : digits ≠ [])
    (all : ∀ d ∈ digits, d.isDigit = true) (ends : (int digits).endsBefore behind = true) :
    first (digits ++ behind) = .some (.int digits) := by
  simp only [endsBefore, Bool.and_eq_true, Bool.not_eq_true'] at ends
  have starts : (digits ++ behind).head?.any (fun x => x.isDigit || x == '.') = true := by
    obtain ⟨d, rest, rfl⟩ := List.exists_cons_of_ne_nil nonempty
    simp [all d]
  rw [first_number starts, ofNumber, dropWhile_append_of_stop all ends.1,
    takeWhile_append_of_stop all ends.1]
  split
  · rename_i rest
    have ended : startsDigit rest = false := by simpa using ends.2
    rw [if_pos]
    cases rest <;> simp_all [startsDigit]
  · rfl

theorem first_float {whole fraction behind : List Char} (nonempty : fraction ≠ [])
    (all : ∀ d ∈ whole, d.isDigit = true) (all' : ∀ d ∈ fraction, d.isDigit = true)
    (ends : startsDigit behind = false) :
    first ((whole ++ '.' :: fraction) ++ behind) = .some (.float whole fraction) := by
  have point : ('.' :: (fraction ++ behind)).head?.any Char.isDigit = false := rfl
  rw [List.append_assoc, List.cons_append]
  have starts : (whole ++ '.' :: (fraction ++ behind)).head?.any
      (fun x => x.isDigit || x == '.') = true := by
    cases whole with
    | nil => rfl
    | cons d rest => simp [all d]
  simp only [first_number starts, ofNumber, dropWhile_append_of_stop all point,
    takeWhile_append_of_stop all point, takeWhile_append_of_stop all' ends]
  rw [if_neg (by simpa using nonempty)]

theorem ofWord_of_isName {x : String} (named : IsName x.toList) : ofWord x.toList = .name x := by
  have free := named.free
  simp only [Cursor.reservedWords, List.mem_cons, List.not_mem_nil, or_false, not_or] at free
  simp [ofWord, free]

/-- What is read at a cursor is the lexeme at the front of the text that is left. -/
theorem first_of_reads {lexeme : Lexeme} {c c' : Cursor} (reads : Cursor.Reads lexeme c c') :
    first c.rest = some lexeme := by
  obtain ⟨proper, gap, takes, ends⟩ := reads
  rw [takes.rest]
  generalize gap ++ c'.rest = behind at ends
  cases lexeme with
  | opening bracket | closing bracket => cases bracket <;> rfl
  | bar | comma | semicolon => rfl
  | equals =>
      have other : behind.head? ≠ some '=' := by
        intro joined
        obtain ⟨text, rfl⟩ := List.head?_eq_some_iff.mp joined
        cases ends
      exact congrArg some (if_neg other)
  | operator op =>
      cases op with
      | arith op => cases op <;> rfl
      | and | or =>
          exact first_word rfl (List.all_eq_true.mp rfl)
            (by simpa [endsBefore, BinaryOp.endsBefore] using ends)
      | compare op =>
          cases op with
          | eq | ne | le | ge => rfl
          | lt | gt => exact congrArg some (if_neg (bne_iff_ne.mp ends))
  | negation | ifWord | elseWord | forWord =>
      exact first_word rfl (List.all_eq_true.mp rfl) (by simpa [endsBefore] using ends)
  | bool value =>
      cases value <;>
        exact first_word rfl (List.all_eq_true.mp rfl) (by simpa [endsBefore] using ends)
  | name x =>
      obtain ⟨y, rest, named, start, more⟩ := proper.letters
      have stops : Cursor.continuesName behind = false := by simpa [endsBefore] using ends
      have found := first_word start more stops
      rwa [← named, ofWord_of_isName proper] at found
  | int digits => exact first_int proper.1 proper.2 ends
  | float whole fraction =>
      simp only [endsBefore, Bool.not_eq_true'] at ends
      exact first_float proper.1 proper.2.1 proper.2.2 ends

end Lexeme

namespace Cursor

theorem Reads.unique {lexeme lexeme' : Lexeme} {c c₁ c₂ : Cursor} (first : Reads lexeme c c₁)
    (second : Reads lexeme' c c₂) : lexeme' = lexeme ∧ c₂ = c₁ := by
  have same := (Lexeme.first_of_reads second).symm.trans (Lexeme.first_of_reads first)
  cases same
  have found := (mark?_of_reads second).symm.trans (mark?_of_reads first)
  cases found
  exact ⟨rfl, rfl⟩

theorem Reads.lt {lexeme : Lexeme} {c c' : Cursor} (reads : Reads lexeme c c') :
    c'.rest.length < c.rest.length := by
  obtain ⟨proper, gap, takes, -⟩ := reads
  have positive := List.length_pos_iff.mpr (Lexeme.spelling_ne_nil proper)
  simp only [takes.rest, List.length_append]
  omega

/-! ## Rows of lexemes -/

@[simp]
theorem spelled_nil {c c' : Cursor} : Spelled [] c c' ↔ c' = c := Iff.rfl

theorem spelled_cons {lexeme : Lexeme} {rest : List Lexeme} {c c' : Cursor} :
    Spelled (lexeme :: rest) c c' ↔ ∃ c₁, Reads lexeme c c₁ ∧ Spelled rest c₁ c' := Iff.rfl

@[simp]
theorem spelled_singleton {lexeme : Lexeme} {c c' : Cursor} :
    Spelled [lexeme] c c' ↔ Reads lexeme c c' := by
  simp [spelled_cons]

theorem Reads.spelled {lexeme : Lexeme} {c c' : Cursor} (reads : Reads lexeme c c') :
    Spelled [lexeme] c c' :=
  spelled_singleton.mpr reads

theorem spelled_append {lexemes more : List Lexeme} {c c' : Cursor} :
    Spelled (lexemes ++ more) c c' ↔ ∃ c₁, Spelled lexemes c c₁ ∧ Spelled more c₁ c' := by
  induction lexemes generalizing c with
  | nil => simp
  | cons lexeme rest ih =>
      simp only [List.cons_append, spelled_cons, ih]
      grind

/-- Lexemes are read behind others. -/
theorem Spelled.append {lexemes more : List Lexeme} {c c₁ c' : Cursor}
    (first : Spelled lexemes c c₁) (second : Spelled more c₁ c') :
    Spelled (lexemes ++ more) c c' :=
  spelled_append.mpr ⟨c₁, first, second⟩

theorem Spelled.le {lexemes : List Lexeme} {c c' : Cursor} (spelled : Spelled lexemes c c') :
    c'.rest.length ≤ c.rest.length := by
  induction lexemes generalizing c with
  | nil => rw [spelled_nil.mp spelled]
  | cons lexeme rest ih =>
      obtain ⟨c₁, reads, further⟩ := spelled
      exact Nat.le_trans (ih further) (Nat.le_of_lt reads.lt)

end Cursor

end BlockScript
