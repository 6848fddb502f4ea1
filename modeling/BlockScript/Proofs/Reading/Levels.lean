import BlockScript.Proofs.Reading.Acceptance

/-!
# The depth of a program

The scan for the depth of a text knows nothing of the grammar: it has its own idea of words
and of which `=` is an assignment.  On a text that is read as lexemes of the grammar it agrees
with them, lexeme by lexeme (`Nesting.effects_of_readsAs`): it goes deeper at an opening
bracket, at a `not` and at the `=` of an assignment, and at nothing else.  So whether a text
is too deep (`Nesting.check_eq_ok_iff`) is a question about its lexemes.

The lexemes of a phrase balance (`Balanced.all_phrase`): what is between brackets leaves the
depth as it was (`Balanced.run_enclosed`), and all that a statement leaves behind are levels that
the next `;` or closing bracket takes away (`Balanced.flat`).
-/

set_option autoImplicit false

namespace BlockScript

namespace Nesting

/-! ## The scan as a row of effects -/

/-- The depth after a row of effects. -/
def run (effects : List Effect) (s : Nesting) : Nesting :=
  effects.foldl (fun s effect => apply effect s) s

/-- No effect of a row goes deeper than a limit. -/
def Within (limit : Nat) : List Effect → Nesting → Prop
  | [], _ => True
  | effect :: rest, s => (apply effect s).depth ≤ limit ∧ Within limit rest (apply effect s)

@[simp]
theorem run_nil (s : Nesting) : run [] s = s := rfl

@[simp]
theorem run_cons (effect : Effect) (rest : List Effect) (s : Nesting) :
    run (effect :: rest) s = run rest (apply effect s) := rfl

@[simp]
theorem run_append (effects more : List Effect) (s : Nesting) :
    run (effects ++ more) s = run more (run effects s) :=
  List.foldl_append

@[simp]
theorem within_append {limit : Nat} {effects more : List Effect} {s : Nesting} :
    Within limit (effects ++ more) s ↔
      Within limit effects s ∧ Within limit more (run effects s) := by
  induction effects generalizing s with
  | nil => simp [Within]
  | cons effect rest ih => simp [Within, ih, and_assoc]

theorem Within.depth_run_le {limit : Nat} {effects : List Effect} {s : Nesting}
    (low : s.depth ≤ limit) (within : Within limit effects s) : (run effects s).depth ≤ limit := by
  induction effects generalizing s with
  | nil => exact low
  | cons effect rest ih => exact ih within.1 within.2

/-- The effects of a text, without those that do nothing. -/
def effects (before : Option Char) : List Char → List Effect
  | [] => []
  | x :: rest =>
      let (effect, tail) := item before x rest
      let more := effects (x :: tail).getLast? (rest.drop tail.length)
      if effect = .plain then more else effect :: more
termination_by text => text.length

theorem effects_nil (before : Option Char) : effects before [] = [] := by
  rw [effects]

theorem depth_apply_le (effect : Effect) (s : Nesting) : (apply effect s).depth ≤ s.depth + 1 := by
  cases effect <;> simp [apply] <;> omega

/-- **The scan refuses a text exactly if an effect of it goes too deep**, and then at the first
level that is too deep. -/
theorem scan_eq {limit : Nat} : ∀ {fuel : Nat} {s : Nesting} {before : Option Char}
    {text : List Char} (pos : Nat), text.length ≤ fuel → s.depth ≤ limit →
    (Within limit (effects before text) s → scan limit fuel s before text pos = .ok ()) ∧
    (¬Within limit (effects before text) s →
      ∃ span, scan limit fuel s before text pos = .error ⟨.nesting (limit + 1) limit, span⟩)
  | 0, s, before, [], pos, _, _ =>
      ⟨fun _ => rfl, fun deep => absurd (by simp [effects, Within]) deep⟩
  | fuel + 1, s, before, [], pos, _, _ =>
      ⟨fun _ => rfl, fun deep => absurd (by simp [effects, Within]) deep⟩
  | fuel + 1, s, before, x :: rest, pos, enough, low => by
      rw [scan, effects]
      obtain ⟨effect, tail⟩ := item before x rest
      have shorter : (rest.drop tail.length).length ≤ fuel := by
        simp at enough ⊢
        omega
      simp only
      by_cases deep : limit < (apply effect s).depth
      · have one := depth_apply_le effect s
        have first : (apply effect s).depth = limit + 1 := by omega
        have goes : effect ≠ .plain := by
          rintro rfl
          exact absurd low (Nat.not_le.mpr deep)
        rw [if_pos deep, if_neg goes, first]
        exact ⟨fun within => absurd within.1 (Nat.not_le.mpr deep), fun _ => ⟨_, rfl⟩⟩
      · rw [if_neg deep]
        split
        · rename_i plain
          subst plain
          exact scan_eq _ shorter low
        · simpa only [Within, Nat.le_of_not_lt deep, true_and] using
            scan_eq _ shorter (Nat.le_of_not_lt deep)

theorem check_eq {limit : Nat} {text : List Char} :
    (Within limit (effects none text) outside → check limit text = .ok ()) ∧
    (¬Within limit (effects none text) outside →
      ∃ span, check limit text = .error ⟨.nesting (limit + 1) limit, span⟩) :=
  scan_eq 0 (Nat.le_refl _) (Nat.zero_le _)

theorem check_eq_ok_iff {limit : Nat} {text : List Char} :
    check limit text = .ok () ↔ Within limit (effects none text) outside := by
  constructor
  · intro checked
    by_contra deep
    obtain ⟨span, refused⟩ := check_eq.2 deep
    rw [refused] at checked
    cases checked
  · exact check_eq.1

/-! ## The effects of lexemes -/

end Nesting

open Nesting

/-- Whether a lexeme is a name, before which no comparison goes on. -/
def Lexeme.isName : Lexeme → Bool
  | .name _ => true
  | _ => false

/-- What a lexeme does to the depth. -/
def Lexeme.effects : Lexeme → List Effect
  | .opening _ => [.opens]
  | .closing _ => [.closes]
  | .semicolon => [.ends]
  | .equals | .negation => [.awaits]
  | _ => []

namespace Nesting

/-- A character that is an item of its own without effect. -/
def isInert (x : Char) : Bool :=
  !(x = '(' || x = '{' || x = ')' || x = '}' || x = ';' || x = '=' || isNameStart x)

theorem item_of_inert (before : Option Char) {x : Char} (rest : List Char)
    (inert : isInert x = true) : item before x rest = (.plain, []) := by
  simp only [isInert, Bool.not_eq_true', Bool.or_eq_false_iff, decide_eq_false_iff_not] at inert
  obtain ⟨⟨⟨⟨⟨⟨h₁, h₂⟩, h₃⟩, h₄⟩, h₅⟩, h₆⟩, h₇⟩ := inert
  simp [item, h₁, h₂, h₃, h₄, h₅, h₆, h₇]

theorem effects_inert {before : Option Char} {x : Char} {rest : List Char}
    (inert : isInert x = true) : effects before (x :: rest) = effects (some x) rest := by
  rw [effects, item_of_inert before rest inert]
  simp

/-- Characters without effect are passed over; the last of them, if any, stands before what
follows. -/
theorem effects_inert_append {before : Option Char} {text rest : List Char}
    (inert : ∀ x ∈ text, isInert x = true) :
    effects before (text ++ rest) = effects (text.getLast?.or before) rest := by
  induction text generalizing before with
  | nil => rfl
  | cons x text ih =>
      rw [List.cons_append, effects_inert (inert x (by simp)),
        ih fun y member => inert y (List.mem_cons_of_mem x member)]
      cases last : text.getLast? <;> simp [List.getLast?_cons, last]

theorem isInert_of_isGap {x : Char} (gap : isGap x = true) : isInert x = true := by
  simp only [isGap, Bool.or_eq_true, decide_eq_true_eq] at gap
  rcases gap with ((rfl | rfl) | rfl) | rfl <;> decide

theorem isInert_of_isDigit {x : Char} (digit : x.isDigit = true) : isInert x = true := by
  have marks : ∀ y ∈ ['(', '{', ')', '}', ';', '='], x ≠ y := by
    rintro y member rfl
    revert digit
    simp only [List.mem_cons, List.not_mem_nil, or_false] at member
    rcases member with rfl | rfl | rfl | rfl | rfl | rfl <;> decide
  simp_all [isInert, Lexeme.not_isNameStart_of_isDigit digit]

/-- A word is one item. -/
theorem effects_word {before : Option Char} {x : Char} {text behind : List Char}
    (start : isNameStart x = true) (more : ∀ y ∈ text, isNameChar y = true)
    (ends : Cursor.continuesName behind = false) :
    effects before (x :: text ++ behind) =
      (if x :: text = ['n', 'o', 't'] then [.awaits] else []) ++
        effects (x :: text).getLast? behind := by
  have marks : ∀ y ∈ ['(', '{', ')', '}', ';', '='], x ≠ y := by
    rintro y member rfl
    revert start
    simp only [List.mem_cons, List.not_mem_nil, or_false] at member
    rcases member with rfl | rfl | rfl | rfl | rfl | rfl <;> decide
  rw [Cursor.continuesName_eq] at ends
  have whole : item before x (text ++ behind) =
      (if x :: text = ['n', 'o', 't'] then .awaits else .plain, text) := by
    simp_all [item, takeWhile_append_of_stop more ends]
  rw [List.cons_append, effects, whole]
  by_cases negates : x :: text = ['n', 'o', 't'] <;> simp [negates]

theorem effects_mark {before : Option Char} {x : Char} {effect : Effect} {rest : List Char}
    (single : item before x rest = (effect, [])) (goes : effect ≠ .plain) :
    effects before (x :: rest) = effect :: effects (some x) rest := by
  rw [effects, single]
  simp [goes]

/-- A `=` that is part of a comparison has no effect. -/
theorem effects_joined {before : Option Char} {rest : List Char}
    (joined : rest.head? = some '=' ∨ joinsEquals before = true) :
    effects before ('=' :: rest) = effects (some '=') rest := by
  have plain : item before '=' rest = (.plain, []) := by simp [item, joined]
  rw [effects, plain]
  simp

theorem joinsEquals_of_isNameChar {x : Char} (more : isNameChar x = true) :
    joinsEquals (some x) = false := by
  rw [Bool.eq_false_iff]
  intro joins
  simp only [joinsEquals, Option.some.injEq, Bool.or_eq_true, decide_eq_true_eq] at joins
  revert more
  rcases joins with ((rfl | rfl) | rfl) | rfl <;> decide

theorem joinsEquals_of_isGap {x : Char} (gap : isGap x = true) : joinsEquals (some x) = false := by
  simp only [isGap, Bool.or_eq_true, decide_eq_true_eq] at gap
  rcases gap with ((rfl | rfl) | rfl) | rfl <;> decide

/-- The effects of the text of a lexeme are those of the lexeme. -/
theorem effects_spelling {lexeme : Lexeme} {before : Option Char} {behind : List Char}
    (proper : lexeme.Proper) (ends : lexeme.endsBefore behind = true)
    (ready : lexeme = .equals → joinsEquals before = false) :
    ∃ last, effects before (lexeme.spelling ++ behind) = lexeme.effects ++ effects last behind ∧
      (lexeme.isName = true → joinsEquals last = false) := by
  have other {p : Prop} (named : false = true) : p := absurd named Bool.false_ne_true
  cases lexeme with
  | opening bracket | closing bracket =>
      cases bracket <;> exact ⟨_, effects_mark rfl (by decide), other⟩
  | semicolon => exact ⟨_, effects_mark rfl (by decide), other⟩
  | bar | comma => exact ⟨_, effects_inert (by decide), other⟩
  | equals =>
      have single : behind.head? ≠ some '=' := by
        intro joined
        obtain ⟨text, rfl⟩ := List.head?_eq_some_iff.mp joined
        cases ends
      have awaits : item before '=' behind = (.awaits, []) := by simp [item, single, ready rfl]
      exact ⟨_, effects_mark awaits (by decide), other⟩
  | operator op =>
      cases op with
      | arith op => cases op <;> exact ⟨_, effects_inert (by decide), other⟩
      | and | or =>
          exact ⟨_, effects_word rfl (List.all_eq_true.mp rfl)
            (by simpa [Lexeme.endsBefore, BinaryOp.endsBefore] using ends), other⟩
      | compare op =>
          cases op with
          | lt | gt => exact ⟨_, effects_inert (by decide), other⟩
          | eq =>
              refine ⟨some '=', ?_, other⟩
              exact (effects_joined (.inl rfl)).trans (effects_joined (.inr (by decide)))
          | ne | le | ge =>
              refine ⟨some '=', ?_, other⟩
              exact (effects_inert (by decide)).trans (effects_joined (.inr (by decide)))
  | negation | ifWord | elseWord | forWord =>
      exact ⟨_, effects_word rfl (List.all_eq_true.mp rfl)
        (by simpa [Lexeme.endsBefore] using ends), other⟩
  | bool value =>
      cases value <;> exact
        ⟨_, effects_word rfl (List.all_eq_true.mp rfl)
          (by simpa [Lexeme.endsBefore] using ends), other⟩
  | name x =>
      obtain ⟨y, rest, named, start, more⟩ := proper.letters
      have stops : Cursor.continuesName behind = false := by simpa [Lexeme.endsBefore] using ends
      have word : effects before (y :: rest ++ behind) = _ := effects_word start more stops
      have free : y :: rest ≠ ['n', 'o', 't'] := by
        rw [← named]
        intro negates
        exact proper.free (by rw [negates]; decide)
      have letters : ∀ z ∈ y :: rest, isNameChar z = true := by
        simpa using ⟨isNameChar_of_isNameStart start, more⟩
      rw [if_neg free, List.getLast?_eq_some_getLast (List.cons_ne_nil y rest)] at word
      refine ⟨_, by rw [Lexeme.spelling, named]; exact word, fun _ => ?_⟩
      exact joinsEquals_of_isNameChar (letters _ (List.getLast_mem _))
  | int digits =>
      exact ⟨_, effects_inert_append fun x member => isInert_of_isDigit (proper.2 x member), other⟩
  | float whole fraction =>
      obtain ⟨-, digits, digits'⟩ := proper
      refine ⟨_, effects_inert_append fun x member => ?_, other⟩
      rcases List.mem_append.mp member with member | member
      · exact isInert_of_isDigit (digits x member)
      · rcases List.mem_cons.mp member with rfl | member
        · decide
        · exact isInert_of_isDigit (digits' x member)

/-- The effects of what is left, from a lexeme to the next one. -/
theorem effects_of_reads {lexeme : Lexeme} {c c' : Cursor} (reads : Cursor.Reads lexeme c c')
    (before : Option Char) (ready : lexeme = .equals → joinsEquals before = false) :
    ∃ last, effects before c.rest = lexeme.effects ++ effects last c'.rest ∧
      (lexeme.isName = true → joinsEquals last = false) := by
  obtain ⟨proper, gap, takes, ends⟩ := reads
  obtain ⟨last, spelled, named⟩ := effects_spelling proper ends ready
  have blank : effects last (gap ++ c'.rest) = _ :=
    effects_inert_append fun x member => isInert_of_isGap (takes.blank x member)
  refine ⟨_, by rw [takes.rest, spelled, blank], fun name => ?_⟩
  cases behind : gap.getLast? with
  | none => exact named name
  | some x => exact joinsEquals_of_isGap (takes.blank x (List.mem_of_getLast? behind))

end Nesting

/-! ## Rows of lexemes -/

/-- Every `=` of an assignment stands behind a name. -/
inductive Placed : List Lexeme → Prop where
  | nil : Placed []
  | cons {lexeme : Lexeme} {rest : List Lexeme} (other : lexeme ≠ .equals) (further : Placed rest) :
      Placed (lexeme :: rest)
  | assign {x : String} {rest : List Lexeme} (further : Placed rest) :
      Placed (.name x :: .equals :: rest)

theorem Placed.append {lexemes more : List Lexeme} (first : Placed lexemes)
    (second : Placed more) : Placed (lexemes ++ more) := by
  induction first with
  | nil => exact second
  | cons other _ ih => exact .cons other ih
  | assign _ ih => exact .assign ih

theorem Placed.of_append {lexemes more : List Lexeme} (placed : Placed (lexemes ++ more)) :
    Placed lexemes := by
  generalize whole : lexemes ++ more = all at placed
  induction placed generalizing lexemes with
  | nil =>
      rw [(List.append_eq_nil_iff.mp whole).1]
      exact .nil
  | cons other _ ih =>
      cases lexemes with
      | nil => exact .nil
      | cons y rest =>
          simp only [List.cons_append, List.cons.injEq] at whole
          rw [whole.1]
          exact .cons other (ih whole.2)
  | assign _ ih =>
      match lexemes with
      | [] => exact .nil
      | [y] =>
          simp only [List.cons_append, List.cons.injEq] at whole
          rw [whole.1]
          exact .cons nofun .nil
      | y :: z :: rest =>
          simp only [List.cons_append, List.cons.injEq] at whole
          rw [whole.1, whole.2.1]
          exact .assign (ih whole.2.2)

namespace Nesting

/-- The effects of a row of lexemes. -/
def effectsOf (lexemes : List Lexeme) : List Effect := lexemes.flatMap Lexeme.effects

@[simp]
theorem effectsOf_nil : effectsOf [] = [] := rfl

@[simp]
theorem effectsOf_cons (lexeme : Lexeme) (rest : List Lexeme) :
    effectsOf (lexeme :: rest) = lexeme.effects ++ effectsOf rest := rfl

@[simp]
theorem effectsOf_append (lexemes more : List Lexeme) :
    effectsOf (lexemes ++ more) = effectsOf lexemes ++ effectsOf more :=
  List.flatMap_append

/-- The effects of what is left, from the first lexeme of a row to what follows the row. -/
theorem effects_of_spelled {lexemes : List Lexeme} (placed : Placed lexemes) {c c' : Cursor}
    (spelled : Cursor.Spelled lexemes c c') (before : Option Char) :
    ∃ last, effects before c.rest = effectsOf lexemes ++ effects last c'.rest := by
  induction placed generalizing c before with
  | nil => exact ⟨before, by rw [Cursor.spelled_nil.mp spelled]; rfl⟩
  | cons other _ ih =>
      obtain ⟨c₁, reads, further⟩ := spelled
      obtain ⟨last, first, -⟩ := effects_of_reads reads before fun same => absurd same other
      obtain ⟨last', second⟩ := ih further last
      exact ⟨last', by simp [first, second]⟩
  | assign _ ih =>
      obtain ⟨c₁, name, c₂, equals, further⟩ := spelled
      obtain ⟨last, first, named⟩ := effects_of_reads name before nofun
      obtain ⟨last', second, -⟩ := effects_of_reads equals last fun _ => named rfl
      obtain ⟨last'', third⟩ := ih further last'
      exact ⟨last'', by simp [first, second, third]⟩

theorem effects_skipGap (text : List Char) :
    ∃ before, effects none text = effects before (Cursor.start text).skipGap.rest := by
  generalize landed : (Cursor.start text).skipGap = c
  obtain ⟨gap, split, -, blank, -⟩ := Cursor.skipGap_eq_iff.mp landed
  rw [split]
  exact ⟨_, effects_inert_append fun x member => isInert_of_isGap (blank x member)⟩

/-- **The scan agrees with the lexemes of a text.** -/
theorem effects_of_readsAs {text : List Char} {lexemes : List Lexeme} (placed : Placed lexemes)
    (reads : ReadsAs text lexemes) : effects none text = effectsOf lexemes := by
  obtain ⟨pos, spelled⟩ := reads
  obtain ⟨before, skipped⟩ := effects_skipGap text
  obtain ⟨last, walked⟩ := effects_of_spelled placed spelled before
  rw [skipped, walked, effects_nil, List.append_nil]

end Nesting

/-! ## Balanced rows -/

/-- Brackets match, and every assignment has a name. -/
inductive Balanced : List Lexeme → Prop where
  | nil : Balanced []
  | single {lexeme : Lexeme} (free : (lexeme matches .opening _ | .closing _ | .equals) = false) :
      Balanced [lexeme]
  | assign {x : String} : Balanced [.name x, .equals]
  | enclosed {bracket : Bracket} {inside : List Lexeme} (balanced : Balanced inside) :
      Balanced (.opening bracket :: (inside ++ [.closing bracket]))
  | append {lexemes more : List Lexeme} (first : Balanced lexemes) (second : Balanced more) :
      Balanced (lexemes ++ more)

namespace Balanced

/-- A language all of whose rows balance. -/
def All (L : Language Lexeme) : Prop := ∀ lexemes ∈ L, Balanced lexemes

theorem all_singleton {lexemes : List Lexeme} (balanced : Balanced lexemes) :
    All {lexemes} := by
  rintro _ rfl
  exact balanced

theorem all_zero : All 0 := fun _ member => absurd member (Language.notMem_zero _)

theorem all_one : All 1 := all_singleton .nil

theorem All.add {L M : Language Lexeme} (first : All L) (second : All M) : All (L + M) := by
  rintro lexemes (member | member)
  · exact first lexemes member
  · exact second lexemes member

theorem All.mul {L M : Language Lexeme} (first : All L) (second : All M) : All (L * M) := by
  rintro _ ⟨a, inL, b, inM, rfl⟩
  exact (first a inL).append (second b inM)

theorem All.enclosed {bracket : Bracket} {L : Language Lexeme} (inside : All L) :
    All (Enclosed bracket L) := by
  rintro _ ⟨_, ⟨_, rfl, a, member, rfl⟩, _, rfl, rfl⟩
  exact (inside a member).enclosed

theorem All.ended {L : Language Lexeme} (row : All L) : All (Ended L) :=
  row.mul (all_one.add (all_singleton (.single rfl)))

theorem balanced_negations (nots : Nat) : Balanced (.replicate nots .negation) := by
  induction nots with
  | zero => exact .nil
  | succ nots ih => exact (single rfl : Balanced [.negation]).append ih

theorem balanced_parameters (names : List String) : Balanced (parameterLexemes names) := by
  cases names with
  | nil => exact .nil
  | cons x rest =>
      have more : Balanced (rest.flatMap fun y => [.comma, .name y]) := by
        induction rest with
        | nil => exact .nil
        | cons y rest ih =>
            have one : Balanced [.comma, .name y] :=
              (single rfl : Balanced [.comma]).append (single rfl : Balanced [.name y])
            exact one.append ih
      have first : Balanced [.bar, .name x] :=
        (single rfl : Balanced [.bar]).append (single rfl : Balanced [.name x])
      exact (first.append more).append (single rfl : Balanced [.bar])

theorem all_empty (arguments : List Phrase) :
    All (if arguments.isEmpty then 1 else 0 : Language Lexeme) := by
  split
  · exact all_one
  · exact all_zero

mutual
/-- However a statement is written, it balances. -/
theorem all_phrase : ∀ phrase : Phrase, All phrase.language
  | .branch test yes =>
      ((all_singleton (.single rfl)).mul (all_row test).ended.enclosed).mul
        (all_row yes).ended.enclosed
  | .branchElse test yes no =>
      ((((all_singleton (.single rfl)).mul (all_row test).ended.enclosed).mul
        (all_row yes).ended.enclosed).mul (all_singleton (.single rfl))).mul
          (all_row no).ended.enclosed
  | .loop header _ body =>
      ((all_singleton (.single rfl)).mul (all_row header).ended.enclosed).mul
        (all_row body).ended.enclosed
  | .expression series => all_series series

theorem all_row : ∀ row : List Phrase, All (rowLanguage row)
  | [] => all_zero
  | phrase :: rest => (all_phrase phrase).mul (all_rest rest)

theorem all_rest : ∀ row : List Phrase, All (restLanguage row)
  | [] => all_one
  | phrase :: rest => ((all_singleton (.single rfl)).mul (all_phrase phrase)).mul (all_rest rest)

theorem all_series : ∀ series : Series Operand, All (seriesLanguage series)
  | .last nots operand => (all_singleton (balanced_negations nots)).mul (all_operand operand)
  | .link nots operand op rest => by
      rw [seriesLanguage]
      split
      · exact all_zero
      · exact (((all_singleton (balanced_negations nots)).mul (all_operand operand)).mul
          (all_singleton (.single rfl))).mul (all_series rest)

theorem all_operand : ∀ operand : Operand, All operand.language
  | .block parameters body =>
      ((all_singleton (balanced_parameters parameters)).mul (all_row body).ended).enclosed
  | .call _ arguments =>
      (all_singleton (.single rfl)).mul
        ((all_empty arguments).add (all_row arguments).ended).enclosed
  | .assign _ value => (all_singleton .assign).mul (all_series value)
  | .bool _ | .float _ _ | .int _ _ | .var _ => all_singleton (.single rfl)
  | .group series => (all_series series).enclosed
end

theorem placed {lexemes : List Lexeme} (balanced : Balanced lexemes) : Placed lexemes := by
  induction balanced with
  | nil => exact .nil
  | single free =>
      refine .cons ?_ .nil
      rintro rfl
      cases free
  | assign => exact .assign .nil
  | enclosed _ ih => exact .cons nofun (ih.append (.cons nofun .nil))
  | append _ _ first second => exact first.append second

open Nesting

/-- What balances leaves behind nothing but levels that the next `;` takes away. -/
theorem flat {lexemes : List Lexeme} (balanced : Balanced lexemes) (base k : Nat)
    (enclosing : List Nat) : ∃ k',
    run (effectsOf lexemes) ⟨base + k, k, enclosing⟩ = ⟨base + k', k', enclosing⟩ := by
  induction balanced generalizing base k enclosing with
  | nil => exact ⟨k, rfl⟩
  | @single lexeme free =>
      cases lexeme with
      | opening | closing | equals => cases free
      | semicolon => exact ⟨0, by simp [Lexeme.effects, apply]⟩
      | negation => exact ⟨k + 1, rfl⟩
      | _ => exact ⟨k, rfl⟩
  | assign => exact ⟨k + 1, rfl⟩
  | enclosed _ ih =>
      obtain ⟨k', inside⟩ := ih (base + k + 1) 0 (k :: enclosing)
      exact ⟨k, by simp [Lexeme.effects, apply, inside]; omega⟩
  | append _ _ first second =>
      obtain ⟨k₁, first⟩ := first base k enclosing
      obtain ⟨k₂, second⟩ := second base k₁ enclosing
      exact ⟨k₂, by rw [effectsOf_append, run_append, first, second]⟩

/-- What stands between brackets leaves the depth as it was. -/
theorem run_enclosed {lexemes : List Lexeme} (balanced : Balanced lexemes) (bracket : Bracket)
    (s : Nesting) :
    run (effectsOf (.opening bracket :: (lexemes ++ [.closing bracket]))) s = s := by
  obtain ⟨k, inside⟩ := balanced.flat (s.depth + 1) 0 (s.pending :: s.enclosing)
  simp only [effectsOf_cons, effectsOf_append, effectsOf_nil, Lexeme.effects, List.append_nil,
    List.cons_append, List.nil_append, run_cons, run_append, run_nil, apply]
  rw [Nat.add_zero] at inside
  rw [inside]
  obtain ⟨depth, pending, enclosing⟩ := s
  simp
  omega

end Balanced

/-! ## Programs -/

open Nesting

/-- **What it takes to be a program**: to be written with lexemes of the grammar that do not
nest too deep, and to have a tree. -/
theorem parseWithin_eq_ok_iff {limit : Nat} {source : String} {tree : Node Unit} :
    parseWithin limit source = .ok tree ↔
      ∃ phrases lexemes trees, lexemes ∈ Ended (rowLanguage phrases) ∧
        ReadsAs source.toList lexemes ∧ nodes phrases = .ok trees ∧
        Within limit (effectsOf lexemes) outside ∧ tree = .list trees := by
  have opened : parseWithin limit source = .ok tree ↔
      check limit source.toList = .ok () ∧ ∃ phrases trees,
        readPhrases source.toList = .ok phrases ∧ nodes phrases = .ok trees ∧
        tree = .list trees := by
    simp only [parseWithin, readText]
    cases check limit source.toList with
    | error e => simp [bind, Except.bind]
    | ok u =>
        cases readPhrases source.toList with
        | error t => simp [bind, Except.bind]
        | ok phrases =>
            cases made : nodes phrases <;>
              simp [bind, Except.bind, pure, Except.pure, made, eq_comm]
  rw [opened, check_eq_ok_iff]
  constructor
  · rintro ⟨within, phrases, trees, read, made, rfl⟩
    obtain ⟨lexemes, member, reads⟩ := exists_readsAs read
    have placed := ((Balanced.all_row phrases).ended lexemes member).placed
    rw [effects_of_readsAs placed reads] at within
    exact ⟨phrases, lexemes, trees, member, reads, made, within, rfl⟩
  · rintro ⟨phrases, lexemes, trees, member, reads, made, within, rfl⟩
    have placed := ((Balanced.all_row phrases).ended lexemes member).placed
    obtain ⟨phrases', read, same⟩ := exists_readPhrases member reads
    rw [effects_of_readsAs placed reads]
    exact ⟨within, phrases', trees, read, nodes_eq_ok_of_plain same made, rfl⟩

end BlockScript
