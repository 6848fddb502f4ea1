import BlockScript.Console.Dialogue
import BlockScript.Proofs.Tokens.Cut
import BlockScript.Proofs.Reading.Graft
import BlockScript.Proofs.Reading.Levels

/-!
# Tokens and lexemes

The cut of a text into tokens and the grammar were made without knowledge of each other.  The cut
always takes the longest token, while the grammar has no tokens: it looks for words, numbers and
marks where it expects them, and passes over white space by itself.  They agree on programs.  A
lexeme that is written somewhere is the first token there exactly if it is the longest one
(`Lexeme.first_spelling_iff`), so a text that is read as lexemes is cut into them
(`ReadsAs.lexed`).  Conversely a text that is cut into lexemes is read as them, if it has no form
feed, which is white space to the cut only, and if no `=` stands before another one
(`readsAs_of_lexed`).

Hence white space between tokens does not matter (`parseWithin_of_same_tokens`), and counting
brackets is enough to see whether a program has been typed to its end (`brackets_of_program`).
-/

set_option autoImplicit false

namespace BlockScript

/-! ## Lexemes as tokens -/

theorem takeWhile_eq_nil_iff {p : Char → Bool} {text : List Char} :
    text.takeWhile p = [] ↔ text.head?.any p = false := by
  cases text with
  | nil => simp
  | cons x rest => cases holds : p x <;> simp [holds]

namespace Lexeme

/-- The kind of token that a lexeme is. -/
def kind : Lexeme → TokenKind
  | .opening .round => .openParen
  | .opening .curly => .openBrace
  | .closing .round => .closeParen
  | .closing .curly => .closeBrace
  | .bar => .bar
  | .comma | .semicolon => .separator
  | .operator .and | .operator .or | .negation => .wordOperator
  | .equals | .operator _ => .operator
  | .ifWord | .elseWord | .forWord => .keyword
  | .bool _ => .boolean
  | .name x => if x.toList = ['t', 'h', 'i', 's'] then .self else .name
  | .int _ => .integer
  | .float _ _ => .float

/-- A lexeme as a token: its kind and its text. -/
def token (lexeme : Lexeme) : Option TokenKind × List Char := (some lexeme.kind, lexeme.spelling)

/-- Whether a lexeme before a text is the longest token there.  Only for `=` is this less than
to end there. -/
def longestBefore : Lexeme → List Char → Bool
  | .equals, text => text.head? != some '='
  | lexeme, text => lexeme.endsBefore text

theorem longestBefore_of_endsBefore {lexeme : Lexeme} {text : List Char}
    (ends : lexeme.endsBefore text = true) : lexeme.longestBefore text = true := by
  cases lexeme with
  | equals =>
      simp only [longestBefore, bne_iff_ne]
      intro joined
      obtain ⟨rest, rfl⟩ := List.head?_eq_some_iff.mp joined
      cases ends
  | _ => exact ends

theorem endsBefore_of_longestBefore {lexeme : Lexeme} {text : List Char}
    (longest : lexeme.longestBefore text = true)
    (other : lexeme = .equals → (text.dropWhile isGap).head? ≠ some '=') :
    lexeme.endsBefore text = true := by
  cases lexeme with
  | equals => exact bne_iff_ne.mpr (other rfl)
  | _ => exact longest

end Lexeme

namespace Piece

variable {x : Char} {tail behind : List Char} {kind : TokenKind}

theorem not_isSpace_of_first {rest : List Char} (taken : first x rest = (.token kind, tail)) :
    isSpace x = false := by
  rw [Bool.eq_false_iff]
  intro space
  rw [first_space space] at taken
  cases taken

/-- A word is a piece exactly where no name goes on. -/
theorem first_word_iff (start : isNameStart x = true) (more : ∀ y ∈ tail, isNameChar y = true)
    (same : wordKind (x :: tail) = kind) :
    first x (tail ++ behind) = (.token kind, tail) ↔ (!Cursor.continuesName behind) = true := by
  rw [first_word start, List.takeWhile_append_of_pos more, Bool.not_eq_true',
    Cursor.continuesName_eq, ← takeWhile_eq_nil_iff]
  constructor
  · intro taken
    simpa using (Prod.mk.inj taken).2
  · intro empty
    rw [empty, List.append_nil, same]

/-- A comparison of one character is a piece exactly before anything but `=`. -/
theorem first_comparison_iff (comparison : x = '=' ∨ x = '<' ∨ x = '>') :
    first x behind = (.token .operator, []) ↔ (behind.head? != some '=') = true := by
  have symbol : isSymbol x = true := by rcases comparison with rfl | rfl | rfl <;> decide
  have kind : symbolKind x = .token .operator := by
    rcases comparison with rfl | rfl | rfl <;> decide
  have member : x ∈ ['=', '!', '<', '>'] := by rcases comparison with rfl | rfl | rfl <;> decide
  rw [first_symbol symbol, kind, bne_iff_ne]
  by_cases joined : behind.head? = some '=' <;> simp [member, joined]

/-- A row of digits is a piece exactly where no digit goes on and no point with a digit
behind it. -/
theorem first_integer_iff (all : ∀ d ∈ x :: tail, d.isDigit = true) :
    first x (tail ++ behind) = (.token .integer, tail) ↔
      (Lexeme.int (x :: tail)).endsBefore behind = true := by
  have more : ∀ d ∈ tail, d.isDigit = true := fun d member => all d (by simp [member])
  rw [first_digit (all x (by simp)), List.takeWhile_append_of_pos more]
  simp only [Lexeme.endsBefore, Bool.and_eq_true, Bool.not_eq_true']
  by_cases stop : startsDigit behind = false
  · have empty := takeWhile_eq_nil_iff.mpr stop
    rw [fraction, dropWhile_append_of_stop more stop, empty, List.append_nil]
    simp only [stop, true_and]
    split
    · rename_i after
      have point : startsDigit after = false ↔ (after.takeWhile Char.isDigit).isEmpty = true := by
        rw [List.isEmpty_iff, takeWhile_eq_nil_iff, startsDigit]
      simp only [List.head?_cons, List.tail_cons, beq_self_eq_true, Bool.true_and, point]
      split <;> simp_all
    · rename_i other
      have pointless : (behind.head? == some '.') = false := by
        rw [beq_eq_false_iff_ne]
        intro point
        obtain ⟨after, rfl⟩ := List.head?_eq_some_iff.mp point
        exact other after rfl
      simp [pointless]
  · have nonempty : behind.takeWhile Char.isDigit ≠ [] := fun empty =>
      stop (takeWhile_eq_nil_iff.mp empty)
    simp only [stop]
    split <;> simp [nonempty]

/-- A number with a point is a piece exactly where no digit goes on. -/
theorem first_float_iff {whole digits : List Char} (nonempty : digits ≠ [])
    (all : ∀ d ∈ whole, d.isDigit = true) (all' : ∀ d ∈ digits, d.isDigit = true)
    (spelled : whole ++ '.' :: digits = x :: tail) :
    first x (tail ++ behind) = (.token .float, tail) ↔ (!startsDigit behind) = true := by
  rw [Bool.not_eq_true', startsDigit, ← takeWhile_eq_nil_iff]
  have behindPoint : (digits ++ behind).takeWhile Char.isDigit =
      digits ++ behind.takeWhile Char.isDigit := List.takeWhile_append_of_pos all'
  cases whole with
  | nil =>
      cases spelled
      rw [first_point, behindPoint, if_neg (by simp [nonempty])]
      simp
  | cons d whole =>
      obtain ⟨rfl, rfl⟩ := List.cons.inj ((List.cons_append ..).symm.trans spelled)
      have more : ∀ d ∈ whole, d.isDigit = true := fun d member => all d (by simp [member])
      have point : ('.' :: (digits ++ behind)).head?.any Char.isDigit = false := rfl
      have fraction : fraction (whole ++ '.' :: digits ++ behind) =
          digits ++ behind.takeWhile Char.isDigit := by
        rw [Piece.fraction, List.append_assoc, List.cons_append,
          dropWhile_append_of_stop more point]
        exact behindPoint
      have taken : (whole ++ '.' :: digits ++ behind).takeWhile Char.isDigit = whole := by
        rw [List.append_assoc, List.cons_append]
        exact takeWhile_append_of_stop more point
      rw [first_digit (all _ (by simp)), fraction, taken, if_neg (by simp [nonempty])]
      simp

end Piece

namespace Lexeme

open Piece

theorem wordKind_name {x : String} (named : IsName x.toList) :
    wordKind x.toList = (Lexeme.name x).kind := by
  have free := named.free
  simp only [Cursor.reservedWords, List.mem_cons, List.not_mem_nil, or_false, not_or] at free
  simp [wordKind, kind, free]

/-- **A lexeme is the first token exactly where it is the longest one.** -/
theorem first_spelling_iff {lexeme : Lexeme} (proper : lexeme.Proper) {x : Char} {tail : List Char}
    (spelled : lexeme.spelling = x :: tail) (behind : List Char) :
    Piece.first x (tail ++ behind) = (.token lexeme.kind, tail) ↔
      lexeme.longestBefore behind = true := by
  cases lexeme with
  | opening bracket | closing bracket =>
      cases bracket <;> cases spelled <;> exact iff_of_true rfl rfl
  | bar | comma | semicolon =>
      cases spelled
      exact iff_of_true rfl rfl
  | equals =>
      cases spelled
      exact first_comparison_iff (.inl rfl)
  | operator op =>
      cases op with
      | arith op => cases op <;> cases spelled <;> exact iff_of_true rfl rfl
      | and | or =>
          cases spelled
          exact first_word_iff rfl (List.all_eq_true.mp rfl) rfl
      | compare op =>
          cases op with
          | eq | ne | le | ge =>
              cases spelled
              exact iff_of_true rfl rfl
          | lt =>
              cases spelled
              exact first_comparison_iff (.inr (.inl rfl))
          | gt =>
              cases spelled
              exact first_comparison_iff (.inr (.inr rfl))
  | negation | ifWord | elseWord | forWord =>
      cases spelled
      exact first_word_iff rfl (List.all_eq_true.mp rfl) rfl
  | bool value =>
      cases value <;> cases spelled <;> exact first_word_iff rfl (List.all_eq_true.mp rfl) rfl
  | name n =>
      obtain ⟨y, rest, named, start, more⟩ := proper.letters
      obtain ⟨rfl, rfl⟩ := List.cons.inj (named.symm.trans spelled)
      exact first_word_iff start more (named ▸ wordKind_name proper)
  | int digits =>
      change digits = x :: tail at spelled
      subst spelled
      exact first_integer_iff proper.2
  | float whole fraction => exact first_float_iff proper.1 proper.2.1 proper.2.2 spelled

end Lexeme

/-! ## From lexemes to tokens -/

namespace Cursor

theorem Reads.lexed {lexeme : Lexeme} {c c' : Cursor} (reads : Reads lexeme c c') :
    lexed c.rest = lexeme.token :: lexed c'.rest := by
  obtain ⟨proper, gap, takes, ends⟩ := reads
  obtain ⟨x, tail, spelled⟩ := List.exists_cons_of_ne_nil (Lexeme.spelling_ne_nil proper)
  have taken := (Lexeme.first_spelling_iff proper spelled (gap ++ c'.rest)).mpr
    (Lexeme.longestBefore_of_endsBefore ends)
  have blank : ∀ y ∈ gap, Piece.isSpace y = true := fun y member => by
    simp [Piece.isSpace, takes.blank y member]
  have other := Piece.not_isSpace_of_first taken
  rw [takes.rest, spelled, List.cons_append, lexed_token other taken, lexed_blank blank,
    Lexeme.token, spelled]
  rfl

theorem Spelled.lexed {lexemes : List Lexeme} {c c' : Cursor} (spelled : Spelled lexemes c c') :
    lexed c.rest = lexemes.map Lexeme.token ++ BlockScript.lexed c'.rest := by
  induction lexemes generalizing c with
  | nil => rw [spelled_nil.mp spelled]; rfl
  | cons lexeme rest ih =>
      obtain ⟨c₁, reads, further⟩ := spelled
      rw [reads.lexed, ih further]
      rfl

end Cursor

/-- **A text that is read as lexemes is cut into them.** -/
theorem ReadsAs.lexed {text : List Char} {lexemes : List Lexeme} (reads : ReadsAs text lexemes) :
    lexed text = lexemes.map Lexeme.token := by
  obtain ⟨pos, spelled⟩ := reads
  have whole := spelled.lexed
  generalize landed : (Cursor.start text).skipGap = c at whole
  obtain ⟨gap, split, -, blank, -⟩ := Cursor.skipGap_eq_iff.mp landed
  have blank : ∀ y ∈ gap, Piece.isSpace y = true := fun y member => by
    simp [Piece.isSpace, blank y member]
  rw [split, lexed_blank blank, whole, lexed_nil, List.append_nil]

/-! ## From tokens to lexemes -/

/-- Lexemes of the right kind, with no `=` before another one. -/
def Separable : List Lexeme → Prop
  | [] => True
  | lexeme :: rest =>
      lexeme.Proper ∧ (lexeme = .equals → ∀ next ∈ rest.head?, next.startsEqual = false) ∧
        Separable rest

theorem Lexeme.startsEqual_iff {lexeme : Lexeme} (proper : lexeme.Proper) :
    lexeme.startsEqual = true ↔ lexeme.spelling.head? = some '=' := by
  obtain ⟨x, rest, spelled, -, unequal, -⟩ := Lexeme.head_spelling proper
  constructor
  · intro starts
    cases lexeme with
    | equals => rfl
    | operator op =>
      cases op with
      | compare op => cases op <;> first | rfl | cases starts
      | _ => cases starts
    | _ => cases starts
  · intro head
    rw [spelled] at head
    cases head
    by_contra other
    exact unequal (by simpa using other) rfl

namespace Cursor

theorem Spelled.separable {lexemes : List Lexeme} {c c' : Cursor} (spelled : Spelled lexemes c c') :
    Separable lexemes := by
  induction lexemes generalizing c with
  | nil => trivial
  | cons lexeme rest ih =>
      obtain ⟨c₁, ⟨proper, gap, takes, ends⟩, further⟩ := spelled
      refine ⟨proper, ?_, ih further⟩
      rintro rfl next member
      obtain ⟨more, rfl⟩ := List.head?_eq_some_iff.mp member
      obtain ⟨c₂, ⟨proper', gap', takes', -⟩, -⟩ := further
      simp only [Lexeme.endsBefore, dropWhile_gap takes, bne_iff_ne] at ends
      rw [takes'.head? (Lexeme.spelling_ne_nil proper')] at ends
      rw [Bool.eq_false_iff, ne_eq, Lexeme.startsEqual_iff proper']
      exact ends

end Cursor

theorem dropWhile_isSpace {text : List Char} (plain : '\x0c' ∉ text) :
    text.dropWhile Piece.isSpace = text.dropWhile isGap := by
  induction text with
  | nil => rfl
  | cons x rest ih =>
      rw [List.mem_cons, not_or] at plain
      have same : Piece.isSpace x = isGap x := by
        simp [Piece.isSpace, Ne.symm plain.1]
      rw [List.dropWhile_cons, List.dropWhile_cons, same, ih plain.2]

/-- The first token of a text, behind the white space. -/
theorem lexed_front {text rest : List Char} {x : Char}
    (front : text.dropWhile Piece.isSpace = x :: rest) :
    ∃ kind tail behind, rest = tail ++ behind ∧ Piece.first x (tail ++ behind) = (kind, tail) ∧
      lexed text = (kind.token?, x :: tail) :: lexed behind := by
  have other : Piece.isSpace x = false := by
    have stop := stop_dropWhile Piece.isSpace text
    simpa [front] using stop
  obtain ⟨kind, tail, behind, rfl, taken⟩ := Piece.exists_piece x rest
  refine ⟨kind, tail, behind, rfl, taken, ?_⟩
  rw [← lexed_dropWhile, front, lexed_token other taken]

theorem dropWhile_of_lexed_nil {text : List Char} (cut : lexed text = []) :
    text.dropWhile Piece.isSpace = [] := by
  cases front : text.dropWhile Piece.isSpace with
  | nil => rfl
  | cons x rest =>
      obtain ⟨_, _, _, _, _, piece⟩ := lexed_front front
      cases cut.symm.trans piece

theorem exists_of_lexed_cons {text : List Char} {kind : TokenKind} {word : List Char}
    {more : List (Option TokenKind × List Char)} (cut : lexed text = (some kind, word) :: more) :
    ∃ x tail behind, text.dropWhile Piece.isSpace = x :: (tail ++ behind) ∧ word = x :: tail ∧
      Piece.first x (tail ++ behind) = (.token kind, tail) ∧ lexed behind = more := by
  cases front : text.dropWhile Piece.isSpace with
  | nil =>
      rw [← lexed_dropWhile, front] at cut
      cases cut
  | cons x rest =>
      obtain ⟨found, tail, behind, rfl, taken, whole⟩ := lexed_front front
      obtain ⟨head, same⟩ := List.cons.inj (whole.symm.trans cut)
      obtain ⟨same', rfl⟩ := Prod.mk.inj head
      cases found with
      | token =>
          cases same'
          exact ⟨x, tail, behind, rfl, rfl, taken, same⟩
      | gap | stray => cases same'

/-- A text that is cut into lexemes starts with the first of them. -/
theorem head_of_lexed {lexemes : List Lexeme} {text : List Char}
    (cut : lexed text = lexemes.map Lexeme.token) :
    (text.dropWhile Piece.isSpace).head? =
      lexemes.head?.bind fun first => first.spelling.head? := by
  cases lexemes with
  | nil => rw [dropWhile_of_lexed_nil cut]; rfl
  | cons lexeme rest =>
      obtain ⟨x, tail, behind, front, spelled, -⟩ := exists_of_lexed_cons cut
      simp [front, spelled]

open Cursor in
theorem exists_spelled {lexemes : List Lexeme} {text : List Char} (plain : '\x0c' ∉ text)
    (cut : lexed text = lexemes.map Lexeme.token) (separable : Separable lexemes) (pos : Nat) :
    ∃ pos', Spelled lexemes (skipGap ⟨text, pos⟩) ⟨[], pos'⟩ := by
  induction lexemes generalizing text pos with
  | nil =>
      have blank := dropWhile_of_lexed_nil cut
      rw [dropWhile_isSpace plain] at blank
      exact ⟨pos + (text.takeWhile isGap).length, by rw [spelled_nil, skipGap_eq, blank]⟩
  | cons lexeme rest ih =>
      obtain ⟨proper, other, further⟩ := separable
      obtain ⟨x, tail, behind, front, spelled, taken, cut'⟩ := exists_of_lexed_cons cut
      rw [dropWhile_isSpace plain] at front
      have plain' : '\x0c' ∉ behind := by
        intro member
        have inside : '\x0c' ∈ text.dropWhile isGap := by simp [front, member]
        exact plain ((List.dropWhile_suffix _).subset inside)
      have ends : lexeme.endsBefore behind = true := by
        refine Lexeme.endsBefore_of_longestBefore
          ((Lexeme.first_spelling_iff proper spelled behind).mp taken) fun equals => ?_
        rw [← dropWhile_isSpace plain', head_of_lexed cut']
        intro joined
        obtain ⟨next, member, head⟩ := Option.bind_eq_some_iff.mp joined
        have unequal := other equals next member
        obtain ⟨more, rfl⟩ := List.head?_eq_some_iff.mp member
        rw [(Lexeme.startsEqual_iff further.1).mpr head] at unequal
        cases unequal
      have start : (skipGap ⟨text, pos⟩).rest = lexeme.spelling ++ behind := by
        rw [skipGap_eq, front, spelled, List.cons_append]
      obtain ⟨gap, takes, split⟩ := (skipGap_behind start).mp rfl
      obtain ⟨pos', spelled'⟩ := ih plain' cut' further _
      exact ⟨pos', _, ⟨proper, gap, takes, split ▸ ends⟩, spelled'⟩

theorem readsAs_of_lexed {lexemes : List Lexeme} {text : List Char} (plain : '\x0c' ∉ text)
    (cut : lexed text = lexemes.map Lexeme.token) (separable : Separable lexemes) :
    ReadsAs text lexemes :=
  exists_spelled plain cut separable 0

/-- **White space between tokens is insignificant.**  A text without form feeds that is cut into
the same tokens as a program, kind by kind and text by text, is a program with the same tree,
under every limit. -/
theorem parseWithin_of_same_tokens {limit : Nat} {source source' : String} {tree : Node Unit}
    (plain : '\x0c' ∉ source'.toList) (same : lexed source'.toList = lexed source.toList)
    (parsed : parseWithin limit source = .ok tree) : parseWithin limit source' = .ok tree := by
  obtain ⟨phrases, lexemes, trees, member, reads, made, within, rfl⟩ :=
    parseWithin_eq_ok_iff.mp parsed
  obtain ⟨pos, spelled⟩ := reads
  have cut := same.trans (ReadsAs.lexed ⟨pos, spelled⟩)
  exact parseWithin_eq_ok_iff.mpr ⟨phrases, lexemes, trees, member,
    readsAs_of_lexed plain cut spelled.separable, made, within, rfl⟩

/-- The same tokens with as little white space as there can be and with much of it. -/
theorem parseWithin_of_same_tokens_spaced : ∃ tree,
    '\x0c' ∉ " a  =\nnot 1 <=\t.5 and \x7b | x |\r\nx \x7d ".toList ∧
    lexed " a  =\nnot 1 <=\t.5 and \x7b | x |\r\nx \x7d ".toList =
      lexed "a=not 1<=.5and\x7b|x|x\x7d".toList ∧
    parseWithin 3 "a=not 1<=.5and\x7b|x|x\x7d" = .ok tree ∧
    parseWithin 3 " a  =\nnot 1 <=\t.5 and \x7b | x |\r\nx \x7d " = .ok tree := by
  have plain : '\x0c' ∉ " a  =\nnot 1 <=\t.5 and \x7b | x |\r\nx \x7d ".toList := by decide +kernel
  have same : lexed " a  =\nnot 1 <=\t.5 and \x7b | x |\r\nx \x7d ".toList =
      lexed "a=not 1<=.5and\x7b|x|x\x7d".toList := by decide +kernel
  obtain ⟨tree, parsed⟩ : ∃ tree, parseWithin 3 "a=not 1<=.5and\x7b|x|x\x7d" = .ok tree :=
    exists_of_isOk (by decide +kernel)
  exact ⟨tree, plain, same, parsed, parseWithin_of_same_tokens plain same parsed⟩

/-! ## Brackets -/

/-- How many more opening than closing brackets there are among lexemes. -/
def bracketsOf (lexemes : List Lexeme) : Int := height (lexemes.map fun lexeme => some lexeme.kind)

theorem bracketsOf_cons (lexeme : Lexeme) (rest : List Lexeme) :
    bracketsOf (lexeme :: rest) = lexeme.kind.opening + bracketsOf rest := rfl

theorem bracketsOf_append (lexemes more : List Lexeme) :
    bracketsOf (lexemes ++ more) = bracketsOf lexemes + bracketsOf more := by
  induction lexemes with
  | nil => exact (Int.zero_add _).symm
  | cons lexeme rest ih =>
      rw [List.cons_append, bracketsOf_cons, ih, bracketsOf_cons, Int.add_assoc]

theorem Lexeme.opening_kind (lexeme : Lexeme)
    (free : (lexeme matches .opening _ | .closing _ | .equals) = false) :
    lexeme.kind.opening = 0 := by
  cases lexeme with
  | opening | closing | equals => cases free
  | operator op => cases op <;> rfl
  | name x =>
      rw [kind]
      split <;> rfl
  | _ => rfl

theorem bracketsOf_of_plain {lexemes : List Lexeme}
    (plain : ∀ lexeme ∈ lexemes, lexeme.kind.opening = 0) : bracketsOf lexemes = 0 := by
  induction lexemes with
  | nil => rfl
  | cons lexeme rest ih =>
      obtain ⟨here, further⟩ := List.forall_mem_cons.mp plain
      rw [bracketsOf_cons, here, ih further]
      rfl

/-- Lexemes that are no brackets. -/
theorem bracketsOf_of_prefix {lexemes before after : List Lexeme}
    (plain : ∀ lexeme ∈ lexemes, lexeme.kind.opening = 0) (split : lexemes = before ++ after) :
    0 ≤ bracketsOf before := by
  rw [bracketsOf_of_plain fun lexeme member => plain lexeme (by simp [split, member])]

theorem Lexeme.opening_assign (x : String) :
    ∀ lexeme ∈ [Lexeme.name x, .equals], lexeme.kind.opening = 0 := by
  simpa using ⟨Lexeme.opening_kind (.name x) rfl, rfl⟩

namespace Balanced

/-- As many brackets close as open. -/
theorem bracketsOf_eq {lexemes : List Lexeme} (balanced : Balanced lexemes) :
    bracketsOf lexemes = 0 := by
  induction balanced with
  | nil => rfl
  | single free => exact bracketsOf_of_plain (by simpa using Lexeme.opening_kind _ free)
  | @assign x => exact bracketsOf_of_plain (Lexeme.opening_assign x)
  | @enclosed bracket inside _ ih =>
      rw [bracketsOf_cons, bracketsOf_append, ih]
      cases bracket <;> rfl
  | append _ _ first second => rw [bracketsOf_append, first, second, Int.zero_add]

/-- No bracket closes before it opens. -/
theorem bracketsOf_nonneg {lexemes : List Lexeme} (balanced : Balanced lexemes)
    {before after : List Lexeme} (split : lexemes = before ++ after) : 0 ≤ bracketsOf before := by
  induction balanced generalizing before after with
  | nil => exact bracketsOf_of_prefix (by simp) split
  | single free => exact bracketsOf_of_prefix (by simpa using Lexeme.opening_kind _ free) split
  | @assign x => exact bracketsOf_of_prefix (Lexeme.opening_assign x) split
  | @enclosed bracket inside balanced ih =>
      cases before with
      | nil => exact Int.le_refl 0
      | cons first before =>
          obtain ⟨rfl, further⟩ := List.cons.inj split
          have opens : (Lexeme.opening bracket).kind.opening = 1 := by cases bracket <;> rfl
          rw [bracketsOf_cons, opens]
          rcases List.append_eq_append_iff.mp further with ⟨c, rfl, last⟩ | ⟨c, rfl, -⟩
          · -- All that may have closed is the bracket itself.
            have closes : -1 ≤ bracketsOf c := by
              rcases List.append_eq_singleton_iff.mp last.symm with ⟨rfl, -⟩ | ⟨rfl, -⟩
              · decide
              · cases bracket <;> exact Int.le_refl (-1)
            rw [bracketsOf_append, balanced.bracketsOf_eq]
            omega
          · have inner := ih rfl
            omega
  | append balanced _ first second =>
      rcases List.append_eq_append_iff.mp split with ⟨c, rfl, rest⟩ | ⟨c, rest, -⟩
      · rw [bracketsOf_append, balanced.bracketsOf_eq, Int.zero_add]
        exact second rest
      · exact first rest

end Balanced

/-- The brackets that a text leaves open if its tokens are lexemes. -/
theorem openBrackets_of_lexed {text : List Char} {lexemes : List Lexeme}
    (cut : lexed text = lexemes.map Lexeme.token) :
    openBrackets text = some (bracketsOf lexemes).toNat ∧
      bracketsOf lexemes = openingMarks text - closingMarks text := by
  have kinds : (lexed text).map Prod.fst = lexemes.map fun lexeme => some lexeme.kind := by
    simp [cut, Lexeme.token]
  have same : bracketsOf lexemes = markHeight text := by
    rw [← height_lexed, kinds, bracketsOf]
  exact ⟨by rw [same, openBrackets_eq_some (by simp [kinds])], same⟩

theorem Dialogue.isUnfinished_iff {text : String} {n : Nat}
    (left : openBrackets text.toList = some n) : isUnfinished text = true ↔ 0 < n := by
  simp [isUnfinished, left]

/-- **The check for open brackets never holds back a program and never lets go of an unfinished
one.**  Every character of a program belongs to a token, and no bracket is left open.  A program
that is cut at the end of a line leaves as many brackets open as it has opening brackets more than
closing ones; it never has fewer, and more is waited for exactly if it has more of them. -/
theorem brackets_of_program {limit : Nat} {source : String} {tree : Node Unit}
    (parsed : parseWithin limit source = .ok tree) :
    (∀ t ∈ tokens source.toList, t.kind ≠ none) ∧ openBrackets source.toList = some 0 ∧
    Dialogue.isUnfinished source = false ∧
    ∀ before after : String, source = before ++ "\n" ++ after →
      closingMarks before.toList ≤ openingMarks before.toList ∧
      openBrackets before.toList =
        some (openingMarks before.toList - closingMarks before.toList) ∧
      (Dialogue.isUnfinished before = true ↔
        closingMarks before.toList < openingMarks before.toList) := by
  obtain ⟨phrases, lexemes, trees, member, reads, -, -, -⟩ := parseWithin_eq_ok_iff.mp parsed
  have balanced := (Balanced.all_row phrases).ended lexemes member
  have cut := reads.lexed
  have closed : openBrackets source.toList = some 0 := by
    rw [(openBrackets_of_lexed cut).1, balanced.bracketsOf_eq]
    rfl
  refine ⟨fun t token unknown => ?_, closed, ?_, fun before after split => ?_⟩
  · have unknown : (none, t.text source.toList) ∈ lexed source.toList :=
      List.mem_map.mpr ⟨t, token, by rw [unknown]⟩
    rw [cut] at unknown
    obtain ⟨lexeme, -, same⟩ := List.mem_map.mp unknown
    cases same
  · rw [Bool.eq_false_iff, ne_eq, Dialogue.isUnfinished_iff closed]
    exact Nat.lt_irrefl 0
  · have lines : source.toList = before.toList ++ '\n' :: after.toList := by simp [split]
    rw [lines, lexed_lineFeed] at cut
    obtain ⟨front, rest, parts, cutFront, -⟩ := List.append_eq_map_iff.mp cut
    obtain ⟨left, marks⟩ := openBrackets_of_lexed cutFront.symm
    have nonneg := balanced.bracketsOf_nonneg parts
    rw [marks] at left nonneg
    have difference : ((openingMarks before.toList : Int) - closingMarks before.toList).toNat =
        openingMarks before.toList - closingMarks before.toList := by omega
    rw [difference] at left
    refine ⟨by omega, left, ?_⟩
    rw [Dialogue.isUnfinished_iff left]
    omega

/-- A block of two lines: cut behind the first one, the brace is open. -/
theorem brackets_of_program_twoLines : ∃ tree,
    parseWithin 3 "f = \x7b|x|\n(x) \x7d" = .ok tree ∧
    "f = \x7b|x|\n(x) \x7d" = "f = \x7b|x|" ++ "\n" ++ "(x) \x7d" ∧
    openBrackets "f = \x7b|x|\n(x) \x7d".toList = some 0 ∧
    openBrackets "f = \x7b|x|".toList = some 1 ∧ Dialogue.isUnfinished "f = \x7b|x|" = true := by
  obtain ⟨tree, parsed⟩ : ∃ tree, parseWithin 3 "f = \x7b|x|\n(x) \x7d" = .ok tree :=
    exists_of_isOk (by decide +kernel)
  obtain ⟨_, closed, _, lines⟩ := brackets_of_program parsed
  obtain ⟨_, left, waits⟩ := lines "f = \x7b|x|" "(x) \x7d" (by decide +kernel)
  exact ⟨tree, parsed, by decide +kernel, closed, left, waits.mpr (by decide +kernel)⟩

end BlockScript
