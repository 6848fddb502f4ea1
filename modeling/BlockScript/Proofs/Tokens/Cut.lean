import BlockScript.Highlight.Token
import BlockScript.Proofs.Reading.Lexemes

/-!
# The tokens of a text

A text is cut into pieces from the left.  What the next piece is depends on its first character:
white space, a word, a number, or a symbol (`Piece.start_cases`, with one equation for each of
them).  Every piece is the front of what is left (`Piece.prefix_first`), so a property of texts
can be proved piece by piece (`lexed_induction`).

The tokens carry places in bytes.  Together with the text their places say what they are
(`lexed`): the kinds and the texts of the pieces that are no white space (`lexed_eq`).

Two facts follow that do not look at the grammar.  A line feed ends every token, so the tokens of
two lines are those of the one and then those of the other (`lexed_lineFeed`).  And a bracket is
always a token of its own, so counting the brackets among the tokens is counting those in the text
(`height_lexed`).
-/

set_option autoImplicit false

namespace BlockScript

namespace Piece

variable {x : Char} {rest tail behind : List Char} {kind : PieceKind}

/-! ## The first piece of a text -/

theorem first_space (space : isSpace x = true) :
    first x rest = (.gap, rest.takeWhile isSpace) := by
  simp [first, space]

theorem eq_of_isSpace (space : isSpace x = true) :
    x = ' ' ∨ x = '\t' ∨ x = '\r' ∨ x = '\n' ∨ x = '\x0c' := by
  simpa [isSpace, isGap, or_assoc] using space

/-- White space has no property that none of its characters has. -/
theorem not_isSpace_of {p : Char → Bool} (lacking : [' ', '\t', '\r', '\n', '\x0c'].any p = false)
    (holds : p x = true) : isSpace x = false := by
  rw [Bool.eq_false_iff]
  intro space
  have member : x ∈ [' ', '\t', '\r', '\n', '\x0c'] := by simpa using eq_of_isSpace space
  exact List.any_eq_false.mp lacking x member holds

theorem first_word (start : isNameStart x = true) :
    first x rest =
      (.token (wordKind (x :: rest.takeWhile isNameChar)), rest.takeWhile isNameChar) := by
  simp [first, start, not_isSpace_of rfl start]

/-- The digits behind the point that follows the digits at the front of a text, if one does. -/
def fraction (text : List Char) : List Char :=
  match text.dropWhile Char.isDigit with
  | '.' :: after => after.takeWhile Char.isDigit
  | _ => []

theorem first_digit (digit : x.isDigit = true) :
    first x rest =
      if (fraction rest).isEmpty then (.token .integer, rest.takeWhile Char.isDigit)
      else (.token .float, rest.takeWhile Char.isDigit ++ '.' :: fraction rest) := by
  have space : isSpace x = false := not_isSpace_of (p := Char.isDigit) rfl digit
  have letter := Lexeme.not_isNameStart_of_isDigit digit
  simp only [first, space, letter, digit, Bool.true_or, if_true,
    Bool.false_eq_true, if_false, List.takeWhile_cons_of_pos, List.dropWhile_cons_of_pos,
    List.tail_cons, List.cons_append]
  change (if (!(fraction rest).isEmpty) = true then
    (PieceKind.token .float, rest.takeWhile Char.isDigit ++ '.' :: fraction rest) else _) = _
  cases (fraction rest).isEmpty <;> rfl

theorem first_point :
    first '.' rest =
      if (rest.takeWhile Char.isDigit).isEmpty then (.stray, [])
      else (.token .float, rest.takeWhile Char.isDigit) := by
  change (if (!(rest.takeWhile Char.isDigit).isEmpty) = true then
    (PieceKind.token .float, rest.takeWhile Char.isDigit) else _) = _
  cases (rest.takeWhile Char.isDigit).isEmpty <;> rfl

/-- Whether a character is no white space and starts no word and no number. -/
def isSymbol (x : Char) : Bool := !(isSpace x || isNameStart x || x.isDigit || x = '.')

/-- The kind of a piece of one character. -/
def symbolKind (x : Char) : PieceKind :=
  match markKind x with
  | some kind => .token kind
  | none => .stray

theorem first_symbol (symbol : isSymbol x = true) :
    first x rest =
      if x ∈ ['=', '!', '<', '>'] ∧ rest.head? = some '=' then (.token .operator, ['='])
      else (symbolKind x, []) := by
  simp only [isSymbol, Bool.not_eq_true', Bool.or_eq_false_iff, decide_eq_false_iff_not] at symbol
  obtain ⟨⟨⟨space, start⟩, digit⟩, point⟩ := symbol
  simp only [first, space, start, digit, point, decide_false, Bool.or_self, Bool.false_eq_true,
    if_false, Bool.and_eq_true, decide_eq_true_eq]
  split
  · rfl
  · rw [symbolKind]
    cases markKind x <;> rfl

/-- What a character can start. -/
theorem start_cases (x : Char) :
    isSpace x = true ∨ isNameStart x = true ∨ x.isDigit = true ∨ x = '.' ∨ isSymbol x = true := by
  cases space : isSpace x <;> cases start : isNameStart x <;> cases digit : x.isDigit <;>
    by_cases point : x = '.' <;> simp_all [isSymbol]

/-- What a character that is no white space can start. -/
theorem token_cases (other : isSpace x = false) :
    isNameStart x = true ∨ x.isDigit = true ∨ x = '.' ∨ isSymbol x = true := by
  simpa [other] using start_cases x

theorem prefix_number (rest : List Char) :
    rest.takeWhile Char.isDigit ++ '.' :: fraction rest <+: rest ∨ fraction rest = [] := by
  rw [fraction]
  split
  · rename_i after behind
    left
    conv_rhs => rw [← List.takeWhile_append_dropWhile (p := Char.isDigit) (l := rest), behind]
    rw [List.prefix_append_right_inj, List.cons_prefix_cons]
    exact ⟨rfl, List.takeWhile_prefix _⟩
  · exact .inr rfl

/-- A piece is the front of the text. -/
theorem prefix_first (x : Char) (rest : List Char) : (first x rest).2 <+: rest := by
  rcases start_cases x with space | start | digit | rfl | symbol
  · rw [first_space space]
    exact List.takeWhile_prefix _
  · rw [first_word start]
    exact List.takeWhile_prefix _
  · rw [first_digit digit]
    split
    · exact List.takeWhile_prefix _
    · rename_i decimal
      exact (prefix_number rest).resolve_right (by simpa using decimal)
  · rw [first_point]
    split
    · exact List.nil_prefix
    · exact List.takeWhile_prefix _
  · rw [first_symbol symbol]
    split
    · rename_i joined
      obtain ⟨after, rfl⟩ := List.head?_eq_some_iff.mp joined.2
      exact ⟨after, rfl⟩
    · exact List.nil_prefix

/-- What is left of a text behind its first piece. -/
theorem exists_piece (x : Char) (rest : List Char) :
    ∃ kind tail behind, rest = tail ++ behind ∧ first x (tail ++ behind) = (kind, tail) := by
  obtain ⟨behind, split⟩ := prefix_first x rest
  exact ⟨(first x rest).1, (first x rest).2, behind, split.symm, by rw [split]⟩

theorem fst_first_ne_gap (other : isSpace x = false) (rest : List Char) :
    (first x rest).1 ≠ .gap := by
  rcases token_cases other with start | digit | rfl | symbol
  · simp [first_word start]
  · rw [first_digit digit]
    split <;> simp
  · rw [first_point]
    split <;> simp
  · rw [first_symbol symbol, symbolKind]
    split
    · simp
    · cases markKind x <;> simp

/-! ## Cutting a whole text -/

theorem cutWithin_eq : ∀ {fuel fuel' : Nat} {text : List Char}, text.length ≤ fuel →
    text.length ≤ fuel' → cutWithin fuel text = cutWithin fuel' text
  | 0, 0, _, _, _ => rfl
  | 0, _ + 1, [], _, _ => rfl
  | _ + 1, 0, [], _, _ => rfl
  | _ + 1, _ + 1, [], _, _ => rfl
  | fuel + 1, fuel' + 1, x :: rest, enough, enough' => by
      have shorter : (rest.drop (first x rest).2.length).length ≤ rest.length := by simp
      simp only [List.length_cons, Nat.add_le_add_iff_right] at enough enough'
      simp only [cutWithin, List.cons.injEq, true_and]
      exact cutWithin_eq (Nat.le_trans shorter enough) (Nat.le_trans shorter enough')

/-- The pieces of a text are the first one and those of what is left. -/
theorem cut_piece (taken : first x (tail ++ behind) = (kind, tail)) :
    cut (x :: (tail ++ behind)) = ⟨kind, x :: tail⟩ :: cut behind := by
  rw [cut, List.length_cons, cutWithin, taken]
  simp only [List.drop_left, List.cons.injEq, true_and]
  exact cutWithin_eq (by simp) (Nat.le_refl _)

/-- Texts are made of pieces. -/
theorem cut_induction {P : List Char → Prop} (nil : P [])
    (piece : ∀ kind x tail behind, first x (tail ++ behind) = (kind, tail) → P behind →
      P (x :: (tail ++ behind))) : ∀ text, P text
  | [] => nil
  | x :: rest => by
      obtain ⟨kind, tail, behind, split, taken⟩ := exists_piece x rest
      have shorter : behind.length ≤ rest.length := by simp [split]
      rw [split]
      exact piece kind x tail behind taken (cut_induction nil piece behind)
termination_by text => text.length

/-- Nothing is dropped. -/
theorem flatMap_text_cut (text : List Char) : (cut text).flatMap Piece.text = text := by
  induction text using cut_induction with
  | nil => rfl
  | piece kind x tail behind taken ih => rw [cut_piece taken, List.flatMap_cons, ih]; rfl

end Piece

/-! ## Tokens with their texts -/

/-- The characters of a text that start inside a span, if the text itself starts at `pos`. -/
def Span.characters (span : Span) (pos : Nat) : List Char → List Char
  | [] => []
  | x :: rest =>
      let more := characters span (pos + x.utf8Size) rest
      if span.start ≤ pos ∧ pos < span.stop then x :: more else more

namespace Nesting

@[simp]
theorem byteLength_cons (x : Char) (text : List Char) :
    byteLength (x :: text) = x.utf8Size + byteLength text := rfl

@[simp]
theorem byteLength_append (text more : List Char) :
    byteLength (text ++ more) = byteLength text + byteLength more := by
  induction text with
  | nil => simp [byteLength]
  | cons x rest ih => simp [ih, Nat.add_assoc]

theorem utf8ByteSize_eq_byteLength (text : List Char) :
    (String.ofList text).utf8ByteSize = byteLength text := by
  induction text with
  | nil => rfl
  | cons x rest ih =>
      rw [String.ofList_cons, String.utf8ByteSize_append, String.utf8ByteSize_singleton, ih,
        byteLength_cons]

theorem byteLength_of_ascii {text : List Char} (ascii : ∀ x ∈ text, x.val ≤ 127) :
    byteLength text = text.length := by
  induction text with
  | nil => rfl
  | cons x rest ih =>
      obtain ⟨here, further⟩ := List.forall_mem_cons.mp ascii
      rw [byteLength_cons, Char.utf8Size_eq_one_iff.mpr here, ih further, List.length_cons,
        Nat.add_comm]

end Nesting

namespace Span

open Nesting

theorem characters_append (span : Span) (pos : Nat) (text more : List Char) :
    span.characters pos (text ++ more) =
      span.characters pos text ++ span.characters (pos + byteLength text) more := by
  induction text generalizing pos with
  | nil => rfl
  | cons x rest ih =>
      simp only [List.cons_append, characters, ih, byteLength_cons, Nat.add_assoc]
      split <;> rfl

theorem characters_inside {span : Span} {pos : Nat} {text : List Char} (start : span.start ≤ pos)
    (stop : pos + byteLength text ≤ span.stop) : span.characters pos text = text := by
  induction text generalizing pos with
  | nil => rfl
  | cons x rest ih =>
      have size := Char.utf8Size_pos x
      rw [byteLength_cons] at stop
      rw [characters, if_pos ⟨start, by omega⟩]
      congr 1
      exact ih (by omega) (by omega)

theorem characters_before {span : Span} {pos : Nat} {text : List Char}
    (before : pos + byteLength text ≤ span.start) : span.characters pos text = [] := by
  induction text generalizing pos with
  | nil => rfl
  | cons x rest ih =>
      have size := Char.utf8Size_pos x
      rw [byteLength_cons] at before
      rw [characters, if_neg (by omega)]
      exact ih (by omega)

theorem characters_behind {span : Span} {pos : Nat} {text : List Char} (behind : span.stop ≤ pos) :
    span.characters pos text = [] := by
  induction text generalizing pos with
  | nil => rfl
  | cons x rest ih =>
      rw [characters, if_neg (by omega)]
      exact ih (by omega)

/-- The characters of a span are those between the two offsets. -/
theorem characters_between (before text behind : List Char) :
    characters ⟨byteLength before, byteLength before + byteLength text⟩ 0
      (before ++ (text ++ behind)) = text := by
  rw [characters_append, characters_append, characters_before (by simp), Nat.zero_add,
    characters_inside (Nat.le_refl _) (Nat.le_refl _), characters_behind (Nat.le_refl _)]
  simp

end Span

/-- The text of a token in its line. -/
def Token.text (line : List Char) (t : Token) : List Char := t.span.characters 0 line

/-- The tokens of a line as kinds and texts; a character that starts no token has no kind. -/
def lexed (line : List Char) : List (Option TokenKind × List Char) :=
  (tokens line).map fun t => (t.kind, t.text line)

/-- The token that a piece is, unless it is white space. -/
def Piece.token? (piece : Piece) : Option (Option TokenKind × List Char) :=
  match piece.kind with
  | .gap => none
  | .stray => some (none, piece.text)
  | .token kind => some (some kind, piece.text)

theorem tokensFrom_eq {line : List Char} {pieces : List Piece} (before : List Char)
    (split : line = before ++ pieces.flatMap Piece.text) :
    (tokensFrom (Nesting.byteLength before) pieces).map (fun t => (t.kind, t.text line)) =
      pieces.filterMap Piece.token? := by
  induction pieces generalizing before with
  | nil => rfl
  | cons piece rest ih =>
      have further := ih (before ++ piece.text) (by simp [split])
      rw [Nesting.byteLength_append] at further
      have here (kind : Option TokenKind) : Token.text line ⟨kind, Nesting.byteLength before,
          Nesting.byteLength before + Nesting.byteLength piece.text⟩ = piece.text := by
        rw [split]
        exact Span.characters_between before piece.text _
      rw [tokensFrom]
      simp only [List.filterMap_cons, Piece.token?]
      cases piece.kind with
      | gap => exact further
      | stray | token kind => simp [further, here]

theorem lexed_eq (line : List Char) : lexed line = (Piece.cut line).filterMap Piece.token? :=
  tokensFrom_eq [] (Piece.flatMap_text_cut line).symm

@[simp]
theorem lexed_nil : lexed [] = [] := rfl

section Lexed

open Piece

variable {x : Char} {rest tail behind : List Char} {kind : PieceKind}

/-- The kind of the token that a piece is; none if it is not a token. -/
def PieceKind.token? : PieceKind → Option TokenKind
  | .token kind => some kind
  | _ => none

theorem lexed_token (other : isSpace x = false) (taken : first x (tail ++ behind) = (kind, tail)) :
    lexed (x :: (tail ++ behind)) = (kind.token?, x :: tail) :: lexed behind := by
  have solid := fst_first_ne_gap other (tail ++ behind)
  rw [taken] at solid
  rw [lexed_eq, lexed_eq, cut_piece taken, List.filterMap_cons]
  cases kind with
  | gap => exact absurd rfl solid
  | stray | token => rfl

/-- White space in front of a text makes no difference. -/
theorem lexed_dropWhile (text : List Char) : lexed (text.dropWhile isSpace) = lexed text := by
  cases text with
  | nil => rfl
  | cons x rest =>
      cases space : isSpace x with
      | false => rw [List.dropWhile_cons_of_neg (by simp [space])]
      | true =>
          have taken : first x (rest.takeWhile isSpace ++ rest.dropWhile isSpace) =
              (.gap, rest.takeWhile isSpace) := by
            rw [List.takeWhile_append_dropWhile, first_space space]
          have whole := cut_piece taken
          rw [List.takeWhile_append_dropWhile] at whole
          rw [List.dropWhile_cons_of_pos space, lexed_eq, lexed_eq, whole]
          rfl

theorem lexed_space (space : isSpace x = true) : lexed (x :: rest) = lexed rest := by
  rw [← lexed_dropWhile, List.dropWhile_cons_of_pos space, lexed_dropWhile]

theorem lexed_blank (blank : ∀ x ∈ tail, isSpace x = true) :
    lexed (tail ++ behind) = lexed behind := by
  rw [← lexed_dropWhile, List.dropWhile_append_of_pos blank, lexed_dropWhile]

/-- Texts are made of white space and tokens. -/
theorem lexed_induction {P : List Char → Prop} (nil : P [])
    (space : ∀ x rest, isSpace x = true → P rest → P (x :: rest))
    (token : ∀ kind x tail behind, isSpace x = false → first x (tail ++ behind) = (kind, tail) →
      P behind → P (x :: (tail ++ behind))) : ∀ text, P text
  | [] => nil
  | x :: rest => by
      cases blank : isSpace x with
      | true => exact space x rest blank (lexed_induction nil space token rest)
      | false =>
          obtain ⟨kind, tail, behind, split, taken⟩ := exists_piece x rest
          have shorter : behind.length ≤ rest.length := by simp [split]
          rw [split]
          exact token kind x tail behind blank taken (lexed_induction nil space token behind)
termination_by text => text.length

/-! ## Lines -/

section LineFeed

variable {text more : List Char}

theorem takeWhile_lineFeed {p : Char → Bool} (stop : p '\n' = false) :
    (text ++ '\n' :: more).takeWhile p = text.takeWhile p := by
  induction text with
  | nil => simp [stop]
  | cons y text ih => cases holds : p y <;> simp [holds, ih]

theorem fraction_lineFeed : fraction (text ++ '\n' :: more) = fraction text := by
  have stop : Char.isDigit '\n' = false := rfl
  have dropped : (text ++ '\n' :: more).dropWhile Char.isDigit =
      text.dropWhile Char.isDigit ++ '\n' :: more := by
    rw [List.dropWhile_append]
    split
    · rename_i empty
      rw [List.isEmpty_iff.mp empty, List.dropWhile_cons_of_neg (by decide)]
      rfl
    · rfl
  rw [fraction, fraction, dropped]
  cases text.dropWhile Char.isDigit with
  | nil => rfl
  | cons y after =>
      by_cases point : y = '.'
      · subst point
        exact takeWhile_lineFeed stop
      · simp [point]

/-- No token reaches over the end of a line. -/
theorem first_lineFeed (other : isSpace x = false) :
    first x (text ++ '\n' :: more) = first x text := by
  rcases token_cases other with start | digit | rfl | symbol
  · rw [first_word start, first_word start, takeWhile_lineFeed rfl]
  · rw [first_digit digit, first_digit digit, fraction_lineFeed, takeWhile_lineFeed rfl]
  · rw [first_point, first_point, takeWhile_lineFeed rfl]
  · rw [first_symbol symbol, first_symbol symbol]
    cases text with
    | nil => simp
    | cons y text => rfl

/-- **The tokens of two lines are those of the one and then those of the other.** -/
theorem lexed_lineFeed (text more : List Char) :
    lexed (text ++ '\n' :: more) = lexed text ++ lexed more := by
  induction text using lexed_induction with
  | nil => exact lexed_space rfl
  | space x rest space ih => rw [List.cons_append, lexed_space space, lexed_space space, ih]
  | token kind x tail behind other taken ih =>
      have taken' : first x (tail ++ (behind ++ '\n' :: more)) = (kind, tail) := by
        rw [← List.append_assoc, first_lineFeed other, taken]
      rw [lexed_token other taken, List.cons_append, List.append_assoc, lexed_token other taken',
        ih, List.cons_append]

end LineFeed

/-! ## Brackets -/

/-- The number of opening brackets in a text. -/
def openingMarks (text : List Char) : Nat := text.count '(' + text.count '{'

/-- The number of closing brackets in a text. -/
def closingMarks (text : List Char) : Nat := text.count ')' + text.count '}'

/-- How many more opening than closing brackets there are in a text. -/
def markHeight (text : List Char) : Int := openingMarks text - closingMarks text

/-- How many more opening than closing brackets there are among tokens. -/
def height (kinds : List (Option TokenKind)) : Int :=
  ((kinds.filterMap id).map TokenKind.opening).foldr (· + ·) 0

theorem markHeight_append (text more : List Char) :
    markHeight (text ++ more) = markHeight text + markHeight more := by
  simp only [markHeight, openingMarks, closingMarks, List.count_append]
  omega

theorem markHeight_cons (x : Char) (text : List Char) :
    markHeight (x :: text) = markHeight [x] + markHeight text :=
  markHeight_append [x] text

/-- Whether a character is a bracket. -/
def isBracket (x : Char) : Bool := x = '(' || x = ')' || x = '{' || x = '}'

theorem markHeight_of_plain {text : List Char} (plain : ∀ y ∈ text, isBracket y = false) :
    markHeight text = 0 := by
  have absent (y : Char) (bracket : isBracket y = true) : text.count y = 0 :=
    List.count_eq_zero.mpr fun member => by simp [plain y member] at bracket
  simp [markHeight, openingMarks, closingMarks, absent '(' rfl, absent '{' rfl, absent ')' rfl,
    absent '}' rfl]

theorem not_isBracket_of_isNameChar {y : Char} (more : isNameChar y = true) :
    isBracket y = false := by
  rw [Bool.eq_false_iff]
  intro bracket
  simp only [isBracket, Bool.or_eq_true, decide_eq_true_eq] at bracket
  revert more
  rcases bracket with ((rfl | rfl) | rfl) | rfl <;> decide

theorem isNameChar_of_isDigit {y : Char} (digit : y.isDigit = true) : isNameChar y = true := by
  simp [isNameChar, Char.isAlphanum, digit]

theorem not_isBracket_of_mem_first {y : Char} (other : isSpace x = false)
    (taken : first x rest = (kind, tail)) (member : y ∈ tail) : isBracket y = false := by
  obtain rfl : (first x rest).2 = tail := by rw [taken]
  have digits {text : List Char} (member : y ∈ text.takeWhile Char.isDigit) : isBracket y = false :=
    not_isBracket_of_isNameChar (isNameChar_of_isDigit (List.mem_takeWhile_imp member))
  rcases token_cases other with start | digit | rfl | symbol
  · rw [first_word start] at member
    exact not_isBracket_of_isNameChar (List.mem_takeWhile_imp member)
  · rw [first_digit digit] at member
    split at member
    · exact digits member
    · rcases List.mem_append.mp member with member | member
      · exact digits member
      · rcases List.mem_cons.mp member with rfl | member
        · rfl
        · rw [fraction] at member
          split at member
          · exact digits member
          · cases member
  · rw [first_point] at member
    split at member
    · cases member
    · exact digits member
  · rw [first_symbol symbol] at member
    split at member
    · rw [List.mem_singleton.mp member]
      rfl
    · cases member

theorem opening_wordKind (word : List Char) : (wordKind word).opening = 0 := by
  unfold wordKind
  split_ifs <;> rfl

theorem height_symbolKind (x : Char) : height [(symbolKind x).token?] = markHeight [x] := by
  by_cases bracket : isBracket x = true
  · simp only [isBracket, Bool.or_eq_true, decide_eq_true_eq] at bracket
    rcases bracket with ((rfl | rfl) | rfl) | rfl <;> rfl
  · rw [markHeight_of_plain (by simpa using bracket), symbolKind, markKind]
    simp only [isBracket, Bool.or_eq_true, decide_eq_true_eq, not_or] at bracket
    obtain ⟨⟨⟨h₁, h₂⟩, h₃⟩, h₄⟩ := bracket
    simp only [h₁, h₂, h₃, h₄, if_false]
    split_ifs <;> rfl

/-- A token is a bracket exactly if it starts with one. -/
theorem height_first (other : isSpace x = false) (rest : List Char) :
    height [(first x rest).1.token?] = markHeight [x] := by
  have plain (no : isBracket x = false) : markHeight [x] = 0 := markHeight_of_plain (by simpa)
  rcases token_cases other with start | digit | rfl | symbol
  · rw [first_word start, plain (not_isBracket_of_isNameChar (isNameChar_of_isNameStart start))]
    simp [height, PieceKind.token?, opening_wordKind]
  · rw [first_digit digit, plain (not_isBracket_of_isNameChar (isNameChar_of_isDigit digit))]
    split <;> rfl
  · rw [first_point]
    split <;> rfl
  · rw [first_symbol symbol]
    split
    · rename_i joined
      rw [plain]
      · rfl
      · have member := joined.1
        simp only [List.mem_cons, List.not_mem_nil, or_false] at member
        rcases member with rfl | rfl | rfl | rfl <;> rfl
    · exact height_symbolKind x

theorem height_cons (kind : Option TokenKind) (rest : List (Option TokenKind)) :
    height (kind :: rest) = height [kind] + height rest := by
  cases kind <;> simp [height]

/-- **The brackets among the tokens of a text are the brackets in it.** -/
theorem height_lexed (text : List Char) : height ((lexed text).map Prod.fst) = markHeight text := by
  induction text using lexed_induction with
  | nil => rfl
  | space x rest space ih =>
      have plain : markHeight [x] = 0 := by
        rcases eq_of_isSpace space with rfl | rfl | rfl | rfl | rfl <;> rfl
      rw [lexed_space space, ih, markHeight_cons, plain, Int.zero_add]
  | token kind x tail behind other taken ih =>
      have head := height_first other (tail ++ behind)
      have plain : markHeight tail = 0 :=
        markHeight_of_plain fun _ member => not_isBracket_of_mem_first other taken member
      rw [taken] at head
      rw [lexed_token other taken, List.map_cons, height_cons, head, ih,
        markHeight_cons x (tail ++ behind), markHeight_append, plain, Int.zero_add]

/-- The brackets that a text leaves open. -/
theorem openBrackets_eq_some {text : List Char} (known : none ∉ (lexed text).map Prod.fst) :
    openBrackets text = some (markHeight text).toNat := by
  have kinds : (tokens text).map Token.kind = (lexed text).map Prod.fst := by
    simp [lexed]
  rw [← height_lexed, openBrackets]
  simp only [kinds]
  rw [if_neg (by simpa using known)]
  rfl

end Lexed

end BlockScript
