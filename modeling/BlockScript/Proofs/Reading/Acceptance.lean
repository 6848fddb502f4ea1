import BlockScript.Proofs.Reading.Derivation
import BlockScript.Grammar.Parse

/-!
# What is written is found

Wherever a phrase is written the scanners find it, as long as what follows does not go on
with it: behind a row of statements stands a closing bracket or the end of the text, behind a
statement there may also be a `;`, and behind an operand an operator.  The argument follows
the phrase.  At each place exactly one lexeme is read, and every alternative of the grammar
that is tried before the right one starts with another lexeme.

What is found may differ from what is written in the places it carries and in nothing else
(`Phrase.plain`), because a language of lexemes knows nothing of places.
-/

set_option autoImplicit false

namespace BlockScript

/-! ## Phrases without places -/

mutual
/-- A statement with all its places left out. -/
def Phrase.plain : Phrase → Phrase
  | .branch test yes => .branch (plainRow test) (plainRow yes)
  | .branchElse test yes no => .branchElse (plainRow test) (plainRow yes) (plainRow no)
  | .loop header _ body => .loop (plainRow header) ⟨0, 0⟩ (plainRow body)
  | .expression series => .expression (plainSeries series)

/-- Statements with all their places left out. -/
def plainRow : List Phrase → List Phrase
  | [] => []
  | phrase :: rest => phrase.plain :: plainRow rest

/-- A series with all its places left out. -/
def plainSeries : Series Operand → Series Operand
  | .last nots operand => .last nots operand.plain
  | .link nots operand op rest => .link nots operand.plain op (plainSeries rest)

/-- An operand with all its places left out. -/
def Operand.plain : Operand → Operand
  | .block parameters body => .block parameters (plainRow body)
  | .call name arguments => .call name (plainRow arguments)
  | .assign name value => .assign name (plainSeries value)
  | .bool value => .bool value
  | .float whole fraction => .float whole fraction
  | .int digits _ => .int digits ⟨0, 0⟩
  | .var name => .var name
  | .group series => .group (plainSeries series)
end

/-! ## What may follow -/

namespace Lexeme

/-- What may follow a row of statements. -/
def endsRow : Lexeme → Bool
  | .closing _ => true
  | _ => false

/-- What may follow a statement. -/
def endsPhrase : Lexeme → Bool
  | .semicolon => true
  | lexeme => lexeme.endsRow

/-- What may follow an operand. -/
def endsOperand : Lexeme → Bool
  | .operator _ => true
  | lexeme => lexeme.endsPhrase

/-- What an operand may start with. -/
def startsOperand : Lexeme → Bool
  | .opening _ | .name _ | .bool _ | .int _ | .float _ _ => true
  | _ => false

/-- What a series may start with. -/
def startsSeries : Lexeme → Bool
  | .negation => true
  | lexeme => lexeme.startsOperand

/-- What a statement may start with. -/
def startsPhrase : Lexeme → Bool
  | .ifWord | .forWord => true
  | lexeme => lexeme.startsSeries

theorem not_startsPhrase (lexeme : Lexeme) (ends : lexeme.endsRow = true) :
    (!lexeme.startsPhrase) = true := by
  cases lexeme <;> first | rfl | cases ends

end Lexeme

/-- What may follow an operand of a series; an assignment takes all operators behind it. -/
def Operand.follow (o : Operand) : Lexeme → Bool :=
  if o.isAssignment then Lexeme.endsPhrase else Lexeme.endsOperand

namespace Cursor

/-- Only certain lexemes may be read here; it may be that none is. -/
def Follows (allowed : Lexeme → Bool) (c : Cursor) : Prop :=
  ∀ lexeme c', Reads lexeme c c' → allowed lexeme = true

theorem Reads.follows {lexeme : Lexeme} {allowed : Lexeme → Bool} {c c' : Cursor}
    (reads : Reads lexeme c c') (fits : allowed lexeme = true) : Follows allowed c := by
  intro other c'' reads'
  rw [(reads.unique reads').1, fits]

theorem Follows.mono {allowed allowed' : Lexeme → Bool} {c : Cursor} (follows : Follows allowed c)
    (imp : ∀ lexeme, allowed lexeme = true → allowed' lexeme = true) : Follows allowed' c :=
  fun lexeme c' reads => imp lexeme (follows lexeme c' reads)

theorem Follows.endsPhrase {c : Cursor} (follows : Follows Lexeme.endsRow c) :
    Follows Lexeme.endsPhrase c :=
  follows.mono fun lexeme => by cases lexeme <;> simp [Lexeme.endsPhrase, Lexeme.endsRow]

theorem Follows.endsOperand {c : Cursor} (follows : Follows Lexeme.endsPhrase c) :
    Follows Lexeme.endsOperand c :=
  follows.mono fun lexeme => by cases lexeme <;> simp [Lexeme.endsOperand]

theorem follows_of_nil {c : Cursor} (allowed : Lexeme → Bool) (nothing : c.rest = []) :
    Follows allowed c := by
  intro lexeme c' reads
  have shorter := reads.lt
  simp [nothing] at shorter

end Cursor

namespace Scanner

open Cursor

variable {α : Type}

/-- All that a scanner finds starts with certain lexemes. -/
def StartsWith (allowed : Lexeme → Bool) (p : Scanner α) : Prop :=
  ∀ c a c', p.find c = some (a, c') → ∃ lexeme d, Reads lexeme c d ∧ allowed lexeme = true

/-- Where something else is read a scanner refuses. -/
theorem StartsWith.refuses {allowed : Lexeme → Bool} {p : Scanner α} (starts : StartsWith allowed p)
    {c : Cursor} (follows : Follows (fun lexeme => !allowed lexeme) c) : p.find c = none := by
  rw [Option.eq_none_iff_forall_ne_some]
  rintro ⟨a, c'⟩ found
  obtain ⟨lexeme, d, reads, fits⟩ := starts _ _ _ found
  have other := follows lexeme d reads
  simp [fits] at other

/-- Where something is found nothing else is read. -/
theorem StartsWith.follows {allowed : Lexeme → Bool} {p : Scanner α} (starts : StartsWith allowed p)
    {c c' : Cursor} {a : α} (found : p.find c = some (a, c')) : Follows allowed c := by
  obtain ⟨lexeme, d, reads, fits⟩ := starts _ _ _ found
  exact reads.follows fits

section Starts

variable {S : Scanner Listing} {E : Scanner (Series Operand)} [Blind S] [Blind E]

theorem startsWith_block : StartsWith (· matches .opening .curly) (block S) := by
  intro c a c' found
  obtain ⟨c₁, _, _, _, _, opens, _⟩ := find_block.mp found
  exact ⟨_, c₁, opens, rfl⟩

theorem startsWith_call : StartsWith (· matches .name _) (call S) := by
  intro c a c' found
  obtain ⟨x, c₁, _, _, _, name, _⟩ := find_call.mp found
  exact ⟨_, c₁, name, rfl⟩

theorem startsWith_assignment : StartsWith (· matches .name _) (assignment E) := by
  intro c a c' found
  obtain ⟨x, c₁, _, _, name, _⟩ := find_assignment.mp found
  exact ⟨_, c₁, name, rfl⟩

theorem startsWith_boolean : StartsWith (· matches .bool _) boolean := by
  intro c a c' found
  obtain ⟨value, reads, _⟩ := find_boolean.mp found
  exact ⟨_, c', reads, rfl⟩

theorem startsWith_float : StartsWith (· matches .float _ _) float := by
  intro c a c' found
  obtain ⟨whole, fraction, reads, _⟩ := find_float.mp found
  exact ⟨_, c', reads, rfl⟩

/-- Digits are read where an integer stands, or a number with a point. -/
theorem startsWith_integer :
    StartsWith (fun lexeme => lexeme matches .int _ | .float _ _) integer := by
  intro c a c' found
  obtain ⟨digits, inner, _⟩ := find_integer.mp found
  cases pointed : fraction? c with
  | none => exact ⟨_, c', int_iff_reads.mp ⟨pointed, inner⟩, rfl⟩
  | some r =>
      obtain ⟨⟨whole, fraction⟩, c₁⟩ := r
      exact ⟨_, c₁, float_iff_reads.mp pointed, rfl⟩

theorem startsWith_reference : StartsWith (· matches .name _) reference := by
  intro c a c' found
  obtain ⟨x, reads, _⟩ := find_reference.mp found
  exact ⟨_, c', reads, rfl⟩

theorem startsWith_group : StartsWith (· matches .opening .round) (group E) := by
  intro c a c' found
  obtain ⟨c₁, _, _, opens, _⟩ := find_group.mp found
  exact ⟨_, c₁, opens, rfl⟩

theorem StartsWith.mono {allowed allowed' : Lexeme → Bool} {p : Scanner α}
    (starts : StartsWith allowed p)
    (imp : ∀ lexeme, allowed lexeme = true → allowed' lexeme = true) : StartsWith allowed' p := by
  intro c a c' found
  obtain ⟨lexeme, d, reads, fits⟩ := starts _ _ _ found
  exact ⟨lexeme, d, reads, imp lexeme fits⟩

theorem StartsWith.orElse {allowed : Lexeme → Bool} {p q : Scanner α} [Blind q]
    (first : StartsWith allowed p) (second : StartsWith allowed q) :
    StartsWith allowed (Scanner.orElse p q) := by
  intro c a c' found
  rw [find_orElse, Option.or_eq_some_iff] at found
  rcases found with found | ⟨-, found⟩
  · exact first _ _ _ found
  · exact second _ _ _ found

theorem startsWith_operand : StartsWith Lexeme.startsOperand (operand S E) := by
  refine .orElse (startsWith_block.mono ?_) (.orElse (startsWith_call.mono ?_)
    (.orElse (startsWith_assignment.mono ?_) (.orElse (startsWith_boolean.mono ?_)
    (.orElse (startsWith_float.mono ?_) (.orElse (startsWith_integer.mono ?_)
    (.orElse (startsWith_reference.mono ?_) (startsWith_group.mono ?_)))))))
  all_goals
    intro lexeme fits
    cases lexeme <;> first | rfl | cases fits

theorem startsWith_signed : StartsWith Lexeme.startsSeries (signed S E) := by
  intro c first c' found
  obtain ⟨row, c₁, repeats, inner, _⟩ := find_signed.mp found
  cases repeats with
  | done =>
      refine startsWith_operand.mono (fun lexeme fits => ?_) _ _ _ inner
      cases lexeme <;> first | rfl | cases fits
  | more found => exact ⟨_, _, find_negation.mp found, rfl⟩

variable [Shrinks S] [Shrinks E]

theorem startsWith_statement : StartsWith Lexeme.startsPhrase (statement S E) := by
  intro c phrase c' found
  simp only [find_statement, Option.or_eq_some_iff, Option.map_eq_some_iff] at found
  rcases found with found | ⟨-, found | ⟨-, ⟨s, c₁⟩, found, _⟩⟩
  · obtain ⟨c₁, _, _, _, _, _, word, _⟩ := find_conditional.mp found
    exact ⟨_, c₁, word, rfl⟩
  · obtain ⟨c₁, _, _, _, word, _⟩ := find_loop.mp found
    exact ⟨_, c₁, word, rfl⟩
  · obtain ⟨first, c₂, _, inner, _⟩ := find_series.mp found
    refine startsWith_signed.mono (fun lexeme fits => ?_) _ _ _ inner
    cases lexeme <;> first | rfl | cases fits

theorem startsWith_anyStatements : StartsWith Lexeme.startsPhrase anyStatements := by
  intro c row c' found
  rw [anyStatements_eq] at found
  obtain ⟨first, c₁, _, _, _, inner, _⟩ := find_listing.mp found
  exact startsWith_statement _ _ _ inner

end Starts

/-! ## Rows of one kind -/

theorem repeats_negations {c c' : Cursor} {nots : Nat}
    (spelled : Spelled (.replicate nots .negation) c c')
    (stops : Follows Lexeme.startsOperand c') :
    ∃ row, Repeats negation c row c' ∧ row.length = nots := by
  induction nots generalizing c with
  | zero =>
      cases spelled
      refine ⟨[], .done ?_, rfl⟩
      rw [Option.eq_none_iff_forall_ne_some]
      rintro ⟨_, d⟩ found
      cases stops _ _ (find_negation.mp found)
  | succ nots ih =>
      obtain ⟨c₁, reads, further⟩ := spelled
      obtain ⟨row, repeats, length⟩ := ih further
      exact ⟨() :: row, .more (find_negation.mpr reads) repeats, by simp [length]⟩

theorem repeats_moreNames {c c₁ c' : Cursor} {rest : List String}
    (spelled : Spelled (rest.flatMap fun y => [.comma, .name y]) c c₁)
    (bar : Reads .bar c₁ c') : Repeats moreNames c rest c₁ := by
  induction rest generalizing c with
  | nil =>
      cases spelled
      refine .done ?_
      rw [Option.eq_none_iff_forall_ne_some]
      rintro ⟨_, d⟩ found
      obtain ⟨_, comma, _⟩ := find_moreNames.mp found
      cases (bar.unique comma).1
  | cons x rest ih =>
      obtain ⟨c₂, first, further⟩ := spelled_append.mp spelled
      exact .more (find_moreNames.mpr first) (ih further)

theorem find_optional_parameters {c c' : Cursor} {names : List String}
    (spelled : Spelled (parameterLexemes names) c c') (stops : Follows Lexeme.startsPhrase c') :
    ∃ names', (optional parameters).find c = some (names', c') ∧ names'.getD [] = names := by
  cases names with
  | nil =>
      cases spelled
      refine ⟨none, ?_, rfl⟩
      have refused : parameters.find c = none := by
        rw [Option.eq_none_iff_forall_ne_some]
        rintro ⟨_, d⟩ found
        obtain ⟨_, _, _, _, _, bar, _⟩ := find_parameters.mp found
        cases stops _ _ bar
      rw [find_optional, refused]
  | cons x rest =>
      refine ⟨some (x :: rest), ?_, rfl⟩
      obtain ⟨c₁, bar, c₂, name, further⟩ := spelled
      obtain ⟨c₃, more, bar'⟩ := spelled_append.mp further
      rw [spelled_singleton] at bar'
      have found := find_parameters.mpr ⟨c₁, x, c₂, rest, c₃, bar, name,
        repeats_moreNames more bar', bar', rfl⟩
      rw [find_optional, found]

/-! ## Acceptance -/

section Alternatives

variable {S : Scanner Listing} {E : Scanner (Series Operand)} [Blind S] [Blind E]
  {c c' : Cursor} {o : Operand}

/-- A scanner refuses where another one finds something that starts with another lexeme. -/
theorem StartsWith.refuses_of_found {α β : Type} {allowed allowed' : Lexeme → Bool}
    {p : Scanner α} {q : Scanner β} {b : β} (starts : StartsWith allowed p)
    (starts' : StartsWith allowed' q) (found : q.find c = some (b, c'))
    (apart : ∀ lexeme, allowed' lexeme = true → allowed lexeme = false) : p.find c = none :=
  starts.refuses ((starts'.follows found).mono fun lexeme fits => by simp [apart lexeme fits])

theorem find_operand_of_block (found : (block S).find c = some (o, c')) :
    (operand S E).find c = some (o, c') := by
  simp [operand, found]

theorem find_operand_of_call (found : (call S).find c = some (o, c')) :
    (operand S E).find c = some (o, c') := by
  have noBlock := startsWith_block (S := S).refuses_of_found startsWith_call found (by grind)
  simp [operand, noBlock, found]

/-- A name that no bracket follows is not a call. -/
theorem find_call_eq_none {x : String} {c₁ : Cursor} (name : Reads (.name x) c c₁)
    (stops : Follows (fun lexeme => !lexeme matches .opening _) c₁) : (call S).find c = none := by
  rw [Option.eq_none_iff_forall_ne_some]
  rintro ⟨_, d⟩ found
  obtain ⟨y, d₁, d₂, _, _, name', opens, _⟩ := find_call.mp found
  obtain ⟨-, rfl⟩ := name.unique name'
  cases stops _ _ opens

/-- A name that no `=` follows is not assigned to. -/
theorem find_assignment_eq_none {x : String} {c₁ : Cursor} (name : Reads (.name x) c c₁)
    (stops : Follows (fun lexeme => !lexeme matches .equals) c₁) :
    (assignment E).find c = none := by
  rw [Option.eq_none_iff_forall_ne_some]
  rintro ⟨_, d⟩ found
  obtain ⟨y, d₁, d₂, _, name', equals, _⟩ := find_assignment.mp found
  obtain ⟨-, rfl⟩ := name.unique name'
  cases stops _ _ equals

theorem find_operand_of_assignment (found : (assignment E).find c = some (o, c')) :
    (operand S E).find c = some (o, c') := by
  have noBlock := startsWith_block (S := S).refuses_of_found startsWith_assignment found (by grind)
  obtain ⟨x, c₁, c₂, value, name, equals, _, _⟩ := find_assignment.mp found
  have noCall : (call S).find c = none := find_call_eq_none name (equals.follows rfl)
  simp [operand, noBlock, noCall, found]

theorem find_operand_of_boolean (found : boolean.find c = some (o, c')) :
    (operand S E).find c = some (o, c') := by
  have noBlock := startsWith_block (S := S).refuses_of_found startsWith_boolean found (by grind)
  have noCall := startsWith_call (S := S).refuses_of_found startsWith_boolean found (by grind)
  have noAssignment :=
    startsWith_assignment (E := E).refuses_of_found startsWith_boolean found (by grind)
  simp [operand, noBlock, noCall, noAssignment, found]

theorem find_operand_of_number (found : (orElse float integer).find c = some (o, c')) :
    (operand S E).find c = some (o, c') := by
  have starts := (startsWith_float.mono (by grind)).orElse startsWith_integer
  have noBlock := startsWith_block (S := S).refuses_of_found starts found (by grind)
  have noCall := startsWith_call (S := S).refuses_of_found starts found (by grind)
  have noAssignment := startsWith_assignment (E := E).refuses_of_found starts found (by grind)
  have noBoolean := startsWith_boolean.refuses_of_found starts found (by grind)
  rw [find_orElse, Option.or_eq_some_iff] at found
  rcases found with found | ⟨noFloat, found⟩
  · simp [operand, noBlock, noCall, noAssignment, noBoolean, found]
  · simp [operand, noBlock, noCall, noAssignment, noBoolean, noFloat, found]

theorem find_operand_of_reference {x : String} (name : Reads (.name x) c c')
    (stops : Follows Lexeme.endsOperand c') :
    (operand S E).find c = some (.var x, c') := by
  have found : reference.find c = some (.var x, c') := find_reference.mpr ⟨x, name, rfl⟩
  have starts := startsWith_reference
  have noBlock := startsWith_block (S := S).refuses_of_found starts found (by grind)
  have noCall : (call S).find c = none :=
    find_call_eq_none name
      (stops.mono fun lexeme fits => by cases lexeme <;> first | rfl | cases fits)
  have noAssignment : (assignment E).find c = none :=
    find_assignment_eq_none name
      (stops.mono fun lexeme fits => by cases lexeme <;> first | rfl | cases fits)
  have noBoolean := startsWith_boolean.refuses_of_found starts found (by grind)
  have noFloat := startsWith_float.refuses_of_found starts found (by grind)
  have noInteger := startsWith_integer.refuses_of_found starts found (by grind)
  simp [operand, noBlock, noCall, noAssignment, noBoolean, noFloat, noInteger, found]

theorem find_operand_of_group (found : (group E).find c = some (o, c')) :
    (operand S E).find c = some (o, c') := by
  have starts := startsWith_group (E := E)
  have noBlock := startsWith_block (S := S).refuses_of_found starts found (by grind)
  have noCall := startsWith_call (S := S).refuses_of_found starts found (by grind)
  have noAssignment := startsWith_assignment (E := E).refuses_of_found starts found (by grind)
  have noBoolean := startsWith_boolean.refuses_of_found starts found (by grind)
  have noFloat := startsWith_float.refuses_of_found starts found (by grind)
  have noInteger := startsWith_integer.refuses_of_found starts found (by grind)
  have noReference := startsWith_reference.refuses_of_found starts found (by grind)
  simp [operand, noBlock, noCall, noAssignment, noBoolean, noFloat, noInteger, noReference, found]

theorem find_link_eq_none (stops : Follows Lexeme.endsPhrase c) : (link S E).find c = none := by
  rw [Option.eq_none_iff_forall_ne_some]
  rintro ⟨⟨op, next⟩, d⟩ found
  obtain ⟨_, reads, _⟩ := find_link.mp found
  cases stops _ _ reads

variable [Shrinks S] [Shrinks E] {phrase : Phrase}

theorem find_statement_of_conditional (found : (conditional S).find c = some (phrase, c')) :
    (statement S E).find c = some (phrase, c') := by
  simp [find_statement, found]

theorem find_statement_of_loop (found : (loop S).find c = some (phrase, c')) :
    (statement S E).find c = some (phrase, c') := by
  have noConditional : (conditional S).find c = none := by
    rw [Option.eq_none_iff_forall_ne_some]
    rintro ⟨_, d⟩ found'
    obtain ⟨_, _, _, _, word, _⟩ := find_loop.mp found
    obtain ⟨_, _, _, _, _, _, word', _⟩ := find_conditional.mp found'
    cases (word.unique word').1
  simp [find_statement, noConditional, found]

theorem find_statement_of_series {s : Series Operand}
    (found : (series S E).find c = some (s, c')) :
    (statement S E).find c = some (.expression s, c') := by
  obtain ⟨first, c₁, _, inner, _⟩ := find_series.mp found
  have starts := startsWith_signed.follows inner
  have noConditional : (conditional S).find c = none := by
    rw [Option.eq_none_iff_forall_ne_some]
    rintro ⟨_, d⟩ found'
    obtain ⟨_, _, _, _, _, _, word, _⟩ := find_conditional.mp found'
    cases starts _ _ word
  have noLoop : (loop S).find c = none := by
    rw [Option.eq_none_iff_forall_ne_some]
    rintro ⟨_, d⟩ found'
    obtain ⟨_, _, _, _, word, _⟩ := find_loop.mp found'
    cases starts _ _ word
  simp [find_statement, noConditional, noLoop, found]

end Alternatives

/-! ## The whole grammar -/

section Whole

variable {c c₁ c' : Cursor}

theorem exists_between {row : List Phrase} {bracket : Bracket}
    (inner : ∀ {d d' : Cursor}, Across (Ended (rowLanguage row)) d d' → Follows Lexeme.endsRow d' →
      ∃ found, anyStatements.find d = some (found, d') ∧ plainRow found.phrases = plainRow row)
    (across : Across (Enclosed bracket (Ended (rowLanguage row))) c c') :
    ∃ found, Between anyStatements bracket found c c' ∧ plainRow found.phrases = plainRow row := by
  obtain ⟨c₁, c₂, opens, inside, closes⟩ := across_enclosed.mp across
  obtain ⟨found, listed, same⟩ := inner inside (closes.follows rfl)
  exact ⟨found, ⟨c₁, c₂, opens, listed, closes⟩, same⟩

theorem find_optional_elsePart_eq (stops : Follows Lexeme.endsPhrase c) :
    (optional (elsePart anyStatements)).find c = some (none, c) := by
  have refused : (elsePart anyStatements).find c = none := by
    rw [Option.eq_none_iff_forall_ne_some]
    rintro ⟨_, d⟩ found
    obtain ⟨_, word, _⟩ := find_elsePart.mp found
    cases stops _ _ word
  rw [find_optional, refused]

theorem follows_of_repeats {row : List Phrase}
    (repeats : Repeats (furtherStatement anyStatements anyExpression) c row c')
    (stops : Follows Lexeme.endsPhrase c') : Follows Lexeme.endsPhrase c := by
  cases repeats with
  | done => exact stops
  | more found =>
      obtain ⟨_, semicolon, _⟩ := find_furtherStatement.mp found
      exact semicolon.follows rfl

/-- Behind a row of statements there is no further one, and the `;` there ends the row. -/
theorem find_end_of_row (last : c' = c₁ ∨ Reads .semicolon c₁ c')
    (stops : Follows Lexeme.endsRow c') :
    (furtherStatement anyStatements anyExpression).find c₁ = none ∧
      Follows Lexeme.endsPhrase c₁ ∧
      ∃ ended, (optional terminator).find c₁ = some (ended, c') := by
  rcases last with rfl | semicolon
  · have apart (d : Cursor) : ¬Reads .semicolon c' d := fun reads => nomatch stops _ _ reads
    refine ⟨?_, stops.endsPhrase, none, ?_⟩
    · rw [Option.eq_none_iff_forall_ne_some]
      rintro ⟨_, d⟩ found
      obtain ⟨_, reads, _⟩ := find_furtherStatement.mp found
      exact apart _ reads
    · have refused : terminator.find c' = none := by
        rw [Option.eq_none_iff_forall_ne_some]
        rintro ⟨_, d⟩ found
        exact apart _ (find_terminator.mp found).1
      rw [find_optional, refused]
  · refine ⟨?_, semicolon.follows rfl, some (c₁.pos + 1), ?_⟩
    · rw [Option.eq_none_iff_forall_ne_some]
      rintro ⟨_, d⟩ found
      obtain ⟨c₂, reads, inner⟩ := find_furtherStatement.mp found
      obtain ⟨-, rfl⟩ := semicolon.unique reads
      rw [startsWith_statement.refuses (stops.mono Lexeme.not_startsPhrase)] at inner
      cases inner
    · rw [find_optional, find_terminator.mpr ⟨semicolon, rfl⟩]

theorem follow_of_endsPhrase {o : Operand} (stops : Follows Lexeme.endsPhrase c) :
    Follows o.follow c := by
  unfold Operand.follow
  split
  · exact stops
  · exact stops.endsOperand

theorem find_signed_of_spelled {nots : Nat} {o : Operand}
    (spelled : Spelled (.replicate nots .negation) c c₁)
    (found : (operand anyStatements anyExpression).find c₁ = some (o, c')) :
    (signed anyStatements anyExpression).find c = some ((nots, o), c') := by
  obtain ⟨row, repeats, rfl⟩ := repeats_negations spelled (startsWith_operand.follows found)
  exact find_signed.mpr ⟨row, c₁, repeats, found, rfl⟩

end Whole

mutual
/-- A statement is found where it is written. -/
theorem exists_statement : ∀ (phrase : Phrase) {c c' : Cursor}, Across phrase.language c c' →
    Follows Lexeme.endsPhrase c' →
    ∃ found, (statement anyStatements anyExpression).find c = some (found, c') ∧
      found.plain = phrase.plain
  | .branch test yes, c, c', across, stops => by
      simp only [Phrase.language, across_mul, across_singleton, spelled_singleton] at across
      obtain ⟨c₂, ⟨c₁, word, across⟩, across'⟩ := across
      obtain ⟨test', between, same⟩ := exists_between (exists_row test) across
      obtain ⟨yes', between', same'⟩ := exists_between (exists_row yes) across'
      have found := find_conditional.mpr ⟨c₁, test', c₂, yes', c', none, word, between, between',
        find_optional_elsePart_eq stops, rfl⟩
      exact ⟨_, find_statement_of_conditional found, by
        simp [conditionalOf, Phrase.plain, same, same']⟩
  | .branchElse test yes no, c, c', across, stops => by
      simp only [Phrase.language, across_mul, across_singleton, spelled_singleton] at across
      obtain ⟨c₄, ⟨c₃, ⟨c₂, ⟨c₁, word, across⟩, across'⟩, word'⟩, across''⟩ := across
      obtain ⟨test', between, same⟩ := exists_between (exists_row test) across
      obtain ⟨yes', between', same'⟩ := exists_between (exists_row yes) across'
      obtain ⟨no', between'', same''⟩ := exists_between (exists_row no) across''
      have otherwise := find_elsePart.mpr ⟨c₄, word', between''⟩
      have found := find_conditional.mpr ⟨c₁, test', c₂, yes', c₃, some no', word, between,
        between', by rw [find_optional, otherwise], rfl⟩
      exact ⟨_, find_statement_of_conditional found, by
        simp [conditionalOf, Phrase.plain, same, same', same'']⟩
  | .loop header place body, c, c', across, stops => by
      simp only [Phrase.language, across_mul, across_singleton, spelled_singleton] at across
      obtain ⟨c₂, ⟨c₁, word, across⟩, across'⟩ := across
      obtain ⟨header', between, same⟩ := exists_between (exists_row header) across
      obtain ⟨body', between', same'⟩ := exists_between (exists_row body) across'
      have found := find_loop.mpr ⟨c₁, header', c₂, body', word, between, between', rfl⟩
      exact ⟨_, find_statement_of_loop found, by simp [Phrase.plain, same, same']⟩
  | .expression s, c, c', across, stops => by
      obtain ⟨found, inner, same⟩ := exists_series s across stops
      exact ⟨.expression found, find_statement_of_series inner, by simp [Phrase.plain, same]⟩

/-- A row of statements is found where it is written. -/
theorem exists_row : ∀ (row : List Phrase) {c c' : Cursor}, Across (Ended (rowLanguage row)) c c' →
    Follows Lexeme.endsRow c' →
    ∃ found, anyStatements.find c = some (found, c') ∧ plainRow found.phrases = plainRow row
  | [], c, c', across, _ => by
      obtain ⟨_, absent, _⟩ := across_ended.mp across
      exact absurd absent across_zero
  | phrase :: rest, c, c', across, stops => by
      obtain ⟨c₂, across, last⟩ := across_ended.mp across
      obtain ⟨c₁, first, further⟩ := across_mul.mp across
      obtain ⟨refused, stops', ended, terminated⟩ := find_end_of_row last stops
      obtain ⟨rest', repeats, same⟩ := exists_rest rest further stops' refused
      obtain ⟨first', inner, same'⟩ :=
        exists_statement phrase first (follows_of_repeats repeats stops')
      have found := find_listing.mpr ⟨first', c₁, rest', c₂, ended, inner, repeats, terminated, rfl⟩
      rw [← anyStatements_eq] at found
      exact ⟨_, found, by simp [plainRow, same, same']⟩

/-- Further statements are found where they are written. -/
theorem exists_rest : ∀ (row : List Phrase) {c c' : Cursor}, Across (restLanguage row) c c' →
    Follows Lexeme.endsPhrase c' →
    (furtherStatement anyStatements anyExpression).find c' = none →
    ∃ found, Repeats (furtherStatement anyStatements anyExpression) c found c' ∧
      plainRow found = plainRow row
  | [], c, c', across, _, last => by
      cases across_one.mp across
      exact ⟨[], .done last, rfl⟩
  | phrase :: rest, c, c', across, stops, last => by
      simp only [restLanguage, across_mul, across_singleton, spelled_singleton] at across
      obtain ⟨c₂, ⟨c₁, semicolon, first⟩, further⟩ := across
      obtain ⟨rest', repeats, same⟩ := exists_rest rest further stops last
      obtain ⟨first', inner, same'⟩ :=
        exists_statement phrase first (follows_of_repeats repeats stops)
      have found := find_furtherStatement.mpr ⟨c₁, semicolon, inner⟩
      exact ⟨first' :: rest', .more found repeats, by simp [plainRow, same, same']⟩

/-- A series is found where it is written. -/
theorem exists_series : ∀ (s : Series Operand) {c c' : Cursor}, Across (seriesLanguage s) c c' →
    Follows Lexeme.endsPhrase c' →
    ∃ found, (series anyStatements anyExpression).find c = some (found, c') ∧
      plainSeries found = plainSeries s
  | .last nots o, c, c', across, stops => by
      simp only [seriesLanguage, across_mul, across_singleton] at across
      obtain ⟨c₁, negations, across⟩ := across
      obtain ⟨o', found, same⟩ := exists_operand o across (follow_of_endsPhrase stops)
      have first := find_signed_of_spelled negations found
      have found := find_series.mpr ⟨_, c', [], first, .done (find_link_eq_none stops), rfl⟩
      exact ⟨_, found, by simp [Series.ofLinks, plainSeries, same]⟩
  | .link nots o op rest, c, c', across, stops => by
      rw [seriesLanguage] at across
      split at across
      · exact absurd across across_zero
      · rename_i free
        simp only [across_mul, across_singleton, spelled_singleton] at across
        obtain ⟨c₃, ⟨c₂, ⟨c₁, negations, across⟩, reads⟩, further⟩ := across
        obtain ⟨o', found, same⟩ := exists_operand o across
          (by simpa [Operand.follow, free] using reads.follows rfl)
        have first := find_signed_of_spelled negations found
        obtain ⟨rest', found', same'⟩ := exists_series rest further stops
        obtain ⟨next, c₄, links, second, repeats, rfl⟩ := find_series.mp found'
        have linked := find_link.mpr ⟨c₃, reads, second⟩
        have found := find_series.mpr ⟨_, c₂, (op, next) :: links, first, .more linked repeats, rfl⟩
        exact ⟨_, found, by simp [Series.ofLinks, plainSeries, same, same']⟩

/-- An operand is found where it is written. -/
theorem exists_operand : ∀ (o : Operand) {c c' : Cursor}, Across o.language c c' →
    Follows o.follow c' →
    ∃ found, (operand anyStatements anyExpression).find c = some (found, c') ∧
      found.plain = o.plain
  | .block parameters body, c, c', across, _ => by
      obtain ⟨c₁, c₃, opens, inside, closes⟩ := across_enclosed.mp across
      obtain ⟨c₂, named, inside⟩ := across_mul.mp inside
      obtain ⟨row, found, same⟩ := exists_row body inside (closes.follows rfl)
      obtain ⟨names, found', same'⟩ := find_optional_parameters (across_singleton.mp named)
        (startsWith_anyStatements.follows found)
      have inner := find_block.mpr ⟨c₁, names, c₂, row, c₃, opens, found', found, closes, rfl⟩
      exact ⟨_, find_operand_of_block inner, by simp [Operand.plain, same, same']⟩
  | .call name arguments, c, c', across, _ => by
      simp only [Operand.language, across_mul, across_singleton, spelled_singleton,
        across_enclosed, across_add] at across
      obtain ⟨c₁, reads, c₂, c₃, opens, inside, closes⟩ := across
      have found : ∃ row, (optional anyStatements).find c₂ = some (row, c₃) ∧
          plainRow ((row.map Listing.phrases).getD []) = plainRow arguments := by
        rcases inside with inside | inside
        · split at inside
          · rename_i empty
            cases across_one.mp inside
            have refused := startsWith_anyStatements.refuses
              ((closes.follows rfl : Follows Lexeme.endsRow c₂).mono Lexeme.not_startsPhrase)
            refine ⟨none, by rw [find_optional, refused], ?_⟩
            rw [List.isEmpty_iff.mp empty]
            rfl
          · exact absurd inside across_zero
        · obtain ⟨row, found, same⟩ := exists_row arguments inside (closes.follows rfl)
          exact ⟨some row, by rw [find_optional, found], same⟩
      obtain ⟨row, found, same⟩ := found
      have inner := find_call.mpr ⟨name, c₁, c₂, row, c₃, reads, opens, found, closes, rfl⟩
      exact ⟨_, find_operand_of_call inner, by simp [Operand.plain, same]⟩
  | .assign name value, c, c', across, stops => by
      obtain ⟨c₂, ⟨c₁, reads, _, equals, rfl⟩, across⟩ := by
        simpa only [Operand.language, across_mul, across_singleton] using across
      obtain ⟨found, inner, same⟩ := exists_series value across stops
      rw [← anyExpression_eq] at inner
      have assigned := find_assignment.mpr ⟨name, c₁, c₂, found, reads, equals, inner, rfl⟩
      exact ⟨_, find_operand_of_assignment assigned, by simp [Operand.plain, same]⟩
  | .bool value, c, c', across, _ => by
      rw [Operand.language, across_singleton, spelled_singleton] at across
      exact ⟨_, find_operand_of_boolean (find_boolean.mpr ⟨value, across, rfl⟩), rfl⟩
  | .float whole fraction, c, c', across, _ => by
      rw [Operand.language, across_singleton, spelled_singleton] at across
      have found := find_float.mpr ⟨whole, fraction, across, rfl⟩
      refine ⟨_, find_operand_of_number ?_, rfl⟩
      rw [find_orElse, found]
      rfl
  | .int digits place, c, c', across, _ => by
      rw [Operand.language, across_singleton, spelled_singleton] at across
      obtain ⟨whole, found⟩ := int_iff_reads.mpr across
      have found := find_integer.mpr ⟨digits, found, rfl⟩
      refine ⟨.int digits ⟨c.pos, c.pos + digits.length⟩, find_operand_of_number ?_, rfl⟩
      rw [find_orElse, find_float_eq_none.mpr whole, found]
      rfl
  | .var name, c, c', across, stops => by
      rw [Operand.language, across_singleton, spelled_singleton] at across
      exact ⟨_, find_operand_of_reference across stops, rfl⟩
  | .group s, c, c', across, _ => by
      obtain ⟨c₁, c₂, opens, inside, closes⟩ := across_enclosed.mp across
      obtain ⟨found, inner, same⟩ := exists_series s inside (closes.follows rfl)
      rw [← anyExpression_eq] at inner
      have grouped := find_group.mpr ⟨c₁, found, c₂, opens, inner, closes, rfl⟩
      exact ⟨_, find_operand_of_group grouped, by simp [Operand.plain, same]⟩
end

/-! ## Whole texts -/

theorem find_program {depth : Nat} {text : List Char} {phrases : List Phrase} {c' : Cursor}
    (enough : text.length < depth) :
    (program depth).find (start text) = some (phrases, c') ↔
      ∃ row, anyStatements.find (start text).skipGap = some (row, c') ∧ c'.rest = [] ∧
        phrases = row.phrases := by
  have short : (start text).skipGap.rest.length < depth := by
    rw [skipGap_eq]
    exact Nat.lt_of_le_of_lt (List.length_dropWhile_le ..) enough
  have same : (statements depth).find (start text).skipGap =
      anyStatements.find (start text).skipGap := by
    rw [find, statements_eq _ short]
    rfl
  simp only [program, endOfInput, find_named, find_bind_iff, find_ofStep, find_pure_iff, finish?]
  constructor
  · rintro ⟨_, _, landed, row, c₁, found, _, _, ended, rfl, rfl⟩
    cases landed
    split at ended
    · rename_i ended
      cases ended
      exact ⟨row, same ▸ found, List.isEmpty_iff.mp ended, rfl⟩
    · cases ended
  · rintro ⟨row, found, nothing, rfl⟩
    exact ⟨(), _, rfl, row, c', same ▸ found, (), c', by simp [nothing], rfl, rfl⟩

end Scanner

theorem readPhrases_eq_ok_iff {text : List Char} {phrases : List Phrase} :
    readPhrases text = .ok phrases ↔
      ∃ row c', Scanner.anyStatements.find (Cursor.start text).skipGap = some (row, c') ∧
        c'.rest = [] ∧ phrases = row.phrases := by
  have read : readPhrases text = .ok phrases ↔
      ∃ c', (Scanner.program (text.length + 1)).find (.start text) = some (phrases, c') := by
    unfold readPhrases Scanner.find
    split
    · rename_i phrases' c' t found
      simp [found]
    · rename_i t found
      simp [found]
  simp only [read, Scanner.find_program (Nat.lt_succ_self text.length)]
  grind

/-- A text is read as lexemes, with white space before, between and behind them. -/
def ReadsAs (text : List Char) (lexemes : List Lexeme) : Prop :=
  ∃ pos, Cursor.Spelled lexemes (Cursor.start text).skipGap ⟨[], pos⟩

/-- **A program that is read from a text is written there.** -/
theorem exists_readsAs {text : List Char} {phrases : List Phrase}
    (read : readPhrases text = .ok phrases) :
    ∃ lexemes ∈ Ended (rowLanguage phrases), ReadsAs text lexemes := by
  obtain ⟨row, ⟨rest, pos⟩, found, rfl, rfl⟩ := readPhrases_eq_ok_iff.mp read
  obtain ⟨lexemes, member, spelled⟩ := (Scanner.soundAt _).1 row _ found
  exact ⟨lexemes, member, pos, spelled⟩

/-- **A program that is written in a text is read from it**, but for the places in it. -/
theorem exists_readPhrases {text : List Char} {phrases : List Phrase} {lexemes : List Lexeme}
    (member : lexemes ∈ Ended (rowLanguage phrases)) (reads : ReadsAs text lexemes) :
    ∃ phrases', readPhrases text = .ok phrases' ∧ plainRow phrases' = plainRow phrases := by
  obtain ⟨pos, spelled⟩ := reads
  obtain ⟨row, found, same⟩ := Scanner.exists_row phrases ⟨lexemes, member, spelled⟩
    (Cursor.follows_of_nil _ rfl)
  exact ⟨row.phrases, readPhrases_eq_ok_iff.mpr ⟨row, _, found, rfl, rfl⟩, same⟩

/-! ## Places do not matter for the tree -/

section Trees

variable {ε α β : Type}

theorem toOption_bind (x : Except ε α) (f : α → Except ε β) :
    (x >>= f).toOption = x.toOption.bind fun a => (f a).toOption := by
  cases x <;> rfl

theorem bind_eq_ok_iff {x : Except ε α} {f : α → Except ε β} {b : β} :
    (x >>= f) = .ok b ↔ ∃ a, x = .ok a ∧ f a = .ok b := by
  cases x <;> simp [bind, Except.bind]

theorem bind_eq_error_iff {x : Except ε α} {f : α → Except ε β} {e : ε} :
    (x >>= f) = .error e ↔ x = .error e ∨ ∃ a, x = .ok a ∧ f a = .error e := by
  cases x <;> simp [bind, Except.bind]

theorem pure_eq_ok_iff {a b : α} : (pure a : Except ε α) = .ok b ↔ b = a := by
  simp [pure, Except.pure, eq_comm]

theorem toOption_eq_some_iff {x : Except ε α} {a : α} : x.toOption = some a ↔ x = .ok a := by
  cases x <;> simp [Except.toOption]

theorem exists_of_isOk {x : Except ε α} (ok : x.isOk = true) : ∃ a, x = .ok a := by
  cases x with
  | ok a => exact ⟨a, rfl⟩
  | error e => cases ok

end Trees

theorem toOption_integerNode (digits : List Char) (place place' : Span) :
    (integerNode digits place).toOption = (integerNode digits place').toOption := by
  simp only [integerNode]
  split <;> rfl

theorem toOption_loopNode (header : List (Node Unit)) (place place' : Span)
    {body body' : Except SourceError (List (Node Unit))} (same : body.toOption = body'.toOption) :
    (loopNode header place body).toOption = (loopNode header place' body').toOption := by
  unfold loopNode
  split
  · simp only [toOption_bind, same]
  · rfl

mutual
theorem toOption_node : ∀ phrase : Phrase, phrase.plain.node.toOption = phrase.node.toOption
  | .branch test yes => by
      simp only [Phrase.plain, Phrase.node, toOption_bind, toOption_nodes]
  | .branchElse test yes no => by
      simp only [Phrase.plain, Phrase.node, toOption_bind, toOption_nodes]
  | .loop header place body => by
      simp only [Phrase.plain, Phrase.node, toOption_bind, toOption_nodes,
        toOption_loopNode _ ⟨0, 0⟩ place (toOption_nodes body)]
  | .expression series => by
      simp only [Phrase.plain, Phrase.node, toOption_bind, toOption_seriesNodes]

theorem toOption_nodes : ∀ row : List Phrase, (nodes (plainRow row)).toOption = (nodes row).toOption
  | [] => rfl
  | phrase :: rest => by
      simp only [plainRow, nodes, toOption_bind, toOption_node, toOption_nodes]

theorem toOption_seriesNodes : ∀ series : Series Operand,
    (seriesNodes (plainSeries series)).toOption = (seriesNodes series).toOption
  | .last nots operand => by
      simp only [plainSeries, seriesNodes, toOption_bind, toOption_operandNode]
  | .link nots operand op rest => by
      simp only [plainSeries, seriesNodes, toOption_bind, toOption_operandNode,
        toOption_seriesNodes]

theorem toOption_operandNode : ∀ operand : Operand,
    operand.plain.node.toOption = operand.node.toOption
  | .block parameters body => by
      simp only [Operand.plain, Operand.node, toOption_bind, toOption_nodes]
  | .call name arguments => by
      simp only [Operand.plain, Operand.node, toOption_bind, toOption_nodes]
  | .assign name value => by
      simp only [Operand.plain, Operand.node, toOption_bind, toOption_seriesNodes]
  | .bool _ | .float _ _ | .var _ => rfl
  | .int digits place => toOption_integerNode digits ⟨0, 0⟩ place
  | .group series => by
      simp only [Operand.plain, Operand.node, toOption_bind, toOption_seriesNodes]
end

/-- Phrases that differ only in their places have the same trees. -/
theorem nodes_eq_ok_of_plain {row row' : List Phrase} {trees : List (Node Unit)}
    (same : plainRow row = plainRow row') (made : nodes row' = .ok trees) :
    nodes row = .ok trees := by
  rw [← toOption_eq_some_iff, ← toOption_nodes] at made ⊢
  rw [same, made]

end BlockScript
