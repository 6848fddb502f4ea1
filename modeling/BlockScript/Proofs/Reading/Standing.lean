import BlockScript.Proofs.Reading.Views

/-!
# Where phrases stand

A phrase remembers the places of two kinds of its parts: those of the integers and those of the
headers of loops.  A phrase stands between two places of a text (`Phrase.Stands`) if it is
written there and if the places that it remembers are the places of those parts.

The header of a loop takes the place from its first statement up to the bracket behind it, unless
a `;` ends it: then it goes up to that `;`, and white space behind the `;` is left out
(`Cursor.TerminatedAt`).

The scanners find phrases where they stand (`Scanner.standsAt`).
-/

set_option autoImplicit false

namespace BlockScript

namespace Cursor

/-- Something between brackets. -/
def Framed (bracket : Bracket) (inside : Cursor → Cursor → Prop) (c c' : Cursor) : Prop :=
  ∃ c₁ c₂, Reads (.opening bracket) c c₁ ∧ inside c₁ c₂ ∧ Reads (.closing bracket) c₂ c'

/-- Something that may end in a `;`, and the place that it takes. -/
def TerminatedAt (place : Span) (row : Cursor → Cursor → Prop) (c c' : Cursor) : Prop :=
  ∃ c₁, row c c₁ ∧
    (c' = c₁ ∧ place = ⟨c.pos, c₁.pos⟩ ∨
      Reads .semicolon c₁ c' ∧ place = ⟨c.pos, c₁.pos + 1⟩)

/-- Something that may end in a `;`. -/
def Terminated (row : Cursor → Cursor → Prop) (c c' : Cursor) : Prop :=
  ∃ place, TerminatedAt place row c c'

end Cursor

open Cursor

/-- The parameters of a block; nothing is written if there are none. -/
def parameterLexemes : List String → List Lexeme
  | [] => []
  | x :: rest => .bar :: .name x :: (rest.flatMap fun y => [.comma, .name y]) ++ [.bar]

/-- Whether an operand takes all the rest of the series that it stands in. -/
def Operand.isAssignment : Operand → Bool
  | .assign .. => true
  | _ => false

mutual
/-- A statement stands between two places. -/
def Phrase.Stands : Phrase → Cursor → Cursor → Prop
  | .branch test yes => fun c c' => ∃ c₁ c₂, Reads .ifWord c c₁ ∧
      Framed .round (Terminated (RowStands test)) c₁ c₂ ∧
      Framed .curly (Terminated (RowStands yes)) c₂ c'
  | .branchElse test yes no => fun c c' => ∃ c₁ c₂ c₃ c₄, Reads .ifWord c c₁ ∧
      Framed .round (Terminated (RowStands test)) c₁ c₂ ∧
      Framed .curly (Terminated (RowStands yes)) c₂ c₃ ∧ Reads .elseWord c₃ c₄ ∧
      Framed .curly (Terminated (RowStands no)) c₄ c'
  | .loop header place body => fun c c' => ∃ c₁ c₂, Reads .forWord c c₁ ∧
      Framed .round (TerminatedAt place (RowStands header)) c₁ c₂ ∧
      Framed .curly (Terminated (RowStands body)) c₂ c'
  | .expression series => SeriesStands series

/-- Statements stand in a row with `;` between them. -/
def RowStands : List Phrase → Cursor → Cursor → Prop
  | [] => fun _ _ => False
  | phrase :: rest => fun c c' => ∃ c₁, phrase.Stands c c₁ ∧ RestStands rest c₁ c'

/-- Statements stand in a row, each behind a `;`. -/
def RestStands : List Phrase → Cursor → Cursor → Prop
  | [] => fun c c' => c' = c
  | phrase :: rest => fun c c' => ∃ c₁ c₂, Reads .semicolon c c₁ ∧ phrase.Stands c₁ c₂ ∧
      RestStands rest c₂ c'

/-- A series stands between two places. -/
def SeriesStands : Series Operand → Cursor → Cursor → Prop
  | .last nots operand => fun c c' => ∃ c₁, Spelled (.replicate nots .negation) c c₁ ∧
      operand.Stands c₁ c'
  | .link nots operand op rest => fun c c' => operand.isAssignment = false ∧
      ∃ c₁ c₂ c₃, Spelled (.replicate nots .negation) c c₁ ∧ operand.Stands c₁ c₂ ∧
        Reads (.operator op) c₂ c₃ ∧ SeriesStands rest c₃ c'

/-- An operand stands between two places. -/
def Operand.Stands : Operand → Cursor → Cursor → Prop
  | .block parameters body => Framed .curly fun d d' =>
      ∃ d₁, Spelled (parameterLexemes parameters) d d₁ ∧ Terminated (RowStands body) d₁ d'
  | .call name arguments => fun c c' => ∃ c₁, Reads (.name name) c c₁ ∧
      Framed .round
        (fun d d' => arguments = [] ∧ d' = d ∨ Terminated (RowStands arguments) d d') c₁ c'
  | .assign name value => fun c c' => ∃ c₁ c₂, Reads (.name name) c c₁ ∧ Reads .equals c₁ c₂ ∧
      SeriesStands value c₂ c'
  | .bool value => Reads (.bool value)
  | .float whole fraction => Reads (.float whole fraction)
  | .int digits place => fun c c' =>
      Reads (.int digits) c c' ∧ place = ⟨c.pos, c.pos + digits.length⟩
  | .var name => Reads (.name name)
  | .group series => Framed .round (SeriesStands series)
end

/-! ## What is found stands where it is found -/

namespace Scanner

theorem spelled_moreNames {c c' : Cursor} {rest : List String}
    (repeats : Repeats moreNames c rest c') :
    Spelled (rest.flatMap fun y => [.comma, .name y]) c c' := by
  induction repeats with
  | done => rfl
  | more found _ ih => exact (find_moreNames.mp found).append ih

theorem spelled_optional_parameters {c c' : Cursor} {names : Option (List String)}
    (found : (optional parameters).find c = some (names, c')) :
    Spelled (parameterLexemes (names.getD [])) c c' := by
  rw [find_optional] at found
  split at found
  · rename_i names c₁ inner
    cases found
    obtain ⟨c₂, x, c₃, rest, c₄, bar, name, more, bar', rfl⟩ := find_parameters.mp inner
    refine ⟨c₂, bar, c₃, name, (spelled_moreNames more).append ?_⟩
    exact spelled_singleton.mpr bar'
  · cases found
    rfl

theorem spelled_negations {c c' : Cursor} {row : List Unit} (repeats : Repeats negation c row c') :
    Spelled (.replicate row.length .negation) c c' := by
  induction repeats with
  | done => rfl
  | more found _ ih => exact ⟨_, find_negation.mp found, ih⟩

theorem Between.le {bracket : Bracket} {inner : Listing} {d d' : Cursor}
    (between : Between anyStatements bracket inner d d') : d'.rest.length ≤ d.rest.length := by
  obtain ⟨d₁, d₂, opens, found, closes⟩ := between
  have := opens.lt
  have := closes.lt
  have := Shrinks.le (t := .empty) found
  omega

/-- What is found here stands here. -/
def StandsAt (c : Cursor) : Prop :=
  (∀ row c', anyStatements.find c = some (row, c') →
    TerminatedAt row.span (RowStands row.phrases) c c') ∧
  ∀ series c', anyExpression.find c = some (series, c') → SeriesStands series c c'

section Standing

variable {c : Cursor} (below : ∀ d : Cursor, d.rest.length < c.rest.length → StandsAt d)
include below

theorem framed_between {bracket : Bracket} {inner : Listing} {d d' : Cursor}
    (between : Between anyStatements bracket inner d d')
    (within : d.rest.length ≤ c.rest.length) :
    Framed bracket (TerminatedAt inner.span (RowStands inner.phrases)) d d' := by
  obtain ⟨d₁, d₂, opens, found, closes⟩ := between
  have shorter := opens.lt
  exact ⟨d₁, d₂, opens, (below d₁ (by omega)).1 inner d₂ found, closes⟩

theorem framed_between_terminated {bracket : Bracket} {inner : Listing} {d d' : Cursor}
    (between : Between anyStatements bracket inner d d')
    (within : d.rest.length ≤ c.rest.length) :
    Framed bracket (Terminated (RowStands inner.phrases)) d d' := by
  obtain ⟨d₁, d₂, opens, terminated, closes⟩ := framed_between below between within
  exact ⟨d₁, d₂, opens, ⟨inner.span, terminated⟩, closes⟩

theorem stands_operand {o : Operand} {d d' : Cursor} (within : d.rest.length ≤ c.rest.length)
    (found : (operand anyStatements anyExpression).find d = some (o, d')) :
    o.Stands d d' ∧
      (o.isAssignment = true → (link anyStatements anyExpression).find d' = none) := by
  have other {p : Prop} (assigns : false = true) : p := absurd assigns Bool.false_ne_true
  simp only [operand, find_orElse, Option.or_eq_some_iff] at found
  rcases found with found | ⟨-, found | ⟨-, found | ⟨-, found | ⟨-, found | ⟨whole, found | ⟨-,
    found | ⟨-, found⟩⟩⟩⟩⟩⟩⟩
  · obtain ⟨d₁, names, d₂, body, d₃, opens, named, inner, closes, rfl⟩ := find_block.mp found
    have shorter := opens.lt
    have written := spelled_optional_parameters named
    have inside := (below d₂ (by have := written.le; omega)).1 body d₃ inner
    exact ⟨⟨d₁, d₃, opens, ⟨d₂, written, body.span, inside⟩, closes⟩, other⟩
  · obtain ⟨x, d₁, d₂, arguments, d₃, name, opens, inner, closes, rfl⟩ := find_call.mp found
    have shorter := name.lt
    have shorter' := opens.lt
    refine ⟨⟨d₁, name, d₂, d₃, opens, ?_, closes⟩, other⟩
    rw [find_optional] at inner
    split at inner
    · rename_i row d₄ listed
      cases inner
      exact .inr ⟨row.span, (below d₂ (by omega)).1 row d₃ listed⟩
    · cases inner
      exact .inl ⟨rfl, rfl⟩
  · obtain ⟨x, d₁, d₂, value, name, equals, inner, rfl⟩ := find_assignment.mp found
    have shorter := name.lt
    have shorter' := equals.lt
    constructor
    · exact ⟨d₁, d₂, name, equals, (below d₂ (by omega)).2 value d' inner⟩
    · intro _
      rw [anyExpression_eq] at inner
      obtain ⟨first, d₃, rest, _, repeats, _⟩ := find_series.mp inner
      exact repeats.stop
  · obtain ⟨value, reads, rfl⟩ := find_boolean.mp found
    exact ⟨reads, other⟩
  · obtain ⟨whole, fraction, reads, rfl⟩ := find_float.mp found
    exact ⟨reads, other⟩
  · obtain ⟨digits, inner, rfl⟩ := find_integer.mp found
    exact ⟨⟨int_iff_reads.mp ⟨find_float_eq_none.mp whole, inner⟩, rfl⟩, other⟩
  · obtain ⟨x, reads, rfl⟩ := find_reference.mp found
    exact ⟨reads, other⟩
  · obtain ⟨d₁, series, d₂, opens, inner, closes, rfl⟩ := find_group.mp found
    have shorter := opens.lt
    exact ⟨⟨d₁, d₂, opens, (below d₁ (by omega)).2 series d₂ inner, closes⟩, other⟩

theorem stands_signed {first : Nat × Operand} {d d' : Cursor}
    (within : d.rest.length ≤ c.rest.length)
    (found : (signed anyStatements anyExpression).find d = some (first, d')) :
    SeriesStands (.last first.1 first.2) d d' ∧
      (first.2.isAssignment = true → (link anyStatements anyExpression).find d' = none) := by
  obtain ⟨nots, o⟩ := first
  obtain ⟨row, d₁, nots, inner, rfl⟩ := find_signed.mp found
  have written := spelled_negations nots
  obtain ⟨stands, last⟩ := stands_operand below (Nat.le_trans written.le within) inner
  exact ⟨⟨d₁, written, stands⟩, last⟩

theorem stands_links {first : Nat × Operand} {rest : List (BinaryOp × Nat × Operand)}
    {d d₁ d' : Cursor} (within : d.rest.length ≤ c.rest.length)
    (found : (signed anyStatements anyExpression).find d = some (first, d₁))
    (repeats : Repeats (link anyStatements anyExpression) d₁ rest d') :
    SeriesStands (.ofLinks first rest) d d' := by
  induction repeats generalizing first d with
  | done => exact (stands_signed below within found).1
  | @more d₁ d₂ d' next rest linked _ ih =>
      obtain ⟨op, next⟩ := next
      obtain ⟨⟨d₀, nots, stands⟩, last⟩ := stands_signed below within found
      obtain ⟨d₃, reads, found'⟩ := find_link.mp linked
      -- An assignment would have taken the operator for its own.
      have free : first.2.isAssignment = false := by
        rw [Bool.eq_false_iff]
        intro assigns
        rw [last assigns] at linked
        cases linked
      have shorter := reads.lt
      have further := ih (by have := Shrinks.le (t := .empty) found; omega) found'
      exact ⟨free, d₀, d₁, d₃, nots, stands, reads, further⟩

theorem stands_series {series' : Series Operand} {d d' : Cursor}
    (within : d.rest.length ≤ c.rest.length)
    (found : (series anyStatements anyExpression).find d = some (series', d')) :
    SeriesStands series' d d' := by
  obtain ⟨first, d₁, rest, inner, repeats, rfl⟩ := find_series.mp found
  exact stands_links below within inner repeats

theorem stands_statement {phrase : Phrase} {d d' : Cursor}
    (within : d.rest.length ≤ c.rest.length)
    (found : (statement anyStatements anyExpression).find d = some (phrase, d')) :
    phrase.Stands d d' := by
  simp only [find_statement, Option.or_eq_some_iff, Option.map_eq_some_iff] at found
  rcases found with found | ⟨-, found | ⟨-, ⟨series', d₁⟩, found, same⟩⟩
  · obtain ⟨d₁, test, d₂, yes, d₃, no, word, between, between', otherwise, rfl⟩ :=
      find_conditional.mp found
    have shorter := word.lt
    have le := between.le
    have le' := between'.le
    have framed := framed_between_terminated below between (by omega)
    have framed' := framed_between_terminated below between' (by omega)
    rw [find_optional] at otherwise
    split at otherwise
    · rename_i no d₄ inner
      cases otherwise
      obtain ⟨d₅, word', between''⟩ := find_elsePart.mp inner
      have shorter' := word'.lt
      have framed'' := framed_between_terminated below between'' (by omega)
      exact ⟨d₁, d₂, d₃, d₅, word, framed, framed', word', framed''⟩
    · cases otherwise
      exact ⟨d₁, d₂, word, framed, framed'⟩
  · obtain ⟨d₁, header, d₂, body, word, between, between', rfl⟩ := find_loop.mp found
    have shorter := word.lt
    have le := between.le
    exact ⟨d₁, d₂, word, framed_between below between (by omega),
      framed_between_terminated below between' (by omega)⟩
  · cases same
    exact stands_series below within found

theorem stands_furtherStatements {rest : List Phrase} {d d' : Cursor}
    (within : d.rest.length ≤ c.rest.length)
    (repeats : Repeats (furtherStatement anyStatements anyExpression) d rest d') :
    RestStands rest d d' := by
  induction repeats with
  | done => rfl
  | more found _ ih =>
      obtain ⟨d₁, reads, inner⟩ := find_furtherStatement.mp found
      have shorter := reads.lt
      have stands := stands_statement below (by omega) inner
      exact ⟨d₁, _, reads, stands, ih (by have := Shrinks.le (t := .empty) inner; omega)⟩

theorem terminatedAt_listing {row : Listing} {d' : Cursor}
    (found : (listing anyStatements anyExpression).find c = some (row, d')) :
    TerminatedAt row.span (RowStands row.phrases) c d' := by
  obtain ⟨first, d₁, rest, d₂, ended, inner, repeats, last, rfl⟩ := find_listing.mp found
  have stands := stands_statement below (Nat.le_refl _) inner
  have further := stands_furtherStatements below (Shrinks.le (t := .empty) inner) repeats
  refine ⟨d₂, ⟨d₁, stands, further⟩, ?_⟩
  rw [find_optional] at last
  split at last
  · rename_i pos d₃ reads
    cases last
    obtain ⟨semicolon, rfl⟩ := find_terminator.mp reads
    exact .inr ⟨semicolon, rfl⟩
  · cases last
    exact .inl ⟨rfl, rfl⟩

end Standing

/-- **What is found stands where it is found.** -/
theorem standsAt (c : Cursor) : StandsAt c := by
  induction length : c.rest.length using Nat.strongRecOn generalizing c with
  | ind n ih =>
      have below (d : Cursor) (shorter : d.rest.length < c.rest.length) : StandsAt d :=
        ih d.rest.length (length ▸ shorter) d rfl
      constructor
      · intro row c' found
        rw [anyStatements_eq] at found
        exact terminatedAt_listing below found
      · intro series c' found
        rw [anyExpression_eq] at found
        exact stands_series below (Nat.le_refl _) found

end Scanner

end BlockScript
