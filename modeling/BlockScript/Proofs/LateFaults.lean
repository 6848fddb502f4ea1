import BlockScript.Proofs.ErrorSpans
import BlockScript.Proofs.Tokens.Agreement

/-!
# Which fault of a readable text is reported

A text that is read within the limit can still be refused, for an integer literal that is too large
or for the header of a loop.  These are its bad parts.  The text is a program exactly if it has none
of them, and if no conditional in it has an `else`, the part that is reported is the one that ends
first (`reported_part_ends_first`).

The parts of phrases are listed in the order in which they end in the text (`rowParts`), and the
faults of phrases in the order in which nodes are made (`rowFaults`).  Both lists hold the same bad
parts (`rowFaults_perm`), and they are in the same order unless the `else` part of a conditional is
looked at before its test (`rowFaults_eq`).  That the first list is in the order of the text follows
from where the phrases stand: what stands between two places has parts that end there
(`EndsInOrder`), and the header of a loop ends behind everything in it but perhaps a literal.
-/

set_option autoImplicit false

namespace BlockScript

open Cursor

/-! ## Parts -/

/-- A part of a text from which no node can be made if it is bad: an integer literal, or the header
of a loop with the number of its statements. -/
inductive Part where
  | literal (digits : List Char) (place : Span)
  | header (count : Nat) (place : Span)

namespace Part

/-- The place of a part. -/
def place : Part → Span
  | literal _ place | header _ place => place

/-- Whether the literal is too large, or the header does not have three statements. -/
def isBad : Part → Bool
  | literal digits _ => decide (9223372036854775807 < natOfDigits digits)
  | header count _ => decide (count ≠ 3)

/-- The error of a bad part. -/
def error : Part → SourceError
  | literal digits place => ⟨.number (String.ofList digits), place⟩
  | header count place => ⟨.loopHeader count, place⟩

/-- Whether a part is a literal. -/
def isLiteral : Part → Bool
  | literal .. => true
  | header .. => false

/-- A part ends before another one.  A literal at the end of a header ends before the header. -/
def Before (part other : Part) : Prop :=
  part.place.stop < other.place.stop ∨
    part.place.stop = other.place.stop ∧ part.isLiteral = true ∧ other.isLiteral = false

end Part

mutual
/-- The parts of a statement, in the order in which they end. -/
def Phrase.parts : Phrase → List Part
  | .branch test yes => rowParts test ++ rowParts yes
  | .branchElse test yes no => rowParts test ++ (rowParts yes ++ rowParts no)
  | .loop header place body => rowParts header ++ .header header.length place :: rowParts body
  | .expression series => seriesParts series

/-- The parts of statements in a row. -/
def rowParts : List Phrase → List Part
  | [] => []
  | phrase :: rest => phrase.parts ++ rowParts rest

/-- The parts of a series. -/
def seriesParts : Series Operand → List Part
  | .last _ operand => operand.parts
  | .link _ operand _ rest => operand.parts ++ seriesParts rest

/-- The parts of an operand. -/
def Operand.parts : Operand → List Part
  | .block _ body => rowParts body
  | .call _ arguments => rowParts arguments
  | .assign _ value => seriesParts value
  | .bool _ | .float _ _ | .var _ => []
  | .int digits place => [.literal digits place]
  | .group series => seriesParts series
end

/-! ## Bad parts and faults -/

/-- The errors of the bad ones among parts. -/
def errorsOf (parts : List Part) : List SourceError := (parts.filter Part.isBad).map Part.error

@[simp]
theorem errorsOf_append (parts more : List Part) :
    errorsOf (parts ++ more) = errorsOf parts ++ errorsOf more := by
  simp [errorsOf]

theorem errorsOf_header (count : Nat) (place : Span) (more : List Part) :
    errorsOf (.header count place :: more) =
      (if count = 3 then [] else [⟨.loopHeader count, place⟩]) ++ errorsOf more := by
  by_cases three : count = 3 <;> simp [errorsOf, Part.isBad, Part.error, three]

theorem errorsOf_literal (digits : List Char) (place : Span) :
    errorsOf [.literal digits place] = (Operand.int digits place).faults := by
  have largest : maxInteger = 9223372036854775807 := by decide
  rw [Operand.faults, largest]
  split
  · rename_i small
    simp [errorsOf, Part.isBad, Nat.not_lt.mpr small]
  · rename_i large
    simp [errorsOf, Part.isBad, Part.error, Nat.not_le.mp large]

mutual
/-- The faults of a statement are its bad parts, perhaps in another order. -/
theorem Phrase.faults_perm : ∀ phrase : Phrase, phrase.faults.Perm (errorsOf phrase.parts)
  | .branch test yes => by
      rw [Phrase.faults, Phrase.parts, errorsOf_append]
      exact (rowFaults_perm test).append (rowFaults_perm yes)
  | .branchElse test yes no => by
      have inOrder := (rowFaults_perm test).append ((rowFaults_perm yes).append (rowFaults_perm no))
      rw [← List.append_assoc] at inOrder
      rw [Phrase.faults, Phrase.parts, errorsOf_append, errorsOf_append]
      exact List.perm_append_comm.trans inOrder
  | .loop header place body => by
      rw [Phrase.faults, Phrase.parts, errorsOf_append, errorsOf_header]
      exact (rowFaults_perm header).append ((rowFaults_perm body).append_left _)
  | .expression series => seriesFaults_perm series

/-- **The faults of statements are their bad parts.** -/
theorem rowFaults_perm : ∀ row : List Phrase, (rowFaults row).Perm (errorsOf (rowParts row))
  | [] => .nil
  | phrase :: rest => by
      rw [rowFaults, rowParts, errorsOf_append]
      exact phrase.faults_perm.append (rowFaults_perm rest)

theorem seriesFaults_perm : ∀ series : Series Operand,
    (seriesFaults series).Perm (errorsOf (seriesParts series))
  | .last _ operand => operand.faults_perm
  | .link _ operand _ rest => by
      rw [seriesFaults, seriesParts, errorsOf_append]
      exact operand.faults_perm.append (seriesFaults_perm rest)

theorem Operand.faults_perm : ∀ operand : Operand, operand.faults.Perm (errorsOf operand.parts)
  | .block _ body => rowFaults_perm body
  | .call _ arguments => rowFaults_perm arguments
  | .assign _ value => seriesFaults_perm value
  | .bool _ | .float _ _ | .var _ => .nil
  | .int digits place => .of_eq (errorsOf_literal digits place).symm
  | .group series => seriesFaults_perm series
end

/-! ## Texts without `else` -/

/-- What is true of a row for the lexemes that it is written with is true of it in brackets. -/
theorem eq_of_enclosed {row : List Phrase} {bracket : Bracket} {lexemes : List Lexeme}
    (inner : ∀ {lexemes}, lexemes ∈ rowLanguage row → .elseWord ∉ lexemes →
      rowFaults row = errorsOf (rowParts row))
    (member : lexemes ∈ Enclosed bracket (Ended (rowLanguage row))) (free : .elseWord ∉ lexemes) :
    rowFaults row = errorsOf (rowParts row) := by
  obtain ⟨_, ⟨written, inRow, ending, -, rfl⟩, rfl⟩ := mem_enclosed_iff.mp member
  exact inner inRow fun inside => free (by simp [enclose, inside])

mutual
/-- Without `else`, the nodes of a statement are made in the order of the text. -/
theorem Phrase.faults_eq : ∀ (phrase : Phrase) {lexemes : List Lexeme},
    lexemes ∈ phrase.language → .elseWord ∉ lexemes → phrase.faults = errorsOf phrase.parts
  | .branch test yes, _, ⟨_, ⟨_, rfl, a, inA, rfl⟩, b, inB, rfl⟩, free => by
      simp only [List.mem_append, not_or] at free
      have first := eq_of_enclosed (rowFaults_eq test) inA free.1.2
      have second := eq_of_enclosed (rowFaults_eq yes) inB free.2
      rw [Phrase.faults, Phrase.parts, errorsOf_append, first, second]
  | .branchElse _ _ _, _, ⟨_, ⟨_, _, _, rfl, rfl⟩, _, _, rfl⟩, free => absurd (by simp) free
  | .loop header _ body, _, ⟨_, ⟨_, rfl, a, inA, rfl⟩, b, inB, rfl⟩, free => by
      simp only [List.mem_append, not_or] at free
      have first := eq_of_enclosed (rowFaults_eq header) inA free.1.2
      have second := eq_of_enclosed (rowFaults_eq body) inB free.2
      rw [Phrase.faults, Phrase.parts, errorsOf_append, errorsOf_header, first, second]
  | .expression series, _, member, free => seriesFaults_eq series member free

/-- **Without `else`, nodes are made in the order of the text.** -/
theorem rowFaults_eq : ∀ (row : List Phrase) {lexemes : List Lexeme},
    lexemes ∈ rowLanguage row → .elseWord ∉ lexemes → rowFaults row = errorsOf (rowParts row)
  | phrase :: rest, _, ⟨a, inA, b, inB, rfl⟩, free => by
      simp only [List.mem_append, not_or] at free
      rw [rowFaults, rowParts, errorsOf_append, phrase.faults_eq inA free.1,
        restFaults_eq rest inB free.2]

theorem restFaults_eq : ∀ (row : List Phrase) {lexemes : List Lexeme},
    lexemes ∈ restLanguage row → .elseWord ∉ lexemes → rowFaults row = errorsOf (rowParts row)
  | [], _, _, _ => rfl
  | phrase :: rest, _, ⟨_, ⟨_, rfl, a, inA, rfl⟩, b, inB, rfl⟩, free => by
      simp only [List.mem_append, not_or] at free
      rw [rowFaults, rowParts, errorsOf_append, phrase.faults_eq inA free.1.2,
        restFaults_eq rest inB free.2]

theorem seriesFaults_eq : ∀ (series : Series Operand) {lexemes : List Lexeme},
    lexemes ∈ seriesLanguage series → .elseWord ∉ lexemes →
      seriesFaults series = errorsOf (seriesParts series)
  | .last _ operand, _, ⟨_, rfl, a, inA, rfl⟩, free =>
      operand.faults_eq inA fun inside => free (List.mem_append_right _ inside)
  | .link _ operand _ rest, _, member, free => by
      rw [seriesLanguage] at member
      split at member
      · exact absurd member (Language.notMem_zero _)
      · obtain ⟨_, ⟨_, ⟨_, rfl, a, inA, rfl⟩, _, rfl, rfl⟩, b, inB, rfl⟩ := member
        simp only [List.mem_append, not_or] at free
        rw [seriesFaults, seriesParts, errorsOf_append, operand.faults_eq inA free.1.1.2,
          seriesFaults_eq rest inB free.2]

theorem Operand.faults_eq : ∀ (operand : Operand) {lexemes : List Lexeme},
    lexemes ∈ operand.language → .elseWord ∉ lexemes → operand.faults = errorsOf operand.parts
  | .block _ body, _, member, free => by
      obtain ⟨_, ⟨_, rfl, _, ⟨a, inA, _, -, rfl⟩, rfl⟩, rfl⟩ := mem_enclosed_iff.mp member
      exact rowFaults_eq body inA fun inside => free (by simp [enclose, inside])
  | .call _ arguments, _, ⟨_, rfl, a, inA, rfl⟩, free => by
      obtain ⟨_, unwritten | ⟨b, inB, _, -, rfl⟩, rfl⟩ := mem_enclosed_iff.mp inA
      · split at unwritten
        · rename_i empty
          rw [List.isEmpty_iff.mp empty]
          rfl
        · exact absurd unwritten (Language.notMem_zero _)
      · exact rowFaults_eq arguments inB fun inside => free (by simp [enclose, inside])
  | .assign _ value, _, ⟨_, rfl, a, inA, rfl⟩, free =>
      seriesFaults_eq value inA fun inside => free (List.mem_append_right _ inside)
  | .bool _, _, _, _ | .float _ _, _, _, _ | .var _, _, _, _ => rfl
  | .int digits place, _, _, _ => (errorsOf_literal digits place).symm
  | .group series, _, member, free => by
      obtain ⟨a, inA, rfl⟩ := mem_enclosed_iff.mp member
      exact seriesFaults_eq series inA fun inside => free (by simp [enclose, inside])
end

/-! ## The order of the text -/

theorem Cursor.Reads.pos_lt {lexeme : Lexeme} {c c' : Cursor} (reads : Reads lexeme c c') :
    c.pos < c'.pos := by
  obtain ⟨proper, gap, takes, -⟩ := reads
  have positive := List.length_pos_iff.mpr (Lexeme.spelling_ne_nil proper)
  rw [takes.pos]
  omega

theorem Cursor.Spelled.pos_le {lexemes : List Lexeme} {c c' : Cursor}
    (spelled : Spelled lexemes c c') : c.pos ≤ c'.pos := by
  obtain ⟨inside, -, pos, -⟩ := spelled.front
  rw [pos]
  exact Nat.le_add_right _ _

/-- Parts that end between two offsets, one before the other.  Behind a header there is something
more. -/
structure InOrder (start stop : Nat) (parts : List Part) : Prop where
  le : start ≤ stop
  before : parts.Pairwise Part.Before
  inside : ∀ part ∈ parts, start < part.place.stop ∧ part.place.stop ≤ stop
  header : ∀ part ∈ parts, part.isLiteral = false → part.place.stop < stop

namespace InOrder

variable {start middle stop : Nat} {parts more : List Part}

theorem nil (le : start ≤ stop) : InOrder start stop [] := ⟨le, .nil, nofun, nofun⟩

theorem widen {start' stop' : Nat} (inner : InOrder start stop parts) (lower : start' ≤ start)
    (upper : stop ≤ stop') : InOrder start' stop' parts where
  le := Nat.le_trans lower (Nat.le_trans inner.le upper)
  before := inner.before
  inside part member :=
    ⟨Nat.lt_of_le_of_lt lower (inner.inside part member).1,
      Nat.le_trans (inner.inside part member).2 upper⟩
  header part member header := Nat.lt_of_lt_of_le (inner.header part member header) upper

theorem append (first : InOrder start middle parts) (second : InOrder middle stop more) :
    InOrder start stop (parts ++ more) where
  le := Nat.le_trans first.le second.le
  before := by
    refine List.pairwise_append.mpr
      ⟨first.before, second.before, fun part member other member' => ?_⟩
    have ends := (first.inside part member).2
    exact .inl (Nat.lt_of_le_of_lt ends (second.inside other member').1)
  inside := List.forall_mem_append.mpr
    ⟨(first.widen (Nat.le_refl _) second.le).inside, (second.widen first.le (Nat.le_refl _)).inside⟩
  header := List.forall_mem_append.mpr
    ⟨(first.widen (Nat.le_refl _) second.le).header, second.header⟩

theorem literal (digits : List Char) {place : Span} (ahead : start < place.stop)
    (behind : place.stop ≤ stop) : InOrder start stop [.literal digits place] where
  le := Nat.le_of_lt (Nat.lt_of_lt_of_le ahead behind)
  before := List.pairwise_singleton ..
  inside := List.forall_mem_singleton.mpr ⟨ahead, behind⟩
  header := List.forall_mem_singleton.mpr nofun

/-- A header starts behind a bracket, and ends behind the parts in it, at the same offset as a
literal at the earliest. -/
theorem closed {outer : Nat} (inner : InOrder start middle parts) (count : Nat) {place : Span}
    (bracket : outer < start) (here : middle ≤ place.stop) (behind : place.stop < stop) :
    InOrder outer stop (parts ++ [.header count place]) := by
  have wider := inner.widen (Nat.le_of_lt bracket) (Nat.le_trans here (Nat.le_of_lt behind))
  have ahead : outer < place.stop := Nat.lt_of_lt_of_le bracket (Nat.le_trans inner.le here)
  refine ⟨wider.le, ?_, List.forall_mem_append.mpr ⟨wider.inside, ?_⟩,
    List.forall_mem_append.mpr ⟨wider.header, ?_⟩⟩
  · refine List.pairwise_append.mpr ⟨inner.before, List.pairwise_singleton .., ?_⟩
    intro part member other last
    rw [List.mem_singleton.mp last]
    cases kind : part.isLiteral with
    | false => exact .inl (Nat.lt_of_lt_of_le (inner.header part member kind) here)
    | true =>
        rcases Nat.lt_or_eq_of_le (Nat.le_trans (inner.inside part member).2 here) with less | same
        · exact .inl less
        · exact .inr ⟨same, kind, rfl⟩
  · exact List.forall_mem_singleton.mpr ⟨ahead, Nat.le_of_lt behind⟩
  · exact List.forall_mem_singleton.mpr fun _ => behind

end InOrder

/-- Whatever stands between two places has parts that end between them in order. -/
def EndsInOrder (parts : List Part) (stands : Cursor → Cursor → Prop) : Prop :=
  ∀ ⦃c c' : Cursor⦄, stands c c' → InOrder c.pos c'.pos parts

namespace EndsInOrder

variable {parts : List Part} {stands : Cursor → Cursor → Prop}

theorem framed (inner : EndsInOrder parts stands) (bracket : Bracket) :
    EndsInOrder parts (Framed bracket stands) := by
  rintro c c' ⟨c₁, c₂, opens, inside, closes⟩
  exact (inner inside).widen (Nat.le_of_lt opens.pos_lt) (Nat.le_of_lt closes.pos_lt)

theorem terminatedAt (inner : EndsInOrder parts stands) (place : Span) :
    EndsInOrder parts (TerminatedAt place stands) := by
  rintro c c' ⟨c₁, inside, ⟨rfl, -⟩ | ⟨reads, -⟩⟩
  · exact inner inside
  · exact (inner inside).widen (Nat.le_refl _) (Nat.le_of_lt reads.pos_lt)

theorem terminated (inner : EndsInOrder parts stands) : EndsInOrder parts (Terminated stands) := by
  rintro c c' ⟨place, inside⟩
  exact inner.terminatedAt place inside

/-- The header of a loop ends in front of its bracket and behind all its statements. -/
theorem closed (inner : EndsInOrder parts stands) (count : Nat) (place : Span) :
    EndsInOrder (parts ++ [.header count place]) (Framed .round (TerminatedAt place stands)) := by
  rintro c c' ⟨c₁, c₂, opens, ⟨c₃, inside, last⟩, closes⟩
  have closing := closes.pos_lt
  refine (inner inside).closed count opens.pos_lt ?_ ?_
  · rcases last with ⟨-, rfl⟩ | ⟨-, rfl⟩
    · exact Nat.le_refl _
    · exact Nat.le_succ _
  · rcases last with ⟨rfl, rfl⟩ | ⟨reads, rfl⟩
    · exact closing
    · exact Nat.lt_of_le_of_lt reads.pos_lt closing

end EndsInOrder

mutual
/-- The parts of a statement end in order where it stands. -/
theorem Phrase.endsInOrder : ∀ phrase : Phrase, EndsInOrder phrase.parts phrase.Stands
  | .branch test yes, _, _, ⟨_, _, word, framed, framed'⟩ => by
      have first := (endsInOrder_row test).terminated.framed .round framed
      have second := (endsInOrder_row yes).terminated.framed .curly framed'
      exact (first.append second).widen (Nat.le_of_lt word.pos_lt) (Nat.le_refl _)
  | .branchElse test yes no, _, _, ⟨_, _, _, _, word, framed, framed', word', framed''⟩ => by
      have first := (endsInOrder_row test).terminated.framed .round framed
      have second := (endsInOrder_row yes).terminated.framed .curly framed'
      have third := (endsInOrder_row no).terminated.framed .curly framed''
      have behind := third.widen (Nat.le_of_lt word'.pos_lt) (Nat.le_refl _)
      exact (first.append (second.append behind)).widen (Nat.le_of_lt word.pos_lt) (Nat.le_refl _)
  | .loop header place body, _, _, ⟨_, _, word, framed, framed'⟩ => by
      have first := (endsInOrder_row header).closed header.length place framed
      have second := (endsInOrder_row body).terminated.framed .curly framed'
      have whole := (first.append second).widen (Nat.le_of_lt word.pos_lt) (Nat.le_refl _)
      rwa [List.append_assoc] at whole
  | .expression series, _, _, stands => endsInOrder_series series stands

theorem endsInOrder_row : ∀ row : List Phrase, EndsInOrder (rowParts row) (RowStands row)
  | phrase :: rest, _, _, ⟨_, stands, further⟩ =>
      (phrase.endsInOrder stands).append (endsInOrder_rest rest further)

theorem endsInOrder_rest : ∀ row : List Phrase, EndsInOrder (rowParts row) (RestStands row)
  | [], _, _, same => .nil (Nat.le_of_eq (congrArg Cursor.pos same.symm))
  | phrase :: rest, _, _, ⟨_, _, reads, stands, further⟩ => by
      have whole := (phrase.endsInOrder stands).append (endsInOrder_rest rest further)
      exact whole.widen (Nat.le_of_lt reads.pos_lt) (Nat.le_refl _)

theorem endsInOrder_series : ∀ series : Series Operand,
    EndsInOrder (seriesParts series) (SeriesStands series)
  | .last _ operand, _, _, ⟨_, nots, stands⟩ =>
      (operand.endsInOrder stands).widen nots.pos_le (Nat.le_refl _)
  | .link _ operand _ rest, _, _, ⟨_, _, _, _, nots, stands, reads, further⟩ => by
      have first := (operand.endsInOrder stands).widen nots.pos_le (Nat.le_of_lt reads.pos_lt)
      exact first.append (endsInOrder_series rest further)

theorem Operand.endsInOrder : ∀ operand : Operand, EndsInOrder operand.parts operand.Stands
  | .block _ body, _, _, stands => by
      refine EndsInOrder.framed (fun _ _ ⟨_, written, inner⟩ => ?_) .curly stands
      exact ((endsInOrder_row body).terminated inner).widen written.pos_le (Nat.le_refl _)
  | .call _ arguments, _, _, ⟨_, name, framed⟩ => by
      refine (EndsInOrder.framed (fun _ _ inner => ?_) .round framed).widen
        (Nat.le_of_lt name.pos_lt) (Nat.le_refl _)
      rcases inner with ⟨rfl, rfl⟩ | inner
      · exact .nil (Nat.le_refl _)
      · exact (endsInOrder_row arguments).terminated inner
  | .assign _ value, _, _, ⟨_, _, name, equals, inner⟩ =>
      (endsInOrder_series value inner).widen
        (Nat.le_of_lt (Nat.lt_trans name.pos_lt equals.pos_lt)) (Nat.le_refl _)
  | .bool _, _, _, reads | .float _ _, _, _, reads | .var _, _, _, reads =>
      .nil (Nat.le_of_lt (Reads.pos_lt reads))
  | .int digits _, c, c', ⟨⟨⟨digit, _⟩, gap, takes, _⟩, same⟩ => by
      have positive := List.length_pos_iff.mpr digit
      have behind : c'.pos = c.pos + digits.length + gap.length := takes.pos
      rw [same]
      exact .literal digits (Nat.lt_add_of_pos_right positive) (by simp only; omega)
  | .group series, _, _, stands => (endsInOrder_series series).framed .round stands
end

/-! ## What is reported -/

open Nesting

/-- What becomes of a text that is read within the limit depends on its nodes only. -/
theorem parseWithin_of_read {limit : Nat} {source : String} {phrases : List Phrase}
    (within : check limit source.toList = .ok ()) (read : readPhrases source.toList = .ok phrases) :
    parseWithin limit source = do return .list (← nodes phrases) := by
  simp only [parseWithin, readText, within, read]
  rfl

/-- The phrases that are read from a text stand in it, with white space before them. -/
theorem exists_stands_of_read {text : List Char} {phrases : List Phrase}
    (read : readPhrases text = .ok phrases) :
    ∃ c, Terminated (RowStands phrases) (start text).skipGap c ∧ c.rest = [] := by
  obtain ⟨row, c, found, done, rfl⟩ := readPhrases_eq_ok_iff.mp read
  exact ⟨c, ⟨row.span, (Scanner.standsAt _).1 row c found⟩, done⟩

/-- A text in which no `else` stands is written without one. -/
theorem exists_lexemes_of_read {text : List Char} {phrases : List Phrase}
    (read : readPhrases text = .ok phrases)
    (free : (some .keyword, ['e', 'l', 's', 'e']) ∉ lexed text) :
    ∃ lexemes ∈ rowLanguage phrases, .elseWord ∉ lexemes := by
  obtain ⟨⟨_, pos⟩, stands, rfl⟩ := exists_stands_of_read read
  obtain ⟨_, ⟨written, inRow, ending, -, rfl⟩, spelled⟩ := stands.across (RowStands.across phrases)
  have cut := ReadsAs.lexed ⟨pos, spelled⟩
  refine ⟨written, inRow, fun inside => free ?_⟩
  rw [cut]
  exact List.mem_map.mpr ⟨.elseWord, List.mem_append_left _ inside, rfl⟩

/-- An outcome is a success exactly if there is nothing to report. -/
theorem exists_ok_iff_of_reports {α : Type} {faults : List SourceError}
    {outcome : Except SourceError α} (reports : Reports faults outcome) :
    (∃ a, outcome = .ok a) ↔ faults = [] := by
  cases outcome with
  | ok a => exact ⟨fun _ => reports, fun _ => ⟨a, rfl⟩⟩
  | error e =>
      refine ⟨nofun, fun empty => ?_⟩
      rw [empty] at reports
      cases reports

/-- Of parts that end in order, the first bad one ends before all other bad ones. -/
theorem exists_first_of_errorsOf {parts : List Part} {e : SourceError}
    (ordered : parts.Pairwise Part.Before) (first : (errorsOf parts).head? = some e) :
    ∃ part ∈ parts, part.isBad = true ∧ e = part.error ∧
      ∀ other ∈ parts, other.isBad = true → other = part ∨ part.Before other := by
  rw [errorsOf, List.head?_map] at first
  obtain ⟨part, head, rfl⟩ := Option.map_eq_some_iff.mp first
  obtain ⟨rest, filtered⟩ := List.head?_eq_some_iff.mp head
  have bad (other : Part) : other ∈ parts ∧ other.isBad = true ↔ other = part ∨ other ∈ rest := by
    rw [← List.mem_filter, filtered, List.mem_cons]
  obtain ⟨member, isBad⟩ := (bad part).mpr (.inl rfl)
  have least := (List.pairwise_cons.mp (filtered ▸ ordered.filter Part.isBad)).1
  refine ⟨part, member, isBad, rfl, fun other member' isBad' => ?_⟩
  exact ((bad other).mp ⟨member', isBad'⟩).imp_right (least other)

/-- **The bad part that is reported is the one that ends first.**  A text that is read within the
limit is a program exactly if none of its parts is bad.  If it is refused and no `else` stands in
it, then for the bad part that ends before all others. -/
theorem reported_part_ends_first (limit : Nat) (source : String) (phrases : List Phrase)
    (read : readPhrases source.toList = .ok phrases)
    (within : check limit source.toList = .ok ()) :
    ((∃ tree, parseWithin limit source = .ok tree) ↔
      ∀ part ∈ rowParts phrases, part.isBad = false) ∧
    ((some .keyword, "else".toList) ∉ lexed source.toList →
      ∀ e, parseWithin limit source = .error e →
        ∃ part ∈ rowParts phrases, part.isBad = true ∧ e = part.error ∧
          ∀ other ∈ rowParts phrases, other.isBad = true → other = part ∨ part.Before other) := by
  have reports : Reports (rowFaults phrases) (parseWithin limit source) := by
    rw [parseWithin_of_read within read]
    exact (reports_nodes phrases).map Node.list
  constructor
  · have clean : rowFaults phrases = [] ↔ ∀ part ∈ rowParts phrases, part.isBad = false := by
      rw [← List.length_eq_zero_iff, (rowFaults_perm phrases).length_eq]
      simp [errorsOf]
    rw [← clean]
    exact exists_ok_iff_of_reports reports
  · intro free e refused
    obtain ⟨lexemes, written, free⟩ := exists_lexemes_of_read read free
    obtain ⟨c, stands, -⟩ := exists_stands_of_read read
    have ordered := ((endsInOrder_row phrases).terminated stands).before
    rw [refused, rowFaults_eq phrases written free] at reports
    exact exists_first_of_errorsOf ordered reports

/-- A header with one statement that ends in a literal, and a body with another literal: all three
parts are bad, and the literal in the header is reported, which ends where the header does. -/
theorem reported_part_ends_first_header : ∃ phrases,
    readPhrases "for (9223372036854775808) \x7b 9223372036854775809 \x7d".toList = .ok phrases ∧
    check 128 "for (9223372036854775808) \x7b 9223372036854775809 \x7d".toList = .ok () ∧
    (some .keyword, "else".toList) ∉
      lexed "for (9223372036854775808) \x7b 9223372036854775809 \x7d".toList ∧
    (rowParts phrases).map Part.error =
      [⟨.number "9223372036854775808", ⟨5, 24⟩⟩, ⟨.loopHeader 1, ⟨5, 24⟩⟩,
        ⟨.number "9223372036854775809", ⟨28, 47⟩⟩] ∧
    parseWithin 128 "for (9223372036854775808) \x7b 9223372036854775809 \x7d" =
      .error ⟨.number "9223372036854775808", ⟨5, 24⟩⟩ ∧
    ∃ part ∈ rowParts phrases, part.isBad = true ∧
      ⟨.number "9223372036854775808", ⟨5, 24⟩⟩ = part.error ∧
      ∀ other ∈ rowParts phrases, other.isBad = true → other = part ∨ part.Before other := by
  have reading :
      (readPhrases "for (9223372036854775808) \x7b 9223372036854775809 \x7d".toList).toOption.map
        (fun phrases => (rowParts phrases).map Part.error) =
      some [⟨.number "9223372036854775808", ⟨5, 24⟩⟩, ⟨.loopHeader 1, ⟨5, 24⟩⟩,
        ⟨.number "9223372036854775809", ⟨28, 47⟩⟩] := by
    decide +kernel
  obtain ⟨phrases, read, parts⟩ := Option.map_eq_some_iff.mp reading
  have read := toOption_eq_some_iff.mp read
  have within : check 128 "for (9223372036854775808) \x7b 9223372036854775809 \x7d".toList =
      .ok () := by
    decide +kernel
  have free : (some .keyword, "else".toList) ∉
      lexed "for (9223372036854775808) \x7b 9223372036854775809 \x7d".toList := by
    decide +kernel
  have refused : parseWithin 128 "for (9223372036854775808) \x7b 9223372036854775809 \x7d" =
      .error ⟨.number "9223372036854775808", ⟨5, 24⟩⟩ :=
    eq_error_of_failsWith (by decide +kernel)
  have first := (reported_part_ends_first 128 _ phrases read within).2 free _ refused
  exact ⟨phrases, read, within, free, parts, refused, first⟩

end BlockScript
