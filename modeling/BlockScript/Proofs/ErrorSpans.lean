import BlockScript.Proofs.Blame
import BlockScript.Proofs.Tokens.Cut

/-!
# Every error points at what it says

The place of an error is a piece of the text, from one character to another, and the piece is
what the error is about (`Fault.Describes`): nothing at all where a form was looked for in vain,
the digits of an integer that is too large, the header of a loop up to the bracket behind it, or
the item at which the text goes too deep (`error_points_at_its_fault`).

The errors come from three places.  The scan for the depth of a text counts the bytes of the items
that it passes (`Nesting.scan_pointsInto`).  A text that is not read is refused at a place that a
cursor has reached.  And the errors that are found when nodes are made carry a place that a phrase
remembers: they are the first of the faults of the phrases (`rowFaults`), each of which points at
what it says because the phrases stand in the text (`RowStands.pointsInto`).
-/

set_option autoImplicit false

namespace BlockScript

open Nesting Cursor

/-! ## The faults of phrases -/

mutual
/-- The faults of a statement, in the order in which its nodes are made. -/
def Phrase.faults : Phrase → List SourceError
  | .branch test yes => rowFaults test ++ rowFaults yes
  | .branchElse test yes no => rowFaults no ++ (rowFaults test ++ rowFaults yes)
  | .loop header place body =>
      rowFaults header ++
        ((if header.length = 3 then [] else [⟨.loopHeader header.length, place⟩]) ++
          rowFaults body)
  | .expression series => seriesFaults series

/-- The faults of statements in a row. -/
def rowFaults : List Phrase → List SourceError
  | [] => []
  | phrase :: rest => phrase.faults ++ rowFaults rest

/-- The faults of a series. -/
def seriesFaults : Series Operand → List SourceError
  | .last _ operand => operand.faults
  | .link _ operand _ rest => operand.faults ++ seriesFaults rest

/-- The faults of an operand. -/
def Operand.faults : Operand → List SourceError
  | .block _ body => rowFaults body
  | .call _ arguments => rowFaults arguments
  | .assign _ value => seriesFaults value
  | .bool _ | .float _ _ | .var _ => []
  | .int digits place =>
      if natOfDigits digits ≤ maxInteger then [] else [⟨.number (String.ofList digits), place⟩]
  | .group series => seriesFaults series
end

/-- An outcome reports the first of some faults, and is a success if there are none. -/
def Reports {α : Type} (faults : List SourceError) : Except SourceError α → Prop
  | .ok _ => faults = []
  | .error e => faults.head? = some e

namespace Reports

variable {α β : Type} {faults more : List SourceError} {x : Except SourceError α}

theorem bind {f : α → Except SourceError β} (first : Reports faults x)
    (second : ∀ a, x = .ok a → Reports more (f a)) : Reports (faults ++ more) (x >>= f) := by
  cases x with
  | ok a =>
      obtain rfl : faults = [] := first
      exact second a rfl
  | error e =>
      obtain ⟨rest, rfl⟩ := List.head?_eq_some_iff.mp first
      rfl

theorem ok (a : α) : Reports [] (.ok a) := rfl

theorem map (first : Reports faults x) (g : α → β) : Reports faults (x >>= fun a => .ok (g a)) := by
  have whole := first.bind fun a _ => ok (g a)
  rwa [List.append_nil] at whole

theorem loopNode {body : Except SourceError (List (Node Unit))} (inner : Reports faults body)
    (header : List (Node Unit)) (place : Span) :
    Reports ((if header.length = 3 then [] else [⟨.loopHeader header.length, place⟩]) ++ faults)
      (BlockScript.loopNode header place body) := by
  by_cases three : header.length = 3
  · obtain ⟨start, test, step, rfl⟩ := List.length_eq_three.mp three
    exact inner.map _
  · rw [if_neg three, BlockScript.loopNode]
    · rfl
    · rintro start test step rfl
      exact three rfl

end Reports

theorem length_of_nodes {row : List Phrase} {trees : List (Node Unit)}
    (made : nodes row = .ok trees) : trees.length = row.length := by
  induction row generalizing trees with
  | nil =>
      cases made
      rfl
  | cons phrase rest ih =>
      simp only [nodes, bind_eq_ok_iff, pure_eq_ok_iff] at made
      obtain ⟨first, _, more, made', rfl⟩ := made
      rw [List.length_cons, ih made', List.length_cons]

mutual
/-- **The error of a statement is the first of its faults.** -/
theorem Phrase.reports_node : ∀ phrase : Phrase, Reports phrase.faults phrase.node
  | .branch test yes => (reports_nodes test).bind fun _ _ => (reports_nodes yes).map _
  | .branchElse test yes no =>
      (reports_nodes no).bind fun _ _ => (reports_nodes test).bind fun _ _ =>
        (reports_nodes yes).map _
  | .loop header place body => (reports_nodes header).bind fun trees made => by
      rw [← length_of_nodes made]
      exact (reports_nodes body).loopNode trees place
  | .expression series => (reports_seriesNodes series).map _

theorem reports_nodes : ∀ row : List Phrase, Reports (rowFaults row) (nodes row)
  | [] => .ok _
  | phrase :: rest => (phrase.reports_node).bind fun _ _ => (reports_nodes rest).map _

theorem reports_seriesNodes : ∀ series : Series Operand,
    Reports (seriesFaults series) (seriesNodes series)
  | .last _ operand => (operand.reports_node).map _
  | .link _ operand _ rest =>
      (operand.reports_node).bind fun _ _ => (reports_seriesNodes rest).map _

theorem Operand.reports_node : ∀ operand : Operand, Reports operand.faults operand.node
  | .block _ body => (reports_nodes body).map _
  | .call _ arguments => (reports_nodes arguments).map _
  | .assign _ value => (reports_seriesNodes value).map _
  | .bool _ | .float _ _ | .var _ => .ok _
  | .int digits place => by
      by_cases fits : natOfDigits digits ≤ maxInteger <;>
        simp [Operand.faults, Operand.node, integerNode, fits, Reports]
  | .group series => (reports_seriesNodes series).map _
end

theorem mem_rowFaults_of_error {row : List Phrase} {e : SourceError}
    (failed : nodes row = .error e) : e ∈ rowFaults row := by
  have reports := reports_nodes row
  rw [failed] at reports
  exact List.mem_of_mem_head? reports

/-! ## Pieces of a text -/

/-- What a fault says of the text that it points at, and of the text behind that.

The header of a loop goes up to the bracket behind it, but for white space that stands between
them if a `;` ends the header. -/
def Fault.Describes (limit : Nat) (inside behind : List Char) : Fault → Prop
  | .unexpected _ _ => inside = []
  | .number text => text.toList = inside ∧ (∀ x ∈ inside, x.isDigit = true) ∧
      9223372036854775808 ≤ natOfDigits inside
  | .loopHeader count => 1 ≤ count ∧ count ≠ 3 ∧
      ∃ gap rest, behind = gap ++ ')' :: rest ∧ (∀ x ∈ gap, isGap x = true) ∧
        (gap = [] ∨ inside.getLast? = some ';')
  | .nesting depth limit' => depth = limit + 1 ∧ limit' = limit ∧
      inside ∈ [['('], ['{'], ['='], ['n', 'o', 't']]
  | .other _ => False

/-- An error points at a piece of a text that is as its fault says. -/
def SourceError.PointsInto (limit : Nat) (text : List Char) (e : SourceError) : Prop :=
  ∃ before inside behind, text = before ++ (inside ++ behind) ∧
    e.span = ⟨byteLength before, byteLength before + byteLength inside⟩ ∧
    e.fault.Describes limit inside behind

/-! ## Where the scan for the depth stops -/

namespace Nesting

theorem prefix_item (before : Option Char) (x : Char) (rest : List Char) :
    (item before x rest).2 <+: rest := by
  unfold item
  split_ifs <;> first | exact List.nil_prefix | exact List.takeWhile_prefix _

/-- Four items go deeper. -/
theorem item_of_deeper {before : Option Char} {x : Char} {rest tail : List Char} {effect : Effect}
    {s : Nesting} (taken : item before x rest = (effect, tail))
    (deeper : s.depth < (apply effect s).depth) :
    x :: tail ∈ [['('], ['{'], ['='], ['n', 'o', 't']] := by
  have goes : effect = .opens ∨ effect = .awaits := by
    cases effect <;> simp [apply] at deeper ⊢ <;> omega
  unfold item at taken
  grind

/-- The scan stops at the item that goes too deep. -/
theorem scan_pointsInto {limit : Nat} : ∀ {fuel : Nat} {s : Nesting} {previous : Option Char}
    {front rest : List Char} {e : SourceError}, s.depth ≤ limit →
    scan limit fuel s previous rest (byteLength front) = .error e →
    e.PointsInto limit (front ++ rest)
  | fuel + 1, s, previous, front, x :: rest, e, low, failed => by
      rw [scan] at failed
      obtain ⟨behind, split⟩ := prefix_item previous x rest
      generalize taken : item previous x rest = result at failed split
      obtain ⟨effect, tail⟩ := result
      simp only at failed split
      subst split
      by_cases deep : limit < (apply effect s).depth
      · rw [if_pos deep] at failed
        cases failed
        have one := depth_apply_le effect s
        exact ⟨front, x :: tail, behind, rfl, rfl, by omega, rfl,
          item_of_deeper taken (Nat.lt_of_le_of_lt low deep)⟩
      · rw [if_neg deep, List.drop_left, ← byteLength_append] at failed
        have further := scan_pointsInto (Nat.le_of_not_lt deep) failed
        simpa using further

end Nesting

/-! ## Where phrases stand -/

namespace Cursor

variable {text : List Char} {c c' : Cursor}

/-- A place in a text, so many bytes behind its start. -/
def RestsIn (text : List Char) (c : Cursor) : Prop :=
  ∃ front, text = front ++ c.rest ∧ c.pos = byteLength front

/-- Lexemes take a piece of the text. -/
theorem Spelled.piece {lexemes : List Lexeme} (spelled : Spelled lexemes c c') :
    ∃ inside, c.rest = inside ++ c'.rest ∧ c'.pos = c.pos + byteLength inside := by
  obtain ⟨inside, split, pos, ascii⟩ := spelled.front
  exact ⟨inside, split, by rw [pos, byteLength_of_ascii ascii]⟩

namespace RestsIn

theorem spelled {lexemes : List Lexeme} (rests : c.RestsIn text) (spelled : Spelled lexemes c c') :
    c'.RestsIn text := by
  obtain ⟨front, rfl, pos⟩ := rests
  obtain ⟨inside, split, pos'⟩ := spelled.piece
  exact ⟨front ++ inside, by simp [split], by simp [pos', pos]⟩

theorem reads {lexeme : Lexeme} (rests : c.RestsIn text) (reads : Reads lexeme c c') :
    c'.RestsIn text :=
  rests.spelled reads.spelled

theorem skipGap_start (text : List Char) : (start text).skipGap.RestsIn text := by
  obtain ⟨gap, split, pos, blank, -⟩ := skipGap_eq_iff.mp (rfl : skipGap ⟨text, 0⟩ = _)
  refine ⟨gap, split, ?_⟩
  rw [byteLength_of_ascii fun x member => ascii_of_isGap (blank x member)]
  exact pos.trans (Nat.zero_add _)

end RestsIn

end Cursor

/-- Whatever stands between two places of a text has faults that point into the text. -/
def Pointing (limit : Nat) (text : List Char) (faults : List SourceError)
    (stands : Cursor → Cursor → Prop) : Prop :=
  ∀ ⦃c c' : Cursor⦄, stands c c' → c.RestsIn text →
    c'.RestsIn text ∧ ∀ e ∈ faults, e.PointsInto limit text

section Pointing

variable {limit : Nat} {text : List Char} {faults : List SourceError}
  {stands : Cursor → Cursor → Prop}

theorem Pointing.framed (inner : Pointing limit text faults stands) (bracket : Bracket) :
    Pointing limit text faults (Framed bracket stands) := by
  rintro c c' ⟨c₁, c₂, opens, inside, closes⟩ rests
  obtain ⟨rests', points⟩ := inner inside (rests.reads opens)
  exact ⟨rests'.reads closes, points⟩

theorem Pointing.terminatedAt (inner : Pointing limit text faults stands) (place : Span) :
    Pointing limit text faults (TerminatedAt place stands) := by
  rintro c c' ⟨c₁, inside, last⟩ rests
  obtain ⟨rests', points⟩ := inner inside rests
  rcases last with ⟨rfl, -⟩ | ⟨reads, -⟩
  · exact ⟨rests', points⟩
  · exact ⟨rests'.reads reads, points⟩

theorem Pointing.terminated (inner : Pointing limit text faults stands) :
    Pointing limit text faults (Terminated stands) := by
  rintro c c' ⟨place, inside⟩ rests
  exact inner.terminatedAt place inside rests

/-- A lexeme has no faults. -/
theorem pointing_reads (lexeme : Lexeme) : Pointing limit text [] (Reads lexeme) :=
  fun _ _ reads rests => ⟨rests.reads reads, nofun⟩

theorem integer_pointsInto {digits : List Char} {c c' : Cursor} (rests : c.RestsIn text)
    (reads : Reads (.int digits) c c') (large : ¬natOfDigits digits ≤ maxInteger) :
    SourceError.PointsInto limit text
      ⟨.number (String.ofList digits), ⟨c.pos, c.pos + digits.length⟩⟩ := by
  obtain ⟨front, rfl, pos⟩ := rests
  obtain ⟨⟨-, all⟩, gap, takes, -⟩ := reads
  have split : c.rest = digits ++ (gap ++ c'.rest) := takes.rest
  have size := byteLength_of_ascii fun x member => ascii_of_isDigit (all x member)
  refine ⟨front, digits, gap ++ c'.rest, by rw [split], by rw [pos, size], ?_, all, ?_⟩
  · exact String.toList_ofList
  · exact Nat.lt_of_not_le large

/-- The header of a loop is a piece of the text, and the bracket behind it follows. -/
theorem header_pointsInto {header : List Phrase} {place : Span} {c c' : Cursor}
    (rests : c.RestsIn text)
    (framed : Framed .round (TerminatedAt place (RowStands header)) c c')
    (other : header.length ≠ 3) :
    SourceError.PointsInto limit text ⟨.loopHeader header.length, place⟩ := by
  obtain ⟨c₁, c₂, opens, ⟨c₃, inside, last⟩, -, gap', closes, -⟩ := framed
  obtain ⟨front, rfl, pos⟩ := rests.reads opens
  have nonempty : 1 ≤ header.length := by
    cases header with
    | nil => exact absurd inside id
    | cons phrase rest => simp
  obtain ⟨lexemes, -, spelled⟩ := RowStands.across header inside
  obtain ⟨statements, split, pos'⟩ := spelled.piece
  have bracket : c₂.rest = ')' :: (gap' ++ c'.rest) := closes.rest
  rcases last with ⟨rfl, rfl⟩ | ⟨⟨-, gap, semicolon, -⟩, rfl⟩
  · refine ⟨front, statements, c₂.rest, by rw [split], by rw [pos', pos], nonempty, other, ?_⟩
    exact ⟨[], _, bracket, nofun, .inl rfl⟩
  · have ended : c₃.rest = [';'] ++ (gap ++ c₂.rest) := semicolon.rest
    refine ⟨front, statements ++ [';'], gap ++ c₂.rest, by simp [split, ended], ?_, nonempty,
      other, ?_⟩
    · have one : byteLength [';'] = 1 := rfl
      rw [pos', pos, byteLength_append, one, Nat.add_assoc]
    · exact ⟨gap, _, by rw [bracket], semicolon.blank, .inr (by simp)⟩

end Pointing

section Standing

variable (limit : Nat) (text : List Char)

mutual
/-- The faults of a statement that stands in a text point into it. -/
theorem Phrase.Stands.pointsInto : ∀ phrase : Phrase,
    Pointing limit text phrase.faults phrase.Stands
  | .branch test yes, _, _, ⟨_, _, word, framed, framed'⟩, rests => by
      have first := (RowStands.pointsInto test).terminated.framed .round
      have second := (RowStands.pointsInto yes).terminated.framed .curly
      obtain ⟨rests₁, points⟩ := first framed (rests.reads word)
      obtain ⟨rests₂, points'⟩ := second framed' rests₁
      exact ⟨rests₂, List.forall_mem_append.mpr ⟨points, points'⟩⟩
  | .branchElse test yes no, _, _, ⟨_, _, _, _, word, framed, framed', word', framed''⟩, rests => by
      have first := (RowStands.pointsInto test).terminated.framed .round
      have second := (RowStands.pointsInto yes).terminated.framed .curly
      have third := (RowStands.pointsInto no).terminated.framed .curly
      obtain ⟨rests₁, points⟩ := first framed (rests.reads word)
      obtain ⟨rests₂, points'⟩ := second framed' rests₁
      obtain ⟨rests₃, points''⟩ := third framed'' (rests₂.reads word')
      exact ⟨rests₃, List.forall_mem_append.mpr
        ⟨points'', List.forall_mem_append.mpr ⟨points, points'⟩⟩⟩
  | .loop header place body, _, _, ⟨_, _, word, framed, framed'⟩, rests => by
      have first := ((RowStands.pointsInto header).terminatedAt place).framed .round
      have second := (RowStands.pointsInto body).terminated.framed .curly
      obtain ⟨rests₁, points⟩ := first framed (rests.reads word)
      obtain ⟨rests₂, points'⟩ := second framed' rests₁
      refine ⟨rests₂, List.forall_mem_append.mpr ⟨points, List.forall_mem_append.mpr ⟨?_, points'⟩⟩⟩
      split
      · nofun
      · rename_i other
        simpa using header_pointsInto (rests.reads word) framed other
  | .expression series, _, _, stands, rests => SeriesStands.pointsInto series stands rests

theorem RowStands.pointsInto : ∀ row : List Phrase,
    Pointing limit text (rowFaults row) (RowStands row)
  | phrase :: rest, _, _, ⟨_, stands, further⟩, rests => by
      obtain ⟨rests₁, points⟩ := Phrase.Stands.pointsInto phrase stands rests
      obtain ⟨rests₂, points'⟩ := RestStands.pointsInto rest further rests₁
      exact ⟨rests₂, List.forall_mem_append.mpr ⟨points, points'⟩⟩

theorem RestStands.pointsInto : ∀ row : List Phrase,
    Pointing limit text (rowFaults row) (RestStands row)
  | [], _, _, same, rests => by
      cases same
      exact ⟨rests, nofun⟩
  | phrase :: rest, _, _, ⟨_, _, reads, stands, further⟩, rests => by
      obtain ⟨rests₁, points⟩ := Phrase.Stands.pointsInto phrase stands (rests.reads reads)
      obtain ⟨rests₂, points'⟩ := RestStands.pointsInto rest further rests₁
      exact ⟨rests₂, List.forall_mem_append.mpr ⟨points, points'⟩⟩

theorem SeriesStands.pointsInto : ∀ series : Series Operand,
    Pointing limit text (seriesFaults series) (SeriesStands series)
  | .last _ operand, _, _, ⟨_, nots, stands⟩, rests =>
      Operand.Stands.pointsInto operand stands (rests.spelled nots)
  | .link _ operand _ rest, _, _, ⟨_, _, _, _, nots, stands, reads, further⟩, rests => by
      obtain ⟨rests₁, points⟩ := Operand.Stands.pointsInto operand stands (rests.spelled nots)
      obtain ⟨rests₂, points'⟩ := SeriesStands.pointsInto rest further (rests₁.reads reads)
      exact ⟨rests₂, List.forall_mem_append.mpr ⟨points, points'⟩⟩

theorem Operand.Stands.pointsInto : ∀ operand : Operand,
    Pointing limit text operand.faults operand.Stands
  | .block _ body, _, _, stands, rests => by
      refine Pointing.framed (fun _ _ ⟨_, written, inner⟩ rests => ?_) .curly stands rests
      exact (RowStands.pointsInto body).terminated inner (rests.spelled written)
  | .call _ arguments, _, _, ⟨_, name, framed⟩, rests => by
      refine Pointing.framed (fun _ _ inner rests => ?_) .round framed (rests.reads name)
      rcases inner with ⟨rfl, rfl⟩ | inner
      · exact ⟨rests, nofun⟩
      · exact (RowStands.pointsInto arguments).terminated inner rests
  | .assign _ value, _, _, ⟨_, _, name, equals, inner⟩, rests =>
      SeriesStands.pointsInto value inner ((rests.reads name).reads equals)
  | .bool _, _, _, reads, rests | .float _ _, _, _, reads, rests | .var _, _, _, reads, rests =>
      pointing_reads _ reads rests
  | .int digits _, _, _, ⟨reads, same⟩, rests => by
      refine ⟨rests.reads reads, ?_⟩
      rw [Operand.faults, same]
      split
      · nofun
      · rename_i large
        simpa using integer_pointsInto rests reads large
  | .group series, _, _, stands, rests =>
      (SeriesStands.pointsInto series).framed .round stands rests
end

end Standing

/-! ## The three kinds of errors -/

/-- An error comes from the scan for the depth, from reading, or from making nodes. -/
theorem refused_cases {limit : Nat} {source : String} {e : SourceError}
    (refused : parseWithin limit source = .error e) :
    check limit source.toList = .error e ∨
      (∃ t, readPhrases source.toList = .error t ∧
        e = unexpectedAt source.toList t.expected ⟨t.farthest, t.farthest⟩) ∨
      ∃ phrases, readPhrases source.toList = .ok phrases ∧ nodes phrases = .error e := by
  simp only [parseWithin, bind_eq_error_iff] at refused
  rcases refused with deep | ⟨-, -, unread | ⟨phrases, read, failed | ⟨trees, -, made⟩⟩⟩
  · exact .inl deep
  · unfold readText at unread
    split at unread
    · cases unread
    · rename_i t refused
      cases unread
      exact .inr (.inl ⟨t, refused, rfl⟩)
  · unfold readText at read
    split at read
    · rename_i read'
      cases read
      exact .inr (.inr ⟨phrases, read', failed⟩)
    · cases read
  · cases made

theorem refused_pointsInto {limit : Nat} {source : String} {e : SourceError}
    (refused : parseWithin limit source = .error e) : e.PointsInto limit source.toList := by
  rcases refused_cases refused with deep | ⟨t, read, rfl⟩ | ⟨phrases, read, failed⟩
  · exact (scan_pointsInto (Nat.zero_le limit) deep : e.PointsInto limit ([] ++ source.toList))
  · obtain ⟨-, c, viable, atPlace⟩ := Scanner.viable_of_refused read
    obtain ⟨front, split, pos, ascii⟩ := viable.place
    refine ⟨front, [], c.rest, split, ?_, rfl⟩
    rw [byteLength_of_ascii ascii, ← pos, atPlace]
    rfl
  · obtain ⟨row, c, found, -, rfl⟩ := readPhrases_eq_ok_iff.mp read
    have stands := (Scanner.standsAt _).1 row c found
    have pointing := (RowStands.pointsInto limit source.toList row.phrases).terminatedAt row.span
    exact (pointing stands (.skipGap_start _)).2 e (mem_rowFaults_of_error failed)

/-- Whether an outcome is the given error.  Results need not be comparable for this. -/
def failsWith {α : Type} (e : SourceError) : Except SourceError α → Bool
  | .ok _ => false
  | .error e' => decide (e' = e)

theorem eq_error_of_failsWith {α : Type} {e : SourceError} {outcome : Except SourceError α}
    (fails : failsWith e outcome = true) : outcome = .error e := by
  cases outcome with
  | ok a => cases fails
  | error e' => rw [of_decide_eq_true fails]

/-- **Every error points at what it says.**  Its place is a piece of the text that starts and stops
between two characters, and the piece is what the fault is about. -/
theorem error_points_at_its_fault (limit : Nat) (source : String) (e : SourceError)
    (refused : parseWithin limit source = .error e) :
    e.span.start ≤ e.span.stop ∧ e.span.stop ≤ source.utf8ByteSize ∧
      ∃ before inside behind : String, source = before ++ inside ++ behind ∧
        e.span = ⟨before.utf8ByteSize, (before ++ inside).utf8ByteSize⟩ ∧
        e.fault.Describes limit inside.toList behind.toList := by
  obtain ⟨before, inside, behind, split, place, describes⟩ := refused_pointsInto refused
  have whole : source = String.ofList before ++ String.ofList inside ++ String.ofList behind := by
    rw [← String.ofList_append, ← String.ofList_append, List.append_assoc, ← split,
      String.ofList_toList]
  have total : source.utf8ByteSize = byteLength before + byteLength inside + byteLength behind := by
    simp only [whole, String.utf8ByteSize_append, utf8ByteSize_eq_byteLength]
  refine ⟨?_, ?_, String.ofList before, String.ofList inside, String.ofList behind, whole, ?_, ?_⟩
  · rw [place]
    exact Nat.le_add_right _ _
  · rw [place, total]
    exact Nat.le_add_right _ _
  · rw [place, String.utf8ByteSize_append, utf8ByteSize_eq_byteLength, utf8ByteSize_eq_byteLength]
  · rwa [String.toList_ofList, String.toList_ofList]

/-- The limit of a loop is too large, in a header that is faulty too. -/
theorem error_points_at_its_fault_loopLimit :
    parseWithin 128 "x = 1; for (i = 0; i < 9223372036854775808; ) { i }" =
        .error ⟨.number "9223372036854775808", ⟨23, 42⟩⟩ ∧
      23 ≤ 42 ∧
      42 ≤ "x = 1; for (i = 0; i < 9223372036854775808; ) { i }".utf8ByteSize ∧
      ∃ before inside behind : String,
        "x = 1; for (i = 0; i < 9223372036854775808; ) { i }" = before ++ inside ++ behind ∧
        (⟨23, 42⟩ : Span) = ⟨before.utf8ByteSize, (before ++ inside).utf8ByteSize⟩ ∧
        (Fault.number "9223372036854775808").Describes 128 inside.toList behind.toList := by
  have refused : parseWithin 128 "x = 1; for (i = 0; i < 9223372036854775808; ) { i }" =
      .error ⟨.number "9223372036854775808", ⟨23, 42⟩⟩ :=
    eq_error_of_failsWith (by decide +kernel)
  exact ⟨refused, error_points_at_its_fault _ _ _ refused⟩

/-- A header that a `;` ends stops before the white space in front of its bracket. -/
theorem header_stops_before_blank :
    parseWithin 128 "for (a; b; ) { 1 }" = .error ⟨.loopHeader 2, ⟨5, 10⟩⟩ ∧
      "for (a; b; ) { 1 }" = "for (a; b;" ++ " ) { 1 }" ∧ "for (a; b;".utf8ByteSize = 10 ∧
      " ) { 1 }".toList.head? ≠ some ')' := by
  have refused : parseWithin 128 "for (a; b; ) { 1 }" = .error ⟨.loopHeader 2, ⟨5, 10⟩⟩ :=
    eq_error_of_failsWith (by decide +kernel)
  exact ⟨refused, by decide +kernel, by decide +kernel, by decide +kernel⟩

end BlockScript
