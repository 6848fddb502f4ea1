import BlockScript.Proofs.Reading.Holes

/-!
# Refusals on record

Forms are looked for only at places that the grammar can go on from: whenever a rule starts
to look for a form, the lexemes before that place have a hole there that the form fits.  So
the farthest refusal of a text is at a viable place, and the text up to it can be continued
(`Scanner.viable_of_refused`).

The argument follows the scanners.  A record of refusals is fair if its farthest refusal was
made at a viable place, and a scanner is fair at a place if it keeps records fair there
(`Scanner.FairAt`).  Steps keep no record; named scanners are fair where a stand-in fits; and
sequences, choices and repetitions are fair if their parts are fair where they are tried.
The rules of the grammar then carry holes along, and the recursion through statements and
expressions is an induction on what is left of the text.
-/

set_option autoImplicit false

namespace BlockScript

open Cursor Nesting

/-! ## Fair records -/

namespace Tracker

variable {text : List Char} {t : Tracker} {c : Cursor}

/-- If anything was refused so far, the farthest refusal was at a viable place. -/
def Fair (text : List Char) (t : Tracker) : Prop :=
  t = .empty ∨ t.forms ≠ #[] ∧ ∃ c, Viable text c ∧ c.pos = t.farthest

/-- Something was refused at a place or behind it. -/
structure Reaches (pos : Nat) (t : Tracker) : Prop where
  nonempty : t.forms ≠ #[]
  le : pos ≤ t.farthest

theorem Fair.reaches_of_lt {pos : Nat} (fair : t.Fair text) (behind : pos < t.farthest) :
    t.Reaches pos := by
  rcases fair with rfl | ⟨nonempty, -⟩
  · exact absurd behind (Nat.not_lt_zero _)
  · exact ⟨nonempty, Nat.le_of_lt behind⟩

theorem reaches_of_count {pos before : Nat} (one : t.count pos = before + 1) : t.Reaches pos := by
  unfold count at one
  split at one
  · rename_i here
    refine ⟨?_, Nat.le_of_eq here.symm⟩
    intro empty
    simp [empty] at one
  · cases one

/-- A refusal at a viable place keeps a record fair. -/
theorem Fair.refuse (fair : t.Fair text) (viable : Viable text c) (form : Form) (before : Nat) :
    (t.refuse form c.pos before).Fair text := by
  unfold Tracker.refuse
  split
  · exact fair
  · split
    · exact fair
    · split
      · rename_i here
        exact .inr ⟨by simp, c, viable, here⟩
      · exact .inr ⟨by simp, c, viable, rfl⟩

/-- A refusal goes on record unless something further on already has. -/
theorem Fair.reaches {form : Form} {pos before : Nat}
    (fair : (t.refuse form pos before).Fair text) : (t.refuse form pos before).Reaches pos := by
  unfold Tracker.refuse at fair ⊢
  split at fair
  · rename_i one
    rw [if_pos one]
    exact reaches_of_count one
  · rename_i more
    rw [if_neg more]
    split at fair
    · rename_i behind
      rw [if_pos behind]
      exact fair.reaches_of_lt behind
    · rename_i ahead
      rw [if_neg ahead]
      split
      · rename_i here
        exact ⟨by simp, Nat.le_of_eq here⟩
      · exact ⟨by simp, Nat.le_refl _⟩

/-- A refusal at or before the farthest place keeps that place. -/
theorem Fair.refuse_again {pos : Nat} (fair : t.Fair text) (reaches : t.Reaches pos) (form : Form)
    (before : Nat) :
    (t.refuse form pos before).Fair text ∧ (t.refuse form pos before).forms ≠ #[] := by
  unfold Tracker.refuse
  split
  · exact ⟨fair, reaches.nonempty⟩
  · split
    · exact ⟨fair, reaches.nonempty⟩
    · split
      · rcases fair with rfl | ⟨-, viable⟩
        · exact absurd rfl reaches.nonempty
        · exact ⟨.inr ⟨by simp, viable⟩, by simp⟩
      · have le := reaches.le
        omega

end Tracker

/-! ## Fair scanners -/

namespace Scanner

variable {α β : Type}

/-- A scanner that keeps no record. -/
class Silent (p : Scanner α) : Prop where
  same : ∀ c t, (p c t).2 = t

instance (step : Cursor → Option (α × Cursor)) : Silent (ofStep step) where
  same _ _ := rfl

instance (mark : List Char) : Silent (Scanner.mark mark) where
  same _ _ := rfl

instance (a : α) : Silent (pure a : Scanner α) where
  same _ _ := rfl

instance : Silent position where
  same _ _ := rfl

instance (p : Scanner α) (f : α → Scanner β) [Silent p] [∀ a, Silent (f a)] :
    Silent (p >>= f) where
  same c t := by
    have first := Silent.same (p := p) c t
    rw [bind_apply]
    split
    · rename_i found
      rw [found] at first
      rw [Silent.same]
      exact first
    · rename_i refused
      rw [refused] at first
      exact first

instance (p q : Scanner α) [Silent p] [Silent q] : Silent (orElse p q) where
  same c t := by
    have first := Silent.same (p := p) c t
    unfold orElse
    split
    · rename_i found
      rw [found] at first
      exact first
    · rename_i refused
      rw [refused] at first
      rw [Silent.same]
      exact first

/-- A scanner keeps records fair where it is tried. -/
def FairAt (text : List Char) (p : Scanner α) (c : Cursor) : Prop :=
  ∀ t, t.Fair text → (p c t).2.Fair text

section Combinators

variable {text : List Char} {p q : Scanner α} {f : α → Scanner β} {c : Cursor}

theorem fairAt_silent (p : Scanner α) [Silent p] (c : Cursor) : FairAt text p c := by
  intro t fair
  rwa [Silent.same]

theorem FairAt.bind [Blind p] (first : FairAt text p c)
    (second : ∀ a c', p.find c = some (a, c') → FairAt text (f a) c') :
    FairAt text (p >>= f) c := by
  intro t fair
  have same := Blind.same (p := p) c t
  have kept := first t fair
  rw [bind_apply]
  split
  · rename_i a c' t' found
    rw [found] at same kept
    exact second a c' same.symm t' kept
  · rename_i t' refused
    rw [refused] at kept
    exact kept

theorem FairAt.orElse (first : FairAt text p c) (second : FairAt text q c) :
    FairAt text (Scanner.orElse p q) c := by
  intro t fair
  have kept := first t fair
  unfold Scanner.orElse
  split
  · rename_i found
    rw [found] at kept
    exact kept
  · rename_i t' refused
    rw [refused] at kept
    exact second t' kept

theorem FairAt.optional (inner : FairAt text p c) : FairAt text (Scanner.optional p) c := by
  intro t fair
  have kept := inner t fair
  unfold Scanner.optional
  split <;> rename_i outcome <;> rw [outcome] at kept <;> exact kept

theorem FairAt.named (inner : FairAt text p c) (viable : Viable text c) (form : Form) :
    FairAt text (Scanner.named form p) c := by
  intro t fair
  have kept := inner t fair
  unfold Scanner.named
  split <;> rename_i outcome <;> rw [outcome] at kept
  · exact kept
  · exact kept.refuse viable form _

/-- A named scanner that refuses leaves a refusal on record. -/
theorem FairAt.reaches {form : Form} {t t' : Tracker}
    (fair : FairAt text (Scanner.named form p) c) (before : t.Fair text)
    (refused : Scanner.named form p c t = (none, t')) : t'.Reaches c.pos := by
  have kept := fair t before
  rw [refused] at kept
  unfold Scanner.named at refused
  split at refused
  · cases refused
  · cases refused
    exact kept.reaches

/-- A repetition is fair if each round is fair at the places that the rounds before it can
lead to. -/
theorem FairAt.many [Blind p] (reached : Cursor → Prop) (here : reached c)
    (fair : ∀ d, reached d → FairAt text p d)
    (further : ∀ d a d', reached d → p.find d = some (a, d') → reached d') :
    FairAt text (Scanner.many p) c := by
  have rounds : ∀ n d t, reached d → t.Fair text → (upTo p n d t).2.Fair text := by
    intro n
    induction n with
    | zero => exact fun _ _ _ kept => kept
    | succ n ih =>
        intro d t there kept
        have same := Blind.same (p := p) d t
        have kept' := fair d there t kept
        rw [upTo]
        split
        · rename_i a d' t' found
          rw [found] at same kept'
          exact ih d' t' (further d a d' there same.symm) kept'
        · rename_i t' refused
          rw [refused] at kept'
          exact kept'
  intro t kept
  rw [many_apply]
  exact rounds _ c t here kept

end Combinators

/-! ## Words and literals -/

section Words

variable {text : List Char} {c : Cursor} (viable : Viable text c)
include viable

/-- Words, literals and the end of the text are named steps. -/
theorem fairAt_word {α : Type} {form : Form} {p : Scanner α} [Silent p] :
    FairAt text (named form p) c :=
  (fairAt_silent p c).named viable form

theorem fairAt_name : FairAt text name c := fairAt_word viable

theorem fairAt_reference : FairAt text reference c :=
  FairAt.named (.bind (fairAt_name viable) fun _ _ _ => fairAt_silent _ _) viable _

theorem fairAt_operator (op : BinaryOp) : FairAt text (operator op) c := by
  refine FairAt.named ?_ viable _
  unfold operator.written operator.spelled
  cases op with
  | arith op => cases op <;> exact fairAt_silent _ c
  | and | or => exact fairAt_silent _ c
  | compare op => cases op <;> exact fairAt_silent _ c

theorem fairAt_firstOf (ops : List BinaryOp) : FairAt text (firstOf ops) c := by
  induction ops with
  | nil => exact fun _ fair => fair
  | cons op rest ih => exact (fairAt_operator viable op).orElse ih

theorem fairAt_anyOperator : FairAt text anyOperator c := fairAt_firstOf viable _

end Words

/-! ## Rules with an inside -/

/-- What may stand between the brackets of a block. -/
abbrev AnyInterior : Language Lexeme := Any fun names => {parameterLexemes names} * AnyRow

theorem any_interior {inner : List Lexeme} (names : List String) (row : inner ∈ AnyRow) :
    parameterLexemes names ++ inner ∈ AnyInterior := by
  have written : parameterLexemes names ∈ ({parameterLexemes names} : Language Lexeme) := rfl
  exact ⟨names, Language.append_mem_mul written row⟩

open Lexeme in
theorem fairAt_parameters {text : List Char} {c : Cursor} (hole : Hole text AnyInterior c) :
    FairAt text parameters c := by
  have viable : Viable text c := hole.viable (any_interior [] any_standIn_row) .standIn
  -- A name fits behind the `|` and behind every `,`.
  have named {before : List Lexeme} {d : Cursor} (spelled : Spelled before c d)
      (names : List String)
      (written : parameterLexemes names = before ++ [standInName, .bar]) : Viable text d := by
    have falls : Falls [.bar, standIn] := .lower trivial rfl .standIn
    have moved : Hole text {[standInName]} d := by
      refine hole.move spelled falls ?_
      rintro _ rfl
      have whole := any_interior names any_standIn_row
      rw [written] at whole
      simpa using whole
    exact moved.viable rfl (.lower proper_standInName rfl .nil)
  rw [parameters_eq]
  refine FairAt.named (.bind (fairAt_silent _ c) fun _ d opened => ?_) viable _
  have opens := bar_iff_reads.mp opened
  refine .bind (fairAt_name (named opens.spelled ["x"] rfl)) fun x e found => ?_
  have first := find_name.mp found
  refine .bind ?_ fun _ _ _ => fairAt_silent _ _
  refine .many (fun e => ∃ rest : List String,
    Spelled (.bar :: .name x :: rest.flatMap fun y => [.comma, .name y]) c e)
    ⟨[], d, opens, first.spelled⟩ ?_ ?_
  · rintro e ⟨rest, spelled⟩
    refine .bind (fairAt_silent _ e) fun _ e' marked => ?_
    have comma := (comma_iff_reads.mp marked).spelled
    exact fairAt_name (named (spelled.append comma) (x :: (rest ++ ["x"]))
      (by simp [parameterLexemes, standInName]))
  · rintro e y e' ⟨rest, spelled⟩ found'
    have more := spelled.append (find_moreNames.mp found')
    exact ⟨rest ++ [y], by simpa using more⟩

/-- Statements and expressions are fair at a place that they fit. -/
def FairInside (text : List Char) (c : Cursor) : Prop :=
  (Hole text AnyRow c → FairAt text anyStatements c) ∧
    (Hole text (Any seriesLanguage) c → FairAt text anyExpression c)

section Inside

open Lexeme

variable {text : List Char} {c : Cursor}
  (below : ∀ d : Cursor, d.rest.length < c.rest.length → FairInside text d)
include below

theorem fairAt_block {d : Cursor} (hole : Hole text (Any Operand.language) d)
    (within : d.rest.length ≤ c.rest.length) : FairAt text (block anyStatements) d := by
  refine FairAt.named (.bind (fairAt_silent _ d) fun _ d₁ opened => ?_)
    (hole.viable any_standIn .standIn) _
  have opens := openCurly_iff_reads.mp opened
  have shorter := opens.lt
  have interior : Hole text AnyInterior d₁ := by
    refine hole.move opens.spelled (.closing .curly) ?_
    rintro _ ⟨names, _, rfl, row, member, rfl⟩
    exact any_block names member
  refine .bind (fairAt_parameters interior).optional fun names d₂ found => ?_
  have spelled := spelled_optional_parameters found
  have le := spelled.le
  refine .bind ((below d₂ (by omega)).1 ?_) fun _ _ _ => fairAt_silent _ _
  refine interior.move spelled .nil fun row member => ?_
  rw [List.append_nil]
  exact any_interior _ member

theorem fairAt_call {d : Cursor} (hole : Hole text (Any Operand.language) d)
    (within : d.rest.length ≤ c.rest.length) : FairAt text (call anyStatements) d := by
  have viable := hole.viable any_standIn .standIn
  refine FairAt.named (.bind (fairAt_name viable) fun x d₁ found => ?_) viable _
  have name := find_name.mp found
  refine .bind (fairAt_silent _ d₁) fun _ d₂ opened => ?_
  have opens := openRound_iff_reads.mp opened
  have shorter := name.lt
  have shorter' := opens.lt
  refine .bind (FairAt.optional ((below d₂ (by omega)).1 ?_)) fun _ _ _ => fairAt_silent _ _
  refine hole.move (name.spelled.append opens.spelled) (.closing .round) fun row member => ?_
  exact any_call x member

theorem fairAt_assignment {d : Cursor} (hole : Hole text (Any Operand.language) d)
    (within : d.rest.length ≤ c.rest.length) : FairAt text (assignment anyExpression) d := by
  have viable := hole.viable any_standIn .standIn
  refine FairAt.named (.bind (fairAt_name viable) fun x d₁ found => ?_) viable _
  have name := find_name.mp found
  have silent : FairAt text becomes d₁ := fun _ fair => fair
  refine .bind silent fun _ d₂ marked => ?_
  have equals := equals_iff_reads.mp marked
  have shorter := name.lt
  have shorter' := equals.lt
  refine .bind ((below d₂ (by omega)).2 ?_) fun _ _ _ => fairAt_silent _ _
  refine hole.move (name.spelled.append equals.spelled) .nil fun value member => ?_
  rw [List.append_nil]
  exact any_assign x member

theorem fairAt_group {d : Cursor} (hole : Hole text (Any Operand.language) d)
    (within : d.rest.length ≤ c.rest.length) : FairAt text (group anyExpression) d := by
  refine FairAt.bind (fairAt_silent _ d) fun _ d₁ opened => ?_
  have opens := openRound_iff_reads.mp opened
  have shorter := opens.lt
  refine .bind ((below d₁ (by omega)).2 ?_) fun _ _ _ => fairAt_silent _ _
  refine hole.move opens.spelled (.closing .round) fun series member => ?_
  exact any_group member

theorem fairAt_operand {d : Cursor} (hole : Hole text (Any Operand.language) d)
    (within : d.rest.length ≤ c.rest.length) :
    FairAt text (operand anyStatements anyExpression) d := by
  have viable := hole.viable any_standIn .standIn
  exact (fairAt_block below hole within).orElse <| (fairAt_call below hole within).orElse <|
    (fairAt_assignment below hole within).orElse <| (fairAt_word viable).orElse <|
    (fairAt_word viable).orElse <| (fairAt_word viable).orElse <|
    (fairAt_reference viable).orElse (fairAt_group below hole within)

theorem fairAt_signed {d : Cursor} (hole : Hole text (Any seriesLanguage) d)
    (within : d.rest.length ≤ c.rest.length) :
    FairAt text (signed anyStatements anyExpression) d := by
  have negated {d d' : Cursor} (hole : Hole text (Any seriesLanguage) d)
      (reads : Reads .negation d d') : Hole text (Any seriesLanguage) d' := by
    refine hole.move reads.spelled .nil fun series member => ?_
    rw [List.append_nil]
    exact any_negation member
  refine .bind (.many (Hole text (Any seriesLanguage)) hole ?_ ?_) fun nots d₁ found => ?_
  · exact fun e there => fairAt_word (there.viable any_standIn_series .standIn)
  · exact fun e _ e' there found => negated there (find_negation.mp found)
  · have repeats := find_many_eq_some_iff.mp found
    have le := repeats.le
    have inner : Hole text (Any seriesLanguage) d₁ := by
      clear found le within
      induction repeats with
      | done => exact hole
      | more found _ ih => exact ih (negated hole (find_negation.mp found))
    refine .bind (fairAt_operand below ?_ (by omega)) fun _ _ _ => fairAt_silent _ _
    exact inner.mono fun operand member => any_operand_series member

theorem fairAt_series {d : Cursor} (hole : Hole text (Any seriesLanguage) d)
    (within : d.rest.length ≤ c.rest.length) :
    FairAt text (series anyStatements anyExpression) d := by
  have signed_across {e e' : Cursor} {first : Nat × Operand}
      (found : (signed anyStatements anyExpression).find e = some (first, e')) :
      ∃ lexemes ∈ Any seriesLanguage, Spelled lexemes e e' := by
    obtain ⟨lexemes, member, spelled⟩ := across_signed found
    exact ⟨lexemes, ⟨.last first.1 first.2, member⟩, spelled⟩
  rw [series_eq]
  refine FairAt.named (.bind (fairAt_signed below hole within) fun first d₁ found => ?_)
    (hole.viable any_standIn_series .standIn) _
  refine .bind ?_ fun _ _ _ => fairAt_silent _ _
  -- Before every round what has been read is a series.
  refine .many (fun e => ∃ lexemes ∈ Any seriesLanguage, Spelled lexemes d e)
    (signed_across found) ?_ ?_
  · rintro e ⟨lexemes, ⟨s, member⟩, spelled⟩
    have viable := hole.viable_behind spelled (mem_any member)
    refine .bind (fairAt_anyOperator viable) fun op e₁ operated => ?_
    have reads := operator_iff_reads.mp operated
    have le := spelled.le
    have shorter := reads.lt
    refine .bind (fairAt_signed below ?_ (by omega)) fun _ _ _ => fairAt_silent _ _
    refine hole.move (spelled.append reads.spelled) .nil fun series more => ?_
    simpa using any_link op more s member
  · rintro e ⟨op, next⟩ e' ⟨lexemes, ⟨s, member⟩, spelled⟩ linked
    obtain ⟨e₁, reads, found'⟩ := find_link.mp linked
    obtain ⟨more, member', spelled'⟩ := signed_across found'
    exact ⟨_, any_link op member' s member, spelled.append ⟨e₁, reads, spelled'⟩⟩

/-- What conditionals and loops have in common: a word, statements in parentheses and
statements in braces. -/
theorem fairAt_headed {β : Type} {word : Lexeme} {further : Listing → Listing → Scanner β}
    (known : word = .ifWord ∨ word = .elseWord ∨ word = .forWord)
    (fits : ∀ a ∈ AnyRow, ∀ b ∈ AnyRow,
      word :: (enclose .round a ++ enclose .curly b) ∈ Any Phrase.language) {d : Cursor}
    (hole : Hole text (Any Phrase.language) d) (within : d.rest.length ≤ c.rest.length)
    (rest : ∀ head body a b d', a ∈ AnyRow → b ∈ AnyRow →
      Spelled (word :: (enclose .round a ++ enclose .curly b)) d d' →
      FairAt text (further head body) d') :
    FairAt text (do
      mark word.spelling
      mark ['(']
      let head ← anyStatements
      mark [')']
      mark ['{']
      let body ← anyStatements
      mark ['}']
      further head body) d := by
  refine .bind (fairAt_silent _ d) fun _ d₁ marked => ?_
  refine .bind (fairAt_silent _ d₁) fun _ d₂ opened => ?_
  have opens := openRound_iff_reads.mp opened
  have reads := word_before_bracket known marked opens
  have front := reads.spelled.append opens.spelled
  have inHead : Hole text AnyRow d₂ := by
    have falls : Falls [.closing .round, .opening .curly, standIn, .closing .curly] :=
      .reopen (Falls.standIn.append (.closing .curly))
    refine hole.move front falls fun head member => ?_
    simpa [enclose] using fits head member _ any_standIn_row
  have short : d₂.rest.length < c.rest.length := by
    have := reads.lt
    have := opens.lt
    omega
  refine .bind ((below d₂ short).1 inHead) fun head d₃ found => ?_
  obtain ⟨a, member, spelled⟩ := (soundAt d₂).1 head d₃ found
  refine .bind (fairAt_silent _ d₃) fun _ d₄ closed => ?_
  refine .bind (fairAt_silent _ d₄) fun _ d₅ opened' => ?_
  have closes := closeRound_iff_reads.mp closed
  have opens' := openCurly_iff_reads.mp opened'
  have between := spelled.append (closes.spelled.append opens'.spelled)
  have inBody : Hole text AnyRow d₅ := by
    refine hole.move (front.append between) (.closing .curly) fun body member' => ?_
    simpa [enclose] using fits a (mem_any member) body member'
  have short' : d₅.rest.length < c.rest.length := Nat.lt_of_le_of_lt between.le short
  refine .bind ((below d₅ short').1 inBody) fun body d₆ found' => ?_
  obtain ⟨b, member', spelled'⟩ := (soundAt d₅).1 body d₆ found'
  refine .bind (fairAt_silent _ d₆) fun _ d₇ closed' => ?_
  have closes' := closeCurly_iff_reads.mp closed'
  refine rest head body a b d₇ (mem_any member) (mem_any member') ?_
  simpa [enclose] using (front.append between).append (spelled'.append closes'.spelled)

theorem fairAt_conditional {d : Cursor} (hole : Hole text (Any Phrase.language) d)
    (within : d.rest.length ≤ c.rest.length) : FairAt text (conditional anyStatements) d := by
  have viable := hole.viable any_standIn_phrase .standIn
  rw [conditional_eq]
  refine FairAt.named (fairAt_headed below (.inl rfl)
    (fun a test b yes => any_branch test yes) hole within ?_) viable _
  intro test yes a b d' inTest inYes spelled
  refine .bind (FairAt.optional ?_) fun _ _ _ => fairAt_silent _ _
  refine .bind (fairAt_silent _ d') fun _ d₁ marked => ?_
  refine .bind (fairAt_silent _ d₁) fun _ d₂ opened => ?_
  have opens := openCurly_iff_reads.mp opened
  have reads : Reads .elseWord d' d₁ := word_before_bracket (by simp) marked opens
  have short : d₂.rest.length < c.rest.length := by
    have := spelled.le
    have := reads.lt
    have := opens.lt
    omega
  refine .bind ((below d₂ short).1 ?_) fun _ _ _ => fairAt_silent _ _
  refine hole.move (spelled.append (reads.spelled.append opens.spelled)) (.closing .curly)
    fun no member => ?_
  simpa [enclose] using any_branchElse inTest inYes member

theorem fairAt_loop {d : Cursor} (hole : Hole text (Any Phrase.language) d)
    (within : d.rest.length ≤ c.rest.length) : FairAt text (loop anyStatements) d := by
  have viable := hole.viable any_standIn_phrase .standIn
  refine FairAt.named (fairAt_headed below (.inr (.inr rfl))
    (fun a header b body => any_loop header body) hole within ?_) viable _
  exact fun _ _ _ _ _ _ _ _ => fairAt_silent _ _

theorem fairAt_statement {d : Cursor} (hole : Hole text (Any Phrase.language) d)
    (within : d.rest.length ≤ c.rest.length) :
    FairAt text (statement anyStatements anyExpression) d := by
  have expression := hole.mono fun series member => any_expression member
  exact (fairAt_conditional below hole within).orElse <| (fairAt_loop below hole within).orElse <|
    .bind (fairAt_series below expression within) fun _ _ _ => fairAt_silent _ _

theorem fairAt_listing (hole : Hole text AnyRow c) :
    FairAt text (listing anyStatements anyExpression) c := by
  have statement_across {e e' : Cursor} {phrase : Phrase}
      (found : (statement anyStatements anyExpression).find e = some (phrase, e')) :
      ∃ lexemes ∈ Any Phrase.language, Spelled lexemes e e' := by
    obtain ⟨lexemes, member, spelled⟩ := across_statement found
    exact ⟨lexemes, ⟨phrase, member⟩, spelled⟩
  have first : Hole text (Any Phrase.language) c :=
    hole.mono fun phrase member => any_row (any_phrase_row member)
  rw [listing_eq]
  refine FairAt.named (.bind (fairAt_silent _ c) fun _ _ here => ?_)
    (hole.viable any_standIn_row .standIn) _
  cases here
  refine .bind (fairAt_statement below first (Nat.le_refl _)) fun phrase d found => ?_
  refine .bind ?_ fun _ e _ => .bind (FairAt.optional ?_) fun _ _ _ => fairAt_silent _ _
  · -- Before every round what has been read is a row of statements.
    refine .many (fun e => ∃ lexemes ∈ Any rowLanguage, Spelled lexemes c e) ?_ ?_ ?_
    · obtain ⟨lexemes, member, spelled⟩ := statement_across found
      exact ⟨lexemes, any_phrase_row member, spelled⟩
    · rintro e ⟨lexemes, member, spelled⟩
      refine .bind (fairAt_silent _ e) fun _ e₁ marked => ?_
      have reads := semicolon_iff_reads.mp marked
      refine fairAt_statement below ?_ (Nat.le_trans (Nat.le_of_lt reads.lt) spelled.le)
      refine hole.move (spelled.append reads.spelled) .nil fun phrase more => ?_
      simpa using any_row (any_row_semicolon member more)
    · rintro e phrase e' ⟨lexemes, member, spelled⟩ found'
      obtain ⟨e₁, reads, inner⟩ := find_furtherStatement.mp found'
      obtain ⟨more, member', spelled'⟩ := statement_across inner
      exact ⟨_, any_row_semicolon member member', spelled.append ⟨e₁, reads, spelled'⟩⟩
  · exact .bind (fairAt_silent _ e) fun _ _ _ => fairAt_silent _ _

end Inside

/-- **Statements and expressions are fair wherever they fit.** -/
theorem fairInside (text : List Char) (c : Cursor) : FairInside text c := by
  induction length : c.rest.length using Nat.strongRecOn generalizing c with
  | ind n ih =>
      have below (d : Cursor) (shorter : d.rest.length < c.rest.length) : FairInside text d :=
        ih d.rest.length (length ▸ shorter) d rfl
      constructor
      · intro hole
        rw [anyStatements_eq]
        exact fairAt_listing below hole
      · intro hole
        rw [anyExpression_eq]
        exact fairAt_series below hole (Nat.le_refl _)

/-! ## Whole texts -/

/-- Statements that reach to the end of the text. -/
def wholeText (depth : Nat) : Scanner (List Phrase) := do
  let body ← statements depth
  endOfInput
  return body.phrases

theorem program_eq (depth : Nat) :
    program depth =
      named .program (ofStep (fun c => some ((), c.skipGap)) >>= fun _ => wholeText depth) := rfl

theorem refused_of_program {depth : Nat} {text : List Char} {t t' : Tracker}
    (refused : program depth (start text) t = (none, t')) :
    ∃ t₁, wholeText depth (start text).skipGap t = (none, t₁) ∧
      t' = t₁.refuse .program 0 (t.count 0) := by
  have inner : (ofStep (fun c => some ((), c.skipGap)) >>= fun _ => wholeText depth)
      (start text) t = wholeText depth (start text).skipGap t := rfl
  rw [program_eq, named, inner] at refused
  split at refused
  · cases refused
  · rename_i t₁ outcome
    cases refused
    exact ⟨t₁, outcome, rfl⟩

theorem fair_of_wholeText {text : List Char} {depth : Nat} {t : Tracker}
    (enough : (start text).skipGap.rest.length < depth)
    (refused : wholeText depth (start text).skipGap .empty = (none, t)) :
    t.Fair text ∧ t.Reaches 0 := by
  have hole := Hole.start text
  generalize (start text).skipGap = c₀ at *
  have fair := (fairInside text c₀).1 hole
  have kept := fair .empty (.inl rfl)
  rw [wholeText, bind_apply, statements_eq _ enough] at refused
  split at refused
  · rename_i row c t₁ found
    rw [found] at kept
    have found' : anyStatements.find c₀ = some (row, c) := by rw [find, found]
    obtain ⟨lexemes, member, spelled⟩ := (soundAt c₀).1 row c found'
    have ended : FairAt text endOfInput c :=
      fairAt_word (hole.viable_behind spelled ⟨row.phrases, member⟩)
    rw [bind_apply] at refused
    split at refused
    · cases refused
    · rename_i t₂ missing
      cases refused
      have kept' := ended t₁ kept
      rw [missing] at kept'
      exact ⟨kept', (ended.reaches kept missing).nonempty, Nat.zero_le _⟩
  · rename_i t₁ missing
    cases refused
    rw [missing] at kept
    rw [anyStatements_eq] at fair missing
    exact ⟨kept, (fair.reaches (.inl rfl) missing).nonempty, Nat.zero_le _⟩

/-- **A text is refused at a viable place**, where some form was looked for. -/
theorem viable_of_refused {text : List Char} {t : Tracker} (refused : readPhrases text = .error t) :
    t.forms ≠ #[] ∧ ∃ c, Viable text c ∧ c.pos = t.farthest := by
  have short : (start text).skipGap.rest.length < text.length + 1 := by
    rw [skipGap_eq]
    exact Nat.lt_succ_of_le (List.length_dropWhile_le ..)
  unfold readPhrases at refused
  split at refused
  · cases refused
  · rename_i t' outcome
    cases refused
    obtain ⟨t₁, inner, rfl⟩ := refused_of_program outcome
    obtain ⟨fair, reaches⟩ := fair_of_wholeText short inner
    obtain ⟨kept, nonempty⟩ := fair.refuse_again reaches .program (Tracker.empty.count 0)
    rcases kept with empty | ⟨-, viable⟩
    · rw [empty] at nonempty
      exact absurd rfl nonempty
    · exact ⟨nonempty, viable⟩

end Scanner

end BlockScript
