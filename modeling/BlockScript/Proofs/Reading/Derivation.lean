import BlockScript.Proofs.Reading.Standing
import Mathlib.Computability.Language

/-!
# The grammar as a language of lexemes

Every phrase has a language: the rows of lexemes that it may be written with.  There is more
than one only because a row of statements may end in a `;` or not.  The language of a phrase
follows its parts and knows nothing of alternatives that are tried in order or of
repetitions that take as much as they can; the only trace of the latter is that an
assignment, which takes all the rest of a series, is followed by no operator.

A language leads from one place of a text to another if lexemes of it are read in between
(`Cursor.Across`).  A phrase is written where it stands, so the scanners are **sound**: what
they find is what is written where they find it (`Scanner.soundAt`).
-/

set_option autoImplicit false

namespace BlockScript

/-! ## The languages -/

/-- What stands between brackets. -/
def Enclosed (bracket : Bracket) (inside : Language Lexeme) : Language Lexeme :=
  {[.opening bracket]} * inside * {[.closing bracket]}

/-- What may end in a `;`. -/
def Ended (row : Language Lexeme) : Language Lexeme := row * (1 + {[.semicolon]})

mutual
/-- How a statement may be written. -/
def Phrase.language : Phrase → Language Lexeme
  | .branch test yes =>
      {[.ifWord]} * Enclosed .round (Ended (rowLanguage test)) *
        Enclosed .curly (Ended (rowLanguage yes))
  | .branchElse test yes no =>
      {[.ifWord]} * Enclosed .round (Ended (rowLanguage test)) *
        Enclosed .curly (Ended (rowLanguage yes)) * {[.elseWord]} *
          Enclosed .curly (Ended (rowLanguage no))
  | .loop header _ body =>
      {[.forWord]} * Enclosed .round (Ended (rowLanguage header)) *
        Enclosed .curly (Ended (rowLanguage body))
  | .expression series => seriesLanguage series

/-- How statements may be written with `;` between them. -/
def rowLanguage : List Phrase → Language Lexeme
  | [] => 0
  | phrase :: rest => phrase.language * restLanguage rest

/-- How statements may be written, each behind a `;`. -/
def restLanguage : List Phrase → Language Lexeme
  | [] => 1
  | phrase :: rest => {[.semicolon]} * phrase.language * restLanguage rest

/-- How a series may be written. -/
def seriesLanguage : Series Operand → Language Lexeme
  | .last nots operand => {.replicate nots .negation} * operand.language
  | .link nots operand op rest =>
      if operand.isAssignment then 0
      else {.replicate nots .negation} * operand.language * {[.operator op]} * seriesLanguage rest

/-- How an operand may be written. -/
def Operand.language : Operand → Language Lexeme
  | .block parameters body =>
      Enclosed .curly ({parameterLexemes parameters} * Ended (rowLanguage body))
  | .call name arguments =>
      {[.name name]} *
        Enclosed .round ((if arguments.isEmpty then 1 else 0) + Ended (rowLanguage arguments))
  | .assign name value => {[.name name, .equals]} * seriesLanguage value
  | .bool value => {[.bool value]}
  | .float whole fraction => {[.float whole fraction]}
  | .int digits _ => {[.int digits]}
  | .var name => {[.name name]}
  | .group series => Enclosed .round (seriesLanguage series)
end

/-! ## Putting phrases together -/

/-- Lexemes between brackets. -/
def enclose (bracket : Bracket) (lexemes : List Lexeme) : List Lexeme :=
  .opening bracket :: (lexemes ++ [.closing bracket])

theorem mem_enclosed_iff {bracket : Bracket} {inside : Language Lexeme} {lexemes : List Lexeme} :
    lexemes ∈ Enclosed bracket inside ↔ ∃ inner ∈ inside, lexemes = enclose bracket inner := by
  constructor
  · rintro ⟨_, ⟨_, rfl, inner, member, rfl⟩, _, rfl, rfl⟩
    exact ⟨inner, member, rfl⟩
  · rintro ⟨inner, member, rfl⟩
    exact ⟨_, ⟨_, rfl, inner, member, rfl⟩, _, rfl, rfl⟩

section Membership

variable {a b d : List Lexeme}

theorem cons_mem {lexeme : Lexeme} {rest : Language Lexeme} (member : a ∈ rest) :
    lexeme :: a ∈ {[lexeme]} * rest := by
  have here : [lexeme] ∈ ({[lexeme]} : Language Lexeme) := rfl
  exact Language.append_mem_mul here member

theorem enclose_mem {bracket : Bracket} {inside : Language Lexeme} (member : a ∈ inside) :
    enclose bracket a ∈ Enclosed bracket inside :=
  mem_enclosed_iff.mpr ⟨a, member, rfl⟩

theorem mem_ended {row : Language Lexeme} (member : a ∈ row) : a ∈ Ended row := by
  have whole : a ++ [] ∈ Ended row := Language.append_mem_mul member (.inl rfl)
  rwa [List.append_nil] at whole

theorem mem_branch {test yes : List Phrase} (first : a ∈ Ended (rowLanguage test))
    (second : b ∈ Ended (rowLanguage yes)) :
    .ifWord :: (enclose .round a ++ enclose .curly b) ∈ (Phrase.branch test yes).language := by
  rw [Phrase.language, mul_assoc]
  exact cons_mem (Language.append_mem_mul (enclose_mem first) (enclose_mem second))

theorem mem_branchElse {test yes no : List Phrase} (first : a ∈ Ended (rowLanguage test))
    (second : b ∈ Ended (rowLanguage yes)) (third : d ∈ Ended (rowLanguage no)) :
    .ifWord :: (enclose .round a ++ (enclose .curly b ++ .elseWord :: enclose .curly d)) ∈
      (Phrase.branchElse test yes no).language := by
  simp only [Phrase.language, mul_assoc]
  exact cons_mem (Language.append_mem_mul (enclose_mem first)
    (Language.append_mem_mul (enclose_mem second) (cons_mem (enclose_mem third))))

theorem mem_loop {header body : List Phrase} (place : Span) (first : a ∈ Ended (rowLanguage header))
    (second : b ∈ Ended (rowLanguage body)) :
    .forWord :: (enclose .round a ++ enclose .curly b) ∈
      (Phrase.loop header place body).language := by
  rw [Phrase.language, mul_assoc]
  exact cons_mem (Language.append_mem_mul (enclose_mem first) (enclose_mem second))

theorem mem_block {body : List Phrase} (names : List String)
    (inner : a ∈ Ended (rowLanguage body)) :
    enclose .curly (parameterLexemes names ++ a) ∈ (Operand.block names body).language := by
  have written : parameterLexemes names ∈ ({parameterLexemes names} : Language Lexeme) := rfl
  exact enclose_mem (Language.append_mem_mul written inner)

theorem mem_call {arguments : List Phrase} (x : String)
    (inner : a ∈ (if arguments.isEmpty then 1 else 0) + Ended (rowLanguage arguments)) :
    .name x :: enclose .round a ∈ (Operand.call x arguments).language :=
  cons_mem (enclose_mem inner)

theorem mem_assign {value : Series Operand} (x : String) (inner : a ∈ seriesLanguage value) :
    .name x :: .equals :: a ∈ (Operand.assign x value).language := by
  have written : [.name x, .equals] ∈ ({[.name x, .equals]} : Language Lexeme) := rfl
  exact Language.append_mem_mul written inner

theorem mem_group {series : Series Operand} (inner : a ∈ seriesLanguage series) :
    enclose .round a ∈ (Operand.group series).language :=
  enclose_mem inner

theorem mem_last {o : Operand} (nots : Nat) (inner : a ∈ o.language) :
    .replicate nots .negation ++ a ∈ seriesLanguage (.last nots o) := by
  have written : .replicate nots .negation ∈
      ({.replicate nots .negation} : Language Lexeme) := rfl
  exact Language.append_mem_mul written inner

theorem mem_link {o : Operand} {rest : Series Operand} (nots : Nat) (op : BinaryOp)
    (free : o.isAssignment = false) (inner : a ∈ o.language) (further : b ∈ seriesLanguage rest) :
    .replicate nots .negation ++ (a ++ .operator op :: b) ∈
      seriesLanguage (.link nots o op rest) := by
  have written : .replicate nots .negation ∈
      ({.replicate nots .negation} : Language Lexeme) := rfl
  rw [seriesLanguage, if_neg (by simp [free]), mul_assoc, mul_assoc]
  exact Language.append_mem_mul written (Language.append_mem_mul inner (cons_mem further))

theorem restLanguage_append (row more : List Phrase) :
    restLanguage (row ++ more) = restLanguage row * restLanguage more := by
  induction row with
  | nil => simp [restLanguage]
  | cons phrase rest ih => simp [restLanguage, ih, mul_assoc]

/-- Rows of statements that are joined by a `;` are a row of statements. -/
theorem mem_rowLanguage_append {row more : List Phrase} (first : a ∈ rowLanguage row)
    (second : b ∈ rowLanguage more) : a ++ .semicolon :: b ∈ rowLanguage (row ++ more) := by
  cases row with
  | nil => exact absurd first (Language.notMem_zero _)
  | cons phrase rest =>
      cases more with
      | nil => exact absurd second (Language.notMem_zero _)
      | cons next further =>
          have behind : .semicolon :: b ∈ restLanguage (next :: further) := by
            rw [restLanguage, mul_assoc]
            exact cons_mem second
          rw [List.cons_append, rowLanguage, restLanguage_append, ← mul_assoc]
          exact Language.append_mem_mul first behind

end Membership

namespace Cursor

/-- Lexemes of a language are read from one place to another. -/
def Across (language : Language Lexeme) (c c' : Cursor) : Prop :=
  ∃ lexemes ∈ language, Spelled lexemes c c'

variable {c c' : Cursor}

@[simp]
theorem across_singleton {lexemes : List Lexeme} :
    Across {lexemes} c c' ↔ Spelled lexemes c c' := by
  constructor
  · rintro ⟨_, rfl, spelled⟩
    exact spelled
  · exact fun spelled => ⟨lexemes, rfl, spelled⟩

theorem Reads.across {lexeme : Lexeme} (reads : Reads lexeme c c') : Across {[lexeme]} c c' :=
  across_singleton.mpr reads.spelled

@[simp]
theorem across_zero : ¬Across 0 c c' := by
  rintro ⟨_, absent, _⟩
  exact absent

@[simp]
theorem across_one : Across 1 c c' ↔ c' = c :=
  (across_singleton : Across {[]} c c' ↔ _)

@[simp]
theorem across_add {L M : Language Lexeme} :
    Across (L + M) c c' ↔ Across L c c' ∨ Across M c c' := by
  simp only [Across, Language.mem_add]
  grind

@[simp]
theorem across_mul {L M : Language Lexeme} :
    Across (L * M) c c' ↔ ∃ c₁, Across L c c₁ ∧ Across M c₁ c' := by
  constructor
  · rintro ⟨_, ⟨a, inL, b, inM, rfl⟩, spelled⟩
    obtain ⟨c₁, first, second⟩ := spelled_append.mp spelled
    exact ⟨c₁, ⟨a, inL, first⟩, b, inM, second⟩
  · rintro ⟨c₁, ⟨a, inL, first⟩, b, inM, second⟩
    exact ⟨a ++ b, ⟨a, inL, b, inM, rfl⟩, first.append second⟩

theorem across_enclosed {bracket : Bracket} {inside : Language Lexeme} :
    Across (Enclosed bracket inside) c c' ↔
      ∃ c₁ c₂, Reads (.opening bracket) c c₁ ∧ Across inside c₁ c₂ ∧
        Reads (.closing bracket) c₂ c' := by
  simp only [Enclosed, across_mul, across_singleton, spelled_singleton]
  grind

theorem across_ended {row : Language Lexeme} :
    Across (Ended row) c c' ↔
      ∃ c₁, Across row c c₁ ∧ (c' = c₁ ∨ Reads .semicolon c₁ c') := by
  simp only [Ended, across_mul, across_add, across_one, across_singleton, spelled_singleton]

end Cursor

/-! ## What is found is written -/

namespace Cursor

variable {c c' : Cursor} {inside : Cursor → Cursor → Prop} {language : Language Lexeme}

theorem Framed.across {bracket : Bracket} (framed : Framed bracket inside c c')
    (written : ∀ {d d'}, inside d d' → Across language d d') :
    Across (Enclosed bracket language) c c' := by
  obtain ⟨c₁, c₂, opens, inner, closes⟩ := framed
  exact across_enclosed.mpr ⟨c₁, c₂, opens, written inner, closes⟩

theorem TerminatedAt.across {place : Span} (terminated : TerminatedAt place inside c c')
    (written : ∀ {d d'}, inside d d' → Across language d d') : Across (Ended language) c c' := by
  obtain ⟨c₁, inner, last⟩ := terminated
  exact across_ended.mpr ⟨c₁, written inner, last.imp And.left And.left⟩

theorem Terminated.across (terminated : Terminated inside c c')
    (written : ∀ {d d'}, inside d d' → Across language d d') : Across (Ended language) c c' := by
  obtain ⟨place, terminated⟩ := terminated
  exact terminated.across written

end Cursor

open Cursor

mutual
/-- A statement is written where it stands. -/
theorem Phrase.Stands.across : ∀ (phrase : Phrase) {c c' : Cursor}, phrase.Stands c c' →
    Across phrase.language c c'
  | .branch test yes, _, _, ⟨c₁, c₂, word, framed, framed'⟩ => by
      have first := framed.across fun inner => inner.across (RowStands.across test)
      have second := framed'.across fun inner => inner.across (RowStands.across yes)
      simp only [Phrase.language, across_mul, across_singleton, spelled_singleton]
      exact ⟨c₂, ⟨c₁, word, first⟩, second⟩
  | .branchElse test yes no, _, _, ⟨c₁, c₂, c₃, c₄, word, framed, framed', word', framed''⟩ => by
      have first := framed.across fun inner => inner.across (RowStands.across test)
      have second := framed'.across fun inner => inner.across (RowStands.across yes)
      have third := framed''.across fun inner => inner.across (RowStands.across no)
      simp only [Phrase.language, across_mul, across_singleton, spelled_singleton]
      exact ⟨c₄, ⟨c₃, ⟨c₂, ⟨c₁, word, first⟩, second⟩, word'⟩, third⟩
  | .loop header _ body, _, _, ⟨c₁, c₂, word, framed, framed'⟩ => by
      have first := framed.across fun inner => inner.across (RowStands.across header)
      have second := framed'.across fun inner => inner.across (RowStands.across body)
      simp only [Phrase.language, across_mul, across_singleton, spelled_singleton]
      exact ⟨c₂, ⟨c₁, word, first⟩, second⟩
  | .expression series, _, _, stands => SeriesStands.across series stands

theorem RowStands.across : ∀ (row : List Phrase) {c c' : Cursor}, RowStands row c c' →
    Across (rowLanguage row) c c'
  | phrase :: rest, _, _, ⟨c₁, stands, further⟩ =>
      across_mul.mpr ⟨c₁, Phrase.Stands.across phrase stands, RestStands.across rest further⟩

theorem RestStands.across : ∀ (rest : List Phrase) {c c' : Cursor}, RestStands rest c c' →
    Across (restLanguage rest) c c'
  | [], _, _, same => across_one.mpr same
  | phrase :: rest, _, _, ⟨c₁, c₂, reads, stands, further⟩ => by
      simp only [restLanguage, across_mul, across_singleton, spelled_singleton]
      exact ⟨c₂, ⟨c₁, reads, Phrase.Stands.across phrase stands⟩, RestStands.across rest further⟩

theorem SeriesStands.across : ∀ (series : Series Operand) {c c' : Cursor},
    SeriesStands series c c' → Across (seriesLanguage series) c c'
  | .last _ operand, _, _, ⟨c₁, nots, stands⟩ =>
      across_mul.mpr ⟨c₁, across_singleton.mpr nots, Operand.Stands.across operand stands⟩
  | .link _ operand _ rest, _, _, ⟨free, c₁, c₂, c₃, nots, stands, reads, further⟩ => by
      rw [seriesLanguage, free]
      simp only [Bool.false_eq_true, if_false, across_mul, across_singleton, spelled_singleton]
      exact ⟨c₃, ⟨c₂, ⟨c₁, nots, Operand.Stands.across operand stands⟩, reads⟩,
        SeriesStands.across rest further⟩

theorem Operand.Stands.across : ∀ (operand : Operand) {c c' : Cursor}, operand.Stands c c' →
    Across operand.language c c'
  | .block _ body, _, _, stands => Framed.across stands fun ⟨d₁, written, inner⟩ =>
      across_mul.mpr ⟨d₁, across_singleton.mpr written, inner.across (RowStands.across body)⟩
  | .call _ arguments, _, _, ⟨c₁, name, framed⟩ => by
      refine across_mul.mpr ⟨c₁, name.across, framed.across fun inner => across_add.mpr ?_⟩
      rcases inner with ⟨rfl, rfl⟩ | inner
      · exact .inl (across_one.mpr rfl)
      · exact .inr (inner.across (RowStands.across arguments))
  | .assign _ value, _, _, ⟨c₁, c₂, name, equals, inner⟩ =>
      across_mul.mpr ⟨c₂, across_singleton.mpr ⟨c₁, name, c₂, equals, rfl⟩,
        SeriesStands.across value inner⟩
  | .bool _, _, _, reads | .float _ _, _, _, reads | .var _, _, _, reads => Reads.across reads
  | .int _ _, _, _, ⟨reads, _⟩ => reads.across
  | .group series, _, _, stands => Framed.across stands (SeriesStands.across series)
end

namespace Scanner

/-- What is found here is written here. -/
def SoundAt (c : Cursor) : Prop :=
  (∀ row c', anyStatements.find c = some (row, c') →
    Across (Ended (rowLanguage row.phrases)) c c') ∧
  ∀ series c', anyExpression.find c = some (series, c') → Across (seriesLanguage series) c c'

/-- **The scanners are sound.** -/
theorem soundAt (c : Cursor) : SoundAt c := by
  constructor
  · intro row c' found
    exact ((standsAt c).1 row c' found).across (RowStands.across row.phrases)
  · intro series c' found
    exact SeriesStands.across series ((standsAt c).2 series c' found)

theorem across_signed {first : Nat × Operand} {c c' : Cursor}
    (found : (signed anyStatements anyExpression).find c = some (first, c')) :
    Across (seriesLanguage (.last first.1 first.2)) c c' :=
  SeriesStands.across _ (stands_signed (fun d _ => standsAt d) (Nat.le_refl _) found).1

theorem across_statement {phrase : Phrase} {c c' : Cursor}
    (found : (statement anyStatements anyExpression).find c = some (phrase, c')) :
    Across phrase.language c c' :=
  Phrase.Stands.across _ (stands_statement (fun d _ => standsAt d) (Nat.le_refl _) found)

end Scanner

end BlockScript
