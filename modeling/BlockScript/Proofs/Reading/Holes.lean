import BlockScript.Proofs.Reading.Graft
import BlockScript.Proofs.Reading.Levels

/-!
# Holes in programs

The lexemes that have been read up to some place of a text leave a hole there if they are the
front of a program and it is known what may fill the gap between them and the rest of that
program (`Hole`).  What stands behind the hole is made up: brackets that close what is open,
and a stand-in where something has to stand (`Falls`).  Made-up lexemes never go deeper than
the text before them does, so a program with a hole in it respects the nesting limit as soon
as the text does.

Reading a lexeme moves a hole: the hole for an expression becomes a hole for statements
behind a `{`, with a `}` more behind it.  Each way to do so is a fact about what can be put
together, without regard to trees (`Any`).

A place with a hole that a stand-in fits is a place from which the text can be continued
(`Viable.continues`).
-/

set_option autoImplicit false

namespace BlockScript

open Nesting Cursor

/-! ## All that can be written -/

/-- All that can be written as something of a kind. -/
def Any {α : Type} (language : α → Language Lexeme) : Language Lexeme :=
  {lexemes | ∃ a, lexemes ∈ language a}

/-- Rows of statements that may end in a `;`. -/
abbrev AnyRow : Language Lexeme := Any fun row => Ended (rowLanguage row)

section Any

variable {a b d : List Lexeme}

theorem mem_any {α : Type} {language : α → Language Lexeme} {x : α} (member : a ∈ language x) :
    a ∈ Any language :=
  ⟨x, member⟩

theorem any_row (row : a ∈ Any rowLanguage) : a ∈ AnyRow := by
  obtain ⟨row, member⟩ := row
  exact ⟨row, mem_ended member⟩

theorem any_phrase_row (phrase : a ∈ Any Phrase.language) : a ∈ Any rowLanguage := by
  obtain ⟨phrase, member⟩ := phrase
  have whole : a ++ [] ∈ rowLanguage [phrase] := Language.append_mem_mul member rfl
  rw [List.append_nil] at whole
  exact ⟨[phrase], whole⟩

theorem any_row_semicolon (row : a ∈ Any rowLanguage) (phrase : b ∈ Any Phrase.language) :
    a ++ .semicolon :: b ∈ Any rowLanguage := by
  obtain ⟨row, member⟩ := row
  obtain ⟨more, member'⟩ := any_phrase_row phrase
  exact ⟨row ++ more, mem_rowLanguage_append member member'⟩

theorem any_branch (test : a ∈ AnyRow) (yes : b ∈ AnyRow) :
    .ifWord :: (enclose .round a ++ enclose .curly b) ∈ Any Phrase.language := by
  obtain ⟨test, first⟩ := test
  obtain ⟨yes, second⟩ := yes
  exact ⟨.branch test yes, mem_branch first second⟩

theorem any_branchElse (test : a ∈ AnyRow) (yes : b ∈ AnyRow) (no : d ∈ AnyRow) :
    .ifWord :: (enclose .round a ++ (enclose .curly b ++ .elseWord :: enclose .curly d)) ∈
      Any Phrase.language := by
  obtain ⟨test, first⟩ := test
  obtain ⟨yes, second⟩ := yes
  obtain ⟨no, third⟩ := no
  exact ⟨.branchElse test yes no, mem_branchElse first second third⟩

theorem any_loop (header : a ∈ AnyRow) (body : b ∈ AnyRow) :
    .forWord :: (enclose .round a ++ enclose .curly b) ∈ Any Phrase.language := by
  obtain ⟨header, first⟩ := header
  obtain ⟨body, second⟩ := body
  exact ⟨.loop header ⟨0, 0⟩ body, mem_loop ⟨0, 0⟩ first second⟩

theorem any_expression (series : a ∈ Any seriesLanguage) : a ∈ Any Phrase.language := by
  obtain ⟨series, member⟩ := series
  exact ⟨.expression series, member⟩

theorem any_block (names : List String) (body : a ∈ AnyRow) :
    enclose .curly (parameterLexemes names ++ a) ∈ Any Operand.language := by
  obtain ⟨body, member⟩ := body
  exact ⟨.block names body, mem_block names member⟩

theorem any_call (x : String) (arguments : a ∈ AnyRow) :
    .name x :: enclose .round a ∈ Any Operand.language := by
  obtain ⟨arguments, member⟩ := arguments
  exact ⟨.call x arguments, mem_call x (.inr member)⟩

theorem any_assign (x : String) (value : a ∈ Any seriesLanguage) :
    .name x :: .equals :: a ∈ Any Operand.language := by
  obtain ⟨value, member⟩ := value
  exact ⟨.assign x value, mem_assign x member⟩

theorem any_group (series : a ∈ Any seriesLanguage) :
    enclose .round a ∈ Any Operand.language := by
  obtain ⟨series, member⟩ := series
  exact ⟨.group series, mem_group member⟩

theorem any_operand_series (operand : a ∈ Any Operand.language) : a ∈ Any seriesLanguage := by
  obtain ⟨o, member⟩ := operand
  exact ⟨.last 0 o, mem_last 0 member⟩

theorem any_negation (series : a ∈ Any seriesLanguage) :
    .negation :: a ∈ Any seriesLanguage := by
  obtain ⟨series, member⟩ := series
  cases series with
  | last nots o =>
      obtain ⟨_, rfl, b, inner, rfl⟩ := member
      exact ⟨.last (nots + 1) o, mem_last (nots + 1) inner⟩
  | link nots o op rest =>
      rw [seriesLanguage] at member
      split at member
      · exact absurd member (Language.notMem_zero _)
      · rename_i free
        obtain ⟨_, ⟨_, ⟨_, rfl, b, inner, rfl⟩, _, rfl, rfl⟩, d, further, rfl⟩ := member
        have whole := mem_link (nots + 1) op (by simpa using free) inner further
        exact ⟨.link (nots + 1) o op rest, by simpa [List.replicate_succ] using whole⟩

/-- An operator and a series may follow any series.  If the series ends in an assignment,
they go on with its value. -/
theorem any_link (op : BinaryOp) (further : b ∈ Any seriesLanguage) :
    ∀ (series : Series Operand) {a : List Lexeme}, a ∈ seriesLanguage series →
      a ++ .operator op :: b ∈ Any seriesLanguage
  | .last nots o, _, ⟨_, rfl, a, inner, rfl⟩ => by
      cases o with
      | assign x value =>
          obtain ⟨_, rfl, a, inner, rfl⟩ := inner
          obtain ⟨value', member⟩ := any_link op further value inner
          have whole := mem_last nots (mem_assign x member)
          exact ⟨_, by simpa using whole⟩
      | _ =>
          obtain ⟨rest, last⟩ := further
          have whole := mem_link nots op rfl inner last
          exact ⟨_, by simpa using whole⟩
  | .link nots o op' rest, _, member => by
      rw [seriesLanguage] at member
      split at member
      · exact absurd member (Language.notMem_zero _)
      · rename_i free
        obtain ⟨_, ⟨_, ⟨_, rfl, a, inner, rfl⟩, _, rfl, rfl⟩, d, last, rfl⟩ := member
        obtain ⟨rest', member'⟩ := any_link op further rest last
        have whole := mem_link nots op' (by simpa using free) inner member'
        exact ⟨_, by simpa using whole⟩

end Any

/-! ## Made-up lexemes -/

namespace Lexeme

/-- A lexeme that never goes deeper. -/
def lowers : Lexeme → Bool
  | .closing _ | .bar | .name _ | .float _ _ => true
  | _ => false

/-- What stands in for an operand. -/
def standIn : Lexeme := .float [] ['5']

/-- What stands in for a parameter. -/
def standInName : Lexeme := .name "x"

theorem proper_standIn : standIn.Proper := ⟨by simp, nofun, List.all_eq_true.mp rfl⟩

theorem proper_standInName : standInName.Proper :=
  ⟨⟨'x', [], by decide, by decide, nofun⟩, by decide⟩

end Lexeme

open Lexeme

theorem any_standIn : [standIn] ∈ Any Operand.language := ⟨.float [] ['5'], rfl⟩

theorem any_standIn_series : [standIn] ∈ Any seriesLanguage := any_operand_series any_standIn

theorem any_standIn_phrase : [standIn] ∈ Any Phrase.language := any_expression any_standIn_series

theorem any_standIn_row : [standIn] ∈ AnyRow := any_row (any_phrase_row any_standIn_phrase)

/-- Lexemes along which the depth never exceeds what it was before them; a `)` may be
followed by a `{`, which goes as deep as its `(` did. -/
inductive Falls : List Lexeme → Prop where
  | nil : Falls []
  | lower {lexeme : Lexeme} {rest : List Lexeme} (proper : lexeme.Proper)
      (low : lexeme.lowers = true) (further : Falls rest) : Falls (lexeme :: rest)
  | reopen {rest : List Lexeme} (further : Falls rest) :
      Falls (.closing .round :: .opening .curly :: rest)

namespace Falls

variable {lexemes more : List Lexeme}

theorem closing (bracket : Bracket) : Falls [.closing bracket] := .lower trivial rfl .nil

theorem standIn : Falls [standIn] := .lower proper_standIn rfl .nil

theorem append (first : Falls lexemes) (second : Falls more) : Falls (lexemes ++ more) := by
  induction first with
  | nil => exact second
  | lower proper low _ ih => exact .lower proper low ih
  | reopen _ ih => exact .reopen ih

theorem legible (falls : Falls lexemes) : Legible lexemes := by
  induction falls with
  | nil => exact .nil
  | lower proper low _ ih =>
      refine .cons proper ?_ ih
      rintro rfl
      cases low
  | reopen _ ih => exact .cons trivial nofun (.cons trivial nofun ih)

theorem not_startsEqual {first : Lexeme} {rest : List Lexeme} (falls : Falls (first :: rest)) :
    first.startsEqual = false := by
  cases falls with
  | lower _ low _ =>
      cases first with
      | closing | bar | name | float => rfl
      | _ => cases low
  | reopen _ => rfl

theorem within (falls : Falls lexemes) {limit : Nat} (positive : 1 ≤ limit) {s : Nesting}
    (low : s.depth ≤ limit) : Within limit (effectsOf lexemes) s := by
  induction falls generalizing s with
  | nil => trivial
  | @lower lexeme rest _ lowers _ ih =>
      cases lexeme with
      | closing bracket =>
          have lower : (apply .closes s).depth ≤ limit := Nat.le_trans (Nat.sub_le _ _) low
          exact ⟨lower, ih lower⟩
      | bar | name | float => exact ih low
      | _ => cases lowers
  | reopen _ ih =>
      have lower : (apply .closes s).depth ≤ limit := Nat.le_trans (Nat.sub_le _ _) low
      have again : (apply .opens (apply .closes s)).depth ≤ limit := by
        simp only [apply]
        omega
      exact ⟨lower, again, ih again⟩

end Falls

/-! ## Holes -/

/-- Lexemes of a language fit between what has been read up to a place and made-up lexemes. -/
def Hole (text : List Char) (language : Language Lexeme) (c : Cursor) : Prop :=
  ∃ before after, Spelled before (start text).skipGap c ∧ Falls after ∧
    ∀ lexemes ∈ language, before ++ (lexemes ++ after) ∈ AnyRow

/-- What has been read up to a place goes on with made-up lexemes as a program. -/
def Viable (text : List Char) (c : Cursor) : Prop :=
  ∃ before more, Spelled before (start text).skipGap c ∧ Falls more ∧ before ++ more ∈ AnyRow

namespace Hole

variable {text : List Char} {L M : Language Lexeme} {c c' : Cursor}

theorem viable (hole : Hole text L c) {lexemes : List Lexeme} (member : lexemes ∈ L)
    (falls : Falls lexemes) : Viable text c := by
  obtain ⟨before, after, spelled, falls', fits⟩ := hole
  exact ⟨before, lexemes ++ after, spelled, falls.append falls', fits lexemes member⟩

/-- Behind what fills a hole the text can be continued. -/
theorem viable_behind (hole : Hole text L c) {lexemes : List Lexeme}
    (spelled : Spelled lexemes c c') (member : lexemes ∈ L) : Viable text c' := by
  obtain ⟨before, after, spelled', falls, fits⟩ := hole
  refine ⟨before ++ lexemes, after, spelled'.append spelled, falls, ?_⟩
  simpa using fits lexemes member

theorem start (text : List Char) : Hole text AnyRow (start text).skipGap := by
  refine ⟨[], [], rfl, .nil, fun lexemes member => ?_⟩
  simpa using member

/-- Lexemes that are read move a hole, and what they open is closed behind it. -/
theorem move (hole : Hole text L c) {lexemes : List Lexeme} (spelled : Spelled lexemes c c')
    {close : List Lexeme} (falls : Falls close)
    (fits : ∀ inner ∈ M, lexemes ++ (inner ++ close) ∈ L) : Hole text M c' := by
  obtain ⟨before, after, spelled', falls', fits'⟩ := hole
  refine ⟨before ++ lexemes, close ++ after, spelled'.append spelled, falls.append falls',
    fun inner member => ?_⟩
  simpa using fits' _ (fits inner member)

theorem mono (hole : Hole text L c) (le : ∀ lexemes ∈ M, lexemes ∈ L) : Hole text M c := by
  refine hole.move (spelled_nil.mpr rfl) .nil fun inner member => ?_
  simpa using le inner member

end Hole

namespace Viable

variable {text front : List Char} {c : Cursor}

theorem bare (viable : Viable text c) : Bare c.rest := by
  obtain ⟨before, _, spelled, -⟩ := viable
  exact spelled.bare (skipGap_eq_iff.mp rfl).choose_spec.2.2.2

/-- A place is given by the text before it, which is ASCII text. -/
theorem place (viable : Viable text c) :
    ∃ front, text = front ++ c.rest ∧ c.pos = front.length ∧ ∀ x ∈ front, x.val ≤ 127 := by
  obtain ⟨before, _, spelled, -⟩ := viable
  generalize landed : (start text).skipGap = c₀ at spelled
  obtain ⟨gap, split, pos, blank, -⟩ := skipGap_eq_iff.mp landed
  obtain ⟨front, split', pos', ascii⟩ := spelled.front
  refine ⟨gap ++ front, by simp [split, split'], by simp [pos, pos'], fun x member => ?_⟩
  rcases List.mem_append.mp member with member | member
  · exact ascii_of_isGap (blank x member)
  · exact ascii x member

/-- **The text up to a viable place can be continued**, within the limit that it respects. -/
theorem continues (viable : Viable text c) (split : text = front ++ c.rest) {limit : Nat}
    (positive : 1 ≤ limit) (within : Within limit (effects none text) outside) :
    ∃ more phrases lexemes, lexemes ∈ Ended (rowLanguage phrases) ∧
      ReadsAs (front ++ more) lexemes ∧ Within limit (effectsOf lexemes) outside := by
  obtain ⟨before, made, spelled, falls, phrases, member⟩ := viable
  have placed := ((Balanced.all_row phrases).ended _ member).placed.of_append
  refine ⟨' ' :: write made, phrases, before ++ made, member, ?_, ?_⟩
  · refine falls.legible.readsAs_behind (fun first head => ?_) spelled split
    obtain ⟨rest, rfl⟩ := List.head?_eq_some_iff.mp head
    exact falls.not_startsEqual
  · obtain ⟨first, skipped⟩ := effects_skipGap text
    obtain ⟨last, walked⟩ := effects_of_spelled placed spelled first
    rw [skipped, walked, within_append] at within
    rw [effectsOf_append, within_append]
    exact ⟨within.1, falls.within positive (within.1.depth_run_le (Nat.zero_le _))⟩

end Viable

end BlockScript
