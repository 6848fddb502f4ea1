import BlockScript.Proofs.Reading.Lexemes

/-!
# What each rule finds

The rules of the grammar, one by one, as statements about the lexemes that are read and
about what the scanners for the inside of the rule find.  Further on no rule is opened
again.
-/

set_option autoImplicit false

namespace BlockScript

namespace Scanner

open Cursor

variable {α β : Type}

theorem find_bind_iff {p : Scanner α} {f : α → Scanner β} [∀ a, Blind (f a)] {c c' : Cursor}
    {b : β} : (p >>= f).find c = some (b, c') ↔
      ∃ a c₁, p.find c = some (a, c₁) ∧ (f a).find c₁ = some (b, c') := by
  simp [Option.bind_eq_some_iff]

theorem find_pure_iff {a b : α} {c c' : Cursor} :
    (pure a : Scanner α).find c = some (b, c') ↔ b = a ∧ c' = c := by
  simp [eq_comm]

/-! ## Words and literals -/

theorem find_name {x : String} {c c' : Cursor} :
    name.find c = some (x, c') ↔ Reads (.name x) c c' := by
  rw [name, find_named, find_ofStep, name_iff_reads]

theorem find_negation {c c' : Cursor} {u : Unit} :
    negation.find c = some (u, c') ↔ Reads .negation c c' := by
  rw [negation, find_named, find_ofStep, negation_iff_reads]

theorem find_boolean {o : Operand} {c c' : Cursor} :
    boolean.find c = some (o, c') ↔ ∃ value, Reads (.bool value) c c' ∧ o = .bool value := by
  have word (value : Bool) (o : Operand) (c' : Cursor) :
      (ofStep (word? (Lexeme.bool value).spelling) >>= fun _ =>
        (pure (.bool value) : Scanner Operand)).find c = some (o, c') ↔
        Reads (.bool value) c c' ∧ o = .bool value := by
    simp only [find_bind_iff, find_ofStep, find_pure_iff, bool_iff_reads]
    grind
  rw [boolean, find_named, find_orElse, Option.or_eq_some_iff]
  constructor
  · rintro (found | ⟨-, found⟩)
    · exact ⟨true, (word true o c').mp found⟩
    · exact ⟨false, (word false o c').mp found⟩
  · rintro ⟨value, reads, rfl⟩
    cases value with
    | true => exact .inl ((word true _ c').mpr ⟨reads, rfl⟩)
    | false =>
        refine .inr ⟨?_, (word false _ c').mpr ⟨reads, rfl⟩⟩
        rw [Option.eq_none_iff_forall_ne_some]
        rintro ⟨o, c₁⟩ found
        cases (reads.unique ((word true o c₁).mp found).1).1

theorem find_float {o : Operand} {c c' : Cursor} :
    float.find c = some (o, c') ↔
      ∃ whole fraction, Reads (.float whole fraction) c c' ∧ o = .float whole fraction := by
  simp only [float, find_named, find_bind_iff, find_ofStep, find_pure_iff, Prod.exists,
    float_iff_reads]
  grind

theorem find_float_eq_none {c : Cursor} : float.find c = none ↔ fraction? c = none := by
  simp only [float, find_named, find_bind, find_ofStep, Option.bind_eq_none_iff]
  constructor
  · intro refused
    rw [Option.eq_none_iff_forall_ne_some]
    intro r found
    cases refused r found
  · intro refused r found
    rw [refused] at found
    cases found

theorem find_integer {o : Operand} {c c' : Cursor} :
    integer.find c = some (o, c') ↔
      ∃ digits, digits? c = some (digits, c') ∧
        o = .int digits ⟨c.pos, c.pos + digits.length⟩ := by
  simp only [integer, find_named, find_bind_iff, find_ofStep, find_pure_iff, find_position]
  grind

theorem find_reference {o : Operand} {c c' : Cursor} :
    reference.find c = some (o, c') ↔ ∃ x, Reads (.name x) c c' ∧ o = .var x := by
  simp only [reference, find_named, find_bind_iff, find_pure_iff, find_name]
  grind

/-! ## Rules with an inside -/

section Inside

-- The longest rules are sequences of eight.
set_option synthInstance.maxSize 512

variable {S : Scanner Listing} {E : Scanner (Series Operand)} [Blind S] [Blind E]
  {c c' : Cursor}

theorem find_block {o : Operand} : (block S).find c = some (o, c') ↔
    ∃ c₁ names c₂ body c₃, Reads (.opening .curly) c c₁ ∧
      (optional parameters).find c₁ = some (names, c₂) ∧ S.find c₂ = some (body, c₃) ∧
      Reads (.closing .curly) c₃ c' ∧ o = .block (names.getD []) body.phrases := by
  simp only [block, find_named, find_bind_iff, find_mark, find_pure_iff, openCurly_iff_reads,
    closeCurly_iff_reads]
  grind

theorem find_call {o : Operand} : (call S).find c = some (o, c') ↔
    ∃ x c₁ c₂ arguments c₃, Reads (.name x) c c₁ ∧ Reads (.opening .round) c₁ c₂ ∧
      (optional S).find c₂ = some (arguments, c₃) ∧ Reads (.closing .round) c₃ c' ∧
      o = .call x ((arguments.map Listing.phrases).getD []) := by
  simp only [call, find_named, find_bind_iff, find_mark, find_pure_iff, find_name,
    openRound_iff_reads, closeRound_iff_reads]
  grind

theorem find_assignment {o : Operand} : (assignment E).find c = some (o, c') ↔
    ∃ x c₁ c₂ value, Reads (.name x) c c₁ ∧ Reads .equals c₁ c₂ ∧
      E.find c₂ = some (value, c') ∧ o = .assign x value := by
  simp only [assignment, find_named, find_bind_iff, find_pure_iff, find_name, equals_iff_reads]
  grind

theorem find_group {o : Operand} : (group E).find c = some (o, c') ↔
    ∃ c₁ inner c₂, Reads (.opening .round) c c₁ ∧ E.find c₁ = some (inner, c₂) ∧
      Reads (.closing .round) c₂ c' ∧ o = .group inner := by
  simp only [group, find_bind_iff, find_mark, find_pure_iff, openRound_iff_reads,
    closeRound_iff_reads]
  grind

/-- Statements are found between brackets. -/
def Between (S : Scanner Listing) (bracket : Bracket) (inner : Listing) (c c' : Cursor) : Prop :=
  ∃ c₁ c₂, Reads (.opening bracket) c c₁ ∧ S.find c₁ = some (inner, c₂) ∧
    Reads (.closing bracket) c₂ c'

theorem find_elsePart {no : Listing} : (elsePart S).find c = some (no, c') ↔
    ∃ c₁, Reads .elseWord c c₁ ∧ Between S .curly no c₁ c' := by
  simp only [elsePart, find_bind_iff, find_mark, find_pure_iff, openCurly_iff_reads,
    closeCurly_iff_reads]
  constructor
  · rintro ⟨_, c₁, word, _, c₂, opens, no, c₃, found, _, _, closes, rfl, rfl⟩
    exact ⟨c₁, word_before_bracket (by simp) word opens, c₂, c₃, opens, found, closes⟩
  · rintro ⟨c₁, word, c₂, c₃, opens, found, closes⟩
    exact ⟨(), c₁, mark?_of_reads word, (), c₂, opens, no, c₃, found, (), c', closes, rfl, rfl⟩

theorem find_loop {phrase : Phrase} : (loop S).find c = some (phrase, c') ↔
    ∃ c₁ header c₂ body, Reads .forWord c c₁ ∧ Between S .round header c₁ c₂ ∧
      Between S .curly body c₂ c' ∧
      phrase = .loop header.phrases header.span body.phrases := by
  simp only [loop, find_named, find_bind_iff, find_mark, find_pure_iff, openCurly_iff_reads,
    closeCurly_iff_reads, openRound_iff_reads, closeRound_iff_reads]
  constructor
  · rintro ⟨_, c₁, word, _, c₂, opens, header, c₃, found, _, c₄, closes, _, c₅, opens', body, c₆,
      found', _, _, closes', rfl, rfl⟩
    exact ⟨c₁, header, c₄, body, word_before_bracket (by simp) word opens,
      ⟨c₂, c₃, opens, found, closes⟩, ⟨c₅, c₆, opens', found', closes'⟩, rfl⟩
  · rintro ⟨c₁, header, c₄, body, word, ⟨c₂, c₃, opens, found, closes⟩,
      ⟨c₅, c₆, opens', found', closes'⟩, rfl⟩
    exact ⟨(), c₁, mark?_of_reads word, (), c₂, opens, header, c₃, found, (), c₄, closes, (), c₅,
      opens', body, c₆, found', (), c', closes', rfl, rfl⟩

theorem find_conditional {phrase : Phrase} : (conditional S).find c = some (phrase, c') ↔
    ∃ c₁ test c₂ yes c₃ no, Reads .ifWord c c₁ ∧ Between S .round test c₁ c₂ ∧
      Between S .curly yes c₂ c₃ ∧ (optional (elsePart S)).find c₃ = some (no, c') ∧
      phrase = conditionalOf test yes no := by
  simp only [conditional_eq, find_named, find_bind_iff, find_mark, find_pure_iff,
    openCurly_iff_reads, closeCurly_iff_reads, openRound_iff_reads, closeRound_iff_reads]
  constructor
  · rintro ⟨_, c₁, word, _, c₂, opens, test, c₃, found, _, c₄, closes, _, c₅, opens', yes, c₆,
      found', _, c₇, closes', no, _, otherwise, rfl, rfl⟩
    exact ⟨c₁, test, c₄, yes, c₇, no, word_before_bracket (by simp) word opens,
      ⟨c₂, c₃, opens, found, closes⟩, ⟨c₅, c₆, opens', found', closes'⟩, otherwise, rfl⟩
  · rintro ⟨c₁, test, c₄, yes, c₇, no, word, ⟨c₂, c₃, opens, found, closes⟩,
      ⟨c₅, c₆, opens', found', closes'⟩, otherwise, rfl⟩
    exact ⟨(), c₁, mark?_of_reads word, (), c₂, opens, test, c₃, found, (), c₄, closes, (), c₅,
      opens', yes, c₆, found', (), c₇, closes', no, c', otherwise, rfl, rfl⟩

/-! ## Rows -/

/-- The names behind the first parameter. -/
def moreNames : Scanner String := do mark [',']; name

/-- An operator and the operand behind it. -/
def link (S : Scanner Listing) (E : Scanner (Series Operand)) :
    Scanner (BinaryOp × Nat × Operand) := do
  let op ← anyOperator
  return (op, ← signed S E)

/-- A statement behind a `;`. -/
def furtherStatement (S : Scanner Listing) (E : Scanner (Series Operand)) : Scanner Phrase := do
  mark [';']
  statement S E

theorem parameters_eq : parameters = named .parameters do
    mark ['|']
    let first ← name
    let rest ← many moreNames
    mark ['|']
    return first :: rest := rfl

omit [Blind S] [Blind E] in
theorem series_eq : series S E = named .expression do
    let first ← signed S E
    let rest ← many (link S E)
    return .ofLinks first rest := rfl

omit [Blind S] [Blind E] in
theorem listing_eq : listing S E = named .statements do
    let start ← position
    let first ← statement S E
    let rest ← many (furtherStatement S E)
    let ended ← optional terminator
    let here ← position
    return ⟨first :: rest, ⟨start, ended.getD here⟩⟩ := rfl

instance : Blind moreNames := by unfold moreNames; infer_instance
instance : Consumes moreNames := by unfold moreNames; infer_instance

theorem find_moreNames {x : String} : moreNames.find c = some (x, c') ↔
    Spelled [.comma, .name x] c c' := by
  simp only [moreNames, find_bind_iff, find_mark, comma_iff_reads, find_name, spelled_cons,
    spelled_nil]
  grind

theorem find_parameters {names : List String} : parameters.find c = some (names, c') ↔
    ∃ c₁ x c₂ rest c₃, Reads .bar c c₁ ∧ Reads (.name x) c₁ c₂ ∧ Repeats moreNames c₂ rest c₃ ∧
      Reads .bar c₃ c' ∧ names = x :: rest := by
  simp only [parameters_eq, find_named, find_bind_iff, find_mark, bar_iff_reads, find_name,
    find_pure_iff, find_many_eq_some_iff]
  grind

theorem find_signed {nots : Nat} {o : Operand} : (signed S E).find c = some ((nots, o), c') ↔
    ∃ row c₁, Repeats negation c row c₁ ∧ (operand S E).find c₁ = some (o, c') ∧
      nots = row.length := by
  simp only [signed, find_bind_iff, find_many_eq_some_iff, find_pure_iff, Prod.mk.injEq]
  grind

theorem find_link {op : BinaryOp} {next : Nat × Operand} :
    (link S E).find c = some ((op, next), c') ↔
      ∃ c₁, Reads (.operator op) c c₁ ∧ (signed S E).find c₁ = some (next, c') := by
  simp only [link, find_bind_iff, operator_iff_reads, find_pure_iff, Prod.mk.injEq]
  grind

variable [Shrinks S] [Shrinks E]

instance : Blind (link S E) := by unfold link; infer_instance
instance : Consumes (link S E) := by unfold link; infer_instance
instance : Blind (furtherStatement S E) := by unfold furtherStatement; infer_instance
instance : Consumes (furtherStatement S E) := by unfold furtherStatement; infer_instance

theorem find_series {s : Series Operand} : (series S E).find c = some (s, c') ↔
    ∃ first c₁ rest, (signed S E).find c = some (first, c₁) ∧ Repeats (link S E) c₁ rest c' ∧
      s = .ofLinks first rest := by
  simp only [series_eq, find_named, find_bind_iff, find_many_eq_some_iff, find_pure_iff]
  grind

theorem find_statement : (statement S E).find c =
    ((conditional S).find c).or (((loop S).find c).or
      (((series S E).find c).map fun r => (.expression r.1, r.2))) := by
  simp only [statement, find_orElse, find_bind, find_pure]
  cases (series S E).find c <;> rfl

theorem find_furtherStatement {phrase : Phrase} :
    (furtherStatement S E).find c = some (phrase, c') ↔
      ∃ c₁, Reads .semicolon c c₁ ∧ (statement S E).find c₁ = some (phrase, c') := by
  simp only [furtherStatement, find_bind_iff, find_mark, semicolon_iff_reads]
  grind

omit [Shrinks S] [Shrinks E] [Blind S] [Blind E] in
theorem find_terminator {pos : Nat} :
    terminator.find c = some (pos, c') ↔ Reads .semicolon c c' ∧ pos = c.pos + 1 := by
  simp only [terminator, find_bind_iff, find_position, find_mark, semicolon_iff_reads,
    find_pure_iff]
  grind

theorem find_listing {listing' : Listing} : (listing S E).find c = some (listing', c') ↔
    ∃ first c₁ rest c₂ ended, (statement S E).find c = some (first, c₁) ∧
      Repeats (furtherStatement S E) c₁ rest c₂ ∧
      (optional terminator).find c₂ = some (ended, c') ∧
      listing' = ⟨first :: rest, ⟨c.pos, ended.getD c'.pos⟩⟩ := by
  simp only [listing_eq, find_named, find_bind_iff, find_many_eq_some_iff, find_pure_iff,
    find_position]
  grind

end Inside

end Scanner

end BlockScript
