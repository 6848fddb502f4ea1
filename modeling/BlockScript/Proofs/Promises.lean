import BlockScript.Proofs.Decimals
import BlockScript.Proofs.FrameGraph
import BlockScript.Proofs.Writing

/-!
# What evaluation may rely on

The tree that is read from an accepted text is a program in the sense of `Node.isProgram`: its
rows of statements are not empty, the tests of its conditionals are rows and nothing else is one,
its names are names, its integers are not negative, a `not` has `true` as its other operand, and
`if` and `for` stand only where statements do.  Its floats have no sign (`IsUnsigned`).  And its
block literals get labels that stand for no capture yet, whatever has been run before.

The names of a tree come from lexemes of the text, which are read only if they are proper, so the
induction goes over phrases together with lexemes that they are written with.
-/

set_option autoImplicit false

namespace BlockScript

/-! ## Lexemes that are read -/

theorem isIdentifier_of_isName {x : String} (named : IsName x.toList) : isIdentifier x = true := by
  obtain ⟨⟨first, rest, spelled, start, more⟩, free⟩ := named
  have unreserved : keywords.contains x = false := by
    rw [Bool.eq_false_iff]
    intro reserved
    have listed : ∀ word ∈ keywords, word.toList ∈ Cursor.reservedWords := by decide
    exact free (listed x (by simpa using reserved))
  have further : (rest.all fun y => y.isAlphanum || y == '_') = true := by
    rw [List.all_eq_true]
    intro y member
    simpa [isNameChar] using more y member
  have letter : first.isAlpha = true := start
  rw [isIdentifier, spelled]
  simp only [letter, further, unreserved]
  rfl

theorem Cursor.Spelled.proper {lexemes : List Lexeme} {c c' : Cursor}
    (spelled : Spelled lexemes c c') : ∀ lexeme ∈ lexemes, lexeme.Proper := by
  induction lexemes generalizing c with
  | nil => nofun
  | cons lexeme rest ih =>
      obtain ⟨c₁, reads, further⟩ := spelled
      exact List.forall_mem_cons.mpr ⟨reads.1, ih further⟩

/-! ## Properties that grouping keeps -/

section Grouping

variable {δ : Type} {P : Node δ → Prop}

/-- All operands of a series have a property. -/
def Series.All (P : Node δ → Prop) : Series (Node δ) → Prop
  | .last _ operand => P operand
  | .link _ operand _ rest => P operand ∧ rest.All P

/-- The property is kept by operators and by `not`. -/
structure KeptByGrouping (P : Node δ → Prop) : Prop where
  binary : ∀ {op left right}, P left → P right → P (.binary op left right)
  negation : ∀ {operand}, P operand → P (.negation operand)

namespace KeptByGrouping

theorem negations (kept : KeptByGrouping P) {operand : Node δ} (here : P operand) :
    ∀ nots, P (.negations nots operand)
  | 0 => here
  | nots + 1 => kept.negation (kept.negations here nots)

theorem settle (kept : KeptByGrouping P) {waiting : Waiting δ} {right : Node δ} (power : Nat)
    (waits : ∀ entry ∈ waiting, P entry.1) (here : P right) :
    (∀ entry ∈ (waiting.settle power right).1, P entry.1) ∧ P (waiting.settle power right).2 := by
  induction waiting generalizing right with
  | nil => exact ⟨waits, here⟩
  | cons entry rest ih =>
      obtain ⟨left, op⟩ := entry
      obtain ⟨first, further⟩ := List.forall_mem_cons.mp waits
      rw [Waiting.settle]
      split
      · exact ih further (kept.binary first here)
      · exact ⟨waits, here⟩

theorem arrange (kept : KeptByGrouping P) {series : Series (Node δ)} {waiting : Waiting δ}
    (waits : ∀ entry ∈ waiting, P entry.1) (all : series.All P) : P (series.arrange waiting) := by
  induction series generalizing waiting with
  | last nots operand => exact (kept.settle 0 waits (kept.negations all nots)).2
  | link nots operand op rest ih =>
      obtain ⟨first, further⟩ := all
      cases nots with
      | zero =>
          obtain ⟨waits', left⟩ := kept.settle op.power waits first
          exact ih (List.forall_mem_cons.mpr ⟨left, waits'⟩) further
      | succ nots =>
          have alone : ∀ entry ∈ [(operand, op)], P entry.1 := by simpa using first
          exact (kept.settle 0 waits (kept.negations (ih alone further) (nots + 1))).2

/-- **What all operands have and grouping keeps, the tree has.** -/
theorem group (kept : KeptByGrouping P) {series : Series (Node δ)} (all : series.All P) :
    P series.group :=
  kept.arrange (fun _ member => by cases member) all

end KeptByGrouping

end Grouping

/-! ## Trees of phrases -/

/-- A float in a tree has no sign. -/
def UnsignedFloat : Node Unit → Prop
  | .float value => IsUnsigned value
  | _ => True

/-- A tree that may stand at a place and whose floats have no sign. -/
structure Promised (place : Place) (tree : Node Unit) : Prop where
  wellFormed : tree.wellFormed place = true
  floats : tree.Every UnsignedFloat

/-- Statements that may stand in a row and whose floats have no sign. -/
structure PromisedAll (trees : List (Node Unit)) : Prop where
  wellFormed : Node.wellFormedAll trees = true
  floats : Node.EveryAll UnsignedFloat trees

theorem PromisedAll.cons {tree : Node Unit} {trees : List (Node Unit)}
    (first : Promised .statement tree) (rest : PromisedAll trees) : PromisedAll (tree :: trees) where
  wellFormed := by rw [Node.wellFormedAll, first.wellFormed, rest.wellFormed]; rfl
  floats := ⟨first.floats, rest.floats⟩

namespace Promised

/-- What may stand as an operand may stand as a statement. -/
theorem statement {tree : Node Unit} (promised : Promised .operand tree) :
    Promised .statement tree := by
  refine ⟨?_, promised.floats⟩
  have well := promised.wellFormed
  cases tree with
  | list | loop | branch | branchElse => cases well
  | logic op left right =>
      cases op with
      | not =>
          cases right with
          | bool value => cases value <;> exact well
          | _ => cases well
      | and | or => exact well
  | block | call | assign | var | compare | arith | int | float | bool => exact well

theorem keptByGrouping : KeptByGrouping (Promised .operand) where
  binary {op left right} first second := by
    refine ⟨?_, ?_⟩
    · have both : (left.wellFormed .operand && right.wellFormed .operand) = true := by
        rw [first.wellFormed, second.wellFormed]
        rfl
      cases op <;> exact both
    · cases op <;> exact ⟨trivial, first.floats, second.floats⟩
  negation here := ⟨here.wellFormed, trivial, here.floats, trivial⟩

end Promised

theorem promised_integer {digits : List Char} {place : Span} {tree : Node Unit}
    (made : integerNode digits place = .ok tree) : Promised .operand tree := by
  rw [integerNode] at made
  split at made
  · rename_i small
    cases made
    have exactly : (Int64.ofNat (natOfDigits digits)).toInt = natOfDigits digits :=
      Int64.toInt_ofNat_of_lt (Nat.lt_succ_of_le small)
    refine ⟨decide_eq_true ?_, trivial⟩
    rw [Int64.le_iff_toInt_le, exactly]
    exact Int.natCast_nonneg _
  · cases made

/-- Proper lexemes on both sides. -/
theorem proper_append {lexemes more : List Lexeme} :
    (∀ lexeme ∈ lexemes ++ more, lexeme.Proper) ↔
      (∀ lexeme ∈ lexemes, lexeme.Proper) ∧ ∀ lexeme ∈ more, lexeme.Proper :=
  List.forall_mem_append

theorem proper_of_mem_enclosed {bracket : Bracket} {L : Language Lexeme} {lexemes : List Lexeme}
    (member : lexemes ∈ Enclosed bracket L) (proper : ∀ lexeme ∈ lexemes, lexeme.Proper) :
    ∃ inner ∈ L, ∀ lexeme ∈ inner, lexeme.Proper := by
  obtain ⟨inner, inside, rfl⟩ := mem_enclosed_iff.mp member
  refine ⟨inner, inside, fun lexeme here => proper lexeme ?_⟩
  simp [enclose, here]

theorem proper_of_mem_ended {L : Language Lexeme} {lexemes : List Lexeme}
    (member : lexemes ∈ Ended L) (proper : ∀ lexeme ∈ lexemes, lexeme.Proper) :
    ∃ row ∈ L, ∀ lexeme ∈ row, lexeme.Proper := by
  obtain ⟨row, inside, ending, _, rfl⟩ := member
  exact ⟨row, inside, (proper_append.mp proper).1⟩

theorem named_of_parameters {names : List String}
    (proper : ∀ lexeme ∈ parameterLexemes names, lexeme.Proper) :
    names.all isIdentifier = true := by
  rw [List.all_eq_true]
  intro x member
  have written : .name x ∈ parameterLexemes names := by
    cases names with
    | nil => cases member
    | cons y rest =>
        rcases List.mem_cons.mp member with rfl | member
        · simp [parameterLexemes]
        · simp [parameterLexemes, member]
  exact isIdentifier_of_isName (proper _ written)

/-- The trees of statements between brackets. -/
theorem promised_enclosed {row : List Phrase} {bracket : Bracket} {lexemes : List Lexeme}
    {trees : List (Node Unit)}
    (inner : ∀ {lexemes trees}, lexemes ∈ rowLanguage row → (∀ lexeme ∈ lexemes, lexeme.Proper) →
      nodes row = .ok trees → trees ≠ [] ∧ PromisedAll trees)
    (member : lexemes ∈ Enclosed bracket (Ended (rowLanguage row)))
    (proper : ∀ lexeme ∈ lexemes, lexeme.Proper) (made : nodes row = .ok trees) :
    trees ≠ [] ∧ PromisedAll trees := by
  obtain ⟨_, inside, proper⟩ := proper_of_mem_enclosed member proper
  obtain ⟨_, inRow, proper⟩ := proper_of_mem_ended inside proper
  exact inner inRow proper made

mutual
/-- The tree of a statement that is written with proper lexemes. -/
theorem promised_phrase : ∀ (phrase : Phrase) {lexemes : List Lexeme} {tree : Node Unit},
    lexemes ∈ phrase.language → (∀ lexeme ∈ lexemes, lexeme.Proper) → phrase.node = .ok tree →
    Promised .statement tree
  | .branch test yes, lexemes, tree, member, proper, made => by
      simp only [Phrase.node, bind_eq_ok_iff, pure_eq_ok_iff] at made
      obtain ⟨tests, madeTest, yess, madeYes, rfl⟩ := made
      obtain ⟨_, ⟨_, rfl, a, inA, rfl⟩, b, inB, rfl⟩ := member
      simp only [proper_append] at proper
      obtain ⟨⟨-, properA⟩, properB⟩ := proper
      obtain ⟨someTest, first⟩ := promised_enclosed (promised_row test) inA properA madeTest
      obtain ⟨someYes, second⟩ := promised_enclosed (promised_row yes) inB properB madeYes
      refine ⟨?_, trivial, ⟨trivial, first.floats⟩, second.floats⟩
      simp [Node.wellFormed, someTest, someYes, first.wellFormed, second.wellFormed]
  | .branchElse test yes no, lexemes, tree, member, proper, made => by
      simp only [Phrase.node, bind_eq_ok_iff, pure_eq_ok_iff] at made
      obtain ⟨nos, madeNo, tests, madeTest, yess, madeYes, rfl⟩ := made
      obtain ⟨_, ⟨_, ⟨_, ⟨_, rfl, a, inA, rfl⟩, b, inB, rfl⟩, _, rfl, rfl⟩, c, inC, rfl⟩ := member
      simp only [proper_append] at proper
      obtain ⟨⟨⟨⟨-, properA⟩, properB⟩, -⟩, properC⟩ := proper
      obtain ⟨someTest, first⟩ := promised_enclosed (promised_row test) inA properA madeTest
      obtain ⟨someYes, second⟩ := promised_enclosed (promised_row yes) inB properB madeYes
      obtain ⟨someNo, third⟩ := promised_enclosed (promised_row no) inC properC madeNo
      refine ⟨?_, trivial, ⟨trivial, first.floats⟩, second.floats, third.floats⟩
      simp [Node.wellFormed, someTest, someYes, someNo, first.wellFormed, second.wellFormed,
        third.wellFormed]
  | .loop header place body, lexemes, tree, member, proper, made => by
      simp only [Phrase.node, bind_eq_ok_iff] at made
      obtain ⟨headers, madeHeader, made⟩ := made
      obtain ⟨_, ⟨_, rfl, a, inA, rfl⟩, b, inB, rfl⟩ := member
      simp only [proper_append] at proper
      obtain ⟨⟨-, properA⟩, properB⟩ := proper
      obtain ⟨-, first⟩ := promised_enclosed (promised_row header) inA properA madeHeader
      unfold loopNode at made
      split at made
      · simp only [bind_eq_ok_iff, pure_eq_ok_iff] at made
        obtain ⟨bodies, madeBody, rfl⟩ := made
        obtain ⟨someBody, second⟩ := promised_enclosed (promised_row body) inB properB madeBody
        obtain ⟨well, start, test, step, -⟩ := first
        refine ⟨?_, trivial, start, test, step, second.floats⟩
        simp only [Node.wellFormedAll, Bool.and_eq_true] at well
        simp [Node.wellFormed, well, someBody, second.wellFormed]
      · cases made
  | .expression series, lexemes, tree, member, proper, made => by
      simp only [Phrase.node, bind_eq_ok_iff, pure_eq_ok_iff] at made
      obtain ⟨operands, made, rfl⟩ := made
      exact (Promised.keptByGrouping.group (promised_series series member proper made)).statement

/-- The trees of a row of statements; there is at least one. -/
theorem promised_row : ∀ (row : List Phrase) {lexemes : List Lexeme} {trees : List (Node Unit)},
    lexemes ∈ rowLanguage row → (∀ lexeme ∈ lexemes, lexeme.Proper) → nodes row = .ok trees →
    trees ≠ [] ∧ PromisedAll trees
  | [], _, _, member, _, _ => absurd member (Language.notMem_zero _)
  | phrase :: rest, lexemes, trees, member, proper, made => by
      simp only [nodes, bind_eq_ok_iff, pure_eq_ok_iff] at made
      obtain ⟨first, madeFirst, further, madeRest, rfl⟩ := made
      obtain ⟨a, inA, b, inB, rfl⟩ := member
      obtain ⟨properA, properB⟩ := proper_append.mp proper
      exact ⟨List.cons_ne_nil _ _, .cons (promised_phrase phrase inA properA madeFirst)
        (promised_rest rest inB properB madeRest)⟩

/-- The trees of further statements. -/
theorem promised_rest : ∀ (row : List Phrase) {lexemes : List Lexeme} {trees : List (Node Unit)},
    lexemes ∈ restLanguage row → (∀ lexeme ∈ lexemes, lexeme.Proper) → nodes row = .ok trees →
    PromisedAll trees
  | [], _, _, _, _, made => by
      cases made
      exact ⟨rfl, trivial⟩
  | phrase :: rest, lexemes, trees, member, proper, made => by
      simp only [nodes, bind_eq_ok_iff, pure_eq_ok_iff] at made
      obtain ⟨first, madeFirst, further, madeRest, rfl⟩ := made
      obtain ⟨_, ⟨_, rfl, a, inA, rfl⟩, b, inB, rfl⟩ := member
      simp only [proper_append] at proper
      exact .cons (promised_phrase phrase inA proper.1.2 madeFirst)
        (promised_rest rest inB proper.2 madeRest)

/-- The trees of the operands of a series. -/
theorem promised_series : ∀ (series : Series Operand) {lexemes : List Lexeme}
    {operands : Series (Node Unit)}, lexemes ∈ seriesLanguage series →
    (∀ lexeme ∈ lexemes, lexeme.Proper) → seriesNodes series = .ok operands →
    operands.All (Promised .operand)
  | .last nots operand, lexemes, operands, member, proper, made => by
      simp only [seriesNodes, bind_eq_ok_iff, pure_eq_ok_iff] at made
      obtain ⟨tree, made, rfl⟩ := made
      obtain ⟨_, rfl, a, inA, rfl⟩ := member
      exact promised_operand operand inA (proper_append.mp proper).2 made
  | .link nots operand op rest, lexemes, operands, member, proper, made => by
      simp only [seriesNodes, bind_eq_ok_iff, pure_eq_ok_iff] at made
      obtain ⟨first, madeFirst, further, madeRest, rfl⟩ := made
      rw [seriesLanguage] at member
      split at member
      · exact absurd member (Language.notMem_zero _)
      · obtain ⟨_, ⟨_, ⟨_, rfl, a, inA, rfl⟩, _, rfl, rfl⟩, b, inB, rfl⟩ := member
        simp only [proper_append] at proper
        exact ⟨promised_operand operand inA proper.1.1.2 madeFirst,
          promised_series rest inB proper.2 madeRest⟩

/-- The tree of an operand. -/
theorem promised_operand : ∀ (operand : Operand) {lexemes : List Lexeme} {tree : Node Unit},
    lexemes ∈ operand.language → (∀ lexeme ∈ lexemes, lexeme.Proper) → operand.node = .ok tree →
    Promised .operand tree
  | .block parameters body, lexemes, tree, member, proper, made => by
      simp only [Operand.node, bind_eq_ok_iff, pure_eq_ok_iff] at made
      obtain ⟨trees, made, rfl⟩ := made
      obtain ⟨_, inside, proper⟩ := proper_of_mem_enclosed member proper
      obtain ⟨_, rfl, a, inA, rfl⟩ := inside
      obtain ⟨names, proper⟩ := proper_append.mp proper
      obtain ⟨row, inRow, proper⟩ := proper_of_mem_ended inA proper
      obtain ⟨someBody, promised⟩ := promised_row body inRow proper made
      refine ⟨?_, trivial, promised.floats⟩
      simp [Node.wellFormed, named_of_parameters names, someBody, promised.wellFormed]
  | .call name arguments, lexemes, tree, member, proper, made => by
      simp only [Operand.node, bind_eq_ok_iff, pure_eq_ok_iff] at made
      obtain ⟨trees, made, rfl⟩ := made
      obtain ⟨_, rfl, a, inA, rfl⟩ := member
      obtain ⟨named, proper⟩ := proper_append.mp proper
      have identifier := isIdentifier_of_isName (named _ (List.mem_singleton.mpr rfl))
      obtain ⟨inner, inside, proper⟩ := proper_of_mem_enclosed inA proper
      have promised : PromisedAll trees := by
        rcases inside with inside | inside
        · split at inside
          · rename_i empty
            rw [List.isEmpty_iff.mp empty] at made
            cases made
            exact ⟨rfl, trivial⟩
          · exact absurd inside (Language.notMem_zero _)
        · obtain ⟨row, inRow, proper⟩ := proper_of_mem_ended inside proper
          exact (promised_row arguments inRow proper made).2
      refine ⟨?_, trivial, promised.floats⟩
      rw [Node.wellFormed, identifier, promised.wellFormed]
      rfl
  | .assign name value, lexemes, tree, member, proper, made => by
      simp only [Operand.node, bind_eq_ok_iff, pure_eq_ok_iff] at made
      obtain ⟨operands, made, rfl⟩ := made
      obtain ⟨_, rfl, a, inA, rfl⟩ := member
      obtain ⟨named, proper⟩ := proper_append.mp proper
      have identifier := isIdentifier_of_isName (named (.name name) (by simp))
      have promised := Promised.keptByGrouping.group (promised_series value inA proper made)
      refine ⟨?_, trivial, promised.floats⟩
      rw [Node.wellFormed, identifier, promised.wellFormed]
      rfl
  | .bool _, _, _, _, _, made => by
      cases made
      exact ⟨rfl, trivial⟩
  | .float whole fraction, _, _, _, _, made => by
      cases made
      exact ⟨rfl, isUnsigned_ofDigits whole fraction⟩
  | .int _ _, _, _, _, _, made => promised_integer made
  | .var name, lexemes, tree, member, proper, made => by
      cases made
      cases member
      exact ⟨isIdentifier_of_isName (proper _ (List.mem_singleton.mpr rfl)), trivial⟩
  | .group series, lexemes, tree, member, proper, made => by
      simp only [Operand.node, bind_eq_ok_iff, pure_eq_ok_iff] at made
      obtain ⟨operands, made, rfl⟩ := made
      obtain ⟨inner, inside, proper⟩ := proper_of_mem_enclosed member proper
      exact Promised.keptByGrouping.group (promised_series series inside proper made)
end

/-! ## Captures -/

/-- A block literal has captured nothing yet. -/
def Uncaptured (store : Store) : Node DefId → Prop
  | .block id _ _ => store.captured? id = none
  | _ => True

/-- **The labels that a tree is given stand for no capture.**  All captures belong to labels that
have been given before. -/
theorem Session.Reachable.uncaptured {i : Interpreter} {programs : List (Node DefId)}
    (reachable : (Session.idle i programs).Reachable) (tree : Node Unit) :
    (i.adopt (fun _ => none) tree).1.Every (Uncaptured i.store) := by
  obtain ⟨table, w, fits⟩ := reachable.fits
  obtain ⟨labelled, sound⟩ := fits.settled
  have same : i.store = w.store := fits.store
  obtain ⟨own, fresh, every, -⟩ := tree.fresh_number i.nextDefinition
  refine every.imp fun node literal => ?_
  cases node with
  | block id parameters body =>
      rw [Uncaptured, same, Option.eq_none_iff_forall_ne_some]
      intro f captured
      obtain ⟨d, known, label, -⟩ := sound.captures id f captured
      have before : d.id.index < i.nextDefinition := (labelled.range d known).2
      have after : i.nextDefinition ≤ id.index := (fresh.range _ literal).1
      rw [label] at before
      exact absurd before (Nat.not_lt.mpr after)
  | list | loop | branch | branchElse | call | assign | var | logic | compare | arith | int |
      float | bool => trivial

/-! ## Programs -/

open Nesting in
/-- **An accepted text gives what evaluation relies on.**  Under every limit, the tree of an
accepted text is a program, its floats are numbers without a sign, and when an interpreter takes
it, in whatever state, its block literals have captured nothing. -/
theorem accepted_program_promises {limit : Nat} {source : String} {tree : Node Unit}
    (parsed : parseWithin limit source = .ok tree) :
    tree.isProgram = true ∧ tree.Every UnsignedFloat ∧
    ∀ i programs, (Session.idle i programs).Reachable →
      (i.adopt (fun _ => none) tree).1.Every (Uncaptured (i.adopt (fun _ => none) tree).2.store) := by
  obtain ⟨phrases, lexemes, trees, member, ⟨pos, spelled⟩, made, -, rfl⟩ :=
    parseWithin_eq_ok_iff.mp parsed
  obtain ⟨row, inRow, proper⟩ := proper_of_mem_ended member spelled.proper
  obtain ⟨nonempty, promised⟩ := promised_row phrases inRow proper made
  refine ⟨?_, ⟨trivial, promised.floats⟩, fun i programs reachable => ?_⟩
  · simp [Node.isProgram, nonempty, promised.wellFormed]
  · exact reachable.uncaptured (.list trees)

/-- A text with a block, a number with a point and a negated test is taken by an interpreter that
has run it before, so that the block literal of the first run has captured a frame. -/
theorem accepted_program_promises_twice : ∃ tree i programs,
    parseWithin 3 "f = {|x| x * .5}; if (not a) { f(1) }" = .ok tree ∧ tree.isProgram = true ∧
    tree.Every UnsignedFloat ∧ (Session.idle i programs).Reachable ∧
    i.store.captured? ⟨0⟩ = some ⟨1⟩ ∧
    (i.adopt (fun _ => none) tree).1.Every
      (Uncaptured (i.adopt (fun _ => none) tree).2.store) := by
  obtain ⟨tree, parsed⟩ : ∃ tree,
      parseWithin 3 "f = {|x| x * .5}; if (not a) { f(1) }" = .ok tree :=
    exists_of_isOk (by decide +kernel)
  have ran : ((Interpreter.fresh 10).run 60 "f = {|x| x * .5}; if (not a) { f(1) }").map
      (fun result => result.2.store.captured? ⟨0⟩) = some (some ⟨1⟩) := by
    decide +kernel
  obtain ⟨⟨r, i⟩, gives, captured⟩ := Option.map_eq_some_iff.mp ran
  obtain ⟨programs, later⟩ := Session.later_of_run gives []
  obtain ⟨program, floats, uncaptured⟩ := accepted_program_promises parsed
  have reachable : (Session.idle i programs).Reachable := ⟨10, later⟩
  exact ⟨tree, i, programs, parsed, program, floats, reachable, captured,
    uncaptured i programs reachable⟩

end BlockScript
