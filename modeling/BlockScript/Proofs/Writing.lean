import BlockScript.Proofs.NestingBound
import BlockScript.Proofs.Reading.Graft
import BlockScript.Proofs.Scenes

/-!
# Programs written down

Every tree that a program can be has a text that it is read back from.  In the canonical
text of a tree (`Node.canonicalText`) statements and arguments are joined by `;`, and every
operation and every assignment stands in parentheses of its own, so that no rule of
precedence is needed to read it.

The trees in question are described by a check on trees alone (`Node.isProgram`): names are
names, integers are not negative, the ignored operand of a `not` is `true`, rows of
statements are not empty, and `if` and `for` stand only where statements do.  Floats are
written in decimal digits that the caller chooses; all that is asked of these digits is that
reading them gives the float back (`Node.ReadsBack`).

The canonical lexemes of a tree are both legible and a row of the language of phrases whose
tree it is.  The two facts are carried together through the tree, with one lemma for each
way in which phrases are put together.
-/

set_option autoImplicit false

namespace BlockScript

/-! ## Well-formed trees -/

/-- The words that mean something else than a name. -/
def keywords : List String := ["if", "else", "for", "and", "or", "not", "true", "false"]

/-- Whether a text is a name: a letter, then letters, digits and underscores, and no keyword. -/
def isIdentifier (x : String) : Bool :=
  match x.toList with
  | [] => false
  | first :: rest =>
      first.isAlpha && rest.all (fun y => y.isAlphanum || y == '_') && !keywords.contains x

/-- Where a node stands in a program. -/
inductive Place where
  | statement
  | operand
  deriving DecidableEq

namespace Node

mutual
/-- Whether a tree can be read from a text as what stands at a place. -/
def wellFormed : Place → Node Unit → Bool
  | .statement, .loop start test step body =>
      wellFormed .statement start && wellFormed .statement test && wellFormed .statement step &&
        (!body.isEmpty && wellFormedAll body)
  | .statement, .branch (.list test) yes =>
      (!test.isEmpty && wellFormedAll test) && (!yes.isEmpty && wellFormedAll yes)
  | .statement, .branchElse (.list test) yes no =>
      (!test.isEmpty && wellFormedAll test) && (!yes.isEmpty && wellFormedAll yes) &&
        (!no.isEmpty && wellFormedAll no)
  | _, .block _ parameters body =>
      parameters.all isIdentifier && (!body.isEmpty && wellFormedAll body)
  | _, .call name arguments => isIdentifier name && wellFormedAll arguments
  | _, .assign name value => isIdentifier name && wellFormed .operand value
  | _, .var name => isIdentifier name
  | _, .logic .not operand (.bool true) => wellFormed .operand operand
  | _, .logic .and left right | _, .logic .or left right | _, .compare _ left right
  | _, .arith _ left right => wellFormed .operand left && wellFormed .operand right
  | _, .int value => decide (0 ≤ value)
  | _, .float _ | _, .bool _ => true
  | _, _ => false

/-- Whether all statements can be read from a text. -/
def wellFormedAll : List (Node Unit) → Bool
  | [] => true
  | node :: rest => wellFormed .statement node && wellFormedAll rest
end

/-- Whether a tree can be read from a text as a program. -/
def isProgram : Node Unit → Bool
  | .list statements => !statements.isEmpty && wellFormedAll statements
  | _ => false

end Node

/-! ## Canonical text -/

namespace Node

section Canonical

variable (decimals : Float → List Char × List Char)

mutual
/-- The canonical lexemes of a tree. -/
def canonical : Node Unit → List Lexeme
  | .list statements => canonicalRow statements
  | .loop start test step body =>
      .forWord ::
        (enclose .round (canonical start ++ .semicolon :: (canonical test ++
          .semicolon :: canonical step)) ++ enclose .curly (canonicalRow body))
  | .branch test yes =>
      .ifWord :: (enclose .round (canonical test) ++ enclose .curly (canonicalRow yes))
  | .branchElse test yes no =>
      .ifWord :: (enclose .round (canonical test) ++ (enclose .curly (canonicalRow yes) ++
        .elseWord :: enclose .curly (canonicalRow no)))
  | .block _ parameters body => enclose .curly (parameterLexemes parameters ++ canonicalRow body)
  | .call name arguments => .name name :: enclose .round (canonicalRow arguments)
  | .assign name value => enclose .round (.name name :: .equals :: canonical value)
  | .var name => [.name name]
  | .logic .not operand _ => enclose .round (.negation :: canonical operand)
  | .logic .and left right =>
      enclose .round (canonical left ++ .operator .and :: canonical right)
  | .logic .or left right =>
      enclose .round (canonical left ++ .operator .or :: canonical right)
  | .compare op left right =>
      enclose .round (canonical left ++ .operator (.compare op) :: canonical right)
  | .arith op left right =>
      enclose .round (canonical left ++ .operator (.arith op) :: canonical right)
  | .int value => [.int (Nat.toDigits 10 value.toNatClampNeg)]
  | .float value => [.float (decimals value).1 (decimals value).2]
  | .bool value => [.bool value]

/-- The canonical lexemes of statements. -/
def canonicalRow : List (Node Unit) → List Lexeme
  | [] => []
  | node :: rest => canonical node ++ canonicalRest rest

/-- The canonical lexemes of statements behind others. -/
def canonicalRest : List (Node Unit) → List Lexeme
  | [] => []
  | node :: rest => .semicolon :: (canonical node ++ canonicalRest rest)
end

/-- The canonical text of a program. -/
def canonicalText (program : Node Unit) : String :=
  String.ofList (write (program.canonical decimals))

/-- A float has decimal digits, and reading them gives the float. -/
def ReadsBack : Node Unit → Prop
  | .float value =>
      (Lexeme.float (decimals value).1 (decimals value).2).Proper ∧
        ofDigits (decimals value).1 (decimals value).2 = value
  | _ => True

end Canonical

end Node

theorem isName_of_isIdentifier {x : String} (named : isIdentifier x = true) : IsName x.toList := by
  unfold isIdentifier at named
  split at named
  · cases named
  · rename_i first rest spelled
    simp only [Bool.and_eq_true, List.all_eq_true, Bool.not_eq_true'] at named
    obtain ⟨⟨start, more⟩, free⟩ := named
    refine ⟨⟨first, rest, spelled, start, ?_⟩, ?_⟩
    · intro y member
      simpa [isNameChar] using more y member
    · intro reserved
      have listed : ∀ word ∈ Cursor.reservedWords, keywords.contains (String.ofList word) := by
        decide
      have taken := listed _ reserved
      rw [String.ofList_toList, free] at taken
      cases taken

/-! ## Putting phrases together -/

/-- Lexemes are legible, and those of something that has the given tree. -/
structure Writes {α β : Type} (language : α → Language Lexeme)
    (tree : α → Except SourceError β) (lexemes : List Lexeme) (result : β) : Prop where
  legible : Legible lexemes
  reads : ∃ a, lexemes ∈ language a ∧ tree a = .ok result

/-- Lexemes of a series with the given tree. -/
abbrev WritesSeries := Writes seriesLanguage fun series => do return (← seriesNodes series).group

/-- Lexemes of a statement with the given tree. -/
abbrev WritesPhrase := Writes Phrase.language Phrase.node

/-- Lexemes of statements with the given trees. -/
abbrev WritesRow := Writes rowLanguage nodes

/-- Lexemes of statements behind others with the given trees. -/
abbrev WritesRest := Writes restLanguage nodes

/-- Lexemes of an operand with the given tree; it is not an assignment, so that an operator
may follow, and it may itself follow the `=` of an assignment. -/
structure WritesOperand (lexemes : List Lexeme) (tree : Node Unit) : Prop where
  legible : Legible lexemes
  starts : ∃ first rest, lexemes = first :: rest ∧ first.startsEqual = false
  reads : ∃ o : Operand, lexemes ∈ o.language ∧ o.isAssignment = false ∧ o.node = .ok tree

theorem Legible.enclose {bracket : Bracket} {lexemes : List Lexeme} (inner : Legible lexemes) :
    Legible (enclose bracket lexemes) :=
  .cons trivial nofun (inner.append (.cons trivial nofun .nil))

theorem legible_parameters {names : List String} (named : ∀ x ∈ names, IsName x.toList) :
    Legible (parameterLexemes names) := by
  cases names with
  | nil => exact .nil
  | cons x rest =>
      obtain ⟨first, others⟩ := List.forall_mem_cons.mp named
      refine .cons trivial nofun (.cons first nofun (Legible.append ?_ (.cons trivial nofun .nil)))
      clear named
      induction rest with
      | nil => exact .nil
      | cons y rest ih =>
          obtain ⟨here, further⟩ := List.forall_mem_cons.mp others
          exact .cons trivial nofun (.cons here nofun (ih further))

namespace WritesOperand

variable {lexemes lexemes' : List Lexeme} {tree tree' : Node Unit}

theorem series (writes : WritesOperand lexemes tree) : WritesSeries lexemes tree := by
  obtain ⟨o, member, -, made⟩ := writes.reads
  refine ⟨writes.legible, .last 0 o, mem_last 0 member, ?_⟩
  simp [seriesNodes, made, Series.group, Series.arrange, Waiting.finish, Waiting.settle,
    Node.negations]

theorem negated (writes : WritesOperand lexemes tree) :
    WritesSeries (.negation :: lexemes) (.logic .not tree (.bool true)) := by
  obtain ⟨o, member, -, made⟩ := writes.reads
  refine ⟨.cons trivial nofun writes.legible, .last 1 o, mem_last 1 member, ?_⟩
  simp [seriesNodes, made, Series.group, Series.arrange, Waiting.finish, Waiting.settle,
    Node.negations, Node.negation]

theorem linked (left : WritesOperand lexemes tree) (op : BinaryOp)
    (right : WritesOperand lexemes' tree') :
    WritesSeries (lexemes ++ .operator op :: lexemes') (.binary op tree tree') := by
  obtain ⟨o, member, free, made⟩ := left.reads
  obtain ⟨o', member', -, made'⟩ := right.reads
  refine ⟨left.legible.append (.cons trivial nofun right.legible), .link 0 o op (.last 0 o'),
    mem_link 0 op free member (mem_last 0 member'), ?_⟩
  simp only [seriesNodes, made, made']
  rfl

theorem assigned {x : String} (named : IsName x.toList) (writes : WritesOperand lexemes tree) :
    WritesSeries (.name x :: .equals :: lexemes) (.assign x tree) := by
  obtain ⟨legible, s, member, made⟩ := writes.series
  obtain ⟨first, rest, rfl, unequal⟩ := writes.starts
  refine ⟨.cons named nofun (.equals unequal legible), .last 0 (.assign x s),
    mem_last 0 (mem_assign x member), ?_⟩
  simp only [bind_eq_ok_iff, pure_eq_ok_iff] at made
  obtain ⟨trees, given, rfl⟩ := made
  simp [seriesNodes, Operand.node, given, Series.group, Series.arrange, Waiting.finish,
    Waiting.settle, Node.negations]

theorem phrase (writes : WritesOperand lexemes tree) : WritesPhrase lexemes tree := by
  obtain ⟨legible, s, member, made⟩ := writes.series
  exact ⟨legible, .expression s, member, made⟩

end WritesOperand

/-- An expression in parentheses is an operand. -/
theorem Writes.grouped {lexemes : List Lexeme} {tree : Node Unit}
    (writes : WritesSeries lexemes tree) : WritesOperand (enclose .round lexemes) tree := by
  obtain ⟨legible, s, member, made⟩ := writes
  exact ⟨legible.enclose, ⟨_, _, rfl, rfl⟩, .group s, mem_group member, rfl, made⟩

/-! ### Literals and names -/

theorem natOfDigits_toDigits (n : Nat) : natOfDigits (Nat.toDigits 10 n) = n :=
  Nat.ofDigitChars_toDigits (by decide) (by decide)

theorem writesOperand_int {value : Int64} (positive : 0 ≤ value) :
    WritesOperand [.int (Nat.toDigits 10 value.toNatClampNeg)] (.int value) := by
  have proper : (Lexeme.int (Nat.toDigits 10 value.toNatClampNeg)).Proper :=
    ⟨Nat.toDigits_ne_nil, fun _ member =>
      Nat.isDigit_of_mem_toDigits (by decide) (by decide) member⟩
  refine ⟨.cons proper nofun .nil, ⟨_, _, rfl, rfl⟩, .int _ ⟨0, 0⟩, rfl, rfl, ?_⟩
  have fits : value.toNatClampNeg ≤ maxInteger := Nat.le_sub_one_of_lt value.toNatClampNeg_lt
  rw [Operand.node, integerNode, natOfDigits_toDigits, if_pos fits,
    Int64.ofNat_toNatClampNeg value positive]

theorem writesOperand_var {x : String} (named : IsName x.toList) :
    WritesOperand [.name x] (.var x) :=
  ⟨.cons named nofun .nil, ⟨_, _, rfl, rfl⟩, .var x, rfl, rfl, rfl⟩

theorem writesOperand_bool (value : Bool) : WritesOperand [.bool value] (.bool value) :=
  ⟨.cons trivial nofun .nil, ⟨_, _, rfl, rfl⟩, .bool value, rfl, rfl, rfl⟩

theorem writesOperand_float {whole fraction : List Char}
    (proper : (Lexeme.float whole fraction).Proper) :
    WritesOperand [.float whole fraction] (.float (ofDigits whole fraction)) :=
  ⟨.cons proper nofun .nil, ⟨_, _, rfl, rfl⟩, .float whole fraction, rfl, rfl, rfl⟩

/-! ### Rows of statements -/

section Rows

variable {lexemes lexemes' lexemes'' : List Lexeme} {trees trees' trees'' : List (Node Unit)}

theorem WritesRow.first {tree : Node Unit} (first : WritesPhrase lexemes tree)
    (rest : WritesRest lexemes' trees) :
    WritesRow (lexemes ++ lexemes') (tree :: trees) := by
  obtain ⟨legible, phrase, member, made⟩ := first
  obtain ⟨legible', row, member', made'⟩ := rest
  refine ⟨legible.append legible', phrase :: row, Language.append_mem_mul member member', ?_⟩
  simp only [nodes, bind_eq_ok_iff, pure_eq_ok_iff]
  exact ⟨tree, made, trees, made', rfl⟩

theorem WritesRest.nil : WritesRest [] [] := ⟨.nil, [], rfl, rfl⟩

theorem WritesRest.more {tree : Node Unit} (first : WritesPhrase lexemes tree)
    (rest : WritesRest lexemes' trees) :
    WritesRest (.semicolon :: (lexemes ++ lexemes')) (tree :: trees) := by
  obtain ⟨legible, row, member, made⟩ := WritesRow.first first rest
  cases row with
  | nil => exact absurd member (Language.notMem_zero _)
  | cons phrase row =>
      refine ⟨.cons trivial nofun legible, phrase :: row, ?_, made⟩
      rw [restLanguage, mul_assoc]
      exact cons_mem member

theorem WritesRow.block {names : List String} (named : ∀ x ∈ names, IsName x.toList)
    (body : WritesRow lexemes trees) :
    WritesOperand (enclose .curly (parameterLexemes names ++ lexemes)) (.block () names trees) := by
  obtain ⟨legible, row, member, made⟩ := body
  refine ⟨((legible_parameters named).append legible).enclose, ⟨_, _, rfl, rfl⟩, .block names row,
    mem_block names (mem_ended member), rfl, ?_⟩
  simp [Operand.node, made]

theorem WritesRow.call {x : String} (named : IsName x.toList)
    (arguments : WritesRow lexemes trees) :
    WritesOperand (.name x :: enclose .round lexemes) (.call x trees) := by
  obtain ⟨legible, row, member, made⟩ := arguments
  refine ⟨.cons named nofun legible.enclose, ⟨_, _, rfl, rfl⟩, .call x row, ?_, rfl, ?_⟩
  · have inner : lexemes ∈ (if row.isEmpty then 1 else 0) + Ended (rowLanguage row) :=
      .inr (mem_ended member)
    exact mem_call x inner
  · simp [Operand.node, made]

/-- A call without arguments. -/
theorem writesOperand_call {x : String} (named : IsName x.toList) :
    WritesOperand (.name x :: enclose .round []) (.call x []) := by
  refine ⟨.cons named nofun Legible.nil.enclose, ⟨_, _, rfl, rfl⟩, .call x [], ?_, rfl, rfl⟩
  have inner : [] ∈ (1 : Language Lexeme) + Ended (rowLanguage []) := .inl rfl
  exact mem_call x inner

theorem WritesRow.branch (test : WritesRow lexemes trees) (yes : WritesRow lexemes' trees') :
    WritesPhrase (.ifWord :: (enclose .round lexemes ++ enclose .curly lexemes'))
      (.branch (.list trees) trees') := by
  obtain ⟨legible, row, member, made⟩ := test
  obtain ⟨legible', row', member', made'⟩ := yes
  refine ⟨.cons trivial nofun (legible.enclose.append legible'.enclose), .branch row row',
    mem_branch (mem_ended member) (mem_ended member'), ?_⟩
  simp only [Phrase.node, made, made']
  rfl

theorem WritesRow.branchElse (test : WritesRow lexemes trees) (yes : WritesRow lexemes' trees')
    (no : WritesRow lexemes'' trees'') :
    WritesPhrase (.ifWord :: (enclose .round lexemes ++ (enclose .curly lexemes' ++
      .elseWord :: enclose .curly lexemes''))) (.branchElse (.list trees) trees' trees'') := by
  obtain ⟨legible, row, member, made⟩ := test
  obtain ⟨legible', row', member', made'⟩ := yes
  obtain ⟨legible'', row'', member'', made''⟩ := no
  refine ⟨.cons trivial nofun (legible.enclose.append (legible'.enclose.append
    (.cons trivial nofun legible''.enclose))), .branchElse row row' row'',
    mem_branchElse (mem_ended member) (mem_ended member') (mem_ended member''), ?_⟩
  simp only [Phrase.node, made, made', made'']
  rfl

theorem WritesRow.loop {start test step : Node Unit}
    (header : WritesRow lexemes [start, test, step]) (body : WritesRow lexemes' trees) :
    WritesPhrase (.forWord :: (enclose .round lexemes ++ enclose .curly lexemes'))
      (.loop start test step trees) := by
  obtain ⟨legible, row, member, made⟩ := header
  obtain ⟨legible', row', member', made'⟩ := body
  refine ⟨.cons trivial nofun (legible.enclose.append legible'.enclose), .loop row ⟨0, 0⟩ row',
    mem_loop ⟨0, 0⟩ (mem_ended member) (mem_ended member'), ?_⟩
  simp only [Phrase.node, made, made']
  rfl

end Rows

/-! ## Every program is written and read back -/

/-- Lexemes of what may stand at a place, with the given tree. -/
def WritesAt : Place → List Lexeme → Node Unit → Prop
  | .statement => WritesPhrase
  | .operand => WritesOperand

/-- An operand may stand anywhere. -/
theorem WritesOperand.anywhere {lexemes : List Lexeme} {tree : Node Unit}
    (writes : WritesOperand lexemes tree) : ∀ place, WritesAt place lexemes tree
  | .statement => writes.phrase
  | .operand => writes

/-- An operation in parentheses may stand anywhere. -/
theorem writesAt_binary {lexemes lexemes' : List Lexeme} {tree tree' : Node Unit} (op : BinaryOp)
    (left : WritesOperand lexemes tree) (right : WritesOperand lexemes' tree') (place : Place) :
    WritesAt place (enclose .round (lexemes ++ .operator op :: lexemes'))
      (.binary op tree tree') :=
  (left.linked op right).grouped.anywhere place

namespace Node

variable {decimals : Float → List Char × List Char}

mutual
/-- The canonical lexemes of a well-formed tree are those of phrases with that tree. -/
theorem writes_canonical : ∀ (place : Place) (node : Node Unit), node.wellFormed place = true →
    node.Every (ReadsBack decimals) → WritesAt place (node.canonical decimals) node
  | place, .list _, well, _ => by cases place <;> cases well
  | .statement, .loop start test step body, well, ⟨_, backStart, backTest, backStep, backBody⟩ => by
      simp only [wellFormed, Bool.and_eq_true, Bool.not_eq_true'] at well
      obtain ⟨⟨⟨wellStart, wellTest⟩, wellStep⟩, nonempty, wellBody⟩ := well
      have first := writes_canonical .statement start wellStart backStart
      have second := writes_canonical .statement test wellTest backTest
      have third := writes_canonical .statement step wellStep backStep
      have header := WritesRow.first first (.more second (.more third .nil))
      rw [List.append_nil] at header
      exact header.loop (writes_canonicalRow body nonempty wellBody backBody)
  | .operand, .loop .., well, _ => by cases well
  | .statement, .branch (.list test) yes, well, ⟨_, backTest, backYes⟩ => by
      simp only [wellFormed, Bool.and_eq_true, Bool.not_eq_true'] at well
      obtain ⟨⟨someTest, wellTest⟩, someYes, wellYes⟩ := well
      exact (writes_canonicalRow test someTest wellTest backTest.2).branch
        (writes_canonicalRow yes someYes wellYes backYes)
  | .statement, .branchElse (.list test) yes no, well, ⟨_, backTest, backYes, backNo⟩ => by
      simp only [wellFormed, Bool.and_eq_true, Bool.not_eq_true'] at well
      obtain ⟨⟨⟨someTest, wellTest⟩, someYes, wellYes⟩, someNo, wellNo⟩ := well
      exact (writes_canonicalRow test someTest wellTest backTest.2).branchElse
        (writes_canonicalRow yes someYes wellYes backYes)
        (writes_canonicalRow no someNo wellNo backNo)
  | place, .block () parameters body, well, ⟨_, back⟩ => by
      simp only [wellFormed, Bool.and_eq_true, Bool.not_eq_true', List.all_eq_true] at well
      obtain ⟨named, nonempty, wellBody⟩ := well
      have names := fun x member => isName_of_isIdentifier (named x member)
      exact ((writes_canonicalRow body nonempty wellBody back).block names).anywhere place
  | place, .call name [], well, _ => by
      simp only [wellFormed, Bool.and_eq_true] at well
      exact (writesOperand_call (isName_of_isIdentifier well.1)).anywhere place
  | place, .call name (argument :: arguments), well, ⟨_, back⟩ => by
      simp only [wellFormed, Bool.and_eq_true] at well
      have row := writes_canonicalRow (argument :: arguments) rfl well.2 back
      exact (row.call (isName_of_isIdentifier well.1)).anywhere place
  | place, .assign name value, well, ⟨_, back⟩ => by
      simp only [wellFormed, Bool.and_eq_true] at well
      have operand : WritesOperand _ value := writes_canonical .operand value well.2 back
      exact (operand.assigned (isName_of_isIdentifier well.1)).grouped.anywhere place
  | place, .var name, well, _ => by
      simp only [wellFormed] at well
      exact (writesOperand_var (isName_of_isIdentifier well)).anywhere place
  | place, .logic .not left (.bool true), well, ⟨_, back, _⟩ => by
      simp only [wellFormed] at well
      have operand : WritesOperand _ left := writes_canonical .operand left well back
      exact operand.negated.grouped.anywhere place
  | place, .logic .and left right, well, ⟨_, backLeft, backRight⟩ => by
      simp only [wellFormed, Bool.and_eq_true] at well
      exact writesAt_binary .and (writes_canonical .operand left well.1 backLeft)
        (writes_canonical .operand right well.2 backRight) place
  | place, .logic .or left right, well, ⟨_, backLeft, backRight⟩ => by
      simp only [wellFormed, Bool.and_eq_true] at well
      exact writesAt_binary .or (writes_canonical .operand left well.1 backLeft)
        (writes_canonical .operand right well.2 backRight) place
  | place, .compare op left right, well, ⟨_, backLeft, backRight⟩ => by
      simp only [wellFormed, Bool.and_eq_true] at well
      exact writesAt_binary (.compare op) (writes_canonical .operand left well.1 backLeft)
        (writes_canonical .operand right well.2 backRight) place
  | place, .arith op left right, well, ⟨_, backLeft, backRight⟩ => by
      simp only [wellFormed, Bool.and_eq_true] at well
      exact writesAt_binary (.arith op) (writes_canonical .operand left well.1 backLeft)
        (writes_canonical .operand right well.2 backRight) place
  | place, .int value, well, _ => by
      simp only [wellFormed, decide_eq_true_eq] at well
      exact (writesOperand_int well).anywhere place
  | place, .float value, _, back => by
      obtain ⟨proper, same⟩ := back
      have operand := writesOperand_float proper
      rw [same] at operand
      exact operand.anywhere place
  | place, .bool value, _, _ => (writesOperand_bool value).anywhere place

theorem writes_canonicalRow : ∀ nodes : List (Node Unit), nodes.isEmpty = false →
    wellFormedAll nodes = true → EveryAll (ReadsBack decimals) nodes →
    WritesRow (canonicalRow decimals nodes) nodes
  | [], nonempty, _, _ => by cases nonempty
  | node :: rest, _, well, ⟨here, further⟩ => by
      simp only [wellFormedAll, Bool.and_eq_true] at well
      exact .first (writes_canonical .statement node well.1 here)
        (writes_canonicalRest rest well.2 further)

theorem writes_canonicalRest : ∀ nodes : List (Node Unit), wellFormedAll nodes = true →
    EveryAll (ReadsBack decimals) nodes → WritesRest (canonicalRest decimals nodes) nodes
  | [], _, _ => .nil
  | node :: rest, well, ⟨here, further⟩ => by
      simp only [wellFormedAll, Bool.and_eq_true] at well
      exact .more (writes_canonical .statement node well.1 here)
        (writes_canonicalRest rest well.2 further)
end

end Node

open Nesting in
/-- **Every program is written and read back.**  The canonical text of a program is accepted
with the limits from some least one on, and what is read is the program. -/
theorem canonicalText_readsBack (decimals : Float → List Char × List Char) (program : Node Unit)
    (well : program.isProgram = true) (back : program.Every (Node.ReadsBack decimals)) :
    ∃ least, ∀ limit,
      parseWithin limit (program.canonicalText decimals) = .ok program ↔ least ≤ limit := by
  cases program with
  | list statements =>
      simp only [Node.isProgram, Bool.and_eq_true, Bool.not_eq_true'] at well
      obtain ⟨legible, row, member, made⟩ :=
        Node.writes_canonicalRow statements well.1 well.2 back.2
      have reads : ReadsAs ((Node.list statements).canonicalText decimals).toList
          (Node.canonicalRow decimals statements) := by
        rw [Node.canonicalText, String.toList_ofList]
        exact legible.readsAs
      refine ⟨deepest (Node.canonicalRow decimals statements), fun limit => ?_⟩
      rw [parseWithin_eq_ok_iff, ← within_iff_deepest]
      constructor
      · rintro ⟨_, lexemes, _, -, reads', -, within, -⟩
        rwa [reads.unique reads'] at within
      · exact fun within => ⟨row, _, statements, mem_ended member, reads, made, within, rfl⟩
  | _ => cases well

/-- A block that adds a half is made and called under a negated test. -/
theorem canonicalText_readsBack_blockCall :
    let decimals := fun _ : Float => (['0'], ['5'])
    let program : Node Unit := .list [
      .assign "f" (.block () ["x", "y"] [.arith .add (.var "x") (.float (ofDigits ['0'] ['5']))]),
      .branch (.list [.logic .not (.bool false) (.bool true)]) [.call "f" [.int 7, .var "z"]]]
    program.isProgram = true ∧ program.Every (Node.ReadsBack decimals) ∧
      program.canonicalText decimals = "(f ={|x,y|(x + 0.5)});if((not false)){f(7;z)}" ∧
      ∃ least, ∀ limit,
        parseWithin limit (program.canonicalText decimals) = .ok program ↔ least ≤ limit := by
  intro decimals program
  have well : program.isProgram = true := by decide +kernel
  have back : program.Every (Node.ReadsBack decimals) := by
    simp [program, decimals, Node.Every, Node.EveryAll, Node.ReadsBack, Lexeme.Proper]
  exact ⟨well, back, by decide +kernel, canonicalText_readsBack decimals program well back⟩

end BlockScript
