import BlockScript.Batch
import BlockScript.Proofs.Composition
import BlockScript.Proofs.Discipline
import BlockScript.Proofs.ErrorSpans
import BlockScript.Proofs.Numerals
import BlockScript.Proofs.Promises
import BlockScript.Proofs.Visibility

/-!
# Texts on one line

Whatever a program is and whatever it computes, the value or the error that it ends with is printed
on one line (`Interpreter.RunEnds.oneLine`), also if the source text has many lines.

Numbers are printed with digits, a minus, a point or as a word.  The other texts in a report or in
the print of a value that do not come from a fixed list are names, which are read from the source
text and hold letters, digits and underscores only, the digits of a literal, and one character of
the source text where a form was looked for in vain.  The last one may be any character except white
space, since white space is skipped before a form is looked for (`oneLine_of_refused`).

For evaluations this is a discipline (`lineDiscipline`): the nodes have names on one line, and so
have the blocks that are stored.
-/

set_option autoImplicit false

namespace BlockScript

/-- A text without a line feed and without a carriage return. -/
def OneLine (text : String) : Prop := ∀ x ∈ text.toList, x ≠ '\n' ∧ x ≠ '\r'

instance (text : String) : Decidable (OneLine text) :=
  List.decidableBAll _ text.toList

namespace OneLine

variable {a b : String}

theorem append (first : OneLine a) (second : OneLine b) : OneLine (a ++ b) := by
  intro x member
  rw [String.toList_append] at member
  exact (List.mem_append.mp member).elim (first x) (second x)

theorem intercalate (between : OneLine a) : ∀ {texts : List String}, (∀ t ∈ texts, OneLine t) →
    OneLine (a.intercalate texts)
  | [], _ => by
      rw [String.intercalate_nil]
      decide
  | [t], all => by
      rw [String.intercalate_singleton]
      exact all t (List.mem_singleton_self t)
  | t :: u :: rest, all => by
      obtain ⟨here, further⟩ := List.forall_mem_cons.mp all
      rw [String.intercalate_cons_cons]
      exact (here.append between).append (between.intercalate further)

/-- The characters are of a kind that line breaks are not of. -/
theorem of_kind {text : List Char} (kind : Char → Bool) (all : ∀ x ∈ text, kind x = true)
    (breaks : kind '\n' = false ∧ kind '\r' = false) : OneLine (String.ofList text) := by
  intro x member
  rw [String.toList_ofList] at member
  have here := all x member
  constructor
  · rintro rfl
    rw [breaks.1] at here
    cases here
  · rintro rfl
    rw [breaks.2] at here
    cases here

end OneLine

/-! ## Numbers and names -/

theorem oneLine_of_isDigit {text : List Char} (digits : ∀ x ∈ text, x.isDigit = true) :
    OneLine (String.ofList text) :=
  .of_kind Char.isDigit digits (by decide)

theorem oneLine_nat (n : Nat) : OneLine (toString n) := by
  change OneLine n.repr
  rw [Nat.repr_eq_ofList_toDigits]
  exact oneLine_of_isDigit fun x => Nat.isDigit_of_mem_toDigits (by decide) (by decide)

theorem oneLine_int (n : Int64) : OneLine (toString n) := by
  change OneLine n.toInt.repr
  cases n.toInt with
  | ofNat n => exact oneLine_nat n
  | negSucc n => exact .append (by decide) (oneLine_nat (n + 1))

theorem oneLine_float (x : Float) : OneLine (FloatLayout.printed.text x) := by
  have numeral := Decimal.isNumeral_shortest x.abs
  have point : OneLine (String.ofList (Decimal.shortest x.abs).positional) := by
    rw [Decimal.positional, ← List.singleton_append, String.ofList_append, String.ofList_append]
    exact (oneLine_of_isDigit numeral.whole).append
      (.append (by decide) (oneLine_of_isDigit numeral.fraction))
  unfold FloatLayout.text
  split
  · decide
  · refine .append ?_ ?_
    · split <;> decide
    · split
      · decide
      · split
        · decide
        · exact point

theorem oneLine_of_isIdentifier {name : String} (named : isIdentifier name = true) :
    OneLine name := by
  obtain ⟨⟨first, rest, spelled, start, more⟩, -⟩ := isName_of_isIdentifier named
  rw [← String.ofList_toList (s := name), spelled]
  refine .of_kind isNameChar (List.forall_mem_cons.mpr ⟨?_, more⟩) (by decide)
  have letter : first.isAlpha = true := start
  simp [isNameChar, Char.isAlphanum, letter]

theorem oneLine_definition {d : Definition} (named : ∀ name ∈ d.parameters, OneLine name) :
    OneLine d.text := by
  unfold Definition.text
  split
  · decide
  · exact .append (.append (by decide) (.intercalate (by decide) named)) (by decide)

/-! ## Source errors -/

theorem Form.oneLine_concept (form : Form) : OneLine form.concept := by
  cases form with
  | operator op =>
      change OneLine "operator"
      decide
  | _ => decide

theorem Form.oneLine_describe (forms : List Form) : OneLine (Form.describe forms) := by
  have words : ∀ word ∈ (concepts forms).reverse, OneLine word := by
    intro word member
    obtain ⟨form, -, rfl⟩ := mem_concepts_iff.mp (List.mem_reverse.mp member)
    exact oneLine_concept form
  unfold describe
  split
  · decide
  · rename_i only same
    exact words only (by simp [same])
  · rename_i last others _ same
    rw [same] at words
    obtain ⟨final, front⟩ := List.forall_mem_cons.mp words
    refine .append (.append (.intercalate (by decide) fun word member => ?_) (by decide)) final
    exact front word (List.mem_reverse.mp member)

/-- What a report finds at a place where a form was looked for is not white space. -/
theorem oneLine_describeAt {text : List Char} {t : Tracker}
    (refused : readPhrases text = .error t) : OneLine (describeAt text t.farthest) := by
  obtain ⟨-, c, viable, atPlace⟩ := Scanner.viable_of_refused refused
  obtain ⟨front, split, pos, ascii⟩ := viable.place
  rw [← atPlace, pos, describeAt, split, textFrom_append ascii]
  have bare := viable.bare
  generalize c.rest = rest at bare
  cases rest with
  | nil => decide
  | cons x rest =>
      have solid : ∀ y ∈ [x], (!isGap y) = true := by simpa [Bare] using bare
      exact .append (.append (by decide) (.of_kind (!isGap ·) solid (by decide))) (by decide)

/-- **The message of a source error is on one line.** -/
theorem oneLine_of_refused {limit : Nat} {source : String} {e : SourceError}
    (refused : parseWithin limit source = .error e) : OneLine e.fault.message := by
  obtain ⟨before, inside, behind, -, -, describes⟩ := refused_pointsInto refused
  obtain ⟨fault, span⟩ := e
  cases fault with
  | unexpected expected found =>
      obtain ⟨-, t, read, -, rfl, rfl⟩ := readPhrases_of_unexpected refused
      exact .append (.append (.append (by decide) (Form.oneLine_describe _)) (by decide))
        (oneLine_describeAt read)
  | number text =>
      obtain ⟨rfl, digits, -⟩ := describes
      have spelled := oneLine_of_isDigit digits
      rw [String.ofList_toList] at spelled
      exact .append (.append (by decide) spelled) (by decide)
  | loopHeader count => exact .append (by decide) (oneLine_nat count)
  | nesting depth limit => exact .append (.append (by decide) (oneLine_nat limit)) (by decide)
  | other message => exact absurd describes id

/-! ## Values and evaluation errors -/

/-- The names of a block, or the message of a signal, are on one line. -/
def Value.IsOneLine : Value → Prop
  | .block definition _ => definition.literal.Every (Node.Keeps OneLine)
  | .signal message => OneLine message
  | .int _ | .float _ | .bool _ | .nil => True

theorem Value.IsOneLine.text {v : Value} (good : v.IsOneLine) : OneLine v.text := by
  cases v with
  | int n => exact oneLine_int n
  | float x => exact oneLine_float x
  | bool b => cases b <;> decide
  | block definition frame => exact oneLine_definition good.1
  | nil => decide
  | signal message => exact good

/-- Names, values and errors that do not break a line. -/
def lineDiscipline : Discipline where
  tree := Node.Keeps OneLine
  value := Value.IsOneLine
  error e := OneLine e.message

theorem Value.oneLine_kind (v : Value) : OneLine v.kind := by
  cases v <;> simp only [kind] <;> decide

theorem oneLine_operandError {op : String} {left right : Value} (symbol : OneLine op)
    (goodLeft : left.IsOneLine) (goodRight : right.IsOneLine) :
    OneLine (operandError op left right).message := by
  have signal {message : String} (good : OneLine message) :
      OneLine (EvalError.signalOperand op message).message :=
    .append (.append (.append (by decide) symbol) (by decide)) good
  unfold operandError
  split
  · exact signal goodLeft
  · exact signal goodRight
  · exact .append (.append (.append (.append (.append (by decide) symbol) (by decide))
      left.oneLine_kind) (by decide)) right.oneLine_kind

/-- **No evaluation breaks a line.** -/
theorem lineDiscipline_upheld (limit : Nat) : lineDiscipline.Upheld limit where
  nil := trivial
  int _ := trivial
  float _ := trivial
  bool _ := trivial
  notABlock := (by decide : OneLine _)
  block every := every
  body every := every.2
  arith op _ _ goodLeft goodRight := by
    unfold ArithOp.onValues
    split
    · cases op with
      | add | sub | mul => trivial
      | div =>
          rw [ArithOp.onInts]
          split
          · change OneLine EvalError.divisionByZero.message
            decide
          · trivial
    · trivial
    · trivial
    · trivial
    · exact oneLine_operandError (by cases op <;> decide) goodLeft goodRight
  compare op _ _ goodLeft goodRight := by
    unfold CompareOp.onValues
    split
    · trivial
    · trivial
    · unfold CompareOp.onNumbers
      split
      · trivial
      · trivial
      · trivial
      · trivial
      · exact oneLine_operandError (by cases op <;> decide) goodLeft goodRight
  full _ := .append (.append (.append (by decide) (oneLine_nat _)) (by decide)) (oneLine_nat _)
  short keeps expected received :=
    .append (.append (.append (.append (.append (by decide) (keeps _ (List.mem_singleton_self _)))
      (by decide)) (oneLine_nat expected)) (by decide)) (oneLine_nat received)

/-! ## Runs -/

namespace Node

mutual
/-- The names in a tree that can be read from a text are names. -/
theorem every_isIdentifier : ∀ (place : Place) (node : Node Unit), node.wellFormed place = true →
    node.Every (Keeps fun name => isIdentifier name = true)
  | place, .list _, well => by cases place <;> cases well
  | .statement, .loop start test step body, well => by
      simp only [wellFormed, Bool.and_eq_true] at well
      obtain ⟨⟨⟨first, second⟩, third⟩, -, fourth⟩ := well
      exact ⟨nofun, every_isIdentifier _ start first, every_isIdentifier _ test second,
        every_isIdentifier _ step third, everyAll_isIdentifier body fourth⟩
  | .operand, .loop .., well => by cases well
  | .statement, .branch (.list test) yes, well => by
      simp only [wellFormed, Bool.and_eq_true] at well
      obtain ⟨⟨-, first⟩, -, second⟩ := well
      exact ⟨nofun, ⟨nofun, everyAll_isIdentifier test first⟩, everyAll_isIdentifier yes second⟩
  | .statement, .branchElse (.list test) yes no, well => by
      simp only [wellFormed, Bool.and_eq_true] at well
      obtain ⟨⟨⟨-, first⟩, -, second⟩, -, third⟩ := well
      exact ⟨nofun, ⟨nofun, everyAll_isIdentifier test first⟩, everyAll_isIdentifier yes second,
        everyAll_isIdentifier no third⟩
  | place, .block () parameters body, well => by
      simp only [wellFormed, Bool.and_eq_true, List.all_eq_true] at well
      exact ⟨well.1, everyAll_isIdentifier body well.2.2⟩
  | place, .call name arguments, well => by
      simp only [wellFormed, Bool.and_eq_true] at well
      exact ⟨List.forall_mem_singleton.mpr well.1, everyAll_isIdentifier arguments well.2⟩
  | place, .assign name value, well => by
      simp only [wellFormed, Bool.and_eq_true] at well
      exact ⟨List.forall_mem_singleton.mpr well.1, every_isIdentifier _ value well.2⟩
  | place, .var name, well => by
      simp only [wellFormed] at well
      exact List.forall_mem_singleton.mpr well
  | place, .logic .not left (.bool true), well => by
      simp only [wellFormed] at well
      exact ⟨nofun, every_isIdentifier _ left well, nofun⟩
  | place, .logic .and left right, well => by
      simp only [wellFormed, Bool.and_eq_true] at well
      exact ⟨nofun, every_isIdentifier _ left well.1, every_isIdentifier _ right well.2⟩
  | place, .logic .or left right, well => by
      simp only [wellFormed, Bool.and_eq_true] at well
      exact ⟨nofun, every_isIdentifier _ left well.1, every_isIdentifier _ right well.2⟩
  | place, .compare op left right, well => by
      simp only [wellFormed, Bool.and_eq_true] at well
      exact ⟨nofun, every_isIdentifier _ left well.1, every_isIdentifier _ right well.2⟩
  | place, .arith op left right, well => by
      simp only [wellFormed, Bool.and_eq_true] at well
      exact ⟨nofun, every_isIdentifier _ left well.1, every_isIdentifier _ right well.2⟩
  | _, .int _, _ => nofun
  | _, .float _, _ => nofun
  | _, .bool _, _ => nofun

theorem everyAll_isIdentifier : ∀ nodes : List (Node Unit), wellFormedAll nodes = true →
    EveryAll (Keeps fun name => isIdentifier name = true) nodes
  | [], _ => trivial
  | node :: rest, well => by
      simp only [wellFormedAll, Bool.and_eq_true] at well
      exact ⟨every_isIdentifier _ node well.1, everyAll_isIdentifier rest well.2⟩
end

end Node

/-- The names in an accepted text are on one line. -/
theorem every_oneLine_of_parse {limit : Nat} {source : String} {tree : Node Unit}
    (parsed : parseWithin limit source = .ok tree) : tree.Every (Node.Keeps OneLine) := by
  obtain ⟨phrases, lexemes, trees, member, ⟨pos, spelled⟩, made, -, rfl⟩ :=
    parseWithin_eq_ok_iff.mp parsed
  obtain ⟨row, inRow, proper⟩ := proper_of_mem_ended member spelled.proper
  obtain ⟨-, promised⟩ := promised_row phrases inRow proper made
  have named := Node.everyAll_isIdentifier trees promised.wellFormed
  have every : (Node.list trees).Every (Node.Keeps fun name => isIdentifier name = true) :=
    ⟨nofun, named⟩
  exact every.imp fun node keeps name mentioned => oneLine_of_isIdentifier (keeps name mentioned)

/-- **A run ends with a value or an error that is printed on one line**, and leaves only such
values behind. -/
theorem Interpreter.RunEnds.oneLine {i j : Interpreter} {source : String}
    {r : Except Failure Value} (ran : i.RunEnds source r j)
    (stored : lineDiscipline.Stored i.store) :
    lineDiscipline.Stored j.store ∧ (∀ v, r = .ok v → v.IsOneLine) ∧
      ∀ e, r = .error e → OneLine (Batch.failureText e) := by
  cases parsed : parse source with
  | error e =>
      obtain ⟨rfl, rfl⟩ := (runEnds_iff_of_error parsed).mp ran
      refine ⟨stored, nofun, ?_⟩
      rintro _ ⟨⟩
      exact oneLine_of_refused parsed
  | ok tree =>
      obtain ⟨outcome, m, ends, rfl, rfl⟩ := (runEnds_iff_ends parsed).mp ran
      have every := (every_oneLine_of_parse parsed).number_keeps i.nextDefinition
      obtain ⟨stored', good⟩ := (lineDiscipline_upheld i.limit).ends every stored ends
      refine ⟨stored', ?_, ?_⟩
      · rintro v same
        cases outcome with
        | ok w =>
            cases same
            exact good
        | error e => cases same
      · rintro e same
        cases outcome with
        | ok w => cases same
        | error e' =>
            cases same
            exact good

end BlockScript
