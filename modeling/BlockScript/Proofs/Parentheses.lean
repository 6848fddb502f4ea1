import BlockScript.Proofs.Grouping
import BlockScript.Proofs.Tokens.Agreement

/-!
# Parentheses that follow the grouping

Parentheses follow the grouping of operators if they are put around neighbouring operands whose
operators bind tighter than the one before them, and no less tightly than the one behind them.
A `not` may stand in them only if they reach up to the end of the series, since it takes all the
rest.  Such parentheses may be put anywhere in a program, inside operands and inside each other
(`RowParenthesized`), and they do not change the nodes (`RowParenthesized.layered`).

What is left to show is then that a segment of a series may be replaced by its tree.  For this a
series is looked at in the slot that it stands in, which knows how tightly the operator before
it binds (`Slot.Behind`).
-/

set_option autoImplicit false

namespace BlockScript

variable {α δ : Type}

/-! ## Where parentheses may be put -/

namespace Series

/-- Two series with an operator between them. -/
def join : Series α → BinaryOp → Series α → Series α
  | .last nots operand, op, behind => .link nots operand op behind
  | .link nots operand first rest, op, behind => .link nots operand first (rest.join op behind)

/-- A series behind one more `not`. -/
def negate : Series α → Series α
  | .last nots operand => .last (nots + 1) operand
  | .link nots operand op rest => .link (nots + 1) operand op rest

/-- The operators of a series that stand before its first `not`. -/
def outerOperators : Series α → List BinaryOp
  | .last _ _ | .link (_ + 1) _ _ _ => []
  | .link 0 _ op rest => op :: rest.outerOperators

/-- Whether there is no `not` in a series. -/
def isPlain : Series α → Bool
  | .last nots _ => nots == 0
  | .link nots _ _ rest => nots == 0 && rest.isPlain

end Series

mutual
/-- The second statement is the first one with parentheses that follow the grouping. -/
inductive Phrase.Parenthesized : Phrase → Phrase → Prop where
  | branch {test yes test' yes' : List Phrase} :
      RowParenthesized test test' → RowParenthesized yes yes' →
      Phrase.Parenthesized (.branch test yes) (.branch test' yes')
  | branchElse {test yes no test' yes' no' : List Phrase} :
      RowParenthesized test test' → RowParenthesized yes yes' → RowParenthesized no no' →
      Phrase.Parenthesized (.branchElse test yes no) (.branchElse test' yes' no')
  | loop {header body header' body' : List Phrase} {place place' : Span} :
      RowParenthesized header header' → RowParenthesized body body' →
      Phrase.Parenthesized (.loop header place body) (.loop header' place' body')
  | expression {series series' : Series Operand} :
      SeriesParenthesized 0 series series' →
      Phrase.Parenthesized (.expression series) (.expression series')

/-- Statements in a row and the same ones with parentheses. -/
inductive RowParenthesized : List Phrase → List Phrase → Prop where
  | nil : RowParenthesized [] []
  | cons {phrase phrase' : Phrase} {rest rest' : List Phrase} :
      phrase.Parenthesized phrase' → RowParenthesized rest rest' →
      RowParenthesized (phrase :: rest) (phrase' :: rest')

/-- A series and the same one with parentheses.  It stands behind an operator of the given
power, or behind no operator if this is zero. -/
inductive SeriesParenthesized : Nat → Series Operand → Series Operand → Prop where
  | last {power : Nat} {operand operand' : Operand} :
      operand.Parenthesized operand' →
      SeriesParenthesized power (.last 0 operand) (.last 0 operand')
  | link {power : Nat} {operand operand' : Operand} {op : BinaryOp} {rest rest' : Series Operand} :
      operand.Parenthesized operand' → SeriesParenthesized op.power rest rest' →
      SeriesParenthesized power (.link 0 operand op rest) (.link 0 operand' op rest')
  | negate {power : Nat} {series series' : Series Operand} :
      SeriesParenthesized 0 series series' →
      SeriesParenthesized power series.negate series'.negate
  /-- Parentheses up to the end of the series.  The operators in them that are not taken by a
  `not` bind tighter than the one before. -/
  | around {power : Nat} {series series' : Series Operand} :
      (∀ op ∈ series.outerOperators, power < op.power) → SeriesParenthesized 0 series series' →
      SeriesParenthesized power series (.last 0 (.group series'))
  /-- Parentheses up to an operator.  The operators in them bind tighter than the one before and
  no less tightly than the one behind, and no `not` among them takes what is behind. -/
  | front {power : Nat} {series series' rest rest' : Series Operand} {op : BinaryOp} :
      series.isPlain = true → (∀ inner ∈ series.outerOperators, power < inner.power) →
      (∀ inner ∈ series.outerOperators, op.power ≤ inner.power) →
      SeriesParenthesized 0 series series' → SeriesParenthesized op.power rest rest' →
      SeriesParenthesized power (series.join op rest) (.link 0 (.group series') op rest')

/-- An operand and the same one with parentheses. -/
inductive Operand.Parenthesized : Operand → Operand → Prop where
  | block {parameters : List String} {body body' : List Phrase} :
      RowParenthesized body body' →
      Operand.Parenthesized (.block parameters body) (.block parameters body')
  | call {name : String} {arguments arguments' : List Phrase} :
      RowParenthesized arguments arguments' →
      Operand.Parenthesized (.call name arguments) (.call name arguments')
  | assign {name : String} {value value' : Series Operand} :
      SeriesParenthesized 0 value value' →
      Operand.Parenthesized (.assign name value) (.assign name value')
  | bool {value : Bool} : Operand.Parenthesized (.bool value) (.bool value)
  | float {whole fraction : List Char} :
      Operand.Parenthesized (.float whole fraction) (.float whole fraction)
  | int {digits : List Char} {place place' : Span} :
      Operand.Parenthesized (.int digits place) (.int digits place')
  | var {name : String} : Operand.Parenthesized (.var name) (.var name)
  | group {series series' : Series Operand} :
      SeriesParenthesized 0 series series' → Operand.Parenthesized (.group series) (.group series')
end

/-! ## Segments in their slots -/

namespace Slot

/-- The slot stands behind an operator of the given power, or behind none. -/
def Behind (slot : Slot δ) (power : Nat) : Prop :=
  (power = 0 → slot = .first) ∧ (power ≤ 1 → slot.product = id)

theorem behind_first : (first : Slot δ).Behind 0 := ⟨fun _ => rfl, fun _ => rfl⟩

theorem behind_next (slot : Slot δ) (operand : Node δ) (op : BinaryOp) :
    (slot.next operand op).Behind op.power := by
  cases kind : op.isProduct with
  | true =>
      have two : op.power = 2 := by simp [op.power_eq, kind]
      rw [two]
      exact ⟨nofun, fun less => absurd less (by decide)⟩
  | false =>
      have one : op.power = 1 := by simp [op.power_eq, kind]
      rw [one, next_sum slot operand kind]
      exact ⟨nofun, fun _ => rfl⟩

/-- The operands of a series put into their slots. -/
def putAll (slot : Slot δ) (series : Series (Node δ)) : Node δ :=
  slot.put series.operands.first series.operands.rest

theorem first_putAll (series : Series (Node δ)) : first.putAll series = series.layered :=
  first_put _ _

theorem putAll_negate (slot : Slot δ) (series : Series (Node δ)) :
    slot.putAll series.negate = slot.fill (.negation series.layered) := by
  cases series <;> rfl

section Segments

variable {slot : Slot δ} {power : Nat} {operand following : Node δ}
  {rest more : List (BinaryOp × Node δ)} {op : BinaryOp}

/-- Before a sum, all that has been read is given to it. -/
theorem put_append_sum (sum : op.isProduct = false) :
    slot.put operand (rest ++ (op, following) :: more) =
      put ⟨id, .binary op (slot.put operand rest)⟩ following more := by
  induction rest generalizing slot operand with
  | nil =>
      change (slot.next operand op).put following more = _
      rw [next_sum slot operand sum]
      rfl
  | cons link rest ih => exact ih

/-- Products are folded to the left, whatever follows them. -/
theorem put_products (products : ∀ inner ∈ rest.map Prod.fst, inner.isProduct = true) :
    slot.put operand (rest ++ more) =
      put ⟨id, slot.sum⟩ (Operands.foldLeft ⟨slot.product operand, rest⟩) more := by
  induction rest generalizing slot operand with
  | nil =>
      cases more with
      | nil => rfl
      | cons link more =>
          rw [List.nil_append, put, put, next, next]
          rfl
  | cons link rest ih =>
      obtain ⟨inner, following⟩ := link
      obtain ⟨product, products⟩ := List.forall_mem_cons.mp products
      rw [List.cons_append, put, next_product slot operand product, ih products]
      rfl

/-- A product that goes on with products is the one with their tree. -/
theorem Behind.foldLeft (behind : slot.Behind power)
    (tight : ∀ inner ∈ rest.map Prod.fst, power < inner.power)
    (products : ∀ inner ∈ rest.map Prod.fst, inner.isProduct = true) :
    Operands.foldLeft ⟨slot.product operand, rest⟩ =
      slot.product (Operands.tree ⟨operand, rest⟩) := by
  have folded : Operands.tree ⟨operand, rest⟩ = Operands.foldLeft ⟨operand, rest⟩ := by
    rw [← first_put, ← rest.append_nil, put_products products, rest.append_nil]
    rfl
  rw [folded]
  cases rest with
  | nil => rfl
  | cons link rest =>
      have two : link.1.power = 2 := by simp [link.1.power_eq, products link.1 List.mem_cons_self]
      have low : power < 2 := two ▸ tight link.1 List.mem_cons_self
      rw [behind.2 (Nat.le_of_lt_succ low)]
      rfl

/-- **A segment up to the end** may be replaced by its tree. -/
theorem Behind.put (behind : slot.Behind power)
    (tight : ∀ inner ∈ rest.map Prod.fst, power < inner.power) :
    slot.put operand rest = slot.fill (Operands.tree ⟨operand, rest⟩) := by
  rcases Nat.eq_zero_or_pos power with rfl | positive
  · rw [behind.1 rfl, first_put]
    rfl
  · have products : ∀ inner ∈ rest.map Prod.fst, inner.isProduct = true := by
      intro inner member
      have above := tight inner member
      rw [inner.power_eq] at above
      by_contra sum
      rw [if_neg sum] at above
      omega
    rw [← rest.append_nil, put_products products, behind.foldLeft tight products, rest.append_nil]
    rfl

/-- **A segment before an operator** may be replaced by its tree. -/
theorem Behind.put_append (behind : slot.Behind power)
    (tight : ∀ inner ∈ rest.map Prod.fst, power < inner.power)
    (tighter : ∀ inner ∈ rest.map Prod.fst, op.power ≤ inner.power) :
    slot.put operand (rest ++ (op, following) :: more) =
      (slot.next (Operands.tree ⟨operand, rest⟩) op).put following more := by
  cases kind : op.isProduct with
  | false => rw [put_append_sum kind, behind.put tight, next_sum slot _ kind]
  | true =>
      have products : ∀ inner ∈ rest.map Prod.fst, inner.isProduct = true := by
        intro inner member
        have above := tighter inner member
        rw [op.power_eq, if_pos kind, inner.power_eq] at above
        by_contra sum
        rw [if_neg sum] at above
        omega
      rw [put_products products, Slot.put, behind.foldLeft tight products,
        next_product _ _ kind, next_product slot _ kind]
      rfl

end Segments

end Slot

namespace Series

theorem map_fst_operands (series : Series (Node δ)) :
    series.operands.rest.map Prod.fst = series.outerOperators := by
  induction series with
  | last nots operand =>
      rw [operands, Operands.negated_single]
      rfl
  | link nots operand op rest ih =>
      cases nots with
      | zero => exact congrArg (op :: ·) ih
      | succ nots => rfl

theorem operands_join {series : Series (Node δ)} (plain : series.isPlain = true) (op : BinaryOp)
    (behind : Series (Node δ)) :
    (series.join op behind).operands = ⟨series.operands.first,
      series.operands.rest ++ (op, behind.operands.first) :: behind.operands.rest⟩ := by
  induction series with
  | last nots operand =>
      cases beq_iff_eq.mp plain
      rfl
  | link nots operand inner rest ih =>
      obtain ⟨zero, plain⟩ := Bool.and_eq_true_iff.mp plain
      cases beq_iff_eq.mp zero
      rw [join, operands, ih plain]
      rfl

end Series

/-! ## Parentheses in programs -/

theorem layeredSeries_join (series : Series Operand) (op : BinaryOp) (behind : Series Operand) :
    layeredSeries (series.join op behind) = (layeredSeries series).bind fun segment =>
      (layeredSeries behind).map fun rest => segment.join op rest := by
  induction series with
  | last nots operand =>
      simp only [Series.join, layeredSeries]
      cases operand.layered <;> cases layeredSeries behind <;> rfl
  | link nots operand inner rest ih =>
      simp only [Series.join, layeredSeries, ih]
      cases operand.layered <;> cases layeredSeries rest <;> cases layeredSeries behind <;> rfl

theorem layeredSeries_negate (series : Series Operand) :
    layeredSeries series.negate = (layeredSeries series).map Series.negate := by
  cases series with
  | last nots operand =>
      simp only [Series.negate, layeredSeries]
      cases operand.layered <;> rfl
  | link nots operand op rest =>
      simp only [Series.negate, layeredSeries]
      cases operand.layered <;> cases layeredSeries rest <;> rfl

/-- The nodes of a series have its operators and its `not`s. -/
theorem shape_of_layeredSeries {series : Series Operand} {trees : Series (Node Unit)}
    (made : layeredSeries series = some trees) :
    trees.outerOperators = series.outerOperators ∧ trees.isPlain = series.isPlain := by
  induction series generalizing trees with
  | last nots operand =>
      simp only [layeredSeries, bind, pure, Option.bind_eq_some_iff, Option.some.injEq] at made
      obtain ⟨_, _, rfl⟩ := made
      exact ⟨rfl, rfl⟩
  | link nots operand op rest ih =>
      simp only [layeredSeries, bind, pure, Option.bind_eq_some_iff, Option.some.injEq] at made
      obtain ⟨_, _, further, made, rfl⟩ := made
      obtain ⟨same, plain⟩ := ih made
      refine ⟨?_, by rw [Series.isPlain, Series.isPlain, plain]⟩
      cases nots with
      | zero => rw [Series.outerOperators, Series.outerOperators, same]
      | succ nots => rfl

/-- The tree that comes of a series in a slot. -/
def Slot.read (slot : Slot Unit) (series : Series Operand) : Option (Node Unit) :=
  (layeredSeries series).map slot.putAll

namespace Slot

variable {slot : Slot Unit} {power : Nat} {series rest : Series Operand}

theorem first_read (series : Series Operand) :
    first.read series = (layeredSeries series).map Series.layered := by
  rw [read, funext first_putAll]

theorem layered_expression (series : Series Operand) :
    (Phrase.expression series).layered = first.read series := by
  rw [first_read, Phrase.layered]
  cases layeredSeries series <;> rfl

theorem layered_group (series : Series Operand) :
    (Operand.group series).layered = first.read series := by
  rw [first_read, Operand.layered]
  cases layeredSeries series <;> rfl

theorem layered_assign (name : String) (value : Series Operand) :
    (Operand.assign name value).layered = (first.read value).map (.assign name) := by
  rw [first_read, Operand.layered]
  cases layeredSeries value <;> rfl

theorem read_last (slot : Slot Unit) (operand : Operand) :
    slot.read (.last 0 operand) = operand.layered.map slot.fill := by
  rw [read, layeredSeries]
  cases operand.layered <;> rfl

theorem read_link (slot : Slot Unit) (operand : Operand) (op : BinaryOp) (rest : Series Operand) :
    slot.read (.link 0 operand op rest) =
      operand.layered.bind fun node => (slot.next node op).read rest := by
  simp only [read, layeredSeries]
  cases operand.layered <;> cases layeredSeries rest <;> rfl

theorem read_negate (slot : Slot Unit) (series : Series Operand) :
    slot.read series.negate = (first.read series).map fun node => slot.fill (.negation node) := by
  rw [first_read, read, layeredSeries_negate, Option.map_map, Option.map_map]
  congr 1
  funext trees
  exact slot.putAll_negate trees

theorem Behind.read_around (behind : slot.Behind power)
    (tight : ∀ inner ∈ series.outerOperators, power < inner.power) :
    slot.read series = (first.read series).map slot.fill := by
  rw [first_read, read]
  cases made : layeredSeries series with
  | none => rfl
  | some trees =>
      rw [← (shape_of_layeredSeries made).1, ← trees.map_fst_operands] at tight
      exact congrArg some (behind.put tight)

theorem Behind.read_front (behind : slot.Behind power) {op : BinaryOp}
    (plain : series.isPlain = true)
    (tight : ∀ inner ∈ series.outerOperators, power < inner.power)
    (tighter : ∀ inner ∈ series.outerOperators, op.power ≤ inner.power) :
    slot.read (series.join op rest) =
      (first.read series).bind fun node => (slot.next node op).read rest := by
  rw [first_read, read, layeredSeries_join]
  cases made : layeredSeries series with
  | none => rfl
  | some trees =>
      obtain ⟨same, plain'⟩ := shape_of_layeredSeries made
      rw [← same, ← trees.map_fst_operands] at tight tighter
      cases further : layeredSeries rest with
      | none => simp [read, further]
      | some more =>
          have moved : slot.putAll (trees.join op more) =
              (slot.next trees.layered op).putAll more := by
            rw [putAll, Series.operands_join (plain'.trans plain)]
            exact behind.put_append tight tighter
          simp [read, further, moved]

end Slot

mutual
/-- **Parentheses that follow the grouping do not change the tree.**  By recursion on how they are
put there; a series is looked at in the slot that it stands in. -/
theorem Phrase.Parenthesized.layered : ∀ {phrase phrase' : Phrase},
    phrase.Parenthesized phrase' → phrase'.layered = phrase.layered
  | _, _, .branch test yes => by
      simp only [Phrase.layered, test.layered, yes.layered]
  | _, _, .branchElse test yes no => by
      simp only [Phrase.layered, test.layered, yes.layered, no.layered]
  | _, _, .loop header body => by
      simp only [Phrase.layered, header.layered, body.layered]
  | _, _, .expression series => by
      rw [Slot.layered_expression, Slot.layered_expression, series.read Slot.behind_first]

theorem RowParenthesized.layered : ∀ {row row' : List Phrase},
    RowParenthesized row row' → layeredRow row' = layeredRow row
  | _, _, .nil => rfl
  | _, _, .cons first rest => by simp only [layeredRow, first.layered, rest.layered]

theorem SeriesParenthesized.read : ∀ {power : Nat} {series series' : Series Operand},
    SeriesParenthesized power series series' → ∀ {slot : Slot Unit}, slot.Behind power →
    slot.read series' = slot.read series
  | _, _, _, .last operand, slot, _ => by
      rw [Slot.read_last, Slot.read_last, operand.layered]
  | _, _, _, .link operand rest, slot, _ => by
      rw [Slot.read_link, Slot.read_link, operand.layered]
      congr 1
      funext node
      exact rest.read (slot.behind_next node _)
  | _, _, _, .negate series, slot, _ => by
      rw [Slot.read_negate, Slot.read_negate, series.read Slot.behind_first]
  | _, _, _, .around tight inner, slot, behind => by
      rw [Slot.read_last, Slot.layered_group, inner.read Slot.behind_first,
        behind.read_around tight]
  | _, _, _, .front plain tight tighter inner rest, slot, behind => by
      rw [Slot.read_link, Slot.layered_group, inner.read Slot.behind_first,
        behind.read_front plain tight tighter]
      congr 1
      funext node
      exact rest.read (slot.behind_next node _)

theorem Operand.Parenthesized.layered : ∀ {operand operand' : Operand},
    operand.Parenthesized operand' → operand'.layered = operand.layered
  | _, _, .block body => by simp only [Operand.layered, body.layered]
  | _, _, .call arguments => by simp only [Operand.layered, arguments.layered]
  | _, _, .assign value => by
      rw [Slot.layered_assign, Slot.layered_assign, value.read Slot.behind_first]
  | _, _, .bool | _, _, .float | _, _, .int | _, _, .var => rfl
  | _, _, .group series => by
      rw [Slot.layered_group, Slot.layered_group, series.read Slot.behind_first]
end

/-! ## From texts to trees -/

section Texts

open Nesting

variable {limit : Nat} {source : String} {phrases : List Phrase} {lexemes : List Lexeme}
  {trees : List (Node Unit)}

/-- However a text is seen as phrases, their nodes are the tree that is read from it. -/
theorem nodes_of_parsed (parsed : parseWithin limit source = .ok (.list trees))
    (member : lexemes ∈ Ended (rowLanguage phrases)) (reads : ReadsAs source.toList lexemes) :
    nodes phrases = .ok trees := by
  obtain ⟨phrases', lexemes', trees', member', reads', made, -, same⟩ :=
    parseWithin_eq_ok_iff.mp parsed
  cases same
  obtain ⟨found, read, plain⟩ := exists_readPhrases member reads
  obtain ⟨found', read', plain'⟩ := exists_readPhrases member' reads'
  cases read.symm.trans read'
  exact nodes_eq_ok_of_plain (plain.symm.trans plain') made

/-- A text is accepted with the limits from its depth on. -/
theorem parseWithin_iff_deepest (member : lexemes ∈ Ended (rowLanguage phrases))
    (reads : ReadsAs source.toList lexemes) (made : nodes phrases = .ok trees) :
    parseWithin limit source = .ok (.list trees) ↔ deepest lexemes ≤ limit := by
  rw [parseWithin_eq_ok_iff, ← within_iff_deepest]
  constructor
  · rintro ⟨_, lexemes', _, -, reads', -, within, -⟩
    rwa [reads.unique reads'] at within
  · exact fun within => ⟨phrases, lexemes, trees, member, reads, made, within, rfl⟩

end Texts

open Nesting in
/-- **Operators group in layers.**  An accepted text is written as statements, and however it is
seen so, its tree is theirs by the layered reference.  Another text that is the same but for
parentheses that follow the grouping is accepted with the same tree, with all limits that it is
not too deep for. -/
theorem operators_group_in_layers {limit : Nat} {source : String} {tree : Node Unit}
    (parsed : parseWithin limit source = .ok tree) :
    (∃ phrases, ∃ lexemes ∈ Ended (rowLanguage phrases), ReadsAs source.toList lexemes) ∧
    ∀ phrases, ∀ lexemes ∈ Ended (rowLanguage phrases), ReadsAs source.toList lexemes →
      (layeredRow phrases).map .list = some tree ∧
      ∀ phrases', RowParenthesized phrases phrases' →
        ∀ source', ∀ lexemes' ∈ Ended (rowLanguage phrases'), ReadsAs source'.toList lexemes' →
          ∀ limit', parseWithin limit' source' = .ok tree ↔ deepest lexemes' ≤ limit' := by
  obtain ⟨phrases₀, lexemes₀, trees, member₀, reads₀, -, -, rfl⟩ := parseWithin_eq_ok_iff.mp parsed
  refine ⟨⟨phrases₀, lexemes₀, member₀, reads₀⟩, fun phrases lexemes member reads => ?_⟩
  have made := nodes_of_parsed parsed member reads
  have layered : layeredRow phrases = some trees := by
    rw [← toOption_nodes_eq, made]
    rfl
  refine ⟨by rw [layered]; rfl, fun phrases' gains source' lexemes' member' reads' limit' => ?_⟩
  have made' : nodes phrases' = .ok trees := by
    rw [← toOption_eq_some_iff, toOption_nodes_eq, gains.layered, layered]
  exact parseWithin_iff_deepest member' reads' made'

/-- Each operator with its node.  Products stand inside the operators around them, all the others
lean to the left whatever they are, and `not` takes the rest and has `true` as its second side. -/
example : parse "a + b * c - d / e == f != g <= h >= i < j > k and l or not m * n + o" =
    .ok (.list [.logic .or
      (.logic .and
        (.compare .gt (.compare .lt (.compare .ge (.compare .le (.compare .ne (.compare .eq
          (.arith .sub
            (.arith .add (.var "a") (.arith .mul (.var "b") (.var "c")))
            (.arith .div (.var "d") (.var "e")))
          (.var "f")) (.var "g")) (.var "h")) (.var "i")) (.var "j")) (.var "k"))
        (.var "l"))
      (.logic .not
        (.arith .add (.arith .mul (.var "m") (.var "n")) (.var "o"))
        (.bool true))]) := by
  cbv

/-- A number of one digit, without its place. -/
def digit (x : Char) : Operand := .int [x] ⟨0, 0⟩

/-- `3 + 4 * 5`. -/
def sumOfProduct : Series Operand :=
  .link 0 (digit '3') (.arith .add) (.link 0 (digit '4') (.arith .mul) (.last 0 (digit '5')))

/-- `3 + (4 * 5)`. -/
def clearSum : Series Operand :=
  .link 0 (digit '3') (.arith .add)
    (.last 0 (.group (.link 0 (digit '4') (.arith .mul) (.last 0 (digit '5')))))

/-- `1 - 2 * not 3 + 4 * 5`. -/
def negatedSum : Series Operand :=
  .link 0 (digit '1') (.arith .sub) (.link 0 (digit '2') (.arith .mul) sumOfProduct.negate)

/-- `(1) - (2 * (not (3 + (4 * 5))))`. -/
def clearNegatedSum : Series Operand :=
  .link 0 (.group (.last 0 (digit '1'))) (.arith .sub)
    (.last 0 (.group (.link 0 (digit '2') (.arith .mul)
      (.last 0 (.group (.last 1 (.group clearSum)))))))

theorem parenthesized_negatedSum : SeriesParenthesized 0 negatedSum clearNegatedSum := by
  have sum : SeriesParenthesized 0 sumOfProduct clearSum :=
    .link .int (.around (by decide) (.link .int (.last .int)))
  have negated : SeriesParenthesized 2 sumOfProduct.negate
      (.last 0 (.group (.last 1 (.group clearSum)))) :=
    .around (by decide) (.negate (.around (by decide) sum))
  have one : SeriesParenthesized 0 (.last 0 (digit '1')) (.last 0 (digit '1')) := .last .int
  exact .front rfl (by decide) (by decide) one (.around (by decide) (.link .int negated))

theorem mem_digit (x : Char) : [.int [x]] ∈ (digit x).language := rfl

theorem mem_single {lexemes : List Lexeme} {series : Series Operand}
    (inside : lexemes ∈ seriesLanguage series) :
    lexemes ∈ Ended (rowLanguage [.expression series]) := by
  rw [rowLanguage, restLanguage, mul_one]
  exact mem_ended inside

theorem written_negatedSum : ∃ lexemes ∈ Ended (rowLanguage [.expression negatedSum]),
    ReadsAs "1 - 2 * not 3 + 4 * 5".toList lexemes := by
  have product := mem_link 0 (.arith .mul) rfl (mem_digit '4') (mem_last 0 (mem_digit '5'))
  have negated := mem_link 1 (.arith .add) rfl (mem_digit '3') product
  have member := mem_single <| mem_link 0 (.arith .sub) rfl (mem_digit '1') <|
    mem_link 0 (.arith .mul) rfl (mem_digit '2') negated
  refine ⟨_, member, readsAs_of_lexed (by decide +kernel) (by decide +kernel) ?_⟩
  simp [Separable, Lexeme.Proper]

open Nesting in
theorem written_clearNegatedSum : ∃ lexemes ∈ Ended (rowLanguage [.expression clearNegatedSum]),
    ReadsAs "(1) - (2 * (not (3 + (4 * 5))))".toList lexemes ∧ deepest lexemes = 5 := by
  have product := mem_link 0 (.arith .mul) rfl (mem_digit '4') (mem_last 0 (mem_digit '5'))
  have sum := mem_link 0 (.arith .add) rfl (mem_digit '3') (mem_last 0 (mem_group product))
  have negated := mem_last 0 (mem_group (mem_last 1 (mem_group sum)))
  have member := mem_single <|
    mem_link 0 (.arith .sub) rfl (mem_group (mem_last 0 (mem_digit '1'))) <|
      mem_last 0 (mem_group (mem_link 0 (.arith .mul) rfl (mem_digit '2') negated))
  refine ⟨_, member, readsAs_of_lexed (by decide +kernel) (by decide +kernel) ?_,
    by decide +kernel⟩
  simp [Separable, Lexeme.Proper, enclose]

/-- The number in front, the product behind it, and in this the negation and its sum are put in
parentheses. -/
theorem operators_group_in_layers_negatedSum : ∃ tree,
    parseWithin 1 "1 - 2 * not 3 + 4 * 5" = .ok tree ∧
    RowParenthesized [.expression negatedSum] [.expression clearNegatedSum] ∧
    (layeredRow [.expression negatedSum]).map .list = some tree ∧
    parseWithin 5 "(1) - (2 * (not (3 + (4 * 5))))" = .ok tree := by
  obtain ⟨tree, parsed⟩ : ∃ tree, parseWithin 1 "1 - 2 * not 3 + 4 * 5" = .ok tree :=
    exists_of_isOk (by decide +kernel)
  obtain ⟨lexemes, member, reads⟩ := written_negatedSum
  obtain ⟨lexemes', member', reads', depth⟩ := written_clearNegatedSum
  have gains : RowParenthesized [.expression negatedSum] [.expression clearNegatedSum] :=
    .cons (.expression parenthesized_negatedSum) .nil
  obtain ⟨layered, grouped⟩ := (operators_group_in_layers parsed).2 _ lexemes member reads
  exact ⟨tree, parsed, gains, layered,
    (grouped _ gains _ lexemes' member' reads' 5).mpr (Nat.le_of_eq depth)⟩

end BlockScript
