import BlockScript.Proofs.Reading.Finding

/-!
# Nesting never runs out of depth

The rules of the grammar are tied together by a depth.  Each level of nesting stands behind
at least one character, so a depth greater than the number of characters left is as good as
any other (`statements_eq`).  The rules therefore have a solution in which no depth is
mentioned: statements and expressions of any depth, of which the rules are equations
(`anyStatements_eq`, `anyExpression_eq`).  Everything that is proved about the grammar
further on is proved from these two equations.
-/

set_option autoImplicit false

namespace BlockScript

namespace Scanner

variable {α β : Type}

/-! ## The rules read and do not look at the record -/

section Rules

theorem consumes_of_takes {step : Cursor → Option (α × Cursor)}
    (takes : ∀ {c a c'}, step c = some (a, c') →
      ∃ text gap, Cursor.Takes text gap c c' ∧ text ≠ []) : Consumes (ofStep step) where
  lt found := by
    obtain ⟨text, gap, takes, nonempty⟩ := takes found
    have positive := List.length_pos_iff.mpr nonempty
    simp only [takes.rest, List.length_append]
    omega

instance (x : Char) (text : List Char) : Consumes (ofStep (Cursor.word? (x :: text))) :=
  consumes_of_takes fun found => by
    obtain ⟨gap, takes, _⟩ := Cursor.word?_eq_some_iff.mp found
    exact ⟨_, gap, takes, by simp⟩

instance : Consumes (ofStep Cursor.name?) :=
  consumes_of_takes fun found => by
    obtain ⟨gap, takes, ⟨⟨x, rest, named, _⟩, _⟩, _⟩ := Cursor.name?_eq_some_iff.mp found
    exact ⟨_, gap, takes, by simp [named]⟩

instance : Consumes (ofStep Cursor.digits?) :=
  consumes_of_takes fun found => by
    obtain ⟨gap, takes, nonempty, _⟩ := Cursor.digits?_eq_some_iff.mp found
    exact ⟨_, gap, takes, nonempty⟩

instance : Consumes (ofStep Cursor.fraction?) :=
  consumes_of_takes fun found => by
    obtain ⟨gap, takes, _⟩ := Cursor.fraction?_eq_some_iff.mp found
    exact ⟨_, gap, takes, by simp⟩

instance : Blind name := inferInstanceAs (Blind (named _ _))
instance : Consumes name := inferInstanceAs (Consumes (named _ _))
instance : Blind negation := inferInstanceAs (Blind (named _ _))
instance : Consumes negation := inferInstanceAs (Consumes (named _ _))

instance (op : BinaryOp) : Blind (operator op) := by
  unfold operator operator.written operator.spelled
  cases op with
  | arith op => cases op <;> infer_instance
  | and | or => infer_instance
  | compare op => cases op <;> infer_instance

instance (op : BinaryOp) : Consumes (operator op) := by
  unfold operator operator.written operator.spelled
  cases op with
  | arith op => cases op <;> infer_instance
  | and | or => infer_instance
  | compare op => cases op <;> infer_instance

instance blind_firstOf : ∀ ops, Blind (firstOf ops)
  | [] => inferInstanceAs (Blind fail)
  | op :: rest =>
      have := blind_firstOf rest
      inferInstanceAs (Blind (orElse (operator op) (firstOf rest)))

instance consumes_firstOf : ∀ ops, Consumes (firstOf ops)
  | [] => inferInstanceAs (Consumes fail)
  | op :: rest =>
      have := consumes_firstOf rest
      inferInstanceAs (Consumes (orElse (operator op) (firstOf rest)))

instance : Blind anyOperator := blind_firstOf _
instance : Consumes anyOperator := consumes_firstOf _

instance : Blind boolean := by unfold boolean; infer_instance
instance : Consumes boolean := by unfold boolean; infer_instance
instance : Blind float := by unfold float; infer_instance
instance : Consumes float := by unfold float; infer_instance
instance : Blind integer := by unfold integer; infer_instance
instance : Consumes integer := by unfold integer; infer_instance
instance : Blind reference := by unfold reference; infer_instance
instance : Consumes reference := by unfold reference; infer_instance
instance : Blind parameters := by unfold parameters; infer_instance
instance : Consumes parameters := by unfold parameters; infer_instance
instance : Blind becomes := by unfold becomes; infer_instance
instance : Blind terminator := by unfold terminator; infer_instance
instance : Consumes terminator := by unfold terminator; infer_instance

theorem find_becomes (c : Cursor) : becomes.find c =
    match Cursor.mark? ['='] c with
    | some (u, c') => if c'.rest.head? = some '=' then none else some (u, c')
    | none => none := rfl

instance : Consumes becomes where
  lt {c t u c'} found := by
    rw [Blind.same, find_becomes] at found
    split at found
    · rename_i u c₁ marked
      split at found
      · cases found
      · cases found
        exact Consumes.lt (p := mark ['=']) (t := t) marked
    · cases found

end Rules

/-- The phrase of a conditional, with or without an `else` part. -/
def conditionalOf (test yes : Listing) : Option Listing → Phrase
  | some no => .branchElse test.phrases yes.phrases no.phrases
  | none => .branch test.phrases yes.phrases

section Inside

-- The longest rules are sequences of eight.
set_option synthInstance.maxSize 512

variable (S : Scanner Listing) (E : Scanner (Series Operand)) [Blind S] [Blind E]

instance : Blind (block S) := by unfold block; infer_instance
instance : Blind (call S) := by unfold call; infer_instance
instance : Blind (assignment E) := by unfold assignment; infer_instance
instance : Blind (group E) := by unfold group; infer_instance
instance : Blind (operand S E) := by unfold operand; infer_instance
instance : Blind (elsePart S) := by unfold elsePart; infer_instance
instance : Blind (loop S) := by unfold loop; infer_instance

omit [Blind S] in
theorem conditional_eq : conditional S = named .conditional do
    mark ['i', 'f']
    mark ['(']
    let test ← S
    mark [')']
    mark ['{']
    let yes ← S
    mark ['}']
    let no ← optional (elsePart S)
    return conditionalOf test yes no := by
  refine congrArg (named .conditional) ?_
  refine bind_congr fun _ => bind_congr fun _ => bind_congr fun test => bind_congr fun _ => ?_
  refine bind_congr fun _ => bind_congr fun yes => bind_congr fun _ => bind_congr fun no => ?_
  cases no <;> rfl

instance : Blind (conditional S) := by rw [conditional_eq]; infer_instance

variable [Shrinks S] [Shrinks E]

instance : Consumes (block S) := by unfold block; infer_instance
instance : Consumes (call S) := by unfold call; infer_instance
instance : Consumes (assignment E) := by unfold assignment; infer_instance
instance : Consumes (group E) := by unfold group; infer_instance
instance : Consumes (operand S E) := by unfold operand; infer_instance
instance : Consumes (elsePart S) := by unfold elsePart; infer_instance
instance : Consumes (loop S) := by unfold loop; infer_instance

instance : Consumes (conditional S) := by rw [conditional_eq]; infer_instance

instance : Blind (signed S E) := by unfold signed; infer_instance
instance : Consumes (signed S E) := by unfold signed; infer_instance

instance : Blind (series S E) := by unfold series; infer_instance
instance : Consumes (series S E) := by unfold series; infer_instance
instance : Blind (statement S E) := by unfold statement; infer_instance
instance : Consumes (statement S E) := by unfold statement; infer_instance
instance : Blind (listing S E) := by unfold listing; infer_instance
instance : Consumes (listing S E) := by unfold listing; infer_instance

end Inside

/-! ## Depth does not matter -/

/-- Two scanners do the same wherever fewer than `n` characters are left. -/
def SameBelow (n : Nat) (p q : Scanner α) : Prop := ∀ c t, c.rest.length < n → p c t = q c t

namespace SameBelow

variable {n : Nat}

theorem refl (p : Scanner α) : SameBelow n p p := fun _ _ _ => rfl

theorem bind {p q : Scanner α} {f g : α → Scanner β} [Shrinks p] (first : SameBelow n p q)
    (second : ∀ a, SameBelow n (f a) (g a)) : SameBelow n (p >>= f) (q >>= g) := by
  intro c t short
  rw [bind_apply, bind_apply, ← first c t short]
  split
  · rename_i a c' t' found
    have shrinks : c'.rest.length ≤ c.rest.length := Shrinks.le (p := p) (t := t) (by rw [found])
    exact second a c' t' (by omega)
  · rfl

/-- What stands behind something that was read has fewer characters left. -/
theorem behind (p : Scanner α) {f g : α → Scanner β} [Consumes p]
    (second : ∀ a, SameBelow n (f a) (g a)) : SameBelow (n + 1) (p >>= f) (p >>= g) := by
  intro c t short
  rw [bind_apply, bind_apply]
  split
  · rename_i a c' t' found
    have shorter : c'.rest.length < c.rest.length := Consumes.lt (p := p) (t := t) (by rw [found])
    exact second a c' t' (by omega)
  · rfl

theorem orElse {p p' q q' : Scanner α} (first : SameBelow n p p') (second : SameBelow n q q') :
    SameBelow n (Scanner.orElse p q) (Scanner.orElse p' q') := by
  intro c t short
  unfold Scanner.orElse
  rw [← first c t short]
  split
  · rfl
  · exact second c _ short

theorem optional {p q : Scanner α} (same : SameBelow n p q) :
    SameBelow n (Scanner.optional p) (Scanner.optional q) := by
  intro c t short
  unfold Scanner.optional
  rw [same c t short]

theorem named {p q : Scanner α} (form : Form) (same : SameBelow n p q) :
    SameBelow n (Scanner.named form p) (Scanner.named form q) := by
  intro c t short
  unfold Scanner.named
  rw [same c t short]

theorem upTo {p q : Scanner α} [Shrinks p] (same : SameBelow n p q) : ∀ k c t, c.rest.length < n →
    Scanner.upTo p k c t = Scanner.upTo q k c t
  | 0, _, _, _ => rfl
  | k + 1, c, t, short => by
      rw [Scanner.upTo, Scanner.upTo, ← same c t short]
      split
      · rename_i a c' t' found
        have shrinks : c'.rest.length ≤ c.rest.length :=
          Shrinks.le (p := p) (t := t) (by rw [found])
        rw [upTo same k c' t' (by omega)]
      · rfl

theorem many {p q : Scanner α} [Shrinks p] (same : SameBelow n p q) :
    SameBelow n (Scanner.many p) (Scanner.many q) := by
  intro c t short
  rw [many_apply, many_apply, same.upTo _ c t short]

end SameBelow

section Levels

variable {n : Nat} {S S' : Scanner Listing} {E E' : Scanner (Series Operand)}
  [Shrinks S] [Shrinks E]

theorem sameBelow_operand (inS : SameBelow n S S') (inE : SameBelow n E E') :
    SameBelow (n + 1) (operand S E) (operand S' E') := by
  have inBlock : SameBelow (n + 1) (block S) (block S') :=
    .named _ (.behind _ fun _ => .bind (.refl _) fun _ => .bind inS fun _ => .refl _)
  have inCall : SameBelow (n + 1) (call S) (call S') :=
    .named _ (.behind _ fun _ => .bind (.refl _) fun _ => .bind (.optional inS) fun _ => .refl _)
  have inAssignment : SameBelow (n + 1) (assignment E) (assignment E') :=
    .named _ (.behind _ fun _ => .bind (.refl _) fun _ => .bind inE fun _ => .refl _)
  have inGroup : SameBelow (n + 1) (group E) (group E') :=
    .behind _ fun _ => .bind inE fun _ => .refl _
  exact .orElse inBlock (.orElse inCall (.orElse inAssignment (.orElse (.refl _)
    (.orElse (.refl _) (.orElse (.refl _) (.orElse (.refl _) inGroup))))))

theorem sameBelow_conditional (inS : SameBelow n S S') :
    SameBelow (n + 1) (conditional S) (conditional S') := by
  have inElse : SameBelow n (elsePart S) (elsePart S') :=
    .bind (.refl _) fun _ => .bind (.refl _) fun _ => .bind inS fun _ => .refl _
  rw [conditional_eq, conditional_eq]
  refine .named _ (.behind _ fun _ => .bind (.refl _) fun _ => .bind inS fun _ => ?_)
  refine .bind (.refl _) fun _ => .bind (.refl _) fun _ => .bind inS fun _ => ?_
  exact .bind (.refl _) fun _ => .bind (.optional inElse) fun _ => .refl _

variable [Blind S] [Blind E]

theorem sameBelow_series (inS : SameBelow n S S') (inE : SameBelow n E E') :
    SameBelow (n + 1) (series S E) (series S' E') := by
  have inSigned : SameBelow (n + 1) (signed S E) (signed S' E') :=
    .bind (.refl _) fun _ => .bind (sameBelow_operand inS inE) fun _ => .refl _
  refine .named _ (.bind inSigned fun _ => .bind (.many ?_) fun _ => .refl _)
  exact .bind (.refl _) fun _ => .bind inSigned fun _ => .refl _

theorem sameBelow_listing (inS : SameBelow n S S') (inE : SameBelow n E E') :
    SameBelow (n + 1) (listing S E) (listing S' E') := by
  have inLoop : SameBelow (n + 1) (loop S) (loop S') := by
    refine .named _ (.behind _ fun _ => .bind (.refl _) fun _ => .bind inS fun _ => ?_)
    refine .bind (.refl _) fun _ => .bind (.refl _) fun _ => .bind inS fun _ => .refl _
  have inStatement : SameBelow (n + 1) (statement S E) (statement S' E') :=
    .orElse (sameBelow_conditional inS) (.orElse inLoop
      (.bind (sameBelow_series inS inE) fun _ => .refl _))
  refine .named _ (.bind (.refl _) fun _ => .bind inStatement fun _ => ?_)
  refine .bind (.many (.bind (.refl _) fun _ => inStatement)) fun _ => ?_
  exact .refl _

end Levels

theorem blind_and_shrinks (depth : Nat) :
    (Blind (statements depth) ∧ Shrinks (statements depth)) ∧
      Blind (expression depth) ∧ Shrinks (expression depth) := by
  induction depth with
  | zero =>
      have nothing (α : Type) : Blind (fail : Scanner α) ∧ Shrinks (fail : Scanner α) :=
        ⟨inferInstance, inferInstance⟩
      exact ⟨nothing _, nothing _⟩
  | succ depth ih =>
      obtain ⟨⟨_, _⟩, _, _⟩ := ih
      exact ⟨⟨inferInstanceAs (Blind (listing (statements depth) (expression depth))),
          inferInstanceAs (Shrinks (listing (statements depth) (expression depth)))⟩,
        inferInstanceAs (Blind (series (statements depth) (expression depth))),
        inferInstanceAs (Shrinks (series (statements depth) (expression depth)))⟩

instance (depth : Nat) : Blind (statements depth) := (blind_and_shrinks depth).1.1
instance (depth : Nat) : Shrinks (statements depth) := (blind_and_shrinks depth).1.2
instance (depth : Nat) : Blind (expression depth) := (blind_and_shrinks depth).2.1
instance (depth : Nat) : Shrinks (expression depth) := (blind_and_shrinks depth).2.2

/-- Any two depths that are great enough for what is left of the text do the same. -/
theorem sameBelow_depth (n : Nat) : ∀ {depth depth'}, n ≤ depth → n ≤ depth' →
    SameBelow n (statements depth) (statements depth') ∧
      SameBelow n (expression depth) (expression depth') := by
  induction n with
  | zero =>
      intro depth depth' _ _
      exact ⟨fun c _ short => absurd short (Nat.not_lt_zero _),
        fun c _ short => absurd short (Nat.not_lt_zero _)⟩
  | succ n ih =>
      intro depth depth' enough enough'
      obtain ⟨d, rfl⟩ : ∃ d, depth = d + 1 := ⟨depth - 1, by omega⟩
      obtain ⟨d', rfl⟩ : ∃ d', depth' = d' + 1 := ⟨depth' - 1, by omega⟩
      obtain ⟨inS, inE⟩ := ih (Nat.le_of_succ_le_succ enough) (Nat.le_of_succ_le_succ enough')
      exact ⟨sameBelow_listing inS inE, sameBelow_series inS inE⟩

/-- Rows of statements of any depth. -/
def anyStatements : Scanner Listing := fun c t => statements (c.rest.length + 1) c t

/-- Expressions of any depth. -/
def anyExpression : Scanner (Series Operand) := fun c t => expression (c.rest.length + 1) c t

theorem statements_eq {depth : Nat} {c : Cursor} (t : Tracker) (enough : c.rest.length < depth) :
    statements depth c t = anyStatements c t :=
  (sameBelow_depth (c.rest.length + 1) enough (Nat.le_refl _)).1 c t (Nat.lt_succ_self _)

theorem expression_eq {depth : Nat} {c : Cursor} (t : Tracker) (enough : c.rest.length < depth) :
    expression depth c t = anyExpression c t :=
  (sameBelow_depth (c.rest.length + 1) enough (Nat.le_refl _)).2 c t (Nat.lt_succ_self _)

/-- **Statements of any depth are a row of statements whose parts are of any depth.** -/
theorem anyStatements_eq : anyStatements = listing anyStatements anyExpression := by
  funext c t
  have inS : SameBelow c.rest.length (statements c.rest.length) anyStatements :=
    fun _ t short => statements_eq t short
  have inE : SameBelow c.rest.length (expression c.rest.length) anyExpression :=
    fun _ t short => expression_eq t short
  exact sameBelow_listing inS inE c t (Nat.lt_succ_self _)

/-- **Expressions of any depth are a series whose parts are of any depth.** -/
theorem anyExpression_eq : anyExpression = series anyStatements anyExpression := by
  funext c t
  have inS : SameBelow c.rest.length (statements c.rest.length) anyStatements :=
    fun _ t short => statements_eq t short
  have inE : SameBelow c.rest.length (expression c.rest.length) anyExpression :=
    fun _ t short => expression_eq t short
  exact sameBelow_series inS inE c t (Nat.lt_succ_self _)

instance : Blind anyStatements where
  same c t := by
    have same := Blind.same (p := statements (c.rest.length + 1)) c
    unfold find at same ⊢
    rw [← statements_eq t (Nat.lt_succ_self _), ← statements_eq .empty (Nat.lt_succ_self _), same]

instance : Blind anyExpression where
  same c t := by
    have same := Blind.same (p := expression (c.rest.length + 1)) c
    unfold find at same ⊢
    rw [← expression_eq t (Nat.lt_succ_self _), ← expression_eq .empty (Nat.lt_succ_self _), same]

instance : Shrinks anyStatements where
  le found := by
    rw [← statements_eq _ (Nat.lt_succ_self _)] at found
    exact Shrinks.le found

instance : Shrinks anyExpression where
  le found := by
    rw [← expression_eq _ (Nat.lt_succ_self _)] at found
    exact Shrinks.le found

end Scanner

end BlockScript
