import BlockScript.Proofs.Reading.Levels

/-!
# The scan for depth bounds the tree

The scan for depth is there so that a program tree is never deeper than the limit.  It is:
on every path from the root of a program to a leaf there are at most as many constructs that
nest as levels were open at some point of the text (`fits_row`).

The number of levels open at a point is a matter of the lexemes before it
(`Nesting.openLevels`): a bracket is open until it is closed, and a `not` or the `=` of an
assignment is open until the next `;` or the closing bracket around it.  A text is a program
within a limit exactly if nowhere more levels are open than that.
-/

set_option autoImplicit false

namespace BlockScript

namespace Nesting

/-! ## The levels open at a point -/

/-- Whether a level is still open behind what follows it, with `inner` brackets open inside
it.  It is closed by the closing bracket around it and, if it lasts only until the end of a
statement, by a `;` that is not inside further brackets. -/
def stays (untilEnd : Bool) : Nat → List Effect → Bool
  | _, [] => true
  | inner, .opens :: rest => stays untilEnd (inner + 1) rest
  | 0, .closes :: _ => false
  | inner + 1, .closes :: rest => stays untilEnd inner rest
  | 0, .ends :: rest => !untilEnd && stays untilEnd 0 rest
  | inner + 1, .ends :: rest => stays untilEnd (inner + 1) rest
  | inner, .awaits :: rest => stays untilEnd inner rest
  | inner, .plain :: rest => stays untilEnd inner rest

/-- The number of levels that are open behind a row of effects. -/
def openLevels : List Effect → Nat
  | [] => 0
  | .opens :: rest => (stays false 0 rest).toNat + openLevels rest
  | .awaits :: rest => (stays true 0 rest).toNat + openLevels rest
  | _ :: rest => openLevels rest

/-- The largest number of levels that are open at any point of a row of lexemes. -/
def deepest (lexemes : List Lexeme) : Nat :=
  (lexemes.inits.map fun before => openLevels (effectsOf before)).foldr max 0

/-- The levels around brackets that are still open behind a row of effects, the innermost
bracket first; `inner` brackets were left out. -/
def lasting : Nat → List Nat → List Effect → Nat
  | _, [], _ => 0
  | inner, pending :: enclosing, effects =>
      (stays false inner effects).toNat + (stays true (inner + 1) effects).toNat * pending +
        lasting (inner + 1) enclosing effects

theorem lasting_nil (inner : Nat) (enclosing : List Nat) :
    lasting (inner + 1) enclosing [] = lasting inner enclosing [] := by
  induction enclosing generalizing inner with
  | nil => rfl
  | cons pending enclosing ih => simp [lasting, stays, ih]

theorem lasting_opens (inner : Nat) (enclosing : List Nat) (effects : List Effect) :
    lasting inner enclosing (.opens :: effects) = lasting (inner + 1) enclosing effects := by
  induction enclosing generalizing inner with
  | nil => rfl
  | cons pending enclosing ih => simp [lasting, stays, ih]

theorem lasting_closes (inner : Nat) (enclosing : List Nat) (effects : List Effect) :
    lasting (inner + 1) enclosing (.closes :: effects) = lasting inner enclosing effects := by
  induction enclosing generalizing inner with
  | nil => rfl
  | cons pending enclosing ih => simp [lasting, stays, ih]

/-- A statement that ends, or goes on, does not touch the levels around it. -/
theorem lasting_flat (inner : Nat) (enclosing : List Nat) (effects : List Effect)
    {effect : Effect} (flat : effect ≠ .opens ∧ effect ≠ .closes) :
    lasting inner enclosing (effect :: effects) = lasting inner enclosing effects := by
  induction enclosing generalizing inner with
  | nil => rfl
  | cons pending enclosing ih =>
      cases effect with
      | opens => exact absurd rfl flat.1
      | closes => exact absurd rfl flat.2
      | ends => cases inner <;> simp [lasting, stays, ih]
      | awaits | plain => simp [lasting, stays, ih]

/-- **The scan counts the open levels.** -/
theorem depth_run (effects : List Effect) (s : Nesting)
    (counted : s.depth = s.pending + lasting 0 s.enclosing []) :
    (run effects s).depth =
      openLevels effects + (stays true 0 effects).toNat * s.pending +
        lasting 0 s.enclosing effects := by
  induction effects generalizing s with
  | nil => simp [openLevels, stays, counted]
  | cons effect rest ih =>
      obtain ⟨depth, pending, enclosing⟩ := s
      simp only at counted
      rw [run_cons]
      cases effect with
      | opens =>
          have counted' : depth + 1 = 0 + lasting 0 (pending :: enclosing) [] := by
            simp [lasting, stays, lasting_nil, counted]
            omega
          have further := ih ⟨depth + 1, 0, pending :: enclosing⟩ counted'
          simp only [lasting, Nat.zero_add] at further
          simp only [apply, further, openLevels, stays, lasting_opens, Nat.zero_add]
          omega
      | closes =>
          cases enclosing with
          | nil =>
              -- A closing bracket with nothing open.
              simp only [lasting, Nat.add_zero] at counted
              have further := ih ⟨depth - (pending + 1), 0, []⟩ (by simp [lasting, counted])
              simpa [apply, openLevels, stays, lasting] using further
          | cons outer enclosing =>
              have counted' : depth - (pending + 1) = outer + lasting 0 enclosing [] := by
                simp [lasting, stays, lasting_nil] at counted
                omega
              have further := ih ⟨depth - (pending + 1), outer, enclosing⟩ counted'
              simp only [apply, List.headD_cons, List.tail_cons, further, openLevels, stays,
                lasting, lasting_closes]
              simp
              omega
      | ends =>
          have counted' : depth - pending = 0 + lasting 0 enclosing [] := by omega
          have further := ih ⟨depth - pending, 0, enclosing⟩ counted'
          simpa [apply, openLevels, stays, lasting_flat] using further
      | awaits =>
          have counted' : depth + 1 = pending + 1 + lasting 0 enclosing [] := by omega
          have further := ih ⟨depth + 1, pending + 1, enclosing⟩ counted'
          have around : lasting 0 enclosing (.awaits :: rest) = lasting 0 enclosing rest :=
            lasting_flat 0 enclosing rest (by decide)
          simp only [apply, further, openLevels, stays, around, Nat.mul_succ]
          omega
      | plain =>
          have further := ih ⟨depth, pending, enclosing⟩ counted
          simpa [apply, openLevels, stays, lasting_flat] using further

theorem within_iff_inits {limit : Nat} {lexemes : List Lexeme} {s : Nesting}
    (low : s.depth ≤ limit) : Within limit (effectsOf lexemes) s ↔
      ∀ before ∈ lexemes.inits, (run (effectsOf before) s).depth ≤ limit := by
  induction lexemes generalizing s with
  | nil => simp [Within, low]
  | cons lexeme rest ih =>
      -- A lexeme has at most one effect.
      have first : Within limit lexeme.effects s ↔ (run lexeme.effects s).depth ≤ limit := by
        cases lexeme <;> simp [Lexeme.effects, Within, low]
      simp only [effectsOf_cons, within_append, first, List.inits_cons, List.forall_mem_cons,
        effectsOf_nil, run_nil, low, true_and, List.forall_mem_map, run_append]
      constructor
      · rintro ⟨low', within⟩
        exact (ih low').mp within
      · intro all
        have low' := all [] (by simp)
        exact ⟨low', (ih low').mpr all⟩

/-- Nowhere in a row of lexemes are more levels open than a limit exactly if no lexeme goes
deeper than that. -/
theorem within_iff_deepest {limit : Nat} {lexemes : List Lexeme} :
    Within limit (effectsOf lexemes) outside ↔ deepest lexemes ≤ limit := by
  have most (levels : List Nat) : levels.foldr max 0 ≤ limit ↔ ∀ n ∈ levels, n ≤ limit := by
    induction levels <;> simp_all
  have counted (before : List Lexeme) :
      (run (effectsOf before) outside).depth = openLevels (effectsOf before) := by
    rw [depth_run _ outside rfl]
    simp [outside, lasting]
  rw [within_iff_inits (Nat.zero_le limit), deepest, most]
  simp [counted]

end Nesting

/-! ## The paths of a tree -/

namespace Node

variable {δ : Type}

/-- The paths of a node that nests, from the paths of its parts; without parts it is a leaf. -/
def deeper : List Nat → List Nat
  | [] => [1]
  | counts => counts.map (· + 1)

mutual
/-- For each path from a node to a leaf, how many constructs on it nest: block literals,
calls, tests and branches of conditionals, headers and bodies of loops, assignments and
negations. -/
def paths : Node δ → List Nat
  | .list statements => pathsAll statements
  | .loop start test step body => deeper (paths start ++ paths test ++ paths step ++ pathsAll body)
  | .branch test yes => deeper (paths test ++ pathsAll yes)
  | .branchElse test yes no => deeper (paths test ++ pathsAll yes ++ pathsAll no)
  | .block _ _ body => deeper (pathsAll body)
  | .call _ arguments => deeper (pathsAll arguments)
  | .assign _ value => deeper (paths value)
  | .logic .not left right => deeper (paths left ++ paths right)
  | .logic _ left right => paths left ++ paths right
  | .compare _ left right => paths left ++ paths right
  | .arith _ left right => paths left ++ paths right
  | .var _ | .int _ | .float _ | .bool _ => [0]

/-- The paths of several nodes. -/
def pathsAll : List (Node δ) → List Nat
  | [] => []
  | node :: rest => paths node ++ pathsAll rest
end

/-- No path goes deeper than a limit, starting at a depth. -/
def Fits (limit depth : Nat) (counts : List Nat) : Prop :=
  depth ≤ limit ∧ ∀ count ∈ counts, depth + count ≤ limit

theorem Fits.append {limit depth : Nat} {counts more : List Nat} (first : Fits limit depth counts)
    (second : Fits limit depth more) : Fits limit depth (counts ++ more) := by
  refine ⟨first.1, fun count member => ?_⟩
  rcases List.mem_append.mp member with member | member
  · exact first.2 count member
  · exact second.2 count member

theorem Fits.deeper {limit depth : Nat} {counts : List Nat} (fits : Fits limit (depth + 1) counts) :
    Fits limit depth (Node.deeper counts) := by
  obtain ⟨low, all⟩ := fits
  refine ⟨Nat.le_of_succ_le low, fun count member => ?_⟩
  cases counts with
  | nil =>
      cases List.mem_singleton.mp member
      exact low
  | cons first rest =>
      obtain ⟨inner, inside, rfl⟩ := List.mem_map.mp member
      have := all inner inside
      omega

theorem Fits.shallower {limit depth : Nat} {counts : List Nat}
    (fits : Fits limit (depth + 1) counts) : Fits limit depth counts :=
  ⟨Nat.le_of_succ_le fits.1, fun count member => by have := fits.2 count member; omega⟩

theorem fits_leaf {limit depth : Nat} (low : depth ≤ limit) : Fits limit depth [0] :=
  ⟨low, by simpa using low⟩

theorem paths_binary (op : BinaryOp) (left right : Node δ) :
    (binary op left right).paths = left.paths ++ right.paths := by
  cases op <;> simp [binary, paths]

/-! ## The paths of a grouped series -/

theorem fits_negations {limit depth nots : Nat} {operand : Node δ}
    (fits : Fits limit (depth + nots) operand.paths) :
    Fits limit depth (negations nots operand).paths := by
  induction nots generalizing depth with
  | zero => exact fits
  | succ nots ih =>
      have inner : Fits limit (depth + 1) (negations nots operand).paths :=
        ih (by rwa [Nat.add_right_comm, Nat.add_assoc])
      simp only [negations, negation, paths]
      exact (inner.append (fits_leaf inner.1)).deeper

end Node

/-- Each operand of a series fits below the negations before it. -/
def Series.Fits {δ : Type} (limit : Nat) : Nat → Series (Node δ) → Prop
  | depth, .last nots operand => Node.Fits limit (depth + nots) operand.paths
  | depth, .link nots operand _ rest =>
      Node.Fits limit (depth + nots) operand.paths ∧ Fits limit (depth + nots) rest

section Grouping

variable {δ : Type} {limit depth : Nat}

/-- Every waiting operand fits. -/
def Waiting.Fits (limit depth : Nat) (waiting : Waiting δ) : Prop :=
  ∀ entry ∈ waiting, Node.Fits limit depth entry.1.paths

theorem Waiting.fits_nil : Waiting.Fits limit depth ([] : Waiting δ) := by
  intro entry member
  cases member

theorem Waiting.Fits.settle {power : Nat} {waiting : Waiting δ} {right : Node δ}
    (fits : waiting.Fits limit depth) (last : Node.Fits limit depth right.paths) :
    (waiting.settle power right).1.Fits limit depth ∧
      Node.Fits limit depth (waiting.settle power right).2.paths := by
  induction waiting generalizing right with
  | nil => exact ⟨fits, last⟩
  | cons entry rest ih =>
      obtain ⟨left, op⟩ := entry
      rw [Waiting.settle]
      split
      · refine ih (fun entry member => fits entry (List.mem_cons_of_mem _ member)) ?_
        rw [Node.paths_binary]
        exact (fits (left, op) List.mem_cons_self).append last
      · exact ⟨fits, last⟩

theorem Waiting.Fits.finish {waiting : Waiting δ} {right : Node δ}
    (fits : waiting.Fits limit depth) (last : Node.Fits limit depth right.paths) :
    Node.Fits limit depth (waiting.finish right).paths :=
  (fits.settle last).2

/-- **Grouping does not add to the depth of an operand.** -/
theorem Series.Fits.arrange {series : Series (Node δ)} {waiting : Waiting δ}
    (waits : waiting.Fits limit depth) (fits : series.Fits limit depth) :
    Node.Fits limit depth (series.arrange waiting).paths := by
  induction series generalizing waiting depth with
  | last nots operand => exact waits.finish (Node.fits_negations fits)
  | link nots operand op rest ih =>
      obtain ⟨first, further⟩ := fits
      cases nots with
      | zero =>
          obtain ⟨waits', left⟩ := waits.settle first
          refine ih (fun entry member => ?_) further
          rcases List.mem_cons.mp member with rfl | member
          · exact left
          · exact waits' entry member
      | succ nots =>
          -- The operand and all that follows it stand below the negations.
          refine waits.finish (Node.fits_negations (ih (fun entry member => ?_) further))
          rw [List.mem_singleton.mp member]
          exact first

end Grouping

/-! ## The tree of a program -/

section Tree

open Nesting

variable {limit : Nat}

/-- Behind brackets the depth is as it was. -/
theorem run_of_mem_enclosed {bracket : Bracket} {L : Language Lexeme} (all : Balanced.All L)
    {lexemes : List Lexeme} (member : lexemes ∈ Enclosed bracket L) (s : Nesting) :
    run (effectsOf lexemes) s = s := by
  obtain ⟨inside, within, rfl⟩ := mem_enclosed_iff.mp member
  exact (all inside within).run_enclosed bracket s

/-- A `;` that ends a row goes no deeper. -/
theorem within_of_mem_ended {L : Language Lexeme} {lexemes : List Lexeme} {s : Nesting}
    (member : lexemes ∈ Ended L) (within : Within limit (effectsOf lexemes) s) :
    ∃ row ∈ L, Within limit (effectsOf row) s := by
  obtain ⟨row, member, last, _, rfl⟩ := member
  rw [effectsOf_append, within_append] at within
  exact ⟨row, member, within.1⟩

/-- What stands between brackets starts one level deeper. -/
theorem within_of_mem_enclosed {bracket : Bracket} {L : Language Lexeme} {lexemes : List Lexeme}
    {s : Nesting} (member : lexemes ∈ Enclosed bracket L)
    (within : Within limit (effectsOf lexemes) s) :
    s.depth + 1 ≤ limit ∧ ∃ inside ∈ L,
      Within limit (effectsOf inside) ⟨s.depth + 1, 0, s.pending :: s.enclosing⟩ := by
  obtain ⟨inside, member', rfl⟩ := mem_enclosed_iff.mp member
  rw [enclose, effectsOf_cons, effectsOf_append, within_append, within_append] at within
  exact ⟨within.1.1, inside, member', within.2.1⟩

/-- Along the lexemes of an operand that is not an assignment the depth comes back. -/
theorem run_operand {operand : Operand} (free : operand.isAssignment = false)
    {lexemes : List Lexeme} (member : lexemes ∈ operand.language) (s : Nesting) :
    run (effectsOf lexemes) s = s := by
  cases operand with
  | block parameters body =>
      have named := Balanced.all_singleton (Balanced.balanced_parameters parameters)
      exact run_of_mem_enclosed (named.mul (Balanced.all_row body).ended) member s
  | call name arguments =>
      obtain ⟨_, rfl, enclosed, member', rfl⟩ := member
      exact run_of_mem_enclosed
        ((Balanced.all_empty arguments).add (Balanced.all_row arguments).ended) member' s
  | assign => cases free
  | bool | float | int | var =>
      cases member
      rfl
  | group series => exact run_of_mem_enclosed (Balanced.all_series series) member s

/-- Negations go deeper one by one. -/
theorem run_negations (nots : Nat) (s : Nesting) :
    run (effectsOf (.replicate nots .negation)) s =
      ⟨s.depth + nots, s.pending + nots, s.enclosing⟩ := by
  induction nots generalizing s with
  | zero => rfl
  | succ nots ih =>
      rw [List.replicate_succ, effectsOf_cons, run_append, ih]
      simp [Lexeme.effects, apply]
      omega

theorem depth_of_within_negations {nots : Nat} {s : Nesting} (low : s.depth ≤ limit)
    (within : Within limit (effectsOf (.replicate nots .negation)) s) : s.depth + nots ≤ limit := by
  cases nots with
  | zero => exact low
  | succ nots =>
      rw [List.replicate_succ', effectsOf_append, within_append, run_negations] at within
      exact within.2.1

/-- Parameters do not nest. -/
theorem effectsOf_parameters (names : List String) : effectsOf (parameterLexemes names) = [] := by
  cases names with
  | nil => rfl
  | cons x rest =>
      have more : effectsOf (rest.flatMap fun y => [.comma, .name y]) = [] := by
        induction rest with
        | nil => rfl
        | cons y rest ih => simpa [Lexeme.effects] using ih
      simp [parameterLexemes, Lexeme.effects, more]

/-- The statements between brackets fit, one level deeper. -/
theorem fits_enclosed {row : List Phrase} {bracket : Bracket} {lexemes : List Lexeme}
    {s : Nesting} {trees : List (Node Unit)}
    (inner : ∀ {lexemes depth enclosing trees}, lexemes ∈ rowLanguage row →
      Within limit (effectsOf lexemes) ⟨depth, 0, enclosing⟩ → depth ≤ limit →
      nodes row = .ok trees → Node.Fits limit depth (Node.pathsAll trees))
    (member : lexemes ∈ Enclosed bracket (Ended (rowLanguage row)))
    (within : Within limit (effectsOf lexemes) s) (made : nodes row = .ok trees) :
    Node.Fits limit (s.depth + 1) (Node.pathsAll trees) := by
  obtain ⟨low, inside, member', within'⟩ := within_of_mem_enclosed member within
  obtain ⟨row, member'', within''⟩ := within_of_mem_ended member' within'
  exact inner member'' within'' low made

mutual
/-- The tree of a statement fits where its lexemes do. -/
theorem fits_phrase : ∀ (phrase : Phrase) {lexemes : List Lexeme} {s : Nesting}
    {tree : Node Unit}, lexemes ∈ phrase.language → Within limit (effectsOf lexemes) s →
    s.depth ≤ limit → phrase.node = .ok tree → Node.Fits limit s.depth tree.paths
  | .branch test yes, lexemes, s, tree, member, within, low, made => by
      simp only [Phrase.node, bind_eq_ok_iff, pure_eq_ok_iff] at made
      obtain ⟨tests, madeTest, yess, madeYes, rfl⟩ := made
      obtain ⟨_, ⟨_, rfl, a, inA, rfl⟩, b, inB, rfl⟩ := member
      simp only [effectsOf_append, within_append] at within
      obtain ⟨⟨-, withinA⟩, withinB⟩ := within
      have first := fits_enclosed (fits_row test) inA withinA madeTest
      rw [run_append, run_of_mem_enclosed (Balanced.all_row test).ended inA] at withinB
      have second := fits_enclosed (fits_row yes) inB withinB madeYes
      exact (first.append second).deeper
  | .branchElse test yes no, lexemes, s, tree, member, within, low, made => by
      simp only [Phrase.node, bind_eq_ok_iff, pure_eq_ok_iff] at made
      obtain ⟨nos, madeNo, tests, madeTest, yess, madeYes, rfl⟩ := made
      obtain ⟨_, ⟨_, ⟨_, ⟨_, rfl, a, inA, rfl⟩, b, inB, rfl⟩, _, rfl, rfl⟩, c, inC, rfl⟩ := member
      simp only [effectsOf_append, within_append] at within
      obtain ⟨⟨⟨⟨-, withinA⟩, withinB⟩, -⟩, withinC⟩ := within
      have first := fits_enclosed (fits_row test) inA withinA madeTest
      rw [run_append, run_of_mem_enclosed (Balanced.all_row test).ended inA] at withinB
      have second := fits_enclosed (fits_row yes) inB withinB madeYes
      rw [run_append, run_append, run_append, run_of_mem_enclosed (Balanced.all_row test).ended inA,
        run_of_mem_enclosed (Balanced.all_row yes).ended inB] at withinC
      have third := fits_enclosed (fits_row no) inC withinC madeNo
      exact ((first.append second).append third).deeper
  | .loop header place body, lexemes, s, tree, member, within, low, made => by
      simp only [Phrase.node, bind_eq_ok_iff] at made
      obtain ⟨headers, madeHeader, made⟩ := made
      obtain ⟨_, ⟨_, rfl, a, inA, rfl⟩, b, inB, rfl⟩ := member
      simp only [effectsOf_append, within_append] at within
      obtain ⟨⟨-, withinA⟩, withinB⟩ := within
      have first := fits_enclosed (fits_row header) inA withinA madeHeader
      rw [run_append, run_of_mem_enclosed (Balanced.all_row header).ended inA] at withinB
      unfold loopNode at made
      split at made
      · simp only [bind_eq_ok_iff, pure_eq_ok_iff] at made
        obtain ⟨bodies, madeBody, rfl⟩ := made
        have second := fits_enclosed (fits_row body) inB withinB madeBody
        have whole := (first.append second).deeper
        simp only [Node.pathsAll, List.append_nil, List.append_assoc] at whole
        simp only [Node.paths, List.append_assoc]
        exact whole
      · cases made
  | .expression series, lexemes, s, tree, member, within, low, made => by
      simp only [Phrase.node, bind_eq_ok_iff, pure_eq_ok_iff] at made
      obtain ⟨operands, made, rfl⟩ := made
      exact (fits_series series member within low made).arrange Waiting.fits_nil

/-- The trees of a row of statements fit where its lexemes do. -/
theorem fits_row : ∀ (row : List Phrase) {lexemes : List Lexeme} {depth : Nat}
    {enclosing : List Nat} {trees : List (Node Unit)}, lexemes ∈ rowLanguage row →
    Within limit (effectsOf lexemes) ⟨depth, 0, enclosing⟩ → depth ≤ limit →
    nodes row = .ok trees → Node.Fits limit depth (Node.pathsAll trees)
  | [], _, _, _, _, member, _, _, _ => absurd member (Language.notMem_zero _)
  | phrase :: rest, lexemes, depth, enclosing, trees, member, within, low, made => by
      simp only [nodes, bind_eq_ok_iff, pure_eq_ok_iff] at made
      obtain ⟨first, madeFirst, further, madeRest, rfl⟩ := made
      obtain ⟨a, inA, b, inB, rfl⟩ := member
      simp only [effectsOf_append, within_append] at within
      obtain ⟨k, landed⟩ := (Balanced.all_phrase phrase a inA).flat depth 0 enclosing
      rw [Nat.add_zero] at landed
      rw [landed] at within
      exact (fits_phrase phrase inA within.1 low madeFirst).append
        (fits_rest rest inB within.2 low madeRest)

/-- The trees of further statements fit where their lexemes do. -/
theorem fits_rest : ∀ (row : List Phrase) {lexemes : List Lexeme} {depth k : Nat}
    {enclosing : List Nat} {trees : List (Node Unit)}, lexemes ∈ restLanguage row →
    Within limit (effectsOf lexemes) ⟨depth + k, k, enclosing⟩ → depth ≤ limit →
    nodes row = .ok trees → Node.Fits limit depth (Node.pathsAll trees)
  | [], _, _, _, _, trees, _, _, low, made => by
      cases made
      exact ⟨low, nofun⟩
  | phrase :: rest, lexemes, depth, k, enclosing, trees, member, within, low, made => by
      simp only [nodes, bind_eq_ok_iff, pure_eq_ok_iff] at made
      obtain ⟨first, madeFirst, further, madeRest, rfl⟩ := made
      obtain ⟨_, ⟨_, rfl, a, inA, rfl⟩, b, inB, rfl⟩ := member
      -- The `;` takes back what the statement before it has left open.
      have ended : run (effectsOf [.semicolon]) ⟨depth + k, k, enclosing⟩ =
          ⟨depth, 0, enclosing⟩ := by
        simp [Lexeme.effects, apply]
      simp only [effectsOf_append, within_append, run_append, ended] at within
      obtain ⟨k', landed⟩ := (Balanced.all_phrase phrase a inA).flat depth 0 enclosing
      rw [Nat.add_zero] at landed
      rw [landed] at within
      exact (fits_phrase phrase inA within.1.2 low madeFirst).append
        (fits_rest rest inB within.2 low madeRest)

/-- The operands of a series fit where its lexemes do. -/
theorem fits_series : ∀ (series : Series Operand) {lexemes : List Lexeme} {s : Nesting}
    {operands : Series (Node Unit)}, lexemes ∈ seriesLanguage series →
    Within limit (effectsOf lexemes) s → s.depth ≤ limit →
    seriesNodes series = .ok operands → operands.Fits limit s.depth
  | .last nots operand, lexemes, s, operands, member, within, low, made => by
      simp only [seriesNodes, bind_eq_ok_iff, pure_eq_ok_iff] at made
      obtain ⟨tree, made, rfl⟩ := made
      obtain ⟨_, rfl, a, inA, rfl⟩ := member
      simp only [effectsOf_append, within_append, run_negations] at within
      exact fits_operand operand inA within.2 (depth_of_within_negations low within.1) made
  | .link nots operand op rest, lexemes, s, operands, member, within, low, made => by
      simp only [seriesNodes, bind_eq_ok_iff, pure_eq_ok_iff] at made
      obtain ⟨first, madeFirst, further, madeRest, rfl⟩ := made
      rw [seriesLanguage] at member
      split at member
      · exact absurd member (Language.notMem_zero _)
      · rename_i free
        obtain ⟨_, ⟨_, ⟨_, rfl, a, inA, rfl⟩, _, rfl, rfl⟩, b, inB, rfl⟩ := member
        simp only [effectsOf_append, within_append, run_append, run_negations] at within
        obtain ⟨⟨⟨negations, withinA⟩, -⟩, withinB⟩ := within
        rw [run_operand (by simpa using free) inA] at withinB
        have low' := depth_of_within_negations low negations
        exact ⟨fits_operand operand inA withinA low' madeFirst,
          fits_series rest inB withinB low' madeRest⟩

/-- The tree of an operand fits where its lexemes do. -/
theorem fits_operand : ∀ (operand : Operand) {lexemes : List Lexeme} {s : Nesting}
    {tree : Node Unit}, lexemes ∈ operand.language → Within limit (effectsOf lexemes) s →
    s.depth ≤ limit → operand.node = .ok tree → Node.Fits limit s.depth tree.paths
  | .block parameters body, lexemes, s, tree, member, within, low, made => by
      simp only [Operand.node, bind_eq_ok_iff, pure_eq_ok_iff] at made
      obtain ⟨trees, made, rfl⟩ := made
      obtain ⟨low', inside, member', within'⟩ := within_of_mem_enclosed member within
      obtain ⟨_, rfl, a, inA, rfl⟩ := member'
      rw [effectsOf_append, effectsOf_parameters, List.nil_append] at within'
      obtain ⟨row, inRow, withinRow⟩ := within_of_mem_ended inA within'
      exact (fits_row body inRow withinRow low' made).deeper
  | .call name arguments, lexemes, s, tree, member, within, low, made => by
      simp only [Operand.node, bind_eq_ok_iff, pure_eq_ok_iff] at made
      obtain ⟨trees, made, rfl⟩ := made
      obtain ⟨_, rfl, a, inA, rfl⟩ := member
      rw [effectsOf_append, within_append] at within
      obtain ⟨low', inside, member', within'⟩ := within_of_mem_enclosed inA within.2
      rcases member' with member' | member'
      · split at member'
        · rename_i empty
          rw [List.isEmpty_iff.mp empty] at made
          cases made
          exact Node.Fits.deeper ⟨low', nofun⟩
        · exact absurd member' (Language.notMem_zero _)
      · obtain ⟨row, inRow, withinRow⟩ := within_of_mem_ended member' within'
        exact (fits_row arguments inRow withinRow low' made).deeper
  | .assign name value, lexemes, s, tree, member, within, low, made => by
      simp only [Operand.node, bind_eq_ok_iff, pure_eq_ok_iff] at made
      obtain ⟨operands, made, rfl⟩ := made
      obtain ⟨_, rfl, a, inA, rfl⟩ := member
      rw [effectsOf_append, within_append] at within
      obtain ⟨⟨low', -⟩, within⟩ := within
      have fits := fits_series value inA within low' made
      exact (fits.arrange Waiting.fits_nil).deeper
  | .bool _, _, _, _, _, _, low, made => by
      cases made
      exact Node.fits_leaf low
  | .float _ _, _, _, _, _, _, low, made => by
      cases made
      exact Node.fits_leaf low
  | .int digits place, _, _, _, _, _, low, made => by
      simp only [Operand.node, integerNode] at made
      split at made
      · cases made
        exact Node.fits_leaf low
      · cases made
  | .var _, _, _, _, _, _, low, made => by
      cases made
      exact Node.fits_leaf low
  | .group series, lexemes, s, tree, member, within, low, made => by
      simp only [Operand.node, bind_eq_ok_iff, pure_eq_ok_iff] at made
      obtain ⟨operands, made, rfl⟩ := made
      obtain ⟨low', inside, member', within'⟩ := within_of_mem_enclosed member within
      exact ((fits_series series member' within' low' made).arrange Waiting.fits_nil).shallower
end

end Tree

/-! ## The bound -/

section Bound

open Nesting

/-- A text is read as lexemes in one way only. -/
theorem ReadsAs.unique {text : List Char} {lexemes other : List Lexeme}
    (reads : ReadsAs text lexemes) (reads' : ReadsAs text other) : other = lexemes := by
  obtain ⟨pos, spelled⟩ := reads
  obtain ⟨pos', spelled'⟩ := reads'
  generalize (Cursor.start text).skipGap = c at spelled spelled'
  induction lexemes generalizing c other with
  | nil =>
      cases spelled
      cases other with
      | nil => rfl
      | cons lexeme rest =>
          obtain ⟨c₁, first, _⟩ := spelled'
          exact absurd first.lt (Nat.not_lt_zero _)
  | cons lexeme rest ih =>
      obtain ⟨c₁, first, further⟩ := spelled
      cases other with
      | nil =>
          cases spelled'
          exact absurd first.lt (Nat.not_lt_zero _)
      | cons lexeme' rest' =>
          obtain ⟨c₂, first', further'⟩ := spelled'
          obtain ⟨rfl, rfl⟩ := first.unique first'
          rw [ih c₂ further further']

theorem parseWithin_of_deep {limit : Nat} {source : String} {lexemes : List Lexeme}
    (placed : Placed lexemes) (reads : ReadsAs source.toList lexemes)
    (deep : limit < deepest lexemes) :
    ∃ span, parseWithin limit source = .error ⟨.nesting (limit + 1) limit, span⟩ := by
  have exceeds : ¬Within limit (effects none source.toList) outside := by
    rw [effects_of_readsAs placed reads, within_iff_deepest]
    exact Nat.not_le.mpr deep
  obtain ⟨span, refused⟩ := check_eq.2 exceeds
  exact ⟨span, by simp [parseWithin, refused, bind, Except.bind]⟩

/-- **The nesting limit bounds the tree.**  A program that is read within a limit has no path
with more nested constructs than that.  And whether a program is read depends on the limit
in one way only: there is one way to read its text as lexemes, and it is read, with the same
tree, exactly within the limits that are not below the largest number of levels open at any
point of it; below that it is refused for the first level too many. -/
theorem nesting_limit_bounds_tree (source : String) :
    (∀ limit tree, parseWithin limit source = .ok tree → ∀ count ∈ tree.paths, count ≤ limit) ∧
    ∀ limit tree, parseWithin limit source = .ok tree →
      ∃ lexemes, (∀ other, ReadsAs source.toList other ↔ other = lexemes) ∧
        ∀ m, (deepest lexemes ≤ m → parseWithin m source = .ok tree) ∧
          (m < deepest lexemes →
            ∃ span, parseWithin m source = .error ⟨.nesting (m + 1) m, span⟩) := by
  constructor
  · intro limit tree parsed count member
    obtain ⟨phrases, lexemes, trees, inRow, _, made, within, rfl⟩ :=
      parseWithin_eq_ok_iff.mp parsed
    obtain ⟨row, inRow, withinRow⟩ := within_of_mem_ended inRow within
    have fits := fits_row phrases inRow withinRow (Nat.zero_le limit) made
    simpa using fits.2 count member
  · intro limit tree parsed
    obtain ⟨phrases, lexemes, trees, inRow, reads, made, within, rfl⟩ :=
      parseWithin_eq_ok_iff.mp parsed
    refine ⟨lexemes, fun other => ⟨reads.unique, fun same => same ▸ reads⟩, fun m => ⟨?_, ?_⟩⟩
    · intro low
      exact parseWithin_eq_ok_iff.mpr
        ⟨phrases, lexemes, trees, inRow, reads, made, within_iff_deepest.mpr low, rfl⟩
    · exact parseWithin_of_deep ((Balanced.all_row phrases).ended lexemes inRow).placed reads

end Bound

end BlockScript
