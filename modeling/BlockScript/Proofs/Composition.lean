import BlockScript.Proofs.Congruence
import BlockScript.Proofs.Reading.Graft
import BlockScript.Proofs.Reading.Levels
import BlockScript.Run.Interpreter

/-!
# Programs joined by a semicolon

Two programs with a `;` between them are one program: its statements are those of the first
followed by those of the second (`parse_joined`), as long as the first does not end in a `;`
already.  Reading the first one does not depend on what follows the `;`, and the levels that
its last statement leaves open end there.

Running the joined program is running the first and then, if that succeeded, the second
(`sequential_composition`).  Block literals are numbered in the order of the text, so each
of them has the same number either way, and the two ways leave the same store behind.
-/

set_option autoImplicit false

namespace BlockScript

/-! ## Reading -/

/-- Rows of statements that are joined by a `;` are a row of statements. -/
theorem mem_ended_append {row more : List Phrase} {lexemes lexemes' : List Lexeme}
    (first : lexemes ∈ rowLanguage row) (second : lexemes' ∈ Ended (rowLanguage more)) :
    lexemes ++ .semicolon :: lexemes' ∈ Ended (rowLanguage (row ++ more)) := by
  obtain ⟨a, inMore, b, last, rfl⟩ := second
  have whole := Language.append_mem_mul (mem_rowLanguage_append first inMore) last
  simpa [Ended] using whole

theorem nodes_append {row more : List Phrase} {trees trees' : List (Node Unit)}
    (first : nodes row = .ok trees) (second : nodes more = .ok trees') :
    nodes (row ++ more) = .ok (trees ++ trees') := by
  induction row generalizing trees with
  | nil =>
      cases first
      exact second
  | cons phrase rest ih =>
      simp only [nodes, bind_eq_ok_iff, pure_eq_ok_iff] at first
      obtain ⟨tree, made, further, madeRest, rfl⟩ := first
      simp only [List.cons_append, nodes, bind_eq_ok_iff, pure_eq_ok_iff]
      exact ⟨tree, made, _, ih madeRest, rfl⟩

/-- The last character of a text that is no white space. -/
def lastMark (text : List Char) : Option Char := (text.filter fun x => !isGap x).getLast?

theorem lastMark_of_semicolon {text : List Char} {lexemes : List Lexeme}
    (reads : ReadsAs text (lexemes ++ [.semicolon])) : lastMark text = some ';' := by
  obtain ⟨pos, spelled⟩ := reads
  obtain ⟨c, before, last⟩ := Cursor.spelled_append.mp spelled
  obtain ⟨-, gap, takes, -⟩ := Cursor.spelled_singleton.mp last
  obtain ⟨front, split, -⟩ := before.front
  generalize landed : (Cursor.start text).skipGap = c₀ at split
  obtain ⟨blank, split', -⟩ := Cursor.skipGap_eq_iff.mp landed
  have blank : gap.filter (fun x => !isGap x) = [] := by
    rw [List.filter_eq_nil_iff]
    intro x member
    simp [takes.blank x member]
  rw [lastMark, split', split, takes.rest]
  simp [Lexeme.spelling, blank, show isGap ';' = false by decide]

/-- A text is read before a `;` as it is read alone. -/
theorem ReadsAs.joined {text text' : List Char} {lexemes lexemes' : List Lexeme}
    (first : ReadsAs text lexemes) (second : ReadsAs text' lexemes') :
    ReadsAs (text ++ ';' :: text') (lexemes ++ .semicolon :: lexemes') := by
  obtain ⟨pos, spelled⟩ := first
  obtain ⟨pos', spelled'⟩ := second
  generalize landed : (Cursor.start text).skipGap = c at spelled
  generalize landed' : (Cursor.start text').skipGap = c' at spelled'
  obtain ⟨gap, split, atPos, blank, bare⟩ := Cursor.skipGap_eq_iff.mp landed
  obtain ⟨gap', split', atPos', blank', bare'⟩ := Cursor.skipGap_eq_iff.mp landed'
  have start : (Cursor.start (text ++ ';' :: text')).skipGap = ⟨c.rest ++ ';' :: text', c.pos⟩ := by
    refine Cursor.skipGap_eq_iff.mpr ⟨gap, by simp [split], atPos, blank, ?_⟩
    cases front : c.rest with
    | nil => rfl
    | cons x rest =>
        rw [front] at bare
        exact bare
  have breaks : Breaks ([] ++ ';' :: text') :=
    ⟨by simp [Stops]; decide, by simp [show isGap ';' = false by decide]⟩
  have before : Cursor.Spelled lexemes ⟨c.rest ++ ([] ++ ';' :: text'), c.pos⟩
      ⟨';' :: text', pos⟩ :=
    spelled.graft (by simp) breaks nofun rfl (fun _ => rfl)
  have semicolon : Cursor.Reads .semicolon ⟨';' :: text', pos⟩ ⟨c'.rest, c'.pos + (pos + 1)⟩ := by
    refine ⟨trivial, gap', ⟨by simp [split', Lexeme.spelling], ?_, blank', bare'⟩, rfl⟩
    simp [atPos', Lexeme.spelling]
    omega
  refine ⟨pos' + (pos + 1), ?_⟩
  rw [start]
  exact before.append ⟨_, semicolon, spelled'.shift (pos + 1)⟩

open Nesting

/-- **Two programs joined by a `;` are one program.** -/
theorem parse_joined {source source' : String} {trees trees' : List (Node Unit)}
    (first : parse source = .ok (.list trees)) (second : parse source' = .ok (.list trees'))
    (last : lastMark source.toList ≠ some ';') :
    parse (source ++ ";" ++ source') = .ok (.list (trees ++ trees')) := by
  obtain ⟨row, lexemes, _, member, reads, made, within, same⟩ := parseWithin_eq_ok_iff.mp first
  obtain ⟨row', lexemes', _, member', reads', made', within', same'⟩ :=
    parseWithin_eq_ok_iff.mp second
  cases same
  cases same'
  -- A row that ends in a `;` leaves it as the last mark of its text.
  have inRow : lexemes ∈ rowLanguage row := by
    obtain ⟨a, inRow, b, ended, rfl⟩ := member
    rcases ended with rfl | rfl
    · change a ++ [] ∈ _
      rwa [List.append_nil]
    · exact absurd (lastMark_of_semicolon reads) last
  refine parseWithin_eq_ok_iff.mpr ⟨row ++ row', lexemes ++ .semicolon :: lexemes', _,
    mem_ended_append inRow member', ?_, nodes_append made made', ?_, rfl⟩
  · have joined := reads.joined reads'
    simpa using joined
  · obtain ⟨k, landed⟩ := (Balanced.all_row row lexemes inRow).flat 0 0 []
    have ended : apply .ends (run (effectsOf lexemes) outside) = outside := by
      rw [outside, landed]
      simp [apply]
    rw [effectsOf_append, within_append]
    refine ⟨within, ?_⟩
    change _ ∧ _
    rw [ended]
    exact ⟨Nat.zero_le _, within'⟩

/-! ## Running -/

section Running

variable {limit : Nat}

/-- The evaluation of statements ends with a result, on some budget. -/
def AllEnd (limit : Nat) (statements : List (Node DefId)) (f : FrameId) (last : Value)
    (m : Machine) (r : Except EvalError Value) (m' : Machine) : Prop :=
  ∃ budget, evaluateAll limit budget statements f last m = some (r, m')

theorem allEnd_nil {f : FrameId} {last : Value} {m m' : Machine} {r : Except EvalError Value} :
    AllEnd limit [] f last m r m' ↔ r = .ok last ∧ m' = m := by
  constructor
  · rintro ⟨budget, gives⟩
    cases budget with
    | zero => cases gives
    | succ budget =>
        cases gives
        exact ⟨rfl, rfl⟩
  · rintro ⟨rfl, rfl⟩
    exact ⟨1, rfl⟩

theorem allEnd_cons {node : Node DefId} {rest : List (Node DefId)} {f : FrameId} {last : Value}
    {m m' : Machine} {r : Except EvalError Value} :
    AllEnd limit (node :: rest) f last m r m' ↔
      (∃ e, Ends limit node f m (.error e) m' ∧ r = .error e) ∨
        ∃ v m₁, Ends limit node f m (.ok v) m₁ ∧ AllEnd limit rest f v m₁ r m' := by
  constructor
  · rintro ⟨budget, gives⟩
    cases budget with
    | zero => cases gives
    | succ budget =>
        rcases Run.bind_eq_some_iff.mp gives with ⟨e, stopped, rfl⟩ | ⟨v, m₁, went, further⟩
        · exact .inl ⟨e, ⟨budget, stopped⟩, rfl⟩
        · exact .inr ⟨v, m₁, ⟨budget, went⟩, budget, further⟩
  · rintro (⟨e, ⟨budget, stopped⟩, rfl⟩ | ⟨v, m₁, ⟨budget, went⟩, budget', further⟩)
    · exact ⟨budget + 1, Run.bind_error stopped⟩
    · refine ⟨max budget budget' + 1, Run.bind_eq_some_iff.mpr (.inr ⟨v, m₁, ?_, ?_⟩)⟩
      · exact evaluate_budget (Nat.le_max_left ..) node f went
      · exact evaluateAll_budget (Nat.le_max_right ..) rest f v further

/-- Statements in a row: the first ones stop with an error, or the others go on from where
they ended. -/
theorem allEnd_append {first second : List (Node DefId)} {f : FrameId} {last : Value}
    {m m' : Machine} {r : Except EvalError Value} :
    AllEnd limit (first ++ second) f last m r m' ↔
      (∃ e, AllEnd limit first f last m (.error e) m' ∧ r = .error e) ∨
        ∃ v m₁, AllEnd limit first f last m (.ok v) m₁ ∧ AllEnd limit second f v m₁ r m' := by
  induction first generalizing last m with
  | nil =>
      simp only [List.nil_append, allEnd_nil]
      grind
  | cons node rest ih =>
      simp only [List.cons_append, allEnd_cons, ih]
      grind

/-- What the statements before have given does not matter, unless there are no others. -/
theorem allEnd_last {node : Node DefId} {rest : List (Node DefId)} {f : FrameId}
    (last last' : Value) {m m' : Machine} {r : Except EvalError Value} :
    AllEnd limit (node :: rest) f last m r m' ↔ AllEnd limit (node :: rest) f last' m r m' := by
  rw [allEnd_cons, allEnd_cons]

theorem ends_list {statements : List (Node DefId)} {f : FrameId} {m m' : Machine}
    {r : Except EvalError Value} :
    Ends limit (.list statements) f m r m' ↔ AllEnd limit statements f .nil m r m' := by
  constructor
  · rintro ⟨budget, gives⟩
    cases budget with
    | zero => cases gives
    | succ budget => exact ⟨budget, gives⟩
  · rintro ⟨budget, gives⟩
    exact ⟨budget + 1, gives⟩

end Running

namespace Node

/-- Block literals are numbered in the order of the statements. -/
theorem numberAll_append {δ : Type} (known : δ → Option DefId) (first second : List (Node δ))
    (next : Nat) :
    numberAll known (first ++ second) next =
      ((numberAll known first next).1 ++ (numberAll known second (numberAll known first next).2).1,
        (numberAll known second (numberAll known first next).2).2) := by
  induction first generalizing next with
  | nil => rfl
  | cons node rest ih => simp [numberAll, ih]

theorem numberAll_ne_nil {δ : Type} (known : δ → Option DefId) {statements : List (Node δ)}
    (nonempty : statements ≠ []) (next : Nat) : (numberAll known statements next).1 ≠ [] := by
  obtain ⟨first, further, rfl⟩ := List.exists_cons_of_ne_nil nonempty
  exact List.cons_ne_nil _ _

end Node

namespace Interpreter

/-- A run of a source ends with an outcome, on some budget. -/
def RunEnds (i : Interpreter) (source : String) (r : Except Failure Value) (j : Interpreter) :
    Prop :=
  ∃ budget, i.run budget source = some (r, j)

/-- A run of a source and then, only if it succeeded, of another one. -/
def RunEndsInOrder (i : Interpreter) (source source' : String) (r : Except Failure Value)
    (j : Interpreter) : Prop :=
  (∃ e, i.RunEnds source (.error e) j ∧ r = .error e) ∨
    ∃ v j₁, i.RunEnds source (.ok v) j₁ ∧ j₁.RunEnds source' r j

/-- What the run of a program comes to: its statements are evaluated in the root frame. -/
theorem runEnds_iff {i j : Interpreter} {source : String} {trees : List (Node Unit)}
    (parsed : parse source = .ok (.list trees)) {r : Except Failure Value} :
    i.RunEnds source r j ↔
      ∃ r' m, AllEnd i.limit (Node.numberAll (fun _ => none) trees i.nextDefinition).1 i.root .nil
          ⟨i.store, 0⟩ r' m ∧
        r = r'.mapError .evaluation ∧
        j = ⟨m.store, i.root, i.limit,
          (Node.numberAll (fun _ => none) trees i.nextDefinition).2⟩ := by
  have unfolded (budget : Nat) : i.run budget source = some (r, j) ↔
      ∃ r' m, evaluate i.limit budget
          (.list (Node.numberAll (fun _ => none) trees i.nextDefinition).1) i.root ⟨i.store, 0⟩ =
            some (r', m) ∧ r = r'.mapError .evaluation ∧
        j = ⟨m.store, i.root, i.limit,
          (Node.numberAll (fun _ => none) trees i.nextDefinition).2⟩ := by
    simp only [run, parsed, adopt, Node.number, evaluateTree, evaluateIn]
    cases evaluate i.limit budget
      (.list (Node.numberAll (fun _ => none) trees i.nextDefinition).1) i.root ⟨i.store, 0⟩ with
    | none => simp
    | some result =>
        obtain ⟨r', m⟩ := result
        simp [eq_comm]
  simp only [RunEnds, unfolded, ← ends_list, Ends]
  grind

end Interpreter

theorem active_of_allEnd {limit : Nat} {statements : List (Node DefId)} {f : FrameId}
    {m m' : Machine} {r : Except EvalError Value}
    (ends : AllEnd limit statements f .nil m r m') : m'.active = m.active := by
  obtain ⟨budget, gives⟩ := ends_list.mpr ends
  exact active_of_evaluate gives

/-- A program has a statement. -/
theorem exists_trees {limit : Nat} {source : String} {tree : Node Unit}
    (parsed : parseWithin limit source = .ok tree) : ∃ trees, tree = .list trees ∧ trees ≠ [] := by
  obtain ⟨row, lexemes, trees, member, _, made, _, rfl⟩ := parseWithin_eq_ok_iff.mp parsed
  refine ⟨trees, rfl, ?_⟩
  rintro rfl
  cases row with
  | nil =>
      obtain ⟨_, absent, _⟩ := member
      exact absent
  | cons phrase rest =>
      simp only [nodes, bind_eq_ok_iff, pure_eq_ok_iff] at made
      obtain ⟨_, _, _, _, made⟩ := made
      cases made

namespace Interpreter

variable {i j j' : Interpreter} {source : String} {r r' : Except Failure Value}

/-- A run of a program is an evaluation of its tree in the root frame. -/
theorem runEnds_iff_ends {tree : Node Unit} (parsed : parse source = .ok tree) :
    i.RunEnds source r j ↔
      ∃ outcome m, Ends i.limit (tree.number (fun _ => none) i.nextDefinition).1 i.root ⟨i.store, 0⟩
          outcome m ∧
        r = outcome.mapError .evaluation ∧
        j = ⟨m.store, i.root, i.limit, (tree.number (fun _ => none) i.nextDefinition).2⟩ := by
  obtain ⟨trees, rfl, -⟩ := exists_trees parsed
  simp only [runEnds_iff parsed, ← ends_list, Node.number]

/-- A run of what is not a program does nothing. -/
theorem runEnds_iff_of_error {e : SourceError} (failed : parse source = .error e) :
    i.RunEnds source r j ↔ r = .error (.source e) ∧ j = i := by
  simp only [RunEnds, run, failed, Option.some.injEq, Prod.mk.injEq, exists_const]
  exact and_congr eq_comm eq_comm

/-- A run ends in one way only. -/
theorem RunEnds.unique (first : i.RunEnds source r j) (second : i.RunEnds source r' j') :
    r = r' ∧ j = j' := by
  cases parsed : parse source with
  | error e =>
      obtain ⟨rfl, rfl⟩ := (runEnds_iff_of_error parsed).mp first
      obtain ⟨rfl, rfl⟩ := (runEnds_iff_of_error parsed).mp second
      exact ⟨rfl, rfl⟩
  | ok tree =>
      obtain ⟨outcome, m, ends, rfl, rfl⟩ := (runEnds_iff_ends parsed).mp first
      obtain ⟨outcome', m', ends', rfl, rfl⟩ := (runEnds_iff_ends parsed).mp second
      obtain ⟨rfl, rfl⟩ := ends.unique ends'
      exact ⟨rfl, rfl⟩

end Interpreter

/-- Statements behind others end as they do when they are run on their own. -/
theorem allEnd_afresh {limit : Nat} {before statements : List (Node DefId)} {f : FrameId}
    {store : Store} {v : Value} {m₁ m : Machine} {r : Except EvalError Value}
    (went : AllEnd limit before f .nil ⟨store, 0⟩ (.ok v) m₁) (nonempty : statements ≠ []) :
    AllEnd limit statements f v m₁ r m ↔ AllEnd limit statements f .nil ⟨m₁.store, 0⟩ r m := by
  obtain ⟨node, rest, rfl⟩ := List.exists_cons_of_ne_nil nonempty
  have idle : m₁ = ⟨m₁.store, 0⟩ := by
    rw [Machine.mk.injEq]
    exact ⟨rfl, active_of_allEnd went⟩
  rw [allEnd_last v .nil, ← idle]

/-- **Sequential composition.**  Two programs that are joined by a `;` are the program with the
statements of both, unless the first one ends in a `;` itself.  In every interpreter its run
comes to what running the first and then, only if that succeeded, the second comes to: the
same value or error, and the same store, hence the same printed bindings of the root. -/
theorem sequential_composition {source source' : String} {tree tree' : Node Unit}
    (first : parse source = .ok tree) (second : parse source' = .ok tree')
    (last : lastMark source.toList ≠ some ';') :
    (∃ trees trees', tree = .list trees ∧ tree' = .list trees' ∧
      parse (source ++ ";" ++ source') = .ok (.list (trees ++ trees'))) ∧
    ∀ (i : Interpreter) (r : Except Failure Value),
      (∀ j, i.RunEnds (source ++ ";" ++ source') r j →
        ∃ j', i.RunEndsInOrder source source' r j' ∧ j'.store = j.store ∧
          j'.bindings = j.bindings) ∧
      ∀ j', i.RunEndsInOrder source source' r j' →
        ∃ j, i.RunEnds (source ++ ";" ++ source') r j ∧ j.store = j'.store ∧
          j.bindings = j'.bindings := by
  obtain ⟨trees, rfl, -⟩ := exists_trees first
  obtain ⟨trees', rfl, nonempty⟩ := exists_trees second
  have joined := parse_joined first second last
  refine ⟨⟨trees, trees', rfl, rfl, joined⟩, fun i r => ?_⟩
  have numbered := Node.numberAll_ne_nil (fun _ => none) nonempty
    (Node.numberAll (fun _ => none) trees i.nextDefinition).2
  simp only [Interpreter.RunEndsInOrder, Interpreter.runEnds_iff joined,
    Interpreter.runEnds_iff first, Interpreter.runEnds_iff second, Node.numberAll_append,
    allEnd_append]
  constructor
  · rintro j ⟨r', m, ⟨e, stopped, rfl⟩ | ⟨v, m₁, went, further⟩, rfl, rfl⟩
    · exact ⟨_, .inl ⟨.evaluation e, ⟨_, m, stopped, rfl, rfl⟩, rfl⟩, rfl, rfl⟩
    · exact ⟨_, .inr ⟨v, _, ⟨_, m₁, went, rfl, rfl⟩, r', m,
        (allEnd_afresh went numbered).mp further, rfl, rfl⟩, rfl, rfl⟩
  · rintro j' (⟨e, ⟨r', m, stopped, failed, rfl⟩, rfl⟩ |
      ⟨v, _, ⟨r₁, m₁, went, ok, rfl⟩, r', m, further, rfl, rfl⟩)
    · cases r' with
      | ok v => cases failed
      | error e' => exact ⟨_, ⟨_, m, .inl ⟨e', stopped, rfl⟩, failed, rfl⟩, rfl, rfl⟩
    · cases r₁ with
      | error e => cases ok
      | ok v₁ =>
          exact ⟨_, ⟨r', m, .inr ⟨v₁, m₁, went, (allEnd_afresh went numbered).mpr further⟩,
            rfl, rfl⟩, rfl, rfl⟩

theorem sequential_composition_blockCall : ∃ tree tree',
    parse "f = {|k| not k} " = .ok tree ∧ parse "f(2); f;" = .ok tree' ∧
    lastMark "f = {|k| not k} ".toList ≠ some ';' ∧
    (∃ trees trees', tree = .list trees ∧ tree' = .list trees' ∧
      parse ("f = {|k| not k} " ++ ";" ++ "f(2); f;") = .ok (.list (trees ++ trees'))) ∧
    ∀ r j', (Interpreter.fresh 1).RunEndsInOrder "f = {|k| not k} " "f(2); f;" r j' →
      ∃ j, (Interpreter.fresh 1).RunEnds ("f = {|k| not k} " ++ ";" ++ "f(2); f;") r j ∧
        j.bindings = j'.bindings := by
  obtain ⟨tree, first⟩ : ∃ tree, parse "f = {|k| not k} " = .ok tree :=
    exists_of_isOk (by decide +kernel)
  obtain ⟨tree', second⟩ : ∃ tree', parse "f(2); f;" = .ok tree' :=
    exists_of_isOk (by decide +kernel)
  have last : lastMark "f = {|k| not k} ".toList ≠ some ';' := by decide +kernel
  obtain ⟨joined, runs⟩ := sequential_composition first second last
  refine ⟨tree, tree', first, second, last, joined, fun r j' ends => ?_⟩
  obtain ⟨j, ends', _, same⟩ := (runs (Interpreter.fresh 1) r).2 j' ends
  exact ⟨j, ends', same⟩

end BlockScript
