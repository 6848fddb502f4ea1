import BlockScript.Proofs.Reading.Refusals
import BlockScript.Proofs.Tokens.Cut

/-!
# A syntax error blames nothing after the first mistake

A text that is refused for what stands somewhere is refused at the farthest place at which a
form was looked for in vain.  The text up to that place is the front of a program: it can be
continued so that nothing is wrong with it any more but, perhaps, an integer that is too
large or the header of a loop (`unexpected_blames_no_later_mistake`).  The report names what
stands at that place, which is never white space, and at least one form that was looked for.

Positions are counted in bytes.  Nothing but ASCII text is ever read, so up to the blamed
place bytes and characters agree.
-/

set_option autoImplicit false

namespace BlockScript

open Nesting

/-! ## Faults of nodes -/

/-- The faults that are found when a text has been read. -/
def Fault.ofNodes : Fault → Bool
  | .number _ | .loopHeader _ => true
  | _ => false

/-- An outcome whose only faults are those of nodes. -/
def FaultOfNodes {α : Type} (outcome : Except SourceError α) : Prop :=
  ∀ e, outcome = .error e → e.fault.ofNodes = true

namespace FaultOfNodes

variable {α β : Type}

theorem ok (a : α) : FaultOfNodes (.ok a) := nofun

theorem bind {x : Except SourceError α} {f : α → Except SourceError β} (first : FaultOfNodes x)
    (second : ∀ a, FaultOfNodes (f a)) : FaultOfNodes (x >>= f) := by
  intro e failed
  cases x with
  | error e' =>
      cases failed
      exact first _ rfl
  | ok a => exact second a e failed

theorem loopNode {body : Except SourceError (List (Node Unit))} (inner : FaultOfNodes body)
    (header : List (Node Unit)) (place : Span) :
    FaultOfNodes (BlockScript.loopNode header place body) := by
  unfold BlockScript.loopNode
  split
  · exact inner.bind fun _ => .ok _
  · intro e failed
    cases failed
    rfl

theorem integerNode (digits : List Char) (place : Span) :
    FaultOfNodes (BlockScript.integerNode digits place) := by
  unfold BlockScript.integerNode
  intro e failed
  dsimp only at failed
  split at failed
  · cases failed
  · cases failed
    rfl

mutual
theorem phrase : ∀ p : Phrase, FaultOfNodes p.node
  | .branch test yes => (row test).bind fun _ => (row yes).bind fun _ => .ok _
  | .branchElse test yes no =>
      (row no).bind fun _ => (row test).bind fun _ => (row yes).bind fun _ => .ok _
  | .loop header place body => (row header).bind fun nodes => (row body).loopNode nodes place
  | .expression s => (series s).bind fun _ => .ok _

theorem row : ∀ phrases : List Phrase, FaultOfNodes (nodes phrases)
  | [] => .ok _
  | p :: rest => (phrase p).bind fun _ => (row rest).bind fun _ => .ok _

theorem series : ∀ s : Series Operand, FaultOfNodes (seriesNodes s)
  | .last _ o => (operand o).bind fun _ => .ok _
  | .link _ o _ rest => (operand o).bind fun _ => (series rest).bind fun _ => .ok _

theorem operand : ∀ o : Operand, FaultOfNodes o.node
  | .block _ body => (row body).bind fun _ => .ok _
  | .call _ arguments => (row arguments).bind fun _ => .ok _
  | .assign _ value => (series value).bind fun _ => .ok _
  | .bool _ | .float _ _ | .var _ => .ok _
  | .int digits place => integerNode digits place
  | .group s => (series s).bind fun _ => .ok _
end

end FaultOfNodes

/-- A text that is a program within the limit, as far as it goes without nodes, can only be
refused for its nodes. -/
theorem faultOfNodes_of_readsAs {limit : Nat} {source : String} {phrases : List Phrase}
    {lexemes : List Lexeme} (member : lexemes ∈ Ended (rowLanguage phrases))
    (reads : ReadsAs source.toList lexemes) (within : Within limit (effectsOf lexemes) outside) :
    FaultOfNodes (parseWithin limit source) := by
  have placed := ((Balanced.all_row phrases).ended lexemes member).placed
  rw [← effects_of_readsAs placed reads] at within
  obtain ⟨phrases', read, -⟩ := exists_readPhrases member reads
  have opened : parseWithin limit source = do return .list (← nodes phrases') := by
    simp only [parseWithin, readText, check_eq.1 within, read]
    rfl
  rw [opened]
  exact (FaultOfNodes.row phrases').bind fun _ => .ok _

/-- A text that is refused for what stands somewhere respects the limit, but is not read. -/
theorem readPhrases_of_unexpected {limit : Nat} {source expected found : String} {span : Span}
    (refused : parseWithin limit source = .error ⟨.unexpected expected found, span⟩) :
    Within limit (effects none source.toList) outside ∧
      ∃ t, readPhrases source.toList = .error t ∧ span = ⟨t.farthest, t.farthest⟩ ∧
        expected = Form.describe t.expected ∧
        found = describeAt source.toList t.farthest := by
  unfold parseWithin at refused
  by_cases within : Within limit (effects none source.toList) outside
  · simp only [check_eq.1 within] at refused
    refine ⟨within, ?_⟩
    cases read : readPhrases source.toList with
    | error t =>
        simp only [readText, read] at refused
        cases refused
        exact ⟨t, rfl, rfl, rfl, rfl⟩
    | ok phrases =>
        simp only [readText, read] at refused
        have fault := (FaultOfNodes.row phrases).bind (fun trees => .ok (Node.list trees)) _ refused
        cases fault
  · obtain ⟨place, deep⟩ := check_eq.2 within
    simp only [deep] at refused
    cases refused

/-! ## What is reported -/

/-- The text behind a front, so many bytes behind the start. -/
theorem textFrom_byteLength (front rest : List Char) :
    textFrom (byteLength front) (front ++ rest) = some rest := by
  induction front with
  | nil => cases rest <;> rfl
  | cons x front ih =>
      have positive := Char.utf8Size_pos x
      rw [List.cons_append, byteLength_cons, textFrom, if_neg (by omega), if_neg (by omega),
        Nat.add_sub_cancel_left, ih]

theorem textFrom_append {front rest : List Char} (ascii : ∀ x ∈ front, x.val ≤ 127) :
    textFrom front.length (front ++ rest) = some rest := by
  rw [← byteLength_of_ascii ascii, textFrom_byteLength]

theorem utf8ByteSize_ofList {front : List Char} (ascii : ∀ x ∈ front, x.val ≤ 127) :
    (String.ofList front).utf8ByteSize = front.length := by
  rw [utf8ByteSize_eq_byteLength, byteLength_of_ascii ascii]

namespace Form

theorem mem_all (form : Form) : form ∈ all := by
  cases form with
  | operator op =>
      cases op with
      | arith op | compare op => cases op <;> decide
      | and | or => decide
  | _ => decide

/-- No word for a form ends like the words for no form at all. -/
theorem getLast?_concept (form : Form) :
    ∃ x, form.concept.toList.getLast? = some x ∧ x ≠ 'e' := by
  cases form with
  | integer | float | boolean => exact ⟨'l', rfl, by decide⟩
  | name | reference => exact ⟨'r', rfl, by decide⟩
  | operator op =>
      have ends : "operator".toList.getLast? = some 'r' := rfl
      exact ⟨'r', ends, by decide⟩
  | endOfInput => exact ⟨'t', rfl, by decide⟩
  | _ => exact ⟨'n', rfl, by decide⟩

theorem mem_concepts_iff {forms : List Form} {word : String} :
    word ∈ concepts forms ↔ ∃ form ∈ forms, word = form.concept := by
  have kept (found : List String) : word ∈ forms.foldl (fun found form =>
      if found.contains form.concept then found else found ++ [form.concept]) found ↔
      word ∈ found ∨ ∃ form ∈ forms, word = form.concept := by
    induction forms generalizing found with
    | nil => simp
    | cons form rest ih =>
        rw [List.foldl_cons, ih]
        split
        · rename_i listed
          rw [List.contains_iff_mem] at listed
          simp only [List.mem_cons, exists_eq_or_imp]
          constructor
          · rintro (member | further)
            · exact .inl member
            · exact .inr (.inr further)
          · rintro (member | rfl | further)
            · exact .inl member
            · exact .inl listed
            · exact .inr further
        · simp [or_assoc]
  rw [concepts, kept]
  simp

/-- Forms are never described as `something else`. -/
theorem describe_ne {forms : List Form} (nonempty : forms ≠ []) :
    describe forms ≠ "something else" := by
  have word {w : String} {words : List String} (reversed : (concepts forms).reverse = w :: words) :
      ∃ x, w.toList.getLast? = .some x ∧ x ≠ 'e' := by
    have listed : w ∈ concepts forms := List.mem_reverse.mp (by rw [reversed]; simp)
    obtain ⟨form, -, rfl⟩ := mem_concepts_iff.mp listed
    exact getLast?_concept form
  intro same
  have last : (describe forms).toList.getLast? = .some 'e' := by
    rw [same]
    rfl
  unfold describe at last
  split at last
  · rename_i empty
    obtain ⟨form, rest, rfl⟩ := List.exists_cons_of_ne_nil nonempty
    have listed : form.concept ∈ concepts (form :: rest) :=
      mem_concepts_iff.mpr ⟨form, by simp, rfl⟩
    simp [List.reverse_eq_nil_iff.mp empty] at listed
  · rename_i only reversed
    obtain ⟨x, ends, other⟩ := word reversed
    rw [ends] at last
    cases last
    exact other rfl
  · rename_i reversed
    obtain ⟨x, ends, other⟩ := word reversed
    rw [String.toList_append, List.getLast?_append, ends] at last
    cases last
    exact other rfl

end Form

theorem Tracker.expected_ne_nil {t : Tracker} (nonempty : t.forms ≠ #[]) : t.expected ≠ [] := by
  obtain ⟨form, member⟩ := Array.exists_mem_of_ne_empty _ nonempty
  have listed : form ∈ t.expected :=
    List.mem_filter.mpr ⟨Form.mem_all form, by simpa using member⟩
  intro empty
  rw [empty] at listed
  cases listed

theorem describeAt_append {front : List Char} (ascii : ∀ x ∈ front, x.val ≤ 127)
    (rest : List Char) :
    (∀ x ∈ rest.head?, describeAt (front ++ rest) front.length = s!"'{x}'") ∧
      (describeAt (front ++ rest) front.length = "end of input" ↔ rest = []) := by
  rw [describeAt, textFrom_append ascii]
  cases rest with
  | nil => exact ⟨nofun, by simp⟩
  | cons x rest =>
      refine ⟨by simp, ?_⟩
      simp only [reduceCtorEq, iff_false]
      change "'" ++ x.toString ++ "'" ≠ "end of input"
      intro same
      have heads := congrArg (fun s : String => s.toList.head?) same
      simp at heads

/-- **A syntax error blames nothing after the first mistake.**  The text up to the blamed place
can be continued so that it is refused neither there nor for its depth; no white space
stands at that place; and the report says what stands there and what was expected. -/
theorem unexpected_blames_no_later_mistake (source expected found : String) (span : Span)
    (refused : parse source = .error ⟨.unexpected expected found, span⟩) :
    ∃ front rest : String, source = front ++ rest ∧
      span = ⟨front.utf8ByteSize, front.utf8ByteSize⟩ ∧ span.start ≤ source.utf8ByteSize ∧
      (∃ more : String, ∀ e, parse (front ++ more) = .error e →
        (∀ expected found, e.fault ≠ .unexpected expected found) ∧
          ∀ depth limit, e.fault ≠ .nesting depth limit) ∧
      (∀ x ∈ rest.toList.head?, x ∉ [' ', '\t', '\r', '\n'] ∧ found = s!"'{x}'") ∧
      (found = "end of input" ↔ span.start = source.utf8ByteSize) ∧
      expected ≠ "something else" := by
  obtain ⟨within, t, read, rfl, rfl, rfl⟩ := readPhrases_of_unexpected refused
  obtain ⟨nonempty, c, viable, atPlace⟩ := Scanner.viable_of_refused read
  obtain ⟨front, split, pos, ascii⟩ := viable.place
  obtain ⟨more, phrases, lexemes, member, reads, within'⟩ :=
    viable.continues split (by decide) within
  have size : (String.ofList front).utf8ByteSize = t.farthest := by
    rw [utf8ByteSize_ofList ascii, ← pos, atPlace]
  have whole : source = String.ofList front ++ String.ofList c.rest := by
    rw [← String.ofList_append, ← split, String.ofList_toList]
  have total : source.utf8ByteSize = t.farthest + (String.ofList c.rest).utf8ByteSize := by
    rw [whole, String.utf8ByteSize_append, size]
  have described := describeAt_append ascii c.rest
  rw [← split, ← pos, atPlace] at described
  refine ⟨String.ofList front, String.ofList c.rest, whole, by rw [size], ?_, ?_, ?_, ?_, ?_⟩
  · simp only
    omega
  · refine ⟨String.ofList more, fun e failed => ?_⟩
    have continued : (String.ofList front ++ String.ofList more).toList = front ++ more := by simp
    have fault := faultOfNodes_of_readsAs member (by rwa [continued]) within' e failed
    constructor
    · intro expected found same
      rw [same] at fault
      cases fault
    · intro depth limit same
      rw [same] at fault
      cases fault
  · intro x head
    rw [String.toList_ofList] at head
    refine ⟨?_, described.1 x head⟩
    have bare := viable.bare
    rw [Bare, head] at bare
    simpa [isGap, and_assoc] using bare
  · have nothing : c.rest = [] ↔ (String.ofList c.rest).utf8ByteSize = 0 := by simp
    rw [described.2, nothing]
    simp only
    omega
  · exact Form.describe_ne (Tracker.expected_ne_nil nonempty)

/-- An operand is missing behind the `+` in an argument. -/
theorem unexpected_blames_no_later_mistake_missingOperand :
    parse "f(x == 1; y = 2 + )" =
        .error ⟨.unexpected "expression, literal or identifier" "')'", ⟨18, 18⟩⟩ ∧
      ∃ front rest : String, "f(x == 1; y = 2 + )" = front ++ rest ∧
        (⟨18, 18⟩ : Span) = ⟨front.utf8ByteSize, front.utf8ByteSize⟩ ∧
        18 ≤ "f(x == 1; y = 2 + )".utf8ByteSize ∧
        (∃ more : String, ∀ e, parse (front ++ more) = .error e →
          (∀ expected found, e.fault ≠ .unexpected expected found) ∧
            ∀ depth limit, e.fault ≠ .nesting depth limit) ∧
        (∀ x ∈ rest.toList.head?, x ∉ [' ', '\t', '\r', '\n'] ∧ "')'" = s!"'{x}'") ∧
        ("')'" = "end of input" ↔ 18 = "f(x == 1; y = 2 + )".utf8ByteSize) ∧
        "expression, literal or identifier" ≠ "something else" := by
  have refused : parse "f(x == 1; y = 2 + )" =
      .error ⟨.unexpected "expression, literal or identifier" "')'", ⟨18, 18⟩⟩ := by
    have outcome : (match parse "f(x == 1; y = 2 + )" with
        | .ok _ => false
        | .error e => decide (e =
            ⟨.unexpected "expression, literal or identifier" "')'", ⟨18, 18⟩⟩)) = true := by
      decide +kernel
    split at outcome
    · cases outcome
    · rename_i e failed
      rw [failed, of_decide_eq_true outcome]
  exact ⟨refused, unexpected_blames_no_later_mistake _ _ _ _ refused⟩

end BlockScript
