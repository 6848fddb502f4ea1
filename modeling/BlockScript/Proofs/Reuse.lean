import BlockScript.Proofs.FrameGraph
import BlockScript.Proofs.Lockstep

/-!
# Running a tree again

A tree that has run before finds the captures of its block literals still in the store.  They do
not matter to an evaluation in a new root frame.

The evaluation is compared with one and the same evaluation in a store of its own: the tree
numbered from zero, in the only frame of an otherwise empty store.  The larger evaluation is its
image under a renaming that moves labels and frames up (`Renaming.shift`).  Below lies whatever
was there before, frames and captures alike.  No frame that the evaluation made leads down there,
and a block that it can find has a literal that has captured since the evaluation began, because
in the small store there is no other way to come by a block.  So an old capture is never asked for
(`Lockstep.above`).
-/

set_option autoImplicit false

namespace BlockScript

/-! ## Moving up -/

/-- The renaming that keeps names and moves labels and frames up. -/
def Renaming.shift (labels frames : Nat) : Renaming where
  name := id
  label id := ⟨id.index + labels⟩
  offset := frames
  name_injective := Function.injective_id
  label_injective := by
    rintro ⟨a⟩ ⟨b⟩ same
    cases Nat.add_right_cancel (DefId.mk.inj same)
    rfl
  self := rfl

mutual
/-- Numbering from a larger number moves the labels up. -/
theorem Node.number_add {δ : Type} (labels frames : Nat) : ∀ (node : Node δ) (next : Nat),
    node.number (fun _ => none) (next + labels) =
      ((node.number (fun _ => none) next).1.rename (.shift labels frames),
        (node.number (fun _ => none) next).2 + labels)
  | .list statements, next => by
      simp only [number, rename, numberAll_add labels frames statements]
  | .loop start test step body, next => by
      simp only [number, rename, number_add labels frames start, number_add labels frames test,
        number_add labels frames step, numberAll_add labels frames body]
  | .branch test yes, next => by
      simp only [number, rename, number_add labels frames test, numberAll_add labels frames yes]
  | .branchElse test yes no, next => by
      simp only [number, rename, number_add labels frames test, numberAll_add labels frames yes,
        numberAll_add labels frames no]
  | .block _ parameters body, next => by
      have inside := numberAll_add labels frames body (next + 1)
      rw [Nat.add_right_comm] at inside
      simp only [number, rename, inside, Renaming.shift, List.map_id]
  | .call _ arguments, next => by
      simp only [number, rename, numberAll_add labels frames arguments]
      rfl
  | .assign _ value, next => by
      simp only [number, rename, number_add labels frames value]
      rfl
  | .var _, _ => rfl
  | .logic _ left right, next => by
      simp only [number, rename, number_add labels frames left, number_add labels frames right]
  | .compare _ left right, next => by
      simp only [number, rename, number_add labels frames left, number_add labels frames right]
  | .arith _ left right, next => by
      simp only [number, rename, number_add labels frames left, number_add labels frames right]
  | .int _, _ => rfl
  | .float _, _ => rfl
  | .bool _, _ => rfl

theorem Node.numberAll_add {δ : Type} (labels frames : Nat) :
    ∀ (nodes : List (Node δ)) (next : Nat), numberAll (fun _ => none) nodes (next + labels) =
      (renameAll (.shift labels frames) (numberAll (fun _ => none) nodes next).1,
        (numberAll (fun _ => none) nodes next).2 + labels)
  | [], _ => rfl
  | node :: rest, next => by
      simp only [numberAll, renameAll, number_add labels frames node,
        numberAll_add labels frames rest]
end

/-! ## Above an old store -/

/-- What the first store has captured, the second has captured too, and perhaps more. -/
def Renaming.Overlays (R : Renaming) : Recalls := fun c c' =>
  ∀ id f, c.get? id = some f → c'.get? (R.label id) = some (R.frame f)

/-- Parents are older than their children, and every block that stands in a frame has a literal
that has captured. -/
structure Store.SelfContained (s : Store) : Prop where
  forest : s.Forest
  captured : ∀ f name d g, s.own? f name = some (.block d g) → ∃ h, s.captured? d.id = some h

/-- **An old capture is never asked for.** -/
theorem Lockstep.above (R : Renaming) : Lockstep R R.Overlays Store.SelfContained where
  unbounded kept := .inr kept.forest
  insert {c c'} overlays id f := by
    intro other g
    rw [Assoc.get?_insert, Assoc.get?_insert]
    by_cases here : other = id
    · simp only [here, if_true]
      rintro ⟨⟩
      rfl
    · simp only [here, R.label_injective.ne here, if_false]
      exact overlays other g
  callFrame {s t} kept overlays {f own name d} callee := by
    -- A block that is found stands in a frame, so its literal has captured.
    rcases (Store.finds_lookup kept.forest f name).stored with nothing | ⟨g, bound⟩
    · rw [callee] at nothing
      cases nothing
    · rw [callee] at bound
      obtain ⟨h, captured⟩ := kept.captured g name d own bound
      have captured' : t.captured? (R.label d.id) = some (R.frame h) := overlays d.id h captured
      rw [Store.callFrame, Store.callFrame, Definition.rename, captured, captured']
      rfl

/-- A new root frame of any store is the image of a root frame in an empty one. -/
theorem Store.image_root (labels : Nat) (s : Store) :
    (empty.newFrame none).2.Image (.shift labels s.frames.size)
      (Renaming.shift labels s.frames.size).Overlays (s.newFrame none).2 := by
  have below : empty.Mirrors (.shift labels s.frames.size) s := by
    refine ⟨(Nat.zero_add _).symm, fun f => ?_⟩
    have missing : ¬ s.Has ((Renaming.shift labels s.frames.size).frame f) :=
      Nat.not_lt.mpr (Nat.le_add_left _ _)
    rw [frame_of_not_has missing, frame_of_not_has (s := empty) (Nat.not_lt_zero _)]
    rfl
  exact ⟨below.newFrame none, fun _ _ captured => by cases captured⟩

/-- Every state of an evaluation in the root frame of an otherwise empty store is
self-contained. -/
theorem Steps.selfContained {δ : Type} {tree : Node δ} {limit : Nat} {c : Config}
    (run : Steps limit ⟨.node (tree.number (fun _ => none) 0).1 Store.empty.next, [],
      ⟨(Store.empty.newFrame none).2, 0⟩⟩ c) : c.store.SelfContained := by
  obtain ⟨table, labelled, literals, _⟩ := tree.fresh_number 0
  have start : Config.Fits (Literal table) ⟨insert ⟨0⟩ ∅, ∅, (Store.empty.newFrame none).2⟩
      ⟨.node (tree.number (fun _ => none) 0).1 Store.empty.next, [],
        ⟨(Store.empty.newFrame none).2, 0⟩⟩ :=
    ⟨rfl, ⟨literals, .inl rfl⟩, fun _ pending => by cases pending⟩
  obtain ⟨w, sound, fits⟩ := start.steps (fun _ _ sound change => Sound.change sound change)
    (fun _ sound => sound.bodies labelled) (Sound.root.mono (Set.empty_subset table)) run
  rw [fits.store]
  exact ⟨sound.forest, fun f name d g bound => (sound.stored f name d g bound).captured⟩

/-! ## What an evaluation shows -/

/-- Evaluating a tree in a new root frame of a store ends, and what it shows is the printed value
or the error, and the printed bindings of the root frame. -/
def Shows (limit : Nat) (node : Node DefId) (s : Store) (printed : Except EvalError String)
    (bindings : List (String × String)) : Prop :=
  ∃ outcome m, Ends limit node (s.newFrame none).1 ⟨(s.newFrame none).2, 0⟩ outcome m ∧
    printed = outcome.map Value.text ∧ bindings = m.store.printedBindings (s.newFrame none).1

section Shift

variable {labels frames : Nat}

theorem Value.text_shift (v : Value) : (v.rename (.shift labels frames)).text = v.text := by
  cases v with
  | block d f =>
      simp only [rename, text, Definition.text, Definition.rename, Renaming.shift, List.map_id]
  | int | float | bool | nil | signal => rfl

theorem map_text_shift (outcome : Except EvalError Value) :
    (renameOutcome (.shift labels frames) outcome).map Value.text = outcome.map Value.text := by
  cases outcome with
  | ok v => exact congrArg Except.ok v.text_shift
  | error e => cases e <;> rfl

theorem Store.Mirrors.printedBindings {s t : Store} (mirrors : s.Mirrors (.shift labels frames) t)
    (f : FrameId) :
    t.printedBindings ((Renaming.shift labels frames).frame f) = s.printedBindings f := by
  simp only [Store.printedBindings, mirrors.frame, Frame.rename, Assoc.rename, List.map_map]
  congr 1
  exact List.map_congr_left fun entry _ => Prod.ext rfl entry.2.text_shift

end Shift

/-- **An evaluation in a new root frame shows the same as if nothing had been there before.** -/
theorem shows_iff_alone {δ : Type} {limit : Nat} (tree : Node δ) (next : Nat) (s : Store)
    (printed : Except EvalError String) (bindings : List (String × String)) :
    Shows limit (tree.number (fun _ => none) next).1 s printed bindings ↔
      Shows limit (tree.number (fun _ => none) 0).1 .empty printed bindings := by
  have moved : (tree.number (fun _ => none) next).1 =
      (tree.number (fun _ => none) 0).1.rename (.shift next s.frames.size) := by
    have numbered := tree.number_add next s.frames.size 0
    rw [Nat.zero_add] at numbered
    rw [numbered]
  have root : s.next = (Renaming.shift next s.frames.size).frame Store.empty.next :=
    FrameId.eq_iff_index.mpr (Nat.zero_add _).symm
  have image := s.image_root next
  have lockstep := Lockstep.above (Renaming.shift next s.frames.size)
  simp only [Shows, Store.newFrame, Store.add_fst] at image ⊢
  rw [moved, root]
  constructor
  · rintro ⟨outcome', m', ends', rfl, rfl⟩
    obtain ⟨outcome, m, ends, rfl, _, image⟩ :=
      lockstep.ends_of_image (fun _ run => Steps.selfContained run) image ends'
    exact ⟨outcome, m, ends, map_text_shift outcome, image.mirrors.printedBindings _⟩
  · rintro ⟨outcome, m, ends, rfl, rfl⟩
    obtain ⟨t, image, ends'⟩ := lockstep.ends (fun _ run => Steps.selfContained run) image ends
    exact ⟨_, _, ends', (map_text_shift outcome).symm, (image.mirrors.printedBindings _).symm⟩

/-! ## Captures do not leak -/

/-- What may have happened to a store before: frames were made, names were bound in them, and the
tree was evaluated in any frame under any limit, to a value or to an error. -/
inductive Earlier (node : Node DefId) : Store → Store → Prop where
  | nothing (s : Store) : Earlier node s s
  | frame {s t : Store} (before : Earlier node s t) (parent : Option FrameId) :
      Earlier node s (t.newFrame parent).2
  | bind {s t : Store} (before : Earlier node s t) (f : FrameId) (name : String) (v : Value) :
      Earlier node s (t.bind f name v)
  | evaluation {s t : Store} (before : Earlier node s t) {limit : Nat} {f : FrameId}
      {outcome : Except EvalError Value} {m : Machine}
      (ends : Ends limit node f ⟨t, 0⟩ outcome m) : Earlier node s m.store

/-- **A tree shows the same wherever it is read and whatever store it runs in.**  The store need
not be one that the tree has run in before, nor one that any run can lead to. -/
theorem shows_iff_readAnew (tree : Node Unit) (i j : Interpreter) (limit : Nat) (s t : Store)
    (printed : Except EvalError String) (bindings : List (String × String)) :
    Shows limit (i.adopt (fun _ => none) tree).1 s printed bindings ↔
      Shows limit (j.adopt (fun _ => none) tree).1 t printed bindings :=
  (shows_iff_alone tree i.nextDefinition s printed bindings).trans
    (shows_iff_alone tree j.nextDefinition t printed bindings).symm

/-- **Captures do not leak from one evaluation to the next.**  A tree is read, and after any number
of evaluations of it, in any frames and under any limits, it is evaluated once more in a new root
frame.  This ends and shows the same printed value or error and the same printed bindings as a
copy of the tree that is read anew, by the same interpreter or by any other, and evaluated in a
new root frame there.  What happened before is of no account: the same holds of every store
(`shows_iff_readAnew`), and so of those that a history leaves behind. -/
theorem captures_do_not_leak (tree : Node Unit) (i j : Interpreter) (limit : Nat) {s : Store}
    (_ : Earlier (i.adopt (fun _ => none) tree).1 i.store s)
    (printed : Except EvalError String) (bindings : List (String × String)) :
    Shows limit (i.adopt (fun _ => none) tree).1 s printed bindings ↔
      Shows limit (j.adopt (fun _ => none) tree).1 j.store printed bindings :=
  shows_iff_readAnew tree i j limit s j.store printed bindings

/-- A block that adds `k` is made and called where `k` is bound, and then in a new root frame, where
it is not.  The value of `k` is forgotten. -/
theorem captures_do_not_leak_adder :
    ∃ (tree : Node Unit) (i : Interpreter) (m : Machine),
      tree = .list [.assign "f" (.block () ["x"] [.arith .add (.var "x") (.var "k")]),
        .call "f" [.int 2]] ∧
      i = (Interpreter.fresh 5).bind ⟨0⟩ "k" (.int 40) ∧
      Ends 5 (i.adopt (fun _ => none) tree).1 ⟨0⟩ ⟨i.store, 0⟩ (.ok (.int 42)) m ∧
      Shows 5 (i.adopt (fun _ => none) tree).1 m.store
        (.error (.typeMismatch "+" "integer" "nil")) [("f", "\x7b |x| … \x7d")] := by
  simp only [exists_and_left]
  refine ⟨_, rfl, ?_⟩
  generalize same : Node.list _ = tree
  refine ⟨_, rfl, ?_⟩
  have ends : ∃ m, Ends 5
      (((Interpreter.fresh 5).bind ⟨0⟩ "k" (.int 40)).adopt (fun _ => none) tree).1 ⟨0⟩
      ⟨((Interpreter.fresh 5).bind ⟨0⟩ "k" (.int 40)).store, 0⟩ (.ok (.int 42)) m := by
    subst same
    exact ⟨_, 9, rfl⟩
  have alone : Shows 5 ((Interpreter.fresh 5).adopt (fun _ => none) tree).1
      (Interpreter.fresh 5).store (.error (.typeMismatch "+" "integer" "nil"))
      [("f", "\x7b |x| … \x7d")] := by
    subst same
    exact ⟨_, _, ⟨9, rfl⟩, rfl, by decide +kernel⟩
  obtain ⟨m, ends⟩ := ends
  exact ⟨m, ends, (captures_do_not_leak tree _ _ 5 (.evaluation (.nothing _) ends) _ _).mpr alone⟩

end BlockScript
