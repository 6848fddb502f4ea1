import BlockScript.Proofs.Scenes
import BlockScript.Run.Interpreter

/-!
# What an evaluation leaves alone

An evaluation in a frame `f` of a store may bind new names in `f` and in frames that it makes
itself.  Of the other frames that were there before it can change only those that enclose some
frame, because only those can be reached from a scope of the evaluation by parent links; and
there it can change only the values of names that have one other than `nil`, because anything
else is bound where the assignment stands.

The invariant of a run has two sides.  The one compares the frames that were there with what
they are now (`Store.Spares`).  The other says why no other frame can be written: every scope of
the evaluation is `f` or new, and every parent is `f`, or new, or was a parent before
(`Guarded`).
-/

set_option autoImplicit false

namespace BlockScript

namespace Store

/-- What a store still has of the frames of an earlier store, if only the frame `f` could be
written freely in between. -/
structure Spares (s : Store) (f : FrameId) (t : Store) : Prop where
  has : ∀ g, s.Has g → t.Has g
  parent : ∀ g, s.Has g → t.parent g = s.parent g
  kept : ∀ g name, s.owns g name = true → t.owns g name = true
  names : ∀ g, s.Has g → g ≠ f → ∀ name, t.owns g name = s.owns g name
  bindings : ∀ g, s.Has g → g ≠ f → (∀ h, s.parent h ≠ some g) →
    ∀ name, t.own? g name = s.own? g name
  nils : ∀ g, g ≠ f → ∀ name, s.own? g name = some .nil → t.own? g name = some .nil

theorem has_of_owns {s : Store} {f : FrameId} {name : String} (owns : s.owns f name = true) :
    s.Has f := by
  obtain ⟨value, bound⟩ := owns_iff.mp owns
  exact has_of_own? bound

theorem owns_congr {s t : Store} {f : FrameId} (same : t.frame f = s.frame f) (name : String) :
    t.owns f name = s.owns f name := by
  rw [owns, same, owns]

/-- A binding removes no name, and adds at most its own. -/
theorem owns_bind {s : Store} {target : FrameId} (has : s.Has target) (name : String)
    (value : Value) (f : FrameId) (other : String) :
    (s.bind target name value).owns f other = (s.owns f other || (f = target ∧ other = name)) := by
  rw [Bool.eq_iff_iff, Bool.or_eq_true, owns_iff, owns_iff, own?_bind has]
  by_cases here : f = target ∧ other = name
  · simp [here]
  · simp [here]

namespace Spares

variable {s t t' : Store} {f : FrameId}

theorem refl (s : Store) (f : FrameId) : s.Spares f s :=
  ⟨fun _ has => has, fun _ _ => rfl, fun _ _ owns => owns, fun _ _ _ _ => rfl,
    fun _ _ _ _ _ => rfl, fun _ _ _ bound => bound⟩

/-- Growing keeps what is there. -/
theorem grow (spares : s.Spares f t) (has : ∀ g, t.Has g → t'.Has g)
    (same : ∀ g, t.Has g → t'.frame g = t.frame g) : s.Spares f t' where
  has g old := has g (spares.has g old)
  parent g old := by
    rw [Store.parent, same g (spares.has g old)]
    exact spares.parent g old
  kept g name owned := by
    rw [owns_congr (same g (spares.has g (has_of_owns owned)))]
    exact spares.kept g name owned
  names g old other name := by
    rw [owns_congr (same g (spares.has g old))]
    exact spares.names g old other name
  bindings g old other childless name := by
    rw [own?, same g (spares.has g old)]
    exact spares.bindings g old other childless name
  nils g other name bound := by
    rw [own?, same g (spares.has g (has_of_own? bound))]
    exact spares.nils g other name bound

/-- A binding is allowed in `f`, in a frame that is new, and for a name with a value other than
`nil` in a frame that had a child. -/
theorem bind (spares : s.Spares f t) {target : FrameId} {name : String} {value : Value}
    (has : t.Has target)
    (allowed : (target = f ∨ ¬ s.Has target) ∨
      (∃ h, s.parent h = some target) ∧ ∃ v, t.own? target name = some v ∧ v ≠ .nil) :
    s.Spares f (t.bind target name value) where
  has g old := has_bind.mpr (spares.has g old)
  parent g old := (parent_bind _ _ _ _ _).trans (spares.parent g old)
  kept g other owned := by
    rw [owns_bind has, spares.kept g other owned, Bool.true_or]
  names g old apart other := by
    rw [owns_bind has, spares.names g old apart other]
    by_cases here : g = target ∧ other = name
    · -- The name is written in an old frame, so it was bound there already.
      obtain ⟨rfl, rfl⟩ := here
      rcases allowed with (same | new) | ⟨_, v, bound, _⟩
      · exact absurd same apart
      · exact absurd old new
      · have owned : t.owns g other = true := owns_iff.mpr ⟨v, bound⟩
        rw [← spares.names g old apart other, owned, Bool.true_or]
    · simp [here]
  bindings g old apart childless other := by
    rw [own?_bind has, if_neg, spares.bindings g old apart childless other]
    rintro ⟨rfl, rfl⟩
    rcases allowed with (same | new) | ⟨⟨h, link⟩, _⟩
    · exact apart same
    · exact new old
    · exact childless h link
  nils g apart other bound := by
    have now := spares.nils g apart other bound
    rw [own?_bind has, if_neg, now]
    rintro ⟨rfl, rfl⟩
    rcases allowed with (same | new) | ⟨_, v, bound', something⟩
    · exact apart same
    · exact new (has_of_own? bound)
    · exact something (Option.some.inj (bound'.symm.trans now))

end Spares

end Store

/-! ## The invariant of a run -/

/-- A frame that an evaluation in the frame `f` of the store may have to do with: `f` itself, a
new frame, or one that was a parent before. -/
def Store.Open (s : Store) (f g : FrameId) : Prop :=
  (g = f ∨ ¬ s.Has g) ∨ ∃ h, s.parent h = some g

/-- The scene of an evaluation that began in the frame `f` of the store. -/
structure Guarded (s : Store) (f : FrameId) (w : Scene) : Prop where
  forest : w.store.Forest
  spares : s.Spares f w.store
  scopes : ∀ g ∈ w.scopes, w.store.Has g ∧ (g = f ∨ ¬ s.Has g)
  parents : ∀ h p, w.store.parent h = some p → s.Open f p

namespace Guarded

variable {s : Store} {f : FrameId} {w w' : Scene} {p : Node DefId → Prop}

/-- The scene in which an evaluation begins. -/
theorem start (forest : s.Forest) (has : s.Has f) : Guarded s f ⟨{f}, ∅, s⟩ where
  forest := forest
  spares := .refl s f
  scopes g member := by
    obtain rfl : g = f := member
    exact ⟨has, .inl rfl⟩
  parents h _ link := .inr ⟨h, link⟩

/-- A new frame below an open one, and perhaps the scope of what follows. -/
theorem add (guarded : Guarded s f w) {frame : Frame}
    (outer : ∀ p, frame.parent = some p → w.store.Has p ∧ s.Open f p) (values : Set Value) :
    Guarded s f ⟨insert w.store.next w.scopes, values, (w.store.add frame).2⟩ where
  forest := guarded.forest.add fun p link => (outer p link).1
  spares := guarded.spares.grow (fun _ has => Store.has_add.mpr (.inl has)) fun g has => by
    rw [Store.frame_add, if_neg (Store.ne_next has)]
  scopes g member := by
    rcases member with rfl | member
    · -- The next frame of the present store is not one of the first store.
      exact ⟨Store.has_add.mpr (.inr rfl),
        .inr fun old => Store.ne_next (guarded.spares.has _ old) rfl⟩
    · exact ⟨Store.has_add.mpr (.inl (guarded.scopes g member).1), (guarded.scopes g member).2⟩
  parents h p link := by
    rw [Store.parent_add] at link
    split at link
    · exact (outer p link).2
    · exact guarded.parents h p link

/-- A parent of the present store as the parent of a new frame. -/
theorem outer_of_parent (guarded : Guarded s f w) {g p : FrameId}
    (link : w.store.parent g = some p) : w.store.Has p ∧ s.Open f p :=
  ⟨guarded.forest.has_parent link, guarded.parents g p link⟩

theorem capture (guarded : Guarded s f w) (d : Definition) (g : FrameId) (values : Set Value) :
    Guarded s f ⟨w.scopes, values, (w.store.capture d g).2⟩ where
  forest := guarded.forest.capture d g
  spares := guarded.spares.grow (fun _ has => Store.has_capture.mpr (.inl has)) fun _ has =>
    Store.frame_capture_of_ne (Store.ne_next has)
  scopes g member := ⟨Store.has_capture.mpr (.inl (guarded.scopes g member).1),
    (guarded.scopes g member).2⟩
  parents h p link := by
    rw [Store.parent_capture] at link
    split at link
    · exact guarded.parents g p link
    · exact guarded.parents h p link

theorem bind (guarded : Guarded s f w) {target : FrameId} {name : String} {value : Value}
    (has : w.store.Has target)
    (allowed : (target = f ∨ ¬ s.Has target) ∨
      (∃ h, s.parent h = some target) ∧ ∃ v, w.store.own? target name = some v ∧ v ≠ .nil) :
    Guarded s f { w with store := w.store.bind target name value } where
  forest := guarded.forest.bind target name value
  spares := guarded.spares.bind has allowed
  scopes g member := ⟨Store.has_bind.mpr (guarded.scopes g member).1, (guarded.scopes g member).2⟩
  parents h p link := guarded.parents h p (by simpa using link)

/-- An assignment climbs over open frames only, and past its own frame it stops at a name that
has a value. -/
theorem assign (guarded : Guarded s f w) {g : FrameId} (scope : g ∈ w.scopes) (name : String)
    (value : Value) : Guarded s f { w with store := w.store.assign g name value } := by
  obtain ⟨target, delivers, assigned⟩ := Store.exists_delivers guarded.forest g name
  rw [assigned]
  obtain ⟨has, free⟩ := guarded.scopes g scope
  have reached : w.store.Has target ∧ s.Open f target :=
    delivers.climbs ⟨has, .inl free⟩ fun h p _ link => guarded.outer_of_parent link
  refine guarded.bind reached.1 ?_
  rcases delivers.here_or_owned with rfl | owned
  · exact .inl free
  · exact reached.2.imp_right fun wasParent => ⟨wasParent, owned⟩

/-- **Every change of the scene keeps the frames guarded.** -/
theorem change (guarded : Guarded s f w) (change : Change p w w') : Guarded s f w' := by
  cases change with
  | stay => exact guarded
  | read => exact ⟨guarded.forest, guarded.spares, guarded.scopes, guarded.parents⟩
  | loop scope =>
      refine guarded.add (fun p link => ?_) _
      obtain rfl := Option.some.inj link
      exact ⟨(guarded.scopes _ scope).1, .inl (guarded.scopes _ scope).2⟩
  | capture => exact guarded.capture _ _ _
  | call => exact guarded.add (fun _ link => guarded.outer_of_parent link) _
  | bind scope => exact guarded.bind (guarded.scopes _ scope).1 (.inl (guarded.scopes _ scope).2)
  | assign scope => exact guarded.assign scope _ _

/-- A frame other than `f` that was the parent of none is the parent of none. -/
theorem childless (guarded : Guarded s f w) {g : FrameId} (old : s.Has g) (apart : g ≠ f)
    (before : ∀ h, s.parent h ≠ some g) (h : FrameId) : w.store.parent h ≠ some g := by
  intro link
  rcases guarded.parents h g link with (same | new) | ⟨child, link'⟩
  · exact apart same
  · exact new old
  · exact before child link'

/-- **A run that begins with the frame `f` as its only scope stays guarded.** -/
theorem steps {limit : Nat} {c c' : Config} (forest : s.Forest) (has : s.Has f)
    (fits : c.Fits (fun _ => True) ⟨{f}, ∅, s⟩) (run : Steps limit c c') :
    ∃ w, Guarded s f w ∧ c'.store = w.store := by
  obtain ⟨w, guarded, fits⟩ := fits.steps (fun _ _ guarded change => guarded.change change)
    (fun _ _ _ _ _ _ _ _ => Node.everyAll_of_forall (fun _ => trivial) _) (start forest has) run
  exact ⟨w, guarded, fits.store⟩

end Guarded

/-- An evaluation of a node begins with its frame as the only scope. -/
theorem Config.fits_node (n : Node DefId) (f : FrameId) (m : Machine) :
    (⟨.node n f, [], m⟩ : Config).Fits (fun _ => True) ⟨{f}, ∅, m.store⟩ :=
  ⟨rfl, ⟨Node.every_of_forall (fun _ => trivial) n, rfl⟩, fun _ member => by cases member⟩

theorem Ends.guarded {limit : Nat} {n : Node DefId} {f : FrameId} {m m' : Machine}
    {r : Except EvalError Value} (ends : Ends limit n f m r m') (forest : m.store.Forest)
    (has : m.store.Has f) : ∃ w, Guarded m.store f w ∧ m'.store = w.store :=
  Guarded.steps forest has (Config.fits_node n f m) (ends_iff_steps.mp ends)

/-- A loop runs in a frame of its own below the scope `f`, so `f` is spared like any other
frame. -/
theorem Ends.spares_of_loop {limit : Nat} {start test step : Node DefId}
    {body : List (Node DefId)} {f : FrameId} {m m' : Machine} {r : Except EvalError Value}
    (ends : Ends limit (.loop start test step body) f m r m') (forest : m.store.Forest)
    (has : m.store.Has f) : (m.store.newFrame (some f)).2.Spares m.store.next m'.store := by
  have forest' : (m.store.newFrame (some f)).2.Forest :=
    forest.add fun p link => Option.some.inj link ▸ has
  have entry : (enter limit (.loop start test step body) f [] m).Fits (fun _ => True)
      ⟨{m.store.next}, ∅, (m.store.newFrame (some f)).2⟩ := by
    refine ⟨rfl, ⟨Node.every_of_forall (fun _ => trivial) start, rfl⟩, ?_⟩
    refine List.forall_mem_singleton.mpr ⟨?_, ?_, ?_, rfl⟩
    · exact Node.every_of_forall (fun _ => trivial) test
    · exact Node.every_of_forall (fun _ => trivial) step
    · exact Node.everyAll_of_forall (fun _ => trivial) body
  rcases (ends_iff_steps.mp ends).cases_head with same | ⟨c, entered, rest⟩
  · cases same
  · cases entered
    obtain ⟨w, guarded, store⟩ :=
      Guarded.steps forest' (Store.has_add.mpr (.inr rfl)) entry rest
    have last : m'.store = w.store := store
    rw [last]
    exact guarded.spares

/-! ## Stores that can come to be -/

/-- The stores that can come to be from that of a fresh interpreter: by what can be done to a
store from outside, and as any state in the course of an evaluation in one of its frames. -/
inductive Store.Reached : Store → Prop where
  | fresh (limit : Nat) : Reached (Interpreter.fresh limit).store
  | newFrame {s : Store} (reached : Reached s) {parent : Option FrameId}
      (older : ∀ p, parent = some p → s.Has p) : Reached (s.newFrame parent).2
  | snapshot {s : Store} (reached : Reached s) (f : FrameId) : Reached (s.snapshot f).2
  | bind {s : Store} (reached : Reached s) (f : FrameId) (name : String) (value : Value) :
      Reached (s.bind f name value)
  | assign {s : Store} (reached : Reached s) (f : FrameId) (name : String) (value : Value) :
      Reached (s.assign f name value)
  | copyBlock {s : Store} (reached : Reached s) (copy : DefId) {id : DefId} {f : FrameId}
      (captured : s.captured? id = some f) :
      Reached { s with captures := s.captures.insert copy f }
  | evaluate {s : Store} (reached : Reached s) {limit active : Nat} {n : Node DefId} {f : FrameId}
      {c : Config} (scope : s.Has f) (run : Steps limit ⟨.node n f, [], ⟨s, active⟩⟩ c) :
      Reached c.store

/-- In every store that can come to be, parents are older than their children. -/
theorem Store.Reached.forest {s : Store} (reached : s.Reached) : s.Forest := by
  induction reached with
  | fresh limit =>
      intro f p link
      rw [Interpreter.fresh, Store.newFrame, parent_add] at link
      simp [Store.parent, Store.frame, Store.empty, Frame.blank] at link
  | newFrame _ older ih => exact ih.add older
  | snapshot _ f ih => exact ih.add fun _ link => ih.has_parent link
  | bind _ f name value ih => exact ih.bind f name value
  | assign _ f name value ih => exact ih.assign f name value
  | copyBlock _ _ _ ih => exact ih
  | evaluate _ scope run ih =>
      obtain ⟨w, guarded, store⟩ := Guarded.steps ih scope (Config.fits_node _ _ ⟨_, _⟩) run
      exact store ▸ guarded.forest

/-- A frame that encloses no frame is the parent of none. -/
theorem Store.ne_parent_of_not_encloses {s : Store} {g : FrameId}
    (innermost : ∀ h, s.Has h → ¬ s.Encloses g h) (h : FrameId) : s.parent h ≠ some g :=
  fun link => innermost h (has_of_parent link) (.single link)

/-- **The frame law of evaluation.**  Whatever is evaluated in the frame `f` of a store that can
come to be, and whether it ends with a value or with an error, a frame `g` of that store keeps
its parent and its names.  If `g` is not `f`, it gets no new names and what was `nil` in it
stays `nil`; and if it encloses no frame either, it keeps all its bindings.  A loop gives no new
names to `f` itself. -/
theorem evaluation_frame_law {s : Store} (reached : s.Reached) {f g : FrameId} (scope : s.Has f)
    (old : s.Has g) {limit active : Nat} {n : Node DefId} {r : Except EvalError Value}
    {m : Machine} (ends : Ends limit n f ⟨s, active⟩ r m) :
    (m.store.Has g ∧ m.store.parent g = s.parent g) ∧
    ((∀ name, s.owns g name = true → m.store.owns g name = true) ∧
      (g ≠ f → ∀ name, m.store.owns g name = s.owns g name) ∧
      (∀ start test step body, n = .loop start test step body →
        ∀ name, m.store.owns f name = s.owns f name)) ∧
    (g ≠ f → (∀ h, s.Has h → ¬ s.Encloses g h) →
      ∀ name, m.store.own? g name = s.own? g name) ∧
    (g ≠ f → ∀ name, s.own? g name = some .nil → m.store.own? g name = some .nil) := by
  obtain ⟨w, guarded, store⟩ := ends.guarded reached.forest scope
  have spares : s.Spares f m.store := store ▸ guarded.spares
  refine ⟨⟨spares.has g old, spares.parent g old⟩, ⟨spares.kept g, spares.names g old, ?_⟩,
    fun apart innermost => spares.bindings g old apart (Store.ne_parent_of_not_encloses innermost),
    spares.nils g⟩
  rintro start test step body rfl name
  have apart : f ≠ s.next := Store.ne_next scope
  have kept := (ends.spares_of_loop reached.forest scope).names f
    (Store.has_add.mpr (.inl scope)) apart name
  have unchanged : (s.newFrame (some f)).2.frame f = s.frame f := by
    rw [Store.newFrame, Store.frame_add, if_neg apart]
  rw [kept, Store.owns_congr unchanged]

/-- A root frame with a value and a `nil`, and a frame below it. -/
def twoFrames : Store :=
  ((((Interpreter.fresh 0).store.bind ⟨0⟩ "x" (.int 5)).bind ⟨0⟩ "y" .nil).newFrame (some ⟨0⟩)).2

/-- A loop that assigns its counter to both names of the root frame of `twoFrames`. -/
def countingLoop : Node DefId :=
  .loop (.assign "i" (.int 0)) (.compare .lt (.var "i") (.int 2))
    (.assign "i" (.arith .add (.var "i") (.int 1)))
    [.assign "x" (.var "i"), .assign "y" (.var "i")]

/-- The loop ends in the inner frame of `twoFrames` and changes `x` of the root frame.  The frame
law says of the root frame that `y` stays `nil` and no name is new, and of the inner frame that
it gets no name. -/
theorem evaluation_frame_law_countingLoop :
    twoFrames.Reached ∧ twoFrames.Has ⟨1⟩ ∧ twoFrames.Has ⟨0⟩ ∧
      ∃ r m, Ends 0 countingLoop ⟨1⟩ ⟨twoFrames, 0⟩ r m ∧
        m.store.own? ⟨0⟩ "x" = some (.int 1) ∧ m.store.own? ⟨0⟩ "y" = some .nil ∧
        (∀ name, m.store.owns ⟨0⟩ name = twoFrames.owns ⟨0⟩ name) ∧
        (∀ name, m.store.owns ⟨1⟩ name = twoFrames.owns ⟨1⟩ name) := by
  have reached : twoFrames.Reached := by
    refine .newFrame (.bind (.bind (.fresh 0) _ _ _) _ _ _) fun p root => ?_
    cases root
    decide
  have inner : twoFrames.Has ⟨1⟩ := by decide
  have root : twoFrames.Has ⟨0⟩ := by decide
  obtain ⟨r, m, ends, changed⟩ : ∃ r m, Ends 0 countingLoop ⟨1⟩ ⟨twoFrames, 0⟩ r m ∧
      m.store.own? ⟨0⟩ "x" = some (.int 1) := by
    refine ⟨_, _, ⟨40, rfl⟩, rfl⟩
  obtain ⟨_, ⟨_, names, loop⟩, _, nils⟩ := evaluation_frame_law reached inner root ends
  exact ⟨reached, inner, root, r, m, ends, changed, nils (by decide) "y" rfl, names (by decide),
    loop _ _ _ _ rfl⟩

end BlockScript
