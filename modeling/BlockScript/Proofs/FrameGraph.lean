import BlockScript.Proofs.Labels
import BlockScript.Proofs.Session

/-!
# The graph of frames, blocks and definitions

Frames, blocks and definitions refer to each other in circles: a captured frame binds `this` to
the block of which it is the frame, and the literal of the block remembers the frame.  Only the
parent links are well-founded.  What keeps the graph in order is that captured frames are never
written again.  They are recognised by their own `this` (`Store.IsCapture`), and no scope of an
evaluation and no parent of a frame is one (`Sound`).  So a write never reaches a captured frame,
and what a block or a literal says about its frame stays true.
-/

set_option autoImplicit false

namespace BlockScript

/-! ## Captured frames -/

namespace Store

/-- The frame's own `this` is a block of that very frame. -/
def IsCapture (s : Store) (f : FrameId) : Prop := ∃ d, s.own? f selfName = some (.block d f)

/-- A block whose definition is in the table and has captured, and whose frame is the captured
frame that it was made with. -/
structure Proper (table : Set Definition) (s : Store) (d : Definition) (f : FrameId) : Prop where
  known : d ∈ table
  captured : ∃ g, s.captured? d.id = some g
  self : s.own? f selfName = some (.block d f)

theorem Proper.isCapture {table : Set Definition} {s : Store} {d : Definition} {f : FrameId}
    (proper : s.Proper table d f) : s.IsCapture f :=
  ⟨d, proper.self⟩

theorem Proper.has {table : Set Definition} {s : Store} {d : Definition} {f : FrameId}
    (proper : s.Proper table d f) : s.Has f :=
  has_of_own? proper.self

/-- A proper block stays proper as long as no capture is forgotten and its frame keeps its
`this`. -/
theorem Proper.keep {table : Set Definition} {s t : Store} {d : Definition} {f : FrameId}
    (proper : s.Proper table d f)
    (captured : ∀ id g, s.captured? id = some g → ∃ h, t.captured? id = some h)
    (same : t.own? f selfName = s.own? f selfName) : t.Proper table d f := by
  obtain ⟨g, before⟩ := proper.captured
  exact ⟨proper.known, captured _ g before, same.trans proper.self⟩

theorem isCapture_congr {s t : Store} {f : FrameId}
    (same : t.own? f selfName = s.own? f selfName) : t.IsCapture f ↔ s.IsCapture f := by
  rw [IsCapture, IsCapture, same]

theorem IsCapture.has {s : Store} {f : FrameId} (capture : s.IsCapture f) : s.Has f := by
  obtain ⟨_, self⟩ := capture
  exact has_of_own? self

end Store

/-! ## The invariant -/

/-- The graph of a scene is in order, and all blocks in it have definitions of the table. -/
structure Sound (table : Set Definition) (w : Scene) : Prop where
  forest : w.store.Forest
  scopes : ∀ f ∈ w.scopes, w.store.Has f ∧ ¬ w.store.IsCapture f
  parents : ∀ f p, w.store.parent f = some p → ¬ w.store.IsCapture p
  stored : ∀ f name d g, w.store.own? f name = some (.block d g) → w.store.Proper table d g
  held : ∀ d g, .block d g ∈ w.values → w.store.Proper table d g
  captures : ∀ id f, w.store.captured? id = some f →
    ∃ d ∈ table, d.id = id ∧ w.store.own? f Store.selfName = some (.block d f)

namespace Sound

variable {table larger : Set Definition} {w w' : Scene} {p : Node DefId → Prop}

/-- More definitions. -/
theorem mono (sound : Sound table w) (sub : table ⊆ larger) : Sound larger w where
  forest := sound.forest
  scopes := sound.scopes
  parents := sound.parents
  stored f name d g bound := { sound.stored f name d g bound with
    known := sub (sound.stored f name d g bound).known }
  held d g member := { sound.held d g member with known := sub (sound.held d g member).known }
  captures id f captured := by
    obtain ⟨d, known, label, self⟩ := sound.captures id f captured
    exact ⟨d, sub known, label, self⟩

theorem empty : Sound ∅ ⟨∅, ∅, .empty⟩ := by
  have frame : ∀ f, Store.empty.frame f = .blank :=
    fun _ => Store.frame_of_not_has (Nat.not_lt_zero _)
  refine ⟨?_, fun _ member => member.elim, ?_, ?_, fun _ _ member => member.elim, ?_⟩
  · exact fun f _ link => by simp [Store.parent, frame, Frame.blank] at link
  · exact fun f _ link => by simp [Store.parent, frame, Frame.blank] at link
  · exact fun f _ _ _ bound => by simp [Store.own?, frame, Frame.blank] at bound
  · exact fun _ _ captured => by simp [Store.captured?, Store.empty] at captured

theorem proper_of_holds (sound : Sound table w) {d : Definition} {g : FrameId}
    (held : w.Holds (.block d g)) : w.store.Proper table d g := by
  rcases held with plain | member
  · exact absurd rfl (plain d g)
  · exact sound.held d g member

theorem proper_of_lookup (sound : Sound table w) {f g : FrameId} {name : String} {d : Definition}
    (found : w.store.lookup f name = .block d g) : w.store.Proper table d g := by
  rcases (Store.finds_lookup sound.forest f name).stored with nothing | ⟨h, bound⟩
  · rw [found] at nothing
    cases nothing
  · rw [found] at bound
    exact sound.stored h name d g bound

/-- A new frame, whose bindings are those of frames there are. -/
theorem add (sound : Sound table w) {frame : Frame}
    (outer : ∀ p, frame.parent = some p → w.store.Has p ∧ ¬ w.store.IsCapture p)
    (bindings : ∀ name d g, frame.bindings.get? name = some (.block d g) →
      w.store.Proper table d g) :
    Sound table ⟨insert w.store.next w.scopes, w.values, (w.store.add frame).2⟩ := by
  have same : ∀ f, w.store.Has f → ∀ name,
      (w.store.add frame).2.own? f name = w.store.own? f name := by
    intro f has name
    rw [Store.own?_add, if_neg (Store.ne_next has)]
  have proper : ∀ d g, w.store.Proper table d g → (w.store.add frame).2.Proper table d g :=
    fun d g old => old.keep (fun _ _ captured => ⟨_, captured⟩) (same g old.has _)
  have uncaptured : ∀ f, w.store.Has f → ¬ w.store.IsCapture f →
      ¬ (w.store.add frame).2.IsCapture f := by
    intro f has apart
    rwa [Store.isCapture_congr (same f has _)]
  refine ⟨sound.forest.add fun p link => (outer p link).1, ?_, ?_, ?_, ?_, ?_⟩
  · rintro f (rfl | member)
    · refine ⟨Store.has_add.mpr (.inr rfl), ?_⟩
      -- A block in the new frame is a block of a frame that was there before.
      rintro ⟨d, self⟩
      rw [Store.own?_add, if_pos rfl] at self
      exact Store.ne_next (bindings _ d _ self).has rfl
    · obtain ⟨has, apart⟩ := sound.scopes f member
      exact ⟨Store.has_add.mpr (.inl has), uncaptured f has apart⟩
  · intro f p link
    rw [Store.parent_add] at link
    split at link
    · exact uncaptured p (outer p link).1 (outer p link).2
    · exact uncaptured p (sound.forest.has_parent link) (sound.parents f p link)
  · intro f name d g bound
    rw [Store.own?_add] at bound
    split at bound
    · exact proper d g (bindings name d g bound)
    · exact proper d g (sound.stored f name d g bound)
  · exact fun d g member => proper d g (sound.held d g member)
  · intro id f captured
    obtain ⟨d, known, label, self⟩ := sound.captures id f captured
    exact ⟨d, known, label, (same f (Store.has_of_own? self) _).trans self⟩

/-- A root frame in an empty store. -/
theorem root : Sound ∅ ⟨insert ⟨0⟩ ∅, ∅, (Store.empty.newFrame none).2⟩ :=
  empty.add (fun _ link => by cases link) fun _ _ _ bound => by cases bound

/-- A block literal of the table that is evaluated in any frame. -/
theorem capture (sound : Sound table w) {d : Definition} (known : d ∈ table) (f : FrameId) :
    Sound table
      ⟨w.scopes, insert (.block d w.store.next) w.values, (w.store.capture d f).2⟩ := by
  have same : ∀ g, w.store.Has g → ∀ name,
      (w.store.capture d f).2.own? g name = w.store.own? g name := by
    intro g has name
    rw [Store.own?_capture, if_neg (Store.ne_next has)]
  have self : (w.store.capture d f).2.own? w.store.next Store.selfName =
      some (.block d w.store.next) := by
    rw [Store.own?_capture, if_pos rfl, if_pos rfl]
  have new : (w.store.capture d f).2.Proper table d w.store.next :=
    ⟨known, ⟨w.store.next, by rw [Store.captured?_capture, if_pos rfl]⟩, self⟩
  have proper : ∀ e g, w.store.Proper table e g →
      (w.store.capture d f).2.Proper table e g := by
    refine fun e g old => old.keep (fun id h captured => ?_) (same g old.has _)
    rw [Store.captured?_capture]
    split
    · exact ⟨_, rfl⟩
    · exact ⟨h, captured⟩
  have uncaptured : ∀ g, w.store.Has g → ¬ w.store.IsCapture g →
      ¬ (w.store.capture d f).2.IsCapture g := by
    intro g has apart
    rwa [Store.isCapture_congr (same g has _)]
  refine ⟨sound.forest.capture d f, ?_, ?_, ?_, ?_, ?_⟩
  · intro g member
    obtain ⟨has, apart⟩ := sound.scopes g member
    exact ⟨Store.has_capture.mpr (.inl has), uncaptured g has apart⟩
  · intro g p link
    rw [Store.parent_capture] at link
    split at link
    · exact uncaptured p (sound.forest.has_parent link) (sound.parents f p link)
    · exact uncaptured p (sound.forest.has_parent link) (sound.parents g p link)
  · intro g name e h bound
    rw [Store.own?_capture] at bound
    split at bound
    · split at bound
      · cases bound
        exact new
      · exact proper e h (sound.stored f name e h bound)
    · exact proper e h (sound.stored g name e h bound)
  · rintro e g (block | member)
    · cases block
      exact new
    · exact proper e g (sound.held e g member)
  · intro id g captured
    rw [Store.captured?_capture] at captured
    split at captured
    · rename_i label
      cases captured
      exact ⟨d, known, label.symm, self⟩
    · obtain ⟨e, known', label, self'⟩ := sound.captures id g captured
      exact ⟨e, known', label, (same g (Store.has_of_own? self') _).trans self'⟩

/-- A value that is held is bound in a frame that is not a captured one. -/
theorem bind (sound : Sound table w) {target : FrameId} (has : w.store.Has target)
    (apart : ¬ w.store.IsCapture target) {v : Value} (held : w.Holds v) (name : String) :
    Sound table { w with store := w.store.bind target name v } := by
  have same : ∀ f, w.store.IsCapture f → ∀ other,
      (w.store.bind target name v).own? f other = w.store.own? f other := by
    intro f capture other
    have ne : f ≠ target := fun equal => apart (equal ▸ capture)
    rw [Store.own?_bind has, if_neg fun both => ne both.1]
  have proper : ∀ d g, w.store.Proper table d g →
      (w.store.bind target name v).Proper table d g :=
    fun d g old => old.keep (fun _ _ captured => ⟨_, captured⟩) (same g old.isCapture _)
  have uncaptured : ∀ f, ¬ w.store.IsCapture f →
      ¬ (w.store.bind target name v).IsCapture f := by
    rintro f before ⟨d, self⟩
    rw [Store.own?_bind has] at self
    split at self
    · -- The target would become a captured frame only by a block whose frame it is already.
      rename_i here
      cases self
      exact before (sound.proper_of_holds held).isCapture
    · exact before ⟨d, self⟩
  refine ⟨sound.forest.bind target name v, ?_, ?_, ?_, ?_, ?_⟩
  · intro f member
    obtain ⟨there, before⟩ := sound.scopes f member
    exact ⟨Store.has_bind.mpr there, uncaptured f before⟩
  · intro f p link
    rw [Store.parent_bind] at link
    exact uncaptured p (sound.parents f p link)
  · intro f other d g bound
    rw [Store.own?_bind has] at bound
    split at bound
    · cases bound
      exact proper d g (sound.proper_of_holds held)
    · exact proper d g (sound.stored f other d g bound)
  · exact fun d g member => proper d g (sound.held d g member)
  · intro id f captured
    obtain ⟨d, known, label, self⟩ := sound.captures id f captured
    exact ⟨d, known, label, (same f ⟨d, self⟩ _).trans self⟩

/-- An assignment climbs from a scope over parents, and none of these is a captured frame. -/
theorem target (sound : Sound table w) {f target : FrameId} {name : String} (scope : f ∈ w.scopes)
    (delivers : w.store.Delivers name f target) :
    w.store.Has target ∧ ¬ w.store.IsCapture target :=
  delivers.climbs (P := fun g => w.store.Has g ∧ ¬ w.store.IsCapture g) (sound.scopes f scope)
    fun g p _ link => ⟨sound.forest.has_parent link, sound.parents g p link⟩

/-- **Every change of the scene keeps the graph in order.** -/
theorem change (sound : Sound table w) (change : Change (Literal table) w w') :
    Sound table w' := by
  cases change with
  | stay => exact sound
  | @read f name scope =>
      refine ⟨sound.forest, sound.scopes, sound.parents, sound.stored, ?_, sound.captures⟩
      rintro d g (block | member)
      · exact sound.proper_of_lookup block.symm
      · exact sound.held d g member
  | loop scope =>
      refine sound.add (fun p link => ?_) fun _ _ _ bound => ?_
      · cases link
        exact sound.scopes _ scope
      · cases bound
  | capture scope tree => exact sound.capture tree.1 _
  | call scope callee =>
      refine sound.add (fun p link => ?_) fun _ _ _ bound => sound.stored _ _ _ _ bound
      exact ⟨sound.forest.has_parent link, sound.parents _ p link⟩
  | bind scope held =>
      exact sound.bind (sound.scopes _ scope).1 (sound.scopes _ scope).2 held _
  | @assign f name v scope held =>
      obtain ⟨target, delivers, assigned⟩ := Store.exists_delivers sound.forest f name
      rw [assigned]
      obtain ⟨has, apart⟩ := sound.target scope delivers
      exact sound.bind has apart held name

/-- **No change of the scene writes a captured frame.** -/
theorem frame_eq (sound : Sound table w) (change : Change p w w') {f : FrameId}
    (capture : w.store.IsCapture f) : w'.store.frame f = w.store.frame f := by
  have old : f ≠ w.store.next := Store.ne_next capture.has
  cases change with
  | stay => rfl
  | read => rfl
  | loop => exact (Store.frame_add _ _ _).trans (if_neg old)
  | capture => exact Store.frame_capture_of_ne old
  | call => exact (Store.frame_add _ _ _).trans (if_neg old)
  | @bind target _ _ scope =>
      refine Store.frame_bind_of_ne fun equal => ?_
      exact (sound.scopes target scope).2 (equal ▸ capture)
  | @assign g name v scope =>
      obtain ⟨target, delivers, assigned⟩ := Store.exists_delivers sound.forest g name
      rw [assigned]
      exact Store.frame_bind_of_ne fun equal => (sound.target scope delivers).2 (equal ▸ capture)

/-- The bodies of the blocks that can be called have their literals in the table. -/
theorem bodies {low high : Nat} (sound : Sound table w) (labelled : Labelled low high table) :
    w.Bodies (Literal table) :=
  fun _ _ d _ _ callee => labelled.bodies d (sound.proper_of_lookup callee).known

/-- The latest capture of a proper block is a captured frame of the same definition. -/
theorem latest {low high : Nat} (sound : Sound table w) (labelled : Labelled low high table)
    {d : Definition} {f : FrameId} (proper : w.store.Proper table d f) :
    ∃ g, w.store.captured? d.id = some g ∧
      w.store.own? g Store.selfName = some (.block d g) := by
  obtain ⟨g, captured⟩ := proper.captured
  obtain ⟨e, known, label, self⟩ := sound.captures d.id g captured
  obtain rfl := labelled.same e known d proper.known label
  exact ⟨g, captured, self⟩

end Sound

/-! ## Sessions -/

/-- What an interpreter and its trees have to do with a scene. -/
structure Settled (table : Set Definition) (w : Scene) (i : Interpreter)
    (programs : List (Node DefId)) : Prop where
  labelled : Labelled 0 i.nextDefinition table
  programs : ∀ node ∈ programs, node.Every (Literal table)
  sound : Sound table w
  root : i.root ∈ w.scopes

namespace Session

/-- A session in a scene that is in order. -/
def Fits (table : Set Definition) (w : Scene) : Session → Prop
  | idle i programs => Settled table w i programs ∧ i.store = w.store
  | running i programs c => Settled table w i programs ∧ c.Fits (Literal table) w

theorem fits_fresh (limit : Nat) : ∃ w, (fresh limit).Fits ∅ w :=
  ⟨_, ⟨.none 0, fun _ member => (by cases member), Sound.root, .inl rfl⟩, rfl⟩

/-- **Whatever happens next in a session, its graph stays in order, and no captured frame is
written.** -/
theorem Fits.next {table : Set Definition} {w : Scene} {σ σ' : Session} (fits : σ.Fits table w)
    (next : Next σ σ') :
    ∃ table' w', σ'.Fits table' w' ∧
      ∀ f, σ.store.IsCapture f → σ'.store.frame f = σ.store.frame f := by
  cases next with
  | limit i programs limit =>
      obtain ⟨settled, store⟩ := fits
      exact ⟨table, w, ⟨⟨settled.labelled, settled.programs, settled.sound, settled.root⟩, store⟩,
        fun _ _ => rfl⟩
  | @read i programs source tree =>
      obtain ⟨settled, store⟩ := fits
      obtain ⟨other, labelled, every, _⟩ := tree.fresh_number i.nextDefinition
      refine ⟨table ∪ other, w, ⟨⟨settled.labelled.union labelled, ?_, ?_, settled.root⟩, store⟩,
        fun _ _ => rfl⟩
      · refine List.forall_mem_cons.mpr ⟨every.imp (Literal.mono Set.subset_union_right), ?_⟩
        exact fun node member =>
          (settled.programs node member).imp (Literal.mono Set.subset_union_left)
      · exact settled.sound.mono Set.subset_union_left
  | @start i programs node member =>
      obtain ⟨settled, store⟩ := fits
      refine ⟨table, w, ⟨settled, store, ⟨settled.programs node member, settled.root⟩, ?_⟩,
        fun _ _ => rfl⟩
      exact fun _ pending => by cases pending
  | @step i programs c c' stepped =>
      obtain ⟨settled, fits⟩ := fits
      obtain ⟨w', change, fits'⟩ := fits.step (settled.sound.bodies settled.labelled) stepped
      refine ⟨table, w', ⟨⟨settled.labelled, settled.programs, settled.sound.change change,
        change.extends.scopes settled.root⟩, fits'⟩, fun f capture => ?_⟩
      have before : c.store = w.store := fits.store
      have after : c'.store = w'.store := fits'.store
      change c'.store.frame f = c.store.frame f
      rw [after, before]
      exact settled.sound.frame_eq change (before ▸ capture)
  | finish i programs outcome m =>
      obtain ⟨settled, fits⟩ := fits
      exact ⟨table, w, ⟨⟨settled.labelled, settled.programs, settled.sound, settled.root⟩,
        fits.store⟩, fun _ _ => rfl⟩

/-- **The graph of every session that can come to be is in order.** -/
theorem Reachable.fits {σ : Session} (reachable : σ.Reachable) : ∃ table w, σ.Fits table w := by
  obtain ⟨limit, later⟩ := reachable
  induction later with
  | refl => exact ⟨∅, fits_fresh limit⟩
  | tail _ next ih =>
      obtain ⟨table, w, fits⟩ := ih
      obtain ⟨table', w', fits', _⟩ := fits.next next
      exact ⟨table', w', fits'⟩

theorem Fits.store {table : Set Definition} {w : Scene} {σ : Session} (fits : σ.Fits table w) :
    σ.store = w.store := by
  cases σ with
  | idle i programs => exact fits.2
  | running i programs c => exact fits.2.store

theorem Fits.settled {table : Set Definition} {w : Scene} {σ : Session} (fits : σ.Fits table w) :
    Labelled 0 σ.interpreter.nextDefinition table ∧ Sound table w := by
  cases σ with
  | idle i programs => exact ⟨fits.1.labelled, fits.1.sound⟩
  | running i programs c => exact ⟨fits.1.labelled, fits.1.sound⟩

end Session

/-! ## Values in a session -/

/-- The values that what is to be done now holds. -/
def Focus.values : Focus → List Value
  | .all _ _ last => [last]
  | .rounds _ _ _ _ last => [last]
  | .give (.ok v) => [v]
  | _ => []

/-- The values that pending work holds. -/
def Pending.values : Pending → List Value
  | .test _ _ _ _ last => [last]
  | .step _ _ _ _ last => [last]
  | .combine _ left => [left]
  | _ => []

/-- A value stands in a frame, is being returned, or is held by the evaluation. -/
def Session.Carries (σ : Session) (v : Value) : Prop :=
  (∃ f name, σ.store.own? f name = some v) ∨
    match σ with
    | idle _ _ => False
    | running _ _ c => v ∈ c.focus.values ∨ ∃ pending ∈ c.stack, v ∈ pending.values

theorem Focus.Fits.holds {p : Node DefId → Prop} {w : Scene} {focus : Focus} (fits : focus.Fits p w)
    {v : Value} (member : v ∈ focus.values) : w.Holds v := by
  cases focus with
  | all => exact List.mem_singleton.mp member ▸ fits.2.2
  | rounds => exact List.mem_singleton.mp member ▸ fits.2.2.2.2
  | give outcome =>
      cases outcome with
      | ok => exact List.mem_singleton.mp member ▸ fits
      | error => cases member
  | node | arguments => cases member

theorem Pending.Fits.holds {p : Node DefId → Prop} {w : Scene} {pending : Pending}
    (fits : pending.Fits p w) {v : Value} (member : v ∈ pending.values) : w.Holds v := by
  cases pending with
  | test => exact List.mem_singleton.mp member ▸ fits.2.2.2.2
  | step => exact List.mem_singleton.mp member ▸ fits.2.2.2.2
  | combine => exact List.mem_singleton.mp member ▸ fits.2
  | statements | start | body | branches | argument | leave | assign | right => cases member

/-- Every block that a session carries is a proper one. -/
theorem Session.Fits.proper {table : Set Definition} {w : Scene} {σ : Session}
    (fits : σ.Fits table w) {d : Definition} {f : FrameId} (carries : σ.Carries (.block d f)) :
    w.store.Proper table d f := by
  obtain ⟨_, sound⟩ := fits.settled
  rcases carries with ⟨g, name, bound⟩ | held
  · rw [fits.store] at bound
    exact sound.stored g name d f bound
  · cases σ with
    | idle => exact held.elim
    | running i programs c =>
        rcases held with member | ⟨pending, stacked, member⟩
        · exact sound.proper_of_holds (fits.2.focus.holds member)
        · exact sound.proper_of_holds ((fits.2.stack pending stacked).holds member)

/-- **The graph of frames is well-formed in every state of every session.**  Parents are older
than their children, so no frame encloses itself, and looking a name up and assigning to it go
outwards until they end.  A block that stands in a frame or is being returned has a definition
that exists and has captured, so a call of it never starts from its own frame for want of a
capture; and its frame exists and has that block as its `this`.  The frame that a definition
captured last exists, and its `this` is the block of that definition and that frame. -/
theorem frame_graph_wellFormed {σ : Session} (reachable : σ.Reachable) :
    ((∀ f p, σ.store.parent f = some p → p.index < f.index ∧ σ.store.Has p) ∧
      (∀ f, ¬ σ.store.Encloses f f) ∧
      (∀ f name, σ.store.Finds name f (σ.store.lookup f name)) ∧
      (∀ f name, ∃ target, σ.store.Delivers name f target ∧
        ∀ v, σ.store.assign f name v = σ.store.bind target name v)) ∧
    (∀ d f, σ.Carries (.block d f) →
      (d.id.index < σ.interpreter.nextDefinition ∧
        ∃ g, σ.store.captured? d.id = some g ∧ σ.store.callFrame d f = g ∧
          σ.store.own? g Store.selfName = some (.block d g)) ∧
      σ.store.Has f ∧ σ.store.own? f Store.selfName = some (.block d f)) ∧
    (∀ id f, σ.store.captured? id = some f →
      σ.store.Has f ∧ ∃ d, d.id = id ∧ id.index < σ.interpreter.nextDefinition ∧
        σ.store.own? f Store.selfName = some (.block d f)) := by
  obtain ⟨table, w, fits⟩ := reachable.fits
  obtain ⟨labelled, sound⟩ := fits.settled
  have proper := fun d f carries => fits.proper (d := d) (f := f) carries
  rw [fits.store]
  have forest := sound.forest
  refine ⟨⟨fun f p link => ⟨forest f p link, forest.has_parent link⟩, forest.not_encloses_self,
    Store.finds_lookup forest, Store.exists_delivers forest⟩, ?_, ?_⟩
  · intro d f carries
    have block := proper d f carries
    obtain ⟨g, captured, self⟩ := sound.latest labelled block
    refine ⟨⟨(labelled.range d block.known).2, g, captured, ?_, self⟩, block.has, block.self⟩
    rw [Store.callFrame, captured, Option.getD_some]
  · intro id f captured
    obtain ⟨d, known, rfl, self⟩ := sound.captures id f captured
    exact ⟨Store.has_of_own? self, d, rfl, (labelled.range d known).2, self⟩

/-- A literal that is evaluated twice: the session comes to rest, the literal of the inner block
has captured a frame, and the frame graph is as it should be there. -/
theorem frame_graph_wellFormed_adders :
    ∃ i programs, (Session.idle i programs).Reachable ∧
      ∃ d f, i.store.captured? ⟨1⟩ = some f ∧ (Session.idle i programs).Carries (.block d f) ∧
        i.store.callFrame d f = f ∧ d.id = ⟨1⟩ := by
  have ran : ((Interpreter.fresh 10).run 60
      "make = { |k| { |x| x + k } }; one = make(1); two = make(2)").map
        (fun result => result.2.store.captured? ⟨1⟩) = some (some ⟨5⟩) := by
    decide +kernel
  obtain ⟨⟨r, i⟩, gives, captured⟩ := Option.map_eq_some_iff.mp ran
  obtain ⟨programs, later⟩ := Session.later_of_run gives []
  have reachable : (Session.idle i programs).Reachable := ⟨10, later⟩
  obtain ⟨_, blocks, captures⟩ := frame_graph_wellFormed reachable
  obtain ⟨_, d, label, _, self⟩ := captures ⟨1⟩ ⟨5⟩ captured
  have carries : (Session.idle i programs).Carries (.block d ⟨5⟩) := .inl ⟨_, _, self⟩
  obtain ⟨⟨_, g, latest, start, _⟩, _⟩ := blocks d ⟨5⟩ carries
  have same : g = ⟨5⟩ := by
    rw [label] at latest
    exact Option.some.inj (latest.symm.trans captured)
  exact ⟨i, programs, reachable, d, ⟨5⟩, captured, carries, start.trans same, label⟩

end BlockScript
