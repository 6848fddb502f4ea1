import BlockScript.Run.Store
import Mathlib.Logic.Relation
import Mathlib.Tactic.ByContra

/-!
# Frames under the operations of the store

What each operation of the store does to the frames that exist and to the captures, as one
equation for each operation and each way of looking at a store.  Nothing is ever removed: a
new frame leaves all others alone (`frame_add`), and a binding changes one name of one frame
(`own?_bind`).

In a forest every parent is older than its child.  There the bounds on looking up and on
assigning are never met.  Looking a name up has a derivation that climbs one parent link at a
time and ends (`finds_lookup`).  An assignment binds the name in exactly one frame
(`exists_delivers`), and that frame is either the one where the assignment stands or a frame
further out that binds the name already, and not to `nil` (`Delivers.here_or_owned`).
-/

set_option autoImplicit false

namespace BlockScript

namespace Assoc

variable {κ ν : Type} [DecidableEq κ]

theorem find_put (key other : κ) (value : ν) (entries : List (κ × ν)) :
    find other (put key value entries) =
      if other = key then some value else find other entries := by
  induction entries with
  | nil => simp only [put, find, eq_comm]
  | cons entry rest ih =>
      obtain ⟨k, v⟩ := entry
      by_cases here : k = key
      · subst here
        by_cases same : other = k
        · simp [put, find, same]
        · simp [put, find, same, Ne.symm same]
      · by_cases same : k = other
        · subst same
          simp [put, find, here]
        · simp [put, find, here, same, ih]

@[simp] theorem get?_insert (m : Assoc κ ν) (key other : κ) (value : ν) :
    (m.insert key value).get? other = if other = key then some value else m.get? other :=
  find_put key other value m.entries

@[simp] theorem get?_empty (key : κ) : (empty : Assoc κ ν).get? key = none := rfl

end Assoc

theorem FrameId.eq_iff_index {f g : FrameId} : f = g ↔ f.index = g.index := by
  cases f
  cases g
  simp

@[simp] theorem Value.isNil_iff {v : Value} : v.isNil = true ↔ v = .nil := by
  cases v <;> simp [Value.isNil]

namespace Store

/-- Whether the store has the frame. -/
def Has (s : Store) (f : FrameId) : Prop := f.index < s.frames.size

instance (s : Store) (f : FrameId) : Decidable (s.Has f) :=
  inferInstanceAs (Decidable (f.index < s.frames.size))

/-- The identity that the next frame will get. -/
def next (s : Store) : FrameId := ⟨s.frames.size⟩

theorem ne_next {s : Store} {f : FrameId} (has : s.Has f) : f ≠ s.next := by
  intro same
  rw [same] at has
  exact Nat.lt_irrefl _ has

/-- A frame that does not exist is blank. -/
theorem frame_of_not_has {s : Store} {f : FrameId} (missing : ¬ s.Has f) :
    s.frame f = .blank := by
  simp only [Has, Nat.not_lt] at missing
  simp [frame, Array.getD, Nat.not_lt.mpr missing]

theorem has_of_own? {s : Store} {f : FrameId} {name : String} {value : Value}
    (bound : s.own? f name = some value) : s.Has f := by
  by_contra missing
  simp [own?, frame_of_not_has missing, Frame.blank] at bound

theorem has_of_parent {s : Store} {f p : FrameId} (link : s.parent f = some p) : s.Has f := by
  by_contra missing
  simp [parent, frame_of_not_has missing, Frame.blank] at link

theorem owns_iff {s : Store} {f : FrameId} {name : String} :
    s.owns f name = true ↔ ∃ value, s.own? f name = some value := by
  simp only [owns, Assoc.contains, own?, Option.isSome_iff_exists]

/-! ## A new frame -/

@[simp] theorem add_fst (s : Store) (frame : Frame) : (s.add frame).1 = s.next := rfl

@[simp] theorem captured?_add (s : Store) (frame : Frame) (id : DefId) :
    (s.add frame).2.captured? id = s.captured? id := rfl

theorem has_add {s : Store} {frame : Frame} {f : FrameId} :
    (s.add frame).2.Has f ↔ s.Has f ∨ f = s.next := by
  simp only [Has, add, next, Array.size_push, FrameId.eq_iff_index]
  omega

theorem frame_add (s : Store) (frame : Frame) (f : FrameId) :
    (s.add frame).2.frame f = if f = s.next then frame else s.frame f := by
  by_cases new : f = s.next
  · simp [new, Store.frame, add, next, Array.getD]
  · have apart : f.index ≠ s.frames.size := fun same => new (FrameId.eq_iff_index.mpr same)
    rw [if_neg new]
    by_cases has : f.index < s.frames.size
    · have larger : f.index < s.frames.size + 1 := by omega
      simp [Store.frame, add, Array.getD, has, larger, Array.getElem_push_lt]
    · have larger : ¬ f.index < s.frames.size + 1 := by omega
      simp [Store.frame, add, Array.getD, has, larger]

theorem own?_add (s : Store) (frame : Frame) (f : FrameId) (name : String) :
    (s.add frame).2.own? f name =
      if f = s.next then frame.bindings.get? name else s.own? f name := by
  rw [own?, frame_add]
  split <;> rfl

theorem parent_add (s : Store) (frame : Frame) (f : FrameId) :
    (s.add frame).2.parent f = if f = s.next then frame.parent else s.parent f := by
  rw [parent, frame_add]
  split <;> rfl

/-! ## A binding -/

@[simp] theorem has_bind {s : Store} {target : FrameId} {name : String} {value : Value}
    {f : FrameId} : (s.bind target name value).Has f ↔ s.Has f := by
  simp [Has, bind]

@[simp] theorem captured?_bind (s : Store) (target : FrameId) (name : String) (value : Value)
    (id : DefId) : (s.bind target name value).captured? id = s.captured? id := rfl

theorem frame_bind_of_ne {s : Store} {target f : FrameId} {name : String} {value : Value}
    (apart : f ≠ target) : (s.bind target name value).frame f = s.frame f := by
  have apart' : target.index ≠ f.index := fun same => apart (FrameId.eq_iff_index.mpr same.symm)
  by_cases has : f.index < s.frames.size
  · simp [frame, bind, Array.getD, has, Array.getElem_modify_of_ne apart']
  · simp [frame, bind, Array.getD, has]

theorem frame_bind_self {s : Store} {target : FrameId} {name : String} {value : Value}
    (has : s.Has target) :
    (s.bind target name value).frame target =
      { s.frame target with bindings := (s.frame target).bindings.insert name value } := by
  have has' : target.index < s.frames.size := has
  simp [frame, bind, Array.getD, has', Array.getElem_modify_self]

theorem own?_bind {s : Store} {target : FrameId} (has : s.Has target) (name : String)
    (value : Value) (f : FrameId) (other : String) :
    (s.bind target name value).own? f other =
      if f = target ∧ other = name then some value else s.own? f other := by
  by_cases here : f = target
  · subst here
    rw [own?, frame_bind_self has, Assoc.get?_insert]
    simp [own?]
  · rw [own?, frame_bind_of_ne here, if_neg fun both => here both.1]
    rfl

@[simp] theorem parent_bind (s : Store) (target : FrameId) (name : String) (value : Value)
    (f : FrameId) : (s.bind target name value).parent f = s.parent f := by
  by_cases here : f = target
  · subst here
    by_cases has : s.Has f
    · rw [parent, frame_bind_self has]
      rfl
    · rw [parent, parent, frame_of_not_has has, frame_of_not_has (by simpa using has)]
  · rw [parent, frame_bind_of_ne here]
    rfl

theorem captured?_assign (s : Store) (f : FrameId) (name : String) (value : Value) (id : DefId) :
    (s.assign f name value).captured? id = s.captured? id := by
  rw [assign]
  induction s.frames.size generalizing f with
  | zero => rfl
  | succ steps ih =>
      rw [assignWithin]
      split
      · rfl
      · split
        · exact ih _
        · rfl

/-! ## A capture -/

theorem captured?_capture (s : Store) (d : Definition) (f : FrameId) (id : DefId) :
    (s.capture d f).2.captured? id = if id = d.id then some s.next else s.captured? id :=
  Assoc.get?_insert _ _ _ _

theorem has_capture {s : Store} {d : Definition} {f g : FrameId} :
    (s.capture d f).2.Has g ↔ s.Has g ∨ g = s.next := by
  have copied : (s.capture d f).2.Has g ↔
      ((s.snapshot f).2.bind s.next selfName (.block d s.next)).Has g := Iff.rfl
  rw [copied, has_bind]
  exact has_add

/-- The frames after a capture: the copy is new, and `this` is the block in it. -/
theorem frame_capture_of_ne {s : Store} {d : Definition} {f g : FrameId} (old : g ≠ s.next) :
    (s.capture d f).2.frame g = s.frame g := by
  have copied : (s.capture d f).2.frame g =
      ((s.snapshot f).2.bind s.next selfName (.block d s.next)).frame g := rfl
  rw [copied, frame_bind_of_ne old, snapshot, frame_add, if_neg old]

theorem own?_capture (s : Store) (d : Definition) (f g : FrameId) (name : String) :
    (s.capture d f).2.own? g name =
      if g = s.next then (if name = selfName then some (.block d s.next) else s.own? f name)
      else s.own? g name := by
  have made : (s.snapshot f).2.Has s.next := has_add.mpr (.inr rfl)
  have copied : (s.capture d f).2.own? g name =
      ((s.snapshot f).2.bind s.next selfName (.block d s.next)).own? g name := rfl
  rw [copied, own?_bind made, snapshot, own?_add]
  by_cases new : g = s.next
  · by_cases self : name = selfName
    · simp [new, self]
    · simp [new, self, own?]
  · simp [new]

theorem parent_capture (s : Store) (d : Definition) (f g : FrameId) :
    (s.capture d f).2.parent g = if g = s.next then s.parent f else s.parent g := by
  have copied : (s.capture d f).2.parent g =
      ((s.snapshot f).2.bind s.next selfName (.block d s.next)).parent g := rfl
  rw [copied, parent_bind, snapshot, parent_add]
  rfl

/-! ## Parent links -/

/-- Parent links lead from the frame `inner` to the frame `outer`, over one link at least. -/
def Encloses (s : Store) (outer inner : FrameId) : Prop :=
  Relation.TransGen (fun f p => s.parent f = some p) inner outer

/-- Every parent is older than its child. -/
def Forest (s : Store) : Prop := ∀ f p, s.parent f = some p → p.index < f.index

theorem Forest.older {s : Store} (forest : s.Forest) {outer inner : FrameId}
    (encloses : s.Encloses outer inner) : outer.index < inner.index := by
  induction encloses with
  | single link => exact forest _ _ link
  | tail _ link ih => exact Nat.lt_trans (forest _ _ link) ih

theorem Forest.not_encloses_self {s : Store} (forest : s.Forest) (f : FrameId) :
    ¬ s.Encloses f f :=
  fun cycle => Nat.lt_irrefl _ (forest.older cycle)

theorem Forest.has_parent {s : Store} (forest : s.Forest) {f p : FrameId}
    (link : s.parent f = some p) : s.Has p :=
  Nat.lt_trans (forest f p link) (has_of_parent link)

theorem Forest.add {s : Store} (forest : s.Forest) {frame : Frame}
    (older : ∀ p, frame.parent = some p → s.Has p) : (s.add frame).2.Forest := by
  intro f p link
  rw [parent_add] at link
  split at link
  · rename_i new
    subst new
    exact older p link
  · exact forest f p link

theorem Forest.bind {s : Store} (forest : s.Forest) (target : FrameId) (name : String)
    (value : Value) : (s.bind target name value).Forest := by
  intro f p link
  rw [parent_bind] at link
  exact forest f p link

theorem Forest.capture {s : Store} (forest : s.Forest) (d : Definition) (f : FrameId) :
    (s.capture d f).2.Forest := by
  intro g p link
  rw [parent_capture] at link
  split at link
  · rename_i new
    subst new
    exact forest.has_parent link
  · exact forest g p link

/-! ## Looking a name up, without a bound -/

/-- Looking a name up from a frame ends with a value: the frame binds the name itself, or the
search goes on in its parent, or there is no parent. -/
inductive Finds (s : Store) (name : String) : FrameId → Value → Prop where
  | own {f : FrameId} {value : Value} (bound : s.own? f name = some value) : Finds s name f value
  | outward {f p : FrameId} {value : Value} (unbound : s.own? f name = none)
      (link : s.parent f = some p) (found : Finds s name p value) : Finds s name f value
  | nowhere {f : FrameId} (unbound : s.own? f name = none) (root : s.parent f = none) :
      Finds s name f .nil

theorem Finds.unique {s : Store} {name : String} {f : FrameId} {v w : Value}
    (first : s.Finds name f v) (second : s.Finds name f w) : v = w := by
  induction first with
  | own bound =>
      cases second with
      | own bound' => exact Option.some.inj (bound.symm.trans bound')
      | outward unbound _ _ => simp [bound] at unbound
      | nowhere unbound _ => simp [bound] at unbound
  | outward unbound link _ ih =>
      cases second with
      | own bound => simp [unbound] at bound
      | outward _ link' found =>
          cases Option.some.inj (link.symm.trans link')
          exact ih found
      | nowhere _ root => simp [link] at root
  | nowhere unbound root =>
      cases second with
      | own bound => simp [unbound] at bound
      | outward _ link _ => simp [root] at link
      | nowhere _ _ => rfl

/-- What is found is `nil` or stands in some frame. -/
theorem Finds.stored {s : Store} {name : String} {f : FrameId} {v : Value}
    (found : s.Finds name f v) : v = .nil ∨ ∃ g, s.own? g name = some v := by
  induction found with
  | own bound => exact .inr ⟨_, bound⟩
  | outward _ _ _ ih => exact ih
  | nowhere _ _ => exact .inl rfl

/-- A frame that does not exist finds nothing. -/
theorem lookupWithin_of_not_has {s : Store} {f : FrameId} (missing : ¬ s.Has f) (name : String)
    (steps : Nat) : s.lookupWithin name steps f = .nil := by
  have own : s.own? f name = none := by simp [own?, frame_of_not_has missing, Frame.blank]
  have root : s.parent f = none := by simp [parent, frame_of_not_has missing, Frame.blank]
  cases steps with
  | zero => rfl
  | succ steps => simp only [lookupWithin, own, root]

theorem lookup_of_not_has {s : Store} {f : FrameId} (missing : ¬ s.Has f) (name : String) :
    s.lookup f name = .nil :=
  lookupWithin_of_not_has missing name _

theorem finds_of_not_has {s : Store} {f : FrameId} (missing : ¬ s.Has f) (name : String) :
    s.Finds name f .nil :=
  .nowhere (by simp [own?, frame_of_not_has missing, Frame.blank])
    (by simp [parent, frame_of_not_has missing, Frame.blank])

/-- A measure of frames goes down along parent links. -/
def Descends (s : Store) (measure : FrameId → Nat) : Prop :=
  ∀ f p, s.parent f = some p → s.Has p → measure p < measure f

theorem Forest.descends {s : Store} (forest : s.Forest) : s.Descends FrameId.index :=
  fun f p link _ => forest f p link

theorem finds_lookupWithin {s : Store} {measure : FrameId → Nat} (descends : s.Descends measure)
    (name : String) : ∀ {steps : Nat} {f : FrameId}, (s.Has f → measure f < steps) →
      s.Finds name f (s.lookupWithin name steps f)
  | 0, f, room => finds_of_not_has (fun has => Nat.not_lt_zero _ (room has)) name
  | steps + 1, f, room => by
      rw [lookupWithin]
      cases own : s.own? f name with
      | some value => exact .own own
      | none =>
          cases link : s.parent f with
          | some p =>
              have climbs (further : s.Has p) : measure p < steps := by
                have := descends f p link further
                have := room (has_of_parent link)
                omega
              exact .outward own link (finds_lookupWithin descends name climbs)
          | none => exact .nowhere own link

/-- **In a forest looking a name up is never cut short.** -/
theorem finds_lookup {s : Store} (forest : s.Forest) (f : FrameId) (name : String) :
    s.Finds name f (s.lookup f name) :=
  finds_lookupWithin forest.descends name fun has => has

/-! ## The target of an assignment -/

/-- An assignment to a name that stands in the first frame changes the second one: the frame
itself if it binds the name or if no frame outwards gives the name a value, and otherwise the
target seen from its parent. -/
inductive Delivers (s : Store) (name : String) : FrameId → FrameId → Prop where
  | owned {f : FrameId} {value : Value} (bound : s.own? f name = some value) :
      Delivers s name f f
  | fresh {f : FrameId} (nothing : s.Finds name f .nil) : Delivers s name f f
  | outward {f p target : FrameId} {value : Value} (unbound : s.own? f name = none)
      (found : s.Finds name f value) (something : value ≠ .nil) (link : s.parent f = some p)
      (delivers : Delivers s name p target) : Delivers s name f target

/-- A property of a frame that its parent shares is a property of the target. -/
theorem Delivers.climbs {s : Store} {name : String} {f target : FrameId}
    (delivers : s.Delivers name f target) {P : FrameId → Prop} (start : P f)
    (up : ∀ g p, P g → s.parent g = some p → P p) : P target := by
  induction delivers with
  | owned _ => exact start
  | fresh _ => exact start
  | outward _ _ _ link _ ih => exact ih (up _ _ start link)

/-- A value other than `nil` that is found for the name stands in the target. -/
theorem Delivers.owner {s : Store} {name : String} {f target : FrameId}
    (delivers : s.Delivers name f target) {value : Value} (found : s.Finds name f value)
    (something : value ≠ .nil) : s.own? target name = some value := by
  induction delivers with
  | owned bound => rw [found.unique (.own bound), bound]
  | fresh nothing => exact absurd (found.unique nothing) something
  | outward unbound _ _ link _ ih =>
      cases found with
      | own bound => simp [unbound] at bound
      | outward _ link' further =>
          cases Option.some.inj (link.symm.trans link')
          exact ih further
      | nowhere _ root => simp [link] at root

/-- The target is the frame of the assignment, or it binds the name already and not to
`nil`. -/
theorem Delivers.here_or_owned {s : Store} {name : String} {f target : FrameId}
    (delivers : s.Delivers name f target) :
    target = f ∨ ∃ value, s.own? target name = some value ∧ value ≠ .nil := by
  cases delivers with
  | owned _ => exact .inl rfl
  | fresh _ => exact .inl rfl
  | outward unbound found something link delivers =>
      have whole := Delivers.outward unbound found something link delivers
      exact .inr ⟨_, whole.owner found something, something⟩

theorem exists_delivers_within {s : Store} {measure : FrameId → Nat}
    (descends : s.Descends measure) {name : String}
    (finds : ∀ f, s.Finds name f (s.lookup f name)) :
    ∀ {steps : Nat} {f : FrameId}, (s.Has f → measure f < steps) →
      ∃ target, s.Delivers name f target ∧
        ∀ value, s.assignWithin name value steps f = s.bind target name value
  | 0, f, room => by
      have missing : ¬ s.Has f := fun has => Nat.not_lt_zero _ (room has)
      exact ⟨f, .fresh (finds_of_not_has missing name), fun _ => rfl⟩
  | steps + 1, f, room => by
      have found := finds f
      cases own : s.own? f name with
      | some value =>
          have owns : s.owns f name = true := owns_iff.mpr ⟨value, own⟩
          exact ⟨f, .owned own, fun _ => by simp [assignWithin, owns]⟩
      | none =>
          have owns : s.owns f name = false := by
            rw [Bool.eq_false_iff, Ne, owns_iff]
            simp [own]
          by_cases nothing : s.lookup f name = .nil
          · exact ⟨f, .fresh (nothing ▸ found), fun _ => by simp [assignWithin, nothing, Value.isNil]⟩
          · have something : (s.lookup f name).isNil = false := by
              rw [Bool.eq_false_iff, Ne, Value.isNil_iff]
              exact nothing
            cases link : s.parent f with
            | none => exact absurd (found.unique (.nowhere own link)) nothing
            | some p =>
                have climbs (further : s.Has p) : measure p < steps := by
                  have := descends f p link further
                  have := room (has_of_parent link)
                  omega
                obtain ⟨target, delivers, assigned⟩ := exists_delivers_within descends finds climbs
                refine ⟨target, .outward own found nothing link delivers, fun value => ?_⟩
                simp [assignWithin, owns, something, link, assigned]

/-- An assignment in a frame that does not exist goes no further. -/
theorem assignWithin_of_not_has {s : Store} {f : FrameId} (missing : ¬ s.Has f) (name : String)
    (value : Value) (steps : Nat) :
    s.assignWithin name value steps f = s.bind f name value := by
  have nothing : s.lookup f name = .nil := lookup_of_not_has missing name
  cases steps with
  | zero => rfl
  | succ steps => simp [assignWithin, nothing, Value.isNil]

/-- **In a forest an assignment binds the name in exactly one frame**, and finding that frame
is never cut short. -/
theorem exists_delivers {s : Store} (forest : s.Forest) (f : FrameId) (name : String) :
    ∃ target, s.Delivers name f target ∧
      ∀ value, s.assign f name value = s.bind target name value :=
  exists_delivers_within forest.descends (finds_lookup forest · name) fun has => has

theorem Forest.assign {s : Store} (forest : s.Forest) (f : FrameId) (name : String)
    (value : Value) : (s.assign f name value).Forest := by
  obtain ⟨target, _, assigned⟩ := exists_delivers forest f name
  rw [assigned]
  exact forest.bind target name value

end Store

end BlockScript
