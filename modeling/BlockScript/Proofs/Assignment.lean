import BlockScript.Proofs.FrameLaw
import Mathlib.Data.Finset.Card

/-!
# The target of an assignment

An assignment to a name climbs from the frame where it stands and asks at every frame anew what
the name is bound to.  All that comes of it is one binding in one frame.  The search for a name
comes to a frame if the frame lies on the chain of parent links and no frame before it owns the
name (`Store.Sees`); the first owner of the name is the frame that the search comes to and that
owns it.  The target is the first owner, unless that is a frame further out in which the name is
`nil`: then, and if there is no owner, the target is the frame where the assignment stands
(`Store.IsTarget`).

Afterwards the name has its new value for every frame from which the search for it comes to the
target, and nothing else has changed (`assignment_has_one_target`).

All this holds wherever parent links do not run in a circle.  How many frames enclose a frame is
then a measure that goes down along parent links (`Store.Acyclic.descends`), so the bounds on
looking up and on assigning are not met.
-/

set_option autoImplicit false

namespace BlockScript

namespace Store

/-! ## Chains that end -/

/-- Parent links do not run in a circle. -/
def Acyclic (s : Store) : Prop := ∀ f, ¬ s.Encloses f f

open Classical in
/-- How many frames of the store enclose a frame. -/
noncomputable def height (s : Store) (f : FrameId) : Nat :=
  ((Finset.range s.frames.size).filter fun i => s.Encloses ⟨i⟩ f).card

theorem Acyclic.descends {s : Store} (acyclic : s.Acyclic) : s.Descends s.height := by
  classical
  intro f p link has
  refine Finset.card_lt_card ((Finset.ssubset_iff_of_subset ?_).mpr ⟨p.index, ?_, ?_⟩)
  · intro i member
    obtain ⟨old, encloses⟩ := Finset.mem_filter.mp member
    exact Finset.mem_filter.mpr ⟨old, .head link encloses⟩
  · exact Finset.mem_filter.mpr ⟨Finset.mem_range.mpr has, .single link⟩
  · exact fun member => acyclic p (Finset.mem_filter.mp member).2

theorem Acyclic.height_lt {s : Store} (acyclic : s.Acyclic) {f : FrameId} (has : s.Has f) :
    s.height f < s.frames.size := by
  classical
  have fewer : (Finset.range s.frames.size).filter (fun i => s.Encloses ⟨i⟩ f) ⊂
      Finset.range s.frames.size := by
    refine (Finset.ssubset_iff_of_subset (Finset.filter_subset _ _)).mpr ⟨f.index, ?_, ?_⟩
    · exact Finset.mem_range.mpr has
    · exact fun member => acyclic f (Finset.mem_filter.mp member).2
  exact (Finset.card_lt_card fewer).trans_eq (Finset.card_range _)

theorem Acyclic.finds_lookup {s : Store} (acyclic : s.Acyclic) (f : FrameId) (name : String) :
    s.Finds name f (s.lookup f name) :=
  finds_lookupWithin acyclic.descends name acyclic.height_lt

theorem Acyclic.exists_delivers {s : Store} (acyclic : s.Acyclic) (f : FrameId) (name : String) :
    ∃ target, s.Delivers name f target ∧
      ∀ value, s.assign f name value = s.bind target name value :=
  exists_delivers_within acyclic.descends (acyclic.finds_lookup · name) acyclic.height_lt

theorem Acyclic.bind {s : Store} (acyclic : s.Acyclic) (target : FrameId) (name : String)
    (value : Value) : (s.bind target name value).Acyclic := by
  simpa only [Acyclic, Encloses, parent_bind] using acyclic

/-! ## The search for a name -/

/-- The second frame lies on the chain of parent links that starts at the first one, and no
frame before it owns the name. -/
inductive Sees (s : Store) (name : String) : FrameId → FrameId → Prop where
  | here (f : FrameId) : Sees s name f f
  | outward {f p g : FrameId} (unbound : s.own? f name = none) (link : s.parent f = some p)
      (further : Sees s name p g) : Sees s name f g

section Search

variable {s : Store} {name : String} {f g : FrameId} {value : Value}

/-- What the first owner binds the name to is what is found. -/
theorem Sees.finds (sees : s.Sees name f g) (bound : s.own? g name = some value) :
    s.Finds name f value := by
  induction sees with
  | here f => exact .own bound
  | outward unbound link _ ih => exact .outward unbound link (ih bound)

/-- There is at most one first owner. -/
theorem Sees.owner_unique {h : FrameId} {other : Value} (sees : s.Sees name f g)
    (bound : s.own? g name = some value) (sees' : s.Sees name f h)
    (bound' : s.own? h name = some other) : h = g := by
  induction sees with
  | here f =>
      cases sees' with
      | here => rfl
      | outward unbound _ _ => simp [bound] at unbound
  | outward unbound link _ ih =>
      cases sees' with
      | here => simp [unbound] at bound'
      | outward _ link' further =>
          cases Option.some.inj (link.symm.trans link')
          exact ih bound further

/-- What an assignment changes is a frame that the search for the name comes to. -/
theorem Delivers.sees {target : FrameId} (delivers : s.Delivers name f target) :
    s.Sees name f target := by
  induction delivers with
  | owned _ => exact .here _
  | fresh _ => exact .here _
  | outward unbound _ _ link _ ih => exact .outward unbound link ih

/-! ## The target -/

/-- The frame that an assignment to a name changes: the first owner of the name, if that is the
frame of the assignment or does not bind the name to `nil`, and otherwise the frame of the
assignment. -/
def IsTarget (s : Store) (name : String) (f target : FrameId) : Prop :=
  (∃ value, s.Sees name f target ∧ s.own? target name = some value ∧
    (target = f ∨ value ≠ .nil)) ∨
  (target = f ∧ ∀ owner value, s.Sees name f owner → s.own? owner name = some value →
    owner ≠ f ∧ value = .nil)

theorem IsTarget.unique {target other : FrameId} (first : s.IsTarget name f target)
    (second : s.IsTarget name f other) : other = target := by
  rcases first with ⟨v, sees, bound, kept⟩ | ⟨rfl, nowhere⟩
  · rcases second with ⟨w, sees', bound', _⟩ | ⟨rfl, nowhere⟩
    · exact sees.owner_unique bound sees' bound'
    · obtain ⟨apart, isNil⟩ := nowhere target v sees bound
      exact absurd kept (by simp [apart, isNil])
  · rcases second with ⟨w, sees', bound', kept⟩ | ⟨rfl, _⟩
    · obtain ⟨apart, isNil⟩ := nowhere other w sees' bound'
      exact absurd kept (by simp [apart, isNil])
    · rfl

/-- The frame that an assignment changes is its target. -/
theorem Delivers.isTarget {target : FrameId} (delivers : s.Delivers name f target) :
    s.IsTarget name f target := by
  have sees := delivers.sees
  cases delivers with
  | owned bound => exact .inl ⟨_, .here f, bound, .inl rfl⟩
  | fresh nothing =>
      cases own : s.own? f name with
      | some value => exact .inl ⟨value, .here f, own, .inl rfl⟩
      | none =>
          refine .inr ⟨rfl, fun owner value sees bound => ⟨?_, ?_⟩⟩
          · rintro rfl
            simp [own] at bound
          · exact (sees.finds bound).unique nothing
  | outward unbound found something link delivers =>
      have whole := Delivers.outward unbound found something link delivers
      exact .inl ⟨_, sees, whole.owner found something, .inr something⟩

/-- The target is a frame of the store. -/
theorem IsTarget.has {target : FrameId} (isTarget : s.IsTarget name f target) (has : s.Has f) :
    s.Has target := by
  rcases isTarget with ⟨_, _, bound, _⟩ | ⟨rfl, _⟩
  · exact has_of_own? bound
  · exact has

/-! ## Looking up behind a binding -/

variable {target : FrameId}

theorem Sees.finds_bind (sees : s.Sees name g target) (has : s.Has target) (value : Value) :
    (s.bind target name value).Finds name g value := by
  induction sees with
  | here g => exact .own (by simp [own?_bind has])
  | @outward g p target unbound link _ ih =>
      by_cases same : g = target
      · exact .own (by simp [own?_bind has, same])
      · refine .outward ?_ (by rwa [parent_bind]) (ih has)
        rw [own?_bind has, if_neg fun both => same both.1]
        exact unbound

/-- A name that is not the one bound, or from where the search does not come to the frame in
which it is bound, is found as before. -/
theorem Finds.bind {other : String} {found : Value} (finds : s.Finds other g found)
    (has : s.Has target) (hidden : ¬ (other = name ∧ s.Sees name g target)) (value : Value) :
    (s.bind target name value).Finds other g found := by
  -- A frame that the search passes is not the one in which the name is bound.
  have own {g : FrameId} (hidden : ¬ (other = name ∧ s.Sees name g target)) :
      (s.bind target name value).own? g other = s.own? g other := by
    rw [own?_bind has, if_neg]
    rintro ⟨rfl, rfl⟩
    exact hidden ⟨rfl, .here g⟩
  induction finds with
  | own bound => exact .own (by rw [own hidden, bound])
  | outward unbound link _ ih =>
      refine .outward (by rw [own hidden, unbound]) (by rwa [parent_bind]) (ih ?_)
      rintro ⟨rfl, sees⟩
      exact hidden ⟨rfl, .outward unbound link sees⟩
  | nowhere unbound root => exact .nowhere (by rw [own hidden, unbound]) (by rwa [parent_bind])

end Search

end Store

/-- **An assignment has exactly one target and is read back.**  Wherever parent links do not run
in a circle, an assignment in a frame of the store binds the name to the value in its target and
leaves all other bindings of all frames as they are.  Where it stands, the name then has the
value; it also has it for every other frame from which the search for the name comes to the
target; and whatever else is looked up anywhere is found as before. -/
theorem assignment_has_one_target {s : Store} (acyclic : s.Acyclic) {f : FrameId}
    (scope : s.Has f) (name : String) (value : Value) :
    ∃ target, s.IsTarget name f target ∧ (∀ other, s.IsTarget name f other → other = target) ∧
      (s.assign f name value).own? target name = some value ∧
      (∀ g other, ¬ (g = target ∧ other = name) →
        (s.assign f name value).own? g other = s.own? g other) ∧
      (∀ g, ((s.assign f name value).Has g ↔ s.Has g) ∧
        (s.assign f name value).parent g = s.parent g) ∧
      (s.assign f name value).lookup f name = value ∧
      ∀ g other,
        (other = name ∧ s.Sees name g target → (s.assign f name value).lookup g other = value) ∧
        (¬ (other = name ∧ s.Sees name g target) →
          (s.assign f name value).lookup g other = s.lookup g other) := by
  obtain ⟨target, delivers, assigned⟩ := acyclic.exists_delivers f name
  have isTarget := delivers.isTarget
  have has := isTarget.has scope
  have looks := (acyclic.bind target name value).finds_lookup
  have seen (g : FrameId) (sees : s.Sees name g target) :
      (s.bind target name value).lookup g name = value :=
    (looks g name).unique (sees.finds_bind has value)
  rw [assigned]
  refine ⟨target, isTarget, fun other => isTarget.unique, ?_, ?_, ?_, seen f delivers.sees, ?_⟩
  · simp [Store.own?_bind has]
  · intro g other apart
    rw [Store.own?_bind has, if_neg apart]
  · exact fun g => ⟨Store.has_bind, Store.parent_bind _ _ _ _ _⟩
  · intro g other
    constructor
    · rintro ⟨rfl, sees⟩
      exact seen g sees
    · intro hidden
      exact (looks g other).unique ((acyclic.finds_lookup g other).bind has hidden value)

/-- A root frame with a value for `x`, a frame below it in which `x` is `nil`, a frame below that
one, and another frame right below the root. -/
def hiddenValue : Store :=
  let root := (Interpreter.fresh 0).store.bind ⟨0⟩ "x" (.int 5)
  let inner := (root.newFrame (some ⟨0⟩)).2.bind ⟨1⟩ "x" .nil
  ((inner.newFrame (some ⟨1⟩)).2.newFrame (some ⟨0⟩)).2

theorem acyclic_hiddenValue : hiddenValue.Acyclic := by
  have reached : hiddenValue.Reached := by
    refine .newFrame (.newFrame (.bind (.newFrame (.bind (.fresh 0) _ _ _) ?_) _ _ _) ?_) ?_ <;>
      (rintro p ⟨⟩; decide)
  exact reached.forest.not_encloses_self

/-- The owner of `x` for the innermost frame of `hiddenValue` binds it to `nil`, so an assignment
there stays there.  The name is read back, the `nil` stays, and the frame on the other branch
still finds the value of the root frame. -/
theorem assignment_has_one_target_hiddenValue :
    hiddenValue.Acyclic ∧ hiddenValue.Has ⟨2⟩ ∧ hiddenValue.IsTarget "x" ⟨2⟩ ⟨2⟩ ∧
      (hiddenValue.assign ⟨2⟩ "x" (.int 7)).own? ⟨2⟩ "x" = some (.int 7) ∧
      (hiddenValue.assign ⟨2⟩ "x" (.int 7)).own? ⟨1⟩ "x" = some .nil ∧
      (hiddenValue.assign ⟨2⟩ "x" (.int 7)).lookup ⟨2⟩ "x" = .int 7 ∧
      (hiddenValue.assign ⟨2⟩ "x" (.int 7)).lookup ⟨3⟩ "x" = .int 5 := by
  have scope : hiddenValue.Has ⟨2⟩ := by decide
  have here : hiddenValue.IsTarget "x" ⟨2⟩ ⟨2⟩ := by
    refine .inr ⟨rfl, fun owner value sees bound => ?_⟩
    cases sees with
    | here => cases bound
    | outward _ link further =>
        cases link
        cases further with
        | here => exact ⟨by decide, by cases bound; rfl⟩
        | outward unbound _ _ => cases unbound
  obtain ⟨target, -, unique, bound, others, -, back, looks⟩ :=
    assignment_has_one_target acyclic_hiddenValue scope "x" (.int 7)
  obtain rfl := unique ⟨2⟩ here
  refine ⟨acyclic_hiddenValue, scope, here, bound, others ⟨1⟩ "x" (by decide), back, ?_⟩
  refine (looks ⟨3⟩ "x").2 ?_
  rintro ⟨-, sees⟩
  cases sees with
  | outward _ link further =>
      cases link
      cases further with
      | outward unbound _ _ => cases unbound

end BlockScript
