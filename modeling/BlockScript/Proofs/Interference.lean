import BlockScript.Proofs.Composition
import BlockScript.Proofs.Visibility
import Mathlib.Data.List.Nodup

/-!
# Variables that a program does not mention

A program that is run among variables of its host takes from them only those that it mentions, and
leaves the others alone.  Two interpreters whose roots agree on the identifiers of a source run it
alike, whatever else the host has bound in them (`unmentioned_variables_do_not_interfere`).

The two stores agree in the sense of `Store.Agrees` all the way, because the host's values are not
blocks, so that every tree that is evaluated comes from the source.  That the bindings are also
printed alike needs one fact more: no frame has two entries under one name (`Store.Keyed`), so
what a frame prints is what it binds, in the order of the names.
-/

set_option autoImplicit false

namespace BlockScript

/-! ## Entries under one name -/

namespace Assoc

variable {κ ν : Type} [DecidableEq κ]

theorem keys_put (key : κ) (value : ν) (entries : List (κ × ν)) :
    (put key value entries).map Prod.fst =
      if key ∈ entries.map Prod.fst then entries.map Prod.fst
      else entries.map Prod.fst ++ [key] := by
  induction entries with
  | nil => simp [put]
  | cons entry rest ih =>
      obtain ⟨k, v⟩ := entry
      by_cases here : k = key
      · simp [put, here]
      · have other : key ≠ k := Ne.symm here
        rw [put, if_neg here, List.map_cons, ih]
        by_cases member : key ∈ rest.map Prod.fst
        · simp only [List.map_cons, List.mem_cons, member, or_true, if_true]
        · simp only [List.map_cons, List.mem_cons, other, member, or_self, if_false,
            List.cons_append]

/-- Inserting keeps the keys apart. -/
theorem nodup_keys_insert {m : Assoc κ ν} (nodup : m.keys.Nodup) (key : κ) (value : ν) :
    (m.insert key value).keys.Nodup := by
  rw [keys, insert, keys_put]
  split
  · exact nodup
  · rename_i absent
    refine List.nodup_append.mpr ⟨nodup, List.nodup_singleton key, fun k member l here same => ?_⟩
    rw [List.mem_singleton.mp here] at same
    exact absent (same ▸ member)

theorem find_eq_some_iff {entries : List (κ × ν)} (nodup : (entries.map Prod.fst).Nodup) {key : κ}
    {value : ν} : find key entries = some value ↔ (key, value) ∈ entries := by
  induction entries with
  | nil => simp [find]
  | cons entry rest ih =>
      obtain ⟨k, v⟩ := entry
      obtain ⟨absent, others⟩ := List.nodup_cons.mp nodup
      by_cases here : k = key
      · subst here
        have elsewhere : (k, value) ∉ rest := fun member =>
          absent (List.mem_map.mpr ⟨_, member, rfl⟩)
        simp [find, elsewhere, eq_comm]
      · have other : key ≠ k := Ne.symm here
        simp [find, here, other, ih others]

theorem get?_eq_some_iff {m : Assoc κ ν} (nodup : m.keys.Nodup) {key : κ} {value : ν} :
    m.get? key = some value ↔ (key, value) ∈ m.entries :=
  find_eq_some_iff nodup

end Assoc

/-- No frame has two entries under one name. -/
def Store.Keyed (s : Store) : Prop := ∀ f, (s.frame f).bindings.keys.Nodup

namespace Store.Keyed

variable {s : Store}

theorem add (keyed : s.Keyed) {frame : Frame} (own : frame.bindings.keys.Nodup) :
    (s.add frame).2.Keyed := by
  intro f
  rw [frame_add]
  split
  · exact own
  · exact keyed f

theorem bind (keyed : s.Keyed) (target : FrameId) (name : String) (v : Value) :
    (s.bind target name v).Keyed := by
  intro f
  by_cases has : s.Has target
  · by_cases here : f = target
    · subst here
      rw [frame_bind_self has]
      exact Assoc.nodup_keys_insert (keyed f) name v
    · rw [frame_bind_of_ne here]
      exact keyed f
  · rw [bind_of_not_has has]
    exact keyed f

theorem effect {c : Config} {t : Store} (keyed : c.store.Keyed) (effect : Effect c t) :
    t.Keyed := by
  cases effect with
  | none => exact keyed
  | loop => exact keyed.add List.nodup_nil
  | @capture d f _ =>
      have copied := (keyed.add (keyed f)).bind c.store.next selfName (.block d c.store.next)
      exact copied
  | call => exact keyed.add (keyed _)
  | bind => exact keyed.bind _ _ _
  | @assign name f _ v _ _ =>
      obtain ⟨target, assigned⟩ := c.store.assign_eq_bind f name
      rw [assigned]
      exact keyed.bind target name v

theorem steps {limit : Nat} {c c' : Config} (keyed : c.store.Keyed) (run : Steps limit c c') :
    c'.store.Keyed := by
  induction run with
  | refl => exact keyed
  | tail _ stepped ih => exact ih.effect (effect_of_step stepped)

theorem ends {limit : Nat} {n : Node DefId} {f : FrameId} {m m' : Machine}
    {r : Except EvalError Value} (keyed : m.store.Keyed) (ends : Ends limit n f m r m') :
    m'.store.Keyed :=
  steps (c := ⟨.node n f, [], m⟩) keyed (ends_iff_steps.mp ends)

end Store.Keyed

/-! ## Printed bindings -/

namespace Store

variable {s t : Store} {f : FrameId}

/-- What is printed for a frame is what it binds. -/
theorem mem_printedBindings (keyed : s.Keyed) {entry : String × String} :
    entry ∈ s.printedBindings f ↔ ∃ v, s.own? f entry.1 = some v ∧ v.text = entry.2 := by
  obtain ⟨name, text⟩ := entry
  rw [printedBindings, List.mem_mergeSort, List.mem_map]
  constructor
  · rintro ⟨⟨other, v⟩, member, same⟩
    cases same
    exact ⟨v, (Assoc.get?_eq_some_iff (keyed f)).mpr member, rfl⟩
  · rintro ⟨v, bound, printed⟩
    cases printed
    exact ⟨(name, v), (Assoc.get?_eq_some_iff (keyed f)).mp bound, rfl⟩

theorem nodup_printedBindings (keyed : s.Keyed) :
    ((s.printedBindings f).map Prod.fst).Nodup := by
  have permuted := (List.mergeSort_perm ((s.frame f).bindings.entries.map
    fun entry => (entry.1, entry.2.text)) fun a b => a.1 ≤ b.1).map Prod.fst
  refine permuted.nodup_iff.mpr ?_
  rw [List.map_map]
  exact keyed f

theorem sorted_printedBindings :
    (s.printedBindings f).Pairwise fun a b => a.1 ≤ b.1 := by
  refine (List.pairwise_mergeSort (fun a b c first second => ?_) (fun a b => ?_) _).imp
    fun le => of_decide_eq_true le
  · exact decide_eq_true (String.le_trans (of_decide_eq_true first) (of_decide_eq_true second))
  · simpa using String.le_total a.1 b.1

/-- **Frames that agree on some names print the same for them.** -/
theorem filter_printedBindings (keyed : s.Keyed) (keyed' : t.Keyed) {names : List String}
    (agree : ∀ name ∈ names, s.own? f name = t.own? f name) :
    (s.printedBindings f).filter (fun entry => entry.1 ∈ names) =
      (t.printedBindings f).filter fun entry => entry.1 ∈ names := by
  have apart := nodup_printedBindings (f := f) keyed
  have same : ((s.printedBindings f).filter fun entry => entry.1 ∈ names).Perm
      ((t.printedBindings f).filter fun entry => entry.1 ∈ names) := by
    refine (List.perm_ext_iff_of_nodup ((List.Nodup.of_map _ apart).filter _)
      ((List.Nodup.of_map _ (nodup_printedBindings keyed')).filter _)).mpr fun entry => ?_
    simp only [List.mem_filter, decide_eq_true_eq, mem_printedBindings keyed,
      mem_printedBindings keyed']
    refine and_congr_left fun named => ?_
    rw [agree entry.1 named]
  refine same.eq_of_pairwise (fun a b first second le ge => ?_)
    (sorted_printedBindings.filter _) (sorted_printedBindings.filter _)
  exact List.inj_on_of_nodup_map apart (List.mem_of_mem_filter first)
    (List.mem_of_mem_filter (same.mem_iff.mpr second)) (String.le_antisymm le ge)

end Store

/-! ## Interpreters with a host -/

namespace Interpreter

/-- A fresh interpreter whose host has bound some names in the root frame, one after another. -/
def given (limit : Nat) (bindings : List (String × Value)) : Interpreter :=
  bindings.foldl (fun i binding => i.bind i.root binding.1 binding.2) (fresh limit)

/-- The value that the root frame binds to a name. -/
def binding? (i : Interpreter) (name : String) : Option Value := i.store.own? i.root name

/-- An interpreter that has run nothing yet and in whose root frame no block is bound. -/
structure Untouched (limit : Nat) (i : Interpreter) : Prop where
  root : i.root = ⟨0⟩
  bounded : i.limit = limit
  unnumbered : i.nextDefinition = 0
  size : i.store.frames.size = 1
  captures : i.store.captures = .empty
  parent : ∀ f, i.store.parent f = none
  plain : ∀ f name v, i.store.own? f name = some v → v.Plain
  keyed : i.store.Keyed

theorem Untouched.fresh (limit : Nat) : (Interpreter.fresh limit).Untouched limit where
  root := rfl
  bounded := rfl
  unnumbered := rfl
  size := rfl
  captures := rfl
  parent f := by
    rw [Store.parent, Store.frame_fresh]
    rfl
  plain f name v bound := by
    rw [Store.own?, Store.frame_fresh] at bound
    cases bound
  keyed f := by
    rw [Store.frame_fresh]
    exact List.nodup_nil

theorem Untouched.bind {limit : Nat} {i : Interpreter} (untouched : i.Untouched limit)
    (name : String) {v : Value} (plain : v.Plain) :
    (i.bind i.root name v).Untouched limit where
  root := untouched.root
  bounded := untouched.bounded
  unnumbered := untouched.unnumbered
  size := (Array.size_modify ..).trans untouched.size
  captures := untouched.captures
  parent f := (Store.parent_bind _ _ _ _ f).trans (untouched.parent f)
  plain f other w bound := by
    rcases Store.eq_or_own?_of_bind bound with rfl | before
    · exact plain
    · exact untouched.plain f other w before
  keyed := untouched.keyed.bind _ _ _

theorem untouched_given (limit : Nat) {bindings : List (String × Value)}
    (plain : ∀ binding ∈ bindings, binding.2.Plain) :
    (given limit bindings).Untouched limit := by
  have keeps : ∀ i, Untouched limit i →
      Untouched limit (bindings.foldl (fun i binding => i.bind i.root binding.1 binding.2) i) := by
    induction bindings with
    | nil => exact fun i untouched => untouched
    | cons binding rest ih =>
        intro i untouched
        obtain ⟨first, others⟩ := List.forall_mem_cons.mp plain
        exact ih others _ (untouched.bind binding.1 first)
  exact keeps _ (.fresh limit)

namespace Untouched

variable {limit : Nat} {i i' : Interpreter}

theorem has_root (untouched : i.Untouched limit) : i.store.Has i.root := by
  rw [untouched.root, Store.Has, untouched.size]
  exact Nat.zero_lt_one

/-- Without blocks the store is made of no tree at all. -/
theorem madeOf (untouched : i.Untouched limit) (p : Node DefId → Prop) : i.store.MadeOf p :=
  fun f name d g bound => absurd rfl (untouched.plain f name _ bound d g)

/-- Roots that agree on some names make stores that agree on them. -/
theorem agrees (untouched : i.Untouched limit) (untouched' : i'.Untouched limit)
    {names : String → Prop} (agree : ∀ name, names name → i.binding? name = i'.binding? name) :
    i.store.Agrees names i'.store where
  size := untouched.size.trans untouched'.size.symm
  captures := untouched.captures.trans untouched'.captures.symm
  parent f := (untouched.parent f).trans (untouched'.parent f).symm
  own? f name named := by
    by_cases here : f = ⟨0⟩
    · have same := agree name named
      rw [binding?, binding?, untouched.root, untouched'.root, ← here] at same
      exact same
    · have missing : ∀ {j : Interpreter}, j.Untouched limit → ¬ j.store.Has f := by
        intro j untouched has
        rw [Store.Has, untouched.size, Nat.lt_one_iff] at has
        exact here (FrameId.eq_iff_index.mpr has)
      rw [Store.own?, Store.own?, Store.frame_of_not_has (missing untouched),
        Store.frame_of_not_has (missing untouched')]

end Untouched

end Interpreter

/-! ## Runs -/

/-- The identifiers that occur in a source.  What is not a program has none. -/
def identifiersOf (source : String) : List String :=
  match parse source with
  | .ok tree => tree.identifiers
  | .error _ => []

namespace Interpreter

variable {limit : Nat} {i i' j : Interpreter} {source : String} {r : Except Failure Value}

/-- The tree of a source keeps to names among which its identifiers are. -/
theorem every_keeps_of_parse {names : String → Prop}
    (mentioned : ∀ name ∈ identifiersOf source, names name) {tree : Node Unit}
    (parsed : parse source = .ok tree) (next : Nat) :
    (tree.number (fun _ => none) next).1.Every (Node.Keeps names) := by
  simp only [identifiersOf, parsed] at mentioned
  exact (Node.every_keeps tree mentioned).number_keeps next

/-- **A run ends alike where the roots agree on the identifiers**, and prints the same for them. -/
theorem RunEnds.of_agree (untouched : i.Untouched limit) (untouched' : i'.Untouched limit)
    {names : List String} (mentioned : ∀ name ∈ identifiersOf source, name ∈ names)
    (agree : ∀ name ∈ names, i.binding? name = i'.binding? name) (ends : i.RunEnds source r j) :
    ∃ j', i'.RunEnds source r j' ∧
      j.bindings.filter (fun entry => entry.1 ∈ names) =
        j'.bindings.filter fun entry => entry.1 ∈ names := by
  have roots : i.root = i'.root := untouched.root.trans untouched'.root.symm
  cases parsed : parse source with
  | error e =>
      obtain ⟨rfl, rfl⟩ := (runEnds_iff_of_error parsed).mp ends
      refine ⟨i', (runEnds_iff_of_error parsed).mpr ⟨rfl, rfl⟩, ?_⟩
      rw [bindings, bindings, ← roots]
      refine Store.filter_printedBindings untouched.keyed untouched'.keyed fun name named => ?_
      exact (untouched.agrees untouched' agree).own? _ name named
  | ok tree =>
      have limits : i.limit = i'.limit := untouched.bounded.trans untouched'.bounded.symm
      have numbers : i.nextDefinition = i'.nextDefinition :=
        untouched.unnumbered.trans untouched'.unnumbered.symm
      obtain ⟨outcome, m, evaluated, rfl, rfl⟩ := (runEnds_iff_ends parsed).mp ends
      have tree' := every_keeps_of_parse mentioned parsed i.nextDefinition
      obtain ⟨t, evaluated', agrees⟩ := evaluated.of_agrees (untouched.madeOf _) tree'
        (untouched.agrees untouched' agree)
      rw [limits, numbers, roots] at evaluated'
      refine ⟨_, (runEnds_iff_ends parsed).mpr ⟨outcome, _, evaluated', rfl, rfl⟩, ?_⟩
      rw [bindings, bindings, ← roots]
      exact Store.filter_printedBindings (untouched.keyed.ends evaluated)
        (untouched'.keyed.ends evaluated') (agrees.own? i.root)

/-- **A run leaves the variables alone that it does not mention.** -/
theorem RunEnds.binding?_of_unmentioned (untouched : i.Untouched limit)
    (ends : i.RunEnds source r j) {name : String} (hidden : name ∉ identifiersOf source) :
    j.binding? name = i.binding? name := by
  cases parsed : parse source with
  | error e =>
      obtain ⟨rfl, rfl⟩ := (runEnds_iff_of_error parsed).mp ends
      rfl
  | ok tree =>
      obtain ⟨outcome, m, evaluated, rfl, rfl⟩ := (runEnds_iff_ends parsed).mp ends
      have tree' := every_keeps_of_parse (fun _ member => member) parsed i.nextDefinition
      exact Steps.own?_of_hidden (untouched.madeOf _) tree' (ends_iff_steps.mp evaluated)
        untouched.has_root hidden

end Interpreter

/-- **Variables that a program does not mention do not interfere.**  Two fresh interpreters with
the same limit are given bindings to values that are not blocks, and the two roots agree on some
names, among them all the identifiers of a source.  Then running the source ends in both or in
neither, with the same value or the same error, and the same is printed for those names
afterwards.  A variable that the source does not mention is in each of them what it was. -/
theorem unmentioned_variables_do_not_interfere (limit : Nat) (source : String)
    (names : List String) (mentioned : ∀ name ∈ identifiersOf source, name ∈ names)
    (first second : List (String × Value)) (plain : ∀ binding ∈ first, binding.2.Plain)
    (plain' : ∀ binding ∈ second, binding.2.Plain)
    (agree : ∀ name ∈ names, (Interpreter.given limit first).binding? name =
      (Interpreter.given limit second).binding? name) :
    (∀ r, (∃ j, (Interpreter.given limit first).RunEnds source r j) ↔
      ∃ j', (Interpreter.given limit second).RunEnds source r j') ∧
    (∀ r r' j j', (Interpreter.given limit first).RunEnds source r j →
      (Interpreter.given limit second).RunEnds source r' j' →
      r = r' ∧ j.bindings.filter (fun entry => entry.1 ∈ names) =
        j'.bindings.filter fun entry => entry.1 ∈ names) ∧
    (∀ name, name ∉ identifiersOf source →
      (∀ r j, (Interpreter.given limit first).RunEnds source r j →
        j.binding? name = (Interpreter.given limit first).binding? name) ∧
      ∀ r j, (Interpreter.given limit second).RunEnds source r j →
        j.binding? name = (Interpreter.given limit second).binding? name) := by
  have untouched := Interpreter.untouched_given limit plain
  have untouched' := Interpreter.untouched_given limit plain'
  refine ⟨fun r => ⟨?_, ?_⟩, fun r r' j j' ends ends' => ?_, fun name hidden => ⟨?_, ?_⟩⟩
  · rintro ⟨j, ends⟩
    obtain ⟨j', ends', _⟩ := ends.of_agree untouched untouched' mentioned agree
    exact ⟨j', ends'⟩
  · rintro ⟨j', ends'⟩
    obtain ⟨j, ends, _⟩ := ends'.of_agree untouched' untouched mentioned fun name named =>
      (agree name named).symm
    exact ⟨j, ends⟩
  · obtain ⟨k, ends'', printed⟩ := ends.of_agree untouched untouched' mentioned agree
    obtain ⟨rfl, rfl⟩ := ends''.unique ends'
    exact ⟨rfl, printed⟩
  · exact fun r j ends => ends.binding?_of_unmentioned untouched hidden
  · exact fun r j ends => ends.binding?_of_unmentioned untouched' hidden

/-- A block that captures the whole root frame and a loop that calls it.  The two hosts bind `a`
alike, in different places among variables that the source does not mention, and one of those is
`this`. -/
theorem unmentioned_variables_do_not_interfere_counter :
    (∀ name ∈ identifiersOf "f={|n|a=a+n;a};for(k=1;k<3;k=k+1){a=f(k)};a",
      name ∈ ["a", "f", "k", "n"]) ∧
    ∃ r j j',
      (Interpreter.given 2 [("a", .int 5), ("z", .bool true)]).RunEnds
        "f={|n|a=a+n;a};for(k=1;k<3;k=k+1){a=f(k)};a" r j ∧
      (Interpreter.given 2 [("this", .int 0), ("z", .int 7), ("a", .int 5)]).RunEnds
        "f={|n|a=a+n;a};for(k=1;k<3;k=k+1){a=f(k)};a" r j' ∧
      j.bindings.filter (fun entry => entry.1 ∈ ["a", "f", "k", "n"]) =
        j'.bindings.filter (fun entry => entry.1 ∈ ["a", "f", "k", "n"]) ∧
      j.binding? "z" = some (.bool true) ∧ j'.binding? "z" = some (.int 7) := by
  have mentioned : ∀ name ∈ identifiersOf "f={|n|a=a+n;a};for(k=1;k<3;k=k+1){a=f(k)};a",
      name ∈ ["a", "f", "k", "n"] := by decide +kernel
  have hidden : "z" ∉ identifiersOf "f={|n|a=a+n;a};for(k=1;k<3;k=k+1){a=f(k)};a" :=
    fun member => absurd (mentioned "z" member) (by decide)
  have agree : ∀ name ∈ ["a", "f", "k", "n"],
      (Interpreter.given 2 [("a", .int 5), ("z", .bool true)]).binding? name =
        (Interpreter.given 2 [("this", .int 0), ("z", .int 7), ("a", .int 5)]).binding? name := by
    simp only [List.forall_mem_cons]
    exact ⟨rfl, rfl, rfl, rfl, fun _ mentioned => by cases mentioned⟩
  have ends : ((Interpreter.given 2 [("a", .int 5), ("z", .bool true)]).run 60
      "f={|n|a=a+n;a};for(k=1;k<3;k=k+1){a=f(k)};a").isSome = true := by decide +kernel
  obtain ⟨⟨r, j⟩, ran⟩ := Option.isSome_iff_exists.mp ends
  obtain ⟨same, printed, kept⟩ := unmentioned_variables_do_not_interfere 2
    "f={|n|a=a+n;a};for(k=1;k<3;k=k+1){a=f(k)};a" ["a", "f", "k", "n"] mentioned
    [("a", .int 5), ("z", .bool true)] [("this", .int 0), ("z", .int 7), ("a", .int 5)]
    (by simp [Value.Plain]) (by simp [Value.Plain]) agree
  obtain ⟨j', ran'⟩ := (same r).mp ⟨j, 60, ran⟩
  exact ⟨mentioned, r, j, j', ⟨60, ran⟩, ran', (printed r r j j' ⟨60, ran⟩ ran').2,
    (kept "z" hidden).1 r j ⟨60, ran⟩, (kept "z" hidden).2 r j' ran'⟩

end BlockScript
