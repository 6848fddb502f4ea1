import BlockScript.Proofs.Stepping
import BlockScript.Run.Interpreter

/-!
# Sessions

An interpreter reads source texts and runs the trees that it has read, one after another and each
as often as one likes.  A session is an interpreter between two runs or in the course of one, so
that the states a run passes through are states of the session, also of a run that stops with an
error or never ends.  The limit of active calls may be another one for each run.

What an interpreter does with a tree or with a source is a session that goes from rest to rest
(`Session.later_of_evaluateTree`, `Session.later_of_run`).
-/

set_option autoImplicit false

namespace BlockScript

/-- An interpreter at rest, or in the course of a run, and the trees that it has read. -/
inductive Session where
  | idle (i : Interpreter) (programs : List (Node DefId))
  | running (i : Interpreter) (programs : List (Node DefId)) (c : Config)

namespace Session

/-- The store as it is now. -/
def store : Session → Store
  | idle i _ => i.store
  | running _ _ c => c.store

/-- The interpreter.  In the course of a run its own store is that before the run. -/
def interpreter : Session → Interpreter
  | idle i _ => i
  | running i _ _ => i

/-- A session with an interpreter that has done nothing yet. -/
def fresh (limit : Nat) : Session := idle (.fresh limit) []

/-- What can happen next in a session. -/
inductive Next : Session → Session → Prop where
  | limit (i : Interpreter) (programs : List (Node DefId)) (limit : Nat) :
      Next (idle i programs) (idle { i with limit } programs)
  | read {i : Interpreter} {programs : List (Node DefId)} {source : String} {tree : Node Unit}
      (parsed : parse source = .ok tree) :
      Next (idle i programs)
        (idle (i.adopt (fun _ => none) tree).2 ((i.adopt (fun _ => none) tree).1 :: programs))
  | start {i : Interpreter} {programs : List (Node DefId)} {node : Node DefId}
      (member : node ∈ programs) :
      Next (idle i programs) (running i programs ⟨.node node i.root, [], ⟨i.store, 0⟩⟩)
  | step {i : Interpreter} {programs : List (Node DefId)} {c c' : Config}
      (stepped : step i.limit c = some c') : Next (running i programs c) (running i programs c')
  | finish (i : Interpreter) (programs : List (Node DefId)) (outcome : Except EvalError Value)
      (m : Machine) :
      Next (running i programs ⟨.give outcome, [], m⟩) (idle { i with store := m.store } programs)

/-- The states that a session can come to. -/
abbrev Later : Session → Session → Prop := Relation.ReflTransGen Next

/-- The states that a fresh session can come to. -/
def Reachable (σ : Session) : Prop := ∃ limit, Later (fresh limit) σ

theorem Reachable.later {σ σ' : Session} (reachable : σ.Reachable) (later : Later σ σ') :
    σ'.Reachable := by
  obtain ⟨limit, before⟩ := reachable
  exact ⟨limit, before.trans later⟩

theorem later_of_steps {i : Interpreter} {c c' : Config} (steps : Steps i.limit c c')
    (programs : List (Node DefId)) : Later (running i programs c) (running i programs c') := by
  induction steps with
  | refl => exact .refl
  | tail _ stepped ih => exact ih.tail (.step stepped)

/-- A run of a tree that has been read takes a session from rest to rest. -/
theorem later_of_evaluateTree {i j : Interpreter} {budget : Nat} {node : Node DefId}
    {r : Except Failure Value} {programs : List (Node DefId)} (member : node ∈ programs)
    (gives : i.evaluateTree budget node = some (r, j)) :
    Later (idle i programs) (idle j programs) := by
  simp only [Interpreter.evaluateTree, Interpreter.evaluateIn] at gives
  cases outcome : evaluate i.limit budget node i.root ⟨i.store, 0⟩ with
  | none => simp [outcome] at gives
  | some result =>
      obtain ⟨r', m⟩ := result
      simp only [outcome] at gives
      cases gives
      have steps := ends_iff_steps.mp ⟨budget, outcome⟩
      exact .head (.start member) ((later_of_steps steps programs).tail (.finish i programs r' m))

/-- **A run of a source takes a session from rest to rest.** -/
theorem later_of_run {i j : Interpreter} {budget : Nat} {source : String}
    {r : Except Failure Value} (gives : i.run budget source = some (r, j))
    (programs : List (Node DefId)) : ∃ programs', Later (idle i programs) (idle j programs') := by
  rw [Interpreter.run] at gives
  cases parsed : parse source with
  | error e =>
      simp only [parsed] at gives
      cases gives
      exact ⟨programs, .refl⟩
  | ok tree =>
      simp only [parsed] at gives
      exact ⟨_, .head (.read parsed) (later_of_evaluateTree (List.mem_cons_self ..) gives)⟩

end Session

end BlockScript
