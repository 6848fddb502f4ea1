import BlockScript.Run.Assoc
import BlockScript.Run.Value

/-!
# Frames of variables

Variables live in frames.  A frame has bindings of its own and, except for a root frame, a
parent in which names are looked up that it does not bind itself.  Frames are created and
changed but never removed, so a frame's identity is its number in the order of creation.

An assignment changes the nearest binding on the way outwards.  A name that is bound to
`nil` there counts as unbound, and an unbound name is bound in the frame where the
assignment stands.

The store also remembers for each block literal which frame it captured last.
-/

set_option autoImplicit false

namespace BlockScript

/-- A frame of variables. -/
structure Frame where
  bindings : Assoc String Value
  parent : Option FrameId

/-- A frame without bindings and without a parent. -/
def Frame.blank : Frame := ⟨.empty, none⟩

/-- All frames, and the frame that each block literal captured last. -/
structure Store where
  frames : Array Frame
  captures : Assoc DefId FrameId

namespace Store

/-- The store without frames. -/
def empty : Store := ⟨#[], .empty⟩

/-- A frame of the store.  An identity that was never given out stands for a blank frame. -/
def frame (s : Store) (f : FrameId) : Frame := s.frames.getD f.index .blank

/-- The parent of a frame. -/
def parent (s : Store) (f : FrameId) : Option FrameId := (s.frame f).parent

/-- The value that a frame binds itself to a name. -/
def own? (s : Store) (f : FrameId) (name : String) : Option Value :=
  (s.frame f).bindings.get? name

/-- Whether a frame binds a name itself. -/
def owns (s : Store) (f : FrameId) (name : String) : Bool :=
  (s.frame f).bindings.contains name

/-! ## Growing -/

/-- Add a frame. -/
def add (s : Store) (frame : Frame) : FrameId × Store :=
  (⟨s.frames.size⟩, { s with frames := s.frames.push frame })

/-- Add a frame without bindings below `parent`. -/
def newFrame (s : Store) (parent : Option FrameId) : FrameId × Store :=
  s.add ⟨.empty, parent⟩

/-- Add a frame with the same bindings and the same parent as `f`. -/
def snapshot (s : Store) (f : FrameId) : FrameId × Store := s.add (s.frame f)

/-- Bind a name in the frame itself. -/
def bind (s : Store) (f : FrameId) (name : String) (value : Value) : Store :=
  { s with
    frames := s.frames.modify f.index fun frame =>
      { frame with bindings := frame.bindings.insert name value } }

/-! ## Names -/

/-- Look a name up in a frame and at most `steps - 1` frames further outwards. -/
def lookupWithin (s : Store) (name : String) : (steps : Nat) → FrameId → Value
  | 0, _ => .nil
  | steps + 1, f =>
      match s.own? f name with
      | some value => value
      | none =>
          match s.parent f with
          | some p => lookupWithin s name steps p
          | none => .nil

/-- The value of a name, looked up outwards; `nil` if no frame binds it. -/
def lookup (s : Store) (f : FrameId) (name : String) : Value :=
  s.lookupWithin name s.frames.size f

/-- Assign to a name, going at most `steps` frames outwards. -/
def assignWithin (s : Store) (name : String) (value : Value) : (steps : Nat) → FrameId → Store
  | 0, f => s.bind f name value
  | steps + 1, f =>
      if s.owns f name || (s.lookup f name).isNil then s.bind f name value
      else
        match s.parent f with
        | some p => assignWithin s name value steps p
        | none => s.bind f name value

/-- Assign a value to a name as seen from a frame. -/
def assign (s : Store) (f : FrameId) (name : String) (value : Value) : Store :=
  s.assignWithin name value s.frames.size f

/-! ## Captures -/

/-- The name under which a block finds itself in its captured frame. -/
def selfName : String := "this"

/-- The frame that a block literal captured last. -/
def captured? (s : Store) (id : DefId) : Option FrameId := s.captures.get? id

/-- Evaluate a block literal in a frame: a copy of the frame, in which `this` is the block,
becomes the captured frame. -/
def capture (s : Store) (definition : Definition) (f : FrameId) : Value × Store :=
  let (copy, s) := s.snapshot f
  let block := Value.block definition copy
  let s := s.bind copy selfName block
  (block, { s with captures := s.captures.insert definition.id copy })

/-- The frame that a call of a block starts from: the frame that its literal captured last,
or else its own. -/
def callFrame (s : Store) (definition : Definition) (own : FrameId) : FrameId :=
  (s.captured? definition.id).getD own

/-! ## Texts -/

/-- The bindings of a frame as names and printed values, in the order of the names. -/
def printedBindings (s : Store) (f : FrameId) : List (String × String) :=
  let texts := (s.frame f).bindings.entries.map fun (name, value) => (name, value.text)
  texts.mergeSort fun a b => a.1 ≤ b.1

/-- The debug text of a frame. -/
def debug (s : Store) (f : FrameId) : String :=
  let names := (s.printedBindings f).map fun (name, _) => Doc.text name
  (Doc.record "Scope"
    [.field "bindings" (.list names), .field "has_parent" (.truth (s.parent f).isSome)]).compact

end Store

end BlockScript
