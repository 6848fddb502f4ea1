import BlockScript.Grammar.Fault

/-!
# The depth of a source text

Before a text is read it is scanned once for its depth, and a text that goes deeper than the
limit is refused whether or not it is a program.  An opening bracket goes one level deeper
until its closing bracket.  A `not` and the `=` of an assignment go one level deeper until
the next `;` or the closing bracket around them.

The scan takes one item of the text at a time (`Nesting.item`): a bracket, a `;`, a `=`, a
whole word, or any other single character.  It is not troubled by text that does not
balance: a closing bracket with nothing open leaves the depth at zero.
-/

set_option autoImplicit false

namespace BlockScript

/-- How deep the scan is. -/
structure Nesting where
  /-- The number of open levels. -/
  depth : Nat
  /-- The levels that the next `;` closes. -/
  pending : Nat
  /-- The pending levels around each open bracket, the innermost bracket first. -/
  enclosing : List Nat
  deriving DecidableEq, Repr

namespace Nesting

/-- Outside everything. -/
def outside : Nesting := ⟨0, 0, []⟩

/-- What an item of the text does to the depth. -/
inductive Effect where
  | opens
  | closes
  /-- Ends a statement. -/
  | ends
  /-- Goes deeper until the statement ends. -/
  | awaits
  | plain
  deriving DecidableEq, Repr

/-- The depth after an item. -/
def apply : Effect → Nesting → Nesting
  | .opens, s => ⟨s.depth + 1, 0, s.pending :: s.enclosing⟩
  | .closes, s => ⟨s.depth - (s.pending + 1), s.enclosing.headD 0, s.enclosing.tail⟩
  | .ends, s => ⟨s.depth - s.pending, 0, s.enclosing⟩
  | .awaits, s => ⟨s.depth + 1, s.pending + 1, s.enclosing⟩
  | .plain, s => s

/-- Whether a `=` after this character belongs to a comparison. -/
def joinsEquals (before : Option Char) : Bool :=
  before = some '=' || before = some '!' || before = some '<' || before = some '>'

/-- The effect of the item that starts with `x`, and the characters of the item after `x`.
`before` is the character before the item and `rest` the text after `x`. -/
def item (before : Option Char) (x : Char) (rest : List Char) : Effect × List Char :=
  if x = '(' || x = '{' then (.opens, [])
  else if x = ')' || x = '}' then (.closes, [])
  else if x = ';' then (.ends, [])
  else if x = '=' then
    (if rest.head? = some '=' || joinsEquals before then .plain else .awaits, [])
  else if isNameStart x then
    let tail := rest.takeWhile isNameChar
    (if x :: tail = ['n', 'o', 't'] then .awaits else .plain, tail)
  else (.plain, [])

/-- The number of bytes that characters take. -/
def byteLength (text : List Char) : Nat := text.foldr (fun c n => c.utf8Size + n) 0

/-- Scan a text from byte offset `pos` on, with at most `fuel` items. -/
def scan (limit : Nat) : (fuel : Nat) → Nesting → Option Char → List Char → Nat →
    Except SourceError Unit
  | 0, _, _, _, _ => .ok ()
  | _ + 1, _, _, [], _ => .ok ()
  | fuel + 1, s, before, x :: rest, pos =>
      let (effect, tail) := item before x rest
      let s' := apply effect s
      let stop := pos + byteLength (x :: tail)
      if limit < s'.depth then .error ⟨.nesting s'.depth limit, ⟨pos, stop⟩⟩
      else scan limit fuel s' ((x :: tail).getLast?) (rest.drop tail.length) stop

/-- Refuse a text that goes deeper than `limit`.  There is at most one item per character. -/
def check (limit : Nat) (text : List Char) : Except SourceError Unit :=
  scan limit text.length outside none text 0

end Nesting

end BlockScript
