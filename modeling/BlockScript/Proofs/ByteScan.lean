import BlockScript.Proofs.ErrorSpans
import Mathlib.Algebra.GroupWithZero.Nat

/-!
# The scan for depth, byte by byte

The scan for the depth of a text takes it character by character.  The same can be done by a loop
over the bytes of the text that knows nothing of characters.  A turn of it (`Nesting.turn`) looks
at the next byte, changes the levels, and goes on behind the byte, or behind the word if the byte
is a letter.  Only to see whether the word is `not` does it take a piece out of the text, and it
breaks if the piece does not start and end between characters.

It never breaks.  Between two characters a turn does what the scan does with an item
(`turn_of_item`).  A character of several bytes is passed one byte at a time, and no byte of it
does anything (`turn_of_wide`).  So the loop keeps abreast of the scan (`Walk.Abreast`) and ends
as the scan does, after no more turns than there are bytes.

On the way the levels add up (`Nesting.Counted`), in text that does not balance too.  It follows
that a subtraction is cut off at zero only where a bracket closes with none open.
-/

set_option autoImplicit false

namespace BlockScript

namespace Nesting

/-! ## The loop -/

/-- The bytes of a text, each as the character that has its code. -/
def bytes (source : String) : List Char := source.toUTF8.data.toList.map Char.ofUInt8

/-- The piece of a text between two byte offsets; nothing unless both are places between
characters, in this order. -/
def piece? (text : List Char) (span : Span) : Option (List Char) := do
  let front ← textFrom span.start text
  let behind ← textFrom span.stop text
  if span.start ≤ span.stop then some (front.take (front.length - behind.length)) else none

/-- Where the loop is: the levels, and the offset of the next byte. -/
structure Walk where
  levels : Nesting
  pos : Nat
  deriving DecidableEq, Repr

/-- What a turn of the loop comes to. -/
inductive Turn where
  /-- There is no byte left. -/
  | finishes
  | goesOn (next : Walk)
  | refuses (error : SourceError)
  /-- A piece was to be taken out of the text that starts or ends inside a character. -/
  | breaks
  deriving DecidableEq, Repr

/-- Go deeper with the item that ends at `stop`, unless that is too deep. -/
def Walk.deepen (limit : Nat) (effect : Effect) (stop : Nat) (w : Walk) : Turn :=
  let levels := apply effect w.levels
  if limit < levels.depth then .refuses ⟨.nesting levels.depth limit, ⟨w.pos, stop⟩⟩
  else .goesOn ⟨levels, stop⟩

/-- A turn of the loop. -/
def turn (limit : Nat) (source : String) (w : Walk) : Turn :=
  match (bytes source)[w.pos]? with
  | none => .finishes
  | some b =>
      let next := w.pos + 1
      if b = '(' || b = '{' then w.deepen limit .opens next
      else if b = ')' || b = '}' then .goesOn ⟨apply .closes w.levels, next⟩
      else if b = ';' then .goesOn ⟨apply .ends w.levels, next⟩
      else if b = '=' then
        if (bytes source)[next]? = some '=' || joinsEquals ((bytes source).take w.pos).getLast? then
          .goesOn ⟨w.levels, next⟩
        else w.deepen limit .awaits next
      else if isNameStart b then
        let stop := next + (((bytes source).drop next).takeWhile isNameChar).length
        match piece? source.toList ⟨w.pos, stop⟩ with
        | none => .breaks
        | some word =>
            if word = ['n', 'o', 't'] then w.deepen limit .awaits stop else .goesOn ⟨w.levels, stop⟩
      else .goesOn ⟨w.levels, next⟩

/-- What the loop comes to in so many turns, from the start of a text. -/
inductive Reached (limit : Nat) (source : String) : Nat → Walk → Prop where
  | start : Reached limit source 0 ⟨outside, 0⟩
  | turn {n : Nat} {w next : Walk} (before : Reached limit source n w)
      (goes : turn limit source w = .goesOn next) : Reached limit source (n + 1) next

/-! ## The bytes of a text -/

/-- The bytes of a character. -/
def bytesOf (x : Char) : List Char := (String.utf8EncodeChar x).map Char.ofUInt8

theorem bytes_eq (source : String) : bytes source = source.toList.flatMap bytesOf := by
  have encoded : source.toUTF8.data.toList = source.toList.flatMap String.utf8EncodeChar := by
    rw [String.toUTF8_eq_toByteArray, ← String.utf8Encode_toList]
    exact List.toList_data_toByteArray
  rw [bytes, encoded, List.map_flatMap]
  rfl

theorem length_bytesOf (x : Char) : (bytesOf x).length = x.utf8Size := by
  simp [bytesOf]

theorem length_flatMap_bytesOf (text : List Char) :
    (text.flatMap bytesOf).length = byteLength text := by
  induction text with
  | nil => rfl
  | cons x rest ih => simp [length_bytesOf, ih]

/-- An ASCII character is its own byte. -/
theorem bytesOf_of_ascii {x : Char} (ascii : x.val ≤ 127) : bytesOf x = [x] := by
  rw [bytesOf, String.utf8EncodeChar_eq_singleton (Char.utf8Size_eq_one_iff.mpr ascii)]
  have same : Char.ofUInt8 x.val.toUInt8 = x := by
    apply Char.ext
    apply UInt32.toNat_inj.mp
    have small : x.val.toNat ≤ 127 := ascii
    change x.val.toUInt8.toUInt32.toNat = x.val.toNat
    rw [UInt8.toNat_toUInt32, UInt32.toNat_toUInt8]
    omega
  rw [List.map_singleton, same]

/-- No byte of any other character is ASCII. -/
theorem not_ascii_of_mem_bytesOf {x b : Char} (wide : ¬x.val ≤ 127) (member : b ∈ bytesOf x) :
    ¬b.val ≤ 127 := by
  have masked (octet mask : UInt8) (high : 128 ≤ mask.toNat) :
      ¬(Char.ofUInt8 (octet ||| mask)).val ≤ 127 := by
    have least : mask.toNat ≤ (octet ||| mask).toNat := by
      rw [UInt8.toNat_or]
      exact Nat.right_le_or
    change ¬(octet ||| mask).toUInt32.toNat ≤ 127
    rw [UInt8.toNat_toUInt32]
    omega
  obtain ⟨octet, inside, rfl⟩ := List.mem_map.mp member
  rcases Char.utf8Size_eq x with one | two | three | four
  · exact absurd (Char.utf8Size_eq_one_iff.mp one) wide
  · rw [String.utf8EncodeChar_eq_cons_cons two] at inside
    simp only [List.mem_cons, List.not_mem_nil, or_false] at inside
    rcases inside with rfl | rfl <;> exact masked _ _ (by decide)
  · rw [String.utf8EncodeChar_eq_cons_cons_cons three] at inside
    simp only [List.mem_cons, List.not_mem_nil, or_false] at inside
    rcases inside with rfl | rfl | rfl <;> exact masked _ _ (by decide)
  · rw [String.utf8EncodeChar_eq_cons_cons_cons_cons four] at inside
    simp only [List.mem_cons, List.not_mem_nil, or_false] at inside
    rcases inside with rfl | rfl | rfl | rfl <;> exact masked _ _ (by decide)

theorem isInert_of_not_ascii {b : Char} (wide : ¬b.val ≤ 127) : isInert b = true := by
  have marks : ∀ y ∈ ['(', '{', ')', '}', ';', '='], b ≠ y := by
    rintro y member rfl
    exact wide (ascii_of_all (by decide) b member)
  have letter : isNameStart b = false := by
    rw [Bool.eq_false_iff]
    exact fun start => wide (ascii_of_isNameChar (isNameChar_of_isNameStart start))
  simp_all [isInert]

section Split

variable {source : String} {front rest : List Char}

theorem drop_bytes (split : source.toList = front ++ rest) :
    (bytes source).drop (byteLength front) = rest.flatMap bytesOf := by
  rw [bytes_eq, split, List.flatMap_append, ← length_flatMap_bytesOf, List.drop_left]

theorem take_bytes (split : source.toList = front ++ rest) :
    (bytes source).take (byteLength front) = front.flatMap bytesOf := by
  rw [bytes_eq, split, List.flatMap_append, ← length_flatMap_bytesOf, List.take_left]

/-- The bytes of the character behind a place. -/
theorem getElem?_bytes {x : Char} {i : Nat} (split : source.toList = front ++ x :: rest)
    (inside : i < x.utf8Size) : (bytes source)[byteLength front + i]? = (bytesOf x)[i]? := by
  rw [← List.getElem?_drop, drop_bytes split, List.flatMap_cons,
    List.getElem?_append_left (by rwa [length_bytesOf])]

end Split

theorem bytesOf_ne_nil (x : Char) : bytesOf x ≠ [] := by
  rw [bytesOf, ne_eq, List.map_eq_nil_iff]
  exact String.utf8EncodeChar_ne_nil

theorem mem_bytesOf_iff {x a : Char} (ascii : a.val ≤ 127) : a ∈ bytesOf x ↔ x = a := by
  by_cases single : x.val ≤ 127
  · rw [bytesOf_of_ascii single, List.mem_singleton, eq_comm]
  · constructor
    · intro member
      exact absurd ascii (not_ascii_of_mem_bytesOf single member)
    · rintro rfl
      exact absurd ascii single

theorem head?_flatMap_bytesOf {text : List Char} {a : Char} (ascii : a.val ≤ 127) :
    (text.flatMap bytesOf).head? = some a ↔ text.head? = some a := by
  cases text with
  | nil => rfl
  | cons x rest =>
      rw [List.flatMap_cons, List.head?_append_of_ne_nil _ (bytesOf_ne_nil x), List.head?_cons,
        Option.some.injEq]
      constructor
      · exact fun first => (mem_bytesOf_iff ascii).mp (List.mem_of_mem_head? first)
      · rintro rfl
        rw [bytesOf_of_ascii ascii, List.head?_cons]

theorem getLast?_flatMap_bytesOf {text : List Char} {a : Char} (ascii : a.val ≤ 127) :
    (text.flatMap bytesOf).getLast? = some a ↔ text.getLast? = some a := by
  cases text using List.reverseRecOn with
  | nil => rfl
  | append_singleton text x =>
      rw [List.flatMap_append, List.flatMap_singleton,
        List.getLast?_append_of_ne_nil _ (bytesOf_ne_nil x), List.getLast?_concat,
        Option.some.injEq]
      constructor
      · exact fun last => (mem_bytesOf_iff ascii).mp (List.mem_of_getLast? last)
      · rintro rfl
        rw [bytesOf_of_ascii ascii, List.getLast?_singleton]

theorem joinsEquals_flatMap_bytesOf (text : List Char) :
    joinsEquals (text.flatMap bytesOf).getLast? = joinsEquals text.getLast? := by
  have same (a : Char) (ascii : a.val ≤ 127) : decide ((text.flatMap bytesOf).getLast? = some a) =
      decide (text.getLast? = some a) :=
    decide_eq_decide.mpr (getLast?_flatMap_bytesOf ascii)
  simp only [joinsEquals, same '=' (by decide), same '!' (by decide), same '<' (by decide),
    same '>' (by decide)]

/-- The bytes that a name goes on with are the characters that it goes on with. -/
theorem takeWhile_flatMap_bytesOf (text : List Char) :
    (text.flatMap bytesOf).takeWhile isNameChar = text.takeWhile isNameChar := by
  induction text with
  | nil => rfl
  | cons x rest ih =>
      rw [List.flatMap_cons]
      by_cases single : x.val ≤ 127
      · rw [bytesOf_of_ascii single, List.singleton_append, List.takeWhile_cons, ih,
          List.takeWhile_cons]
      · have ends (b : Char) (wide : ¬b.val ≤ 127) : ¬isNameChar b = true :=
          fun more => wide (ascii_of_isNameChar more)
        obtain ⟨b, more, first⟩ := List.exists_cons_of_ne_nil (bytesOf_ne_nil x)
        have wide : ¬b.val ≤ 127 :=
          not_ascii_of_mem_bytesOf single (by rw [first]; exact List.mem_cons_self)
        rw [first, List.cons_append, List.takeWhile_cons_of_neg (ends b wide),
          List.takeWhile_cons_of_neg (ends x single)]

/-! ## A turn between two characters -/

theorem piece?_between (before inside behind : List Char) :
    piece? (before ++ (inside ++ behind))
      ⟨byteLength before, byteLength before + byteLength inside⟩ = some inside := by
  have further : textFrom (byteLength before + byteLength inside) (before ++ (inside ++ behind)) =
      some behind := by
    rw [← byteLength_append, ← List.append_assoc, textFrom_byteLength]
  simp [piece?, textFrom_byteLength, further]

theorem byteLength_word {x : Char} {rest : List Char} (letter : isNameStart x = true) :
    byteLength (x :: rest.takeWhile isNameChar) = 1 + (rest.takeWhile isNameChar).length := by
  have ascii : ∀ y ∈ x :: rest.takeWhile isNameChar, y.val ≤ 127 := by
    rintro y (_ | ⟨_, member⟩)
    · exact ascii_of_isNameChar (isNameChar_of_isNameStart letter)
    · exact ascii_of_isNameChar (List.mem_takeWhile_imp member)
  rw [byteLength_of_ascii ascii, List.length_cons, Nat.add_comm]

/-- A word that starts between two characters ends between two characters. -/
theorem piece?_word {text front rest : List Char} {x : Char} (split : text = front ++ x :: rest)
    (letter : isNameStart x = true) :
    piece? text ⟨byteLength front, byteLength front + 1 + (rest.takeWhile isNameChar).length⟩ =
      some (x :: rest.takeWhile isNameChar) := by
  have whole : text =
      front ++ (x :: rest.takeWhile isNameChar ++ rest.dropWhile isNameChar) := by
    rw [split, List.cons_append, List.takeWhile_append_dropWhile]
  rw [whole, Nat.add_assoc, ← byteLength_word letter, piece?_between]

theorem deepen_of_le {limit stop : Nat} {effect : Effect} {w : Walk}
    (low : (apply effect w.levels).depth ≤ limit) :
    w.deepen limit effect stop = .goesOn ⟨apply effect w.levels, stop⟩ :=
  if_neg (Nat.not_lt.mpr low)

/-- Between two characters a turn takes the item that the scan takes there. -/
theorem turn_of_item {limit : Nat} {source : String} {front rest tail : List Char} {x : Char}
    {s : Nesting} {effect : Effect} (split : source.toList = front ++ x :: rest)
    (ascii : x.val ≤ 127) (low : s.depth ≤ limit)
    (taken : item front.getLast? x rest = (effect, tail)) :
    turn limit source ⟨s, byteLength front⟩ =
      Walk.deepen limit effect (byteLength front + byteLength (x :: tail))
        ⟨s, byteLength front⟩ := by
  have single : byteLength [x] = 1 := byteLength_of_ascii (by simpa using ascii)
  have here : (bytes source)[byteLength front]? = some x := by
    have first := getElem?_bytes split (Char.utf8Size_pos x)
    rwa [bytesOf_of_ascii ascii] at first
  have behind : (bytes source).drop (byteLength front + 1) = rest.flatMap bytesOf := by
    have further : source.toList = (front ++ [x]) ++ rest := by simp [split]
    rw [← drop_bytes further, byteLength_append, single]
  have joined : (bytes source)[byteLength front + 1]? = some '=' ↔ rest.head? = some '=' := by
    rw [← head?_flatMap_bytesOf (by decide), ← behind, List.head?_drop]
  have before : joinsEquals ((bytes source).take (byteLength front)).getLast? =
      joinsEquals front.getLast? := by
    rw [take_bytes split, joinsEquals_flatMap_bytesOf]
  have word : ((bytes source).drop (byteLength front + 1)).takeWhile isNameChar =
      rest.takeWhile isNameChar := by
    rw [behind, takeWhile_flatMap_bytesOf]
  -- The cases are those of `item`, in its order.
  rw [turn, here]
  rw [item] at taken
  simp only [joined, before, word]
  by_cases opens : (x = '(' || x = '{') = true
  · rw [if_pos opens] at taken ⊢
    cases taken
    rw [single]
  rw [if_neg opens] at taken ⊢
  by_cases closes : (x = ')' || x = '}') = true
  · rw [if_pos closes] at taken ⊢
    cases taken
    rw [single, deepen_of_le (Nat.le_trans (Nat.sub_le _ _) low)]
  rw [if_neg closes] at taken ⊢
  by_cases ends : x = ';'
  · rw [if_pos ends] at taken ⊢
    cases taken
    rw [single, deepen_of_le (Nat.le_trans (Nat.sub_le _ _) low)]
  rw [if_neg ends] at taken ⊢
  by_cases equals : x = '='
  · rw [if_pos equals] at taken ⊢
    cases taken
    rw [single]
    split
    · rw [deepen_of_le low]
      rfl
    · rfl
  rw [if_neg equals] at taken ⊢
  by_cases letter : isNameStart x = true
  · rw [if_pos letter] at taken ⊢
    cases taken
    rw [byteLength_word letter, ← Nat.add_assoc, piece?_word split letter]
    simp only
    split
    · rfl
    · rw [deepen_of_le low]
      rfl
  rw [if_neg letter] at taken ⊢
  cases taken
  rw [single, deepen_of_le low]
  rfl

/-! ## A turn inside a character -/

theorem turn_of_inert {limit : Nat} {source : String} {w : Walk} {b : Char}
    (here : (bytes source)[w.pos]? = some b) (inert : isInert b = true) :
    turn limit source w = .goesOn ⟨w.levels, w.pos + 1⟩ := by
  simp only [isInert, Bool.not_eq_true', Bool.or_eq_false_iff, decide_eq_false_iff_not] at inert
  obtain ⟨⟨⟨⟨⟨⟨h₁, h₂⟩, h₃⟩, h₄⟩, h₅⟩, h₆⟩, h₇⟩ := inert
  rw [turn, here]
  simp [h₁, h₂, h₃, h₄, h₅, h₆, h₇]

/-- No byte of a character that is not ASCII does anything. -/
theorem exists_inert_of_wide {source : String} {front rest : List Char} {x : Char} {i : Nat}
    (split : source.toList = front ++ x :: rest) (wide : ¬x.val ≤ 127) (inside : i < x.utf8Size) :
    ∃ b, (bytes source)[byteLength front + i]? = some b ∧ isInert b = true := by
  have present : i < (bytesOf x).length := by rwa [length_bytesOf]
  rw [getElem?_bytes split inside, List.getElem?_eq_getElem present]
  exact ⟨_, rfl, isInert_of_not_ascii (not_ascii_of_mem_bytesOf wide (List.getElem_mem present))⟩

theorem turn_of_wide {limit : Nat} {source : String} {front rest : List Char} {x : Char} {i : Nat}
    (split : source.toList = front ++ x :: rest) (wide : ¬x.val ≤ 127) (inside : i < x.utf8Size)
    (s : Nesting) : turn limit source ⟨s, byteLength front + i⟩ =
      .goesOn ⟨s, byteLength front + i + 1⟩ := by
  obtain ⟨b, here, inert⟩ := exists_inert_of_wide split wide inside
  exact turn_of_inert here inert

/-! ## The loop and the scan -/

/-- The loop is abreast of the scan: the scan comes to the same from where the loop is or, if
that is inside a character, from the place behind the character. -/
def Walk.Abreast (limit : Nat) (source : String) (w : Walk) : Prop :=
  ∃ front rest fuel, source.toList = front ++ rest ∧ rest.length ≤ fuel ∧
    scan limit fuel w.levels front.getLast? rest (byteLength front) =
      check limit source.toList ∧
    (w.pos = byteLength front ∨ ∃ init x, front = init ++ [x] ∧ ¬x.val ≤ 127 ∧
      byteLength init < w.pos ∧ w.pos < byteLength front)

section Item

variable {limit fuel : Nat} {s : Nesting} {x : Char} {front rest tail : List Char}
  {effect : Effect}

/-- The scan is refused at an item that goes too deep. -/
theorem scan_of_deep {before : Option Char} (pos : Nat)
    (taken : item before x rest = (effect, tail)) (deep : limit < (apply effect s).depth) :
    scan limit (fuel + 1) s before (x :: rest) pos =
      .error ⟨.nesting (apply effect s).depth limit, ⟨pos, pos + byteLength (x :: tail)⟩⟩ := by
  rw [scan, taken]
  exact if_pos deep

/-- The scan goes on behind any other item. -/
theorem scan_of_low (taken : item front.getLast? x rest = (effect, tail))
    (low : (apply effect s).depth ≤ limit) :
    scan limit (fuel + 1) s front.getLast? (x :: rest) (byteLength front) =
      scan limit fuel (apply effect s) (front ++ x :: tail).getLast? (rest.drop tail.length)
        (byteLength (front ++ x :: tail)) := by
  rw [scan, taken, List.getLast?_append_of_ne_nil _ (List.cons_ne_nil x tail), byteLength_append]
  exact if_neg (Nat.not_lt.mpr low)

end Item

theorem abreast_start (limit : Nat) (source : String) :
    Walk.Abreast limit source ⟨outside, 0⟩ :=
  ⟨[], source.toList, _, rfl, Nat.le_refl _, rfl, .inl rfl⟩

/-- The next turn goes on: it has one of the effects of the scan, goes no deeper than the limit,
moves ahead, and keeps abreast. -/
def Walk.Advances (limit : Nat) (source : String) (w : Walk) : Prop :=
  ∃ effect next, turn limit source w = .goesOn next ∧ next.levels = apply effect w.levels ∧
    next.levels.depth ≤ limit ∧ w.pos < next.pos ∧ next.Abreast limit source

section Advance

variable {limit fuel : Nat} {source : String} {s : Nesting} {x : Char} {rest : List Char}

/-- The loop advances at each byte of a character that is not ASCII, if the scan comes to the same
from behind the character. -/
theorem advances_of_wide {init : List Char} {i : Nat}
    (split : source.toList = init ++ [x] ++ rest) (enough : rest.length ≤ fuel)
    (resumes : scan limit fuel s (init ++ [x]).getLast? rest (byteLength (init ++ [x])) =
      check limit source.toList)
    (wide : ¬x.val ≤ 127) (inside : i < x.utf8Size) (low : s.depth ≤ limit) :
    Walk.Advances limit source ⟨s, byteLength init + i⟩ := by
  have whole : source.toList = init ++ x :: rest := by rw [split, List.append_assoc]; rfl
  have size : byteLength (init ++ [x]) = byteLength init + x.utf8Size := byteLength_append init [x]
  refine ⟨.plain, _, turn_of_wide whole wide inside s, rfl, low, Nat.lt_succ_self _,
    init ++ [x], rest, fuel, split, enough, resumes, ?_⟩
  simp only
  by_cases last : i + 1 = x.utf8Size
  · left
    omega
  · right
    exact ⟨init, x, rfl, wide, by omega, by omega⟩

/-- The loop advances at an item that does not go too deep. -/
theorem advances_of_item {front tail : List Char} {effect : Effect}
    (split : source.toList = front ++ x :: rest) (enough : rest.length ≤ fuel)
    (resumes : scan limit (fuel + 1) s front.getLast? (x :: rest) (byteLength front) =
      check limit source.toList)
    (ascii : x.val ≤ 127) (low : s.depth ≤ limit)
    (taken : item front.getLast? x rest = (effect, tail))
    (low' : (apply effect s).depth ≤ limit) :
    Walk.Advances limit source ⟨s, byteLength front⟩ := by
  obtain ⟨behind, whole⟩ := prefix_item front.getLast? x rest
  rw [taken] at whole
  simp only at whole
  subst whole
  rw [scan_of_low taken low', List.drop_left] at resumes
  refine ⟨effect, _, (turn_of_item split ascii low taken).trans (deepen_of_le low'), rfl, low', ?_,
    front ++ x :: tail, behind, fuel, ?_, ?_, resumes, .inl ?_⟩
  · have size := Char.utf8Size_pos x
    simp only [byteLength_cons]
    omega
  · rw [split, List.append_assoc, List.cons_append]
  · rw [List.length_append] at enough
    omega
  · rw [byteLength_append]

end Advance

/-- **What a turn comes to.**  It ends the loop as the scan ends, or the loop advances. -/
theorem turn_cases {limit : Nat} {source : String} {w : Walk} (abreast : w.Abreast limit source)
    (low : w.levels.depth ≤ limit) :
    (turn limit source w = .finishes ∧ check limit source.toList = .ok ()) ∨
    (∃ e, turn limit source w = .refuses e ∧ check limit source.toList = .error e) ∨
    w.Advances limit source := by
  obtain ⟨s, pos⟩ := w
  obtain ⟨front, rest, fuel, split, enough, resumes, place⟩ := abreast
  simp only at low resumes place
  rcases place with rfl | ⟨init, x, rfl, wide, after, inside⟩
  · cases rest with
    | nil =>
        left
        have done : (bytes source)[byteLength front]? = none := by
          rw [List.getElem?_eq_none_iff, bytes_eq, length_flatMap_bytesOf, split, List.append_nil]
        constructor
        · rw [turn, done]
        · rw [← resumes]
          cases fuel <;> rfl
    | cons x rest =>
        right
        obtain ⟨fuel, rfl⟩ := Nat.exists_eq_add_one_of_ne_zero (Nat.ne_zero_of_lt enough)
        have enough : rest.length ≤ fuel := Nat.le_of_succ_le_succ enough
        by_cases ascii : x.val ≤ 127
        · rcases taken : item front.getLast? x rest with ⟨effect, tail⟩
          by_cases deep : limit < (apply effect s).depth
          · left
            refine ⟨_, (turn_of_item split ascii low taken).trans (if_pos deep), ?_⟩
            rw [← resumes, scan_of_deep _ taken deep]
          · right
            exact advances_of_item split enough resumes ascii low taken (Nat.le_of_not_lt deep)
        · right
          have taken := item_of_inert front.getLast? rest (isInert_of_not_ascii ascii)
          have stays : (apply .plain s).depth ≤ limit := low
          rw [scan_of_low taken stays] at resumes
          exact advances_of_wide (by rw [split, List.append_assoc]; rfl) enough resumes ascii
            (Char.utf8Size_pos x) low
  · -- Some bytes of `x` are passed already.
    right; right
    obtain ⟨i, rfl⟩ := Nat.exists_eq_add_of_le (Nat.le_of_lt after)
    rw [byteLength_append] at inside
    exact advances_of_wide split enough resumes wide (Nat.lt_of_add_lt_add_left inside) low

/-! ## The levels add up -/

/-- The depth is made up of the pending levels, a level for each open bracket, and the levels
pending around the brackets. -/
def Counted (s : Nesting) : Prop := s.depth = s.pending + s.enclosing.length + s.enclosing.sum

/-- More is subtracted from the depth than there is. -/
def CutsOff : Effect → Nesting → Prop
  | .closes, s => s.depth < s.pending + 1
  | .ends, s => s.depth < s.pending
  | _, _ => False

section Count

variable {s : Nesting}

/-- No effect loses count, whether or not there is something for it to close. -/
theorem counted_apply (counted : s.Counted) (effect : Effect) : (apply effect s).Counted := by
  obtain ⟨depth, pending, enclosing⟩ := s
  simp only [Counted] at counted
  cases effect with
  | closes =>
      cases enclosing with
      | nil => simp [Counted, apply, counted]
      | cons outer enclosing =>
          simp only [List.length_cons, List.sum_cons] at counted
          simp only [Counted, apply, List.headD_cons, List.tail_cons]
          omega
  | opens =>
      simp only [Counted, apply, List.length_cons, List.sum_cons]
      omega
  | ends | awaits =>
      simp only [Counted, apply]
      omega
  | plain => exact counted

/-- More is subtracted than there is exactly where a bracket closes with none open. -/
theorem cutsOff_iff (counted : s.Counted) (effect : Effect) :
    CutsOff effect s ↔ effect = .closes ∧ s.enclosing = [] := by
  rw [Counted] at counted
  cases effect with
  | closes =>
      cases brackets : s.enclosing with
      | nil =>
          simp only [brackets, List.length_nil, List.sum_nil] at counted
          simp [CutsOff, counted]
      | cons outer enclosing =>
          simp only [brackets, List.length_cons] at counted
          simp only [CutsOff, reduceCtorEq, and_false, iff_false]
          omega
  | ends =>
      simp only [CutsOff, reduceCtorEq, false_and, iff_false]
      omega
  | opens | awaits | plain => simp [CutsOff]

theorem apply_of_cutsOff (counted : s.Counted) {effect : Effect} (cut : CutsOff effect s) :
    apply effect s = outside := by
  obtain ⟨rfl, unopened⟩ := (cutsOff_iff counted effect).mp cut
  rw [Counted, unopened] at counted
  simp [apply, unopened, counted, outside]

end Count

/-! ## Every run of the loop -/

/-- What holds after every turn. -/
structure Sound (limit : Nat) (source : String) (n : Nat) (w : Walk) : Prop where
  counted : w.levels.Counted
  low : w.levels.depth ≤ limit
  abreast : w.Abreast limit source
  turns : n ≤ w.pos

/-- The loop ends after so many turns, with an outcome; a turn that refuses counts. -/
inductive LoopEnds (limit : Nat) (source : String) : Nat → Except SourceError Unit → Prop where
  | finishes {n : Nat} {w : Walk} (reached : Reached limit source n w)
      (done : turn limit source w = .finishes) : LoopEnds limit source n (.ok ())
  | refuses {n : Nat} {w : Walk} {e : SourceError} (reached : Reached limit source n w)
      (refused : turn limit source w = .refuses e) : LoopEnds limit source (n + 1) (.error e)

section Run

variable {limit n : Nat} {source : String} {w : Walk}

theorem Walk.Abreast.pos_le (abreast : w.Abreast limit source) :
    w.pos ≤ (bytes source).length := by
  obtain ⟨front, rest, _, split, _, _, place⟩ := abreast
  rw [bytes_eq, length_flatMap_bytesOf, split, byteLength_append]
  rcases place with here | ⟨_, _, _, _, _, inside⟩ <;> omega

/-- There is a byte at every place but the end. -/
theorem pos_lt_of_turn (goes : turn limit source w ≠ .finishes) :
    w.pos < (bytes source).length := by
  by_contra past
  apply goes
  rw [turn, List.getElem?_eq_none (Nat.le_of_not_lt past)]

theorem Reached.sound (reached : Reached limit source n w) : Sound limit source n w := by
  induction reached with
  | start => exact ⟨rfl, Nat.zero_le _, abreast_start limit source, Nat.le_refl 0⟩
  | turn before goes ih =>
      rcases turn_cases ih.abreast ih.low with
        ⟨done, -⟩ | ⟨e, refused, -⟩ | ⟨effect, next, goes', changed, low, ahead, abreast⟩
      · cases goes.symm.trans done
      · cases goes.symm.trans refused
      · cases goes.symm.trans goes'
        have counted := counted_apply ih.counted effect
        exact ⟨changed ▸ counted, low, abreast, Nat.lt_of_le_of_lt ih.turns ahead⟩

theorem Sound.turn_ne_breaks (sound : Sound limit source n w) : turn limit source w ≠ .breaks := by
  intro broken
  rcases turn_cases sound.abreast sound.low with
    ⟨done, -⟩ | ⟨e, refused, -⟩ | ⟨effect, next, goes, -⟩
  · cases broken.symm.trans done
  · cases broken.symm.trans refused
  · cases broken.symm.trans goes

/-- From wherever it is, the loop ends as the scan does. -/
theorem Reached.ends (reached : Reached limit source n w) :
    ∃ m ≤ (bytes source).length, LoopEnds limit source m (check limit source.toList) := by
  -- Each turn that goes on leaves fewer bytes.
  induction left : (bytes source).length - w.pos using Nat.strong_induction_on
    generalizing n w with
  | h k ih =>
      have sound := reached.sound
      have inText := sound.abreast.pos_le
      rcases turn_cases sound.abreast sound.low with
        ⟨done, checked⟩ | ⟨e, refused, checked⟩ | ⟨_, next, goes, _, _, ahead, abreast⟩
      · rw [checked]
        exact ⟨n, Nat.le_trans sound.turns inText, .finishes reached done⟩
      · rw [checked]
        have inside := pos_lt_of_turn (by rw [refused]; simp)
        exact ⟨n + 1, Nat.lt_of_le_of_lt sound.turns inside, .refuses reached refused⟩
      · have inText' := abreast.pos_le
        exact ih _ (by omega) (reached.turn goes) rfl

/-! ## The invariant -/

/-- An offset between two characters of a text, or at one of its ends. -/
def Between (source : String) (pos : Nat) : Prop :=
  ∃ front behind, source.toList = front ++ behind ∧ pos = byteLength front

/-- An offset inside a character that the loop passes byte by byte: none of its bytes starts a
word, and a turn at any of them does nothing. -/
def Skipped (limit : Nat) (source : String) (pos : Nat) : Prop :=
  ∃ front x behind, source.toList = front ++ x :: behind ∧
    byteLength front < pos ∧ pos < byteLength front + x.utf8Size ∧
    ∀ i < x.utf8Size, ∃ b, (bytes source)[byteLength front + i]? = some b ∧
      isNameStart b = false ∧
      ∀ s, turn limit source ⟨s, byteLength front + i⟩ = .goesOn ⟨s, byteLength front + i + 1⟩

theorem Walk.Abreast.place (abreast : w.Abreast limit source) :
    Between source w.pos ∨ Skipped limit source w.pos := by
  obtain ⟨front, rest, _, split, _, _, here | ⟨init, x, rfl, wide, after, inside⟩⟩ := abreast
  · exact .inl ⟨front, rest, split, here⟩
  · have whole : source.toList = init ++ x :: rest := by simp [split]
    rw [byteLength_append] at inside
    refine .inr ⟨init, x, rest, whole, after, inside, fun i member => ?_⟩
    obtain ⟨b, here, inert⟩ := exists_inert_of_wide whole wide member
    rw [isInert, Bool.not_eq_true', Bool.or_eq_false_iff] at inert
    exact ⟨b, here, inert.2, turn_of_wide whole wide member⟩

end Run

end Nesting

open Nesting

/-- **The loop over the bytes of a text keeps count of the levels and never breaks.**  After every
turn, in any text and within any limit, the depth is what the levels add up to and is not above the
limit; the place is between characters or inside a character that is passed without a word being
taken out of it; the scan comes to the same from there; a subtraction is cut off only where a
bracket closes with none open, and then nothing is left open; the next turn does not break; and
there were no more turns than bytes passed.  The loop ends, after at most one turn for each byte,
and comes to what the scan comes to. -/
theorem nesting_loop_invariant (limit : Nat) (source : String) :
    (∀ n w, Reached limit source n w →
      w.levels.depth =
        w.levels.pending + w.levels.enclosing.length + w.levels.enclosing.sum ∧
      w.levels.depth ≤ limit ∧
      (Between source w.pos ∨ Skipped limit source w.pos) ∧
      w.Abreast limit source ∧
      (∀ effect, CutsOff effect w.levels ↔ effect = .closes ∧ w.levels.enclosing = []) ∧
      (∀ effect, CutsOff effect w.levels → apply effect w.levels = outside) ∧
      turn limit source w ≠ .breaks ∧
      n ≤ w.pos ∧ w.pos ≤ (bytes source).length) ∧
    ∃ n ≤ (bytes source).length, LoopEnds limit source n (check limit source.toList) := by
  constructor
  · intro n w reached
    have sound := reached.sound
    exact ⟨sound.counted, sound.low, sound.abreast.place, sound.abreast,
      cutsOff_iff sound.counted, fun _ => apply_of_cutsOff sound.counted, sound.turn_ne_breaks,
      sound.turns, sound.abreast.pos_le⟩
  · exact Reached.start.ends

/-- Three turns into a text that does not balance: a `not` is pending, the loop is between the two
bytes of a character, and the bracket behind that closes with none open. -/
theorem nesting_loop_invariant_strayBracket :
    Reached 1 "not é)" 3 ⟨⟨1, 1, []⟩, 5⟩ ∧ ¬Between "not é)" 5 ∧
      Skipped 1 "not é)" 5 ∧ CutsOff .closes ⟨1, 1, []⟩ ∧ apply .closes ⟨1, 1, []⟩ = outside ∧
      turn 1 "not é)" ⟨⟨1, 1, []⟩, 5⟩ = .goesOn ⟨⟨1, 1, []⟩, 6⟩ := by
  have first : turn 1 "not é)" ⟨outside, 0⟩ = .goesOn ⟨⟨1, 1, []⟩, 3⟩ := by decide +kernel
  have second : turn 1 "not é)" ⟨⟨1, 1, []⟩, 3⟩ = .goesOn ⟨⟨1, 1, []⟩, 4⟩ := by decide +kernel
  have third : turn 1 "not é)" ⟨⟨1, 1, []⟩, 4⟩ = .goesOn ⟨⟨1, 1, []⟩, 5⟩ := by decide +kernel
  have reached := ((Reached.start.turn first).turn second).turn third
  obtain ⟨-, -, place, -, cuts, left, -⟩ := (nesting_loop_invariant 1 "not é)").1 _ _ reached
  have cut : CutsOff .closes ⟨1, 1, []⟩ := (cuts .closes).mpr ⟨rfl, rfl⟩
  have inside : ¬Between "not é)" 5 := by
    rintro ⟨front, behind, split, here⟩
    have found := textFrom_byteLength front behind
    have missing : textFrom 5 "not é)".toList = none := by decide +kernel
    rw [← split, ← here, missing] at found
    cases found
  exact ⟨reached, inside, place.resolve_left inside, cut, left .closes cut, by decide +kernel⟩

end BlockScript
