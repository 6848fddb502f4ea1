import BlockScript.Highlight.Paint
import BlockScript.Proofs.Tokens.Cut

/-!
# The colours of a line lose nothing

The tokens of a line and the white space around them make up the line (`Covers`): a text that starts
at an offset is white space, a token that is not empty, and so on up to white space at its end.
Everything about the places of tokens follows from this by induction along the tokens: they are not
empty, follow one another, start and stop between two characters, and leave out nothing but white
space.

The segments that a line is shown in can be had in two ways, from the pieces that the line is cut
into (`paint`) and from the places of its tokens alone (`segmentsFrom`).  Both are the same
(`paint_eq_segmentsFrom`), because white space is cut into pieces that are as long as they can be.
-/

set_option autoImplicit false

namespace BlockScript

open Nesting Piece

/-! ## Tokens and the white space between them -/

/-- Tokens and the white space around them make up a text that starts at an offset. -/
inductive Covers : Nat → List Token → List Char → Prop where
  | blank {pos : Nat} {gap : List Char} (white : ∀ x ∈ gap, isSpace x = true) : Covers pos [] gap
  | token {pos : Nat} {gap word rest : List Char} {kind : Option TokenKind} {more : List Token}
      (white : ∀ x ∈ gap, isSpace x = true) (solid : word ≠ [])
      (further : Covers (pos + byteLength gap + byteLength word) more rest) :
      Covers pos (⟨kind, pos + byteLength gap, pos + byteLength gap + byteLength word⟩ :: more)
        (gap ++ (word ++ rest))

theorem byteLength_pos {text : List Char} (nonempty : text ≠ []) : 0 < byteLength text := by
  obtain ⟨x, rest, rfl⟩ := List.exists_cons_of_ne_nil nonempty
  rw [byteLength_cons]
  exact Nat.add_pos_left (Char.utf8Size_pos x) _

theorem Covers.space {pos : Nat} {gap text : List Char} {row : List Token}
    (white : ∀ x ∈ gap, isSpace x = true) (covers : Covers (pos + byteLength gap) row text) :
    Covers pos row (gap ++ text) := by
  cases covers with
  | blank white' => exact .blank (List.forall_mem_append.mpr ⟨white, white'⟩)
  | @token _ gap' word rest kind more white' solid further =>
      have longer := List.forall_mem_append.mpr ⟨white, white'⟩
      have offset : pos + byteLength gap + byteLength gap' = pos + byteLength (gap ++ gap') := by
        rw [byteLength_append, Nat.add_assoc]
      rw [offset] at further ⊢
      rw [← List.append_assoc]
      exact .token longer solid further

/-- White space is cut off as far as it goes. -/
theorem eq_takeWhile_of_gap {x : Char} {tail behind : List Char}
    (taken : first x (tail ++ behind) = (.gap, tail)) :
    isSpace x = true ∧ (tail ++ behind).takeWhile isSpace = tail := by
  have space : isSpace x = true := by
    by_contra other
    have solid := fst_first_ne_gap (Bool.not_eq_true _ ▸ other) (tail ++ behind)
    rw [taken] at solid
    exact solid rfl
  rw [first_space space] at taken
  exact ⟨space, congrArg Prod.snd taken⟩

theorem white_of_gap {x : Char} {tail behind : List Char}
    (taken : first x (tail ++ behind) = (.gap, tail)) : ∀ y ∈ x :: tail, isSpace y = true := by
  obtain ⟨space, whole⟩ := eq_takeWhile_of_gap taken
  refine List.forall_mem_cons.mpr ⟨space, fun y member => ?_⟩
  rw [← whole] at member
  exact List.mem_takeWhile_imp member

theorem bare_of_gap {x : Char} {tail behind : List Char}
    (taken : first x (tail ++ behind) = (.gap, tail)) :
    ∀ y ∈ behind.head?, isSpace y = false := by
  obtain ⟨-, whole⟩ := eq_takeWhile_of_gap taken
  have white := (List.forall_mem_cons.mp (white_of_gap taken)).2
  rw [List.takeWhile_append_of_pos white, List.append_right_eq_self] at whole
  intro y head
  obtain ⟨rest, rfl⟩ := List.head?_eq_some_iff.mp head
  by_contra space
  rw [List.takeWhile_cons_of_pos (by simpa using space)] at whole
  cases whole

theorem text_ne_nil_of_mem_cut {text : List Char} {piece : Piece} (member : piece ∈ cut text) :
    piece.text ≠ [] := by
  induction text using cut_induction with
  | nil => cases member
  | piece kind x tail behind taken ih =>
      rw [cut_piece taken] at member
      rcases List.mem_cons.mp member with rfl | member
      · exact List.cons_ne_nil x tail
      · exact ih member

/-- The tokens among the pieces of a text cover it. -/
theorem covers_tokensFrom (text : List Char) :
    ∀ pos, Covers pos (tokensFrom pos (cut text)) text := by
  induction text using cut_induction with
  | nil => exact fun pos => .blank nofun
  | piece kind x tail behind taken ih =>
      intro pos
      have solid : x :: tail ≠ [] := List.cons_ne_nil x tail
      rw [cut_piece taken, tokensFrom]
      cases kind with
      | gap => exact .space (white_of_gap taken) (ih _)
      | stray | token => exact @Covers.token pos [] _ _ _ _ nofun solid (ih _)

/-! ## Where tokens stand -/

namespace Covers

variable {pos : Nat} {row : List Token} {text : List Char}

theorem within (covers : Covers pos row text) : ∀ t ∈ row,
    pos ≤ t.span.start ∧ t.span.start < t.span.stop ∧ t.span.stop ≤ pos + byteLength text := by
  induction covers with
  | blank => nofun
  | @token pos gap word rest kind more white solid further ih =>
      have size := byteLength_pos solid
      simp only [byteLength_append]
      refine List.forall_mem_cons.mpr ⟨by simp only; omega, fun t member => ?_⟩
      obtain ⟨start, longer, stop⟩ := ih t member
      omega

theorem apart (covers : Covers pos row text) :
    row.Pairwise fun t u => t.span.stop ≤ u.span.start := by
  induction covers with
  | blank => exact .nil
  | token white solid further ih =>
      exact .cons (fun u member => (further.within u member).1) ih

/-- A token starts and stops between two characters. -/
theorem between (covers : Covers pos row text) : ∀ t ∈ row, ∃ before word behind,
    text = before ++ (word ++ behind) ∧
      t.span = ⟨pos + byteLength before, pos + byteLength before + byteLength word⟩ := by
  induction covers with
  | blank => nofun
  | @token pos gap word rest kind more white solid further ih =>
      refine List.forall_mem_cons.mpr ⟨⟨gap, word, rest, rfl, rfl⟩, fun t member => ?_⟩
      obtain ⟨before, word', behind, rfl, place⟩ := ih t member
      refine ⟨gap ++ (word ++ before), word', behind, by simp, ?_⟩
      simp only [place, byteLength_append, Nat.add_assoc]

end Covers

/-- The places that tokens leave out, from an offset to the end of the line: before the first token,
between one and the next, and behind the last. -/
def gapsFrom (pos stop : Nat) : List Token → List Span
  | [] => [⟨pos, stop⟩]
  | t :: rest => ⟨pos, t.span.start⟩ :: gapsFrom t.span.stop stop rest

/-- No gap starts before the offset. -/
theorem Covers.le_gap {pos : Nat} {row : List Token} {text : List Char}
    (covers : Covers pos row text) (stop : Nat) :
    ∀ gap ∈ gapsFrom pos stop row, pos ≤ gap.start := by
  induction covers with
  | blank => simp [gapsFrom]
  | token white solid further ih =>
      refine List.forall_mem_cons.mpr ⟨Nat.le_refl _, fun gap member => ?_⟩
      have later := ih gap member
      omega

theorem Span.characters_front (pos : Nat) (text behind : List Char) :
    characters ⟨pos, pos + byteLength text⟩ pos (text ++ behind) = text := by
  rw [characters_append, characters_inside (Nat.le_refl _) (Nat.le_refl _),
    characters_behind (Nat.le_refl _), List.append_nil]

/-- **Tokens leave out nothing but white space.** -/
theorem Covers.white {pos : Nat} {row : List Token} {text : List Char}
    (covers : Covers pos row text) : ∀ gap ∈ gapsFrom pos (pos + byteLength text) row,
      ∀ x ∈ gap.characters pos text, isSpace x = true := by
  induction covers with
  | @blank pos gap white =>
      have all := Span.characters_front pos gap []
      rw [List.append_nil] at all
      simpa [gapsFrom, all] using white
  | @token pos gap word rest kind more white solid further ih =>
      refine List.forall_mem_cons.mpr ⟨?_, fun other member => ?_⟩
      · rw [Span.characters_front]
        exact white
      · rw [byteLength_append, byteLength_append, ← Nat.add_assoc, ← Nat.add_assoc] at member
        have later := further.le_gap _ other member
        rw [Span.characters_append, Span.characters_append,
          Span.characters_before (by omega), Span.characters_before (by omega)]
        exact ih other member

/-! ## Segments -/

/-- How a token is shown. -/
def Token.style (t : Token) : Style :=
  match t.kind with
  | some kind => (PieceKind.token kind).style
  | none => PieceKind.stray.style

/-- The segment of a line between two offsets that is no token, if there is something there. -/
def plainSegment (line : List Char) (start stop : Nat) : List (Style × List Char) :=
  if start < stop then [(PieceKind.gap.style, Span.characters ⟨start, stop⟩ 0 line)] else []

/-- The segments of a line from an offset on, cut out at the places of tokens. -/
def segmentsFrom (line : List Char) (pos : Nat) : List Token → List (Style × List Char)
  | [] => plainSegment line pos (byteLength line)
  | t :: rest =>
      plainSegment line pos t.span.start ++
        (t.style, t.text line) :: segmentsFrom line t.span.stop rest

theorem plainSegment_self (line : List Char) (pos : Nat) : plainSegment line pos pos = [] :=
  if_neg (Nat.lt_irrefl pos)

theorem plainSegment_between (before : List Char) {gap : List Char} (nonempty : gap ≠ [])
    (behind : List Char) :
    plainSegment (before ++ (gap ++ behind)) (byteLength before)
      (byteLength before + byteLength gap) = [(PieceKind.gap.style, gap)] := by
  rw [plainSegment, if_pos (Nat.lt_add_of_pos_right (byteLength_pos nonempty)),
    Span.characters_between]

/-- Behind white space that is as long as it can be, the line is at its end or a token starts. -/
theorem segmentsFrom_gap (before : List Char) {gap : List Char} (nonempty : gap ≠ [])
    {text : List Char} (bare : ∀ x ∈ text.head?, isSpace x = false) :
    segmentsFrom (before ++ (gap ++ text)) (byteLength before)
        (tokensFrom (byteLength before + byteLength gap) (cut text)) =
      (PieceKind.gap.style, gap) :: segmentsFrom (before ++ (gap ++ text))
        (byteLength before + byteLength gap)
        (tokensFrom (byteLength before + byteLength gap) (cut text)) := by
  have segment := plainSegment_between before nonempty text
  induction text using cut_induction with
  | nil =>
      have stop : byteLength (before ++ (gap ++ [])) = byteLength before + byteLength gap := by simp
      change plainSegment _ _ _ = _ :: plainSegment _ _ _
      rw [stop, plainSegment_self, segment]
  | piece kind x tail behind taken =>
      have solid := fst_first_ne_gap (bare x rfl) (tail ++ behind)
      rw [taken] at solid
      rw [cut_piece taken, tokensFrom]
      cases kind with
      | gap => exact absurd rfl solid
      | stray | token =>
          simp only [segmentsFrom]
          rw [segment, plainSegment_self]
          rfl

/-- The segments of the pieces of a text that stands behind another one. -/
theorem segmentsFrom_cut (before text : List Char) :
    (cut text).map (fun piece => (piece.kind.style, piece.text)) =
      segmentsFrom (before ++ text) (byteLength before)
        (tokensFrom (byteLength before) (cut text)) := by
  induction text using cut_induction generalizing before with
  | nil =>
      rw [List.append_nil]
      exact (plainSegment_self before (byteLength before)).symm
  | piece kind x tail behind taken ih =>
      have solid : x :: tail ≠ [] := List.cons_ne_nil x tail
      have further := ih (before ++ x :: tail)
      have here (token : Option TokenKind) : Token.text (before ++ (x :: tail ++ behind))
          ⟨token, byteLength before, byteLength before + byteLength (x :: tail)⟩ = x :: tail :=
        Span.characters_between before (x :: tail) behind
      rw [List.append_assoc, byteLength_append] at further
      rw [cut_piece taken, tokensFrom, List.map_cons, further]
      cases kind with
      | gap =>
          exact (segmentsFrom_gap before solid (bare_of_gap taken)).symm
      | stray | token =>
          simp only [segmentsFrom]
          rw [plainSegment_self, ← List.cons_append, here]
          rfl

/-- **The two ways to the segments of a line agree.** -/
theorem paint_eq_segmentsFrom (line : List Char) : paint line = segmentsFrom line 0 (tokens line) :=
  segmentsFrom_cut [] line

/-! ## Lines -/

theorem isValid_of_append {line : String} {before behind : List Char}
    (split : line.toList = before ++ behind) :
    String.Pos.Raw.IsValid line ⟨byteLength before⟩ := by
  rw [String.Pos.Raw.isValid_iff_exists_append]
  refine ⟨String.ofList before, String.ofList behind, ?_, ?_⟩
  · rw [← String.ofList_append, ← split, String.ofList_toList]
  · rw [← utf8ByteSize_eq_byteLength]
    rfl

/-- **Colouring a line loses and reorders nothing.**  The places of the tokens are not empty, follow
one another and start and stop between two characters; before the first token, between two of them
and behind the last there is only white space.  The segments that are shown are those places and
what is between them; none is empty, and joined together they are the line. -/
theorem colouring_loses_nothing (line : String) :
    (∀ t ∈ tokens line.toList, t.span.start < t.span.stop ∧
      String.Pos.Raw.IsValid line ⟨t.span.start⟩ ∧ String.Pos.Raw.IsValid line ⟨t.span.stop⟩) ∧
    (tokens line.toList).Pairwise (fun t u =>
      t.span.start < u.span.start ∧ t.span.stop ≤ u.span.start) ∧
    (∀ gap ∈ gapsFrom 0 line.utf8ByteSize (tokens line.toList),
      ∀ x ∈ gap.characters 0 line.toList, x ∈ [' ', '\t', '\r', '\n', '\x0c']) ∧
    paint line.toList = segmentsFrom line.toList 0 (tokens line.toList) ∧
    String.ofList ((paint line.toList).flatMap Prod.snd) = line ∧
    ∀ segment ∈ paint line.toList, segment.2 ≠ [] := by
  have covers : Covers 0 (tokens line.toList) line.toList := covers_tokensFrom line.toList 0
  refine ⟨fun t member => ⟨(covers.within t member).2.1, ?_⟩, ?_, ?_, paint_eq_segmentsFrom _,
    ?_, ?_⟩
  · obtain ⟨before, word, behind, split, place⟩ := covers.between t member
    rw [place, Nat.zero_add, ← byteLength_append]
    exact ⟨isValid_of_append split, isValid_of_append (by rw [split, List.append_assoc])⟩
  · refine covers.apart.imp_of_mem fun {t u} member _ apart => ⟨?_, apart⟩
    exact Nat.lt_of_lt_of_le (covers.within t member).2.1 apart
  · intro gap member x inside
    rw [← String.ofList_toList (s := line), utf8ByteSize_eq_byteLength,
      String.toList_ofList] at member
    have space := covers.white gap (by rwa [Nat.zero_add]) x inside
    simpa using eq_of_isSpace space
  · rw [paint, List.flatMap_map, flatMap_text_cut, String.ofList_toList]
  · intro segment member
    obtain ⟨piece, inside, rfl⟩ := List.mem_map.mp member
    exact text_ne_nil_of_mem_cut inside

end BlockScript
