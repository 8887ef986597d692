import Mathlib.Data.List.DropRight
import Mathlib.Data.Prod.Lex
import ScriptLowering.Source.Program

/-
  Positions of byte offsets. Walking to an offset passes every
  character that starts before it. So an offset at the start
  of a character has the position of that character, and an
  offset inside it has the position behind it. Every character
  leads to a later position, so positions of characters come
  in the order of their bytes.

  Key theorems include:
    * `Position.behind_first`
    * `Text.positionAt_of_byteSize_lt`
    * `position_of_character_iff_at_start`
    * `position_counts_and_increases`
-/

namespace ScriptLowering

variable {text front : Text} {offset : Nat}

-----
-- Passing Characters
-----

namespace Position

/- The line and the column, compared in this order. -/
def key (position : Position) : Nat ×ₗ Nat :=
  toLex (position.line, position.column)

/- The position behind all characters of a text. -/
def behind (position : Position) (text : Text) : Position :=
  text.foldl advance position

theorem behind_append (position : Position) (front back : Text) :
    position.behind (front ++ back) = (position.behind front).behind back :=
  List.foldl_append

/- Passing a character leads to a later position. -/
theorem key_lt_advance (position : Position) (c : Char) :
    position.key < (position.advance c).key := by
  unfold advance
  split
  · exact Prod.Lex.toLex_lt_toLex.mpr (.inl (Nat.lt_succ_self _))
  · exact Prod.Lex.toLex_lt_toLex.mpr (.inr ⟨rfl, Nat.lt_succ_self _⟩)

theorem advance_ne (position : Position) (c : Char) :
    position.advance c ≠ position := by
  intro hSame
  exact absurd (congrArg key hSame) (position.key_lt_advance c).ne'

theorem key_lt_behind (h : text ≠ []) (position : Position) :
    position.key < (position.behind text).key := by
  induction text generalizing position with
  | nil => exact absurd rfl h
  | cons c rest ih =>
    have hStep := position.key_lt_advance c
    cases rest with
    | nil => exact hStep
    | cons => exact hStep.trans (ih (List.cons_ne_nil _ _) _)

/- Behind a text, its line breaks and the last line's characters are counted. -/
theorem behind_first (text : Text) :
    first.behind text = ⟨1 + text.count '\n', 1 + (text.rtakeWhile (· != '\n')).length⟩ := by
  induction text using List.reverseRecOn with
  | nil => rfl
  | append_singleton front c ih =>
    have hLast : first.behind (front ++ [c]) = (first.behind front).advance c := behind_append _ _ _
    rw [hLast, ih, advance, List.rtakeWhile_concat, List.count_append]
    by_cases hBreak : c = '\n' <;> simp [hBreak, Nat.add_assoc]

end Position

-----
-- Offsets
-----

namespace Text

/- Characters that end at the offset or before are passed. -/
theorem positionFrom_append
    {byte : Nat} (h : byte + front.byteSize ≤ offset) (position : Position) (back : Text) :
    positionFrom offset byte position (front ++ back) =
      positionFrom offset (byte + front.byteSize) (position.behind front) back := by
  induction front generalizing byte position with
  | nil => rfl
  | cons c rest ih =>
    have hSize : byteSize (c :: rest) = c.utf8Size + byteSize rest := rfl
    have hPositive := c.utf8Size_pos
    rw [hSize, ← Nat.add_assoc] at h ⊢
    rw [List.cons_append, positionFrom, if_neg (by omega), ih h]
    rfl

theorem positionFrom_of_le {byte : Nat} (h : offset ≤ byte) (position : Position) (text : Text) :
    positionFrom offset byte position text = position := by
  cases text with
  | nil => rfl
  | cons => rw [positionFrom, if_pos h]

/- Where a part of a text ends, all of its characters are passed. -/
theorem positionAt_byteSize (front back : Text) :
    positionAt (front ++ back) front.byteSize = Position.first.behind front := by
  have hWhole : 0 + front.byteSize ≤ front.byteSize := by omega
  rw [positionAt, positionFrom_append hWhole, positionFrom_of_le (by omega)]

/- Behind the first byte of a character, the character is passed. -/
theorem positionAt_of_byteSize_lt
    {c : Char} (hStart : front.byteSize < offset) (hEnd : offset ≤ front.byteSize + c.utf8Size)
    (back : Text) :
    positionAt (front ++ c :: back) offset = (Position.first.behind front).advance c := by
  rw [positionAt, positionFrom_append (by omega), positionFrom, if_neg (by omega),
    positionFrom_of_le (by omega)]

/- From the end of a text on, all of its characters are passed. -/
theorem positionAt_of_byteSize_le (h : text.byteSize ≤ offset) :
    positionAt text offset = Position.first.behind text := by
  have hWhole : 0 + text.byteSize ≤ offset := by omega
  have hAll := positionFrom_append hWhole Position.first []
  rwa [List.append_nil] at hAll

theorem positionAt_front (h : front <+: text) :
    positionAt text front.byteSize = Position.first.behind front := by
  rcases h with ⟨back, rfl⟩
  exact positionAt_byteSize front back

/- More characters are passed at a later character. -/
theorem key_positionAt_lt
    {left right : Text} (hLeft : left <+: text) (hRight : right <+: text)
    (hBytes : left.byteSize < right.byteSize) :
    (positionAt text left.byteSize).key < (positionAt text right.byteSize).key := by
  have hLonger : left <+: right := by
    rcases List.prefix_or_prefix_of_prefix hLeft hRight with hFront | hFront
    · exact hFront
    · exact absurd (byteSize_le_of_sublist hFront.sublist) (by omega)
  rw [positionAt_front hLeft, positionAt_front hRight]
  rcases hLonger with ⟨middle, rfl⟩
  rw [Position.behind_append]
  apply Position.key_lt_behind
  rintro rfl
  simp at hBytes

end Text

/-
  An offset in the bytes of a character has the position of
  the character just if it is that of its first byte. At any
  other byte it has the position of the next character, one
  column further on the same line.
-/
theorem position_of_character_iff_at_start
    {unit : SourceUnit} {front back : Text} {c : Char} {offset : Nat}
    (hSource : unit.source = front ++ c :: back) (hStart : front.byteSize ≤ offset)
    (hEnd : offset < front.byteSize + c.utf8Size) :
    (unit.position offset = unit.position front.byteSize ↔ offset = front.byteSize) ∧
      (front.byteSize < offset →
        unit.position offset = unit.position (front.byteSize + c.utf8Size) ∧
          (unit.position offset).line = (unit.position front.byteSize).line ∧
          (unit.position offset).column = (unit.position front.byteSize).column + 1) := by
  unfold SourceUnit.position
  rw [hSource, Text.positionAt_byteSize]
  rcases Nat.eq_or_lt_of_le hStart with rfl | hInside
  · exact ⟨iff_of_true (Text.positionAt_byteSize _ _) rfl,
      fun hLater => absurd hLater (Nat.lt_irrefl _)⟩
  · rw [Text.positionAt_of_byteSize_lt hInside (Nat.le_of_lt hEnd),
      Text.positionAt_of_byteSize_lt (by omega) (Nat.le_refl _)]
    -- A line break has one byte only, so no offset is inside one.
    have hBreak : c ≠ '\n' := by
      rintro rfl
      have hOne : '\n'.utf8Size = 1 := rfl
      omega
    refine ⟨iff_of_false (Position.advance_ne _ c) (by omega), fun _ => ?_⟩
    simp [Position.advance, hBreak]

/- A unit with a character of three bytes on its second line. -/
def euroUnit : SourceUnit :=
  ⟨"main.ts", "let a;\na = '€';", []⟩

theorem euroUnit_position_behind_euro :
    euroUnit.source = "let a;\na = '" ++ '€' :: ("';" : Text) ∧
      euroUnit.position 12 = ⟨2, 6⟩ ∧ euroUnit.position 14 ≠ euroUnit.position 12 ∧
      euroUnit.position 14 = euroUnit.position 15 ∧
      (euroUnit.position 14).line = 2 ∧ (euroUnit.position 14).column = 7 := by
  have hSource : euroUnit.source = "let a;\na = '" ++ '€' :: ("';" : Text) := rfl
  have hAll :=
    @position_of_character_iff_at_start euroUnit "let a;\na = '" "';" '€' 14 hSource
      (by decide) (by decide)
  exact ⟨hSource, by decide, mt hAll.1.mp (by decide), hAll.2 (by decide)⟩

/- An offset inside a character need not have its position. -/
theorem position_inside_character_differs :
    ¬ ∀ (unit : SourceUnit) (front back : Text) (c : Char) (offset : Nat),
      unit.source = front ++ c :: back →
        front.byteSize < offset → offset < front.byteSize + c.utf8Size →
          unit.position offset = unit.position front.byteSize := by
  intro h
  have hSame := h ⟨"main.ts", "é", []⟩ [] [] 'é' 1 rfl (by decide) (by decide)
  exact absurd hSame (by decide)

/-
  A character starts, or the text ends, where a front part of
  the text ends. There the line counts the line breaks in front
  and the column the characters behind the last of them, and
  positions come in the order of their offsets. Any offset
  behind the text has the position of its end.
-/
theorem position_counts_and_increases (unit : SourceUnit) :
    (∀ front : Text, front <+: unit.source →
      unit.position front.byteSize =
        ⟨1 + front.count '\n', 1 + (front.rtakeWhile (· != '\n')).length⟩) ∧
      (∀ left right : Text, left <+: unit.source → right <+: unit.source →
        (left.byteSize < right.byteSize ↔
          (unit.position left.byteSize).key < (unit.position right.byteSize).key)) ∧
      ∀ offset, unit.source.byteSize ≤ offset →
        unit.position offset = unit.position unit.source.byteSize := by
  unfold SourceUnit.position
  refine ⟨fun front hFront => ?_, fun left right hLeft hRight => ⟨?_, fun hKey => ?_⟩,
    fun offset hEnd => ?_⟩
  · rw [Text.positionAt_front hFront, Position.behind_first]
  · exact Text.key_positionAt_lt hLeft hRight
  · rcases Nat.lt_trichotomy left.byteSize right.byteSize with hLess | hSame | hMore
    · exact hLess
    · rw [hSame] at hKey
      exact absurd hKey (lt_irrefl _)
    · exact absurd hKey (Text.key_positionAt_lt hRight hLeft hMore).not_gt
  · rw [Text.positionAt_of_byteSize_le hEnd, Text.positionAt_of_byteSize_le (Nat.le_refl _)]

theorem euroUnit_positions_in_order :
    ("let a;\na = '€" : Text) <+: euroUnit.source ∧ euroUnit.position 15 = ⟨2, 7⟩ ∧
      (euroUnit.position 7).key < (euroUnit.position 15).key ∧
      euroUnit.position 40 = euroUnit.position 17 := by
  have hEuro : ("let a;\na = '€" : Text) <+: euroUnit.source := ⟨"';".toList, rfl⟩
  have hLine : ("let a;\n" : Text) <+: euroUnit.source := ⟨"a = '€';".toList, rfl⟩
  rcases position_counts_and_increases euroUnit with ⟨hCounts, hOrder, hEnd⟩
  exact ⟨hEuro, hCounts _ hEuro, (hOrder _ _ hLine hEuro).mp (by decide), hEnd 40 (by decide)⟩

end ScriptLowering
