import Mathlib.Data.List.TakeWhile
import ScriptLowering.Text.Blank
import ScriptLowering.Text.Word

/-
  The words of texts that are put together from parts. All
  follows from one fact: words end at a character that is no
  word character.

  Key theorems include:
    * `Text.words_trim`
    * `Text.words_joinWith`
-/

namespace ScriptLowering

open List

namespace Text

-----
-- Words Around A Mark
-----

@[simp] theorem words_nil :
    words [] = [] :=
  rfl

theorem extendWord_append_mark (c mark : Char) (front back : List Piece) :
    extendWord c (front ++ .mark mark :: back) = extendWord c front ++ .mark mark :: back := by
  match front with
  | [] => rfl
  | .word word :: more => rfl
  | .mark other :: more => rfl

theorem pieces_append_mark {mark : Char} (hMark : isWordChar mark = false) (front back : Text) :
    pieces (front ++ mark :: back) = pieces front ++ .mark mark :: pieces back := by
  induction front with
  | nil => simp [pieces, hMark]
  | cons c _ ih =>
    by_cases hWord : isWordChar c
    · simp [pieces, hWord, ih, extendWord_append_mark]
    · simp [pieces, hWord, ih]

/- The words on both sides of a mark. -/
theorem words_append_mark {mark : Char} (hMark : isWordChar mark = false) (front back : Text) :
    words (front ++ mark :: back) = words front ++ words back := by
  rw [words, pieces_append_mark hMark, filterMap_append, filterMap_cons_none rfl]
  rfl

theorem words_cons_mark {mark : Char} (hMark : isWordChar mark = false) (text : Text) :
    words (mark :: text) = words text := by
  simpa using words_append_mark hMark [] text

theorem words_append_marks (text marks : Text) (hMarks : ∀ c ∈ marks, isWordChar c = false) :
    words (text ++ marks) = words text := by
  induction marks generalizing text with
  | nil => simp
  | cons mark _ ih =>
    have hRest := ih [] fun c hc => hMarks c (mem_cons_of_mem _ hc)
    rw [words_append_mark (hMarks mark mem_cons_self)]
    simpa using hRest

theorem words_marks_append (marks text : Text) (hMarks : ∀ c ∈ marks, isWordChar c = false) :
    words (marks ++ text) = words text := by
  induction marks with
  | nil => rfl
  | cons mark _ ih =>
    rw [cons_append, words_cons_mark (hMarks mark mem_cons_self)]
    exact ih fun c hc => hMarks c (mem_cons_of_mem _ hc)

-----
-- Single Words
-----

/- A text that is one word. -/
def IsWord (text : Text) : Prop :=
  text ≠ [] ∧ text.all isWordChar = true

theorem pieces_eq_singleton {word : Text} (h : IsWord word) :
    pieces word = [.word word] := by
  rcases h with ⟨hNonempty, hAll⟩
  induction word with
  | nil => exact absurd rfl hNonempty
  | cons _ rest ih =>
    simp only [all_cons, Bool.and_eq_true] at hAll
    cases rest with
    | nil => simp [pieces, hAll.1, extendWord]
    | cons =>
      have hRest := ih (by simp) hAll.2
      rw [pieces, if_pos hAll.1, hRest, extendWord]

theorem words_eq_singleton {word : Text} (h : IsWord word) :
    words word = [word] := by
  simp [words, pieces_eq_singleton h, Piece.word?]

theorem ne_nil_of_mem_pieces (text : Text) :
    ∀ word, Piece.word word ∈ pieces text → word ≠ [] := by
  induction text with
  | nil => simp [pieces]
  | cons c rest ih =>
    intro word hMem
    by_cases hWord : isWordChar c
    · simp only [pieces, hWord, if_true] at hMem
      cases hRest : pieces rest with
      | nil => simp_all [extendWord]
      | cons piece =>
        cases piece with
        | mark =>
          simp only [hRest, extendWord, mem_cons, Piece.word.injEq] at hMem
          rcases hMem with rfl | hMore
          · simp
          · exact ih word (by simp_all)
        | word =>
          simp only [hRest, extendWord, mem_cons, Piece.word.injEq] at hMem
          rcases hMem with rfl | hMore
          · simp
          · exact ih word (by simp [hRest, hMore])
    · simp [pieces, hWord] at hMem
      exact ih word hMem

theorem isWord_of_mem_words {word text : Text} (h : word ∈ words text) :
    IsWord word := by
  rcases mem_filterMap.mp h with ⟨piece, hPiece, hWord⟩
  cases piece with
  | mark => cases hWord
  | word =>
    cases hWord
    exact ⟨ne_nil_of_mem_pieces text word hPiece, all_isWordChar_of_mem_pieces text word hPiece⟩

theorem IsWord.of_isIdentifier {text : Text} (h : text.isIdentifier = true) :
    IsWord text := by
  cases text with
  | nil => cases h
  | cons c =>
    simp only [isIdentifier, Bool.and_eq_true] at h
    have hFirst : isWordChar c = true := by
      have hStart := h.1
      simp only [isWordStart, Bool.or_eq_true] at hStart
      simp only [isWordChar, Char.isAlphanum, Bool.or_eq_true]
      rcases hStart with (hAlpha | hUnderscore) | hDollar
      · exact .inl (.inl (.inl hAlpha))
      · exact .inl (.inr hUnderscore)
      · exact .inr hDollar
    exact ⟨by simp, by rw [all_cons, hFirst, h.2]; rfl⟩

-----
-- Trimming And Joining
-----

/- A word character is an ASCII letter, digit or one of two marks. -/
theorem toNat_of_isWordChar {c : Char} (h : isWordChar c = true) :
    48 ≤ c.toNat ∧ c.toNat ≤ 122 ∨ c.toNat = 36 := by
  simp only [isWordChar, Char.isAlphanum, Char.isDigit] at h
  delta Char.isAlpha Char.isUpper Char.isLower at h
  simp only [Bool.or_eq_true, Bool.and_eq_true, decide_eq_true_eq, beq_iff_eq, ge_iff_le,
    UInt32.le_iff_toNat_le] at h
  have hVal : c.toNat = c.val.toNat := rfl
  rcases h with (((hUpper | hLower) | hDigit) | rfl) | rfl
  · have hLow : 'A'.val.toNat = 65 := rfl
    have hHigh : 'Z'.val.toNat = 90 := rfl
    omega
  · have hLow : 'a'.val.toNat = 97 := rfl
    have hHigh : 'z'.val.toNat = 122 := rfl
    omega
  · have hLow : '0'.val.toNat = 48 := rfl
    have hHigh : '9'.val.toNat = 57 := rfl
    omega
  · left
    decide
  · right
    decide

theorem isWordChar_eq_false_of_isBlank {c : Char} (h : isBlank c = true) :
    isWordChar c = false := by
  by_contra hWord
  have hRange := toNat_of_isWordChar ((Bool.not_eq_false _).mp hWord)
  simp only [isBlank, blankRanges, any_cons, any_nil,
    Bool.or_eq_true, Bool.and_eq_true, decide_eq_true_eq,
    Bool.false_eq_true, or_false] at h
  omega

theorem words_dropWhile_isBlank (text : Text) :
    words (text.dropWhile isBlank) = words text := by
  have hSplit := takeWhile_append_dropWhile (p := isBlank) (l := text)
  conv =>
    rhs
    rw [← hSplit]
  symm
  apply words_marks_append
  intro c hc
  exact isWordChar_eq_false_of_isBlank (mem_takeWhile_imp hc)

theorem words_trimEnd (text : Text) :
    words (trimEnd text) = words text := by
  have hSplit := takeWhile_append_dropWhile (p := isBlank) (l := text.reverse)
  have hText : text = trimEnd text ++ (text.reverse.takeWhile isBlank).reverse := by
    rw [trimEnd, ← reverse_append, hSplit, reverse_reverse]
  conv =>
    rhs
    rw [hText]
  symm
  apply words_append_marks
  intro c hc
  exact isWordChar_eq_false_of_isBlank (mem_takeWhile_imp (mem_reverse.mp hc))

/- Trimming leaves no word out. -/
@[simp] theorem words_trim (text : Text) :
    words (trim text) = words text := by
  rw [trim, words_trimEnd, trimStart, words_dropWhile_isBlank]

/- Parts that are joined by commas keep their words. -/
theorem words_joinWith (parts : List Text) :
    words (joinWith ", " parts) = parts.flatMap words := by
  induction parts with
  | nil => rfl
  | cons part rest ih =>
    cases rest with
    | nil => simp [joinWith]
    | cons next more =>
      have hJoin :
          joinWith ", " (part :: next :: more) = part ++ ',' :: ' ' ::
              joinWith ", " (next :: more) := by
        simp [joinWith]
      rw [hJoin, words_append_mark (by decide), words_cons_mark (by decide), ih]
      simp

end Text

end ScriptLowering
