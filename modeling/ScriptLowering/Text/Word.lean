import ScriptLowering.Text.Basic

/-
  Words: a word is a longest run of ASCII letters, digits,
  underscores and dollar signs. A text is read as a sequence
  of words and of single marks between them.

  Key definitions include:
    * `Text.isWordChar`
    * `Text.isIdentifier`
    * `Text.Piece`
    * `Text.pieces`

  Key theorems include:
    * `Text.unpiece_pieces`
    * `Text.markCount_mapWords`
-/

namespace ScriptLowering

namespace Text

-----
-- Identifiers
-----

/- Characters that a word is made of. -/
def isWordChar (c : Char) : Bool :=
  c.isAlphanum || c == '_' || c == '$'

/- Word characters other than digits. -/
def isWordStart (c : Char) : Bool :=
  c.isAlpha || c == '_' || c == '$'

/- One word that does not start with a digit. -/
def isIdentifier : Text → Bool
  | [] => false
  | c :: rest => isWordStart c && rest.all isWordChar

-----
-- Words And Marks
-----

/- A part of a text: a whole word, or one other character. -/
inductive Piece where
  | word (run : Text)
  | mark (c : Char)
deriving DecidableEq, Repr

/- The characters of a piece. -/
def Piece.text : Piece → Text
  | .word run => run
  | .mark c => [c]

/- The word that a piece is, if it is one. -/
def Piece.word? : Piece → Option Text
  | .word run => some run
  | .mark _ => none

/- Put a word character in front of the pieces of a text. -/
def extendWord (c : Char) : List Piece → List Piece
  | .word word :: rest => .word (c :: word) :: rest
  | rest => .word [c] :: rest

/- The words and marks of a text, in order. -/
def pieces : Text → List Piece
  | [] => []
  | c :: rest =>
      if isWordChar c then
        extendWord c (pieces rest)
      else
        .mark c :: pieces rest

/- The words of a text, in order. -/
def words (text : Text) : List Text :=
  (pieces text).filterMap Piece.word?

/- Replace one word by a partial table of replacements. -/
def replaceWord (table : Text → Option Text) (word : Text) : Text :=
  (table word).getD word

/- Replace words in one piece: marks stay as they are. -/
def replacePiece (table : Text → Option Text) : Piece → Text
  | .word word => replaceWord table word
  | .mark mark => [mark]

/- Replace every word of a text and keep the marks. -/
def mapWords (table : Text → Option Text) (text : Text) : Text :=
  (pieces text).flatMap (replacePiece table)

-----
-- Pieces Put Together Again
-----

theorem flatMap_text_extendWord (c : Char) (rest : List Piece) :
    (extendWord c rest).flatMap Piece.text = c :: rest.flatMap Piece.text := by
  match rest with
  | [] => rfl
  | .word word :: more => simp [extendWord, Piece.text]
  | .mark mark :: more => simp [extendWord, Piece.text]

/- No character is lost between the pieces. -/
theorem unpiece_pieces (text : Text) :
    (pieces text).flatMap Piece.text = text := by
  induction text with
  | nil => rfl
  | cons c _ ih =>
      by_cases h : isWordChar c
      · simp [pieces, h, flatMap_text_extendWord, ih]
      · simp [pieces, h, Piece.text, ih]

-----
-- Marks Under Rewriting
-----

/- The number of characters outside words. -/
def markCount (text : Text) : Nat :=
  text.countP fun c => !isWordChar c

@[simp] theorem markCount_nil :
    markCount [] = 0 :=
  rfl

@[simp] theorem markCount_append (left right : Text) :
    markCount (left ++ right) = markCount left + markCount right :=
  List.countP_append

theorem markCount_cons (c : Char) (text : Text) :
    markCount (c :: text) = markCount text + if isWordChar c then 0 else 1 := by
  by_cases h : isWordChar c <;> simp [markCount, h]

theorem markCount_le_of_sublist {part text : Text} (h : part.Sublist text) :
    markCount part ≤ markCount text :=
  h.countP_le

theorem markCount_eq_zero {text : Text} (h : text.all isWordChar = true) :
    markCount text = 0 := by
  simpa [markCount, List.countP_eq_zero] using h

theorem markCount_flatMap_extendWord
    {table : Text → Option Text}
    (hTable : ∀ word replacement, table word = some replacement → replacement.all isWordChar = true)
    (c : Char) (hChar : isWordChar c = true) (rest : List Piece)
    (hRest : ∀ word, Piece.word word ∈ rest → word.all isWordChar = true) :
    markCount ((extendWord c rest).flatMap (replacePiece table)) =
      markCount (rest.flatMap (replacePiece table)) := by
  have hWord :
      ∀ word : Text, word.all isWordChar = true → markCount (replaceWord table word) = 0 := by
    intro word hAll
    apply markCount_eq_zero
    unfold replaceWord
    cases hFound : table word with
    | none => simpa using hAll
    | some => simpa using hTable _ _ hFound
  match rest with
  | [] => simp [extendWord, replacePiece, hWord, hChar]
  | .mark mark :: more => simp [extendWord, replacePiece, hWord, hChar]
  | .word word :: more =>
      have hAll := hRest word (by simp)
      have hCons : (c :: word).all isWordChar = true := by
        simp only [List.all_cons, hChar, hAll, Bool.and_self]
      simp [extendWord, replacePiece, hWord _ hAll, hWord _ hCons]

theorem all_isWordChar_of_mem_pieces (text : Text) :
    ∀ word, Piece.word word ∈ pieces text → word.all isWordChar = true := by
  induction text with
  | nil => simp [pieces]
  | cons c rest ih =>
      intro word hMem
      by_cases h : isWordChar c
      · simp only [pieces, h, if_true] at hMem
        match hRest : pieces rest with
        | [] => simp_all [extendWord]
        | .mark mark :: more =>
            rw [hRest] at ih
            simp only [hRest, extendWord, List.mem_cons, Piece.word.injEq] at hMem
            rcases hMem with hEq | hMore
            · simp [hEq, h]
            · exact ih word (by simp_all)
        | .word first :: more =>
            rw [hRest] at ih
            simp only [hRest, extendWord, List.mem_cons, Piece.word.injEq] at hMem
            rcases hMem with hEq | hMore
            · subst hEq
              have := ih first (by simp)
              simp_all
            · exact ih word (by simp [hMore])
      · simp [pieces, h] at hMem
        exact ih word hMem

/-
  Rewriting words by words keeps the number of marks.
-/
theorem markCount_mapWords
    {table : Text → Option Text}
    (hTable : ∀ word replacement, table word = some replacement → replacement.all isWordChar = true)
    (text : Text) :
    markCount (mapWords table text) = markCount text := by
  induction text with
  | nil => rfl
  | cons c rest ih =>
      unfold mapWords at ih ⊢
      by_cases h : isWordChar c
      · simp only [pieces, h, if_true]
        rw [markCount_flatMap_extendWord hTable c h _ (all_isWordChar_of_mem_pieces rest), ih,
          markCount_cons]
        simp [h]
      · simp [pieces, h, replacePiece, markCount_cons, ih]

end Text

end ScriptLowering
