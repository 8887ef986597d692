import ScriptLowering.Text.Word

/-
  Bracket depth and splitting outside brackets. The four
  pairs `<>`, `{}`, `()` and `[]` count as one kind; the `>`
  of an arrow `=>` closes nothing; a closing bracket too many
  leaves the depth at zero.

  Key definitions include:
    * `Text.depthAfter`
    * `Text.splitTopLevel`
    * `Text.containsTopLevel`
    * `Text.cutTopLevel?`

  Key theorems include:
    * `Text.sublist_of_mem_splitTopLevel`
-/

namespace ScriptLowering

namespace Text

-----
-- Brackets
-----

def isOpening (c : Char) : Bool :=
  c == '<' || c == '{' || c == '(' || c == '['

def isClosing (c : Char) : Bool :=
  c == '>' || c == '}' || c == ')' || c == ']'

/-
  The depth after one more character, given the depth and
  the character before it.
-/
def depthAfter (depth : Nat) (previous c : Char) : Nat :=
  if isOpening c then
    depth + 1
  else if c == '>' && previous == '=' then
    depth
  else if isClosing c then
    depth - 1
  else
    depth

-----
-- Splitting
-----

/- A bracket never separates, whatever the separators are. -/
def isSeparator (separators : List Char) (c : Char) : Bool :=
  !isOpening c && !isClosing c && separators.contains c

/-
  The piece up to the next separator at depth zero, and the
  pieces after it.
-/
def splitFrom (separators : List Char) (depth : Nat) (previous : Char) : Text → Text × List Text
  | [] => ([], [])
  | c :: rest =>
      let later :=
        splitFrom separators (depthAfter depth previous c) c rest
      if depth == 0 && isSeparator separators c then
        ([], later.1 :: later.2)
      else
        (c :: later.1, later.2)

/-
  Split a text at every separator outside brackets. Pieces
  are not trimmed, and empty ones are kept.
-/
def splitTopLevel (separators : List Char) (text : Text) : List Text :=
  let split := splitFrom separators 0 '\x00' text
  split.1 :: split.2

/- Whether a character occurs outside brackets. -/
def containsTopLevel (c : Char) (text : Text) : Bool :=
  1 < (splitTopLevel [c] text).length

/-
  What stands before and after the first occurrence of a
  character outside brackets.
-/
def cutTopLevel? (c : Char) (text : Text) : Option (Text × Text) :=
  match splitFrom [c] 0 '\x00' text with
  | (_, []) => none
  | (first, _ :: _) => some (first, text.drop (first.length + 1))

-----
-- Pieces Are Parts
-----

theorem sublist_of_splitFrom
    (separators : List Char) (depth : Nat) (previous : Char) (text : Text) :
    ∀ piece ∈ (splitFrom separators depth previous text).1 ::
        (splitFrom separators depth previous text).2,
      piece.Sublist text := by
  induction text generalizing depth previous with
  | nil => simp [splitFrom]
  | cons c _ ih =>
      intro piece hPiece
      have hLater := ih (depthAfter depth previous c) c
      unfold splitFrom at hPiece
      dsimp only at hPiece
      split at hPiece
      · simp only [List.mem_cons] at hPiece hLater
        rcases hPiece with hNil | hPiece
        · simp [hNil]
        · exact (hLater piece hPiece).cons c
      · simp only [List.mem_cons] at hPiece hLater
        rcases hPiece with hFirst | hPiece
        · subst hFirst
          exact (hLater _ (Or.inl rfl)).cons_cons c
        · exact (hLater piece (Or.inr hPiece)).cons c

/- Every piece of a split consists of characters of the text. -/
theorem sublist_of_mem_splitTopLevel
    {separators : List Char} {text piece : Text} (h : piece ∈ splitTopLevel separators text) :
    piece.Sublist text :=
  sublist_of_splitFrom separators 0 '\x00' text piece h

end Text

end ScriptLowering
