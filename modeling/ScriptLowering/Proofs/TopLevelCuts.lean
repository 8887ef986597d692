import ScriptLowering.Proofs.Splitting

/-
  Where a text is split. The pieces with the separators that
  stood between them are the text again. A separator is taken
  out just where no bracket is open in front of it, so there
  is none left in a piece that splitting would take out.

  Key theorems include:
    * `Text.takesOut_cutFrom_iff`
    * `splitTopLevel_cuts_outside_brackets`
-/

namespace ScriptLowering

open List

namespace Text

-----
-- Open Brackets
-----

/- A text without the closing half of each arrow `=>`. -/
def withoutArrows : Text → Text
  | [] => []
  | '=' :: '>' :: rest => '=' :: withoutArrows rest
  | c :: rest => c :: withoutArrows rest

def bracketStep (depth : Nat) (c : Char) : Nat :=
  if isOpening c then
    depth + 1
  else if isClosing c then
    depth - 1
  else
    depth

/-
  The number of brackets that a text leaves open. A closing
  bracket too many closes none.
-/
def openBrackets (text : Text) : Nat :=
  (withoutArrows text).foldl bracketStep 0

/- The depth that splitting has come to behind a text. -/
def depthFrom (depth : Nat) (previous : Char) : Text → Nat
  | [] => depth
  | c :: rest => depthFrom (depthAfter depth previous c) c rest

theorem depthFrom_eq_foldl
    {previous : Char} {text : Text} (hStart : previous = '=' → text.head? ≠ some '>')
    (depth : Nat) :
    depthFrom depth previous text = (withoutArrows text).foldl bracketStep depth := by
  fun_induction withoutArrows text generalizing depth previous with
  | case1 => rfl
  | case2 _ ih =>
    have hArrow : depthAfter (depthAfter depth previous '=') '=' '>' = depth := rfl
    rw [depthFrom, depthFrom, hArrow, ih fun h => absurd h (by decide)]
    rfl
  | case3 c rest hOther ih =>
    have hNext : c = '=' → rest.head? ≠ some '>' := by
      rintro rfl hHead
      rcases head?_eq_some_iff.mp hHead with ⟨more, rfl⟩
      exact hOther more rfl rfl
    have hStep : depthAfter depth previous c = bracketStep depth c := by
      have hNoArrow : (c == '>' && previous == '=') = false := by
        by_contra hArrow
        rw [Bool.not_eq_false, Bool.and_eq_true, beq_iff_eq, beq_iff_eq] at hArrow
        exact hStart hArrow.2 (congrArg some hArrow.1)
      simp [depthAfter, bracketStep, hNoArrow]
    rw [depthFrom, ih hNext, hStep, foldl_cons]

theorem depthFrom_eq_openBrackets (text : Text) :
    depthFrom 0 '\x00' text = openBrackets text :=
  depthFrom_eq_foldl (fun h => absurd h (by decide)) 0

-----
-- Cuts
-----

/- A first piece, and later ones with the separators before them. -/
structure Cuts where
  first : Text
  later : List (Char × Text)

namespace Cuts

def pieces (cuts : Cuts) : List Text :=
  cuts.first :: cuts.later.map Prod.snd

/- The pieces with the separators between them. -/
def text (cuts : Cuts) : Text :=
  cuts.first ++ cuts.later.flatMap fun cut => cut.1 :: cut.2

/- A separator is taken out behind a beginning of the text. -/
def TakesOut (cuts : Cuts) (before : Text) (c : Char) : Prop :=
  ∃ done piece rest, cuts.later = done ++ (c, piece) :: rest ∧ before = text ⟨cuts.first, done⟩

variable {first before : Text} {later : List (Char × Text)} {c d : Char}

theorem takesOut_cons_iff :
    TakesOut ⟨c :: first, later⟩ (c :: before) d ↔ TakesOut ⟨first, later⟩ before d := by
  simp [TakesOut, text]

/- In front of the later pieces there is one more place to cut. -/
theorem takesOut_nil_iff :
    TakesOut ⟨[], (c, first) :: later⟩ [] d ↔ d = c := by
  constructor
  · rintro ⟨_ | ⟨_, _⟩, _, _, hLater, hBefore⟩
    · cases hLater
      rfl
    · cases hBefore
  · rintro rfl
    exact ⟨[], first, later, rfl, rfl⟩

theorem takesOut_later_iff :
    TakesOut ⟨[], (c, first) :: later⟩ (c :: before) d ↔ TakesOut ⟨first, later⟩ before d := by
  constructor
  · rintro ⟨_ | ⟨_, done⟩, piece, rest, hLater, hBefore⟩
    · cases hBefore
    · injection hLater with hCut hRest
      subst hCut
      exact ⟨done, piece, rest, hRest, (cons.inj hBefore).2⟩
  · rintro ⟨done, piece, rest, hLater, rfl⟩
    exact ⟨(c, first) :: done, piece, rest, congrArg _ hLater, rfl⟩

end Cuts

/- Split a text as `splitFrom` does, and keep the separators. -/
def cutFrom (separators : List Char) (depth : Nat) (previous : Char) : Text → Cuts
  | [] => ⟨[], []⟩
  | c :: rest =>
      let cuts :=
        cutFrom separators (depthAfter depth previous c) c rest
      if depth == 0 && isSeparator separators c then
        ⟨[], (c, cuts.first) :: cuts.later⟩
      else
        ⟨c :: cuts.first, cuts.later⟩

section

variable (separators : List Char) (depth : Nat) (previous : Char) (text : Text)

theorem splitFrom_eq_cutFrom :
    splitFrom separators depth previous text =
      ((cutFrom separators depth previous text).first,
        (cutFrom separators depth previous text).later.map Prod.snd) := by
  induction text generalizing depth previous with
  | nil => rfl
  | cons _ _ ih =>
    unfold splitFrom cutFrom
    simp only [ih]
    split <;> rfl

theorem splitTopLevel_eq_pieces :
    splitTopLevel separators text = (cutFrom separators 0 '\x00' text).pieces := by
  rw [splitTopLevel, splitFrom_eq_cutFrom]
  rfl

/- No character is lost. -/
theorem text_cutFrom :
    (cutFrom separators depth previous text).text = text := by
  induction text generalizing depth previous with
  | nil => rfl
  | cons c _ ih =>
    unfold cutFrom
    dsimp only
    split
    · exact congrArg (c :: ·) (ih _ _)
    · exact congrArg (c :: ·) (ih _ _)

theorem mem_of_mem_cutFrom :
    ∀ cut ∈ (cutFrom separators depth previous text).later, cut.1 ∈ separators := by
  induction text generalizing depth previous with
  | nil => exact forall_mem_nil _
  | cons _ _ ih =>
    unfold cutFrom
    dsimp only
    split
    · next hCut =>
      simp only [isSeparator, Bool.and_eq_true, contains_iff_mem] at hCut
      exact forall_mem_cons.mpr ⟨hCut.2.2, ih _ _⟩
    · exact ih _ _

variable {separators} (hFlat : ∀ c ∈ separators, isFlat c = true)
include hFlat

theorem isSeparator_iff (c : Char) :
    isSeparator separators c = true ↔ c ∈ separators := by
  simp only [isSeparator, Bool.and_eq_true, Bool.not_eq_true', contains_iff_mem]
  refine ⟨And.right, fun hMem => ⟨?_, hMem⟩⟩
  have hChar := hFlat c hMem
  simp only [isFlat, Bool.and_eq_true, Bool.not_eq_true'] at hChar
  exact hChar.1

/- A separator is taken out where the depth in front of it is zero. -/
theorem takesOut_cutFrom_iff (before : Text) (c : Char) (after : Text) :
    (cutFrom separators depth previous (before ++ c :: after)).TakesOut before c ↔
      c ∈ separators ∧ depthFrom depth previous before = 0 := by
  induction before generalizing depth previous with
  | nil =>
    rw [nil_append, cutFrom, depthFrom, ← isSeparator_iff hFlat]
    by_cases hCut : (depth == 0 && isSeparator separators c) = true
    · rw [if_pos hCut, Cuts.takesOut_nil_iff, and_comm]
      simpa using hCut
    · rw [if_neg hCut, and_comm]
      simpa [Cuts.TakesOut, Cuts.text] using hCut
  | cons _ _ ih =>
    rw [cons_append, cutFrom, depthFrom, ← ih]
    split
    · exact Cuts.takesOut_later_iff
    · exact Cuts.takesOut_cons_iff

/- No piece can be split once more. -/
theorem splitTopLevel_cutFrom :
    splitFrom separators depth previous (cutFrom separators depth previous text).first =
        ((cutFrom separators depth previous text).first, []) ∧
      ∀ cut ∈ (cutFrom separators depth previous text).later,
        splitTopLevel separators cut.2 = [cut.2] := by
  induction text generalizing depth previous with
  | nil => exact ⟨rfl, forall_mem_nil _⟩
  | cons c _ ih =>
    rcases ih (depthAfter depth previous c) c with ⟨hFirst, hLater⟩
    unfold cutFrom
    dsimp only
    split
    · next hCut =>
      rw [Bool.and_eq_true, beq_iff_eq, isSeparator_iff hFlat] at hCut
      have hChar := hFlat c hCut.2
      -- The next piece starts at depth zero, behind no equals sign.
      rw [depthAfter_of_isFlat hChar, hCut.1] at hFirst hLater ⊢
      rw [splitFrom_previous (ne_of_class hChar rfl)] at hFirst
      refine ⟨rfl, forall_mem_cons.mpr ⟨?_, hLater⟩⟩
      rw [splitTopLevel, hFirst]
    · next hKept =>
      rw [splitFrom, if_neg hKept, hFirst]
      exact ⟨rfl, hLater⟩

end

end Text

open Text

/-
  Splitting a text at separators that are no brackets and no
  equals signs leaves nothing out but the separators in front
  of which no bracket is open, and no piece can be split again.
-/
theorem splitTopLevel_cuts_outside_brackets
    {separators : List Char}
    (hSeparators : ∀ c ∈ separators, isOpening c = false ∧ isClosing c = false ∧ c ≠ '=')
    (text : Text) :
    ∃ cuts : Cuts,
      splitTopLevel separators text = cuts.pieces ∧ cuts.text = text ∧
        (∀ before c after, text = before ++ c :: after →
          (cuts.TakesOut before c ↔ c ∈ separators ∧ openBrackets before = 0)) ∧
        ∀ piece ∈ splitTopLevel separators text, splitTopLevel separators piece = [piece] := by
  have hFlat : ∀ c ∈ separators, isFlat c = true := by
    intro c hMem
    rcases hSeparators c hMem with ⟨hOpening, hClosing, hEquals⟩
    simp [isFlat, hOpening, hClosing, hEquals]
  have hSplit := splitTopLevel_eq_pieces separators text
  rcases splitTopLevel_cutFrom 0 '\x00' text hFlat with ⟨hFirst, hLater⟩
  refine ⟨_, hSplit, text_cutFrom _ _ _ text, ?_, ?_⟩
  · rintro before c after rfl
    rw [takesOut_cutFrom_iff _ _ hFlat, depthFrom_eq_openBrackets]
  · rw [hSplit]
    refine forall_mem_cons.mpr ⟨?_, forall_mem_map.mpr hLater⟩
    rw [splitTopLevel, hFirst]

/- An arrow, a bracket too many, and a separator in brackets. -/
theorem split_behind_arrow_and_brackets :
    (∀ c ∈ [',', ';'], isOpening c = false ∧ isClosing c = false ∧ c ≠ '=') ∧
      ∃ cuts : Cuts,
        splitTopLevel [',', ';'] "a>,() => [b,c];d" = cuts.pieces ∧
          cuts.pieces.length = 3 ∧ cuts.text = "a>,() => [b,c];d" ∧
          cuts.TakesOut "a>,() => [b,c]" ';' ∧ ¬cuts.TakesOut "a>,() => [b" ',' := by
  have hSeparators : ∀ c ∈ [',', ';'], isOpening c = false ∧ isClosing c = false ∧ c ≠ '=' := by
    simp [isOpening, isClosing]
  rcases splitTopLevel_cuts_outside_brackets hSeparators "a>,() => [b,c];d" with
    ⟨cuts, hSplit, hText, hTaken, _⟩
  refine ⟨hSeparators, cuts, hSplit, ?_, hText, ?_, ?_⟩
  · rw [← hSplit]
    decide
  · rw [hTaken _ ';' "d" rfl]
    decide
  · rw [hTaken _ ',' "c];d" rfl]
    decide

end ScriptLowering
