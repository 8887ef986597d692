import ScriptLowering.Proofs.Words
import ScriptLowering.Types.Application

/-
  Texts that splitting, trimming and rewriting leave whole.
  All of them work on raw characters. What they do to a text
  that is put together from parts follows from what they do
  to the parts, as long as the parts keep their brackets
  closed and words do not run into each other.

  Key theorems include:
    * `Nested.uncut`
    * `Nested.balanced`
-/

namespace ScriptLowering

open Text List

variable {mark c opening closing : Char}
variable {back text inner front blanks marks : Text}

namespace Text

-----
-- Characters
-----

/- Characters of different classes are different. -/
theorem ne_of_class {p : Char → Bool} (h : p c = true) (hMark : p mark = false) :
    c ≠ mark := by
  intro hSame
  rw [hSame, hMark] at h
  cases h

/- Characters that splitting has no regard for. -/
def isFlat (c : Char) : Bool :=
  !isOpening c && !isClosing c && c != '='

/- A class of characters without brackets and equals signs. -/
theorem isFlat_of_class
    {p : Char → Bool}
    (hMarks : (['<', '{', '(', '[', '>', '}', ')', ']', '='].all fun mark => !p mark) = true)
    (h : p c = true) :
    isFlat c = true := by
  simp only [all_cons, all_nil, Bool.and_true, Bool.and_eq_true, Bool.not_eq_true'] at hMarks
  simp [isFlat, isOpening, isClosing, ne_of_class h, hMarks]

theorem isFlat_of_isWordChar (h : isWordChar c = true) :
    isFlat c = true :=
  isFlat_of_class rfl h

theorem isFlat_of_isBlank (h : isBlank c = true) :
    isFlat c = true :=
  isFlat_of_class rfl h

/- Characters that words and blanks can be separated by. -/
def isDelimiter (c : Char) : Bool :=
  isFlat c && !isWordChar c && !isBlank c

theorem of_isDelimiter (h : isDelimiter c = true) :
    isFlat c = true ∧ isWordChar c = false ∧ isBlank c = false := by
  simpa [isDelimiter, and_assoc] using h

theorem depthAfter_of_isFlat (h : isFlat c = true) (depth : Nat) (previous : Char) :
    depthAfter depth previous c = depth := by
  simp only [isFlat, Bool.and_eq_true, Bool.not_eq_true'] at h
  rcases h with ⟨⟨hOpening, hClosing⟩, _⟩
  simp [depthAfter, hOpening, hClosing]

-----
-- Parts That Are Not Cut
-----

/- Only an equals sign has a say in what follows it. -/
theorem splitFrom_previous
    {previous : Char} (hPrevious : previous ≠ '=') (separators : List Char) (depth : Nat)
    (text : Text) :
    splitFrom separators depth previous text = splitFrom separators depth '\x00' text := by
  cases text with
  | nil => rfl
  | cons c =>
    have hDepth : depthAfter depth previous c = depthAfter depth '\x00' c := by
      simp [depthAfter, hPrevious]
    simp only [splitFrom, hDepth]

/-
  Splitting passes over the text where it starts at a depth
  of at least `floor`, and comes out at the same depth.
-/
def Uncut (separators : List Char) (floor : Nat) (text : Text) : Prop :=
  ∀ depth previous rest, floor ≤ depth → previous ≠ '=' →
    splitFrom separators depth previous (text ++ rest) =
      (text ++ (splitFrom separators depth '\x00' rest).1,
        (splitFrom separators depth '\x00' rest).2)

namespace Uncut

variable {separators : List Char} {floor : Nat}

theorem nil :
    Uncut separators floor [] := by
  intro depth previous rest _ hPrevious
  rw [nil_append, splitFrom_previous hPrevious]
  rfl

theorem append (hFront : Uncut separators floor front) (hBack : Uncut separators floor back) :
    Uncut separators floor (front ++ back) := by
  intro depth previous rest hDepth hPrevious
  rw [append_assoc, hFront depth previous _ hDepth hPrevious,
    hBack depth '\x00' rest hDepth (by decide), append_assoc]

theorem mono {above : Nat} (h : Uncut separators floor text) (hAbove : floor ≤ above) :
    Uncut separators above text := by
  intro depth previous rest hDepth
  exact h depth previous rest (hAbove.trans hDepth)

/- A flat character passes inside brackets, or if it does not separate. -/
theorem singleton (hFlat : isFlat c = true) (hPasses : 0 < floor ∨ c ∉ separators) :
    Uncut separators floor [c] := by
  intro depth previous rest hDepth _
  have hEquals : c ≠ '=' := ne_of_class hFlat rfl
  have hWhole : (depth == 0 && isSeparator separators c) = false := by
    rcases hPasses with hInside | hOther
    · have hPositive : depth ≠ 0 := by omega
      simp [hPositive]
    · simp [isSeparator, hOther]
  have hUnfold :
      splitFrom separators depth previous ([c] ++ rest) =
        (c :: (splitFrom separators depth c rest).1, (splitFrom separators depth c rest).2) := by
    simp only [singleton_append, splitFrom, depthAfter_of_isFlat hFlat, hWhole]
    rfl
  rw [hUnfold, splitFrom_previous hEquals]
  rfl

/- Whatever passes inside brackets passes with them. -/
theorem bracket
    (hOpening : isOpening opening = true) (hClosing : isClosing closing = true)
    (hInner : Uncut separators (floor + 1) inner) :
    Uncut separators floor (opening :: (inner ++ [closing])) := by
  intro depth previous rest hDepth _
  have hOpenEquals : opening ≠ '=' := ne_of_class hOpening rfl
  have hCloseEquals : closing ≠ '=' := ne_of_class hClosing rfl
  have hNotOpening : isOpening closing = false := by
    simp only [isClosing, Bool.or_eq_true, beq_iff_eq] at hClosing
    rcases hClosing with ((rfl | rfl) | rfl) | rfl <;> rfl
  have hOpen :
      splitFrom separators depth previous (opening :: (inner ++ (closing :: rest))) = (opening ::
            (splitFrom separators (depth + 1) opening (inner ++ (closing :: rest))).1,
          (splitFrom separators (depth + 1) opening (inner ++ (closing :: rest))).2) := by
    simp [splitFrom, depthAfter, isSeparator, hOpening]
  have hClose :
      splitFrom separators (depth + 1) '\x00' (closing :: rest) =
        (closing :: (splitFrom separators depth closing rest).1,
          (splitFrom separators depth closing rest).2) := by
    simp [splitFrom, depthAfter, hClosing, hNotOpening]
  have hText :
      opening :: (inner ++ [closing]) ++ rest = opening :: (inner ++ (closing :: rest)) := by
    simp
  rw [hText, hOpen, hInner (depth + 1) opening _ (by omega) hOpenEquals, hClose,
    splitFrom_previous hCloseEquals]
  simp

end Uncut

/- A separator at depth zero ends a part. -/
theorem splitFrom_separator
    {separators : List Char} {previous : Char} (hFlat : isFlat c = true)
    (hSeparates : c ∈ separators) (rest : Text) :
    splitFrom separators 0 previous (c :: rest) = ([], splitTopLevel separators rest) := by
  have hEquals : c ≠ '=' := ne_of_class hFlat rfl
  have hSeparator : isSeparator separators c = true := by
    simp only [isFlat, Bool.and_eq_true, Bool.not_eq_true'] at hFlat
    simp [isSeparator, hFlat.1.1, hFlat.1.2, hSeparates]
  simp only [splitFrom, depthAfter_of_isFlat hFlat, hSeparator]
  rw [splitFrom_previous hEquals]
  rfl

section Splitting

variable {separators : List Char}

theorem splitFrom_append
    (h : Uncut separators 0 front) (hFlat : isFlat c = true) (hSeparates : c ∈ separators)
    (back : Text) :
    splitFrom separators 0 '\x00' (front ++ c :: back) =
      (front, splitTopLevel separators back) := by
  rw [h 0 '\x00' (c :: back) (Nat.le_refl 0) (by decide), splitFrom_separator hFlat hSeparates]
  simp

theorem splitTopLevel_eq_singleton (h : Uncut separators 0 front) :
    splitTopLevel separators front = [front] := by
  have hWhole := h 0 '\x00' [] (Nat.le_refl 0) (by decide)
  rw [List.append_nil] at hWhole
  simp [splitTopLevel, hWhole, splitFrom]

/- A part that is not cut ends at the separator behind it. -/
theorem splitTopLevel_append
    (h : Uncut separators 0 front) (hFlat : isFlat c = true) (hSeparates : c ∈ separators)
    (back : Text) :
    splitTopLevel separators (front ++ c :: back) = front :: splitTopLevel separators back := by
  simp [splitTopLevel, splitFrom_append h hFlat hSeparates]

theorem containsTopLevel_eq_false (h : Uncut [c] 0 front) :
    containsTopLevel c front = false := by
  simp [containsTopLevel, splitTopLevel_eq_singleton h]

theorem cutTopLevel?_append (h : Uncut [c] 0 front) (hFlat : isFlat c = true) (back : Text) :
    cutTopLevel? c (front ++ c :: back) = some (front, back) := by
  unfold cutTopLevel?
  rw [splitFrom_append h hFlat mem_cons_self]
  simp [splitTopLevel]

end Splitting

-----
-- Trimming
-----

/- A text that starts and ends with characters that are not blank. -/
def Tight (text : Text) : Prop :=
  (∃ c, text.head? = some c ∧ isBlank c = false) ∧ ∃ c, text.getLast? = some c ∧ isBlank c = false

theorem Tight.ne_nil (h : Tight text) :
    text ≠ [] := by
  intro hNil
  rcases h.1 with ⟨_, hHead, _⟩
  rw [hNil] at hHead
  cases hHead

theorem dropWhile_blanks_append
    (hBlanks : ∀ c ∈ blanks, isBlank c = true) (hHead : text.head? = some c)
    (hFirst : isBlank c = false) :
    (blanks ++ text).dropWhile isBlank = text := by
  induction blanks with
  | nil =>
    cases text with
    | nil => cases hHead
    | cons =>
      cases hHead
      simp [hFirst]
  | cons _ _ ih =>
    rcases forall_mem_cons.mp hBlanks with ⟨hBlank, hRest⟩
    simp [hBlank, ih hRest]

theorem trimStart_blanks_append
    (hBlanks : ∀ c ∈ blanks, isBlank c = true) (hText : Tight text) (rest : Text) :
    trimStart (blanks ++ (text ++ rest)) = text ++ rest := by
  rcases hText.1 with ⟨_, hHead, hFirst⟩
  apply dropWhile_blanks_append hBlanks _ hFirst
  cases text with
  | nil => cases hHead
  | cons => simpa using hHead

theorem trimEnd_append_blanks (hText : Tight text) (hBlanks : ∀ c ∈ blanks, isBlank c = true) :
    trimEnd (text ++ blanks) = text := by
  rcases hText.2 with ⟨c, hLast, hFinal⟩
  have hHead : text.reverse.head? = some c := by rw [List.head?_reverse, hLast]
  unfold trimEnd
  rw [reverse_append, dropWhile_blanks_append _ hHead hFinal, reverse_reverse]
  intro d hMem
  exact hBlanks d (mem_reverse.mp hMem)

theorem trim_append_blanks
    {before after : Text} (hBefore : ∀ c ∈ before, isBlank c = true) (hText : Tight text)
    (hAfter : ∀ c ∈ after, isBlank c = true) :
    trim (before ++ (text ++ after)) = text := by
  rw [trim, trimStart_blanks_append hBefore hText, trimEnd_append_blanks hText hAfter]

theorem trim_eq_self (h : Tight text) :
    trim text = text := by
  simpa using trim_append_blanks (forall_mem_nil _) h (forall_mem_nil _)

theorem trim_cons_blank (h : isBlank c = true) (text : Text) :
    trim (c :: text) = trim text := by
  simp [trim, trimStart, h]

theorem isBlank_eq_false_of_isWordChar (h : isWordChar c = true) :
    isBlank c = false := by
  by_contra hBlank
  have hMark := isWordChar_eq_false_of_isBlank ((Bool.not_eq_false _).mp hBlank)
  rw [h] at hMark
  cases hMark

theorem IsWord.tight {word : Text} (h : IsWord word) :
    Tight word := by
  have hChars : ∀ c ∈ word, isBlank c = false := by
    intro c hMem
    exact isBlank_eq_false_of_isWordChar (all_eq_true.mp h.2 c hMem)
  refine ⟨⟨word.head h.1, List.head?_eq_some_head h.1, ?_⟩,
    ⟨word.getLast h.1, List.getLast?_eq_some_getLast h.1, ?_⟩⟩
  · exact hChars _ (head_mem h.1)
  · exact hChars _ (getLast_mem h.1)

-----
-- Endings
-----

theorem dropStart?_append (beginning rest : Text) :
    dropStart? (beginning ++ rest) beginning = some rest := by
  induction beginning with
  | nil => cases rest <;> rfl
  | cons _ _ ih => simp [dropStart?, ih]

theorem dropEnd?_append (text ending : Text) :
    dropEnd? (text ++ ending) ending = some text := by
  simp [dropEnd?, dropStart?_append]

theorem dropEnd?_eq_none
    {ending : Text} {d : Char} (hLast : text.getLast? = some c) (hEnding : ending.getLast? = some d)
    (hOther : c ≠ d) :
    dropEnd? text ending = none := by
  cases hDrop : dropEnd? text ending with
  | none => rfl
  | some =>
    have hText := dropEnd?_eq_some hDrop
    rw [hText, List.getLast?_append, hEnding] at hLast
    cases hLast
    exact absurd rfl hOther

-----
-- Rewriting
-----

/- A text in front of which a word ends. -/
def Apart (text : Text) : Prop :=
  ∀ c, text.head? = some c → isWordChar c = false

theorem Apart.of_marks (h : ∀ c ∈ marks, isWordChar c = false) :
    Apart marks := by
  intro c hHead
  exact h c (mem_of_mem_head? hHead)

theorem Apart.append (hFront : Apart front) (hNonempty : front ≠ []) :
    Apart (front ++ back) := by
  cases front with
  | nil => exact absurd rfl hNonempty
  | cons => exact hFront

/- A text is empty, or starts with a mark or with a whole word. -/
@[elab_as_elim]
theorem words_induction
    {motive : Text → Prop} (nil : motive [])
    (mark : ∀ c rest, isWordChar c = false → motive rest → motive (c :: rest))
    (word : ∀ run rest, IsWord run → Apart rest → motive rest → motive (run ++ rest))
    (text : Text) :
    motive text := by
  induction hLength : text.length using Nat.strong_induction_on generalizing text with
  | _ length ih =>
    cases text with
    | nil => exact nil
    | cons c rest =>
      by_cases hWord : isWordChar c = true
      · have hSplit := takeWhile_append_dropWhile (p := isWordChar) (l := c :: rest)
        have hRun : IsWord ((c :: rest).takeWhile isWordChar) := ⟨by simp [hWord], all_takeWhile⟩
        have hApart : Apart ((c :: rest).dropWhile isWordChar) := by
          intro d hHead
          have hNot := List.head?_dropWhile_not isWordChar (c :: rest)
          rw [hHead] at hNot
          simpa using hNot
        have hShort :
            ((c :: rest).dropWhile isWordChar).length <
              length := by
          have hSum := congrArg List.length hSplit
          rw [length_append] at hSum
          have hSome := length_pos_iff.mpr hRun.1
          omega
        rw [← hSplit]
        exact word _ _ hRun hApart (ih _ hShort _ rfl)
      · have hShort : rest.length < length := by
          rw [← hLength]
          exact Nat.lt_succ_self _
        exact mark c rest ((Bool.not_eq_true _).mp hWord) (ih _ hShort rest rfl)

theorem Apart.nil :
    Apart [] := by
  intro c hHead
  cases hHead

theorem Apart.cons (hMark : isWordChar c = false) (rest : Text) :
    Apart (c :: rest) := by
  intro d hHead
  cases hHead
  exact hMark

theorem IsWord.ne_of_mem
    {run : Text} (h : IsWord run) (hMem : c ∈ run) (hMark : isWordChar mark = false) :
    c ≠ mark :=
  ne_of_class (all_eq_true.mp h.2 c hMem) hMark

theorem words_word_append {run rest : Text} (hRun : IsWord run) (hRest : Apart rest) :
    words (run ++ rest) = run :: words rest := by
  cases rest with
  | nil => rw [append_nil, words_eq_singleton hRun, words_nil]
  | cons c =>
    rw [words_append_mark (hRest c rfl), words_cons_mark (hRest c rfl), words_eq_singleton hRun,
      singleton_append]

section Rewriting

variable (table : Text → Option Text)

theorem mapWords_append_mark (hMark : isWordChar mark = false) (front back : Text) :
    mapWords table (front ++ mark :: back) =
      mapWords table front ++ mark :: mapWords table back := by
  simp [mapWords, pieces_append_mark hMark, replacePiece]

theorem mapWords_cons_mark (hMark : isWordChar mark = false) (rest : Text) :
    mapWords table (mark :: rest) = mark :: mapWords table rest :=
  mapWords_append_mark table hMark [] rest

theorem Apart.mapWords (h : Apart text) :
    Apart (mapWords table text) := by
  cases text with
  | nil => exact h
  | cons c =>
    rw [mapWords_cons_mark table (h c rfl)]
    exact .cons (h c rfl) _

/- Words do not run into each other at a mark. -/
theorem mapWords_append (front : Text) (hBack : Apart back) :
    mapWords table (front ++ back) = mapWords table front ++ mapWords table back := by
  cases back with
  | nil => simp [mapWords, pieces]
  | cons mark back =>
    have hMark := hBack mark rfl
    rw [mapWords_append_mark table hMark]
    have hFirst := mapWords_append_mark table hMark [] back
    rw [nil_append] at hFirst
    rw [hFirst]
    simp [mapWords, pieces]

theorem mapWords_marks_append (hMarks : ∀ c ∈ marks, isWordChar c = false) (text : Text) :
    mapWords table (marks ++ text) = marks ++ mapWords table text := by
  induction marks with
  | nil => rfl
  | cons _ marks ih =>
    rcases forall_mem_cons.mp hMarks with ⟨hMark, hRest⟩
    have hFirst := mapWords_append_mark table hMark [] (marks ++ text)
    rw [nil_append] at hFirst
    rw [cons_append, hFirst, ih hRest]
    simp [mapWords, pieces]

theorem mapWords_marks (hMarks : ∀ c ∈ marks, isWordChar c = false) :
    mapWords table marks = marks := by
  have hAll := mapWords_marks_append table hMarks []
  simpa [mapWords, pieces] using hAll

/- Marks around a text stay where they are. -/
theorem mapWords_between
    {before after : Text} (hBefore : ∀ c ∈ before, isWordChar c = false) (text : Text)
    (hAfter : ∀ c ∈ after, isWordChar c = false) :
    mapWords table (before ++ (text ++ after)) = before ++ (mapWords table text ++ after) := by
  rw [mapWords_marks_append table hBefore, mapWords_append table text (.of_marks hAfter),
    mapWords_marks table hAfter]

theorem mapWords_word {word : Text} (h : IsWord word) :
    mapWords table word = replaceWord table word := by
  simp [mapWords, pieces_eq_singleton h, replacePiece]

end Rewriting

end Text

-----
-- Applications
-----

namespace Application

/- A text in which every angle bracket is closed. -/
def Balanced (text : Text) : Prop :=
  ∀ depth rest, isBalanced depth (text ++ rest) = isBalanced depth rest

namespace Balanced

theorem nil :
    Balanced [] := by
  intro depth rest
  rfl

theorem append (hFront : Balanced front) (hBack : Balanced back) :
    Balanced (front ++ back) := by
  intro depth rest
  rw [append_assoc, hFront, hBack]

theorem singleton (hOpening : c ≠ '<') (hClosing : c ≠ '>') :
    Balanced [c] := by
  intro depth rest
  simp [isBalanced, hOpening, hClosing]

theorem bracket (hInner : Balanced inner) :
    Balanced ('<' :: (inner ++ ['>'])) := by
  intro depth rest
  have hText : '<' :: (inner ++ ['>']) ++ rest = '<' :: (inner ++ '>' :: rest) := by simp
  have hOpen :
      isBalanced depth ('<' :: (inner ++ '>' :: rest)) =
        isBalanced (depth + 1) (inner ++ '>' :: rest) := by
    simp [isBalanced]
  have hClose : isBalanced (depth + 1) ('>' :: rest) = isBalanced depth rest := by simp [isBalanced]
  rw [hText, hOpen, hInner, hClose]

theorem isBalanced_eq_true (h : Balanced text) :
    isBalanced 0 text = true := by
  have hAll := h 0 []
  rw [append_nil] at hAll
  rw [hAll]
  rfl

end Balanced

variable {head : Text}

theorem takeWhile_head (hHead : head.isIdentifier = true) (rest : Text) :
    (head ++ '<' :: rest).takeWhile (· != '<') = head ∧
      (head ++ '<' :: rest).dropWhile (· != '<') = '<' :: rest := by
  have hChars : ∀ c ∈ head, (c != '<') = true := by
    intro c hMem
    have hWord := (Text.IsWord.of_isIdentifier hHead).2
    have hChar := all_eq_true.mp hWord c hMem
    exact bne_iff_ne.mpr (ne_of_class hChar rfl)
  constructor
  · rw [takeWhile_append_of_pos hChars]
    simp
  · rw [dropWhile_append_of_pos hChars]
    simp

/- Any text can stand in the brackets of an application. -/
theorem ofText?_bracketed (hHead : head.isIdentifier = true) (inner : Text) :
    ofText? (head ++ '<' :: (inner ++ ['>'])) =
      if isBalanced 0 inner then
        some ⟨head, (splitTopLevel [','] inner).map trim⟩
      else
        none := by
  rcases takeWhile_head hHead (inner ++ ['>']) with ⟨hTake, hDrop⟩
  have hFound : inner? (head ++ '<' :: (inner ++ ['>'])) = some inner := by
    unfold inner?
    rw [hDrop]
    simp
  have hTrim : trim head = head := trim_eq_self (Text.IsWord.of_isIdentifier hHead).tight
  unfold ofText?
  rw [hFound]
  simp only [hTake, hTrim, hHead, Bool.true_and]

/- A head with arguments in brackets is read as what it is. -/
theorem ofText?_applied (hHead : head.isIdentifier = true) (hInner : Balanced inner) :
    ofText? (head ++ '<' :: (inner ++ ['>'])) =
      some ⟨head, (splitTopLevel [','] inner).map trim⟩ := by
  rw [ofText?_bracketed hHead, if_pos hInner.isBalanced_eq_true]

theorem ofText?_eq_none (h : ∀ c ∈ text, c ≠ '<') :
    ofText? text = none := by
  have hNone : text.dropWhile (· != '<') = [] := by
    apply dropWhile_eq_nil_iff.mpr
    intro c hMem
    exact bne_iff_ne.mpr (h c hMem)
  simp [ofText?, inner?, hNone]

end Application

-----
-- Nested Texts
-----

def bracketPairs : List (Char × Char) :=
  [('<', '>'), ('{', '}'), ('[', ']')]

theorem isOpening_of_bracketPairs (hPair : (opening, closing) ∈ bracketPairs) :
    isOpening opening = true ∧ isClosing closing = true := by
  have hPairs : ∀ pair ∈ bracketPairs, isOpening pair.1 = true ∧ isClosing pair.2 = true := by
    decide
  exact hPairs _ hPair

/- Brackets of any kind around a text. -/
theorem Application.Balanced.pair
    (hInner : Balanced inner) (hPair : (opening, closing) ∈ bracketPairs) :
    Balanced (opening :: (inner ++ [closing])) := by
  simp only [bracketPairs, mem_cons, Prod.mk.injEq, not_mem_nil, or_false] at hPair
  rcases hPair with ⟨rfl, rfl⟩ | ⟨rfl, rfl⟩ | ⟨rfl, rfl⟩
  · exact hInner.bracket
  · have hOpening : Balanced ['{'] := .singleton (by decide) (by decide)
    have hClosing : Balanced ['}'] := .singleton (by decide) (by decide)
    exact hOpening.append (hInner.append hClosing)
  · have hOpening : Balanced ['['] := .singleton (by decide) (by decide)
    have hClosing : Balanced [']'] := .singleton (by decide) (by decide)
    exact hOpening.append (hInner.append hClosing)

/-
  Words, blanks and closed brackets. Separators stand inside
  brackets only, unless the text stands inside itself.
-/
inductive Nested : Bool → Text → Prop
  | nil {inside : Bool} :
      Nested inside []
  | flat
      {inside : Bool} {c : Char}
      (hChar :
        isWordChar c = true ∨ isBlank c = true ∨ inside = true ∧ c ∈ [',', ';', ':']) :
      Nested inside [c]
  | append
      {inside : Bool} {front back : Text} (hFront : Nested inside front)
      (hBack : Nested inside back) :
      Nested inside (front ++ back)
  | bracket
      {inside : Bool} {opening closing : Char} {inner : Text}
      (hPair : (opening, closing) ∈ bracketPairs) (hInner : Nested true inner) :
      Nested inside (opening :: (inner ++ [closing]))

namespace Nested

variable {inside : Bool}

theorem of_forall
    (h : ∀ c ∈ text, isWordChar c = true ∨ isBlank c = true ∨ inside = true ∧ c ∈ [',', ';', ':']) :
    Nested inside text := by
  induction text with
  | nil => exact .nil
  | cons _ _ ih =>
    rcases forall_mem_cons.mp h with ⟨hFirst, hRest⟩
    exact (Nested.flat hFirst).append (ih hRest)

theorem of_isWord (h : text.IsWord) :
    Nested inside text := by
  apply of_forall
  intro c hMem
  exact .inl (all_eq_true.mp h.2 c hMem)

theorem of_blanks (h : ∀ c ∈ text, isBlank c = true) :
    Nested inside text := by
  apply of_forall
  intro c hMem
  exact .inr (.inl (h c hMem))

/- What may stand outside of brackets may stand inside. -/
theorem within (h : Nested inside text) :
    Nested true text := by
  induction h with
  | nil => exact .nil
  | flat hChar =>
    apply Nested.flat
    rcases hChar with hWord | hBlank | ⟨_, hSeparator⟩
    · exact .inl hWord
    · exact .inr (.inl hBlank)
    · exact .inr (.inr ⟨rfl, hSeparator⟩)
  | append _ _ ihFront ihBack => exact ihFront.append ihBack
  | bracket hPair hInner => exact .bracket hPair hInner

theorem isFlat_of_char
    (h : isWordChar c = true ∨ isBlank c = true ∨ inside = true ∧ c ∈ [',', ';', ':']) :
    isFlat c = true := by
  rcases h with hWord | hBlank | ⟨_, hSeparator⟩
  · exact isFlat_of_isWordChar hWord
  · exact isFlat_of_isBlank hBlank
  · have hFlat : [',', ';', ':'].all isFlat = true := rfl
    exact all_eq_true.mp hFlat c hSeparator

/- No text is cut at characters of which it has none outside. -/
theorem uncut
    {separators : List Char} (hSeparators : separators.all isDelimiter = true)
    (h : Nested inside text) :
    Text.Uncut separators (if inside then 1 else 0) text := by
  induction h with
  | nil => exact .nil
  | @flat _ c hChar =>
    apply Text.Uncut.singleton (isFlat_of_char hChar)
    rcases hChar with hWord | hBlank | ⟨rfl, _⟩
    · right
      intro hMem
      have hClass := of_isDelimiter (all_eq_true.mp hSeparators c hMem)
      rw [hClass.2.1] at hWord
      cases hWord
    · right
      intro hMem
      have hClass := of_isDelimiter (all_eq_true.mp hSeparators c hMem)
      rw [hClass.2.2] at hBlank
      cases hBlank
    · left
      exact Nat.one_pos
  | append _ _ ihFront ihBack => exact ihFront.append ihBack
  | bracket hPair _ ihInner =>
    rcases isOpening_of_bracketPairs hPair with ⟨hOpening, hClosing⟩
    apply Text.Uncut.bracket hOpening hClosing
    exact ihInner.mono (by simp)

theorem balanced (h : Nested inside text) :
    Application.Balanced text := by
  induction h with
  | nil => exact .nil
  | flat hChar =>
    have hFlat := isFlat_of_char hChar
    exact .singleton (ne_of_class hFlat rfl) (ne_of_class hFlat rfl)
  | append _ _ ihFront ihBack => exact ihFront.append ihBack
  | bracket hPair _ ihInner => exact ihInner.pair hPair

/- Nothing that the four kinds of characters do not have. -/
theorem forall_ne
    (hMark :
      isWordChar mark = false ∧ isBlank mark = false ∧
        mark ∉ [',', ';', ':', '<', '>', '{', '}', '[', ']'])
    (h : Nested inside text) :
    ∀ c ∈ text, c ≠ mark := by
  rcases hMark with ⟨hWordMark, hBlankMark, hOthers⟩
  induction h with
  | nil => exact forall_mem_nil _
  | @flat _ _ hChar =>
    intro other hMem
    rw [mem_singleton.mp hMem]
    rcases hChar with hWord | hBlank | ⟨_, hSeparator⟩
    · exact ne_of_class hWord hWordMark
    · exact ne_of_class hBlank hBlankMark
    · intro hSame
      rw [hSame] at hSeparator
      exact hOthers (mem_of_mem_take (i := 3) hSeparator)
  | append _ _ ihFront ihBack => exact forall_mem_append.mpr ⟨ihFront, ihBack⟩
  | bracket hPair _ ihInner =>
    have hBrackets :
        ∀ pair ∈ bracketPairs,
          pair.1 ∈ [',', ';', ':', '<', '>', '{', '}', '[', ']'] ∧
            pair.2 ∈ [',', ';', ':', '<', '>', '{', '}', '[', ']'] := by
      decide
    rcases hBrackets _ hPair with ⟨hOpening, hClosing⟩
    intro c hMem
    rcases mem_cons.mp hMem with rfl | hRest
    · intro hSame
      rw [← hSame] at hOthers
      exact hOthers hOpening
    · rcases mem_append.mp hRest with hInner | hLast
      · exact ihInner c hInner
      · intro hSame
        rw [← hSame, mem_singleton.mp hLast] at hOthers
        exact hOthers hClosing

end Nested

end ScriptLowering
