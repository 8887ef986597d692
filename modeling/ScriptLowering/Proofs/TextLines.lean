import ScriptLowering.Layout.BlankLines

/-
  The lines of a text, and which of them blank lines are left
  of. Where blank lines only stand alone, each behind a line
  that is not blank, normalizing a text drops no more than
  the blank line at its end.

  Key theorems include:
    * `Text.collapseBreaks_paragraphs`
    * `Text.lines_normalizeBlankLines`
-/

namespace ScriptLowering

open List

namespace Text

-----
-- Lines
-----

/- A text without a line break. -/
def LineFree (text : Text) : Prop :=
  '\n' ∉ text

@[simp] theorem lineFree_nil :
    LineFree [] :=
  not_mem_nil

variable {paragraphs : List (List Text)} {c : Char} {text line : Text}

@[simp] theorem lineFree_cons :
    LineFree (c :: text) ↔ c ≠ '\n' ∧ LineFree text := by
  simp [LineFree, eq_comm]

@[simp] theorem lineFree_append {front back : Text} :
    LineFree (front ++ back) ↔ LineFree front ∧ LineFree back := by
  simp [LineFree]

/- The lines of a text; a line break ends a line. -/
def lines : Text → List Text
  | [] => []
  | c :: rest =>
      if c = '\n' then
        [] :: lines rest
      else
        match lines rest with
        | [] => [[c]]
        | line :: more => (c :: line) :: more

/- Lines, each with a line break behind it. -/
def unlines (texts : List Text) : Text :=
  texts.flatMap fun line => line ++ "\n"

@[simp] theorem unlines_nil :
    unlines [] = [] :=
  rfl

@[simp] theorem unlines_cons (line : Text) (rest : List Text) :
    unlines (line :: rest) = line ++ '\n' :: unlines rest := by
  simp [unlines]

@[simp] theorem unlines_append (front back : List Text) :
    unlines (front ++ back) = unlines front ++ unlines back := by
  simp [unlines]

theorem lines_cons_break (rest : Text) :
    lines ('\n' :: rest) = [] :: lines rest := by
  simp [lines]

theorem lines_cons_of_eq_cons
    (hChar : c ≠ '\n') {rest : Text} {more : List Text} (h : lines rest = line :: more) :
    lines (c :: rest) = (c :: line) :: more := by
  simp [lines, hChar, h]

/- A line break ends a line, whatever comes next. -/
theorem exists_lines_append_break (front back : Text) :
    ∃ line more,
      lines (front ++ ['\n']) = line :: more ∧
        lines (front ++ '\n' :: back) = line :: (more ++ lines back) := by
  induction front with
  | nil => exact ⟨[], [], rfl, lines_cons_break back⟩
  | cons c _ ih =>
    rcases ih with ⟨line, more, hAlone, hWith⟩
    by_cases hBreak : c = '\n'
    · subst hBreak
      refine ⟨[], line :: more, ?_, ?_⟩
      · rw [cons_append, lines_cons_break, hAlone]
      · rw [cons_append, lines_cons_break, hWith]
        rfl
    · exact
        ⟨c :: line, more, lines_cons_of_eq_cons hBreak hAlone, lines_cons_of_eq_cons hBreak hWith⟩

theorem lines_append_break (front back : Text) :
    lines (front ++ '\n' :: back) = lines (front ++ ['\n']) ++ lines back := by
  rcases exists_lines_append_break front back with ⟨line, _, hAlone, hWith⟩
  rw [hAlone, hWith]
  rfl

/- A line that has no line break in it is one line. -/
theorem lines_line (h : LineFree line) :
    lines (line ++ ['\n']) = [line] := by
  induction line with
  | nil => rfl
  | cons _ _ ih =>
    rcases lineFree_cons.mp h with ⟨hChar, hRest⟩
    exact lines_cons_of_eq_cons hChar (ih hRest)

theorem lines_unlines {texts : List Text} (h : ∀ line ∈ texts, LineFree line) :
    lines (unlines texts) = texts := by
  induction texts with
  | nil => rfl
  | cons _ _ ih =>
    rcases forall_mem_cons.mp h with ⟨hLine, hRest⟩
    rw [unlines_cons, lines_append_break, lines_line hLine, ih hRest]
    rfl

/- The last line has the character before its line break. -/
theorem exists_lines_concat (front : Text) (hChar : c ≠ '\n') :
    ∃ before line, lines (front ++ [c, '\n']) = before ++ [line ++ [c]] := by
  induction front with
  | nil =>
    have hFree : LineFree [c] := by simpa [LineFree] using hChar.symm
    exact ⟨[], [], lines_line hFree⟩
  | cons d _ ih =>
    rcases ih with ⟨before, line, hLines⟩
    by_cases hBreak : d = '\n'
    · subst hBreak
      refine ⟨[] :: before, line, ?_⟩
      rw [cons_append, lines_cons_break, hLines]
      rfl
    · cases before with
      | nil => exact ⟨[], d :: line, lines_cons_of_eq_cons hBreak hLines⟩
      | cons first more => exact ⟨(d :: first) :: more, line, lines_cons_of_eq_cons hBreak hLines⟩

-----
-- Blank Lines
-----

/- Lines that are not blank, and a blank line behind at most. -/
def IsParagraph (texts : List Text) : Prop :=
  ∃ body, body ≠ [] ∧ (∀ line ∈ body, line ≠ []) ∧ (texts = body ∨ texts = body ++ [[]])

theorem collapseBreaks_append (hChar : c ≠ '\n') (seen : Nat) (front back : Text) :
    collapseBreaks seen (front ++ c :: back) =
      collapseBreaks seen front ++ c :: collapseBreaks 0 back := by
  induction front generalizing seen with
  | nil => simp [collapseBreaks, hChar]
  | cons d _ ih =>
    simp only [cons_append, collapseBreaks]
    by_cases hBreak : d = '\n'
    · rw [if_pos hBreak, if_pos hBreak]
      by_cases hSeen : seen < 2
      · rw [if_pos hSeen, if_pos hSeen, ih]
        rfl
      · rw [if_neg hSeen, if_neg hSeen, ih]
    · rw [if_neg hBreak, if_neg hBreak, ih]
      rfl

/- A line that is not blank is kept, with its line break. -/
theorem collapseBreaks_line (hFree : LineFree line) (hSome : line ≠ []) (seen : Nat) (rest : Text) :
    collapseBreaks seen (line ++ '\n' :: rest) = line ++ '\n' :: collapseBreaks 1 rest := by
  induction line generalizing seen with
  | nil => exact absurd rfl hSome
  | cons _ more ih =>
    rcases lineFree_cons.mp hFree with ⟨hChar, hMore⟩
    cases more with
    | nil => simp [collapseBreaks, hChar]
    | cons =>
      rw [cons_append, collapseBreaks, if_neg hChar, ih hMore (cons_ne_nil _ _)]
      rfl

theorem collapseBreaks_body
    {body : List Text} (hFree : ∀ line ∈ body, LineFree line) (hSome : ∀ line ∈ body, line ≠ [])
    (hBody : body ≠ []) (seen : Nat) (rest : Text) :
    collapseBreaks seen (unlines body ++ rest) = unlines body ++ collapseBreaks 1 rest := by
  induction body generalizing seen with
  | nil => exact absurd rfl hBody
  | cons _ more ih =>
    rcases forall_mem_cons.mp hFree with ⟨hLine, hMore⟩
    rcases forall_mem_cons.mp hSome with ⟨hFull, hOthers⟩
    have hKept := collapseBreaks_line hLine hFull seen (unlines more ++ rest)
    cases more with
    | nil => simpa using hKept
    | cons =>
      rw [ih hMore hOthers (cons_ne_nil _ _)] at hKept
      simpa using hKept

/- Blank lines that stand alone are kept. -/
theorem collapseBreaks_paragraphs
    (hParagraphs : ∀ texts ∈ paragraphs, IsParagraph texts)
    (hFree : ∀ texts ∈ paragraphs, ∀ line ∈ texts, LineFree line) (seen : Nat) :
    collapseBreaks seen (unlines paragraphs.flatten) = unlines paragraphs.flatten := by
  induction paragraphs generalizing seen with
  | nil => rfl
  | cons _ _ ih =>
    rcases forall_mem_cons.mp hParagraphs with ⟨hFirst, hRest⟩
    rcases forall_mem_cons.mp hFree with ⟨hFirstFree, hRestFree⟩
    rcases hFirst with ⟨_, hBody, hSome, rfl | rfl⟩
    · rw [flatten_cons, unlines_append, collapseBreaks_body hFirstFree hSome hBody,
        ih hRest hRestFree]
    · have hBodyFree := (forall_mem_append.mp hFirstFree).1
      have hBlank :
          ∀ text : Text, collapseBreaks 1 ('\n' :: text) = '\n' :: collapseBreaks 2 text := by
        intro text
        simp [collapseBreaks]
      rw [flatten_cons, unlines_append, unlines_append, append_assoc,
        collapseBreaks_body hBodyFree hSome hBody]
      simp only [unlines_cons, unlines_nil, nil_append, cons_append, hBlank, ih hRest hRestFree]

/- How a text ends whose blank lines stand alone. -/
def EndsSpaced (text : Text) : Prop :=
  ∃ front c, c ≠ '\n' ∧ (text = front ++ [c, '\n'] ∨ text = front ++ [c, '\n', '\n'])

theorem EndsSpaced.append (h : EndsSpaced text) (front : Text) :
    EndsSpaced (front ++ text) := by
  rcases h with ⟨back, c, hChar, rfl | rfl⟩
  · exact ⟨front ++ back, c, hChar, .inl (by simp)⟩
  · exact ⟨front ++ back, c, hChar, .inr (by simp)⟩

theorem IsParagraph.endsSpaced
    {texts : List Text} (h : IsParagraph texts) (hFree : ∀ line ∈ texts, LineFree line) :
    EndsSpaced (unlines texts) := by
  rcases h with ⟨body, hBody, hSome, hTexts⟩
  rcases eq_nil_or_concat body with rfl | ⟨lead, last, rfl⟩
  · exact absurd rfl hBody
  · have hLast : last ∈ texts := by
      rcases hTexts with rfl | rfl
      · simp
      · simp
    have hFull : last ≠ [] := hSome last (by simp)
    rcases eq_nil_or_concat last with rfl | ⟨line, c, rfl⟩
    · exact absurd rfl hFull
    · have hChar : c ≠ '\n' := by
        intro hSame
        exact hFree _ hLast (by simp [hSame])
      refine ⟨unlines lead ++ line, c, hChar, ?_⟩
      rcases hTexts with rfl | rfl
      · exact .inl (by simp)
      · exact .inr (by simp)

theorem endsSpaced_paragraphs
    (hParagraphs : ∀ texts ∈ paragraphs, IsParagraph texts)
    (hFree : ∀ texts ∈ paragraphs, ∀ line ∈ texts, LineFree line) (hSome : paragraphs ≠ []) :
    EndsSpaced (unlines paragraphs.flatten) := by
  rcases eq_nil_or_concat paragraphs with rfl | ⟨_, last, rfl⟩
  · exact absurd rfl hSome
  · rw [concat_eq_append, flatten_concat, unlines_append]
    exact ((hParagraphs last (by simp)).endsSpaced (hFree last (by simp))).append _

-----
-- Normalized Texts
-----

/- Lines without a blank line at the end. -/
def withoutLastBlank (texts : List Text) : List Text :=
  if texts.getLast? = some [] then
    texts.dropLast
  else
    texts

theorem lines_dropLastBreaks (h : EndsSpaced text) :
    lines (dropLastBreaks text ++ "\n") = withoutLastBlank (lines text) := by
  rcases h with ⟨front, c, hChar, rfl | rfl⟩
  · rcases exists_lines_concat front hChar with ⟨_, line, hLines⟩
    have hText : dropLastBreaks (front ++ [c, '\n']) ++ "\n" = front ++ [c, '\n'] := by
      simp [dropLastBreaks, hChar]
    rw [hText, withoutLastBlank, if_neg]
    simp [hLines]
  · have hText : dropLastBreaks (front ++ [c, '\n', '\n']) ++ "\n" = front ++ [c, '\n'] := by
      simp [dropLastBreaks, hChar]
    have hLines : lines (front ++ [c, '\n', '\n']) = lines (front ++ [c, '\n']) ++ [[]] := by
      have hSplit := lines_append_break (front ++ [c]) ['\n']
      rw [lines_cons_break] at hSplit
      simpa [lines] using hSplit
    rw [hText, hLines, withoutLastBlank, if_pos (by simp)]
    simp

/-
  A text that goes on in paragraphs behind a blank line: all
  lines behind are kept, but a blank one at the end.
-/
theorem lines_normalizeBlankLines
    (front : Text) (hChar : c ≠ '\n') (hParagraphs : ∀ texts ∈ paragraphs, IsParagraph texts)
    (hFree : ∀ texts ∈ paragraphs, ∀ line ∈ texts, LineFree line) :
    lines (normalizeBlankLines (front ++ c :: '\n' :: '\n' ::
            unlines paragraphs.flatten)) =
      withoutLastBlank
        (lines (collapseBreaks 0 (front ++ [c, '\n', '\n'])) ++ paragraphs.flatten) := by
  have hTwo :
      ∀ text : Text,
        collapseBreaks 0 ('\n' :: '\n' :: text) = '\n' :: '\n' :: collapseBreaks 2 text := by
    intro text
    simp [collapseBreaks]
  have hKept :
      collapseBreaks 0 (front ++ c :: '\n' :: '\n' ::
            unlines paragraphs.flatten) =
        collapseBreaks 0 front ++ c :: '\n' :: '\n' ::
          unlines paragraphs.flatten := by
    rw [collapseBreaks_append hChar, hTwo, collapseBreaks_paragraphs hParagraphs hFree]
  have hOpening :
      collapseBreaks 0 (front ++ [c, '\n', '\n']) = collapseBreaks 0 front ++ [c, '\n', '\n'] := by
    rw [collapseBreaks_append hChar, hTwo]
    rfl
  have hEnds :
      EndsSpaced (collapseBreaks 0 front ++ c :: '\n' :: '\n' ::
          unlines paragraphs.flatten) := by
    by_cases hSome : paragraphs = []
    · subst hSome
      exact ⟨_, c, hChar, .inr rfl⟩
    · have hLast :=
        (endsSpaced_paragraphs hParagraphs hFree hSome).append
          (collapseBreaks 0 front ++ [c, '\n', '\n'])
      simpa using hLast
  have hLines :
      lines (collapseBreaks 0 front ++ c :: '\n' :: '\n' ::
            unlines paragraphs.flatten) =
        lines (collapseBreaks 0 front ++ [c, '\n', '\n']) ++ paragraphs.flatten := by
    have hAll : ∀ line ∈ paragraphs.flatten, LineFree line := by
      intro line hLine
      rcases mem_flatten.mp hLine with ⟨texts, hTexts, hMem⟩
      exact hFree texts hTexts line hMem
    have hSplit :=
      lines_append_break (collapseBreaks 0 front ++ [c, '\n']) (unlines paragraphs.flatten)
    rw [lines_unlines hAll] at hSplit
    simpa using hSplit
  rw [normalizeBlankLines, hKept, lines_dropLastBreaks hEnds, hLines, hOpening]

end Text

end ScriptLowering
