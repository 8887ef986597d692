import Mathlib.Data.List.DropRight
import ScriptLowering.Proofs.PageTree
import ScriptLowering.Proofs.TextLines

/-
  Blank lines of finished texts. Normalizing keeps all lines
  that are not blank, and changes no text twice. It leaves no
  three line breaks in a row, so blank lines meet at the
  start of a text only, where no line stands before them.

  Key theorems include:
    * `finishing_keeps_full_lines`
    * `blank_lines_meet_at_start_only`
-/

namespace ScriptLowering

open List

namespace Text

variable {c : Char} {front back text : Text} {seen : Nat} {more : List Text}

-----
-- Full Lines
-----

/- The lines of a text that are not blank. -/
def fullLines (text : Text) : List Text :=
  (lines text).filter fun line => !line.isEmpty

/- The last line of a text may have a line break or not. -/
theorem lines_concat_break (front : Text) (hChar : c ≠ '\n') :
    lines (front ++ [c, '\n']) = lines (front ++ [c]) := by
  induction front with
  | nil => simp [lines, hChar]
  | cons _ _ ih => simp only [cons_append, lines, ih]

/- Full lines are told apart by line breaks, and by nothing else. -/
theorem fullLines_append_break (front back : Text) :
    fullLines (front ++ '\n' :: back) = fullLines front ++ fullLines back := by
  have hFront : fullLines (front ++ ['\n']) = fullLines front := by
    rcases eq_nil_or_concat front with rfl | ⟨lead, c, rfl⟩
    · rfl
    · rw [concat_eq_append, append_assoc, singleton_append]
      by_cases hBreak : c = '\n'
      · subst hBreak
        rw [fullLines, lines_append_break, filter_append]
        exact append_nil _
      · rw [fullLines, lines_concat_break lead hBreak]
        rfl
  rw [← hFront, fullLines, lines_append_break, filter_append]
  rfl

/-
  A line break that is left out has another one before it, so
  what stands before does not go on in what stands behind.
-/
theorem fullLines_append_collapseBreaks
    (front text : Text)
    (h : 2 ≤ seen → ∀ back, fullLines (front ++ back) = fullLines front ++ fullLines back) :
    fullLines (front ++ collapseBreaks seen text) = fullLines (front ++ text) := by
  induction text generalizing front seen with
  | nil => rfl
  | cons c rest ih =>
    rw [collapseBreaks, append_cons front c rest]
    by_cases hBreak : c = '\n'
    · subst hBreak
      have hClosed :
          ∀ back,
            fullLines (front ++ ['\n'] ++ back) =
              fullLines (front ++ ['\n']) ++ fullLines back := by
        intro back
        rw [← append_cons, fullLines_append_break, fullLines_append_break]
        exact congrArg (· ++ _) (append_nil _).symm
      rw [if_pos rfl]
      by_cases hSeen : seen < 2
      · rw [if_pos hSeen, append_cons]
        exact ih _ fun _ => hClosed
      · have hOpen := h (Nat.le_of_not_lt hSeen)
        rw [if_neg hSeen, ih _ fun _ => hOpen, hOpen, ← append_cons, fullLines_append_break]
    · rw [if_neg hBreak, append_cons]
      exact ih _ fun hMany => absurd hMany (by decide)

theorem fullLines_dropLastBreaks (text : Text) :
    fullLines (dropLastBreaks text) = fullLines text := by
  induction text using reverseRecOn with
  | nil => rfl
  | append_singleton front c ih =>
    by_cases hBreak : c = '\n'
    · subst hBreak
      rw [fullLines_append_break, ← ih]
      exact (congrArg _ (rdropWhile_concat_pos _ front '\n' rfl)).trans (append_nil _).symm
    · exact congrArg _ (rdropWhile_concat_neg _ front c (by simpa using hBreak))

theorem fullLines_normalizeBlankLines (text : Text) :
    fullLines (normalizeBlankLines text) = fullLines text :=
  calc
    _ = fullLines (dropLastBreaks (collapseBreaks 0 text)) ++ [] :=
      fullLines_append_break _ []
    _ = fullLines (collapseBreaks 0 text) := by
      rw [append_nil, fullLines_dropLastBreaks]
    _ = fullLines text :=
      fullLines_append_collapseBreaks [] text fun hMany => absurd hMany (by decide)

-----
-- Runs Of Line Breaks
-----

/- At most two line breaks in a row, some of which were seen before. -/
def Spaced : Nat → Text → Prop
  | _, [] => True
  | seen, c :: rest =>
      if c = '\n' then
        seen < 2 ∧ Spaced (seen + 1) rest
      else
        Spaced 0 rest

theorem Spaced.of_succ (h : Spaced (seen + 1) text) :
    Spaced seen text := by
  induction text generalizing seen with
  | nil => trivial
  | cons _ _ ih =>
    unfold Spaced at h ⊢
    split
    · next hBreak =>
      rw [if_pos hBreak] at h
      exact ⟨Nat.lt_of_succ_lt h.1, ih h.2⟩
    · next hChar =>
      rw [if_neg hChar] at h
      exact h

theorem spaced_collapseBreaks (seen : Nat) (text : Text) :
    Spaced seen (collapseBreaks seen text) := by
  fun_induction collapseBreaks seen text with
  | case1 => trivial
  | case2 _ _ hSeen ih => exact ⟨hSeen, ih⟩
  | case3 _ _ _ ih => exact ih.of_succ
  | case4 _ _ _ hChar ih => simpa [Spaced, hChar] using ih

theorem collapseBreaks_of_spaced (h : Spaced seen text) :
    collapseBreaks seen text = text := by
  fun_induction collapseBreaks seen text with
  | case1 => rfl
  | case2 _ _ _ ih => rw [ih h.2]
  | case3 _ _ hSeen => exact absurd h.1 hSeen
  | case4 _ _ _ hChar ih => rw [ih (by simpa [Spaced, hChar] using h)]

/- Another character starts to count anew. -/
theorem spaced_append_cons (hChar : c ≠ '\n') :
    Spaced seen (front ++ c :: back) ↔ Spaced seen front ∧ Spaced 0 back := by
  induction front generalizing seen with
  | nil => simp [Spaced, hChar]
  | cons _ _ ih =>
    simp only [cons_append, Spaced, ih]
    split
    · rw [and_assoc]
    · rfl

theorem Spaced.of_append (h : Spaced seen (front ++ back)) :
    Spaced seen front := by
  induction front generalizing seen with
  | nil => trivial
  | cons _ _ ih =>
    simp only [cons_append, Spaced] at h ⊢
    split
    · next hBreak =>
      rw [if_pos hBreak] at h
      exact ⟨h.1, ih h.2⟩
    · next hChar =>
      rw [if_neg hChar] at h
      exact ih h

-----
-- Normalized Texts
-----

/- What is left of a text is empty or ends with another character. -/
theorem dropLastBreaks_cases (text : Text) :
    dropLastBreaks text = [] ∨ ∃ front c, c ≠ '\n' ∧ dropLastBreaks text = front ++ [c] := by
  by_cases hEmpty : dropLastBreaks text = []
  · exact .inl hEmpty
  · refine .inr ⟨_, _, ?_, (dropLast_append_getLast hEmpty).symm⟩
    have hLast := rdropWhile_last_not (· == '\n') text hEmpty
    exact fun hBreak => hLast (beq_iff_eq.mpr hBreak)

theorem getLast?_dropLastBreaks (text : Text) :
    (dropLastBreaks text).getLast? ≠ some '\n' := by
  rcases dropLastBreaks_cases text with hEmpty | ⟨_, _, hChar, hBody⟩
  · simp [hEmpty]
  · simpa [hBody] using hChar

theorem spaced_normalizeBlankLines (text : Text) :
    Spaced 0 (normalizeBlankLines text) := by
  rcases rdropWhile_prefix (· == '\n') (collapseBreaks 0 text) with ⟨_, hBreaks⟩
  have hSpaced := spaced_collapseBreaks 0 text
  rw [← hBreaks] at hSpaced
  have hBody : Spaced 0 (dropLastBreaks (collapseBreaks 0 text)) := hSpaced.of_append
  unfold normalizeBlankLines
  rcases dropLastBreaks_cases (collapseBreaks 0 text) with hEmpty | ⟨_, _, hChar, hSome⟩
  · rw [hEmpty]
    exact ⟨by decide, trivial⟩
  · rw [hSome] at hBody ⊢
    rw [append_assoc]
    exact (spaced_append_cons hChar).mpr ⟨hBody.of_append, by decide, trivial⟩

theorem normalizeBlankLines_normalizeBlankLines (text : Text) :
    normalizeBlankLines (normalizeBlankLines text) = normalizeBlankLines text := by
  have hCollapsed := collapseBreaks_of_spaced (spaced_normalizeBlankLines text)
  rw [normalizeBlankLines, hCollapsed, normalizeBlankLines]
  have hBreak := rdropWhile_concat_pos (· == '\n') (dropLastBreaks (collapseBreaks 0 text)) '\n' rfl
  exact congrArg (· ++ _) (hBreak.trans (rdropWhile_idempotent _ _))

theorem sublist_collapseBreaks (seen : Nat) (text : Text) :
    collapseBreaks seen text <+ text := by
  fun_induction collapseBreaks seen text with
  | case1 => exact Sublist.refl []
  | case2 _ _ _ ih => exact ih.cons_cons _
  | case3 _ _ _ ih => exact ih.cons _
  | case4 _ c _ _ ih => exact ih.cons_cons c

-----
-- Blank Lines In A Row
-----

/- A blank line is a line break. -/
theorem lines_eq_nil_cons (h : lines text = [] :: more) :
    ∃ rest, text = '\n' :: rest ∧ lines rest = more := by
  cases text with
  | nil => cases h
  | cons _ rest =>
    unfold lines at h
    split at h
    · next hBreak =>
      cases h
      exact ⟨rest, by rw [hBreak], rfl⟩
    · split at h <;> cases h

/-
  Behind a line there is a line break already, so two blank
  lines would make three in a row.
-/
theorem Spaced.eq_nil_of_lines
    (h : Spaced seen text) {before : List Text} (hLines : lines text = before ++ [] :: [] :: more) :
    before = [] ∧ seen = 0 := by
  induction text generalizing seen before with
  | nil => simp [lines] at hLines
  | cons _ rest ih =>
    unfold Spaced at h
    unfold lines at hLines
    split at h
    · next hBreak =>
      rw [if_pos hBreak] at hLines
      cases before with
      | nil =>
        rcases lines_eq_nil_cons (cons.inj hLines).2 with ⟨_, rfl, -⟩
        exact ⟨rfl, by have := h.2.1; omega⟩
      | cons => exact absurd (ih h.2 (cons.inj hLines).2).2 (Nat.succ_ne_zero seen)
    · next hChar =>
      rw [if_neg hChar] at hLines
      cases before with
      | nil => split at hLines <;> cases hLines
      | cons _ others =>
        cases hRest : lines rest with
        | nil => simp [hRest] at hLines
        | cons first =>
          rw [hRest] at hLines
          have hBefore : lines rest = (first :: others) ++ [] :: [] :: more := by
            rw [hRest, (cons.inj hLines).2]
            rfl
          exact absurd (ih h hBefore).1 (cons_ne_nil first others)

/- Two blank lines to start with are two line breaks. -/
theorem blank_pair_prefix_iff :
    [[], []] <+: lines text ↔ ∃ rest, text = '\n' :: '\n' :: rest := by
  constructor
  · rintro ⟨_, hLines⟩
    rcases lines_eq_nil_cons hLines.symm with ⟨rest, rfl, hRest⟩
    rcases lines_eq_nil_cons hRest with ⟨last, rfl, -⟩
    exact ⟨last, rfl⟩
  · rintro ⟨rest, rfl⟩
    rw [lines_cons_break, lines_cons_break]
    exact prefix_append [[], []] (lines rest)

theorem exists_front_of_breaks
    (hChar : c ≠ '\n') {rest : Text} (h : front ++ c :: back = '\n' :: '\n' :: rest) :
    ∃ others, front = '\n' :: '\n' :: others := by
  rcases front with _ | ⟨_, _ | ⟨_, others⟩⟩
  · exact absurd (cons.inj h).1 hChar
  · exact absurd (cons.inj (cons.inj h).2).1 hChar
  · rcases cons.inj h with ⟨rfl, hTail⟩
    rcases cons.inj hTail with ⟨rfl, -⟩
    exact ⟨others, rfl⟩

theorem collapseBreaks_starts_iff (text : Text) :
    (∃ rest, collapseBreaks 0 text = '\n' :: '\n' :: rest) ↔
      ∃ rest, text = '\n' :: '\n' :: rest := by
  constructor
  · rintro ⟨rest, hRest⟩
    rcases text with _ | ⟨first, _ | ⟨second, _⟩⟩
    · cases hRest
    · by_cases hFirst : first = '\n' <;> simp [collapseBreaks, hFirst] at hRest
    · by_cases hFirst : first = '\n' <;> by_cases hSecond : second = '\n' <;>
        simp_all [collapseBreaks]
  · rintro ⟨_, rfl⟩
    exact ⟨_, rfl⟩

theorem fullLines_concat_ne_nil (front : Text) (hChar : c ≠ '\n') :
    fullLines (front ++ [c, '\n']) ≠ [] := by
  rcases exists_lines_concat front hChar with ⟨_, line, hLines⟩
  simp [fullLines, hLines]

/- Blank lines at the start stay if a full line is left behind them. -/
theorem normalizeBlankLines_starts_iff (text : Text) :
    (∃ rest, normalizeBlankLines text = '\n' :: '\n' :: rest) ↔
      (∃ rest, text = '\n' :: '\n' :: rest) ∧ fullLines text ≠ [] := by
  have hFull := fullLines_normalizeBlankLines text
  have hBody := dropLastBreaks_cases (collapseBreaks 0 text)
  rcases rdropWhile_prefix (· == '\n') (collapseBreaks 0 text) with ⟨breaks, hBreaks⟩
  change dropLastBreaks _ ++ breaks = _ at hBreaks
  unfold normalizeBlankLines at hFull ⊢
  generalize dropLastBreaks (collapseBreaks 0 text) = body at hFull hBody hBreaks ⊢
  rw [← collapseBreaks_starts_iff text, ← hBreaks, ← hFull]
  rcases hBody with rfl | ⟨_, _, hChar, rfl⟩
  · constructor
    · rintro ⟨rest, hRest⟩
      cases hRest
    · rintro ⟨-, hLine⟩
      exact absurd rfl hLine
  · rw [append_assoc, append_assoc]
    constructor
    · rintro ⟨rest, hRest⟩
      rcases exists_front_of_breaks hChar hRest with ⟨others, rfl⟩
      exact ⟨⟨_, rfl⟩, fullLines_concat_ne_nil _ hChar⟩
    · rintro ⟨⟨_, hRest⟩, -⟩
      rcases exists_front_of_breaks hChar hRest with ⟨_, rfl⟩
      exact ⟨_, rfl⟩

end Text

/-
  For every text, normalizing keeps the lines that are not
  blank, adds no character but the line break at the end,
  which is the only one there, and does nothing more when it
  is done again. So the finished text of a page has the full
  lines of its raw text.
-/
theorem finishing_keeps_full_lines :
    (∀ text : Text,
      text.normalizeBlankLines.fullLines = text.fullLines ∧
        (∃ body,
          text.normalizeBlankLines = body ++ "\n" ∧ body <+ text ∧ body.getLast? ≠ some '\n') ∧
        text.normalizeBlankLines.normalizeBlankLines = text.normalizeBlankLines) ∧
      ∀ page : Page, page.finish.fullLines = page.rawText.fullLines := by
  refine ⟨?_, fun page => page.rawText.fullLines_normalizeBlankLines⟩
  intro text
  refine
    ⟨text.fullLines_normalizeBlankLines, ⟨_, rfl, ?_, Text.getLast?_dropLastBreaks _⟩,
      text.normalizeBlankLines_normalizeBlankLines⟩
  have hBody := rdropWhile_prefix (· == '\n') (text.collapseBreaks 0)
  exact hBody.sublist.trans (text.sublist_collapseBreaks 0)

/-
  In the finished text of a page, whatever was done to it,
  two blank lines follow each other at the very start only,
  and no third one behind them. They do so exactly if the raw
  text starts with two blank lines and has a full line.
-/
theorem blank_lines_meet_at_start_only (page : Page) :
    (∀ before more,
      page.finish.lines = before ++ [] :: [] :: more → before = [] ∧ more.head? ≠ some []) ∧
      ((∃ before more, page.finish.lines = before ++ [] :: [] :: more) ↔
        [[], []] <+: page.rawText.lines ∧ page.rawText.fullLines ≠ []) := by
  have hSpaced := page.rawText.spaced_normalizeBlankLines
  have hStart :
      ∀ before more,
        page.finish.lines = before ++ [] :: [] :: more → before = [] ∧ more.head? ≠ some [] := by
    intro before more hLines
    rcases (hSpaced.eq_nil_of_lines hLines).1 with rfl
    refine ⟨rfl, ?_⟩
    intro hThird
    rcases head?_eq_some_iff.mp hThird with ⟨others, rfl⟩
    have hAgain : ([[]] : List Text) = [] ∧ 0 = 0 := hSpaced.eq_nil_of_lines hLines
    exact absurd hAgain.1 (cons_ne_nil _ _)
  refine ⟨hStart, ?_⟩
  rw [Text.blank_pair_prefix_iff, ← Text.normalizeBlankLines_starts_iff,
    ← Text.blank_pair_prefix_iff]
  constructor
  · rintro ⟨before, more, hLines⟩
    rcases (hStart before more hLines).1 with rfl
    exact ⟨more, hLines.symm⟩
  · rintro ⟨more, hLines⟩
    exact ⟨[], more, hLines.symm⟩

/- Two blank lines that are written before anything else. -/
def openingBlanks : List PageStep :=
  [.endLine, .endLine, .writeLine "a"]

theorem openingBlanks_not_collapsed :
    ∃ desk,
      Desk.run 4 openingBlanks = some desk ∧ desk.page.finish = "\n\na\n".toList ∧
        desk.page.finish.lines = [[], [], ['a']] :=
  ⟨_, rfl, by decide, by decide⟩

end ScriptLowering
