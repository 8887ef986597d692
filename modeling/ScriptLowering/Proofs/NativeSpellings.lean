import ScriptLowering.Proofs.Lexicon
import ScriptLowering.Proofs.TypeForms

/-
  Spellings in native words. Native words take the place of
  host words, and all marks stay where they are. So whatever
  is told by marks is told of a spelling in native words as
  of the spelling itself: where it is trimmed, cut and split,
  and what form it has. Only the fields of a shape differ,
  for their names are words like all others.

  Key theorems include:
    * `TypeForm.ofText_nativeForm_of_shape`
    * `TypeForm.ofText_nativeForm`
-/

namespace ScriptLowering

open Text Shape List

-----
-- Words And Marks
-----

namespace Text

/- The first word of a text ends in one place only. -/
theorem IsWord.append_inj
    {run other rest more : Text} (hRun : IsWord run) (hRest : Apart rest) (hOther : IsWord other)
    (hMore : Apart more) (h : run ++ rest = other ++ more) :
    run = other ∧ rest = more := by
  have hTake :
      ∀ {run rest : Text}, IsWord run → Apart rest → (run ++ rest).takeWhile isWordChar = run := by
    intro run rest hRun hRest
    rw [takeWhile_append_of_pos (all_eq_true.mp hRun.2)]
    cases rest with
    | nil => simp
    | cons c => simp [hRest c rfl]
  have hSame : run = other := by rw [← hTake hRun hRest, h, hTake hOther hMore]
  subst hSame
  exact ⟨rfl, append_cancel_left h⟩

end Text

-----
-- Native Words In A Text
-----

/- A word that is replaced, and what it is replaced by. -/
def hostPairs : List (Text × Text) :=
  [("number", "i32"), ("bigint", "i64"), ("ptr", "Pointer")]

theorem mem_hostPairs {word native : Text} (h : Spelling.hostWord word = some native) :
    (word, native) ∈ hostPairs := by
  unfold Spelling.hostWord at h
  split at h
  · next hWord =>
    cases h
    rw [hWord]
    decide
  · split at h
    · next hWord =>
      cases h
      rw [hWord]
      decide
    · split at h
      · next hWord =>
        cases h
        rw [hWord]
        decide
      · cases h

/- A word is kept, or it is a host word. -/
theorem nativeWord_cases (word : Text) :
    nativeWord word = word ∨ (word, nativeWord word) ∈ hostPairs := by
  unfold nativeWord replaceWord
  cases hHost : Spelling.hostWord word with
  | none => exact .inl rfl
  | some => exact .inr (mem_hostPairs hHost)

theorem nativeWord_eq_self_iff {word : Text} :
    nativeWord word = word ↔ Spelling.hostWord word = none := by
  unfold nativeWord replaceWord
  cases hHost : Spelling.hostWord word with
  | none => simp
  | some =>
    have hOther : ∀ pair ∈ hostPairs, pair.2 ≠ pair.1 := by decide
    simpa using hOther _ (mem_hostPairs hHost)

theorem isWord_nativeWord {word : Text} (h : Text.IsWord word) :
    Text.IsWord (nativeWord word) :=
  (isWord_replaceWord h).1

namespace Spelling

@[simp] theorem nativeForm_nil :
    nativeForm [] = [] :=
  rfl

variable {c : Char}

theorem nativeForm_cons_mark (hMark : isWordChar c = false) (rest : Text) :
    nativeForm (c :: rest) = c :: nativeForm rest :=
  mapWords_cons_mark hostWord hMark rest

theorem nativeForm_append_mark (hMark : isWordChar c = false) (front back : Text) :
    nativeForm (front ++ c :: back) = nativeForm front ++ c :: nativeForm back :=
  mapWords_append_mark hostWord hMark front back

theorem nativeForm_word_append
    {run rest : Text} (hRun : Text.IsWord run) (hRest : Text.Apart rest) :
    nativeForm (run ++ rest) = nativeWord run ++ nativeForm rest := by
  unfold nativeForm
  rw [mapWords_append _ _ hRest, mapWords_word _ hRun]
  rfl

theorem apart_nativeForm {text : Text} (h : Text.Apart text) :
    Text.Apart (nativeForm text) :=
  h.mapWords hostWord

@[simp] theorem nativeForm_eq_nil_iff {text : Text} :
    nativeForm text = [] ↔ text = [] := by
  cases text using words_induction with
  | nil => rfl
  | mark _ _ hMark => simp [nativeForm_cons_mark hMark]
  | word _ _ hRun hRest =>
    simp [nativeForm_word_append hRun hRest, hRun.1, (isWord_nativeWord hRun).1]

/- Native words are kept. -/
@[simp] theorem nativeForm_nativeForm (text : Text) :
    nativeForm (nativeForm text) = nativeForm text := by
  induction text using words_induction with
  | nil => rfl
  | mark _ _ hMark ih => rw [nativeForm_cons_mark hMark, nativeForm_cons_mark hMark, ih]
  | word _ _ hRun hRest ih =>
    rw [nativeForm_word_append hRun hRest,
      nativeForm_word_append (isWord_nativeWord hRun) (apart_nativeForm hRest),
      renders_nativeWord.native, ih]

/- Marks are kept, each in its place. -/
theorem mem_nativeForm_iff (hMark : isWordChar c = false) (text : Text) :
    c ∈ nativeForm text ↔ c ∈ text := by
  have hOther : ∀ {run : Text}, Text.IsWord run → c ∉ run := by
    intro run hRun hMem
    exact hRun.ne_of_mem hMem hMark rfl
  induction text using words_induction with
  | nil => rfl
  | mark _ _ hOtherMark ih =>
    rw [nativeForm_cons_mark hOtherMark, mem_cons, mem_cons]
    exact or_congr_right ih
  | word _ _ hRun hRest ih =>
    rw [nativeForm_word_append hRun hRest, mem_append, mem_append, or_iff_right (hOther hRun),
      or_iff_right (hOther (isWord_nativeWord hRun))]
    exact ih

theorem head?_nativeForm_eq_some_iff (hMark : isWordChar c = false) (text : Text) :
    (nativeForm text).head? = some c ↔ text.head? = some c := by
  have hOther : ∀ {run : Text} (rest : Text), Text.IsWord run → (run ++ rest).head? ≠ some c := by
    intro run rest hRun hHead
    rw [head?_append_of_ne_nil _ hRun.1] at hHead
    exact hRun.ne_of_mem (mem_of_mem_head? hHead) hMark rfl
  cases text using words_induction with
  | nil => rfl
  | mark _ _ hOtherMark =>
    rw [nativeForm_cons_mark hOtherMark]
    rfl
  | word _ _ hRun hRest =>
    rw [nativeForm_word_append hRun hRest]
    exact iff_of_false (hOther _ (isWord_nativeWord hRun)) (hOther _ hRun)

theorem getLast?_nativeForm_eq_some_iff (hMark : isWordChar c = false) (text : Text) :
    (nativeForm text).getLast? = some c ↔ text.getLast? = some c := by
  have hOther : ∀ {run : Text}, Text.IsWord run → run.getLast? ≠ some c := by
    intro run hRun hLast
    exact hRun.ne_of_mem (mem_of_getLast? hLast) hMark rfl
  induction text using words_induction with
  | nil => rfl
  | mark _ rest hOtherMark ih =>
    rw [nativeForm_cons_mark hOtherMark]
    by_cases hEnd : rest = []
    · simp [hEnd]
    · rw [getLast?_cons_of_ne_nil hEnd, getLast?_cons_of_ne_nil (mt nativeForm_eq_nil_iff.mp hEnd)]
      exact ih
  | word _ rest hRun hRest ih =>
    rw [nativeForm_word_append hRun hRest]
    by_cases hEnd : rest = []
    · subst hEnd
      simp [hOther hRun, hOther (isWord_nativeWord hRun)]
    · rw [getLast?_append_of_ne_nil _ hEnd,
        getLast?_append_of_ne_nil _ (mt nativeForm_eq_nil_iff.mp hEnd)]
      exact ih

end Spelling

-----
-- Splitting
-----

namespace Text

variable {separators : List Char}

/- Splitting passes over words. -/
theorem IsWord.uncut
    (hMarks : ∀ c ∈ separators, isWordChar c = false) {run : Text}
    (hRun : run.all isWordChar = true) :
    Uncut separators 0 run := by
  induction run with
  | nil => exact .nil
  | cons c _ ih =>
    rw [all_cons, Bool.and_eq_true] at hRun
    have hOther : c ∉ separators := by
      intro hMem
      exact ne_of_class hRun.1 (hMarks c hMem) rfl
    exact (Uncut.singleton (isFlat_of_isWordChar hRun.1) (.inr hOther)).append (ih hRun.2)

/- In front of a word it does not matter what stands before. -/
theorem splitFrom_word_append
    (hMarks : ∀ c ∈ separators, isWordChar c = false) {run : Text} (hRun : IsWord run) (depth : Nat)
    (previous : Char) (rest : Text) :
    splitFrom separators depth previous (run ++ rest) =
      (run ++ (splitFrom separators depth '\x00' rest).1,
        (splitFrom separators depth '\x00' rest).2) := by
  rcases hRun with ⟨hSome, hAll⟩
  have hPrevious :
      splitFrom separators depth previous (run ++ rest) =
        splitFrom separators depth '\x00' (run ++ rest) := by
    cases run with
    | nil => exact absurd rfl hSome
    | cons =>
      rw [all_cons, Bool.and_eq_true] at hAll
      have hFlat := isFlat_of_isWordChar hAll.1
      simp only [cons_append, splitFrom, depthAfter_of_isFlat hFlat]
  rw [hPrevious]
  exact IsWord.uncut hMarks hAll depth '\x00' rest (Nat.zero_le _) (by decide)

/- A text is cut at the character that is looked for. -/
theorem eq_of_cutTopLevel?
    {c : Char} {text before after : Text} (h : cutTopLevel? c text = some (before, after)) :
    text = before ++ c :: after := by
  have hText := text_cutFrom [c] 0 '\x00' text
  have hMem := mem_of_mem_cutFrom [c] 0 '\x00' text
  rw [cutTopLevel?, splitFrom_eq_cutFrom] at h
  generalize cutFrom [c] 0 '\x00' text = cuts at h hText hMem
  rcases cuts with ⟨_, _ | ⟨cut, _⟩⟩
  · cases h
  · cases h
    rw [← hText, ← mem_singleton.mp (hMem cut mem_cons_self)]
    simp [Cuts.text]

theorem Apart.splitFrom {text : Text} (h : Apart text) (depth : Nat) (previous : Char) :
    Apart (splitFrom separators depth previous text).1 := by
  cases text with
  | nil => exact h
  | cons c =>
    unfold Text.splitFrom
    dsimp only
    split
    · exact .nil
    · exact .cons (h c rfl) _

end Text

namespace Spelling

/- Native words do not change where a text is split. -/
theorem splitFrom_nativeForm
    {separators : List Char} (hMarks : ∀ c ∈ separators, isWordChar c = false) (depth : Nat)
    (previous : Char) (text : Text) :
    splitFrom separators depth previous (nativeForm text) =
      (splitFrom separators depth previous text).map nativeForm (List.map nativeForm) := by
  induction text using words_induction generalizing depth previous with
  | nil => rfl
  | mark c _ hMark ih =>
    rw [nativeForm_cons_mark hMark]
    simp only [splitFrom, ih]
    by_cases hCut :
        (depth == 0 && isSeparator separators c) = true
    · simp [hCut]
    · simp [hCut, nativeForm_cons_mark hMark]
  | word _ _ hRun hRest ih =>
    rw [nativeForm_word_append hRun hRest, splitFrom_word_append hMarks (isWord_nativeWord hRun),
      splitFrom_word_append hMarks hRun, ih]
    simp only [Prod.map_apply, Prod.map_fst, Prod.map_snd,
      nativeForm_word_append hRun (hRest.splitFrom depth _)]

theorem splitTopLevel_nativeForm
    {separators : List Char} (hMarks : ∀ c ∈ separators, isWordChar c = false) (text : Text) :
    splitTopLevel separators (nativeForm text) =
      (splitTopLevel separators text).map nativeForm := by
  simp [splitTopLevel, splitFrom_nativeForm hMarks]

theorem containsTopLevel_nativeForm {c : Char} (hMark : isWordChar c = false) (text : Text) :
    containsTopLevel c (nativeForm text) = containsTopLevel c text := by
  unfold containsTopLevel
  rw [splitTopLevel_nativeForm (forall_mem_singleton.mpr hMark), length_map]

theorem cutTopLevel?_nativeForm
    {c : Char} (hMark : isWordChar c = false) {text before after : Text}
    (h : cutTopLevel? c text = some (before, after)) :
    cutTopLevel? c (nativeForm text) = some (nativeForm before, nativeForm after) := by
  have hMarks : ∀ d ∈ [c], isWordChar d = false := forall_mem_singleton.mpr hMark
  have hText := eq_of_cutTopLevel? h
  unfold cutTopLevel? at h ⊢
  rw [splitFrom_nativeForm hMarks]
  cases hSplit : splitFrom [c] 0 '\x00' text with
  | mk _ pieces =>
    rw [hSplit] at h
    cases pieces with
    | nil => cases h
    | cons =>
      cases h
      rw [hText, nativeForm_append_mark hMark]
      simp

theorem isBalanced_nativeForm (depth : Nat) (text : Text) :
    Application.isBalanced depth (nativeForm text) = Application.isBalanced depth text := by
  induction text using words_induction generalizing depth with
  | nil => rfl
  | mark _ _ hMark ih =>
    rw [nativeForm_cons_mark hMark]
    unfold Application.isBalanced
    simp only [ih]
  | word run _ hRun hRest ih =>
    have hBalanced : ∀ {run : Text}, Text.IsWord run → Application.Balanced run := by
      intro run hRun
      have hNested : Nested false run := .of_isWord hRun
      exact hNested.balanced
    rw [nativeForm_word_append hRun hRest, hBalanced (isWord_nativeWord hRun), hBalanced hRun, ih]

theorem containsText_arrow_nativeForm (text : Text) :
    Text.containsText "=>" (nativeForm text) = Text.containsText "=>" text := by
  have hWord :
      ∀ {run : Text} (rest : Text), run.all isWordChar = true →
        Text.containsText "=>" (run ++ rest) = Text.containsText "=>" rest := by
    intro run rest hRun
    induction run with
    | nil => rfl
    | cons c run ih =>
      rw [all_cons, Bool.and_eq_true] at hRun
      have hOther : ('=' == c) = false := beq_eq_false_iff_ne.mpr (ne_of_class hRun.1 rfl).symm
      have hHere :
          isPrefixOf ['=', '>'] (c :: (run ++ rest)) =
            false := by
        simp [isPrefixOf, hOther]
      rw [cons_append, containsText, ih hRun.2]
      exact (congrArg (· || _) hHere).trans (Bool.false_or _)
  induction text using words_induction with
  | nil => rfl
  | mark c rest hMark ih =>
    have hNext : isPrefixOf ['>'] (nativeForm rest) = isPrefixOf ['>'] rest := by
      have hFirst : ∀ text : Text, isPrefixOf ['>'] text = true ↔ text.head? = some '>' := by
        intro text
        cases text with
        | nil => simp [isPrefixOf]
        | cons c => simp [isPrefixOf, eq_comm (a := c)]
      rw [Bool.eq_iff_iff, hFirst, hFirst]
      exact head?_nativeForm_eq_some_iff rfl rest
    rw [nativeForm_cons_mark hMark, containsText, containsText, ih]
    show
      (('=' == c && isPrefixOf ['>'] (nativeForm rest)) || _) =
        (('=' == c && isPrefixOf ['>'] rest) || _)
    rw [hNext]
  | word _ _ hRun hRest ih =>
    rw [nativeForm_word_append hRun hRest, hWord _ (isWord_nativeWord hRun).2, hWord _ hRun.2, ih]

end Spelling

-----
-- Trimming
-----

namespace Text

/- What is left of a text ends with a character that is not blank. -/
theorem isBlank_of_getLast?_trimEnd
    {text : Text} {c : Char} (h : (trimEnd text).getLast? = some c) :
    isBlank c = false := by
  have hHead := head?_dropWhile_not isBlank text.reverse
  rw [trimEnd, getLast?_reverse] at h
  rw [h] at hHead
  simpa using hHead

theorem exists_trimEnd_append (text : Text) :
    ∃ blanks, (∀ c ∈ blanks, isBlank c = true) ∧ text = trimEnd text ++ blanks := by
  refine ⟨(text.reverse.takeWhile isBlank).reverse, ?_, ?_⟩
  · intro c hMem
    exact mem_takeWhile_imp (mem_reverse.mp hMem)
  · rw [trimEnd, ← reverse_append, takeWhile_append_dropWhile, reverse_reverse]

theorem trimEnd_append_of_getLast?
    {text blanks : Text} (hLast : ∀ c, text.getLast? = some c → isBlank c = false)
    (hBlanks : ∀ c ∈ blanks, isBlank c = true) :
    trimEnd (text ++ blanks) = text := by
  have hReversed : ∀ c ∈ blanks.reverse, isBlank c = true := by
    intro c hMem
    exact hBlanks c (mem_reverse.mp hMem)
  have hKept : text.reverse.dropWhile isBlank = text.reverse := by
    cases hText : text.reverse with
    | nil => rfl
    | cons c =>
      have hFinal : text.getLast? = some c := by
        rw [← head?_reverse, hText]
        rfl
      simp [hLast c hFinal]
  rw [trimEnd, reverse_append, dropWhile_append_of_pos hReversed, hKept, reverse_reverse]

theorem trim_trimStart (text : Text) :
    trim (trimStart text) = trim text := by
  have hTwice : trimStart (trimStart text) = trimStart text := by
    have hHead := head?_dropWhile_not isBlank text
    unfold trimStart
    cases hText : text.dropWhile isBlank with
    | nil => rfl
    | cons =>
      rw [hText] at hHead
      simpa using hHead
  rw [trim, hTwice, trim]

/- Trimming twice is trimming once. -/
theorem trim_trim (text : Text) :
    trim (trim text) = trim text := by
  have hEnd : trimEnd (trim text ++ []) = trim text :=
    trimEnd_append_of_getLast? (fun _ hLast => isBlank_of_getLast?_trimEnd hLast) (forall_mem_nil _)
  have hStart : trimStart (trim text) = trim text := by
    rcases exists_trimEnd_append (trimStart text) with ⟨blanks, _, hText⟩
    have hHead := head?_dropWhile_not isBlank text
    change trimStart text = trim text ++ blanks at hText
    cases hTrim : trim text with
    | nil => rfl
    | cons c =>
      rw [hTrim] at hText
      have hFirst : isBlank c = false := by
        unfold trimStart at hText
        rw [hText] at hHead
        simpa using hHead
      simp [trimStart, hFirst]
  rw [append_nil] at hEnd
  rw [trim, hStart, hEnd]

end Text

namespace Spelling

theorem trimStart_nativeForm (text : Text) :
    trimStart (nativeForm text) = nativeForm (trimStart text) := by
  have hWord :
      ∀ {run : Text} (rest : Text), Text.IsWord run → trimStart (run ++ rest) = run ++ rest :=
    fun rest hRun => trimStart_blanks_append (forall_mem_nil _) hRun.tight rest
  induction text using words_induction with
  | nil => rfl
  | mark c _ hMark ih =>
    rw [nativeForm_cons_mark hMark]
    unfold trimStart at ih ⊢
    by_cases hBlank : isBlank c = true
    · simp [hBlank, ih]
    · simp [hBlank, nativeForm_cons_mark hMark]
  | word _ _ hRun hRest =>
    rw [nativeForm_word_append hRun hRest, hWord _ (isWord_nativeWord hRun), hWord _ hRun,
      nativeForm_word_append hRun hRest]

theorem exists_nativeForm_trimStart (text : Text) :
    ∃ blanks, (∀ c ∈ blanks, isBlank c = true) ∧
      nativeForm text = blanks ++ nativeForm (trimStart text) := by
  have hBlanks : ∀ c ∈ text.takeWhile isBlank, isBlank c = true :=
    fun c hMem => mem_takeWhile_imp hMem
  have hText : text = text.takeWhile isBlank ++ trimStart text := takeWhile_append_dropWhile.symm
  refine ⟨_, hBlanks, ?_⟩
  conv =>
    lhs
    rw [hText]
  exact mapWords_marks_append _ (fun c hMem => isWordChar_eq_false_of_isBlank (hBlanks c hMem)) _

theorem exists_nativeForm_trimEnd (text : Text) :
    ∃ blanks, (∀ c ∈ blanks, isBlank c = true) ∧
      nativeForm text = nativeForm (trimEnd text) ++ blanks := by
  rcases exists_trimEnd_append text with ⟨blanks, hBlanks, hText⟩
  have hMarks : ∀ c ∈ blanks, isWordChar c = false :=
    fun c hMem => isWordChar_eq_false_of_isBlank (hBlanks c hMem)
  refine ⟨blanks, hBlanks, ?_⟩
  conv =>
    lhs
    rw [hText]
  unfold nativeForm
  rw [mapWords_append _ _ (.of_marks hMarks), mapWords_marks _ hMarks]

theorem trimEnd_nativeForm (text : Text) :
    trimEnd (nativeForm text) = nativeForm (trimEnd text) := by
  rcases exists_nativeForm_trimEnd text with ⟨_, hBlanks, hNative⟩
  rw [hNative]
  apply trimEnd_append_of_getLast? _ hBlanks
  intro c hLast
  by_contra hBlank
  rw [Bool.not_eq_false] at hBlank
  have hMark := isWordChar_eq_false_of_isBlank hBlank
  have hKept := isBlank_of_getLast?_trimEnd ((getLast?_nativeForm_eq_some_iff hMark _).mp hLast)
  rw [hBlank] at hKept
  cases hKept

/- Blanks around a text are kept. -/
theorem exists_nativeForm_trim (text : Text) :
    ∃ before after,
      (∀ c ∈ before, isBlank c = true) ∧ (∀ c ∈ after, isBlank c = true) ∧
        nativeForm text = before ++ (nativeForm (trim text) ++ after) := by
  rcases exists_nativeForm_trimStart text with ⟨before, hBefore, hStart⟩
  rcases exists_nativeForm_trimEnd (trimStart text) with ⟨after, hAfter, hEnd⟩
  rw [hStart, hEnd]
  exact ⟨before, after, hBefore, hAfter, rfl⟩

@[simp] theorem trim_nativeForm (text : Text) :
    trim (nativeForm text) = nativeForm (trim text) := by
  rw [trim, trimStart_nativeForm, trimEnd_nativeForm, trim]

-----
-- Literals
-----

theorem isQuoted_nativeForm (text : Text) :
    isQuoted (nativeForm text) = isQuoted text := by
  have hQuotes : (['"', '\'', '\x60'].all fun quote => !isWordChar quote) = true := rfl
  have hLength :
      ∀ {c : Char}, isWordChar c = false → text.head? = some c →
        (2 ≤ (nativeForm text).length ↔ 2 ≤ text.length) := by
    intro c hMark hHead
    cases text with
    | nil => cases hHead
    | cons _ rest =>
      cases hHead
      have hRest : 0 < (nativeForm rest).length ↔ 0 < rest.length := by
        rw [length_pos_iff, length_pos_iff, ne_eq, nativeForm_eq_nil_iff]
      rw [nativeForm_cons_mark hMark, length_cons, length_cons]
      omega
  unfold isQuoted
  rw [Bool.eq_iff_iff]
  simp only [Bool.and_eq_true, decide_eq_true_eq, any_eq_true, beq_iff_eq]
  have hMark : ∀ {quote : Char}, quote ∈ ['"', '\'', '\x60'] → isWordChar quote = false := by
    intro quote hQuote
    simpa using all_eq_true.mp hQuotes quote hQuote
  constructor
  · rintro ⟨hLong, quote, hQuote, hHead, hLast⟩
    rw [head?_nativeForm_eq_some_iff (hMark hQuote)] at hHead
    rw [getLast?_nativeForm_eq_some_iff (hMark hQuote)] at hLast
    exact ⟨(hLength (hMark hQuote) hHead).mp hLong, quote, hQuote, hHead, hLast⟩
  · rintro ⟨hLong, quote, hQuote, hHead, hLast⟩
    refine ⟨(hLength (hMark hQuote) hHead).mpr hLong, quote, hQuote, ?_, ?_⟩
    · exact (head?_nativeForm_eq_some_iff (hMark hQuote) _).mpr hHead
    · exact (getLast?_nativeForm_eq_some_iff (hMark hQuote) _).mpr hLast

theorem isBraced_nativeForm (text : Text) :
    isBraced (nativeForm text) = isBraced text := by
  rw [Bool.eq_iff_iff]
  simp only [isBraced, Bool.and_eq_true, beq_iff_eq]
  rw [head?_nativeForm_eq_some_iff rfl, getLast?_nativeForm_eq_some_iff rfl]

/- A class of characters that host words and native words are alike in. -/
theorem all_nativeForm
    {p : Char → Bool} (hPairs : (hostPairs.all fun pair => pair.1.all p == pair.2.all p) = true)
    (text : Text) :
    (nativeForm text).all p = text.all p := by
  induction text using words_induction with
  | nil => rfl
  | mark _ _ hMark ih => rw [nativeForm_cons_mark hMark, all_cons, all_cons, ih]
  | word run _ hRun hRest ih =>
    have hWord : (nativeWord run).all p = run.all p := by
      rcases nativeWord_cases run with hSame | hPair
      · rw [hSame]
      · have hAlike := all_eq_true.mp hPairs _ hPair
        exact (beq_iff_eq.mp hAlike).symm
    rw [nativeForm_word_append hRun hRest, all_append, all_append, ih, hWord]

theorem head?_isDigit_nativeForm (text : Text) :
    (nativeForm text).head?.any Char.isDigit = text.head?.any Char.isDigit := by
  cases text using words_induction with
  | nil => rfl
  | mark _ _ hMark =>
    rw [nativeForm_cons_mark hMark]
    rfl
  | word run _ hRun hRest =>
    rw [nativeForm_word_append hRun hRest, head?_append_of_ne_nil _ (isWord_nativeWord hRun).1,
      head?_append_of_ne_nil _ hRun.1]
    rcases nativeWord_cases run with hSame | hPair
    · rw [hSame]
    · have hPairs :
          ∀ pair ∈ hostPairs, pair.2.head?.any Char.isDigit = pair.1.head?.any Char.isDigit := by
        decide
      exact hPairs _ hPair

theorem isNumeral_of_head? {text : Text} (h : text.head? ≠ some '-') :
    isNumeral text =
      (text.head?.any Char.isDigit && text.all fun c => c.isAlphanum || c == '.' || c == '_') := by
  unfold isNumeral
  dsimp only
  split
  · exact absurd rfl h
  · rfl

theorem isNumeral_nativeForm (text : Text) :
    isNumeral (nativeForm text) = isNumeral text := by
  have hAll := all_nativeForm (p := fun c => c.isAlphanum || c == '.' || c == '_') (by decide)
  by_cases hMinus : text.head? = some '-'
  · cases text with
    | nil => cases hMinus
    | cons _ rest =>
      cases hMinus
      rw [nativeForm_cons_mark rfl]
      show
        ((nativeForm rest).head?.any Char.isDigit && (nativeForm rest).all _) =
          (rest.head?.any Char.isDigit && rest.all _)
      rw [head?_isDigit_nativeForm, hAll]
  · have hNative : (nativeForm text).head? ≠ some '-' :=
      mt (head?_nativeForm_eq_some_iff rfl text).mp hMinus
    rw [isNumeral_of_head? hMinus, isNumeral_of_head? hNative, head?_isDigit_nativeForm, hAll]

theorem contains_nativeForm {c : Char} (hMark : isWordChar c = false) (text : Text) :
    (nativeForm text).contains c = text.contains c := by
  rw [Bool.eq_iff_iff, contains_iff_mem, contains_iff_mem]
  exact mem_nativeForm_iff hMark text

end Spelling

-----
-- Shapes
-----

/- A field with its name and its type in native words. -/
def nativeField (field : Text × Text) : Text × Text :=
  (nativeWord field.1, Spelling.nativeForm field.2)

namespace Shape

open Spelling

theorem dropStart?_readonly_nativeForm (member : Text) :
    Text.dropStart? (nativeForm member) "readonly " =
      (Text.dropStart? member "readonly ").map nativeForm := by
  have hReadonly : Text.IsWord "readonly" := .of_isIdentifier rfl
  have hText : ∀ rest : Text, ("readonly " : Text) ++ rest = ("readonly" : Text) ++ ' ' :: rest :=
    fun _ => rfl
  cases hDrop : Text.dropStart? member "readonly " with
  | some rest =>
    have hMember := dropStart?_eq_some hDrop
    rw [hMember, hText, nativeForm_word_append hReadonly (.cons rfl _), nativeForm_cons_mark rfl]
    exact Text.dropStart?_append "readonly " (nativeForm rest)
  | none =>
    cases hNative : Text.dropStart? (nativeForm member) "readonly " with
    | none => rfl
    | some =>
      -- The first word of the member is replaced by this one.
      have hStart := dropStart?_eq_some hNative
      rw [hText] at hStart
      exfalso
      cases member using words_induction with
      | nil => cases hStart
      | mark c _ hMark =>
        rw [nativeForm_cons_mark hMark] at hStart
        have hFirst : some c = some 'r' := congrArg head? hStart
        rw [Option.some.inj hFirst] at hMark
        cases hMark
      | word run rest hRun hRest =>
        rw [nativeForm_word_append hRun hRest] at hStart
        rcases Text.IsWord.append_inj (isWord_nativeWord hRun)
            (apart_nativeForm hRest) hReadonly (.cons rfl _)
            hStart with
          ⟨hWord, hBlank⟩
        have hSame : run = "readonly" := by
          rcases nativeWord_cases run with hKept | hPair
          · rw [← hKept, hWord]
          · have hOther : ∀ pair ∈ hostPairs, pair.2 ≠ "readonly" := by decide
            exact absurd hWord (hOther _ hPair)
        have hHead : rest.head? = some ' ' := by
          rw [← head?_nativeForm_eq_some_iff rfl, hBlank]
          rfl
        rcases head?_eq_some_iff.mp hHead with ⟨_, rfl⟩
        rw [hSame, ← hText, dropStart?_append] at hDrop
        cases hDrop

theorem dropReadonly_nativeForm (member : Text) :
    dropReadonly (nativeForm member) = nativeForm (dropReadonly member) := by
  unfold dropReadonly
  rw [dropStart?_readonly_nativeForm]
  cases Text.dropStart? member "readonly " with
  | none => rfl
  | some rest => exact trimStart_nativeForm rest

theorem readMember_nativeForm
    {member : Text} {field : Text × Text} (h : readMember member = .ok field) :
    readMember (nativeForm member) = .ok (nativeField field) := by
  rcases readMember_eq_ok_iff.mp h with ⟨before, type, hCut, hName, rfl⟩
  have hNative : trim (nativeForm before) = nativeWord (trim before) := by
    rw [trim_nativeForm, nativeForm_word hName]
  apply readMember_eq_ok_iff.mpr
  refine ⟨nativeForm before, nativeForm type, cutTopLevel?_nativeForm rfl hCut, ?_, ?_⟩
  · rw [hNative]
    exact renders_nativeWord.identifier _ hName
  · rw [hNative, trim_nativeForm]
    rfl

theorem readMembers_nativeForm
    {pieces : List Text} {fields : List (Text × Text)} (h : readMembers pieces = .ok fields) :
    readMembers (pieces.map nativeForm) = .ok (fields.map nativeField) := by
  induction pieces generalizing fields with
  | nil =>
    cases h
    rfl
  | cons piece rest ih =>
    have hEmpty : (nativeForm (trim piece)).isEmpty = (trim piece).isEmpty := by
      rw [Bool.eq_iff_iff, List.isEmpty_iff, List.isEmpty_iff]
      exact nativeForm_eq_nil_iff
    rw [readMembers] at h
    rw [map_cons, readMembers]
    simp only [trim_nativeForm, hEmpty, dropReadonly_nativeForm]
    split at h
    · next hBlank =>
      rw [if_pos hBlank]
      exact ih h
    · next hBlank =>
      rw [if_neg hBlank]
      cases hFirst : readMember (dropReadonly (trim piece)) with
      | error =>
        rw [hFirst] at h
        cases h
      | ok =>
        rw [hFirst] at h
        dsimp only at h
        cases hLater : readMembers rest with
        | error =>
          rw [hLater] at h
          cases h
        | ok =>
          rw [hLater] at h
          cases h
          rw [readMember_nativeForm hFirst, ih hLater]
          rfl

/- The fields of a shape in native words. -/
theorem read_nativeForm {text : Text} {fields : List (Text × Text)} (h : read text = .ok fields) :
    read (nativeForm text) = .ok (fields.map nativeField) := by
  have hSeparators : ∀ c ∈ [';', ','], isWordChar c = false :=
    fun c hMem => (class_of_mem_memberSeparators hMem).2.1
  rcases read_eq_ok_iff.mp h with ⟨hSome, inner, hText, hMembers⟩
  refine read_eq_ok_iff.mpr ⟨by simpa using hSome, nativeForm inner, ?_, ?_⟩
  · rw [trim_nativeForm, hText, nativeForm_cons_mark rfl, nativeForm_append_mark rfl]
    rfl
  · rw [splitTopLevel_nativeForm hSeparators]
    exact readMembers_nativeForm hMembers

end Shape

-----
-- Forms
-----

namespace TypeForm

open Spelling

variable {text : Text} {fields : List (Text × Text)}

theorem isQuoted_of_isBraced (h : isBraced text = true) :
    text ≠ [] ∧ Spelling.isQuoted text = false := by
  simp only [isBraced, Bool.and_eq_true, beq_iff_eq] at h
  rcases head?_eq_some_iff.mp h.1 with ⟨rest, rfl⟩
  exact ⟨by simp, (not_literal_of_first (.inr rfl) rest).1⟩

/- A shape is a text in braces that can be read as one. -/
theorem ofTrimmed_eq_shape_iff :
    ofTrimmed text = .shape fields ↔ isBraced text = true ∧ Shape.read text = .ok fields := by
  constructor
  · intro h
    have hRead := isRead_ofTrimmed text
    rw [h] at hRead
    cases hRead with
    | fixed hFixed => cases hFixed
    | shape hBraced hShape => exact ⟨hBraced, hShape⟩
  · rintro ⟨hBraced, hShape⟩
    rcases isQuoted_of_isBraced hBraced with ⟨hSome, hQuoted⟩
    simp [ofTrimmed, hSome, hQuoted, hBraced, hShape]

/- A text in braces is a shape, or it cannot be read. -/
theorem shape_or_malformed (h : isBraced (trim text) = true) :
    (∃ fields, ofText text = .shape fields) ∨
      ∃ fault, ofText text = .malformed (trim text) fault := by
  cases hRead : Shape.read (trim text) with
  | ok fields => exact .inl ⟨fields, ofTrimmed_eq_shape_iff.mpr ⟨h, hRead⟩⟩
  | error fault =>
    rcases isQuoted_of_isBraced h with ⟨hSome, hQuoted⟩
    refine .inr ⟨fault, ?_⟩
    simp [ofText, ofTrimmed, hSome, hQuoted, h, hRead]

theorem exists_of_shape (h : ofText text = .shape fields) :
    ∃ inner, trim text = '{' :: (inner ++ ['}']) ∧
      readMembers (splitTopLevel [';', ','] inner) = .ok fields := by
  have hRead := (ofTrimmed_eq_shape_iff.mp h).2
  rw [← trim_trim]
  exact (read_eq_ok_iff.mp hRead).2

/-
  In native words, a part of a spelling is found in the whole,
  and there is a mark behind it.
-/
theorem exists_sublist_of_mem_parts {raw part : Text} (h : part ∈ (ofText raw).parts) :
    ∃ mark, (nativeForm part ++ [mark]).Sublist (nativeForm (trim raw)) := by
  have hRead := isRead_ofTrimmed (trim raw)
  unfold ofText at h
  generalize ofTrimmed (trim raw) = form at h hRead
  cases hRead with
  | fixed hFixed =>
    rw [parts_of_isFixed hFixed] at h
    cases h
  | shape _ hShape =>
    rcases mem_map.mp h with ⟨_, hField, rfl⟩
    rcases read_eq_ok_iff.mp (read_nativeForm hShape) with ⟨_, inner, hText, hMembers⟩
    rcases Shape.sublist_of_mem_readMembers hMembers (mem_map_of_mem hField) with
      ⟨piece, hPiece, hSub⟩
    rw [trim_nativeForm, trim_trim] at hText
    rw [hText]
    exact ⟨'}', ((hSub.trans (sublist_of_mem_splitTopLevel hPiece)).append (.refl _)).cons _⟩
  | @array element hArray =>
    have hText : nativeForm (trim raw) = element ++ '[' :: [']'] := dropEnd?_eq_some hArray
    rw [mem_singleton.mp h, ← nativeForm_nativeForm (trim raw), hText, nativeForm_append_mark rfl]
    exact ⟨'[', (Sublist.refl _).append (singleton_sublist.mpr mem_cons_self)⟩
  | applied hApplied =>
    rcases Application.exists_of_ofText? hApplied with ⟨_, inner, hText, _, _, hArgs⟩
    change part ∈ Application.args _ at h
    rw [hArgs] at h
    rcases mem_map.mp h with ⟨piece, hPiece, rfl⟩
    have hComma : ∀ c ∈ [','], isWordChar c = false := forall_mem_singleton.mpr rfl
    have hNative : nativeForm piece ∈ splitTopLevel [','] (nativeForm inner) := by
      rw [splitTopLevel_nativeForm hComma]
      exact mem_map_of_mem hPiece
    rw [← nativeForm_nativeForm (trim raw), hText, nativeForm_append_mark rfl,
      nativeForm_append_mark rfl, ← trim_nativeForm]
    exact ⟨'>', ((((trim_sublist _).trans (sublist_of_mem_splitTopLevel hNative)).append
      (.refl _)).cons _).trans (sublist_append_right _ _)⟩
  | named => cases h

/- A shape in native words has its fields in native words. -/
theorem ofText_nativeForm_of_shape (h : ofText text = .shape fields) :
    ofText (nativeForm text) = .shape (fields.map nativeField) := by
  rcases ofTrimmed_eq_shape_iff.mp h with ⟨hBraced, hRead⟩
  unfold ofText
  rw [trim_nativeForm]
  apply ofTrimmed_eq_shape_iff.mpr
  exact ⟨by rw [isBraced_nativeForm, hBraced], read_nativeForm hRead⟩

/- Any other spelling has one form in native words and in its own. -/
theorem ofText_nativeForm (h : isBraced (trim text) = false) :
    ofText (nativeForm text) = ofText text := by
  have hEmpty : (nativeForm (trim text)).isEmpty = (trim text).isEmpty := by
    rw [Bool.eq_iff_iff, List.isEmpty_iff, List.isEmpty_iff]
    exact nativeForm_eq_nil_iff
  unfold ofText
  rw [trim_nativeForm]
  unfold ofTrimmed
  rw [hEmpty, isQuoted_nativeForm, isBraced_nativeForm, h,
    isNumeral_nativeForm, contains_nativeForm rfl,
    nativeForm_nativeForm]
  rfl

end TypeForm

end ScriptLowering
