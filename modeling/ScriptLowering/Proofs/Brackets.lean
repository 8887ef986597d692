import ScriptLowering.Proofs.ForeignMarks
import ScriptLowering.Proofs.PrintedLines
import ScriptLowering.Proofs.StringLiterals

/-
  Reading a text for its brackets. A reader goes from left to
  right and remembers which brackets are still to be closed.
  It skips strings in double quotes, in which a backslash
  takes away the meaning of what is behind it, and it gives
  up at a bracket that does not fit and at a string that goes
  beyond its line. A text is well bracketed if the reader
  comes to its end with nothing left to close.

  Key theorems include:
    * `Reads.lineFree`
    * `ReadsText.collapseBreaks`
    * `ReadsText.dropLastBreaks`
-/

namespace ScriptLowering

variable {before after : Reading} {c : Char}

-----
-- Readers
-----

/- Where a reader is: in code, or in a string. -/
inductive ReadingPlace where
  | code
  | quoted
  | escaped
deriving DecidableEq, Repr

/-
  What a reader remembers: its place, and the brackets that
  are to be closed, the innermost first.
-/
structure Reading where
  place : ReadingPlace
  pending : List Char
deriving DecidableEq, Repr

namespace Reading

def code (pending : List Char) : Reading :=
  ⟨.code, pending⟩

def quoted (pending : List Char) : Reading :=
  ⟨.quoted, pending⟩

def escaped (pending : List Char) : Reading :=
  ⟨.escaped, pending⟩

end Reading

/- The bracket that closes what a character opens. -/
def closing? : Char → Option Char
  | '(' => some ')'
  | '[' => some ']'
  | '{' => some '}'
  | _ => none

def isClosing (c : Char) : Bool :=
  c == ')' || c == ']' || c == '}'

/- Close a bracket, which must be the innermost one. -/
def closeBracket (c : Char) : List Char → Option Reading
  | [] => none
  | expected :: rest =>
      if expected = c then
        some (.code rest)
      else
        none

/- Read a character of code. -/
def readCode (pending : List Char) (c : Char) : Option Reading :=
  if c = '"' then
    some (.quoted pending)
  else
    match closing? c with
    | some expected => some (.code (expected :: pending))
    | none =>
        if isClosing c then
          closeBracket c pending
        else
          some (.code pending)

/- Read a character of a string, which ends on its line. -/
def readQuoted (pending : List Char) (c : Char) : Option Reading :=
  if c = '\n' then
    none
  else if c = '\\' then
    some (.escaped pending)
  else if c = '"' then
    some (.code pending)
  else
    some (.quoted pending)

def Reading.next (reading : Reading) (c : Char) : Option Reading :=
  match reading.place with
  | .code => readCode reading.pending c
  | .quoted => readQuoted reading.pending c
  | .escaped =>
      if c = '\n' then
        none
      else
        some (.quoted reading.pending)

namespace Text

/- Read a text from left to right. -/
def read : Text → Reading → Option Reading
  | [], reading => some reading
  | c :: rest, reading => (reading.next c).bind (read rest)

/- All strings and all brackets of a text are closed. -/
def WellBracketed (text : Text) : Prop :=
  read text (.code []) = some (.code [])

instance (text : Text) :
    Decidable (WellBracketed text) :=
  inferInstanceAs (Decidable (_ = _))

theorem read_append (front back : Text) (reading : Reading) :
    read (front ++ back) reading = (read front reading).bind (read back) := by
  induction front generalizing reading with
  | nil => rfl
  | cons c _ ih =>
    cases hNext : reading.next c with
    | none => simp [read, hNext]
    | some => simp [read, hNext, ih]

end Text

open Text

-----
-- Parts Of Texts
-----

/- A text leads a reader from one state to another. -/
def ReadsText (text : Text) (before after : Reading) : Prop :=
  read text before = some after

theorem ReadsText.append
    {front back : Text} {middle : Reading} (hFront : ReadsText front before middle)
    (hBack : ReadsText back middle after) :
    ReadsText (front ++ back) before after := by
  unfold ReadsText at hFront hBack ⊢
  rw [read_append, hFront]
  exact hBack

/- Read a text that must stay on its line. -/
def Text.readLine : Text → Reading → Option Reading
  | [], reading => some reading
  | c :: rest, reading =>
      if c = '\n' then
        none
      else
        (reading.next c).bind (readLine rest)

/- A piece of a line leads a reader from one state to another. -/
def Reads (text : Text) (before after : Reading) : Prop :=
  readLine text before = some after

theorem Reads.nil (reading : Reading) :
    Reads [] reading reading :=
  rfl

theorem reads_cons_iff {rest : Text} {before after : Reading} :
    Reads (c :: rest) before after ↔
      c ≠ '\n' ∧ ∃ middle, before.next c = some middle ∧ Reads rest middle after := by
  by_cases hBreak : c = '\n'
  · simp [Reads, readLine, hBreak]
  · simp [Reads, readLine, hBreak, Option.bind_eq_some_iff]

theorem Reads.lineFree {text : Text} (h : Reads text before after) :
    LineFree text := by
  induction text generalizing before with
  | nil => exact lineFree_nil
  | cons _ _ ih =>
    rcases reads_cons_iff.mp h with ⟨hBreak, _, _, hRest⟩
    exact lineFree_cons.mpr ⟨hBreak, ih hRest⟩

theorem Reads.text {text : Text} (h : Reads text before after) :
    ReadsText text before after := by
  induction text generalizing before with
  | nil => exact h
  | cons c rest ih =>
    rcases reads_cons_iff.mp h with ⟨_, _, hNext, hRest⟩
    show (before.next c).bind (read rest) = _
    rw [hNext]
    exact ih hRest

theorem Reads.append
    {front back : Text} {middle : Reading} (hFront : Reads front before middle)
    (hBack : Reads back middle after) :
    Reads (front ++ back) before after := by
  induction front generalizing before with
  | nil =>
    cases hFront
    exact hBack
  | cons _ _ ih =>
    rcases reads_cons_iff.mp hFront with ⟨hBreak, next, hNext, hRest⟩
    exact reads_cons_iff.mpr ⟨hBreak, next, hNext, ih hRest⟩

/- A text that closes in code all that it opens. -/
def Balanced (text : Text) : Prop :=
  ∀ pending, Reads text (.code pending) (.code pending)

/- A text that a string may consist of. -/
def StaysQuoted (text : Text) : Prop :=
  ∀ pending, Reads text (.quoted pending) (.quoted pending)

theorem balanced_nil :
    Balanced [] :=
  fun _ => .nil _

-----
-- Texts Without Brackets
-----

/- Brackets, quotes and line breaks. -/
def delimiters : List Char :=
  ['(', ')', '[', ']', '{', '}', '"', '\n']

/- A text without brackets, quotes and line breaks. -/
def Text.IsBare (text : Text) : Prop :=
  ∀ c ∈ text, c ∉ delimiters

instance (text : Text) :
    Decidable text.IsBare :=
  decidable_of_iff (text.all (fun c => !delimiters.contains c) = true) (by simp [Text.IsBare])

/- What is no delimiter is read over in code. -/
theorem readCode_of_not_delimiter (h : c ∉ delimiters) (pending : List Char) :
    readCode pending c = some (.code pending) := by
  simp only [delimiters, List.mem_cons, List.not_mem_nil, not_or] at h
  rcases h with ⟨hRound, hRoundEnd, hSquare, hSquareEnd, hCurly, hCurlyEnd, hQuote, _⟩
  have hOpens : closing? c = none := by
    unfold closing?
    split
    · exact (hRound rfl).elim
    · exact (hSquare rfl).elim
    · exact (hCurly rfl).elim
    · rfl
  have hCloses : isClosing c = false := by simp [isClosing, hRoundEnd, hSquareEnd, hCurlyEnd]
  unfold readCode
  rw [if_neg hQuote, hOpens, hCloses]
  rfl

theorem balanced_of_isBare {text : Text} (h : text.IsBare) :
    Balanced text := by
  intro pending
  induction text with
  | nil => rfl
  | cons c _ ih =>
    rcases List.forall_mem_cons.mp h with ⟨hChar, hRest⟩
    have hBreak : c ≠ '\n' := by
      rintro rfl
      simp [delimiters] at hChar
    exact reads_cons_iff.mpr ⟨hBreak, _, readCode_of_not_delimiter hChar pending, ih hRest⟩

-----
-- Literals
-----

theorem StaysQuoted.append
    {front back : Text} (hFront : StaysQuoted front) (hBack : StaysQuoted back) :
    StaysQuoted (front ++ back) :=
  fun pending => (hFront pending).append (hBack pending)

theorem staysQuoted_flatMap
    {α : Type} {parts : List α} {write : α → Text} (h : ∀ part ∈ parts, StaysQuoted (write part)) :
    StaysQuoted (parts.flatMap write) := by
  induction parts with
  | nil => exact fun _ => .nil _
  | cons _ _ ih =>
    rcases List.forall_mem_cons.mp h with ⟨hPart, hRest⟩
    exact hPart.append (ih hRest)

namespace Literal

open CString (letterMeaning?)

theorem staysQuoted_char (hBreak : c ≠ '\n') (hEscape : c ≠ '\\') (hQuote : c ≠ '"') :
    StaysQuoted [c] := by
  intro pending
  refine reads_cons_iff.mpr ⟨hBreak, .quoted pending, ?_, .nil _⟩
  show readQuoted pending c = _
  unfold readQuoted
  rw [if_neg hBreak, if_neg hEscape, if_neg hQuote]

/- Three octal digits behind a backslash. -/
theorem staysQuoted_octal {value : Nat} (h : value < 128) :
    StaysQuoted ('\\' :: octal value) := by
  have hDigit : ∀ c ∈ octal value, c ≠ '\n' ∧ c ≠ '\\' ∧ c ≠ '"' := by
    intro c hMem
    rcases octal_plain value h c hMem with ⟨hEscape, hQuote, hControl⟩
    refine ⟨?_, hEscape, hQuote⟩
    rintro rfl
    cases hControl
  have hFirst := hDigit _ (.head _)
  have hMiddle := hDigit _ (.tail _ (.head _))
  have hLast := hDigit _ (.tail _ (.tail _ (.head _)))
  have hDigits :=
    (staysQuoted_char hMiddle.1 hMiddle.2.1 hMiddle.2.2).append
      (staysQuoted_char hLast.1 hLast.2.1 hLast.2.2)
  intro pending
  refine reads_cons_iff.mpr ⟨by decide, .escaped pending, rfl, ?_⟩
  exact reads_cons_iff.mpr ⟨hFirst.1, .quoted pending, if_neg hFirst.1, hDigits pending⟩

/- No character of a string ends it. -/
theorem staysQuoted_escapeChar (c : Char) :
    StaysQuoted (escapeChar false c) := by
  rcases escapeChar_cases c with
    ⟨_, hMeaning, hText⟩ | ⟨hSmall, hText⟩ | ⟨hEscape, hQuote, hControl, hText⟩
  · rw [hText]
    unfold letterMeaning? at hMeaning
    split at hMeaning <;> first | exact fun _ => rfl | cases hMeaning
  · rw [hText]
    exact staysQuoted_octal hSmall
  · rw [hText]
    refine staysQuoted_char ?_ hEscape hQuote
    rintro rfl
    cases hControl

theorem staysQuoted_escape (text : Text) :
    StaysQuoted (escape false text) :=
  staysQuoted_flatMap fun c _ => staysQuoted_escapeChar c

/- A format string is written as any other string. -/
theorem staysQuoted_formatText (quasis : List Text) (values : Nat) :
    StaysQuoted (formatText quasis values) := by
  rw [formatText_eq_writtenParts]
  exact staysQuoted_escape _

theorem balanced_string (value : Text) :
    Balanced (string value) := by
  have hSize : Balanced (ofNat value.byteSize) :=
    balanced_of_isBare (lacks_of_isWordChar rfl (all_isWordChar_ofNat _))
  have hValue := staysQuoted_escape value
  intro pending
  exact .append (.append (.append (.append rfl (hValue _)) rfl) (hSize _)) rfl

end Literal

-----
-- Blank Lines
-----

/- A line break is read over in code, and nowhere else. -/
theorem Reading.next_break {reading : Reading} (h : reading.next '\n' = some after) :
    after = reading := by
  rcases reading with ⟨place, _⟩
  cases place with
  | code =>
    cases h
    rfl
  | quoted | escaped => cases h

theorem ReadsText.collapseBreaks {text : Text} (h : ReadsText text before after) (seen : Nat) :
    ReadsText (collapseBreaks seen text) before after := by
  induction text generalizing seen before with
  | nil => exact h
  | cons c rest ih =>
    rcases Option.bind_eq_some_iff.mp h with ⟨_, hNext, hRest⟩
    have hKept :
        ∀ count,
          ReadsText (c :: Text.collapseBreaks count rest) before
            after := by
      intro count
      show (before.next c).bind _ = _
      rw [hNext]
      exact ih hRest count
    unfold Text.collapseBreaks
    split
    · next hBreak =>
      split
      · exact hKept _
      · -- A break that is left out has changed nothing.
        rw [hBreak] at hNext
        rw [Reading.next_break hNext] at hRest
        exact ih hRest _
    · exact hKept _

theorem ReadsText.eq_of_breaks
    {breaks : Text} (h : ReadsText breaks before after) (hBreaks : ∀ c ∈ breaks, c = '\n') :
    after = before := by
  induction breaks generalizing before with
  | nil => exact (Option.some.inj h).symm
  | cons _ _ ih =>
    rcases List.forall_mem_cons.mp hBreaks with ⟨rfl, hMore⟩
    rcases Option.bind_eq_some_iff.mp h with ⟨_, hNext, hRest⟩
    rw [Reading.next_break hNext] at hRest
    exact ih hRest hMore

theorem ReadsText.dropLastBreaks {text : Text} (h : ReadsText text before after) :
    ReadsText (dropLastBreaks text) before after := by
  have hSplit :
      text = Text.dropLastBreaks text ++ (text.reverse.takeWhile (· == '\n')).reverse := by
    rw [Text.dropLastBreaks, ← List.reverse_append,
      List.takeWhile_append_dropWhile, List.reverse_reverse]
  unfold ReadsText at h
  rw [hSplit, read_append] at h
  rcases Option.bind_eq_some_iff.mp h with ⟨middle, hFront, hBack⟩
  have hSame : after = middle := by
    apply ReadsText.eq_of_breaks hBack
    intro c hChar
    have hTaken := List.mem_takeWhile_imp (List.mem_reverse.mp hChar)
    simpa using hTaken
  rw [hSame]
  exact hFront

end ScriptLowering
