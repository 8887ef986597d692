import Mathlib.Data.List.Forall2
import ScriptLowering.Lowering.Expression
import ScriptLowering.Proofs.EventLog
import ScriptLowering.Target.Printer

/-
  What a C++ compiler and the format function of the native
  library make of the texts that are written between double
  quotes. A reader takes a string literal behind its opening
  quote, one character or escape at a time; octal digits are
  taken greedily. Each written character is read back before
  anything behind it is looked at, so no two of them blend.

  Key theorems include:
    * `string_literal_reads_back`
    * `template_placeholders_match`
-/

namespace ScriptLowering

open List Literal

-----
-- Reading String Literals
-----

namespace CString

/- The character that a letter behind a backslash stands for. -/
def letterMeaning? : Char → Option Char
  | '\\' => some '\\'
  | '"' => some '"'
  | 'n' => some '\n'
  | 'r' => some '\r'
  | 't' => some '\t'
  | _ => none

/- The octal digits of an escape: all there are, up to three. -/
def octalDigits (text : Text) : Text :=
  (text.take 3).takeWhile fun c => '0' ≤ c && c ≤ '7'

/-
  What an escape stands for, and how long it is behind its
  backslash. A number above ASCII is a byte, no character.
-/
def readEscape? (text : Text) : Option (Char × Nat) :=
  match text.head?.bind letterMeaning? with
  | some meant => some (meant, 1)
  | none =>
      let digits := octalDigits text
      (Text.readUnsigned? 8 128 digits).map fun value =>
        (Char.ofNat value, digits.length)

/-
  A string literal behind its opening quote: its characters,
  and what is behind its closing quote. It ends on its line.
  The first characters may belong to an escape.
-/
def readFrom? : Nat → Text → Option (Text × Text)
  | _, [] => none
  | skip + 1, _ :: rest => readFrom? skip rest
  | 0, c :: rest =>
      if c = '"' then
        some ([], rest)
      else if c = '\n' then
        none
      else if c = '\\' then do
        let (meant, length) ← readEscape? rest
        let (chars, behind) ← readFrom? length rest
        return (meant :: chars, behind)
      else do
        let (chars, behind) ← readFrom? 0 rest
        return (c :: chars, behind)

def read? : Text → Option (Text × Text) :=
  readFrom? 0

/- Whether a text has a quote that no backslash belongs to. -/
def hasBareQuote : Text → Bool
  | [] => false
  | '\\' :: _ :: rest => hasBareQuote rest
  | c :: rest => c == '"' || hasBareQuote rest

theorem readFrom?_length (front rest : Text) :
    readFrom? front.length (front ++ rest) = read? rest := by
  induction front with
  | nil => rfl
  | cons _ _ ih => exact ih

/- A character that stands for itself. -/
theorem read?_cons
    {c : Char} (hQuote : c ≠ '"') (hBreak : c ≠ '\n') (hEscape : c ≠ '\\') (rest : Text) :
    read? (c :: rest) = (read? rest).map fun read => (c :: read.1, read.2) := by
  unfold read?
  rw [readFrom?, if_neg hQuote, if_neg hBreak, if_neg hEscape]
  cases readFrom? 0 rest <;> rfl

/- An escape, whose end does not depend on what is behind it. -/
theorem read?_escaped
    {c : Char} {escape rest : Text} (h : readEscape? (escape ++ rest) = some (c, escape.length)) :
    read? ('\\' :: (escape ++ rest)) = (read? rest).map fun read => (c :: read.1, read.2) := by
  unfold read?
  rw [readFrom?, if_neg (by decide), if_neg (by decide), if_pos rfl, h]
  show (do
    let (chars, behind) ← readFrom? escape.length (escape ++ rest)
    return (c :: chars, behind)) = _
  rw [readFrom?_length]
  unfold read?
  cases readFrom? 0 rest <;> rfl

theorem octal_read :
    ∀ value < 128,
      octalDigits (octal value) = octal value ∧
        Text.readUnsigned? 8 128 (octal value) = some value ∧
        (octal value).head?.bind letterMeaning? = none := by
  decide +kernel

theorem readEscape?_octal {value : Nat} (h : value < 128) (rest : Text) :
    readEscape? (octal value ++ rest) = some (Char.ofNat value, 3) := by
  rcases octal_read value h with ⟨hOctal, hValue, hLetter⟩
  have hDigits : octalDigits (octal value ++ rest) = octal value := hOctal
  have hHead :
      (octal value ++ rest).head?.bind letterMeaning? =
        none :=
    hLetter
  unfold readEscape?
  simp only [hHead, hDigits, hValue]
  rfl

end CString

-----
-- Escapes
-----

namespace Literal

open CString

/- A character is written as a letter, as a number, or as it is. -/
theorem escapeChar_cases (c : Char) :
    (∃ letter, letterMeaning? letter = some c ∧ escapeChar false c = ['\\', letter]) ∨
      (c.toNat < 128 ∧ escapeChar false c = '\\' :: octal c.toNat) ∨
      (c ≠ '\\' ∧ c ≠ '"' ∧ isControl c = false ∧ escapeChar false c = [c]) := by
  by_cases hEscape : c = '\\'
  · subst hEscape
    exact .inl ⟨'\\', rfl, rfl⟩
  by_cases hQuote : c = '"'
  · subst hQuote
    exact .inl ⟨'"', rfl, rfl⟩
  by_cases hBreak : c = '\n'
  · subst hBreak
    exact .inl ⟨'n', rfl, rfl⟩
  by_cases hReturn : c = '\r'
  · subst hReturn
    exact .inl ⟨'r', rfl, rfl⟩
  by_cases hTab : c = '\t'
  · subst hTab
    exact .inl ⟨'t', rfl, rfl⟩
  have hText : escapeChar false c = if isControl c then '\\' :: octal c.toNat else [c] := by
    simp [escapeChar, hEscape, hQuote, hBreak, hReturn, hTab]
  cases hControl : isControl c with
  | true =>
    rw [if_pos hControl] at hText
    refine .inr (.inl ⟨?_, hText⟩)
    simp only [isControl, Bool.or_eq_true, decide_eq_true_eq, beq_iff_eq] at hControl
    omega
  | false =>
    rw [if_neg (Bool.eq_false_iff.mp hControl)] at hText
    exact .inr (.inr ⟨hEscape, hQuote, rfl, hText⟩)

theorem read?_escapeChar (c : Char) (rest : Text) :
    read? (escapeChar false c ++ rest) = (read? rest).map fun read => (c :: read.1, read.2) := by
  rcases escapeChar_cases c with
    ⟨letter, hMeaning, hText⟩ | ⟨hSmall, hText⟩ | ⟨hEscape, hQuote, hControl, hText⟩
  · have hRead : readEscape? ([letter] ++ rest) = some (c, [letter].length) := by
      unfold readEscape?
      rw [singleton_append, head?_cons, Option.bind_some, hMeaning]
      rfl
    rw [hText]
    exact read?_escaped hRead
  · rw [hText]
    refine read?_escaped ?_
    rw [readEscape?_octal hSmall, Char.ofNat_toNat]
    rfl
  · rw [hText]
    refine read?_cons hQuote ?_ hEscape rest
    rintro rfl
    cases hControl

theorem read?_escape (text rest : Text) :
    read? (escape false text ++ '"' :: rest) = some (text, rest) := by
  induction text with
  | nil => rfl
  | cons c text ih =>
    show read? ((escapeChar false c ++ escape false text) ++ _) = _
    rw [append_assoc, read?_escapeChar, ih]
    rfl

theorem hasBareQuote_cons {c : Char} (h : c ≠ '\\') (rest : Text) :
    hasBareQuote (c :: rest) = (c == '"' || hasBareQuote rest) := by
  rw [hasBareQuote]
  rintro _ _ rfl
  exact absurd rfl h

theorem octal_plain :
    ∀ value < 128, ∀ c ∈ octal value, c ≠ '\\' ∧ c ≠ '"' ∧ isControl c = false := by
  have hAll :
      ∀ value < 128,
        (octal value).all
          (fun c => c != '\\' && (c != '"' && !isControl c)) =
            true := by
    decide +kernel
  intro value hValue c hMem
  simpa using all_eq_true.mp (hAll value hValue) c hMem

theorem hasBareQuote_escapeChar (c : Char) (rest : Text) :
    hasBareQuote (escapeChar false c ++ rest) = hasBareQuote rest := by
  rcases escapeChar_cases c with ⟨_, _, hText⟩ | ⟨hSmall, hText⟩ | ⟨hEscape, hQuote, _, hText⟩
  · rw [hText]
    rfl
  · have hPlain := octal_plain c.toNat hSmall
    rcases hPlain _ (.tail _ (.head _)) with ⟨hMiddle, hNext, _⟩
    rcases hPlain _ (.tail _ (.tail _ (.head _))) with ⟨hLast, hEnd, _⟩
    rw [hText]
    show hasBareQuote (_ :: _ :: rest) = _
    rw [hasBareQuote_cons hMiddle, hasBareQuote_cons hLast,
      beq_false_of_ne hNext, beq_false_of_ne hEnd]
    rfl
  · rw [hText]
    show hasBareQuote (c :: rest) = _
    rw [hasBareQuote_cons hEscape, beq_false_of_ne hQuote]
    rfl

theorem isControl_of_mem_escapeChar {c d : Char} (h : d ∈ escapeChar false c) :
    isControl d = false := by
  rcases escapeChar_cases c with ⟨_, hMeaning, hText⟩ | ⟨hSmall, hText⟩ | ⟨_, _, hControl, hText⟩
  · rw [hText] at h
    rcases mem_pair.mp h with rfl | rfl
    · rfl
    · unfold letterMeaning? at hMeaning
      split at hMeaning <;> first | rfl | cases hMeaning
  · rw [hText] at h
    rcases mem_cons.mp h with rfl | hOctal
    · rfl
    · exact (octal_plain c.toNat hSmall d hOctal).2.2
  · rw [hText] at h
    rw [mem_singleton.mp h]
    exact hControl

theorem hasBareQuote_escape (text : Text) :
    hasBareQuote (escape false text) = false := by
  induction text with
  | nil => rfl
  | cons c _ ih => exact (hasBareQuote_escapeChar c _).trans ih

end Literal

theorem Text.byteSize_eq_utf8ByteSize (text : Text) :
    text.byteSize = (String.ofList text).utf8ByteSize := by
  induction text with
  | nil => rfl
  | cons _ _ ih =>
    rw [Text.byteSize, ih, String.ofList_cons,
      String.utf8ByteSize_append, String.utf8ByteSize_singleton]

/-
  A string literal is what the constructor of strings is
  called with: between its quotes is a text on one line in
  which no quote is bare. It is read as the string, whatever
  is behind it, and the number of its bytes in UTF-8 follows.
-/
theorem string_literal_reads_back (value : Text) :
    ∃ body,
      Literal.string value =
          "String(\"" ++ body ++ "\", " ++ Nat.toDigits 10 (String.ofList value).utf8ByteSize ++
            ")" ∧
        (∀ c ∈ body, Literal.isControl c = false) ∧
        CString.hasBareQuote body = false ∧
        ∀ rest, CString.read? (body ++ '"' :: rest) = some (value, rest) := by
  refine
    ⟨Literal.escape false value, ?_, ?_, Literal.hasBareQuote_escape value,
      Literal.read?_escape value⟩
  · rw [← Text.byteSize_eq_utf8ByteSize]
    rfl
  · intro c hMem
    rcases List.mem_flatMap.mp hMem with ⟨d, _, hChar⟩
    exact Literal.isControl_of_mem_escapeChar hChar

-----
-- Reading Format Strings
-----

/- A part of a format string. -/
inductive FormatPart where
  | char (c : Char)
  | placeholder
deriving DecidableEq, Repr

namespace FormatPart

/- The parts of a format string, from left to right. -/
def read? : Text → Option (List FormatPart)
  | [] => some []
  | '{' :: '{' :: rest => (read? rest).map (.char '{' :: ·)
  | '}' :: '}' :: rest => (read? rest).map (.char '}' :: ·)
  | '{' :: '}' :: rest => (read? rest).map (.placeholder :: ·)
  | c :: rest =>
      if c = '{' ∨ c = '}' then
        none
      else
        (read? rest).map (.char c :: ·)

/- How a part is written: a brace is doubled. -/
def text : FormatPart → Text
  | .char c => if c = '{' ∨ c = '}' then [c, c] else [c]
  | .placeholder => Native.placeholder

theorem read?_text_append (part : FormatPart) (rest : Text) :
    read? (part.text ++ rest) = (read? rest).map (part :: ·) := by
  cases part with
  | placeholder => rfl
  | char c =>
    by_cases hOpen : c = '{'
    · subst hOpen
      rfl
    by_cases hClose : c = '}'
    · subst hClose
      rfl
    have hPlain : ¬(c = '{' ∨ c = '}') := by simp [hOpen, hClose]
    have hText : text (.char c) = [c] := if_neg hPlain
    rw [hText, singleton_append, read?, if_neg hPlain]
    · exact fun _ h => absurd h hOpen
    · exact fun _ h => absurd h hClose
    · exact fun _ h => absurd h hOpen

/- No part blends with what is behind it. -/
theorem read?_flatMap_text (parts : List FormatPart) :
    read? (parts.flatMap text) = some parts := by
  induction parts with
  | nil => rfl
  | cons _ _ ih =>
    rw [flatMap_cons, read?_text_append, ih]
    rfl

/- The quasis of a template with placeholders between them. -/
def ofQuasis (quasis : List Text) : List FormatPart :=
  [placeholder].intercalate (quasis.map (List.map char))

theorem ofQuasis_cons_cons (first second : Text) (rest : List Text) :
    ofQuasis (first :: second :: rest) =
      first.map char ++ placeholder :: ofQuasis (second :: rest) := by
  simp [ofQuasis]

theorem count_placeholder_map_char (quasi : Text) :
    (quasi.map char).count placeholder = 0 := by
  rw [count_eq_zero]
  simp

theorem count_ofQuasis (quasis : List Text) :
    (ofQuasis quasis).count placeholder = quasis.length - 1 := by
  induction quasis with
  | nil => rfl
  | cons _ rest ih =>
    cases rest with
    | nil => simp [ofQuasis, count_placeholder_map_char]
    | cons =>
      rw [ofQuasis_cons_cons, count_append, count_placeholder_map_char, count_cons_self, ih]
      simp

end FormatPart

-----
-- Templates
-----

namespace Literal

/- What is written for parts of a format string. -/
def writtenParts (parts : List FormatPart) : Text :=
  escape false (parts.flatMap FormatPart.text)

theorem writtenParts_append (left right : List FormatPart) :
    writtenParts (left ++ right) = writtenParts left ++ writtenParts right := by
  unfold writtenParts escape
  rw [flatMap_append, flatMap_append]

theorem escapeChar_true (c : Char) :
    escapeChar true c = writtenParts [.char c] := by
  by_cases hOpen : c = '{'
  · subst hOpen
    rfl
  by_cases hClose : c = '}'
  · subst hClose
    rfl
  simp [writtenParts, escape, escapeChar, FormatPart.text, hOpen, hClose]

theorem escape_true (quasi : Text) :
    escape true quasi = writtenParts (quasi.map .char) := by
  induction quasi with
  | nil => rfl
  | cons c quasi ih =>
    show escapeChar true c ++ escape true quasi = _
    rw [escapeChar_true, ih, ← writtenParts_append]
    rfl

theorem joinWith_escape_true (quasis : List Text) :
    Text.joinWith Native.placeholder (quasis.map (escape true)) =
      writtenParts (FormatPart.ofQuasis quasis) := by
  induction quasis with
  | nil => rfl
  | cons first rest ih =>
    cases rest with
    | nil => simp [Text.joinWith, FormatPart.ofQuasis, escape_true]
    | cons =>
      show escape true first ++ Native.placeholder ++ _ = _
      rw [FormatPart.ofQuasis_cons_cons, writtenParts_append, ← escape_true, append_assoc]
      rw [ih]
      rfl

theorem flatten_placeholders (count : Nat) :
    (replicate count Native.placeholder).flatten = writtenParts (replicate count .placeholder) := by
  induction count with
  | zero => rfl
  | succ _ ih =>
    show Native.placeholder ++ _ = _
    rw [ih]
    rfl

theorem formatText_eq_writtenParts (quasis : List Text) (values : Nat) :
    formatText quasis values =
      writtenParts
        (FormatPart.ofQuasis quasis ++
          .replicate (values + 1 - max quasis.length 1) .placeholder) := by
  rw [writtenParts_append, ← joinWith_escape_true, ← flatten_placeholders]
  rfl

end Literal

theorem lowerExprs_forall₂
    {site : Site} {context : ValueContext} {exprs : List Expr} {values : List Target.Expr}
    {state last : LowerState} (h : lowerExprs site context exprs state = .ok values last) :
    List.Forall₂
      (fun expr value => ∃ before after, lowerExpr site context expr before = .ok value after)
      exprs values := by
  induction exprs generalizing values state with
  | nil =>
    cases h
    exact .nil
  | cons _ _ ih =>
    rcases bind_eq_ok h with ⟨_, middle, hFirst, hRest⟩
    rcases bind_eq_ok hRest with ⟨_, _, hExprs, hReturn⟩
    cases hReturn
    exact .cons ⟨state, middle, hFirst⟩ (ih hExprs)

theorem Target.trailingTexts_eq (values : List Target.Expr) :
    Target.trailingTexts values = values.flatMap fun value => (", " ++ value.text : Text) := by
  induction values with
  | nil => rfl
  | cons _ _ ih =>
    rw [Target.trailingTexts, ih]
    rfl

/-
  The format string of a template is read, first as a string
  literal and then for its parts, as the quasis with one
  placeholder between neighbours and further ones at the end.
  There are as many as values, which follow in their order.
-/
theorem template_placeholders_match
    {site : Site} {context : ValueContext} {node : Node} {quasis : List Text} {exprs : List Expr}
    {state last : LowerState} {lowered : Target.Expr} (hQuasis : quasis.length ≤ exprs.length + 1)
    (hLower : lowerExpr site context (.template node quasis exprs) state = .ok lowered last) :
    ∃ (body format : Text) (values : List Target.Expr) (parts : List FormatPart) (further : Nat),
      lowered.text =
          "String::format(\"" ++ body ++ "\"" ++
            (values.flatMap fun value => (", " ++ value.text : Text)) ++
            ")" ∧
        List.Forall₂
          (fun expr value =>
            ∃ before after, lowerExpr site ValueContext.plain expr before = .ok value after)
          exprs values ∧
        (∀ rest, CString.read? (body ++ '"' :: rest) = some (format, rest)) ∧
        FormatPart.read? format = some parts ∧
        parts = FormatPart.ofQuasis quasis ++ .replicate further .placeholder ∧
        parts.count .placeholder = exprs.length := by
  rcases bind_eq_ok hLower with ⟨values, middle, hValues, hReturn⟩
  cases hReturn
  have hEach := lowerExprs_forall₂ hValues
  refine
    ⟨Literal.formatText quasis values.length, _, values, _,
      values.length + 1 - max quasis.length 1, ?_, hEach, ?_,
      FormatPart.read?_flatMap_text _, rfl, ?_⟩
  · rw [← Target.trailingTexts_eq]
    rfl
  · rw [Literal.formatText_eq_writtenParts]
    exact Literal.read?_escape _
  · rw [List.count_append, FormatPart.count_ofQuasis, List.count_replicate_self, hEach.length_eq]
    have hLength := hEach.length_eq
    omega

/- A template with braces at its placeholders, and quasis missing. -/
def bracedTemplate : Expr :=
  .template ⟨0, Span.nowhere⟩ ["a\x7b", "\x7d"]
    [.bool ⟨1, Span.nowhere⟩ true, .bool ⟨2, Span.nowhere⟩ false, .number ⟨3, Span.nowhere⟩ "2"]

theorem bracedTemplate_placeholders_match :
    ∃ (site : Site) (lowered : Target.Expr),
      lowerExpr site ValueContext.plain bracedTemplate LowerState.start =
        .ok lowered LowerState.start ∧
      lowered.text =
        "String::format(\"a\x7b\x7b\x7b\x7d\x7d\x7d\x7b\x7d\x7b\x7d\", true, false, 2)" ∧
      ∃ format parts, FormatPart.read? format = some parts ∧ parts.count .placeholder = 3 := by
  let site : Site :=
    ⟨⟨[], none, NodeTypes.empty, []⟩, 0, ⟨"main.ts", [], []⟩, none⟩
  refine ⟨site, _, rfl, rfl, ?_⟩
  have hLower :
      lowerExpr site ValueContext.plain bracedTemplate LowerState.start =
        .ok (.format ["a\x7b", "\x7d"] [.bool true, .bool false, .number "2"]) LowerState.start :=
    rfl
  rcases template_placeholders_match (by decide) hLower with
    ⟨_, format, _, parts, _, _, _, _, hParts, _, hCount⟩
  exact ⟨format, parts, hParts, hCount⟩

end ScriptLowering
