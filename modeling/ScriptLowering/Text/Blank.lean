import ScriptLowering.Text.Basic

/-
  Blank characters and trimming. Blank are the characters
  with the Unicode property `White_Space`; the byte order
  mark and the zero width space are not among them.

  Key definitions include:
    * `Text.isBlank`
    * `Text.trimStart`
    * `Text.trimEnd`
    * `Text.trim`

  Key theorems include:
    * `Text.trim_sublist`
-/

namespace ScriptLowering

namespace Text

-----
-- Blank Characters
-----

/- The ranges of code points that are blank. -/
def blankRanges : List (Nat × Nat) :=
  [ (0x0009, 0x000D), (0x0020, 0x0020), (0x0085, 0x0085), (0x00A0, 0x00A0), (0x1680, 0x1680),
    (0x2000, 0x200A),
    (0x2028, 0x2029),
    (0x202F, 0x202F),
    (0x205F, 0x205F),
    (0x3000, 0x3000) ]

/- Whether a character is blank. -/
def isBlank (c : Char) : Bool :=
  blankRanges.any fun range =>
    range.1 ≤ c.toNat && c.toNat ≤ range.2

-----
-- Trimming
-----

/- The text from its first character that is not blank. -/
def trimStart (text : Text) : Text :=
  text.dropWhile isBlank

/- The text up to its last character that is not blank. -/
def trimEnd (text : Text) : Text :=
  (text.reverse.dropWhile isBlank).reverse

/- The text without blanks at either end. -/
def trim (text : Text) : Text :=
  trimEnd (trimStart text)

theorem trimStart_sublist (text : Text) :
    (trimStart text).Sublist text :=
  List.dropWhile_sublist _

theorem trimEnd_sublist (text : Text) :
    (trimEnd text).Sublist text := by
  have h := List.dropWhile_sublist isBlank (l := text.reverse)
  simpa [trimEnd] using List.Sublist.reverse h

/- Trimming only leaves characters out. -/
theorem trim_sublist (text : Text) :
    (trim text).Sublist text :=
  (trimEnd_sublist _).trans (trimStart_sublist _)

end Text

end ScriptLowering
