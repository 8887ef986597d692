import ScriptLowering.Text.Basic

/-
  String literals of JSON: what stands between the quotes.
  A literal stands for a sequence of code units, which is
  the code points of its characters and the values of its
  escapes. Only some sequences are a text, since an escape
  may be half of a surrogate pair.

  Key definitions include:
    * `JsonText.encode`
    * `JsonText.units?`
    * `JsonText.textOfUnits?`
    * `JsonText.decode?`

  Key theorems include:
    * `JsonText.decode?_encode`
-/

namespace ScriptLowering

namespace JsonText

-----
-- Writing
-----

def hexDigit (value : Nat) : Char :=
  Nat.digitChar value

/- The letter that a character is written with behind a backslash. -/
def escapeLetter? : Char → Option Char
  | '"' => some '"'
  | '\\' => some '\\'
  | '\x08' => some 'b'
  | '\x0c' => some 'f'
  | '\n' => some 'n'
  | '\r' => some 'r'
  | '\t' => some 't'
  | _ => none

/- A character inside quotes. -/
def escape (c : Char) : Text :=
  match escapeLetter? c with
  | some letter => ['\\', letter]
  | none =>
      if c.toNat < 0x20 then
        "\\u00" ++ [hexDigit (c.toNat / 16), hexDigit (c.toNat % 16)]
      else
        [c]

/- The literal that a text is written as. -/
def encode (text : Text) : Text :=
  text.flatMap escape

-----
-- Units
-----

/- The character that a one letter escape stands for. -/
def unescape? : Char → Option Char
  | '"' => some '"'
  | '\\' => some '\\'
  | '/' => some '/'
  | 'b' => some '\x08'
  | 'f' => some '\x0c'
  | 'n' => some '\n'
  | 'r' => some '\r'
  | 't' => some '\t'
  | _ => none

def hexValue? (c : Char) : Option Nat :=
  (Text.digitValue? c).filter (· < 16)

/- The value of an escape with four hexadecimal digits. -/
def hexUnit? (a b c d : Char) : Option Nat := do
  let a ← hexValue? a
  let b ← hexValue? b
  let c ← hexValue? c
  let d ← hexValue? d
  return ((a * 16 + b) * 16 + c) * 16 + d

/- Whether a character stands for itself inside quotes. -/
def isPlain (c : Char) : Bool :=
  c != '"' && c != '\\' && 0x20 ≤ c.toNat

/- The code units of a literal. -/
def units? : Text → Option (List Nat)
  | [] => some []
  | '\\' :: 'u' :: a :: b :: c :: d :: rest => do
      let unit ← hexUnit? a b c d
      (units? rest).map (unit :: ·)
  | '\\' :: letter :: rest => do
      let c ← unescape? letter
      (units? rest).map (c.toNat :: ·)
  | c :: rest =>
      if isPlain c then
        (units? rest).map (c.toNat :: ·)
      else
        none

/- Whether all escapes of a literal are well formed. -/
def isLiteral (literal : Text) : Bool :=
  (units? literal).isSome

-----
-- Texts
-----

def isHighSurrogate (unit : Nat) : Bool :=
  0xD800 ≤ unit && unit < 0xDC00

def isLowSurrogate (unit : Nat) : Bool :=
  0xDC00 ≤ unit && unit < 0xE000

/- The character of two surrogates. -/
def surrogatePair (high low : Nat) : Char :=
  Char.ofNat (0x10000 + (high - 0xD800) * 0x400 + (low - 0xDC00))

/-
  The text of code units. A low surrogate must follow a high
  one, and a high one must be followed by a low one.
-/
def textOfUnits? : List Nat → Option Text
  | [] => some []
  | [unit] =>
      if isHighSurrogate unit || isLowSurrogate unit then
        none
      else
        some [Char.ofNat unit]
  | unit :: next :: rest =>
      if isHighSurrogate unit then
        if isLowSurrogate next then
          (textOfUnits? rest).map (surrogatePair unit next :: ·)
        else
          none
      else if isLowSurrogate unit then
        none
      else
        (textOfUnits? (next :: rest)).map (Char.ofNat unit :: ·)

/- The text that a literal stands for. -/
def decode? (literal : Text) : Option Text :=
  (units? literal).bind textOfUnits?

-----
-- Reading What Was Written
-----

theorem unescape?_escapeLetter? {c letter : Char} (h : escapeLetter? c = some letter) :
    unescape? letter = some c := by
  unfold escapeLetter? at h
  split at h <;> simp_all <;> subst h <;> rfl

/- The letter `u` is left for escapes with digits. -/
theorem escapeLetter?_ne_u {c letter : Char} (h : escapeLetter? c = some letter) :
    letter ≠ 'u' := by
  unfold escapeLetter? at h
  split at h <;> simp_all <;> subst h <;> decide

theorem hexValue?_hexDigit :
    ∀ n < 16, hexValue? (hexDigit n) = some n := by
  decide

theorem isPlain_of_escapeLetter?_eq_none
    {c : Char} (h : escapeLetter? c = none) (hSize : ¬ c.toNat < 0x20) :
    isPlain c = true := by
  have hQuote : c ≠ '"' := by rintro rfl; cases h
  have hSlash : c ≠ '\\' := by rintro rfl; cases h
  simp [isPlain, hQuote, hSlash]
  omega

/- A written character is one code unit. -/
theorem units?_escape_append (c : Char) (rest : Text) :
    units? (escape c ++ rest) = (units? rest).map (c.toNat :: ·) := by
  unfold escape
  split
  · next letter h =>
    have hNotU := escapeLetter?_ne_u h
    rw [List.cons_append, List.cons_append, List.nil_append, units?]
    · simp [unescape?_escapeLetter? h]
    · intro _ _ _ _ _ hU
      exact absurd hU hNotU
  · next h =>
    split
    · next hSize =>
      have hHigh := hexValue?_hexDigit (c.toNat / 16) (by omega)
      have hLow := hexValue?_hexDigit (c.toNat % 16) (by omega)
      have hZero : hexValue? '0' = some 0 := by decide
      change units? ('\\' :: 'u' :: '0' :: '0' :: hexDigit (c.toNat / 16) ::
          hexDigit (c.toNat % 16) :: rest) = _
      rw [units?]
      simp [hexUnit?, hHigh, hLow, hZero, Nat.div_add_mod']
    · next hSize =>
      have hPlain := isPlain_of_escapeLetter?_eq_none h hSize
      have hNotSlash : c ≠ '\\' := by rintro rfl; cases h
      rw [List.singleton_append, units?]
      · simp [hPlain]
      · intro _ _ _ _ _ hSlash
        exact absurd hSlash hNotSlash
      · intro _ _ hSlash
        exact absurd hSlash hNotSlash

theorem units?_encode (text : Text) :
    units? (encode text) = some (text.map Char.toNat) := by
  induction text with
  | nil => rfl
  | cons c rest ih =>
      change units? (escape c ++ encode rest) = _
      rw [units?_escape_append, ih]
      rfl

/- A literal that was written is well formed. -/
theorem isLiteral_encode (text : Text) :
    isLiteral (encode text) = true := by
  simp [isLiteral, units?_encode]

/- No character is half of a pair. -/
theorem not_isSurrogate_toNat (c : Char) :
    isHighSurrogate c.toNat = false ∧ isLowSurrogate c.toNat = false := by
  have hValid := c.valid
  simp only [UInt32.isValidChar, Nat.isValidChar] at hValid
  simp only [isHighSurrogate, isLowSurrogate, Char.toNat,
    Bool.and_eq_false_iff, decide_eq_false_iff_not]
  omega

theorem textOfUnits?_map_toNat (text : Text) :
    textOfUnits? (text.map Char.toNat) = some text := by
  induction text with
  | nil => rfl
  | cons c rest ih =>
      obtain ⟨hHigh, hLow⟩ := not_isSurrogate_toNat c
      cases rest with
      | nil => simp [textOfUnits?, hHigh, hLow]
      | cons =>
          simp only [List.map_cons] at ih ⊢
          simp [textOfUnits?, hHigh, hLow, ih]

/- Reading what was written gives the text back. -/
theorem decode?_encode (text : Text) :
    decode? (encode text) = some text := by
  simp [decode?, units?_encode, textOfUnits?_map_toNat]

end JsonText

end ScriptLowering
