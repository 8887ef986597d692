/-
  Text is a list of characters, so that every function on it
  is a recursion a proof can follow. A string literal stands
  for the list of its characters.

  Key definitions include:
    * `Text`
    * `Text.byteSize`
    * `Text.dropStart?`
    * `Text.dropEnd?`
-/

namespace ScriptLowering

-----
-- Text
-----

/- A text is the list of its characters. -/
abbrev Text :=
  List Char

instance : Coe String Text :=
  ⟨String.toList⟩

namespace Text

/- The number of bytes of a text in UTF-8. -/
def byteSize : Text → Nat
  | [] => 0
  | c :: rest => c.utf8Size + byteSize rest

theorem byteSize_append (front back : Text) :
    byteSize (front ++ back) = byteSize front + byteSize back := by
  induction front with
  | nil => simp [byteSize]
  | cons _ _ ih => simp [byteSize, ih, Nat.add_assoc]

theorem byteSize_le_of_sublist {part text : Text} (h : part.Sublist text) :
    byteSize part ≤ byteSize text := by
  induction h with
  | slnil => exact Nat.le_refl _
  | cons _ _ ih => exact Nat.le_trans ih (Nat.le_add_left _ _)
  | cons_cons _ _ ih => exact Nat.add_le_add_left ih _

/- What follows a given beginning, when the text has it. -/
def dropStart? : Text → Text → Option Text
  | text, [] => some text
  | [], _ :: _ => none
  | c :: text, d :: beginning =>
      if c = d then
        dropStart? text beginning
      else
        none

/- What precedes a given ending, when the text has it. -/
def dropEnd? (text ending : Text) : Option Text :=
  (dropStart? text.reverse ending.reverse).map List.reverse

theorem dropStart?_eq_some
    {text beginning rest : Text} (h : dropStart? text beginning = some rest) :
    text = beginning ++ rest := by
  fun_induction dropStart? text beginning with
  | case1 => simpa using h
  | case2 | case4 => cases h
  | case3 _ _ _ ih => simp [ih h]

theorem dropEnd?_eq_some {text ending rest : Text} (h : dropEnd? text ending = some rest) :
    text = rest ++ ending := by
  unfold dropEnd? at h
  obtain ⟨reversed, hDrop, hReverse⟩ :=
    Option.map_eq_some_iff.1 h
  have hText := dropStart?_eq_some hDrop
  have hBack := congrArg List.reverse hText
  simpa [hReverse] using hBack

/- Whether a given text occurs somewhere inside. -/
def containsText (part : Text) : Text → Bool
  | [] => part.isEmpty
  | c :: rest =>
      part.isPrefixOf (c :: rest) || containsText part rest

/- The parts in order, with a separator between neighbours. -/
def joinWith (separator : Text) : List Text → Text
  | [] => []
  | [part] => part
  | part :: rest => part ++ separator ++ joinWith separator rest

/- Replace each occurrence of a pattern, from left to right. -/
def replaceAll (pattern replacement : Text) : Text → Text :=
  go 0
where
  /- `skip` characters still belong to the last occurrence. -/
  go (skip : Nat) : Text → Text
    | [] => []
    | c :: rest =>
        match skip with
        | skip + 1 => go skip rest
        | 0 =>
            if pattern.isPrefixOf (c :: rest) then
              replacement ++ go (pattern.length - 1) rest
            else
              c :: go 0 rest

-----
-- Natural Numbers
-----

/- The decimal digits of a number. -/
def ofNat (n : Nat) : Text :=
  Nat.toDigits 10 n

/- The value of a digit, letters standing for ten and more. -/
def digitValue? (c : Char) : Option Nat :=
  if c.isDigit then
    some (c.toNat - '0'.toNat)
  else if c.isLower then
    some (c.toNat - 'a'.toNat + 10)
  else if c.isUpper then
    some (c.toNat - 'A'.toNat + 10)
  else
    none

/- Add digits of a base to a number read so far. -/
def readDigits? (base : Nat) (value : Nat) : Text → Option Nat
  | [] => some value
  | c :: rest =>
      match digitValue? c with
      | none => none
      | some digit =>
          if digit < base then
            readDigits? base (value * base + digit) rest
          else
            none

/-
  Read an unsigned number of a base: one `+` may stand in
  front, at least one digit must follow, and the value must
  lie below the limit.
-/
def readUnsigned? (base limit : Nat) (text : Text) : Option Nat :=
  let digits :=
    match text with
    | '+' :: rest => rest
    | other => other
  if digits.isEmpty then
    none
  else
    (readDigits? base 0 digits).filter (· < limit)

end Text

end ScriptLowering
