import ScriptLowering.Types.Name
import ScriptLowering.Vocabulary.Native

/-
  Literals in C++: numbers, strings and format strings.

  Key definitions include:
    * `Literal.number`
    * `Literal.float?`
    * `Literal.escape`
    * `Literal.string`
-/

namespace ScriptLowering

namespace Literal

-----
-- Numbers
-----

/- A number in C++, where a quote separates digits. -/
def number (text : Text) : Text :=
  text.map fun c => if c = '_' then '\'' else c

/- Whether a number has a base in front. -/
def hasBase (lower : Text) : Bool :=
  (("0x" : Text).isPrefixOf lower) || (("0o" : Text).isPrefixOf lower) ||
    (("0b" : Text).isPrefixOf lower)

/- A decimal number as a literal of a floating point type. -/
def float? (single : Bool) (text : Text) : Option Text :=
  let lower := text.map Char.toLower
  if hasBase lower then
    none
  else
    let fraction : Text :=
      if text.contains '.' || lower.contains 'e' then
        []
      else
        ".0"
    let mark : Text := if single then "f" else []
    some (number text ++ fraction ++ mark)

-----
-- Strings
-----

/- Control characters of ASCII. -/
def isControl (c : Char) : Bool :=
  c.toNat < 0x20 || c.toNat == 0x7F

/-
  Three octal digits, so that a digit behind them is never
  taken for one of them.
-/
def octal (value : Nat) : Text :=
  [ Nat.digitChar (value / 64), Nat.digitChar (value / 8 % 8), Nat.digitChar (value % 8) ]

/-
  A character in a C++ string; in a format string braces are
  doubled.
-/
def escapeChar (format : Bool) (c : Char) : Text :=
  if c = '\\' then
    "\\\\"
  else if c = '"' then
    "\\\""
  else if c = '\n' then
    "\\n"
  else if c = '\r' then
    "\\r"
  else if c = '\t' then
    "\\t"
  else if format && (c == '{' || c == '}') then
    [c, c]
  else if isControl c then
    "\\" ++ octal c.toNat
  else
    [c]

def escape (format : Bool) (text : Text) : Text :=
  text.flatMap (escapeChar format)

/- A string with the number of its bytes. -/
def string (value : Text) : Text :=
  Native.stringConstructor ++ "(\"" ++ escape false value ++
    "\", " ++ Text.ofNat value.byteSize ++ ")"

-----
-- Format Strings
-----

/-
  The format string of a template: one placeholder between
  neighbouring quasis, and further ones for values without a
  quasi behind them.
-/
def formatText (quasis : List Text) (values : Nat) : Text :=
  Text.joinWith Native.placeholder (quasis.map (escape true)) ++
    (List.replicate (values + 1 - max quasis.length 1) Native.placeholder).flatten

end Literal

end ScriptLowering
