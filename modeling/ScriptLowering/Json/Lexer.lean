import ScriptLowering.Json.Value

/-
  The tokens of a JSON text, read one character at a time.
  The mode says which token the reader is inside of. Blanks
  between tokens are the space, the tab and the two line
  break characters.

  Key definitions include:
    * `JsonMode`
    * `JsonMode.step?`
    * `JsonMode.finish?`
    * `JsonText.tokenize?`
-/

namespace ScriptLowering

namespace JsonText

-----
-- Numbers
-----

def isNumberChar (c : Char) : Bool :=
  c.isDigit || c == '-' || c == '+' || c == '.' || c == 'e' || c == 'E'

/- At least one digit and nothing else. -/
def isDigits (text : Text) : Bool :=
  !text.isEmpty && text.all Char.isDigit

/- Digits without a superfluous leading zero. -/
def isWhole (text : Text) : Bool :=
  isDigits text && (text.length == 1 || text.head? != some '0')

/- Nothing, or an exponent with its digits. -/
def isExponent : Text → Bool
  | [] => true
  | c :: rest =>
      (c == 'e' || c == 'E') && (match rest with
        | '+' :: digits => isDigits digits
        | '-' :: digits => isDigits digits
        | digits => isDigits digits)

/- Nothing, or a fraction with its digits, then an exponent. -/
def isFraction : Text → Bool
  | '.' :: rest =>
      isDigits (rest.takeWhile Char.isDigit) && isExponent (rest.dropWhile Char.isDigit)
  | rest => isExponent rest

/- A number without its sign. -/
def isMagnitude (text : Text) : Bool :=
  isWhole (text.takeWhile Char.isDigit) && isFraction (text.dropWhile Char.isDigit)

/-
  Read a number. A minus sign in front of a lone zero makes
  a number that is no integer.
-/
def readNumber? (text : Text) : Option Json :=
  let (negative, magnitude) :=
    match text with
    | '-' :: rest => (true, rest)
    | rest => (false, rest)
  if isMagnitude magnitude then
    if magnitude.all Char.isDigit then
      match Text.readDigits? 10 0 magnitude, negative with
      | some 0, true => some (.real text)
      | some value, true => some (.integer (-(value : Int)))
      | some value, false => some (.integer value)
      | none, _ => none
    else
      some (.real text)
  else
    none

/- Read one of the three words. -/
def readWord? (text : Text) : Option Json :=
  if text = "null" then
    some .null
  else if text = "true" then
    some (.bool true)
  else if text = "false" then
    some (.bool false)
  else
    none

def isBlank (c : Char) : Bool :=
  c == ' ' || c == '\t' || c == '\n' || c == '\r'

end JsonText

-----
-- Modes
-----

/-
  Where the reader stands: between tokens, inside a word or
  a number, inside a string, or behind a backslash inside a
  string. Characters of an unfinished token are kept in
  reverse.
-/
inductive JsonMode where
  | between
  | word (reversed : Text)
  | number (reversed : Text)
  | string (reversed : Text)
  | escape (reversed : Text)

namespace JsonMode

open JsonText

/- Start a token, or skip a blank. -/
def start? (c : Char) : Option (JsonMode × List JsonToken) :=
  if isBlank c then
    some (.between, [])
  else if c = '[' then
    some (.between, [.beginArray])
  else if c = ']' then
    some (.between, [.endArray])
  else if c = '\x7b' then
    some (.between, [.beginObject])
  else if c = '\x7d' then
    some (.between, [.endObject])
  else if c = ',' then
    some (.between, [.comma])
  else if c = ':' then
    some (.between, [.colon])
  else if c = '"' then
    some (.string [], [])
  else if c = '-' || c.isDigit then
    some (.number [c], [])
  else if c.isLower then
    some (.word [c], [])
  else
    none

/- End a token that the next character does not belong to. -/
def startAfter? (value? : Option Json) (c : Char) : Option (JsonMode × List JsonToken) := do
  let value ← value?
  let (mode, tokens) ← start? c
  return (mode, .atom value :: tokens)

/- End a string, whose escapes are looked at only here. -/
def endString? (literal : Text) : Option (JsonMode × List JsonToken) :=
  if isLiteral literal then
    some (.between, [.literal literal])
  else
    none

/- Read one character. -/
def step? : JsonMode → Char →
    Option (JsonMode × List JsonToken)
  | .between, c => start? c
  | .word reversed, c =>
      if c.isLower then
        some (.word (c :: reversed), [])
      else
        startAfter? (readWord? reversed.reverse) c
  | .number reversed, c =>
      if isNumberChar c then
        some (.number (c :: reversed), [])
      else
        startAfter? (readNumber? reversed.reverse) c
  | .string reversed, c =>
      if c = '"' then
        endString? reversed.reverse
      else if c = '\\' then
        some (.escape (c :: reversed), [])
      else
        some (.string (c :: reversed), [])
  | .escape reversed, c => some (.string (c :: reversed), [])

/- The last token, at the end of the text. -/
def finish? : JsonMode → Option (List JsonToken)
  | .between => some []
  | .word reversed =>
      (readWord? reversed.reverse).map fun value => [.atom value]
  | .number reversed =>
      (readNumber? reversed.reverse).map fun value =>
        [.atom value]
  | _ => none

/-
  The tokens of a text that starts in a given mode, behind
  the tokens read before it, which are kept in reverse.
-/
def tokensFrom? : JsonMode → List JsonToken → Text →
    Option (List JsonToken)
  | mode, reversed, [] =>
      mode.finish?.map fun last => reversed.reverse ++ last
  | mode, reversed, c :: rest =>
      match mode.step? c with
      | none => none
      | some (next, tokens) =>
          tokensFrom? next (tokens.reverse ++ reversed) rest

end JsonMode

/- The tokens of a JSON text. -/
def JsonText.tokenize? (text : Text) : Option (List JsonToken) :=
  JsonMode.between.tokensFrom? [] text

end ScriptLowering
