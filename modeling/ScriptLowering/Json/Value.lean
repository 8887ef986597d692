import ScriptLowering.Json.Literal

/-
  JSON values. Numbers written as plain integers are kept as
  integers; all other numbers are kept as they are written.
  Strings and keys are kept as their literals, since not
  every literal stands for a text. Members of an object keep
  their order, and a key may occur more than once.

  Key definitions include:
    * `Json`
    * `Json.ofText`
    * `Json.toText?`
    * `Json.depth`
-/

namespace ScriptLowering

-----
-- Values
-----

inductive Json where
  | null
  | bool (value : Bool)
  | integer (value : Int)
  | real (text : Text)
  | string (literal : Text)
  | array (items : List Json)
  | object (members : List (Text × Json))
deriving Repr

namespace Json

/- A text as a string. -/
def ofText (text : Text) : Json :=
  .string (JsonText.encode text)

/- The text of a string, when it is one. -/
def toText? : Json → Option Text
  | .string literal => JsonText.decode? literal
  | _ => none

mutual

/- How many arrays and objects enclose the deepest part. -/
def depth : Json → Nat
  | .array items => depthOfItems items + 1
  | .object members => depthOfMembers members + 1
  | _ => 0

def depthOfItems : List Json → Nat
  | [] => 0
  | item :: rest => max item.depth (depthOfItems rest)

def depthOfMembers : List (Text × Json) → Nat
  | [] => 0
  | (_, value) :: rest => max value.depth (depthOfMembers rest)

end

end Json

-----
-- Tokens
-----

/-
  The tokens of a JSON text. A literal is what stands between
  two quotes, as a value or as a key; an atom is `null`, a
  truth value or a number.
-/
inductive JsonToken where
  | beginArray
  | endArray
  | beginObject
  | endObject
  | comma
  | colon
  | literal (text : Text)
  | atom (value : Json)
deriving Repr

namespace Json

mutual

/- The tokens that a value is written with. -/
def tokens : Json → List JsonToken
  | .string literal => [.literal literal]
  | .array items => .beginArray :: tokensOfItems items
  | .object members => .beginObject :: tokensOfMembers members
  | atom => [.atom atom]

/- The items of an array with its closing bracket. -/
def tokensOfItems : List Json → List JsonToken
  | [] => [.endArray]
  | item :: rest => item.tokens ++ tokensOfLaterItems rest

/- The same behind an item. -/
def tokensOfLaterItems : List Json → List JsonToken
  | [] => [.endArray]
  | item :: rest =>
      .comma :: item.tokens ++ tokensOfLaterItems rest

/- The members of an object with its closing brace. -/
def tokensOfMembers : List (Text × Json) → List JsonToken
  | [] => [.endObject]
  | (key, value) :: rest =>
      .literal key :: .colon :: value.tokens ++ tokensOfLaterMembers rest

/- The same behind a member. -/
def tokensOfLaterMembers :
    List (Text × Json) → List JsonToken
  | [] => [.endObject]
  | (key, value) :: rest =>
      .comma :: .literal key :: .colon :: value.tokens ++ tokensOfLaterMembers rest

end

end Json

end ScriptLowering
