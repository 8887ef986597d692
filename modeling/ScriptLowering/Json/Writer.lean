import ScriptLowering.Json.Value

/-
  Writing JSON. A value is written token by token, without
  blanks between tokens.

  Key definitions include:
    * `JsonText.ofInt`
    * `JsonToken.render`
    * `Json.render`
-/

namespace ScriptLowering

namespace JsonText

def ofInt : Int → Text
  | .ofNat n => Text.ofNat n
  | .negSucc n => "-" ++ Text.ofNat (n + 1)

end JsonText

-----
-- Values
-----

/- A value that is neither a string nor has parts. -/
def Json.renderAtom : Json → Text
  | .bool true => "true"
  | .bool false => "false"
  | .integer value => JsonText.ofInt value
  | .real text => text
  | _ => "null"

def JsonToken.render : JsonToken → Text
  | .beginArray => "["
  | .endArray => "]"
  | .beginObject => "\x7b"
  | .endObject => "\x7d"
  | .comma => ","
  | .colon => ":"
  | .literal text => "\"" ++ text ++ "\""
  | .atom value => value.renderAtom

/- The text of a value. -/
def Json.render (json : Json) : Text :=
  json.tokens.flatMap JsonToken.render

end ScriptLowering
