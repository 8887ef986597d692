import ScriptLowering.Json.Lexer

/-
  Reading JSON. Tokens are read from left to right with a
  stack of the arrays and objects that are still open.

  Key definitions include:
    * `JsonFrame`
    * `JsonState`
    * `JsonState.step?`
    * `Json.read?`
-/

namespace ScriptLowering

-----
-- Open Values
-----

/-
  An open array or object, with its parts in reverse; a
  field is an object whose last key waits for its value.
-/
inductive JsonFrame where
  | array (items : List Json)
  | object (members : List (Text × Json))
  | field (key : Text) (members : List (Text × Json))

/- What may come next. -/
inductive JsonExpect where
  | value
  | itemOrEnd
  | keyOrEnd
  | key
  | colon
  | separator
  | nothing (result : Json)

structure JsonState where
  stack : List JsonFrame
  expect : JsonExpect

namespace JsonState

def start : JsonState :=
  ⟨[], .value⟩

/- Put a finished value where it belongs. -/
def accept? (value : Json) : List JsonFrame → Option JsonState
  | [] => some ⟨[], .nothing value⟩
  | .array items :: rest =>
      some ⟨.array (value :: items) :: rest, .separator⟩
  | .field key members :: rest =>
      some ⟨.object ((key, value) :: members) :: rest, .separator⟩
  | .object _ :: _ => none

/- Begin a value. -/
def beginValue? (stack : List JsonFrame) : JsonToken → Option JsonState
  | .beginArray => some ⟨.array [] :: stack, .itemOrEnd⟩
  | .beginObject => some ⟨.object [] :: stack, .keyOrEnd⟩
  | .literal text => accept? (.string text) stack
  | .atom value => accept? value stack
  | _ => none

/- Read a key of the innermost object. -/
def beginField? (key : Text) : List JsonFrame → Option JsonState
  | .object members :: rest =>
      some ⟨.field key members :: rest, .colon⟩
  | _ => none

/- Close the innermost array. -/
def endArray? : List JsonFrame → Option JsonState
  | .array items :: rest => accept? (.array items.reverse) rest
  | _ => none

/- Close the innermost object. -/
def endObject? : List JsonFrame → Option JsonState
  | .object members :: rest =>
      accept? (.object members.reverse) rest
  | _ => none

/- A comma asks for a further item or for a further key. -/
def afterComma? : List JsonFrame → Option JsonState
  | .array items :: rest => some ⟨.array items :: rest, .value⟩
  | .object members :: rest =>
      some ⟨.object members :: rest, .key⟩
  | _ => none

/- Read one token. -/
def step? (state : JsonState) (token : JsonToken) : Option JsonState :=
  match state.expect, token with
  | .value, token => beginValue? state.stack token
  | .itemOrEnd, .endArray => endArray? state.stack
  | .itemOrEnd, token => beginValue? state.stack token
  | .keyOrEnd, .endObject => endObject? state.stack
  | .keyOrEnd, .literal key => beginField? key state.stack
  | .key, .literal key => beginField? key state.stack
  | .colon, .colon => some ⟨state.stack, .value⟩
  | .separator, .comma => afterComma? state.stack
  | .separator, .endArray => endArray? state.stack
  | .separator, .endObject => endObject? state.stack
  | _, _ => none

/- Read all tokens. -/
def run? : JsonState → List JsonToken → Option JsonState
  | state, [] => some state
  | state, token :: rest =>
      match state.step? token with
      | none => none
      | some next => next.run? rest

/- The value that was read, once nothing more may come. -/
def result? (state : JsonState) : Option Json :=
  match state.expect with
  | .nothing value => some value
  | _ => none

end JsonState

/- The value of a JSON text. -/
def Json.read? (text : Text) : Option Json := do
  let tokens ← JsonText.tokenize? text
  let state ← JsonState.start.run? tokens
  state.result?

end ScriptLowering
