import ScriptLowering.Types.Application
import ScriptLowering.Vocabulary.Spelling

/-
  Native types, each with one spelling: builtin types,
  structs, and applications such as `Array<T>`.

  Key definitions include:
    * `TypeName`
    * `TypeName.arrayOf`
    * `TypeName.pointerTo`
    * `TypeName.arrayElement?`
-/

namespace ScriptLowering

/- A native type by its spelling. -/
structure TypeName where
  text : Text
deriving DecidableEq, Repr

namespace TypeName

-----
-- Builtin Types
-----

def bool : TypeName :=
  ⟨Spelling.bool⟩

def string : TypeName :=
  ⟨Spelling.string⟩

def void : TypeName :=
  ⟨Spelling.void⟩

def function : TypeName :=
  ⟨Spelling.function⟩

def numeric (kind : NumericKind) : TypeName :=
  ⟨kind.name⟩

/- A head applied to arguments. -/
def applied (head : Text) (args : List TypeName) : TypeName :=
  ⟨head ++ "<" ++ Text.joinWith ", " (args.map TypeName.text) ++ ">"⟩

def arrayOf (element : TypeName) : TypeName :=
  applied Spelling.array [element]

-----
-- Parts
-----

/- The only argument of an application of a given head. -/
def argumentOf? (head : Text) (type : TypeName) : Option TypeName :=
  match Application.ofText? type.text with
  | some ⟨found, [arg]⟩ =>
      if found = head then
        some ⟨arg⟩
      else
        none
  | _ => none

/- The element type of an array type. -/
def arrayElement? (type : TypeName) : Option TypeName :=
  argumentOf? Spelling.array type

/- The type that a pointer type points to. -/
def pointerTarget? (type : TypeName) : Option TypeName :=
  argumentOf? Spelling.pointer type

def isArray (type : TypeName) : Bool :=
  type.arrayElement?.isSome

def isPointer (type : TypeName) : Bool :=
  type.pointerTarget?.isSome

/- A pointer to a type; a pointer to an array points to elements. -/
def pointerTo (target : TypeName) : TypeName :=
  applied Spelling.pointer [target.arrayElement?.getD target]

-----
-- Properties
-----

def numericKind? (type : TypeName) : Option NumericKind :=
  NumericKind.ofName? type.text

def isNumeric (type : TypeName) : Bool :=
  type.numericKind?.isSome

def isFloat (type : TypeName) : Bool :=
  type.numericKind?.any NumericKind.isFloat

def isString (type : TypeName) : Bool :=
  type.text == Spelling.string

/- Every word of a type, from left to right. -/
def referencedNames (type : TypeName) : List Text :=
  type.text.words

/- The type as C++ spells it. -/
def render (type : TypeName) : Text :=
  type.text.mapWords Spelling.targetWord

end TypeName

end ScriptLowering
