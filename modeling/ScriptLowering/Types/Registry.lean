import ScriptLowering.DepthFirst
import ScriptLowering.Types.Error
import ScriptLowering.Types.Name

/-
  The structs of a program. A struct is declared under a
  name of its own, or synthesized for an object type without
  a name. Of several structs with one shape the first stands
  for the shape; of several with one name the last stands
  for the name. A struct is emitted only if it is used.

  Key definitions include:
    * `Struct`
    * `Registry`
    * `Registry.index?`
    * `Registry.declare`
-/

namespace ScriptLowering

-----
-- Structs
-----

inductive StructOrigin where
  | declared
  | synthesized
deriving DecidableEq, Repr

structure Struct where
  name : Text
  fields : List (Text × TypeName)
  origin : StructOrigin
  used : Bool
deriving DecidableEq, Repr

/- The words of all field types, in order. -/
def Struct.fieldNames (struct : Struct) : List Text :=
  struct.fields.flatMap fun field => field.2.referencedNames

/- The key by which equal field lists are found. -/
def shapeKey (fields : List (Text × TypeName)) : Text :=
  Text.joinWith ";" (fields.map fun field => field.1 ++ ":" ++ field.2.text)

/- The last place of a name in a list of structs. -/
def lastIndex? (name : Text) : List Struct → Option Nat
  | [] => none
  | struct :: rest =>
      match lastIndex? name rest with
      | some index => some (index + 1)
      | none =>
          if struct.name = name then
            some 0
          else
            none

-----
-- Registries
-----

/- The structs in the order of their registration. -/
structure Registry where
  structs : List Struct
deriving DecidableEq, Repr

namespace Registry

def empty : Registry :=
  ⟨[]⟩

/- The place of the struct that a name stands for. -/
def index? (registry : Registry) (name : Text) : Option Nat :=
  lastIndex? name registry.structs

/- The struct that a name stands for. -/
def get? (registry : Registry) (name : Text) : Option Struct :=
  (registry.index? name).bind fun index =>
    registry.structs[index]?

def contains (registry : Registry) (name : Text) : Bool :=
  (registry.index? name).isSome

/- The first struct with the shape of a field list. -/
def ofShape? (registry : Registry) (fields : List (Text × TypeName)) : Option Struct :=
  registry.structs.find? fun struct =>
    shapeKey struct.fields == shapeKey fields

def push (registry : Registry) (struct : Struct) : Registry :=
  ⟨registry.structs ++ [struct]⟩

/- Register a struct under a name that is not taken. -/
def declare (registry : Registry) (name : Text) (fields : List (Text × TypeName)) :
    Except TypeError Registry :=
  if registry.contains name then
    .error (.redeclared name)
  else
    .ok (registry.push ⟨name, fields, .declared, false⟩)

/- How many structs were synthesized so far. -/
def synthesizedCount (registry : Registry) : Nat :=
  registry.structs.countP fun struct =>
    struct.origin == .synthesized

/- The name of the next synthesized struct. -/
def nextName (registry : Registry) : Text :=
  "anon_struct_" ++ Text.ofNat registry.synthesizedCount

/-
  The struct for a field list: the first one with its shape,
  or else a new one.
-/
def intern (registry : Registry) (fields : List (Text × TypeName)) : TypeName × Registry :=
  match registry.ofShape? fields with
  | some struct => (⟨struct.name⟩, registry)
  | none =>
      (⟨registry.nextName⟩, registry.push ⟨registry.nextName, fields, .synthesized, false⟩)

-----
-- Use
-----

/- The places of the used structs. -/
def usedIndices (registry : Registry) : List Nat :=
  (List.range registry.structs.length).filter fun index =>
    registry.structs[index]?.any Struct.used

/- A name asks for its struct, which supplies its field names. -/
def useExpansion (registry : Registry) : Expansion Text where
  asks := registry.index?
  tasksOf index _ :=
    (registry.structs[index]?.map Struct.fieldNames).getD []

/-
  The places of the structs that are used once the given
  names are. What a struct names when it becomes used becomes
  used with it.
-/
def usedWith (registry : Registry) (names : List Text) : List Nat :=
  (registry.useExpansion.run registry.structs.length registry.usedIndices names).opened

/- Mark the structs that a type mentions, directly or not. -/
def markUsed (registry : Registry) (type : TypeName) : Registry :=
  let used := registry.usedWith type.referencedNames
  ⟨registry.structs.mapIdx fun index struct =>
    { struct with used := used.contains index }⟩

end Registry

end ScriptLowering
