import ScriptLowering.Types.Registry

/-
  The order in which used structs are emitted: that of their
  registration, but each one behind the structs that its
  fields mention, unless they mention it in turn. A pointer
  to a struct that comes later needs a forward declaration.

  Key definitions include:
    * `Registry.dependencies`
    * `Registry.emissionIndices`
    * `Registry.emissionOrder`
    * `forwardDeclarations`
-/

namespace ScriptLowering

-----
-- Emission Order
-----

/- Visit a struct, or place it behind what it depends on. -/
inductive EmissionTask where
  | visit (index : Nat)
  | place (index : Nat)
deriving DecidableEq, Repr

def EmissionTask.placed? : EmissionTask → Option Nat
  | .visit _ => none
  | .place index => some index

namespace Registry

def isUsedAt (registry : Registry) (index : Nat) : Bool :=
  registry.structs[index]?.any Struct.used

/- The places of the structs that a struct's fields mention. -/
def dependencies (registry : Registry) (index : Nat) : List Nat :=
  match registry.structs[index]? with
  | none => []
  | some struct => struct.fieldNames.filterMap registry.index?

/- A visited struct is replaced by its dependencies and its place. -/
def emissionExpansion (registry : Registry) : Expansion EmissionTask where
  asks
    | .visit index =>
        if registry.isUsedAt index then
          some index
        else
          none
    | .place _ => none
  tasksOf index _ :=
    (registry.dependencies index).map .visit ++ [.place index]

/- The places of the used structs in emission order. -/
def emissionIndices (registry : Registry) : List Nat :=
  let size := registry.structs.length
  let trace :=
    registry.emissionExpansion.run size [] ((List.range size).map .visit)
  trace.emitted.filterMap EmissionTask.placed?

/- The used structs in emission order. -/
def emissionOrder (registry : Registry) : List Struct :=
  registry.emissionIndices.filterMap fun index =>
    registry.structs[index]?

end Registry

-----
-- Forward Declarations
-----

/- The words of those field types that are pointer types. -/
def Struct.pointerNames (struct : Struct) : List Text :=
  (struct.fields.filter fun field => field.2.isPointer).flatMap fun field => field.2.referencedNames

/- Whether a struct in front of a place points to that place. -/
def isPointedToBefore (order : List Struct) (place : Nat) : Bool :=
  (order.take place).any fun struct =>
    struct.pointerNames.any fun name =>
      lastIndex? name order == some place

/- The structs to declare in front of an order, in that order. -/
def forwardDeclarations (order : List Struct) : List Text :=
  ((List.range order.length).filter (isPointedToBefore order)).filterMap
    fun place => order[place]?.map Struct.name

end ScriptLowering
