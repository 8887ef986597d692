import ScriptLowering.Source.Tree
import ScriptLowering.Types.Registry
import ScriptLowering.Types.Term

/-
  The types known to a program: its structs and its aliases.
  Deciding a type may register structs for object types
  without a name; what was registered before a failure stays.

  Key definitions include:
    * `TypeTable`
    * `TypeM`
    * `TypeTerm.eval`
    * `TypeTable.canonicalize`
-/

namespace ScriptLowering

-----
-- Tables
-----

structure TypeTable where
  registry : Registry
  aliases : List (Text × TypeName)
deriving DecidableEq, Repr

/-
  A computation on the type table, which is kept when the
  computation fails.
-/
abbrev TypeM :=
  EStateM TypeError TypeTable

namespace TypeTable

def empty : TypeTable :=
  ⟨Registry.empty, []⟩

def alias? (table : TypeTable) (name : Text) : Option TypeName :=
  table.aliases.lookup name

/- Whether a name is that of a struct or of an alias. -/
def isTypeName (table : TypeTable) (name : Text) : Bool :=
  table.registry.contains name || (table.alias? name).isSome

def markUsed (table : TypeTable) (type : TypeName) : TypeTable :=
  { table with registry := table.registry.markUsed type }

/- The struct for a field list. -/
def intern (fields : List (Text × TypeName)) : TypeM TypeName :=
  modifyGet fun table =>
    let (type, registry) := table.registry.intern fields
    (type, { table with registry := registry })

/- Register a struct under a name of its own. -/
def declareStruct (name : Text) (fields : List (Text × TypeName)) : TypeM TypeName := do
  let table ← get
  match table.registry.declare name fields with
  | .error error => throw error
  | .ok registry =>
      set { table with registry := registry }
      return ⟨name⟩

end TypeTable

-----
-- Terms
-----

namespace TypeTerm

/- The array type of an element that is no array itself. -/
def arrayType (raw : Text) (element : TypeName) : TypeM TypeName :=
  if element.isArray then
    throw (.nestedArray raw)
  else
    return TypeName.arrayOf element

/- A name stands for its alias, or for itself. -/
def namedType (raw name : Text) : TypeM TypeName := do
  let table ← get
  match table.alias? name with
  | some target => return target
  | none =>
      if name.isIdentifier then
        return ⟨name⟩
      else
        throw (.undecidable raw)

mutual

/- The native type of a term; parts are decided in order. -/
def eval : TypeTerm → TypeM TypeName
  | .undecided raw => throw (.undecidable raw)
  | .disallowed word => throw (.disallowed word)
  | .malformed text fault => throw (.malformedShape text fault)
  | .string => return TypeName.string
  | .bool => return TypeName.bool
  | .numeral fraction =>
      return TypeName.numeric
        (if fraction then
          NumericKind.defaultFloat
        else
          NumericKind.defaultInteger)
  | .shape members => do
      let fields ← evalMembers members
      TypeTable.intern fields
  | .array raw element => do
      let element ← element.eval
      arrayType raw element
  | .applied raw head args =>
      if head = Spelling.array then
        match args with
        | [arg] => do
            let element ← arg.eval
            arrayType raw element
        | _ => throw (.undecidable raw)
      else if head = Spelling.pointer then
        match args with
        | [arg] => do
            let target ← arg.eval
            return TypeName.pointerTo target
        | _ => throw (.undecidable raw)
      else do
        let args ← evalArgs args
        return TypeName.applied head args
  | .named raw name => namedType raw name

def evalArgs : List TypeTerm → TypeM (List TypeName)
  | [] => return []
  | arg :: rest => do
      let first ← arg.eval
      let types ← evalArgs rest
      return first :: types

def evalMembers :
    List (Text × TypeTerm) → TypeM (List (Text × TypeName))
  | [] => return []
  | (name, type) :: rest => do
      let first ← type.eval
      let fields ← evalMembers rest
      return (name, first) :: fields

end

end TypeTerm

-----
-- Spellings And Declarations
-----

namespace TypeTable

/- The native type of a spelling. -/
def canonicalize (raw : Text) : TypeM TypeName :=
  (TypeTerm.ofText raw).eval

/- The members of an interface as struct fields. -/
def interfaceFields (interface : Text) :
    List InterfaceMember → TypeM (List (Text × TypeName))
  | [] => return []
  | member :: rest =>
      if member.optional then
        throw (.malformedShape interface (.optionalMember member.name))
      else if member.method then
        throw (.malformedShape interface (.methodMember member.name))
      else do
        let type ← canonicalize member.type.text
        let fields ← interfaceFields interface rest
        return (member.name, type) :: fields

/- Declare an interface as a struct. -/
def declareInterface (decl : Interface) : TypeM TypeName := do
  let table ← get
  if (table.alias? decl.name).isSome then
    throw (.redeclared decl.name)
  else
    let fields ← interfaceFields decl.name decl.members
    if fields.isEmpty then
      throw (.malformedShape decl.name .emptyInterface)
    else
      declareStruct decl.name fields

/- Let a name stand for a type. -/
def addAlias (name : Text) (target : TypeName) : TypeM TypeName := do
  modify fun table =>
    { table with aliases := (name, target) :: table.aliases }
  return target

/- Declare a type alias; an object type becomes a struct. -/
def declareAlias (decl : TypeAlias) : TypeM TypeName := do
  let table ← get
  if table.isTypeName decl.name then
    throw (.redeclared decl.name)
  else
    match TypeTerm.ofText (Text.trim decl.type.text) with
    | .shape members => do
        let fields ← TypeTerm.evalMembers members
        declareStruct decl.name fields
    | term => do
        let target ← term.eval
        addAlias decl.name target

end TypeTable

end ScriptLowering
