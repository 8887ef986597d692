import ScriptLowering.Scope.Module
import ScriptLowering.Types.Table

/-
  Lexical scopes: a root frame that lives for the whole
  program, and the frames nested in it. A name may be bound
  again in an inner frame, but not twice in one frame.

  Key definitions include:
    * `Binding`
    * `ScopeChain`
    * `ScopeChain.push`
    * `ScopeChain.pop`
-/

namespace ScriptLowering

-----
-- Bindings
-----

/-
  What a name is bound to. The origin is the specifier of
  the unit that declared the name; locals and names of the
  entry unit have none.
-/
structure Binding where
  type : TypeName
  initialized : Bool
  origin? : Option Text
deriving DecidableEq, Repr

inductive ScopeError where
  | doubleDeclaration (name : Text)
  | unknownIdentifier (name : Text)
deriving DecidableEq, Repr

namespace ScopeError

def message : ScopeError → Text
  | doubleDeclaration name =>
      ticked name ++ " is already declared in this scope"
  | unknownIdentifier name =>
      "unknown identifier " ++ ticked name

def kind : ScopeError → ErrorKind
  | doubleDeclaration _ => .doubleDeclaration
  | unknownIdentifier _ => .unknownIdentifier

end ScopeError

-----
-- Frames
-----

/- The bindings of one frame, the latest first. -/
abbrev Frame :=
  List (Text × Binding)

/- Set the flag of the binding of a name. -/
def initializeIn (name : Text) : Frame → Frame
  | [] => []
  | (bound, binding) :: rest =>
      if bound = name then
        (bound, { binding with initialized := true }) :: rest
      else
        (bound, binding) :: initializeIn name rest

/- The same in the nearest frame that binds the name. -/
def initializeNearest (name : Text) : List Frame → Option (List Frame)
  | [] => none
  | frame :: outer =>
      match frame.lookup name with
      | some _ => some (initializeIn name frame :: outer)
      | none => (initializeNearest name outer).map (frame :: ·)

-----
-- Chains
-----

/- Nested frames, the current one first, inside the root frame. -/
structure ScopeChain where
  nested : List Frame
  root : Frame
deriving DecidableEq, Repr

namespace ScopeChain

def empty : ScopeChain :=
  ⟨[], []⟩

/- All frames, the current one first and the root last. -/
def frames (scope : ScopeChain) : List Frame :=
  scope.nested ++ [scope.root]

/- The number of frames, the root included. -/
def depth (scope : ScopeChain) : Nat :=
  scope.nested.length + 1

def isRoot (scope : ScopeChain) : Bool :=
  scope.nested.isEmpty

/- The innermost frame. -/
def current (scope : ScopeChain) : Frame :=
  scope.nested.headD scope.root

/- Enter a nested frame. -/
def push (scope : ScopeChain) : ScopeChain :=
  { scope with nested := [] :: scope.nested }

/- Leave the current frame; the root is never left. -/
def pop (scope : ScopeChain) : ScopeChain :=
  { scope with nested := scope.nested.tail }

/- Add a binding to the current frame. -/
def bind (scope : ScopeChain) (name : Text) (binding : Binding) : ScopeChain :=
  match scope.nested with
  | [] => { scope with root := (name, binding) :: scope.root }
  | frame :: outer =>
      { scope with
        nested := ((name, binding) :: frame) :: outer }

/-
  Declare a name in the current frame, which marks the
  structs of its type as used.
-/
def declare
    (scope : ScopeChain) (table : TypeTable) (name : Text) (type : TypeName)
    (origin? : Option Text) :
    Except ScopeError (ScopeChain × TypeTable) :=
  match scope.current.lookup name with
  | some _ => .error (.doubleDeclaration name)
  | none =>
      .ok (scope.bind name ⟨type, false, origin?⟩, table.markUsed type)

/- The nearest binding of a name, from the inside out. -/
def lookup? (scope : ScopeChain) (name : Text) : Option Binding :=
  scope.frames.findSome? fun frame => frame.lookup name

def lookupType? (scope : ScopeChain) (name : Text) : Option TypeName :=
  (scope.lookup? name).map Binding.type

/- The binding of a name in the root frame. -/
def lookupRoot? (scope : ScopeChain) (name : Text) : Option Binding :=
  scope.root.lookup name

/- Flag the nearest binding of a name as initialized. -/
def markInitialized (scope : ScopeChain) (name : Text) : Except ScopeError ScopeChain :=
  match initializeNearest name scope.nested with
  | some nested => .ok { scope with nested := nested }
  | none =>
      match scope.root.lookup name with
      | some _ =>
          .ok { scope with root := initializeIn name scope.root }
      | none => .error (.unknownIdentifier name)

/- The emitted name of the nearest binding. -/
def qualifiedName? (scope : ScopeChain) (name : Text) : Option Text :=
  (scope.lookup? name).map fun binding =>
    match binding.origin? with
    | some origin => mangleModule origin ++ name
    | none => name

end ScopeChain

end ScriptLowering
