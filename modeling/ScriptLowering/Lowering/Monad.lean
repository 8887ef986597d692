import ScriptLowering.Lowering.Error

/-
  The state of lowering and what is done to it. The types
  and scopes known so far are kept when lowering fails; the
  place that is being lowered is not part of the state.

  Key definitions include:
    * `Site`
    * `LowerState`
    * `LowerM`
    * `LowerM.declare`
-/

namespace ScriptLowering

-----
-- Sites
-----

/-
  The unit that is being lowered. Its origin is the specifier
  by which it was imported; the entry unit has none.
-/
structure Site where
  program : Program
  unitId : UnitId
  unit : SourceUnit
  origin? : Option Text

/- A fault at a span of the unit. -/
def Site.error (site : Site) (span : Span) (fault : Fault) : CompileError :=
  ⟨fault.kind, fault.message, site.unit.path, site.unit.position span.start.toNat, span⟩

-----
-- States
-----

structure LowerState where
  types : TypeTable
  scope : ScopeChain
deriving DecidableEq, Repr

/- Before lowering, the names of the native library are bound. -/
def LowerState.start : LowerState :=
  ⟨TypeTable.empty,
    ⟨[],
      Native.globals.map fun global =>
        (global.1, ⟨⟨global.2⟩, true, none⟩)⟩⟩

/- A computation on the state, which is kept on failure. -/
abbrev LowerM :=
  EStateM CompileError LowerState

namespace LowerM

variable {α : Type}

def fail (site : Site) (span : Span) (fault : Fault) : LowerM α :=
  throw (site.error span fault)

/- A computation on the types, whose error is placed at a span. -/
def onTypes
    {ε : Type} (site : Site) (span : Span) (fault : ε → Fault)
    (action : EStateM ε TypeTable α) : LowerM α :=
  fun state =>
    match action state.types with
    | .ok value types => .ok value { state with types := types }
    | .error error types =>
        .error (site.error span (fault error)) { state with types := types }

/- Decide a type. -/
def typed (site : Site) (span : Span) (action : TypeM α) : LowerM α :=
  onTypes site span .type action

/- The type of an expression. -/
def exprType (site : Site) (span : Span) (expr : Expr) : LowerM TypeName := do
  let state ← get
  typed site span (expr.type site.program.types state.scope)

/- The meaning of a call. -/
def kindOfCall
    (site : Site) (span : Span) (callee : Expr) (args : List Expr) : LowerM CallKind := do
  let state ← get
  onTypes site span .intrinsic (callKind site.program.types state.scope callee args)

/- Mark the structs of a type as used. -/
def markUsed (type : TypeName) : LowerM Unit :=
  modify fun state =>
    { state with types := state.types.markUsed type }

/- Declare a name in the current frame. -/
def declare
    (site : Site) (span : Span) (name : Text) (type : TypeName)
    (origin? : Option Text) : LowerM Unit := do
  let state ← get
  match state.scope.declare state.types name type origin? with
  | .ok (scope, types) => set (⟨types, scope⟩ : LowerState)
  | .error error => fail site span (.scope error)

/- Flag the nearest binding of a name as initialized. -/
def markInitialized (site : Site) (span : Span) (name : Text) : LowerM Unit := do
  let state ← get
  match state.scope.markInitialized name with
  | .ok scope => set { state with scope := scope }
  | .error error => fail site span (.scope error)

/- Declare a name that has its value from the start. -/
def declareInitialized
    (site : Site) (span : Span) (name : Text) (type : TypeName)
    (origin? : Option Text) : LowerM Unit := do
  declare site span name type origin?
  markInitialized site span name

/- The emitted name of a name in scope. -/
def qualified (site : Site) (span : Span) (name : Text) : LowerM Text := do
  let state ← get
  match state.scope.qualifiedName? name with
  | some emitted => return emitted
  | none => fail site span (.scope (.unknownIdentifier name))

def pushFrame (state : LowerState) : LowerState :=
  { state with scope := state.scope.push }

def popFrame (state : LowerState) : LowerState :=
  { state with scope := state.scope.pop }

/- Run inside a new frame, which is left in any case. -/
def inFrame (action : LowerM α) : LowerM α :=
  fun state =>
    match action (pushFrame state) with
    | .ok value state => .ok value (popFrame state)
    | .error error state => .error error (popFrame state)

end LowerM

end ScriptLowering
