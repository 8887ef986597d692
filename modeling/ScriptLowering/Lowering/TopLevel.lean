import ScriptLowering.Lowering.Inlining
import ScriptLowering.Lowering.Statement

/-
  Lowering of the statements of a unit: functions, imports
  and variables. Interfaces and type aliases are declared
  when the unit is entered.

  Key definitions include:
    * `register`
    * `lowerFunction`
    * `lowerImport`
    * `lowerStep`
-/

namespace ScriptLowering

open LowerM

-----
-- Entering a Unit
-----

/-
  Declare the functions, interfaces and aliases of a unit, so
  that they may be used before they are written. All headings
  of one function share the binding of the first.
-/
def register (site : Site) (bound : List Text) : List Stmt → LowerM Unit
  | [] => return ()
  | .function node head _ :: rest =>
      if bound.contains head.name then
        register site bound rest
      else do
        declareInitialized site node.span head.name TypeName.function site.origin?
        register site (head.name :: bound) rest
  | .interface node decl :: rest => do
      let _ ← typed site node.span (TypeTable.declareInterface decl)
      register site bound rest
  | .typeAlias node decl :: rest => do
      let _ ← typed site node.span (TypeTable.declareAlias decl)
      register site bound rest
  | _ :: rest => register site bound rest

-----
-- Functions
-----

/- The written return type, or else the inferred one, or else none. -/
def returnType (site : Site) (node : Node) (head : FunctionHead) : LowerM TypeName :=
  match head.returnType?, site.program.types.get? node.id with
  | some written, _ =>
      typed site node.span (TypeTable.canonicalize written.text)
  | none, some inferred =>
      typed site node.span (TypeTable.canonicalize inferred)
  | none, none => return TypeName.void

def lowerParams (site : Site) :
    List Param → LowerM (List (Text × TypeName))
  | [] => return []
  | param :: rest => do
      let type ←
        typed site param.node.span (declaredType site.program.types param.node.id param.type?)
      declareInitialized site param.node.span param.name type none
      let params ← lowerParams site rest
      return (param.name, type) :: params

def lowerFunction
    (site : Site) (node : Node) (head : FunctionHead)
    (body? : Option (List Stmt)) : LowerM Target.Item := do
  let name ← qualified site node.span head.name
  let type ← returnType site node head
  markUsed type
  inFrame do
    let params ← lowerParams site head.params
    match body? with
    | none => return .function ⟨name, params, type⟩ none
    | some body => do
        let body ← lowerStmts site (some type) body
        return .function ⟨name, params, type⟩ (some body)

-----
-- Imports
-----

/- The names of an import that can be lowered. -/
def importNames (site : Site) (span : Span) : ImportClause → LowerM (List ImportName)
  | .named names =>
      match names.find? fun name => name.alias?.isSome with
      | some aliased =>
          fail site aliased.node.span (.aliasedImport aliased.name)
      | none => return names
  | .default _ => fail site span .defaultImport
  | .namespaced _ => fail site span .namespaceImport
  | .sideEffect => fail site span .sideEffectImport

/- Bind names of the native library that are not bound yet. -/
def bindNative (site : Site) : List ImportName → LowerM Unit
  | [] => return ()
  | name :: rest => do
      let state ← get
      if (state.scope.lookupRoot? name.name).isSome then
        bindNative site rest
      else do
        let type ←
          typed site name.node.span (declaredType site.program.types name.node.id none)
        declareInitialized site name.node.span name.name type none
        bindNative site rest

/- Names taken from a unit must be known after it was taken in. -/
def checkProvided (site : Site) (specifier : Text) : List ImportName → LowerM Unit
  | [] => return ()
  | name :: rest => do
      let state ← get
      if (state.scope.lookupRoot? name.name).isSome ||
          state.types.isTypeName name.name then
        checkProvided site specifier rest
      else
        fail site name.node.span (.notProvided name.name specifier)

/- Lower an import whose unit was taken in before. -/
def lowerImport
    (site : Site) (node : Node) (specifier : Text) (clause : ImportClause) : LowerM Unit := do
  let names ← importNames site node.span clause
  match site.program.resolveModule? site.unitId specifier with
  | none => fail site node.span (.unresolvedModule specifier)
  | some .native => bindNative site names
  | some (.unit id) =>
      if (site.program.unit? id).isSome then
        checkProvided site specifier names
      else
        fail site node.span (.missingUnit specifier)

-----
-- Steps
-----

/- Lower a statement of a unit. -/
def lowerTopLevel (site : Site) : Stmt → LowerM (List Target.Item)
  | .function node head body? => do
      let item ← lowerFunction site node head body?
      return [item]
  | .importFrom node specifier clause => do
      lowerImport site node specifier clause
      return []
  | .interface _ _ => return []
  | .typeAlias _ _ => return []
  | .vars _ _ declarators => do
      let vars ← lowerVars site declarators
      return vars.map fun entry => .global entry.1 entry.2
  | stmt => fail site stmt.span (.topLevelStatement stmt.kindName)

def lowerStep : Step → LowerM (List Target.Item)
  | .enter site => do
      register site [] site.unit.statements
      return []
  | .statement site stmt => lowerTopLevel site stmt

def lowerSteps : List Step → LowerM (List Target.Item)
  | [] => return []
  | step :: rest => do
      let first ← lowerStep step
      let items ← lowerSteps rest
      return first ++ items

end ScriptLowering
