import ScriptLowering.Lowering.Expression

/-
  Lowering of the statements of a function. The body of a
  loop or branch has a frame of its own, and so has the
  header of a `for` loop.

  Key definitions include:
    * `bindDeclarator`
    * `lowerVars`
    * `lowerStmt`
    * `lowerStmts`
-/

namespace ScriptLowering

open LowerM

-----
-- Declarators
-----

/-
  Decide the type of a declared name and bind it. Names of
  the root frame carry the origin of their unit.
-/
def bindDeclarator (site : Site) (declarator : Declarator) : LowerM TypeName := do
  let type ←
    typed site declarator.node.span
      (declaredType site.program.types declarator.node.id declarator.type?)
  let state ← get
  let origin? := if state.scope.isRoot then site.origin? else none
  declare site declarator.node.span declarator.name type origin?
  return type

/- Lower a bound name with its initial value. -/
def lowerDeclarator
    (site : Site) (type : TypeName) (declarator : Declarator) : LowerM Target.Declarator := do
  let name ← qualified site declarator.node.span declarator.name
  match declarator.init? with
  | none => return ⟨name, none⟩
  | some init => do
      let value ← lowerExpr site (ValueContext.expecting type) init
      markInitialized site declarator.node.span declarator.name
      return ⟨name, some value⟩

/- One C++ declaration for each declared name. -/
def lowerVars (site : Site) :
    List Declarator → LowerM (List (TypeName × Target.Declarator))
  | [] => return []
  | declarator :: rest => do
      let type ← bindDeclarator site declarator
      let lowered ← lowerDeclarator site type declarator
      let vars ← lowerVars site rest
      return (type, lowered) :: vars

/- The further names of a loop header have the first one's type. -/
def lowerSameType (site : Site) (first : TypeName) :
    List Declarator → LowerM (List Target.Declarator)
  | [] => return []
  | declarator :: rest => do
      let type ← bindDeclarator site declarator
      if type = first then do
        let lowered ← lowerDeclarator site type declarator
        let vars ← lowerSameType site first rest
        return lowered :: vars
      else
        fail site declarator.node.span (.mixedLoopTypes first type)

/- The first part of the header of a `for` loop. -/
def lowerForInit (site : Site) :
    Option ForInit → LowerM Target.ForInit
  | none => return .none
  | some (.expr value) => do
      let value ← lowerExpr site ValueContext.plain value
      return .expr value
  | some (.vars _ []) => return .none
  | some (.vars _ (declarator :: rest)) => do
      let type ← bindDeclarator site declarator
      let first ← lowerDeclarator site type declarator
      let vars ← lowerSameType site type rest
      return .declare type (first :: vars)

-----
-- Statements
-----

/- The context of a returned value. -/
def returnContext (returnType? : Option TypeName) : ValueContext :=
  ⟨false, returnType?⟩

mutual

/-
  Lower a statement. Where it is the whole body of a loop or
  branch, the statements of a block are that body.
-/
def lowerStmt (site : Site) (returnType? : Option TypeName) (isBody : Bool) :
    Stmt → LowerM (List Target.Stmt)
  | .vars _ _ declarators => do
      let vars ← lowerVars site declarators
      return vars.map fun entry => .declare entry.1 entry.2
  | .block _ body =>
      if isBody then
        lowerStmts site returnType? body
      else do
        let body ← inFrame (lowerStmts site returnType? body)
        return [.block body]
  | .ifElse _ condition thenStmt else? => do
      let condition ← lowerExpr site ValueContext.plain condition
      let body ← inFrame (lowerStmt site returnType? true thenStmt)
      let rest ← lowerElse site returnType? else?
      return [.branch condition body rest]
  | .whileLoop _ condition body => do
      let condition ← lowerExpr site ValueContext.plain condition
      let body ← inFrame (lowerStmt site returnType? true body)
      return [.whileLoop condition body]
  | .doLoop _ condition body => do
      let body ← inFrame (lowerStmt site returnType? true body)
      let condition ← lowerExpr site ValueContext.plain condition
      return [.doLoop body condition]
  | .forLoop _ init? condition? update? body =>
      inFrame do
        let init ← lowerForInit site init?
        let condition ←
          lowerExpr? site ValueContext.plain condition?
        let update ← lowerExpr? site ValueContext.plain update?
        let body ← inFrame (lowerStmt site returnType? true body)
        return [.forLoop init condition update body]
  | .ret _ value? => do
      let value ← lowerExpr? site (returnContext returnType?) value?
      return [.ret value]
  | .expr _ value => do
      let value ← lowerExpr site ValueContext.plain value
      return [.expr value]
  | .breakLoop _ => return [.breakLoop]
  | .continueLoop _ => return [.continueLoop]
  | .empty _ => return []
  | stmt => fail site stmt.span (.nestedStatement stmt.kindName)

/- Lower what follows the body of an `if`. -/
def lowerElse (site : Site) (returnType? : Option TypeName) :
    Option Stmt → LowerM Target.Else
  | none => return .none
  | some (.ifElse _ condition thenStmt else?) => do
      let condition ← lowerExpr site ValueContext.plain condition
      let body ← inFrame (lowerStmt site returnType? true thenStmt)
      let rest ← lowerElse site returnType? else?
      return .branch condition body rest
  | some stmt => do
      let body ← inFrame (lowerStmt site returnType? true stmt)
      return .body body

def lowerStmts (site : Site) (returnType? : Option TypeName) :
    List Stmt → LowerM (List Target.Stmt)
  | [] => return []
  | stmt :: rest => do
      let first ← lowerStmt site returnType? false stmt
      let stmts ← lowerStmts site returnType? rest
      return first ++ stmts

end

end ScriptLowering
