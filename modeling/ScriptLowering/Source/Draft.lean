import ScriptLowering.Source.Program

/-
  Drafts of programs: trees without node numbers. Numbering
  a draft gives every node the next free number after the
  nodes nested in it, from left to right, and records the
  types that literals have by themselves.

  Key definitions include:
    * `DraftExpr`
    * `DraftStmt`
    * `NodeNumbering`
    * `NodeNumbering.fresh`
-/

namespace ScriptLowering

-----
-- Drafts
-----

/- A parameter with the spelling of its type. -/
structure DraftParam where
  name : Text
  type : Text
deriving DecidableEq, Repr

mutual

inductive DraftExpr where
  | ident (name : Text)
  | literal (text : Text)
  | bool (value : Bool)
  | string (value : Text)
  | template (quasis : List Text) (exprs : List DraftExpr)
  | array (elements : List DraftExpr)
  | object (members : List DraftMember)
  | paren (inner : DraftExpr)
  | member (object : DraftExpr) (property : Text)
  | index (object : DraftExpr) (index : DraftExpr)
  | call (callee : DraftExpr) (typeArgs : List Text)
      (args : List DraftExpr)
  | methodCall (receiver : DraftExpr) (method : Text)
      (args : List DraftExpr)
  | conditional (condition : DraftExpr) (thenExpr : DraftExpr)
      (elseExpr : DraftExpr)
  | assertion (inner : DraftExpr) (type : Text)
  | unary (op : UnaryOp) (operand : DraftExpr)
  | step (op : StepOp) (operand : DraftExpr)
  | binary (op : BinaryOp) (left : DraftExpr)
      (right : DraftExpr)
  | typed (inner : DraftExpr) (type : Text)
  | spanned (span : Span) (inner : DraftExpr)
  | null
  | this
  | new (callee : DraftExpr) (args : List DraftExpr)
  | arrow (params : List DraftParam) (body : List DraftStmt)

inductive DraftMember where
  | property (name : Text) (value : DraftExpr)
  | shorthand (name : Text)
  | spread (value : DraftExpr)
  | method (name : Text)

/- A declared name: its written type, its inferred type, its value. -/
inductive DraftDeclarator where
  | mk (name : Text) (written? : Option Text)
      (inferred? : Option Text) (init? : Option DraftExpr)

inductive DraftForInit where
  | vars (kind : VarKind) (declarators : List DraftDeclarator)
  | expr (value : DraftExpr)

inductive DraftStmt where
  | function (name : Text) (params : List DraftParam)
      (returnType? : Option Text)
      (body? : Option (List DraftStmt))
  | importNamed (specifier : Text)
      (names : List (Text × Option Text))
  | importDefault (specifier : Text) (name : Text)
  | importNamespace (specifier : Text) (name : Text)
  | importSideEffect (specifier : Text)
  | interface (name : Text) (fields : List (Text × Text))
  | typeAlias (name : Text) (type : Text)
  | vars (kind : VarKind) (declarators : List DraftDeclarator)
  | block (body : List DraftStmt)
  | ifElse (condition : DraftExpr) (thenBranch : DraftStmt)
      (elseBranch? : Option DraftStmt)
  | whileLoop (condition : DraftExpr) (body : DraftStmt)
  | doLoop (body : DraftStmt) (condition : DraftExpr)
  | forLoop (init? : Option DraftForInit)
      (condition? : Option DraftExpr)
      (update? : Option DraftExpr) (body : DraftStmt)
  | ret (value? : Option DraftExpr)
  | expr (value : DraftExpr)
  | breakLoop
  | continueLoop
  | empty
  | classDecl (name : Text)
  | enumDecl (name : Text)
  | raise (value : DraftExpr)
  | spanned (span : Span) (inner : DraftStmt)

end

-----
-- Numbering
-----

/- The next free node number and the types recorded so far. -/
structure NodeNumbering where
  next : NodeId
  types : NodeTypes

namespace NodeNumbering

def start : NodeNumbering :=
  ⟨0, NodeTypes.empty⟩

/- Take the next free number for a node with a span. -/
def fresh (span? : Option Span) : StateM NodeNumbering Node :=
  fun numbering =>
    (⟨numbering.next, span?.getD Span.nowhere⟩, { numbering with next := numbering.next + 1 })

/- Record a node's type, in place of an earlier one. -/
def record (id : NodeId) (type : Text) : StateM NodeNumbering Unit :=
  modify fun numbering =>
    { numbering with types := numbering.types.insert id type }

/- Take a number for a node and record a type for it. -/
def freshTyped (span? : Option Span) (type : Text) : StateM NodeNumbering Node := do
  let node ← fresh span?
  record node.id type
  return node

/- Take a number for a node whose type may be known. -/
def freshInferred (span? : Option Span) (inferred? : Option Text) : StateM NodeNumbering Node :=
  match inferred? with
  | none => fresh span?
  | some type => freshTyped span? type

end NodeNumbering

/- A type spelling that stands nowhere in the source. -/
def TypeText.ofText (text : Text) : TypeText :=
  ⟨text, Span.nowhere⟩

open NodeNumbering in
def DraftParam.number (param : DraftParam) : StateM NodeNumbering Param := do
  let node ← fresh none
  return ⟨node, param.name, some (TypeText.ofText param.type)⟩

/- One id for every imported name, from left to right. -/
def numberImportNames :
    List (Text × Option Text) → StateM NodeNumbering (List ImportName)
  | [] => return []
  | (name, inferred?) :: rest => do
      let node ← NodeNumbering.freshInferred none inferred?
      let names ← numberImportNames rest
      return ⟨node, name, none⟩ :: names

def numberParams :
    List DraftParam → StateM NodeNumbering (List Param)
  | [] => return []
  | param :: rest => do
      let first ← param.number
      let params ← numberParams rest
      return first :: params

/- A plain member of a drafted interface. -/
def draftInterfaceMember (field : Text × Text) : InterfaceMember :=
  ⟨field.1, TypeText.ofText field.2, false, false, false, Span.nowhere⟩

/- The literal type of a string: its value between quotes. -/
def quotedType (value : Text) : Text :=
  "\"" ++ value ++ "\""

def boolType (value : Bool) : Text :=
  if value then "true" else "false"

open NodeNumbering in
mutual

/-
  Number an expression. A span given from outside replaces
  the expression's own.
-/
def DraftExpr.number (span? : Option Span) :
    DraftExpr → StateM NodeNumbering Expr
  | .ident name =>
      return .ident (← fresh span?) name
  | .literal text =>
      return .number (← freshTyped span? text) text
  | .bool value =>
      return .bool (← freshTyped span? (boolType value)) value
  | .string value =>
      return .string (← freshTyped span? (quotedType value)) value
  | .template quasis exprs => do
      let exprs ← numberExprs exprs
      return .template (← freshTyped span? "string") quasis exprs
  | .array elements => do
      let elements ← numberExprs elements
      return .array (← fresh span?) elements
  | .object members => do
      let members ← numberMembers members
      return .object (← fresh span?) members
  | .paren inner => do
      let inner ← inner.number none
      return .paren (← fresh span?) inner
  | .member object property => do
      let object ← object.number none
      return .member (← fresh span?) object property
  | .index object index => do
      let object ← object.number none
      let index ← index.number none
      return .index (← fresh span?) object index
  | .call callee typeArgs args => do
      let callee ← callee.number none
      let args ← numberExprs args
      return .call (← fresh span?) callee (typeArgs.map TypeText.ofText) args
  | .methodCall receiver method args => do
      let receiver ← receiver.number none
      let args ← numberExprs args
      let callee := Expr.member (← fresh none) receiver method
      return .call (← fresh span?) callee [] args
  | .conditional condition thenExpr elseExpr => do
      let condition ← condition.number none
      let thenExpr ← thenExpr.number none
      let elseExpr ← elseExpr.number none
      return .conditional (← fresh span?) condition thenExpr
        elseExpr
  | .assertion inner type => do
      let inner ← inner.number none
      return .assertion (← fresh span?) inner (TypeText.ofText type)
  | .unary op operand => do
      let operand ← operand.number none
      return .unary (← fresh span?) op operand
  | .step op operand => do
      let operand ← operand.number none
      return .step (← fresh span?) op operand
  | .binary op left right => do
      let left ← left.number none
      let right ← right.number none
      return .binary (← fresh span?) op left right
  | .typed inner type => do
      let inner ← inner.number span?
      record inner.id type
      return inner
  | .spanned span inner =>
      inner.number (span?.or (some span))
  | .null => return .null (← fresh span?)
  | .this => return .this (← fresh span?)
  | .new callee args => do
      let callee ← callee.number none
      let args ← numberExprs args
      return .new (← fresh span?) callee args
  | .arrow params body => do
      let params ← numberParams params
      let body ← numberStmts body
      return .arrow (← fresh span?) params body

def numberExprs :
    List DraftExpr → StateM NodeNumbering (List Expr)
  | [] => return []
  | expr :: rest => do
      let first ← expr.number none
      let exprs ← numberExprs rest
      return first :: exprs

def numberExpr? :
    Option DraftExpr → StateM NodeNumbering (Option Expr)
  | none => return none
  | some expr => return some (← expr.number none)

/- Number a member of an object, which takes no number itself. -/
def DraftMember.number :
    DraftMember → StateM NodeNumbering ObjectMember
  | .property name value =>
      return .property name (← value.number none)
  | .shorthand name => return .shorthand name
  | .spread value => return .spread (← value.number none)
  | .method name => return .method name

def numberMembers :
    List DraftMember → StateM NodeNumbering (List ObjectMember)
  | [] => return []
  | member :: rest => do
      let first ← member.number
      let members ← numberMembers rest
      return first :: members

/- Number a declarator after its initial value. -/
def DraftDeclarator.number :
    DraftDeclarator → StateM NodeNumbering Declarator
  | .mk name written? inferred? init? => do
      let init? ← numberExpr? init?
      let node ← freshInferred none inferred?
      return .mk node name (written?.map TypeText.ofText) init?

def numberDeclarators :
    List DraftDeclarator → StateM NodeNumbering (List Declarator)
  | [] => return []
  | declarator :: rest => do
      let first ← declarator.number
      let declarators ← numberDeclarators rest
      return first :: declarators

def DraftForInit.number :
    DraftForInit → StateM NodeNumbering ForInit
  | .vars kind declarators =>
      return .vars kind (← numberDeclarators declarators)
  | .expr value => return .expr (← value.number none)

def numberForInit? :
    Option DraftForInit → StateM NodeNumbering (Option ForInit)
  | none => return none
  | some init => return some (← init.number)

/-
  Number a statement. A span given from outside replaces the
  statement's own.
-/
def DraftStmt.number (span? : Option Span) :
    DraftStmt → StateM NodeNumbering Stmt
  | .function name params returnType? body? => do
      let params ← numberParams params
      let body? ← numberBody? body?
      return .function (← fresh span?) ⟨name, params, returnType?.map TypeText.ofText⟩ body?
  | .importNamed specifier names => do
      let names ← numberImportNames names
      return .importFrom (← fresh span?) specifier (.named names)
  | .importDefault specifier name =>
      return .importFrom (← fresh span?) specifier (.default name)
  | .importNamespace specifier name =>
      return .importFrom (← fresh span?) specifier (.namespaced name)
  | .importSideEffect specifier =>
      return .importFrom (← fresh span?) specifier .sideEffect
  | .interface name fields =>
      return .interface (← fresh span?) ⟨name, fields.map draftInterfaceMember⟩
  | .typeAlias name type =>
      return .typeAlias (← fresh span?) ⟨name, TypeText.ofText type⟩
  | .vars kind declarators => do
      let declarators ← numberDeclarators declarators
      return .vars (← fresh span?) kind declarators
  | .block body => do
      let body ← numberStmts body
      return .block (← fresh span?) body
  | .ifElse condition thenBranch elseBranch? => do
      let condition ← condition.number none
      let thenBranch ← thenBranch.number none
      let elseBranch? ← numberStmt? elseBranch?
      return .ifElse (← fresh span?) condition thenBranch
        elseBranch?
  | .whileLoop condition body => do
      let condition ← condition.number none
      let body ← body.number none
      return .whileLoop (← fresh span?) condition body
  | .doLoop body condition => do
      let body ← body.number none
      let condition ← condition.number none
      return .doLoop (← fresh span?) condition body
  | .forLoop init? condition? update? body => do
      let init? ← numberForInit? init?
      let condition? ← numberExpr? condition?
      let update? ← numberExpr? update?
      let body ← body.number none
      return .forLoop (← fresh span?) init? condition? update? body
  | .ret value? => do
      let value? ← numberExpr? value?
      return .ret (← fresh span?) value?
  | .expr value => do
      let value ← value.number none
      return .expr (← fresh span?) value
  | .breakLoop => return .breakLoop (← fresh span?)
  | .continueLoop => return .continueLoop (← fresh span?)
  | .empty => return .empty (← fresh span?)
  | .classDecl name => return .classDecl (← fresh span?) name
  | .enumDecl name => return .enumDecl (← fresh span?) name
  | .raise value => do
      let value ← value.number none
      return .raise (← fresh span?) value
  | .spanned span inner =>
      inner.number (span?.or (some span))

def numberStmts :
    List DraftStmt → StateM NodeNumbering (List Stmt)
  | [] => return []
  | stmt :: rest => do
      let first ← stmt.number none
      let stmts ← numberStmts rest
      return first :: stmts

def numberStmt? :
    Option DraftStmt → StateM NodeNumbering (Option Stmt)
  | none => return none
  | some stmt => return some (← stmt.number none)

def numberBody? :
    Option (List DraftStmt) → StateM NodeNumbering (Option (List Stmt))
  | none => return none
  | some body => return some (← numberStmts body)

end

-----
-- Drafted Programs
-----

structure DraftUnit where
  path : Text
  source : Text
  statements : List DraftStmt

/- A draft of a whole program, with the unit to start from. -/
structure DraftProgram where
  units : List DraftUnit
  links : List ModuleLink
  entry : UnitId

/- Number the units one after the other. -/
def numberUnits :
    List DraftUnit → StateM NodeNumbering (List SourceUnit)
  | [] => return []
  | unit :: rest => do
      let statements ← numberStmts unit.statements
      let units ← numberUnits rest
      return ⟨unit.path, unit.source, statements⟩ :: units

/- The program of a draft. -/
def DraftProgram.build (draft : DraftProgram) : Program :=
  let (units, numbering) :=
    (numberUnits draft.units).run NodeNumbering.start
  ⟨units, some draft.entry, numbering.types, draft.links⟩

end ScriptLowering
