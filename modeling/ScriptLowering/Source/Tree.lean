import ScriptLowering.Source.Position
import ScriptLowering.Text.Blank
import ScriptLowering.Vocabulary.Operator

/-
  The typed script program as a tree. Every expression and
  statement carries a node number and a span; what the type
  checker found out about a node is kept beside the tree, by
  node number.

  Key definitions include:
    * `NodeId`
    * `Node`
    * `TypeText`
    * `Expr`
-/

namespace ScriptLowering

-----
-- Nodes
-----

/- The number of a node, unique within a program. -/
abbrev NodeId :=
  UInt32

/- What every node has: its number and its place. -/
structure Node where
  id : NodeId
  span : Span
deriving DecidableEq, Repr

/- A type as the source spells it. -/
structure TypeText where
  text : Text
  span : Span
deriving DecidableEq, Repr

/- The spelling `const`, which asserts no type. -/
def TypeText.isConst (type : TypeText) : Bool :=
  type.text.trim == "const"

-----
-- Declarations
-----

/- A parameter of a function. -/
structure Param where
  node : Node
  name : Text
  type? : Option TypeText
deriving DecidableEq, Repr

/- What a function declares before its body. -/
structure FunctionHead where
  name : Text
  params : List Param
  returnType? : Option TypeText
deriving DecidableEq, Repr

/- One name of a named import. -/
structure ImportName where
  node : Node
  name : Text
  alias? : Option Text
deriving DecidableEq, Repr

/- The names that an import brings in. -/
inductive ImportClause where
  | named (names : List ImportName)
  | default (name : Text)
  | namespaced (name : Text)
  | sideEffect
deriving DecidableEq, Repr

/- One member of an interface. -/
structure InterfaceMember where
  name : Text
  type : TypeText
  optional : Bool
  readonly : Bool
  method : Bool
  span : Span
deriving DecidableEq, Repr

structure Interface where
  name : Text
  members : List InterfaceMember
deriving DecidableEq, Repr

structure TypeAlias where
  name : Text
  type : TypeText
deriving DecidableEq, Repr

/- The keyword of a variable declaration. -/
inductive VarKind where
  | letKind
  | constKind
  | varKind
deriving DecidableEq, Repr

-----
-- Expressions And Statements
-----

mutual

inductive Expr where
  | ident (node : Node) (name : Text)
  | number (node : Node) (text : Text)
  | bool (node : Node) (value : Bool)
  | string (node : Node) (value : Text)
  | template (node : Node) (quasis : List Text)
      (exprs : List Expr)
  | array (node : Node) (elements : List Expr)
  | object (node : Node) (members : List ObjectMember)
  | paren (node : Node) (inner : Expr)
  | member (node : Node) (object : Expr) (property : Text)
  | index (node : Node) (object : Expr) (index : Expr)
  | call (node : Node) (callee : Expr)
      (typeArgs : List TypeText) (args : List Expr)
  | conditional (node : Node) (condition : Expr)
      (thenExpr : Expr) (elseExpr : Expr)
  | assertion (node : Node) (inner : Expr) (type : TypeText)
  | unary (node : Node) (op : UnaryOp) (operand : Expr)
  | step (node : Node) (op : StepOp) (operand : Expr)
  | binary (node : Node) (op : BinaryOp) (left : Expr)
      (right : Expr)
  | null (node : Node)
  | this (node : Node)
  | new (node : Node) (callee : Expr) (args : List Expr)
  | arrow (node : Node) (params : List Param)
      (body : List Stmt)

inductive ObjectMember where
  | property (name : Text) (value : Expr)
  | shorthand (name : Text)
  | spread (value : Expr)
  | method (name : Text)

/- One name of a variable declaration. -/
inductive Declarator where
  | mk (node : Node) (name : Text) (type? : Option TypeText)
      (init? : Option Expr)

/- The first part of the header of a `for` loop. -/
inductive ForInit where
  | vars (kind : VarKind) (declarators : List Declarator)
  | expr (value : Expr)

inductive Stmt where
  | function (node : Node) (head : FunctionHead)
      (body? : Option (List Stmt))
  | importFrom (node : Node) (specifier : Text)
      (clause : ImportClause)
  | interface (node : Node) (decl : Interface)
  | typeAlias (node : Node) (decl : TypeAlias)
  | vars (node : Node) (kind : VarKind)
      (declarators : List Declarator)
  | block (node : Node) (body : List Stmt)
  | ifElse (node : Node) (condition : Expr)
      (thenBranch : Stmt) (elseBranch? : Option Stmt)
  | whileLoop (node : Node) (condition : Expr) (body : Stmt)
  | doLoop (node : Node) (condition : Expr) (body : Stmt)
  | forLoop (node : Node) (init? : Option ForInit)
      (condition? : Option Expr) (update? : Option Expr)
      (body : Stmt)
  | ret (node : Node) (value? : Option Expr)
  | expr (node : Node) (value : Expr)
  | breakLoop (node : Node)
  | continueLoop (node : Node)
  | empty (node : Node)
  | classDecl (node : Node) (name : Text)
  | enumDecl (node : Node) (name : Text)
  | raise (node : Node) (value : Expr)

end

-----
-- Parts Of Expressions
-----

namespace Expr

def node : Expr → Node
  | ident node .. => node
  | number node .. => node
  | bool node .. => node
  | string node .. => node
  | template node .. => node
  | array node .. => node
  | object node .. => node
  | paren node .. => node
  | member node .. => node
  | index node .. => node
  | call node .. => node
  | conditional node .. => node
  | assertion node .. => node
  | unary node .. => node
  | step node .. => node
  | binary node .. => node
  | null node => node
  | this node => node
  | new node .. => node
  | arrow node .. => node

def id (expr : Expr) : NodeId :=
  expr.node.id

def span (expr : Expr) : Span :=
  expr.node.span

/- The name of an expression's kind in messages. -/
def kindName : Expr → Text
  | ident .. => "Identifier"
  | number .. => "NumericLiteral"
  | bool .. => "BooleanLiteral"
  | string .. => "StringLiteral"
  | template .. => "TemplateExpression"
  | array .. => "ArrayLiteralExpression"
  | object .. => "ObjectLiteralExpression"
  | paren .. => "ParenthesizedExpression"
  | member .. => "PropertyAccessExpression"
  | index .. => "ElementAccessExpression"
  | call .. => "CallExpression"
  | conditional .. => "ConditionalExpression"
  | assertion .. => "AsExpression"
  | unary .. => "PrefixUnaryExpression"
  | step .. => "PostfixUnaryExpression"
  | binary .. => "BinaryExpression"
  | null .. => "NullKeyword"
  | this .. => "ThisKeyword"
  | new .. => "NewExpression"
  | arrow .. => "ArrowFunction"

/- The expression inside all parentheses around it. -/
def unparenthesized : Expr → Expr
  | paren _ inner => inner.unparenthesized
  | expr => expr

end Expr

namespace Declarator

def node : Declarator → Node
  | mk node .. => node

def name : Declarator → Text
  | mk _ name .. => name

def type? : Declarator → Option TypeText
  | mk _ _ type? _ => type?

def init? : Declarator → Option Expr
  | mk _ _ _ init? => init?

end Declarator

-----
-- Parts Of Statements
-----

namespace Stmt

def node : Stmt → Node
  | function node .. => node
  | importFrom node .. => node
  | interface node .. => node
  | typeAlias node .. => node
  | vars node .. => node
  | block node .. => node
  | ifElse node .. => node
  | whileLoop node .. => node
  | doLoop node .. => node
  | forLoop node .. => node
  | ret node .. => node
  | expr node .. => node
  | breakLoop node => node
  | continueLoop node => node
  | empty node => node
  | classDecl node .. => node
  | enumDecl node .. => node
  | raise node .. => node

def span (stmt : Stmt) : Span :=
  stmt.node.span

/- The name of a statement's kind in messages. -/
def kindName : Stmt → Text
  | function .. => "FunctionDeclaration"
  | importFrom .. => "ImportDeclaration"
  | interface .. => "InterfaceDeclaration"
  | typeAlias .. => "TypeAliasDeclaration"
  | vars .. => "VariableStatement"
  | block .. => "Block"
  | ifElse .. => "IfStatement"
  | whileLoop .. => "WhileStatement"
  | doLoop .. => "DoStatement"
  | forLoop .. => "ForStatement"
  | ret .. => "ReturnStatement"
  | expr .. => "ExpressionStatement"
  | breakLoop .. => "BreakStatement"
  | continueLoop .. => "ContinueStatement"
  | empty .. => "EmptyStatement"
  | classDecl .. => "ClassDeclaration"
  | enumDecl .. => "EnumDeclaration"
  | raise .. => "ThrowStatement"

end Stmt

end ScriptLowering
