import ScriptLowering.Lowering.TopLevel
import ScriptLowering.Proofs.SourceParts

/-
  The nodes of a script program, and the program without the
  places of its nodes. Two programs are the same up to spans
  if they are equal without places. What lowering looks at in
  an expression, other than its span, is the same without
  places.

  Key theorems include:
    * `radixOf_unplaced`
    * `floatLiteral?_unplaced`
-/

namespace ScriptLowering

-----
-- Nodes
-----

/- The nodes of a part that are not those of a part inside. -/
def Part.nodes : Part → List Node
  | .expr (.arrow node params _) =>
      node :: params.map Param.node
  | .expr value => [value.node]
  | .member _ => []
  | .declarator entry => [entry.node]
  | .stmt (.function node head _) =>
      node :: head.params.map Param.node
  | .stmt (.importFrom node _ (.named names)) =>
      node :: names.map ImportName.node
  | .stmt other => [other.node]

/- Members of an object that have neither a node nor a value. -/
def Part.isPlaceless : Part → Bool
  | .member (.shorthand _) => true
  | .member (.method _) => true
  | _ => false

/- All nodes of the statements of a unit, at any depth. -/
def SourceUnit.nodes (unit : SourceUnit) : List Node :=
  (stmtsParts unit.statements).flatMap Part.nodes

/- Every expression has a node of its own. -/
theorem Expr.node_mem_nodes (expr : Expr) :
    expr.node ∈ (Part.expr expr).nodes := by
  cases expr <;> exact List.mem_cons_self

theorem Stmt.node_mem_nodes (stmt : Stmt) :
    stmt.node ∈ (Part.stmt stmt).nodes := by
  cases stmt with
  | importFrom _ _ clause => cases clause <;> exact List.mem_cons_self
  | _ => exact List.mem_cons_self

-----
-- Without Places
-----

/- The same node, nowhere in its file. -/
def Node.unplaced (node : Node) : Node :=
  { node with span := Span.nowhere }

/- The same written type, nowhere in its file. -/
def TypeText.unplaced (type : TypeText) : TypeText :=
  { type with span := Span.nowhere }

/- A parameter has two spans, one of them with its type. -/
def Param.unplaced (param : Param) : Param :=
  { param with
    node := param.node.unplaced
    type? := param.type?.map TypeText.unplaced }

/- The spans of a head are in its parameters and return type. -/
def FunctionHead.unplaced (head : FunctionHead) : FunctionHead :=
  { head with
    params := head.params.map Param.unplaced
    returnType? := head.returnType?.map TypeText.unplaced }

def ImportName.unplaced (name : ImportName) : ImportName :=
  { name with node := name.node.unplaced }

/- Only a list of imported names has nodes. -/
def ImportClause.unplaced : ImportClause → ImportClause
  | .named names => .named (names.map ImportName.unplaced)
  | .default name => .default name
  | .namespaced name => .namespaced name
  | .sideEffect => .sideEffect

/- A member keeps its name and flags. -/
def InterfaceMember.unplaced (member : InterfaceMember) : InterfaceMember :=
  { member with
    type := member.type.unplaced
    span := Span.nowhere }

/- An interface keeps its members in order. -/
def Interface.unplaced (decl : Interface) : Interface :=
  { decl with members := decl.members.map InterfaceMember.unplaced }

def TypeAlias.unplaced (decl : TypeAlias) : TypeAlias :=
  { decl with type := decl.type.unplaced }

mutual

/- The expression with all spans nowhere. -/
def Expr.unplaced : Expr → Expr
  | .ident node name => .ident node.unplaced name
  | .number node text => .number node.unplaced text
  | .bool node value => .bool node.unplaced value
  | .string node value => .string node.unplaced value
  | .template node quasis exprs =>
      .template node.unplaced quasis (exprsUnplaced exprs)
  | .array node elements =>
      .array node.unplaced (exprsUnplaced elements)
  | .object node members =>
      .object node.unplaced (membersUnplaced members)
  | .paren node inner => .paren node.unplaced inner.unplaced
  | .member node object property =>
      .member node.unplaced object.unplaced property
  | .index node object index =>
      .index node.unplaced object.unplaced index.unplaced
  | .call node callee typeArgs args =>
      .call node.unplaced callee.unplaced (typeArgs.map TypeText.unplaced) (exprsUnplaced args)
  | .conditional node condition thenExpr elseExpr =>
      .conditional node.unplaced condition.unplaced
        thenExpr.unplaced elseExpr.unplaced
  | .assertion node inner type =>
      .assertion node.unplaced inner.unplaced type.unplaced
  | .unary node op operand =>
      .unary node.unplaced op operand.unplaced
  | .step node op operand =>
      .step node.unplaced op operand.unplaced
  | .binary node op left right =>
      .binary node.unplaced op left.unplaced right.unplaced
  | .null node => .null node.unplaced
  | .this node => .this node.unplaced
  | .new node callee args =>
      .new node.unplaced callee.unplaced (exprsUnplaced args)
  | .arrow node params body =>
      .arrow node.unplaced (params.map Param.unplaced) (stmtsUnplaced body)

def exprsUnplaced : List Expr → List Expr
  | [] => []
  | expr :: rest => expr.unplaced :: exprsUnplaced rest

def exprUnplaced? : Option Expr → Option Expr
  | none => none
  | some expr => some expr.unplaced

/- A member is as unplaced as its value. -/
def ObjectMember.unplaced : ObjectMember → ObjectMember
  | .property name value => .property name value.unplaced
  | .shorthand name => .shorthand name
  | .spread value => .spread value.unplaced
  | .method name => .method name

def membersUnplaced : List ObjectMember → List ObjectMember
  | [] => []
  | member :: rest => member.unplaced :: membersUnplaced rest

/-
  The node, the type and the initial value lose their
  places.
-/
def Declarator.unplaced : Declarator → Declarator
  | .mk node name type? init? =>
      .mk node.unplaced name (type?.map TypeText.unplaced) (exprUnplaced? init?)

def declaratorsUnplaced : List Declarator → List Declarator
  | [] => []
  | declarator :: rest =>
      declarator.unplaced :: declaratorsUnplaced rest

/- The head of a loop, like what it declares or evaluates. -/
def ForInit.unplaced : ForInit → ForInit
  | .vars kind declarators =>
      .vars kind (declaratorsUnplaced declarators)
  | .expr value => .expr value.unplaced

def forInitUnplaced? : Option ForInit → Option ForInit
  | none => none
  | some init => some init.unplaced

/- The statement with all spans nowhere. -/
def Stmt.unplaced : Stmt → Stmt
  | .function node head body? =>
      .function node.unplaced head.unplaced (bodyUnplaced? body?)
  | .importFrom node specifier clause =>
      .importFrom node.unplaced specifier clause.unplaced
  | .interface node decl => .interface node.unplaced decl.unplaced
  | .typeAlias node decl => .typeAlias node.unplaced decl.unplaced
  | .vars node kind declarators =>
      .vars node.unplaced kind (declaratorsUnplaced declarators)
  | .block node body => .block node.unplaced (stmtsUnplaced body)
  | .ifElse node condition thenBranch elseBranch? =>
      .ifElse node.unplaced condition.unplaced thenBranch.unplaced (stmtUnplaced? elseBranch?)
  | .whileLoop node condition body =>
      .whileLoop node.unplaced condition.unplaced body.unplaced
  | .doLoop node condition body =>
      .doLoop node.unplaced condition.unplaced body.unplaced
  | .forLoop node init? condition? update? body =>
      .forLoop node.unplaced (forInitUnplaced? init?)
        (exprUnplaced? condition?) (exprUnplaced? update?)
        body.unplaced
  | .ret node value? => .ret node.unplaced (exprUnplaced? value?)
  | .expr node value => .expr node.unplaced value.unplaced
  | .breakLoop node => .breakLoop node.unplaced
  | .continueLoop node => .continueLoop node.unplaced
  | .empty node => .empty node.unplaced
  | .classDecl node name => .classDecl node.unplaced name
  | .enumDecl node name => .enumDecl node.unplaced name
  | .raise node value => .raise node.unplaced value.unplaced

def stmtsUnplaced : List Stmt → List Stmt
  | [] => []
  | stmt :: rest => stmt.unplaced :: stmtsUnplaced rest

def stmtUnplaced? : Option Stmt → Option Stmt
  | none => none
  | some stmt => some stmt.unplaced

/- A function without a body still has none. -/
def bodyUnplaced? : Option (List Stmt) → Option (List Stmt)
  | none => none
  | some body => some (stmtsUnplaced body)

end

-----
-- What Lowering Looks At
-----

section Expressions

variable (expr : Expr)

/- Types are found by node, so that these are left alone. -/
@[simp] theorem Node.id_unplaced (node : Node) :
    node.unplaced.id = node.id :=
  rfl

/- Pointers are constructed by calling a known name. -/
@[simp] theorem Expr.isPointerCallee_unplaced :
    expr.unplaced.isPointerCallee = expr.isPointerCallee := by
  cases expr <;> rfl

/- Operands are wrapped by their shape. -/
@[simp] theorem Expr.isCompound_unplaced :
    expr.unplaced.isCompound = expr.isCompound := by
  cases expr <;> rfl

@[simp] theorem Expr.isUnary_unplaced :
    expr.unplaced.isUnary = expr.isUnary := by
  cases expr <;> rfl

/- Parentheses are around the same expression in both. -/
theorem Expr.unparenthesized_unplaced :
    expr.unplaced.unparenthesized = expr.unparenthesized.unplaced := by
  fun_induction Expr.unparenthesized expr with
  | case1 _ _ ih => exact ih
  | case2 expr hOther =>
    cases expr with
    | paren node inner => exact absurd rfl (hOther node inner)
    | _ => rfl

/- A literal is a float for the same types. -/
theorem floatLiteral?_unplaced (type : TypeName) :
    floatLiteral? type expr.unplaced = floatLiteral? type expr := by
  unfold floatLiteral?
  rw [expr.unparenthesized_unplaced]
  cases expr.unparenthesized with
  | number => cases type.numericKind? <;> rfl
  | _ => rfl

/- An assignment looks at the name it assigns to. -/
theorem assignedContext_unplaced (op : BinaryOp) (scope : ScopeChain) :
    assignedContext op expr.unplaced scope = assignedContext op expr scope := by
  cases op <;> cases expr <;> rfl

/- A call has as many arguments as before. -/
theorem length_exprsUnplaced (exprs : List Expr) :
    (exprsUnplaced exprs).length = exprs.length := by
  induction exprs with
  | nil => rfl
  | cons _ rest ih =>
    show (exprsUnplaced rest).length + 1 = rest.length + 1
    rw [ih]

/- A radix is read off the first argument. -/
theorem radixOf_unplaced (args : List Expr) :
    radixOf (exprsUnplaced args) = radixOf args := by
  cases args with
  | nil => rfl
  | cons arg rest =>
    show radixOf (arg.unplaced :: exprsUnplaced rest) = _
    unfold radixOf
    simp only [arg.unparenthesized_unplaced]
    cases arg.unparenthesized <;> rfl

end Expressions

end ScriptLowering
