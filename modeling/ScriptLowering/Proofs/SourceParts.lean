import ScriptLowering.Source.Program

/-
  The parts of a script program at any depth: expressions,
  members of objects, declared names and statements. What
  holds of a program as written is told of its parts.

  Key definitions include:
    * `Part`
    * `Expr.parts`
    * `Stmt.parts`
-/

namespace ScriptLowering

-----
-- Parts
-----

inductive Part where
  | expr (expr : Expr)
  | member (member : ObjectMember)
  | declarator (declarator : Declarator)
  | stmt (stmt : Stmt)

mutual

/- The parts inside an expression, at any depth. -/
def Expr.inner : Expr → List Part
  | .ident _ _ => []
  | .number _ _ => []
  | .bool _ _ => []
  | .string _ _ => []
  | .template _ _ exprs => exprsParts exprs
  | .array _ elements => exprsParts elements
  | .object _ members => membersParts members
  | .paren _ inner => .expr inner :: inner.inner
  | .member _ object _ => .expr object :: object.inner
  | .index _ object index =>
      .expr object :: object.inner ++ .expr index :: index.inner
  | .call _ callee _ args =>
      .expr callee :: callee.inner ++ exprsParts args
  | .conditional _ condition thenExpr elseExpr =>
      .expr condition :: condition.inner ++ .expr thenExpr :: thenExpr.inner ++
        .expr elseExpr :: elseExpr.inner
  | .assertion _ inner _ => .expr inner :: inner.inner
  | .unary _ _ operand => .expr operand :: operand.inner
  | .step _ _ operand => .expr operand :: operand.inner
  | .binary _ _ left right =>
      .expr left :: left.inner ++ .expr right :: right.inner
  | .null _ => []
  | .this _ => []
  | .new _ callee args =>
      .expr callee :: callee.inner ++ exprsParts args
  | .arrow _ _ body => stmtsParts body

def exprsParts : List Expr → List Part
  | [] => []
  | expr :: rest => .expr expr :: expr.inner ++ exprsParts rest

def exprParts? : Option Expr → List Part
  | none => []
  | some expr => .expr expr :: expr.inner

def ObjectMember.inner : ObjectMember → List Part
  | .property _ value => .expr value :: value.inner
  | .shorthand _ => []
  | .spread value => .expr value :: value.inner
  | .method _ => []

def membersParts : List ObjectMember → List Part
  | [] => []
  | member :: rest =>
      .member member :: member.inner ++ membersParts rest

def Declarator.inner : Declarator → List Part
  | .mk _ _ _ init? => exprParts? init?

def declaratorsParts : List Declarator → List Part
  | [] => []
  | declarator :: rest =>
      .declarator declarator :: declarator.inner ++ declaratorsParts rest

def ForInit.parts : ForInit → List Part
  | .vars _ declarators => declaratorsParts declarators
  | .expr value => .expr value :: value.inner

def forInitParts? : Option ForInit → List Part
  | none => []
  | some init => init.parts

/- The parts inside a statement, at any depth. -/
def Stmt.inner : Stmt → List Part
  | .function _ _ body? => bodyParts? body?
  | .importFrom _ _ _ => []
  | .interface _ _ => []
  | .typeAlias _ _ => []
  | .vars _ _ declarators => declaratorsParts declarators
  | .block _ body => stmtsParts body
  | .ifElse _ condition thenBranch elseBranch? =>
      .expr condition :: condition.inner ++ .stmt thenBranch :: thenBranch.inner ++
        stmtParts? elseBranch?
  | .whileLoop _ condition body =>
      .expr condition :: condition.inner ++ .stmt body :: body.inner
  | .doLoop _ condition body =>
      .expr condition :: condition.inner ++ .stmt body :: body.inner
  | .forLoop _ init? condition? update? body =>
      forInitParts? init? ++ exprParts? condition? ++ exprParts? update? ++ .stmt body :: body.inner
  | .ret _ value? => exprParts? value?
  | .expr _ value => .expr value :: value.inner
  | .breakLoop _ => []
  | .continueLoop _ => []
  | .empty _ => []
  | .classDecl _ _ => []
  | .enumDecl _ _ => []
  | .raise _ value => .expr value :: value.inner

def stmtsParts : List Stmt → List Part
  | [] => []
  | stmt :: rest => .stmt stmt :: stmt.inner ++ stmtsParts rest

def stmtParts? : Option Stmt → List Part
  | none => []
  | some stmt => .stmt stmt :: stmt.inner

def bodyParts? : Option (List Stmt) → List Part
  | none => []
  | some body => stmtsParts body

end

/- An expression and all that is inside. -/
def Expr.parts (expr : Expr) : List Part :=
  .expr expr :: expr.inner

def Stmt.parts (stmt : Stmt) : List Part :=
  .stmt stmt :: stmt.inner

/- All parts of the units of a program. -/
def Program.parts (program : Program) : List Part :=
  program.units.flatMap fun unit => stmtsParts unit.statements

-----
-- Facts About All Parts
-----

/- A fact that holds of all parts. -/
def EveryPart (fact : Part → Prop) (parts : List Part) : Prop :=
  ∀ part ∈ parts, fact part

section EveryPart

variable {fact : Part → Prop} {part : Part}
variable {front back rest : List Part}

@[simp] theorem EveryPart.nil :
    EveryPart fact [] :=
  List.forall_mem_nil fact

@[simp] theorem everyPart_cons :
    EveryPart fact (part :: rest) ↔ fact part ∧ EveryPart fact rest :=
  List.forall_mem_cons

@[simp] theorem everyPart_append :
    EveryPart fact (front ++ back) ↔ EveryPart fact front ∧ EveryPart fact back :=
  List.forall_mem_append

theorem EveryPart.cons (hPart : fact part) (hRest : EveryPart fact rest) :
    EveryPart fact (part :: rest) :=
  everyPart_cons.mpr ⟨hPart, hRest⟩

theorem EveryPart.head (h : EveryPart fact (part :: rest)) :
    fact part :=
  (everyPart_cons.mp h).1

theorem EveryPart.tail (h : EveryPart fact (part :: rest)) :
    EveryPart fact rest :=
  (everyPart_cons.mp h).2

theorem EveryPart.append (hFront : EveryPart fact front) (hBack : EveryPart fact back) :
    EveryPart fact (front ++ back) :=
  everyPart_append.mpr ⟨hFront, hBack⟩

theorem EveryPart.of_append (h : EveryPart fact (front ++ back)) :
    EveryPart fact front ∧ EveryPart fact back :=
  everyPart_append.mp h

@[simp] theorem everyPart_expr_parts {expr : Expr} :
    EveryPart fact expr.parts ↔ fact (.expr expr) ∧ EveryPart fact expr.inner :=
  everyPart_cons

@[simp] theorem everyPart_stmt_parts {stmt : Stmt} :
    EveryPart fact stmt.parts ↔ fact (.stmt stmt) ∧ EveryPart fact stmt.inner :=
  everyPart_cons

theorem everyPart_of_mem_stmts
    {stmts : List Stmt} (h : EveryPart fact (stmtsParts stmts)) {stmt : Stmt}
    (hStmt : stmt ∈ stmts) :
    EveryPart fact stmt.parts := by
  induction stmts with
  | nil => cases hStmt
  | cons _ _ ih =>
    simp only [stmtsParts, everyPart_append] at h
    rcases List.mem_cons.mp hStmt with rfl | hRest
    · exact h.1
    · exact ih h.2 hRest

/- What is inside parentheses is a part as well. -/
theorem everyPart_unparenthesized {expr : Expr} (h : EveryPart fact expr.parts) :
    fact (.expr expr.unparenthesized) := by
  fun_induction Expr.unparenthesized expr with
  | case1 _ _ ih => exact ih h.tail
  | case2 => exact h.head

end EveryPart

end ScriptLowering
