import ScriptLowering.Lowering.Statement
import ScriptLowering.Target.Printer

/-
  Emission in one pass. The emitter writes the C++ text of a
  statement onto the page while it lowers the statement, so
  types and scopes, the page, the stack of units and the
  return type of the function are one state. Frames and
  indentation are entered and left in pairs.

  Key definitions include:
    * `Emitter`
    * `EmitM`
    * `EmitM.inFrame`
-/

namespace ScriptLowering

open ValueContext

-----
-- Emitters
-----

/- A unit that is being walked. -/
structure UnitFrame where
  id : UnitId
  unit : SourceUnit
  origin? : Option Text

/- A function that was met, and whether its body is written. -/
structure FunctionRecord where
  signature : Target.Signature
  bodyEmitted : Bool

/-
  Where emission stands: the units that are walked, the
  latest first, the return type of the function that is
  emitted, the functions met, and the units taken in so far.
-/
structure EmitPlace where
  units : List UnitFrame
  returnType? : Option TypeName
  functions : List FunctionRecord
  included : List UnitId

/- The state of emission. -/
structure Emitter extends EmitPlace where
  lowering : LowerState
  page : Page

/- The site of the unit on top; no unit has neither path nor text. -/
def topSite (front : Program) : List UnitFrame → Site
  | [] => ⟨front, 0, ⟨[], [], []⟩, none⟩
  | frame :: _ => ⟨front, frame.id, frame.unit, frame.origin?⟩

/- A computation on the emitter, which is kept on failure. -/
abbrev EmitM :=
  EStateM CompileError Emitter

namespace EmitM

variable {α : Type}

/- A computation on types and scopes, at the unit on top. -/
def lowered (front : Program) (action : Site → LowerM α) : EmitM α :=
  fun emitter =>
    match action (topSite front emitter.units) emitter.lowering with
    | .ok value state => .ok value { emitter with lowering := state }
    | .error error state =>
        .error error { emitter with lowering := state }

def onPage (change : Page → Page) : EmitM Unit :=
  fun emitter => .ok () { emitter with page := change emitter.page }

def write (text : Text) : EmitM Unit :=
  onPage (Page.write text)

def endLine : EmitM Unit :=
  onPage Page.endLine

/- The return type of the function that is emitted. -/
def returnType? : EmitM (Option TypeName) :=
  fun emitter => .ok emitter.returnType? emitter

/- Run inside a new frame, which is left in any case. -/
def inFrame (action : EmitM α) : EmitM α :=
  fun emitter =>
    let entered :=
      { emitter with lowering := LowerM.pushFrame emitter.lowering }
    match action entered with
    | .ok value last =>
        .ok value { last with lowering := LowerM.popFrame last.lowering }
    | .error error last =>
        .error error { last with lowering := LowerM.popFrame last.lowering }

/- Run one level deeper; the level is left in any case. -/
def indented (action : EmitM α) : EmitM α :=
  fun emitter =>
    match action { emitter with page := emitter.page.indent } with
    | .ok value last =>
        .ok value { last with page := last.page.dedent }
    | .error error last =>
        .error error { last with page := last.page.dedent }

/- An opening brace, the body one level deeper, and the end. -/
def braced (body : EmitM Unit) : EmitM Unit := do
  write "\x7b"
  endLine
  indented body
  write "\x7d"

/- Put what is written in parentheses if need be. -/
def wrapped (wrap : Bool) (action : EmitM Unit) : EmitM Unit :=
  if wrap then do
    write "("
    action
    write ")"
  else
    action

/- A number as a text, with what is written for the radix. -/
def numberText (number radix : EmitM Unit) : EmitM Unit := do
  write (Native.numberToString ++ "(")
  number
  radix
  write ")"

/- A call without a meaning of its own. -/
def ordinaryCall
    (front : Program) (span : Span) (typeArgs : List TypeText)
    (callee args : EmitM Unit) : EmitM Unit := do
  callee
  let types ←
    lowered front fun site =>
      LowerM.writtenTypes site span typeArgs
  write (Target.typeArgsText types)
  write "("
  args
  write ")"

end EmitM

-----
-- Expressions
-----

/- What is written before and behind an object of a property. -/
def memberAffixes (context : ValueContext) (type : TypeName) (property : Text) : Text × Text :=
  if type.isPointer then
    if property = Native.addressOf then
      ("(void*)", [])
    else if property = Native.dereference then
      ("(*", ")")
    else
      ([], "->" ++ property)
  else if !context.called &&
      Native.hasAccessorProperties type.text then
    ([], "." ++ property ++ "()")
  else
    ([], "." ++ property)

open EmitM LowerM in
mutual

def emitExpr (front : Program) (context : ValueContext) : Expr → EmitM Unit
  | .ident node name => do
      let emitted ←
        lowered front fun site => qualified site node.span name
      write emitted
  | .number _ text => write (Literal.number text)
  | .bool _ value => write (if value then "true" else "false")
  | .string _ value => write (Literal.string value)
  | .template _ quasis exprs => do
      write (Native.stringFormat ++ "(\"")
      write (Literal.formatText quasis exprs.length ++ "\"")
      emitExprs front ValueContext.plain ", " exprs
      write ")"
  | .array node elements => do
      let type ←
        lowered front fun site =>
          arrayType site context (.array node elements)
      match type.arrayElement? with
      | none =>
          lowered front fun site =>
            fail site node.span (.arrayLiteral type)
      | some element => do
          lowered front fun _ => markUsed type
          write type.render
          if elements.isEmpty then
            write "(\x7b\x7d, 0)"
          else do
            write "(\x7b "
            emitExprs front (expecting element) [] elements
            write (" \x7d, " ++ Text.ofNat elements.length ++ ")")
  | .object _ members =>
      if members.isEmpty then
        write "\x7b\x7d"
      else do
        write "\x7b "
        emitMembers front [] members
        write " \x7d"
  | .paren _ inner => do
      write "("
      emitExpr front context.value inner
      write ")"
  | .member _ object property => do
      let type ←
        lowered front fun site => exprType site object.span object
      write (memberAffixes context type property).1
      emitExpr front plain object
      write (memberAffixes context type property).2
  | .index _ object index => do
      emitExpr front plain object
      write "["
      emitExpr front plain index
      write "]"
  | .call node callee typeArgs args => do
      let kind ←
        lowered front fun site =>
          kindOfCall site node.span callee args
      match kind, emitReceiver? front callee,
          emitFirst? front args with
      | .pointer, _, some operand => do
          let type ←
            lowered front fun site =>
              exprType site node.span (.call node callee typeArgs args)
          lowered front fun _ => markUsed type
          write ("(" ++ type.render ++ ")&")
          operand
      | .numberToString .dynamic, some receiver, some radix =>
          numberText receiver do
            write ", "
            radix
      | .numberToString (.literal value), some receiver, _ =>
          numberText receiver (write (", " ++ Text.ofNat value))
      | .numberToString .default, some receiver, _ =>
          numberText receiver (return ())
      | _, _, _ =>
          ordinaryCall front node.span typeArgs (emitExpr front ValueContext.callee callee)
            (emitExprs front plain [] args)
  | .conditional _ condition thenExpr elseExpr => do
      emitExpr front plain condition
      write " ? "
      emitExpr front context.value thenExpr
      write " : "
      emitExpr front context.value elseExpr
  | .assertion node inner written =>
      if written.isConst then
        emitExpr front context inner
      else do
        let type ←
          lowered front fun site =>
            writtenType site node.span written
        match floatLiteral? type inner with
        | some literal => write literal
        | none => do
            write ("(" ++ type.render ++ ")")
            wrapped inner.isCompound (emitExpr front plain inner)
  | .unary node op operand =>
      match op.target? with
      | none =>
          lowered front fun site =>
            fail site node.span (.unaryOperator op.spelling)
      | some target => do
          write target
          wrapped operand.isUnary (emitExpr front plain operand)
  | .step _ op operand => do
      emitExpr front plain operand
      write op.spelling
  | .binary node op left right =>
      match op.target? with
      | none =>
          lowered front fun site =>
            fail site node.span (.binaryOperator op.spelling)
      | some target => do
          emitExpr front plain left
          write (" " ++ target ++ " ")
          let state ← lowered front fun _ => get
          emitExpr front (assignedContext op left state.scope) right
          lowered front fun site => markAssigned site op left
  | expr =>
      lowered front fun site =>
        fail site expr.span (.expression expr.kindName)

/- How the object of a property is emitted. -/
def emitReceiver? (front : Program) : Expr → Option (EmitM Unit)
  | .member _ object _ =>
      some (emitExpr front plain object)
  | _ => none

/- How the first of some arguments is emitted. -/
def emitFirst? (front : Program) : List Expr → Option (EmitM Unit)
  | [] => none
  | expr :: _ => some (emitExpr front plain expr)

/- A separator and an expression; commas before all others. -/
def emitExprs (front : Program) (context : ValueContext) (separator : Text) : List Expr → EmitM Unit
  | [] => return ()
  | expr :: rest => do
      write separator
      emitExpr front context expr
      emitExprs front context ", " rest

def emitMembers (front : Program) (separator : Text) : List ObjectMember → EmitM Unit
  | [] => return ()
  | .property name value :: rest => do
      write separator
      write ("." ++ name ++ " = ")
      emitExpr front plain value
      emitMembers front ", " rest
  | .shorthand name :: rest => do
      write separator
      let emitted ←
        lowered front fun site => qualified site Span.nowhere name
      write ("." ++ name ++ " = " ++ emitted)
      emitMembers front ", " rest
  | .spread value :: _ => do
      write separator
      lowered front fun site => fail site value.span .objectSpread
  | .method name :: _ => do
      write separator
      lowered front fun site =>
        fail site Span.nowhere (.objectMethod name)

end

-----
-- Declarators
-----

open EmitM LowerM

/- A bound name, with its initial value. -/
def emitDeclarator (front : Program) (type : TypeName) (declarator : Declarator) : EmitM Unit := do
  let name ←
    lowered front fun site =>
      qualified site declarator.node.span declarator.name
  write name
  match declarator.init? with
  | none => return ()
  | some init => do
      write " = "
      emitExpr front (expecting type) init
      lowered front fun site =>
        markInitialized site declarator.node.span declarator.name

/- One C++ declaration for each declared name. -/
def emitVars (front : Program) : List Declarator → EmitM Unit
  | [] => return ()
  | declarator :: rest => do
      let type ←
        lowered front fun site => bindDeclarator site declarator
      write type.render
      write " "
      emitDeclarator front type declarator
      write ";"
      endLine
      emitVars front rest

/- The further names of a loop header have the first one's type. -/
def emitSameType (front : Program) (first : TypeName) : List Declarator → EmitM Unit
  | [] => return ()
  | declarator :: rest => do
      let type ←
        lowered front fun site => bindDeclarator site declarator
      if type = first then do
        write ", "
        emitDeclarator front type declarator
        emitSameType front first rest
      else
        lowered front fun site =>
          fail site declarator.node.span (.mixedLoopTypes first type)

/- The first part of the header of a `for` loop. -/
def emitForInit (front : Program) : Option ForInit → EmitM Unit
  | none => return ()
  | some (.expr value) => emitExpr front plain value
  | some (.vars _ []) => return ()
  | some (.vars _ (declarator :: rest)) => do
      let type ←
        lowered front fun site => bindDeclarator site declarator
      write type.render
      write " "
      emitDeclarator front type declarator
      emitSameType front type rest

/- A further part of the header of a `for` loop. -/
def emitHeaderPart (front : Program) (expr? : Option Expr) : EmitM Unit := do
  write ";"
  match expr? with
  | none => return ()
  | some expr => do
      write " "
      emitExpr front plain expr

/- A returned value, which goes into the return type. -/
def emitReturned (front : Program) : Option Expr → EmitM Unit
  | none => return ()
  | some value => do
      write " "
      let type? ← returnType?
      emitExpr front (returnContext type?) value

-----
-- Statements
-----

mutual

/-
  Emit a statement. Where it is the whole body of a loop or
  branch, the statements of a block are that body.
-/
def emitStmt (front : Program) (isBody : Bool) : Stmt → EmitM Unit
  | .vars _ _ declarators => emitVars front declarators
  | .block _ body =>
      if isBody then
        emitStmts front body
      else do
        EmitM.inFrame (braced (emitStmts front body))
        endLine
  | .ifElse _ condition thenStmt else? => do
      write "if ("
      emitExpr front plain condition
      write ") "
      EmitM.inFrame (braced (emitStmt front true thenStmt))
      emitElse front else?
      endLine
  | .whileLoop _ condition body => do
      write "while ("
      emitExpr front plain condition
      write ") "
      EmitM.inFrame (braced (emitStmt front true body))
      endLine
  | .doLoop _ condition body => do
      write "do "
      EmitM.inFrame (braced (emitStmt front true body))
      write " while ("
      emitExpr front plain condition
      write ");"
      endLine
  | .forLoop _ init? condition? update? body =>
      EmitM.inFrame do
        write "for ("
        emitForInit front init?
        emitHeaderPart front condition?
        emitHeaderPart front update?
        write ") "
        EmitM.inFrame (braced (emitStmt front true body))
        endLine
  | .ret _ value? => do
      write "return"
      emitReturned front value?
      write ";"
      endLine
  | .expr _ value => do
      emitExpr front plain value
      write ";"
      endLine
  | .breakLoop _ => do
      write "break;"
      endLine
  | .continueLoop _ => do
      write "continue;"
      endLine
  | .empty _ => return ()
  | stmt =>
      lowered front fun site =>
        fail site stmt.span (.nestedStatement stmt.kindName)

/- Emit what follows the body of an `if`. -/
def emitElse (front : Program) : Option Stmt → EmitM Unit
  | none => return ()
  | some (.ifElse _ condition thenStmt else?) => do
      write " else "
      write "if ("
      emitExpr front plain condition
      write ") "
      EmitM.inFrame (braced (emitStmt front true thenStmt))
      emitElse front else?
  | some stmt => do
      write " else "
      EmitM.inFrame (braced (emitStmt front true stmt))

def emitStmts (front : Program) : List Stmt → EmitM Unit
  | [] => return ()
  | stmt :: rest => do
      emitStmt front false stmt
      emitStmts front rest

end

/- Emit a statement of a function. -/
def emitStatement (front : Program) (stmt : Stmt) : EmitM Unit :=
  emitStmt front false stmt

end ScriptLowering
