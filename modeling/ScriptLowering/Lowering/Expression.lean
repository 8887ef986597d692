import ScriptLowering.Lowering.Monad
import ScriptLowering.Target.Literal
import ScriptLowering.Target.Tree

/-
  Lowering of expressions. Parts are lowered from left to
  right, and types are decided before the parts they are
  needed for.

  Key definitions include:
    * `ValueContext`
    * `floatLiteral?`
    * `lowerExpr`
-/

namespace ScriptLowering

-----
-- Contexts
-----

/-
  Where an expression stands: whether it is called, and the
  type that its value goes into, if that is known.
-/
structure ValueContext where
  called : Bool
  expected? : Option TypeName
deriving DecidableEq, Repr

namespace ValueContext

/- A value of which nothing is expected. -/
def plain : ValueContext :=
  ⟨false, none⟩

def callee : ValueContext :=
  ⟨true, none⟩

def expecting (type : TypeName) : ValueContext :=
  ⟨false, some type⟩

/- The same expectation for a part that is not called. -/
def value (context : ValueContext) : ValueContext :=
  { context with called := false }

end ValueContext

-----
-- Forms
-----

/- Operands of a cast that need parentheses. -/
def Expr.isCompound : Expr → Bool
  | .binary .. => true
  | .conditional .. => true
  | .assertion .. => true
  | _ => false

def Expr.isUnary : Expr → Bool
  | .unary .. => true
  | _ => false

/- Put an expression in parentheses if need be. -/
def wrapIf (wrap : Bool) (expr : Target.Expr) : Target.Expr :=
  if wrap then
    .paren expr
  else
    expr

/-
  A number that is asserted to be of a floating point type
  is written as a literal of that type.
-/
def floatLiteral? (type : TypeName) (inner : Expr) : Option Text :=
  match inner.unparenthesized, type.numericKind? with
  | .number _ text, some kind =>
      if kind.isFloat then
        Literal.float? (kind == .f32) text
      else
        none
  | _, _ => none

/- A property of an object whose type is known. -/
def memberAccess
    (context : ValueContext) (type : TypeName) (object : Target.Expr)
    (property : Text) : Target.Expr :=
  if type.isPointer then
    if property = Native.addressOf then
      .address object
    else if property = Native.dereference then
      .pointee object
    else
      .field object .pointer property
  else if !context.called &&
      Native.hasAccessorProperties type.text then
    .accessor object property
  else
    .field object .value property

/- The type that the right side of an assignment goes into. -/
def assignedContext (op : BinaryOp) (left : Expr) (scope : ScopeChain) : ValueContext :=
  match op, left with
  | .assign, .ident _ name => ⟨false, scope.lookupType? name⟩
  | _, _ => ValueContext.plain

-----
-- Types Written In Expressions
-----

namespace LowerM

/- The type of an array literal, which goes by the expected one. -/
def arrayType (site : Site) (context : ValueContext) (expr : Expr) : LowerM TypeName :=
  match context.expected? with
  | some expected =>
      if expected.isArray then
        return expected
      else
        exprType site expr.span expr
  | none => exprType site expr.span expr

/- Decide a written type and mark its structs as used. -/
def writtenType (site : Site) (span : Span) (type : TypeText) : LowerM TypeName := do
  let type ← typed site span (TypeTable.canonicalize type.text)
  markUsed type
  return type

def writtenTypes (site : Site) (span : Span) : List TypeText → LowerM (List TypeName)
  | [] => return []
  | type :: rest => do
      let first ← writtenType site span type
      let types ← writtenTypes site span rest
      return first :: types

/- After an assignment to a name, the name has a value. -/
def markAssigned (site : Site) (op : BinaryOp) (left : Expr) : LowerM Unit :=
  match op, left with
  | .assign, .ident node name =>
      markInitialized site node.span name
  | _, _ => return ()

end LowerM

-----
-- Expressions
-----

open LowerM in
mutual

def lowerExpr (site : Site) (context : ValueContext) : Expr → LowerM Target.Expr
  | .ident node name => do
      let emitted ← qualified site node.span name
      return .name emitted
  | .number _ text => return .number (Literal.number text)
  | .bool _ value => return .bool value
  | .string _ value => return .string value
  | .template _ quasis exprs => do
      let values ← lowerExprs site ValueContext.plain exprs
      return .format quasis values
  | .array node elements => do
      let type ← arrayType site context (.array node elements)
      match type.arrayElement? with
      | none => fail site node.span (.arrayLiteral type)
      | some element => do
          markUsed type
          let elements ←
            lowerExprs site (ValueContext.expecting element) elements
          return .array type elements
  | .object _ members => do
      let fields ← lowerMembers site members
      return .record fields
  | .paren _ inner => do
      let inner ← lowerExpr site context.value inner
      return .paren inner
  | .member _ object property => do
      let type ← exprType site object.span object
      let object ← lowerExpr site ValueContext.plain object
      return memberAccess context type object property
  | .index _ object index => do
      let object ← lowerExpr site ValueContext.plain object
      let index ← lowerExpr site ValueContext.plain index
      return .index object index
  | .call node callee typeArgs args => do
      match ← kindOfCall site node.span callee args,
          lowerReceiver? site callee, lowerFirst? site args with
      | .pointer, _, some operand => do
          let type ←
            exprType site node.span (.call node callee typeArgs args)
          markUsed type
          let operand ← operand
          return .addressOf type operand
      | .numberToString .dynamic, some receiver, some radix => do
          let number ← receiver
          let radix ← radix
          return .numberText number (some radix)
      | .numberToString (.literal value), some receiver, _ => do
          let number ← receiver
          return .numberText number (some (.number (Text.ofNat value)))
      | .numberToString .default, some receiver, _ => do
          let number ← receiver
          return .numberText number none
      | _, _, _ => do
          let callee ← lowerExpr site ValueContext.callee callee
          let types ← writtenTypes site node.span typeArgs
          let args ← lowerExprs site ValueContext.plain args
          return .call callee types args
  | .conditional _ condition thenExpr elseExpr => do
      let condition ← lowerExpr site ValueContext.plain condition
      let thenExpr ← lowerExpr site context.value thenExpr
      let elseExpr ← lowerExpr site context.value elseExpr
      return .conditional condition thenExpr elseExpr
  | .assertion node inner written =>
      if written.isConst then
        lowerExpr site context inner
      else do
        let type ← writtenType site node.span written
        match floatLiteral? type inner with
        | some literal => return .number literal
        | none => do
            let operand ← lowerExpr site ValueContext.plain inner
            return .cast type (wrapIf inner.isCompound operand)
  | .unary node op operand =>
      match op.target? with
      | none => fail site node.span (.unaryOperator op.spelling)
      | some target => do
          let lowered ← lowerExpr site ValueContext.plain operand
          return .unary target (wrapIf operand.isUnary lowered)
  | .step _ op operand => do
      let operand ← lowerExpr site ValueContext.plain operand
      return .step operand op.spelling
  | .binary node op left right =>
      match op.target? with
      | none => fail site node.span (.binaryOperator op.spelling)
      | some target => do
          let lowered ← lowerExpr site ValueContext.plain left
          let state ← get
          let value ←
            lowerExpr site (assignedContext op left state.scope) right
          markAssigned site op left
          return .binary lowered target value
  | expr => fail site expr.span (.expression expr.kindName)

/- How the object of a property is lowered. -/
def lowerReceiver? (site : Site) : Expr → Option (LowerM Target.Expr)
  | .member _ object _ =>
      some (lowerExpr site ValueContext.plain object)
  | _ => none

/- How the first of some arguments is lowered. -/
def lowerFirst? (site : Site) : List Expr → Option (LowerM Target.Expr)
  | [] => none
  | expr :: _ => some (lowerExpr site ValueContext.plain expr)

def lowerExprs (site : Site) (context : ValueContext) :
    List Expr → LowerM (List Target.Expr)
  | [] => return []
  | expr :: rest => do
      let first ← lowerExpr site context expr
      let exprs ← lowerExprs site context rest
      return first :: exprs

def lowerMembers (site : Site) :
    List ObjectMember → LowerM (List Target.FieldInit)
  | [] => return []
  | .property name value :: rest => do
      let value ← lowerExpr site ValueContext.plain value
      let fields ← lowerMembers site rest
      return .mk name value :: fields
  | .shorthand name :: rest => do
      let emitted ← qualified site Span.nowhere name
      let fields ← lowerMembers site rest
      return .mk name (.name emitted) :: fields
  | .spread value :: _ => fail site value.span .objectSpread
  | .method name :: _ => fail site Span.nowhere (.objectMethod name)

end

/- Lower an expression that may be absent. -/
def lowerExpr? (site : Site) (context : ValueContext) :
    Option Expr → LowerM (Option Target.Expr)
  | none => return none
  | some expr => do
      let lowered ← lowerExpr site context expr
      return some lowered

end ScriptLowering
