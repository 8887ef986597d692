import ScriptLowering.Scope.Chain
import ScriptLowering.Source.Program
import ScriptLowering.Vocabulary.Native

/-
  The native type of a name, an expression, a declaration or
  a spelling. What the scope or a written type says goes
  before what the checker inferred.

  Key definitions include:
    * `Expr.pointerOperand?`
    * `inferredType`
    * `Expr.type`
    * `declaredType`
-/

namespace ScriptLowering

-----
-- Pointer Construction
-----

/- Whether a callee is the name that takes addresses. -/
def Expr.isPointerCallee : Expr → Bool
  | .ident _ name => name == Native.pointerConstructor
  | _ => false

/- The operand of a pointer construction with one argument. -/
def Expr.pointerOperand? : Expr → Option Expr
  | .call _ callee _ [operand] =>
      if callee.isPointerCallee then
        some operand
      else
        none
  | _ => none

-----
-- Types Of Subjects
-----

/- The type that the checker inferred for a node. -/
def inferredType (types : NodeTypes) (id : NodeId) (subject : Text) : TypeM TypeName :=
  match types.get? id with
  | some text => TypeTable.canonicalize text
  | none => throw (.missing subject)

/- The type of a name in scope. -/
def nameType (scope : ScopeChain) (name : Text) : TypeM TypeName :=
  match scope.lookupType? name with
  | some type => return type
  | none => throw (.missing name)

/-
  The type of an expression: a name in scope has its type
  there, an assertion states the type, and a pointer points
  to the type of its operand. All else is inferred.
-/
def Expr.type (types : NodeTypes) (scope : ScopeChain) : Expr → TypeM TypeName
  | .assertion _ inner written =>
      if written.isConst then
        inner.type types scope
      else
        TypeTable.canonicalize written.text
  | .paren _ inner => inner.type types scope
  | .ident node name =>
      match scope.lookupType? name with
      | some type => return type
      | none => inferredType types node.id name
  | .call node callee typeArgs [operand] =>
      if callee.isPointerCallee then do
        let target ← operand.type types scope
        return TypeName.pointerTo target
      else
        inferredType types node.id (Expr.call node callee typeArgs [operand]).kindName
  | expr => inferredType types expr.id expr.kindName

/- The type of a declared name: the written one, if any. -/
def declaredType (types : NodeTypes) (id : NodeId) : Option TypeText → TypeM TypeName
  | some written => TypeTable.canonicalize written.text
  | none => inferredType types id "declaration"

end ScriptLowering
