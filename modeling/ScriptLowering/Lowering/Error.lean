import ScriptLowering.Lowering.Intrinsic

/-
  Why a program cannot be lowered, and where.

  Key definitions include:
    * `Fault`
    * `Fault.kind`
    * `Fault.message`
    * `CompileError`
-/

namespace ScriptLowering

-----
-- Faults
-----

inductive Fault where
  | type (error : TypeError)
  | scope (error : ScopeError)
  | intrinsic (error : IntrinsicError)
  | unaryOperator (spelling : Text)
  | binaryOperator (spelling : Text)
  | expression (kind : Text)
  | objectSpread
  | objectMethod (name : Text)
  | arrayLiteral (type : TypeName)
  | nestedStatement (kind : Text)
  | topLevelStatement (kind : Text)
  | mixedLoopTypes (first : TypeName) (other : TypeName)
  | defaultImport
  | namespaceImport
  | sideEffectImport
  | aliasedImport (name : Text)
  | unresolvedModule (specifier : Text)
  | missingUnit (specifier : Text)
  | notProvided (name : Text) (specifier : Text)
  | missingEntry (id : UnitId)
  | noUnits
deriving DecidableEq, Repr

namespace Fault

def kind : Fault → ErrorKind
  | type error => error.kind
  | scope error => error.kind
  | intrinsic error => error.kind
  | arrayLiteral _ => .typeResolutionFailure
  | unresolvedModule _ => .unresolvedModule
  | missingUnit _ => .unresolvedModule
  | notProvided _ _ => .unknownIdentifier
  | missingEntry _ => .unresolvedModule
  | noUnits => .unresolvedModule
  | _ => .unsupportedConstruct

/- The message about a construct without a C++ counterpart. -/
def unsupported (construct : Text) : Text :=
  construct ++ " is not supported"

def message : Fault → Text
  | type error => error.message
  | scope error => error.message
  | intrinsic error => error.message
  | unaryOperator spelling =>
      unsupported ("operator " ++ ticked spelling)
  | binaryOperator spelling =>
      "operator " ++ ticked spelling ++ " has no lowering"
  | expression kind => unsupported (ticked kind)
  | objectSpread => unsupported "object spread"
  | objectMethod name =>
      unsupported ("method " ++ ticked name ++ " in an object literal")
  | arrayLiteral resolved =>
      "array literal resolved to non-array type " ++ ticked resolved.text
  | nestedStatement kind =>
      unsupported (ticked kind ++ " inside a function")
  | topLevelStatement kind =>
      unsupported (ticked kind ++ " at top level")
  | mixedLoopTypes first other =>
      unsupported
        ("mixing " ++ ticked first.text ++ " and " ++
          ticked other.text ++ " declarations in a `for` header")
  | defaultImport => unsupported "default import"
  | namespaceImport => unsupported "namespace import"
  | sideEffectImport => unsupported "side-effect import"
  | aliasedImport name =>
      unsupported ("aliased import of " ++ ticked name)
  | unresolvedModule specifier =>
      "cannot resolve module " ++ ticked specifier
  | missingUnit specifier =>
      "module " ++ ticked specifier ++ " resolved to a missing unit"
  | notProvided name specifier =>
      ticked name ++ " is not declared by " ++ ticked specifier
  | missingEntry id =>
      "entry unit #" ++ Text.ofNat id.toNat ++ " does not exist"
  | noUnits => "program has no source units"

end Fault

-----
-- Errors With Their Place
-----

/- An error with the unit, the position and the span it is about. -/
structure CompileError where
  kind : ErrorKind
  message : Text
  unit : Text
  position : Position
  span : Span
deriving DecidableEq, Repr

namespace CompileError

/- A fault that belongs to no unit. -/
def ofFault (fault : Fault) : CompileError :=
  ⟨fault.kind, fault.message, [], Position.first, Span.nowhere⟩

/- The error in one line, without its unit. -/
def display (error : CompileError) : Text :=
  "(" ++ Text.ofNat error.position.line ++ ", " ++
    Text.ofNat error.position.column ++ "): " ++ error.message

end CompileError

end ScriptLowering
