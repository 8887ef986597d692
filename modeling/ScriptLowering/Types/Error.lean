import ScriptLowering.Text.Basic

/-
  Why a type cannot be decided, and the kinds that all
  errors of the compiler fall into.

  Key definitions include:
    * `ErrorKind`
    * `ShapeFault`
    * `TypeError`
    * `TypeError.message`
-/

namespace ScriptLowering

-----
-- Kinds Of Errors
-----

inductive ErrorKind where
  | unsupportedConstruct
  | typeResolutionFailure
  | unknownIdentifier
  | doubleDeclaration
  | unsupportedRadix
  | unresolvedModule
deriving DecidableEq, Repr

namespace ErrorKind

/- The kind as it stands in error codes. -/
def name : ErrorKind → Text
  | unsupportedConstruct => "unsupported_construct"
  | typeResolutionFailure => "type_resolution_failure"
  | unknownIdentifier => "unknown_identifier"
  | doubleDeclaration => "double_declaration"
  | unsupportedRadix => "unsupported_radix"
  | unresolvedModule => "unresolved_module"

/- The kind in words. -/
def title : ErrorKind → Text
  | unsupportedConstruct => "unsupported construct"
  | typeResolutionFailure => "type resolution failure"
  | unknownIdentifier => "unknown identifier"
  | doubleDeclaration => "double declaration"
  | unsupportedRadix => "unsupported radix"
  | unresolvedModule => "unresolved module"

/- The error code of a kind. -/
def code (kind : ErrorKind) : Text :=
  "typeslang::" ++ kind.name

end ErrorKind

-----
-- Type Errors
-----

/- A text in the quotes that messages use. -/
def ticked (text : Text) : Text :=
  "`" ++ text ++ "`"

/- Why an object type has no struct layout. -/
inductive ShapeFault where
  | unbalancedBraces
  | untypedMember (member : Text)
  | optionalMember (name : Text)
  | methodMember (name : Text)
  | notAField (name : Text)
  | invalidName (name : Text)
  | emptyShape
  | emptyInterface
deriving DecidableEq, Repr

def ShapeFault.message : ShapeFault → Text
  | unbalancedBraces => "unbalanced braces"
  | untypedMember member =>
      "member " ++ ticked member ++ " has no type"
  | optionalMember name => "optional member " ++ ticked name
  | methodMember name => "method member " ++ ticked name
  | notAField name =>
      "member " ++ ticked name ++ " is not a field"
  | invalidName name => "invalid field name " ++ ticked name
  | emptyShape => "empty object type"
  | emptyInterface => "empty interface"

/- Why a type has no native counterpart. -/
inductive TypeError where
  | disallowed (spelling : Text)
  | undecidable (spelling : Text)
  | nestedArray (spelling : Text)
  | malformedShape (shape : Text) (fault : ShapeFault)
  | missing (subject : Text)
  | redeclared (name : Text)
deriving DecidableEq, Repr

namespace TypeError

def message : TypeError → Text
  | disallowed spelling =>
      "type " ++ ticked spelling ++ " is dynamic and cannot be lowered to a native type"
  | undecidable spelling =>
      "cannot decide a native type for " ++ ticked spelling
  | nestedArray spelling =>
      "nested array type " ++ ticked spelling ++ " is not supported"
  | malformedShape shape fault =>
      "malformed object type " ++ ticked shape ++ ": " ++ fault.message
  | missing subject =>
      "no type information available for " ++ ticked subject
  | redeclared name =>
      "type " ++ ticked name ++ " is already declared"

def kind : TypeError → ErrorKind
  | redeclared _ => .doubleDeclaration
  | _ => .typeResolutionFailure

end TypeError

end ScriptLowering
