import ScriptLowering.Lowering.Subject

/-
  Calls with a meaning of their own: `Pointer(value)`, which
  takes an address, and `n.toString(radix)` on a number.

  Key definitions include:
    * `Radix`
    * `CallKind`
    * `IntrinsicError`
    * `literalValue?`
-/

namespace ScriptLowering

-----
-- Intrinsic Calls
-----

/- The radix of a conversion: not given, literal, or computed. -/
inductive Radix where
  | default
  | literal (value : Nat)
  | dynamic
deriving DecidableEq, Repr

/- What a call means. -/
inductive CallKind where
  | ordinary
  | pointer
  | numberToString (radix : Radix)
deriving DecidableEq, Repr

inductive IntrinsicError where
  | pointerArity (found : Nat)
  | unsupportedRadix (text : Text)
  | type (error : TypeError)
deriving DecidableEq, Repr

namespace IntrinsicError

def message : IntrinsicError → Text
  | pointerArity found =>
      "`Pointer` takes exactly one argument, found " ++ Text.ofNat found
  | unsupportedRadix text =>
      "radix " ++ ticked text ++ " is not supported (expected one of 2, 8, 10, 16)"
  | type error => error.message

def kind : IntrinsicError → ErrorKind
  | pointerArity _ => .unsupportedConstruct
  | unsupportedRadix _ => .unsupportedRadix
  | type error => error.kind

end IntrinsicError

-----
-- Integer Literals
-----

/-
  The base of an integer literal and its digits, for a text
  in lower case without separators.
-/
def literalBase : Text → Nat × Text
  | '0' :: 'x' :: digits => (16, digits)
  | '0' :: 'o' :: digits => (8, digits)
  | '0' :: 'b' :: digits => (2, digits)
  | digits => (10, digits)

/- The value of an integer literal, if it has 32 bits at most. -/
def literalValue? (text : Text) : Option Nat :=
  let plain := (text.filter (· != '_')).map Char.toLower
  let (base, digits) := literalBase plain
  Text.readUnsigned? base UInt32.size digits

/- The radix of a conversion by its arguments. -/
def radixOf : List Expr → Except IntrinsicError Radix
  | [] => .ok .default
  | arg :: _ =>
      match arg.unparenthesized with
      | .number _ text =>
          match literalValue? text with
          | some value =>
              if Native.isSupportedRadix value then
                .ok (.literal value)
              else
                .error (.unsupportedRadix text)
          | none => .error (.unsupportedRadix text)
      | _ => .ok .dynamic

-----
-- Recognition
-----

/- A computation on the type table with intrinsic errors. -/
abbrev IntrinsicM :=
  EStateM IntrinsicError TypeTable

/- The meaning of a conversion to text, by the receiver's type. -/
def conversionKind (args : List Expr) (receiver : TypeName) : IntrinsicM CallKind :=
  if receiver.isNumeric then
    match radixOf args with
    | .ok radix => return .numberToString radix
    | .error error => throw error
  else
    return .ordinary

/- The meaning of a call by its callee and arguments. -/
def callKind
    (types : NodeTypes) (scope : ScopeChain) (callee : Expr)
    (args : List Expr) : IntrinsicM CallKind :=
  if callee.isPointerCallee then
    if args.length = 1 then
      return .pointer
    else
      throw (.pointerArity args.length)
  else
    match callee with
    | .member _ receiver property =>
        if property = Native.toStringMethod ∧ args.length ≤ 1 then do
          let type ←
            EStateM.adaptExcept .type (receiver.type types scope)
          conversionKind args type
        else
          return .ordinary
    | _ => return .ordinary

-----
-- Intrinsic Expressions
-----

/-
  An intrinsic call with its parts; a computed radix is the
  argument it is computed by.
-/
inductive Intrinsic where
  | pointer (operand : Expr)
  | numberToString (receiver : Expr) (radix : Radix)
      (argument? : Option Expr)

/- The intrinsic call that an expression is, if it is one. -/
def Expr.intrinsic? (types : NodeTypes) (scope : ScopeChain) :
    Expr → IntrinsicM (Option Intrinsic)
  | .call _ callee _ args => do
      match ← callKind types scope callee args, callee, args with
      | .pointer, _, [operand] => return some (.pointer operand)
      | .numberToString radix, .member _ receiver _, args =>
          return some (.numberToString receiver radix args.head?)
      | _, _, _ => return none
  | _ => return none

end ScriptLowering
