import ScriptLowering.Json.Reader
import ScriptLowering.Source.Program

/-
  Programs from JSON. A record is an object, whose unknown
  members are ignored whatever they hold, or an array of its
  fields in order. Some fields may be missing. A variant is
  an object with one member named for it, or just the name
  when it has no content. Arrays and objects of a program
  may be nested to a depth of 127; each decoder is told how
  many levels are left, and is a recursion on that number.

  Key definitions include:
    * `JsonRecord`
    * `JsonRecord.ofJson?`
    * `Expr.ofJson?`
    * `Stmt.ofJson?`
-/

namespace ScriptLowering

-----
-- Records
-----

/- The known fields of a record that are present. -/
abbrev JsonRecord :=
  List (Text × Json)

namespace JsonRecord

/- Whether a known field occurs twice. -/
def hasDuplicate (names : List Text) (members : List (Text × Json)) : Bool :=
  names.any fun name =>
    1 < members.countP fun member => member.1 == name

/- Members with the texts of their keys. -/
def withKeys? (members : List (Text × Json)) :
    Option (List (Text × Json)) :=
  members.mapM fun (key, value) => do
    return (← JsonText.decode? key, value)

/- The fields of a record with the given field names. -/
def ofJson? (names : List Text) : Json → Option JsonRecord
  | .object members => do
      let members ← withKeys? members
      if hasDuplicate names members then
        none
      else
        return members.filter fun member =>
          names.contains member.1
  | .array items =>
      if names.length < items.length then
        none
      else
        some (names.zip items)
  | _ => none

variable {α : Type}

/- A field that must be present. -/
def required (record : JsonRecord) (name : Text) (decode : Json → Option α) : Option α :=
  (record.lookup name).bind decode

/- A field that may be missing, but not `null`. -/
def defaulted
    (record : JsonRecord) (name : Text) (decode : Json → Option α) (default : α) : Option α :=
  match record.lookup name with
  | none => some default
  | some value => decode value

/- A field that may be missing or `null`. -/
def optional (record : JsonRecord) (name : Text) (decode : Json → Option α) : Option (Option α) :=
  match record.lookup name with
  | none => some none
  | some .null => some none
  | some value => (decode value).map some

end JsonRecord

-----
-- Plain Values
-----

namespace Json

def toBool? : Json → Option Bool
  | .bool value => some value
  | _ => none

/- An integer from zero up to a limit. -/
def toNatBelow? (limit : Nat) : Json → Option Nat
  | .integer (.ofNat value) =>
      if value < limit then some value else none
  | _ => none

def toUInt32? (json : Json) : Option UInt32 :=
  (json.toNatBelow? UInt32.size).map UInt32.ofNat

def toUInt64? (json : Json) : Option UInt64 :=
  (json.toNatBelow? UInt64.size).map UInt64.ofNat

variable {α : Type}

/- The items of an array, one level further down. -/
def toList? (decode : Nat → Json → Option α) :
    Nat → Json → Option (List α)
  | depth + 1, .array items => items.mapM (decode depth)
  | _, _ => none

/- The items of an array that have no levels of their own. -/
def toPlainList? (decode : Json → Option α) :
    Nat → Json → Option (List α) :=
  toList? fun _ => decode

/-
  The name and the content of a variant, with the levels
  left for the content; a bare name has no content.
-/
def toVariant? :
    Nat → Json → Option (Text × Option (Nat × Json))
  | _, .string name => do
      return (← JsonText.decode? name, none)
  | depth + 1, .object [(name, content)] => do
      return (← JsonText.decode? name, some (depth, content))
  | _, _ => none

/- The name of a variant without content. -/
def toUnitVariant? (depth : Nat) (json : Json) : Option Text :=
  match json.toVariant? depth with
  | some (name, none) => some name
  | some (name, some (_, .null)) => some name
  | _ => none

end Json

-----
-- Parts
-----

def Span.ofJson? : Nat → Json → Option Span
  | 0, _ => none
  | _ + 1, json => do
      let record ← JsonRecord.ofJson? ["start", "end"] json
      let start ← record.required "start" Json.toUInt64?
      let stop ← record.required "end" Json.toUInt64?
      return ⟨start, stop⟩

def TypeText.ofJson? : Nat → Json → Option TypeText
  | 0, _ => none
  | depth + 1, json => do
      let record ← JsonRecord.ofJson? ["text", "span"] json
      let text ← record.required "text" Json.toText?
      let span ←
        record.defaulted "span" (Span.ofJson? depth) Span.nowhere
      return ⟨text, span⟩

def Param.ofJson? : Nat → Json → Option Param
  | 0, _ => none
  | depth + 1, json => do
      let record ←
        JsonRecord.ofJson? ["id", "name", "span", "ty"] json
      let id ← record.required "id" Json.toUInt32?
      let name ← record.required "name" Json.toText?
      let span ←
        record.defaulted "span" (Span.ofJson? depth) Span.nowhere
      let type? ← record.optional "ty" (TypeText.ofJson? depth)
      return ⟨⟨id, span⟩, name, type?⟩

def ImportName.ofJson? : Nat → Json → Option ImportName
  | 0, _ => none
  | depth + 1, json => do
      let record ←
        JsonRecord.ofJson? ["id", "name", "alias", "span"] json
      let id ← record.required "id" Json.toUInt32?
      let name ← record.required "name" Json.toText?
      let alias? ← record.optional "alias" Json.toText?
      let span ←
        record.defaulted "span" (Span.ofJson? depth) Span.nowhere
      return ⟨⟨id, span⟩, name, alias?⟩

def ImportClause.ofJson? (depth : Nat) (json : Json) : Option ImportClause := do
  let (name, content?) ← json.toVariant? depth
  match content? with
  | none =>
      if name = "SideEffect" then
        return .sideEffect
      else
        none
  | some (depth, content) =>
      if name = "Named" then
        return .named (← Json.toList? ImportName.ofJson? depth content)
      else if name = "Default" then
        return .default (← content.toText?)
      else if name = "Namespace" then
        return .namespaced (← content.toText?)
      else if name = "SideEffect" then
        match content with
        | .null => return .sideEffect
        | _ => none
      else
        none

def InterfaceMember.ofJson? :
    Nat → Json → Option InterfaceMember
  | 0, _ => none
  | depth + 1, json => do
      let record ←
        JsonRecord.ofJson? ["name", "ty", "optional", "readonly", "method", "span"] json
      let name ← record.required "name" Json.toText?
      let type ← record.required "ty" (TypeText.ofJson? depth)
      let isOptional ← record.defaulted "optional" Json.toBool? false
      let readonly ← record.defaulted "readonly" Json.toBool? false
      let method ← record.defaulted "method" Json.toBool? false
      let span ←
        record.defaulted "span" (Span.ofJson? depth) Span.nowhere
      return ⟨name, type, isOptional, readonly, method, span⟩

def Interface.ofJson? : Nat → Json → Option Interface
  | 0, _ => none
  | depth + 1, json => do
      let record ← JsonRecord.ofJson? ["name", "members"] json
      let name ← record.required "name" Json.toText?
      let members ←
        record.required "members" (Json.toList? InterfaceMember.ofJson? depth)
      return ⟨name, members⟩

def TypeAlias.ofJson? : Nat → Json → Option TypeAlias
  | 0, _ => none
  | depth + 1, json => do
      let record ← JsonRecord.ofJson? ["name", "ty"] json
      let name ← record.required "name" Json.toText?
      let type ← record.required "ty" (TypeText.ofJson? depth)
      return ⟨name, type⟩

/- A declaration of which only the name is kept. -/
def namedOfJson? : Nat → Json → Option Text
  | 0, _ => none
  | _ + 1, json => do
      let record ← JsonRecord.ofJson? ["name"] json
      record.required "name" Json.toText?

def VarKind.ofJson? (depth : Nat) (json : Json) : Option VarKind := do
  let name ← json.toUnitVariant? depth
  if name = "Let" then
    return .letKind
  else if name = "Const" then
    return .constKind
  else if name = "Var" then
    return .varKind
  else
    none

def BinaryOp.ofJson? (depth : Nat) (json : Json) : Option BinaryOp :=
  (json.toUnitVariant? depth).bind BinaryOp.ofName?

def UnaryOp.ofJson? (depth : Nat) (json : Json) : Option UnaryOp :=
  (json.toUnitVariant? depth).bind UnaryOp.ofName?

def StepOp.ofJson? (depth : Nat) (json : Json) : Option StepOp :=
  (json.toUnitVariant? depth).bind StepOp.ofName?

-----
-- Expressions And Statements
-----

/- Expressions without content. -/
def bareExprOfName? (node : Node) (name : Text) : Option Expr :=
  if name = "Null" then
    some (.null node)
  else if name = "This" then
    some (.this node)
  else
    none

/- Statements without content. -/
def bareStmtOfName? (node : Node) (name : Text) : Option Stmt :=
  if name = "Break" then
    some (.breakLoop node)
  else if name = "Continue" then
    some (.continueLoop node)
  else if name = "Empty" then
    some (.empty node)
  else
    none

mutual

def Expr.ofJson? : Nat → Json → Option Expr
  | 0, _ => none
  | depth + 1, json => do
      let record ← JsonRecord.ofJson? ["id", "span", "kind"] json
      let id ← record.required "id" Json.toUInt32?
      let span ←
        record.defaulted "span" (Span.ofJson? depth) Span.nowhere
      record.required "kind" (exprOfKind? depth ⟨id, span⟩)

/- The expression of a kind, given what every node has. -/
def exprOfKind? : Nat → Node → Json → Option Expr
  | _, node, .string name =>
      (JsonText.decode? name).bind (bareExprOfName? node)
  | depth + 1, node, .object [(key, content)] => do
      let name ← JsonText.decode? key
      if name = "Ident" then
        return .ident node (← content.toText?)
      else if name = "Number" then
        return .number node (← content.toText?)
      else if name = "Bool" then
        return .bool node (← content.toBool?)
      else if name = "String" then
        return .string node (← content.toText?)
      else if name = "Array" then
        return .array node (← exprsOfJson? depth content)
      else if name = "Object" then
        return .object node (← membersOfJson? depth content)
      else if name = "Paren" then
        return .paren node (← Expr.ofJson? depth content)
      else
        match content with
        | .null => bareExprOfName? node name
        | _ => exprOfParts? depth node name content
  | _, _, _ => none

/- The expression of a kind whose content is a record. -/
def exprOfParts? : Nat → Node → Text → Json → Option Expr
  | 0, _, _, _ => none
  | depth + 1, node, name, content =>
      if name = "Template" then do
        let record ←
          JsonRecord.ofJson? ["quasis", "exprs"] content
        let quasis ←
          record.required "quasis" (Json.toPlainList? Json.toText? depth)
        let exprs ←
          record.required "exprs" (exprsOfJson? depth)
        return .template node quasis exprs
      else if name = "Member" then do
        let record ←
          JsonRecord.ofJson? ["object", "property"] content
        let object ← record.required "object" (Expr.ofJson? depth)
        let property ← record.required "property" Json.toText?
        return .member node object property
      else if name = "Index" then do
        let record ←
          JsonRecord.ofJson? ["object", "index"] content
        let object ← record.required "object" (Expr.ofJson? depth)
        let index ← record.required "index" (Expr.ofJson? depth)
        return .index node object index
      else if name = "Call" then do
        let record ←
          JsonRecord.ofJson? ["callee", "type_args", "args"] content
        let callee ← record.required "callee" (Expr.ofJson? depth)
        let typeArgs ←
          record.defaulted "type_args" (Json.toList? TypeText.ofJson? depth) []
        let args ← record.required "args" (exprsOfJson? depth)
        return .call node callee typeArgs args
      else if name = "Conditional" then do
        let record ←
          JsonRecord.ofJson? ["condition", "then_expr", "else_expr"] content
        let condition ←
          record.required "condition" (Expr.ofJson? depth)
        let thenExpr ←
          record.required "then_expr" (Expr.ofJson? depth)
        let elseExpr ←
          record.required "else_expr" (Expr.ofJson? depth)
        return .conditional node condition thenExpr elseExpr
      else if name = "As" then do
        let record ← JsonRecord.ofJson? ["expr", "ty"] content
        let inner ← record.required "expr" (Expr.ofJson? depth)
        let type ← record.required "ty" (TypeText.ofJson? depth)
        return .assertion node inner type
      else if name = "Prefix" then do
        let record ←
          JsonRecord.ofJson? ["op", "operand"] content
        let op ← record.required "op" (UnaryOp.ofJson? depth)
        let operand ←
          record.required "operand" (Expr.ofJson? depth)
        return .unary node op operand
      else if name = "Postfix" then do
        let record ←
          JsonRecord.ofJson? ["op", "operand"] content
        let op ← record.required "op" (StepOp.ofJson? depth)
        let operand ←
          record.required "operand" (Expr.ofJson? depth)
        return .step node op operand
      else if name = "Binary" then do
        let record ←
          JsonRecord.ofJson? ["op", "left", "right"] content
        let op ← record.required "op" (BinaryOp.ofJson? depth)
        let left ← record.required "left" (Expr.ofJson? depth)
        let right ← record.required "right" (Expr.ofJson? depth)
        return .binary node op left right
      else if name = "New" then do
        let record ←
          JsonRecord.ofJson? ["callee", "args"] content
        let callee ← record.required "callee" (Expr.ofJson? depth)
        let args ← record.required "args" (exprsOfJson? depth)
        return .new node callee args
      else if name = "Arrow" then do
        let record ←
          JsonRecord.ofJson? ["params", "body"] content
        let params ←
          record.required "params" (Json.toList? Param.ofJson? depth)
        let body ← record.required "body" (stmtsOfJson? depth)
        return .arrow node params body
      else
        none

def exprsOfJson? : Nat → Json → Option (List Expr)
  | depth + 1, .array items => items.mapM (Expr.ofJson? depth)
  | _, _ => none

def ObjectMember.ofJson? : Nat → Json → Option ObjectMember
  | depth + 1, .object [(key, content)] => do
      let name ← JsonText.decode? key
      if name = "Property" then
        propertyOfJson? depth content
      else if name = "Shorthand" then
        return .shorthand (← namedOfJson? depth content)
      else if name = "Spread" then
        return .spread (← Expr.ofJson? depth content)
      else if name = "Method" then
        return .method (← namedOfJson? depth content)
      else
        none
  | _, _ => none

def propertyOfJson? : Nat → Json → Option ObjectMember
  | 0, _ => none
  | depth + 1, content => do
      let record ← JsonRecord.ofJson? ["name", "value"] content
      let name ← record.required "name" Json.toText?
      let value ← record.required "value" (Expr.ofJson? depth)
      return .property name value

def membersOfJson? : Nat → Json → Option (List ObjectMember)
  | depth + 1, .array items =>
      items.mapM (ObjectMember.ofJson? depth)
  | _, _ => none

def Declarator.ofJson? : Nat → Json → Option Declarator
  | 0, _ => none
  | depth + 1, json => do
      let record ←
        JsonRecord.ofJson? ["id", "name", "span", "ty", "init"] json
      let id ← record.required "id" Json.toUInt32?
      let name ← record.required "name" Json.toText?
      let span ←
        record.defaulted "span" (Span.ofJson? depth) Span.nowhere
      let type? ← record.optional "ty" (TypeText.ofJson? depth)
      let init? ← record.optional "init" (Expr.ofJson? depth)
      return .mk ⟨id, span⟩ name type? init?

/- The keyword and the declarators of a declaration. -/
def varsOfJson? :
    Nat → Json → Option (VarKind × List Declarator)
  | 0, _ => none
  | depth + 1, json => do
      let record ←
        JsonRecord.ofJson? ["kind", "declarations"] json
      let kind ← record.required "kind" (VarKind.ofJson? depth)
      let declarators ←
        record.required "declarations" (declaratorsOfJson? depth)
      return (kind, declarators)

def declaratorsOfJson? : Nat → Json → Option (List Declarator)
  | depth + 1, .array items =>
      items.mapM (Declarator.ofJson? depth)
  | _, _ => none

def ForInit.ofJson? : Nat → Json → Option ForInit
  | depth + 1, .object [(key, content)] => do
      let name ← JsonText.decode? key
      if name = "Variable" then do
        let (kind, declarators) ← varsOfJson? depth content
        return .vars kind declarators
      else if name = "Expr" then
        return .expr (← Expr.ofJson? depth content)
      else
        none
  | _, _ => none

def Stmt.ofJson? : Nat → Json → Option Stmt
  | 0, _ => none
  | depth + 1, json => do
      let record ← JsonRecord.ofJson? ["id", "span", "kind"] json
      let id ← record.required "id" Json.toUInt32?
      let span ←
        record.defaulted "span" (Span.ofJson? depth) Span.nowhere
      record.required "kind" (stmtOfKind? depth ⟨id, span⟩)

/- The statement of a kind, given what every node has. -/
def stmtOfKind? : Nat → Node → Json → Option Stmt
  | _, node, .string name =>
      (JsonText.decode? name).bind (bareStmtOfName? node)
  | depth + 1, node, .object [(key, content)] => do
      let name ← JsonText.decode? key
      if name = "Interface" then
        return .interface node (← Interface.ofJson? depth content)
      else if name = "TypeAlias" then
        return .typeAlias node (← TypeAlias.ofJson? depth content)
      else if name = "Variable" then do
        let (kind, declarators) ← varsOfJson? depth content
        return .vars node kind declarators
      else if name = "Block" then
        return .block node (← stmtsOfJson? depth content)
      else if name = "Return" then
        match content with
        | .null => return .ret node none
        | _ =>
            return .ret node (some (← Expr.ofJson? depth content))
      else if name = "Expr" then
        return .expr node (← Expr.ofJson? depth content)
      else if name = "Class" then
        return .classDecl node (← namedOfJson? depth content)
      else if name = "Enum" then
        return .enumDecl node (← namedOfJson? depth content)
      else if name = "Throw" then
        return .raise node (← Expr.ofJson? depth content)
      else
        match content with
        | .null => bareStmtOfName? node name
        | _ => stmtOfParts? depth node name content
  | _, _, _ => none

/- The statement of a kind whose content is a record. -/
def stmtOfParts? : Nat → Node → Text → Json → Option Stmt
  | 0, _, _, _ => none
  | depth + 1, node, name, content =>
      if name = "Function" then do
        let record ←
          JsonRecord.ofJson? ["name", "params", "return_type", "body"] content
        let name ← record.required "name" Json.toText?
        let params ←
          record.required "params" (Json.toList? Param.ofJson? depth)
        let returnType? ←
          record.optional "return_type" (TypeText.ofJson? depth)
        let body? ← record.optional "body" (stmtsOfJson? depth)
        return .function node ⟨name, params, returnType?⟩ body?
      else if name = "Import" then do
        let record ←
          JsonRecord.ofJson? ["specifier", "clause"] content
        let specifier ← record.required "specifier" Json.toText?
        let clause ←
          record.required "clause" (ImportClause.ofJson? depth)
        return .importFrom node specifier clause
      else if name = "If" then do
        let record ←
          JsonRecord.ofJson? ["condition", "then_branch", "else_branch"] content
        let condition ←
          record.required "condition" (Expr.ofJson? depth)
        let thenBranch ←
          record.required "then_branch" (Stmt.ofJson? depth)
        let elseBranch? ←
          record.optional "else_branch" (Stmt.ofJson? depth)
        return .ifElse node condition thenBranch elseBranch?
      else if name = "While" then do
        let record ←
          JsonRecord.ofJson? ["condition", "body"] content
        let condition ←
          record.required "condition" (Expr.ofJson? depth)
        let body ← record.required "body" (Stmt.ofJson? depth)
        return .whileLoop node condition body
      else if name = "DoWhile" then do
        let record ←
          JsonRecord.ofJson? ["condition", "body"] content
        let condition ←
          record.required "condition" (Expr.ofJson? depth)
        let body ← record.required "body" (Stmt.ofJson? depth)
        return .doLoop node condition body
      else if name = "For" then do
        let record ←
          JsonRecord.ofJson? ["init", "condition", "update", "body"] content
        let init? ←
          record.optional "init" (ForInit.ofJson? depth)
        let condition? ←
          record.optional "condition" (Expr.ofJson? depth)
        let update? ←
          record.optional "update" (Expr.ofJson? depth)
        let body ← record.required "body" (Stmt.ofJson? depth)
        return .forLoop node init? condition? update? body
      else
        none

def stmtsOfJson? : Nat → Json → Option (List Stmt)
  | depth + 1, .array items => items.mapM (Stmt.ofJson? depth)
  | _, _ => none

end

-----
-- Programs
-----

def SourceUnit.ofJson? : Nat → Json → Option SourceUnit
  | 0, _ => none
  | depth + 1, json => do
      let record ←
        JsonRecord.ofJson? ["path", "source", "statements"] json
      let path ← record.required "path" Json.toText?
      let source ← record.defaulted "source" Json.toText? []
      let statements ←
        record.required "statements" (stmtsOfJson? depth)
      return ⟨path, source, statements⟩

def ModuleTarget.ofJson? (depth : Nat) (json : Json) : Option ModuleTarget := do
  let (name, content?) ← json.toVariant? depth
  match content? with
  | none =>
      if name = "Runtime" then
        return .native
      else
        none
  | some (_, content) =>
      if name = "Unit" then
        return .unit (← content.toUInt32?)
      else if name = "Runtime" then
        match content with
        | .null => return .native
        | _ => none
      else
        none

def ModuleLink.ofJson? : Nat → Json → Option ModuleLink
  | 0, _ => none
  | depth + 1, json => do
      let record ←
        JsonRecord.ofJson? ["from", "specifier", "target"] json
      let importer ← record.required "from" Json.toUInt32?
      let specifier ← record.required "specifier" Json.toText?
      let target ←
        record.required "target" (ModuleTarget.ofJson? depth)
      return ⟨importer, specifier, target⟩

/-
  A node number as a key: an integer written as in JSON, so
  that none of its digits is an escape.
-/
def nodeIdOfKey? (key : Text) : Option NodeId :=
  (JsonText.readNumber? key).bind Json.toUInt32?

def NodeTypes.ofJson? : Nat → Json → Option NodeTypes
  | _ + 1, .object members => do
      let entries ←
        members.mapM fun (key, value) => do
          return (← nodeIdOfKey? key, ← value.toText?)
      return NodeTypes.ofList entries
  | _, _ => none

def Program.ofJson? : Nat → Json → Option Program
  | 0, _ => none
  | depth + 1, json => do
      let record ←
        JsonRecord.ofJson? ["units", "entry", "types", "modules"] json
      let units ←
        record.required "units" (Json.toList? SourceUnit.ofJson? depth)
      let entry? ← record.optional "entry" Json.toUInt32?
      let types ←
        record.defaulted "types" (NodeTypes.ofJson? depth) NodeTypes.empty
      let links ←
        record.defaulted "modules" (Json.toList? ModuleLink.ofJson? depth) []
      return ⟨units, entry?, types, links⟩

/- How deep arrays and objects of a program may be nested. -/
def maxProgramDepth : Nat :=
  127

def Program.load? (json : Json) : Option Program :=
  Program.ofJson? maxProgramDepth json

/- The program of a JSON text. -/
def Program.read? (text : Text) : Option Program :=
  (Json.read? text).bind Program.load?

end ScriptLowering
