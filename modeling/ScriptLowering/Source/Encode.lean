import ScriptLowering.Json.Value
import ScriptLowering.Source.Program

/-
  Programs as JSON. A record is an object with all its
  fields, an absent value is `null`, and a variant is an
  object with one member named for it, or just the name when
  it has no content.

  Key definitions include:
    * `Expr.toJson`
    * `Stmt.toJson`
    * `Program.toJson`
-/

namespace ScriptLowering

-----
-- Parts
-----

namespace Json

def ofNat (n : Nat) : Json :=
  .integer n

/- A value, or `null` when there is none. -/
def ofOption {α : Type} (encode : α → Json) : Option α → Json
  | none => .null
  | some value => encode value

/- A variant with content. -/
def variant (name : Text) (content : Json) : Json :=
  .object [(name, content)]

end Json

def Span.toJson (span : Span) : Json :=
  .object [ ("start", Json.ofNat span.start.toNat), ("end", Json.ofNat span.stop.toNat) ]

def TypeText.toJson (type : TypeText) : Json :=
  .object [ ("text", .ofText type.text), ("span", type.span.toJson) ]

def Param.toJson (param : Param) : Json :=
  .object
    [ ("id", Json.ofNat param.node.id.toNat), ("name", .ofText param.name),
      ("span", param.node.span.toJson),
      ("ty", Json.ofOption TypeText.toJson param.type?) ]

def ImportName.toJson (name : ImportName) : Json :=
  .object
    [ ("id", Json.ofNat name.node.id.toNat), ("name", .ofText name.name),
      ("alias", Json.ofOption Json.ofText name.alias?),
      ("span", name.node.span.toJson) ]

def ImportClause.toJson : ImportClause → Json
  | .named names =>
      Json.variant "Named" (.array (names.map ImportName.toJson))
  | .default name => Json.variant "Default" (.ofText name)
  | .namespaced name => Json.variant "Namespace" (.ofText name)
  | .sideEffect => .ofText "SideEffect"

def InterfaceMember.toJson (member : InterfaceMember) : Json :=
  .object
    [ ("name", .ofText member.name), ("ty", member.type.toJson),
      ("optional", .bool member.optional),
      ("readonly", .bool member.readonly),
      ("method", .bool member.method),
      ("span", member.span.toJson) ]

def Interface.toJson (decl : Interface) : Json :=
  .object
    [ ("name", .ofText decl.name), ("members", .array (decl.members.map InterfaceMember.toJson)) ]

def TypeAlias.toJson (decl : TypeAlias) : Json :=
  .object [ ("name", .ofText decl.name), ("ty", decl.type.toJson) ]

def VarKind.name : VarKind → Text
  | .letKind => "Let"
  | .constKind => "Const"
  | .varKind => "Var"

/- A declaration of which only the name is kept. -/
def namedToJson (name : Text) : Json :=
  .object [("name", .ofText name)]

/- The members that every node begins with. -/
def nodeToJson (node : Node) (kind : Json) : Json :=
  .object [ ("id", Json.ofNat node.id.toNat), ("span", node.span.toJson), ("kind", kind) ]

-----
-- Expressions And Statements
-----

mutual

def Expr.toJson : Expr → Json
  | .ident node name =>
      nodeToJson node (Json.variant "Ident" (.ofText name))
  | .number node text =>
      nodeToJson node (Json.variant "Number" (.ofText text))
  | .bool node value =>
      nodeToJson node (Json.variant "Bool" (.bool value))
  | .string node value =>
      nodeToJson node (Json.variant "String" (.ofText value))
  | .template node quasis exprs =>
      nodeToJson node
        (Json.variant "Template"
          (.object
            [ ("quasis", .array (quasis.map Json.ofText)), ("exprs", .array (exprsToJson exprs)) ]))
  | .array node elements =>
      nodeToJson node (Json.variant "Array" (.array (exprsToJson elements)))
  | .object node members =>
      nodeToJson node (Json.variant "Object" (.array (membersToJson members)))
  | .paren node inner =>
      nodeToJson node (Json.variant "Paren" inner.toJson)
  | .member node object property =>
      nodeToJson node
        (Json.variant "Member"
          (.object [ ("object", object.toJson), ("property", .ofText property) ]))
  | .index node object index =>
      nodeToJson node
        (Json.variant "Index" (.object [ ("object", object.toJson), ("index", index.toJson) ]))
  | .call node callee typeArgs args =>
      nodeToJson node
        (Json.variant "Call"
          (.object
            [ ("callee", callee.toJson), ("type_args", .array (typeArgs.map TypeText.toJson)),
              ("args", .array (exprsToJson args)) ]))
  | .conditional node condition thenExpr elseExpr =>
      nodeToJson node
        (Json.variant "Conditional"
          (.object
            [ ("condition", condition.toJson), ("then_expr", thenExpr.toJson),
              ("else_expr", elseExpr.toJson) ]))
  | .assertion node inner type =>
      nodeToJson node
        (Json.variant "As" (.object [ ("expr", inner.toJson), ("ty", type.toJson) ]))
  | .unary node op operand =>
      nodeToJson node
        (Json.variant "Prefix" (.object [ ("op", .ofText op.name), ("operand", operand.toJson) ]))
  | .step node op operand =>
      nodeToJson node
        (Json.variant "Postfix" (.object [ ("op", .ofText op.name), ("operand", operand.toJson) ]))
  | .binary node op left right =>
      nodeToJson node
        (Json.variant "Binary"
          (.object [ ("op", .ofText op.name), ("left", left.toJson), ("right", right.toJson) ]))
  | .null node => nodeToJson node (.ofText "Null")
  | .this node => nodeToJson node (.ofText "This")
  | .new node callee args =>
      nodeToJson node
        (Json.variant "New"
          (.object [ ("callee", callee.toJson), ("args", .array (exprsToJson args)) ]))
  | .arrow node params body =>
      nodeToJson node
        (Json.variant "Arrow"
          (.object
            [ ("params", .array (params.map Param.toJson)), ("body", .array (stmtsToJson body)) ]))

def exprsToJson : List Expr → List Json
  | [] => []
  | expr :: rest => expr.toJson :: exprsToJson rest

def exprToJson? : Option Expr → Json
  | none => .null
  | some expr => expr.toJson

def ObjectMember.toJson : ObjectMember → Json
  | .property name value =>
      Json.variant "Property" (.object [ ("name", .ofText name), ("value", value.toJson) ])
  | .shorthand name => Json.variant "Shorthand" (namedToJson name)
  | .spread value => Json.variant "Spread" value.toJson
  | .method name => Json.variant "Method" (namedToJson name)

def membersToJson : List ObjectMember → List Json
  | [] => []
  | member :: rest => member.toJson :: membersToJson rest

def Declarator.toJson : Declarator → Json
  | .mk node name type? init? =>
      .object
        [ ("id", Json.ofNat node.id.toNat), ("name", .ofText name), ("span", node.span.toJson),
          ("ty", Json.ofOption TypeText.toJson type?),
          ("init", exprToJson? init?) ]

def declaratorsToJson : List Declarator → List Json
  | [] => []
  | declarator :: rest =>
      declarator.toJson :: declaratorsToJson rest

def ForInit.toJson : ForInit → Json
  | .vars kind declarators =>
      Json.variant "Variable"
        (.object
          [ ("kind", .ofText kind.name), ("declarations", .array (declaratorsToJson declarators)) ])
  | .expr value => Json.variant "Expr" value.toJson

def forInitToJson? : Option ForInit → Json
  | none => .null
  | some init => init.toJson

def Stmt.toJson : Stmt → Json
  | .function node head body? =>
      nodeToJson node
        (Json.variant "Function"
          (.object
            [ ("name", .ofText head.name), ("params", .array (head.params.map Param.toJson)),
              ("return_type", Json.ofOption TypeText.toJson head.returnType?),
              ("body", bodyToJson? body?) ]))
  | .importFrom node specifier clause =>
      nodeToJson node
        (Json.variant "Import"
          (.object [ ("specifier", .ofText specifier), ("clause", clause.toJson) ]))
  | .interface node decl =>
      nodeToJson node (Json.variant "Interface" decl.toJson)
  | .typeAlias node decl =>
      nodeToJson node (Json.variant "TypeAlias" decl.toJson)
  | .vars node kind declarators =>
      nodeToJson node
        (Json.variant "Variable"
          (.object
            [ ("kind", .ofText kind.name),
              ("declarations", .array (declaratorsToJson declarators)) ]))
  | .block node body =>
      nodeToJson node (Json.variant "Block" (.array (stmtsToJson body)))
  | .ifElse node condition thenBranch elseBranch? =>
      nodeToJson node
        (Json.variant "If"
          (.object
            [ ("condition", condition.toJson), ("then_branch", thenBranch.toJson),
              ("else_branch", stmtToJson? elseBranch?) ]))
  | .whileLoop node condition body =>
      nodeToJson node
        (Json.variant "While" (.object [ ("condition", condition.toJson), ("body", body.toJson) ]))
  | .doLoop node condition body =>
      nodeToJson node
        (Json.variant "DoWhile"
          (.object [ ("condition", condition.toJson), ("body", body.toJson) ]))
  | .forLoop node init? condition? update? body =>
      nodeToJson node
        (Json.variant "For"
          (.object
            [ ("init", forInitToJson? init?), ("condition", exprToJson? condition?),
              ("update", exprToJson? update?),
              ("body", body.toJson) ]))
  | .ret node value? =>
      nodeToJson node (Json.variant "Return" (exprToJson? value?))
  | .expr node value =>
      nodeToJson node (Json.variant "Expr" value.toJson)
  | .breakLoop node => nodeToJson node (.ofText "Break")
  | .continueLoop node => nodeToJson node (.ofText "Continue")
  | .empty node => nodeToJson node (.ofText "Empty")
  | .classDecl node name =>
      nodeToJson node (Json.variant "Class" (namedToJson name))
  | .enumDecl node name =>
      nodeToJson node (Json.variant "Enum" (namedToJson name))
  | .raise node value =>
      nodeToJson node (Json.variant "Throw" value.toJson)

def stmtsToJson : List Stmt → List Json
  | [] => []
  | stmt :: rest => stmt.toJson :: stmtsToJson rest

def stmtToJson? : Option Stmt → Json
  | none => .null
  | some stmt => stmt.toJson

def bodyToJson? : Option (List Stmt) → Json
  | none => .null
  | some body => .array (stmtsToJson body)

end

-----
-- Programs
-----

def SourceUnit.toJson (unit : SourceUnit) : Json :=
  .object
    [ ("path", .ofText unit.path), ("source", .ofText unit.source),
      ("statements", .array (stmtsToJson unit.statements)) ]

def ModuleTarget.toJson : ModuleTarget → Json
  | .unit id => Json.variant "Unit" (Json.ofNat id.toNat)
  | .native => .ofText "Runtime"

def ModuleLink.toJson (link : ModuleLink) : Json :=
  .object
    [ ("from", Json.ofNat link.importer.toNat), ("specifier", .ofText link.specifier),
      ("target", link.target.toJson) ]

/- Node numbers are the keys of the table of types. -/
def NodeTypes.toJson (types : NodeTypes) : Json :=
  .object
    (types.entries.map fun entry =>
      (Text.ofNat entry.1.toNat, .ofText entry.2))

def Program.toJson (program : Program) : Json :=
  .object
    [ ("units", .array (program.units.map SourceUnit.toJson)),
      ("entry", Json.ofOption (fun id : UnitId => Json.ofNat id.toNat) program.entry?),
      ("types", program.types.toJson),
      ("modules", .array (program.links.map ModuleLink.toJson)) ]

end ScriptLowering
