import ScriptLowering.Proofs.JsonEncoding

/-
  Programs survive being written and read. Every part of a
  program is followed through its encoder and its decoder:
  each decoder gives back what was encoded, for expressions
  and statements by one induction over all their kinds. What
  a decoder does on an object with known names is found by
  running it, so that only its fields are left.

  Key theorems include:
    * `Program.encodes`
    * `Program.read?_render_toJson`
-/

namespace ScriptLowering

-----
-- Parts
-----

/- Both ends are numbers that fit in 64 bits. -/
theorem Span.encodes (span : Span) :
    Encodes Span.ofJson? span.toJson span :=
  .record [ .of "start" (encodes_uint64 span.start), .of "end" (encodes_uint64 span.stop) ]
    Span.mk rfl fun _ => rfl

/- A written type is its text and its place. -/
theorem TypeText.encodes (type : TypeText) :
    Encodes TypeText.ofJson? type.toJson type :=
  .record [ .of "text" (encodes_text type.text), .of "span" type.span.encodes ]
    TypeText.mk rfl fun _ => rfl

/- A type that is not written is null. -/
theorem TypeText.encodes_option (type? : Option TypeText) :
    Encodes (fun depth => Json.toOption? (TypeText.ofJson? depth))
      (Json.ofOption TypeText.toJson type?) type? :=
  .option (fun _ => Json.noConfusion) TypeText.encodes type?

/- A node is spread over two fields of its parameter. -/
theorem Param.encodes (param : Param) :
    Encodes Param.ofJson? param.toJson param :=
  .record
    [ .of "id" (encodes_uint32 param.node.id), .of "name" (encodes_text param.name),
      .of "span" param.node.span.encodes,
      .optional "ty" (TypeText.encodes_option param.type?) ]
    (fun id name span => Param.mk ⟨id, span⟩ name)
    rfl fun _ => rfl

/- A name that is not renamed has a null alias. -/
theorem ImportName.encodes (name : ImportName) :
    Encodes ImportName.ofJson? name.toJson name :=
  .record
    [ .of "id" (encodes_uint32 name.node.id), .of "name" (encodes_text name.name),
      .optional "alias" (.option (fun _ => Json.noConfusion) encodes_text name.alias?),
      .of "span" name.node.span.encodes ]
    (fun id name alias? span => ImportName.mk ⟨id, span⟩ name alias?)
    rfl fun _ => rfl

/- A clause is told by the name of its only field. -/
theorem ImportClause.encodes (clause : ImportClause) :
    Encodes ImportClause.ofJson? clause.toJson clause := by
  cases clause with
  | named names =>
    have hNames := Encodes.list ImportName.encodes names
    exact .variant rfl (hNames.map ImportClause.named) fun _ => rfl
  | default name =>
    have hName := encodes_text name
    exact .variant rfl (hName.map ImportClause.default) fun _ => rfl
  | namespaced name =>
    have hName := encodes_text name
    exact .variant rfl (hName.map ImportClause.namespaced) fun _ => rfl
  | sideEffect => exact ⟨Json.isLegible_ofText _, fun _ _ => rfl⟩

/- All flags are written, also those not set. -/
theorem InterfaceMember.encodes (member : InterfaceMember) :
    Encodes InterfaceMember.ofJson? member.toJson member :=
  .record
    [ .of "name" (encodes_text member.name), .of "ty" member.type.encodes,
      .of "optional" (encodes_bool member.optional),
      .of "readonly" (encodes_bool member.readonly),
      .of "method" (encodes_bool member.method),
      .of "span" member.span.encodes ]
    InterfaceMember.mk rfl fun _ => rfl

theorem Interface.encodes (decl : Interface) :
    Encodes Interface.ofJson? decl.toJson decl :=
  .record
    [ .of "name" (encodes_text decl.name),
      .of "members" (.list InterfaceMember.encodes decl.members) ]
    Interface.mk rfl fun _ => rfl

theorem TypeAlias.encodes (decl : TypeAlias) :
    Encodes TypeAlias.ofJson? decl.toJson decl :=
  .record [ .of "name" (encodes_text decl.name), .of "ty" decl.type.encodes ]
    TypeAlias.mk rfl fun _ => rfl

/- Some parts are known by their name only. -/
theorem encodes_named (name : Text) :
    Encodes namedOfJson? (namedToJson name) name :=
  .object rfl (by simp) fun _ _ => Json.toText?_ofText name

/- Names of kinds are different, and so read back. -/
theorem VarKind.encodes (kind : VarKind) :
    Encodes VarKind.ofJson? (.ofText kind.name) kind := by
  refine encodes_unit (fun _ _ => rfl) ?_
  cases kind <;> decide +kernel

/- Checked on the list of all operators at once. -/
theorem BinaryOp.ofName?_name (op : BinaryOp) :
    BinaryOp.ofName? op.name = some op := by
  have hMem : op ∈ BinaryOp.all := by cases op <;> decide
  have hAll :
      BinaryOp.all.all (fun op => BinaryOp.ofName? op.name == some op) =
        true := by
    decide +kernel
  simpa using List.all_eq_true.mp hAll op hMem

theorem BinaryOp.encodes (op : BinaryOp) :
    Encodes BinaryOp.ofJson? (.ofText op.name) op :=
  encodes_unit (fun _ _ => rfl) op.ofName?_name

theorem UnaryOp.encodes (op : UnaryOp) :
    Encodes UnaryOp.ofJson? (.ofText op.name) op := by
  refine encodes_unit (fun _ _ => rfl) ?_
  cases op <;> decide +kernel

theorem StepOp.encodes (op : StepOp) :
    Encodes StepOp.ofJson? (.ofText op.name) op := by
  refine encodes_unit (fun _ _ => rfl) ?_
  cases op <;> decide +kernel

-----
-- Nodes
-----

section Nodes

variable {node : Node} {kind : Json} {name : Text} {expr : Expr}
variable {stmt : Stmt}

/- A node is decoded as its kind is, given its number and place. -/
theorem encodes_node
    {α : Type} {decode : Nat → Json → Option α} {ofKind? : Nat → Node → Json → Option α} {value : α}
    (hDecode : ∀ depth,
      decode (depth + 1) (nodeToJson node kind) =
        (Json.ofNat node.id.toNat).toUInt32?.bind fun id =>
          (Span.ofJson? depth node.span.toJson).bind fun span => ofKind? depth ⟨id, span⟩ kind)
    (h : Encodes (fun depth => ofKind? depth node) kind value) :
    Encodes decode (nodeToJson node kind) value := by
  have hSpan := node.span.encodes
  refine .object rfl (by simp [hSpan.legible, h.legible]) ?_
  intro depth hDepth
  simp only [List.forall_mem_cons] at hDepth
  refine (hDecode depth).trans ?_
  simp [hSpan.decoded, h.decoded, hDepth]

theorem Expr.encodes_node (h : Encodes (fun depth => exprOfKind? depth node) kind expr) :
    Encodes Expr.ofJson? (nodeToJson node kind) expr :=
  ScriptLowering.encodes_node (fun _ => rfl) h

/- As for expressions, with the decoder of statements. -/
theorem Stmt.encodes_node (h : Encodes (fun depth => stmtOfKind? depth node) kind stmt) :
    Encodes Stmt.ofJson? (nodeToJson node kind) stmt :=
  ScriptLowering.encodes_node (fun _ => rfl) h

/- Nodes without content are told by the name of their kind. -/
theorem Expr.encodes_bare (h : bareExprOfName? node name = some expr) :
    Encodes Expr.ofJson? (nodeToJson node (.ofText name)) expr := by
  refine Expr.encodes_node ⟨Json.isLegible_ofText name, ?_⟩
  intro depth _
  simp [Json.ofText, exprOfKind?, JsonText.decode?_encode, h]

/- Such are jumps and the empty statement. -/
theorem Stmt.encodes_bare (h : bareStmtOfName? node name = some stmt) :
    Encodes Stmt.ofJson? (nodeToJson node (.ofText name)) stmt := by
  refine Stmt.encodes_node ⟨Json.isLegible_ofText name, ?_⟩
  intro depth _
  simp [Json.ofText, stmtOfKind?, JsonText.decode?_encode, h]

/- A kind with parts of its own has a decoder for these. -/
theorem Expr.encodes_parts
    (hName : JsonText.isLiteral name = true)
    (hKind : ∀ depth,
      exprOfKind? (depth + 1) node (.object [(name, kind)]) = exprOfParts? depth node name kind)
    (h : Encodes (fun depth => exprOfParts? depth node name) kind expr) :
    Encodes Expr.ofJson? (nodeToJson node (Json.variant name kind))
      expr :=
  Expr.encodes_node (.variant hName h hKind)

theorem Stmt.encodes_parts
    (hName : JsonText.isLiteral name = true)
    (hKind : ∀ depth,
      stmtOfKind? (depth + 1) node (.object [(name, kind)]) = stmtOfParts? depth node name kind)
    (h : Encodes (fun depth => stmtOfParts? depth node name) kind stmt) :
    Encodes Stmt.ofJson? (nodeToJson node (Json.variant name kind))
      stmt :=
  Stmt.encodes_node (.variant hName h hKind)

end Nodes

-----
-- Lists And Declarations
-----

/- Arrays are decoded item by item. -/
theorem encodes_exprs
    {items : List Json} {exprs : List Expr} (h : List.Forall₂ (Encodes Expr.ofJson?) items exprs) :
    Encodes exprsOfJson? (.array items) exprs :=
  .array (fun _ => by rw [exprsOfJson?]) h

theorem encodes_stmts
    {items : List Json} {stmts : List Stmt} (h : List.Forall₂ (Encodes Stmt.ofJson?) items stmts) :
    Encodes stmtsOfJson? (.array items) stmts :=
  .array (fun _ => by rw [stmtsOfJson?]) h

/-
  The variables of a statement and those of a loop are
  alike.
-/
theorem encodes_vars
    (kind : VarKind) {items : List Json} {declarators : List Declarator}
    (h : List.Forall₂ (Encodes Declarator.ofJson?) items declarators) :
    Encodes varsOfJson? (.object [ ("kind", .ofText kind.name), ("declarations", .array items) ])
      (kind, declarators) :=
  .record
    [ .of "kind" kind.encodes, .of "declarations" (.array (fun _ => by rw [declaratorsOfJson?]) h) ]
    Prod.mk rfl fun _ => rfl

-----
-- Expressions And Statements
-----

/-
  No node is written as null, which stands for an absent
  one.
-/
theorem Expr.toJson_ne_null (expr : Expr) :
    expr.toJson ≠ .null := by
  cases expr <;> exact Json.noConfusion

theorem Stmt.toJson_ne_null (stmt : Stmt) :
    stmt.toJson ≠ .null := by
  cases stmt <;> exact Json.noConfusion

theorem ForInit.toJson_ne_null (init : ForInit) :
    init.toJson ≠ .null := by
  cases init <;> exact Json.noConfusion

mutual

/- An expression is decoded from what encodes it. -/
theorem Expr.encodes :
    ∀ expr : Expr, Encodes Expr.ofJson? expr.toJson expr
  | .ident node name => by
    have hName := encodes_text name
    exact Expr.encodes_node (.variant rfl (hName.map (Expr.ident node)) fun _ => rfl)
  | .number node text => by
    have hText := encodes_text text
    exact Expr.encodes_node (.variant rfl (hText.map (Expr.number node)) fun _ => rfl)
  | .bool node value => by
    have hValue := encodes_bool value
    exact Expr.encodes_node (.variant rfl (hValue.map (Expr.bool node)) fun _ => rfl)
  | .string node value => by
    have hValue := encodes_text value
    exact Expr.encodes_node (.variant rfl (hValue.map (Expr.string node)) fun _ => rfl)
  | .template node quasis exprs =>
    Expr.encodes_parts rfl (fun _ => rfl)
      (.record
        [ .of "quasis" (.list encodes_text quasis),
          .of "exprs" (encodes_exprs (encodes_each_expr exprs)) ]
        (Expr.template node) rfl fun _ => rfl)
  | .array node elements => by
    have hElements := encodes_exprs (encodes_each_expr elements)
    exact Expr.encodes_node (.variant rfl (hElements.map (Expr.array node)) fun _ => rfl)
  | .object node members => by
    have hMembers : Encodes membersOfJson? (.array _) members :=
      .array (fun _ => by rw [membersOfJson?]) (encodes_each_member members)
    exact Expr.encodes_node (.variant rfl (hMembers.map (Expr.object node)) fun _ => rfl)
  | .paren node inner => by
    have hInner := Expr.encodes inner
    exact Expr.encodes_node (.variant rfl (hInner.map (Expr.paren node)) fun _ => rfl)
  | .member node object property =>
    Expr.encodes_parts rfl (fun _ => rfl)
      (.record [ .of "object" (Expr.encodes object), .of "property" (encodes_text property) ]
        (Expr.member node) rfl fun _ => rfl)
  | .index node object index =>
    Expr.encodes_parts rfl (fun _ => rfl)
      (.record [ .of "object" (Expr.encodes object), .of "index" (Expr.encodes index) ]
        (Expr.index node) rfl fun _ => rfl)
  | .call node callee typeArgs args =>
    Expr.encodes_parts rfl (fun _ => rfl)
      (.record
        [ .of "callee" (Expr.encodes callee), .of "type_args" (.list TypeText.encodes typeArgs),
          .of "args" (encodes_exprs (encodes_each_expr args)) ]
        (Expr.call node) rfl fun _ => rfl)
  | .conditional node condition thenExpr elseExpr =>
    Expr.encodes_parts rfl (fun _ => rfl)
      (.record
        [ .of "condition" (Expr.encodes condition), .of "then_expr" (Expr.encodes thenExpr),
          .of "else_expr" (Expr.encodes elseExpr) ]
        (Expr.conditional node) rfl fun _ => rfl)
  | .assertion node inner type =>
    Expr.encodes_parts rfl (fun _ => rfl)
      (.record [ .of "expr" (Expr.encodes inner), .of "ty" type.encodes ]
        (Expr.assertion node) rfl fun _ => rfl)
  | .unary node op operand =>
    Expr.encodes_parts rfl (fun _ => rfl)
      (.record [ .of "op" op.encodes, .of "operand" (Expr.encodes operand) ]
        (Expr.unary node) rfl fun _ => rfl)
  | .step node op operand =>
    Expr.encodes_parts rfl (fun _ => rfl)
      (.record [ .of "op" op.encodes, .of "operand" (Expr.encodes operand) ]
        (Expr.step node) rfl fun _ => rfl)
  | .binary node op left right =>
    Expr.encodes_parts rfl (fun _ => rfl)
      (.record
        [ .of "op" op.encodes, .of "left" (Expr.encodes left), .of "right" (Expr.encodes right) ]
        (Expr.binary node) rfl fun _ => rfl)
  | .null node | .this node => Expr.encodes_bare rfl
  | .new node callee args =>
    Expr.encodes_parts rfl (fun _ => rfl)
      (.record
        [ .of "callee" (Expr.encodes callee), .of "args" (encodes_exprs (encodes_each_expr args)) ]
        (Expr.new node) rfl fun _ => rfl)
  | .arrow node params body =>
    Expr.encodes_parts rfl (fun _ => rfl)
      (.record
        [ .of "params" (.list Param.encodes params),
          .of "body" (encodes_stmts (encodes_each_stmt body)) ]
        (Expr.arrow node) rfl fun _ => rfl)

/- One item of the array for each expression. -/
theorem encodes_each_expr :
    ∀ exprs : List Expr, List.Forall₂ (Encodes Expr.ofJson?) (exprsToJson exprs) exprs
  | [] => .nil
  | expr :: rest => .cons (Expr.encodes expr) (encodes_each_expr rest)

/- An absent expression is null, and no other is. -/
theorem encodes_expr_option :
    ∀ expr? : Option Expr,
      Encodes (fun depth => Json.toOption? (Expr.ofJson? depth)) (exprToJson? expr?) expr?
  | none => .none
  | some expr => .some expr.toJson_ne_null (Expr.encodes expr)

/- A member is told by the name of its kind. -/
theorem ObjectMember.encodes :
    ∀ member : ObjectMember, Encodes ObjectMember.ofJson? member.toJson member
  | .property name value =>
    have hContent : Encodes propertyOfJson? _ (.property name value) :=
      .record [ .of "name" (encodes_text name), .of "value" (Expr.encodes value) ]
        ObjectMember.property rfl fun _ => rfl
    .variant rfl hContent fun _ => rfl
  | .shorthand name => .variant rfl ((encodes_named name).map ObjectMember.shorthand) fun _ => rfl
  | .spread value => .variant rfl ((Expr.encodes value).map ObjectMember.spread) fun _ => rfl
  | .method name => .variant rfl ((encodes_named name).map ObjectMember.method) fun _ => rfl

theorem encodes_each_member :
    ∀ members : List ObjectMember,
      List.Forall₂ (Encodes ObjectMember.ofJson?) (membersToJson members) members
  | [] => .nil
  | member :: rest => .cons (ObjectMember.encodes member) (encodes_each_member rest)

/- Type and initial value may both be absent. -/
theorem Declarator.encodes :
    ∀ declarator : Declarator, Encodes Declarator.ofJson? declarator.toJson declarator
  | .mk node name type? init? =>
    .record
      [ .of "id" (encodes_uint32 node.id), .of "name" (encodes_text name),
        .of "span" node.span.encodes,
        .optional "ty" (TypeText.encodes_option type?),
        .optional "init" (encodes_expr_option init?) ]
      (fun id name span => Declarator.mk ⟨id, span⟩ name)
      rfl fun _ => rfl

theorem encodes_each_declarator :
    ∀ declarators : List Declarator,
      List.Forall₂ (Encodes Declarator.ofJson?) (declaratorsToJson declarators) declarators
  | [] => .nil
  | declarator :: rest => .cons (Declarator.encodes declarator) (encodes_each_declarator rest)

/- A loop starts with variables or with an expression. -/
theorem ForInit.encodes :
    ∀ init : ForInit, Encodes ForInit.ofJson? init.toJson init
  | .vars kind declarators => by
    have hVars := encodes_vars kind (encodes_each_declarator declarators)
    exact .variant rfl (hVars.map fun vars => ForInit.vars vars.1 vars.2) fun _ => rfl
  | .expr value => .variant rfl ((Expr.encodes value).map ForInit.expr) fun _ => rfl

theorem encodes_init_option :
    ∀ init? : Option ForInit,
      Encodes (fun depth => Json.toOption? (ForInit.ofJson? depth)) (forInitToJson? init?) init?
  | none => .none
  | some init => .some init.toJson_ne_null (ForInit.encodes init)

/- A statement is decoded from what encodes it. -/
theorem Stmt.encodes :
    ∀ stmt : Stmt, Encodes Stmt.ofJson? stmt.toJson stmt
  | .function node head body? =>
    Stmt.encodes_parts rfl (fun _ => rfl)
      (.record
        [ .of "name" (encodes_text head.name), .of "params" (.list Param.encodes head.params),
          .optional "return_type" (TypeText.encodes_option head.returnType?),
          .optional "body" (encodes_body body?) ]
        (fun name params returnType? => Stmt.function node ⟨name, params, returnType?⟩)
        rfl fun _ => rfl)
  | .importFrom node specifier clause =>
    Stmt.encodes_parts rfl (fun _ => rfl)
      (.record [ .of "specifier" (encodes_text specifier), .of "clause" clause.encodes ]
        (Stmt.importFrom node) rfl fun _ => rfl)
  | .interface node decl => by
    have hDecl := decl.encodes
    exact Stmt.encodes_node (.variant rfl (hDecl.map (Stmt.interface node)) fun _ => rfl)
  | .typeAlias node decl => by
    have hDecl := decl.encodes
    exact Stmt.encodes_node (.variant rfl (hDecl.map (Stmt.typeAlias node)) fun _ => rfl)
  | .vars node kind declarators => by
    have hVars := encodes_vars kind (encodes_each_declarator declarators)
    exact Stmt.encodes_node
      (.variant rfl (hVars.map fun vars => Stmt.vars node vars.1 vars.2) fun _ => rfl)
  | .block node body => by
    have hBody := encodes_stmts (encodes_each_stmt body)
    exact Stmt.encodes_node (.variant rfl (hBody.map (Stmt.block node)) fun _ => rfl)
  | .ifElse node condition thenBranch elseBranch? =>
    Stmt.encodes_parts rfl (fun _ => rfl)
      (.record
        [ .of "condition" (Expr.encodes condition), .of "then_branch" (Stmt.encodes thenBranch),
          .optional "else_branch" (encodes_stmt_option elseBranch?) ]
        (Stmt.ifElse node) rfl fun _ => rfl)
  | .whileLoop node condition body =>
    Stmt.encodes_parts rfl (fun _ => rfl)
      (.record [ .of "condition" (Expr.encodes condition), .of "body" (Stmt.encodes body) ]
        (Stmt.whileLoop node) rfl fun _ => rfl)
  | .doLoop node condition body =>
    Stmt.encodes_parts rfl (fun _ => rfl)
      (.record [ .of "condition" (Expr.encodes condition), .of "body" (Stmt.encodes body) ]
        (Stmt.doLoop node) rfl fun _ => rfl)
  | .forLoop node init? condition? update? body =>
    Stmt.encodes_parts rfl (fun _ => rfl)
      (.record
        [ .optional "init" (encodes_init_option init?),
          .optional "condition" (encodes_expr_option condition?),
          .optional "update" (encodes_expr_option update?),
          .of "body" (Stmt.encodes body) ]
        (Stmt.forLoop node) rfl fun _ => rfl)
  | .ret node none => Stmt.encodes_node (.object rfl (by simp [exprToJson?]) fun _ _ => rfl)
  | .ret node (some value) => by
    have hValue := Expr.encodes value
    refine Stmt.encodes_node (.variant rfl (hValue.map fun value => Stmt.ret node (some value)) ?_)
    intro depth
    rw [exprToJson?]
    cases hJson : value.toJson with
    | null => exact absurd hJson value.toJson_ne_null
    | _ => rfl
  | .expr node value => by
    have hValue := Expr.encodes value
    exact Stmt.encodes_node (.variant rfl (hValue.map (Stmt.expr node)) fun _ => rfl)
  | .breakLoop node | .continueLoop node | .empty node => Stmt.encodes_bare rfl
  | .classDecl node name => by
    have hName := encodes_named name
    exact Stmt.encodes_node (.variant rfl (hName.map (Stmt.classDecl node)) fun _ => rfl)
  | .enumDecl node name => by
    have hName := encodes_named name
    exact Stmt.encodes_node (.variant rfl (hName.map (Stmt.enumDecl node)) fun _ => rfl)
  | .raise node value => by
    have hValue := Expr.encodes value
    exact Stmt.encodes_node (.variant rfl (hValue.map (Stmt.raise node)) fun _ => rfl)

theorem encodes_each_stmt :
    ∀ stmts : List Stmt, List.Forall₂ (Encodes Stmt.ofJson?) (stmtsToJson stmts) stmts
  | [] => .nil
  | stmt :: rest => .cons (Stmt.encodes stmt) (encodes_each_stmt rest)

theorem encodes_stmt_option :
    ∀ stmt? : Option Stmt,
      Encodes (fun depth => Json.toOption? (Stmt.ofJson? depth)) (stmtToJson? stmt?) stmt?
  | none => .none
  | some stmt => .some stmt.toJson_ne_null (Stmt.encodes stmt)

/- No body is something else than an empty one. -/
theorem encodes_body :
    ∀ body? : Option (List Stmt),
      Encodes (fun depth => Json.toOption? (stmtsOfJson? depth)) (bodyToJson? body?) body?
  | none => .none
  | some body => .some Json.noConfusion (encodes_stmts (encodes_each_stmt body))

end

-----
-- Programs
-----

/- A unit is written with its source text. -/
theorem SourceUnit.encodes (unit : SourceUnit) :
    Encodes SourceUnit.ofJson? unit.toJson unit :=
  .record
    [ .of "path" (encodes_text unit.path), .of "source" (encodes_text unit.source),
      .of "statements" (encodes_stmts (encodes_each_stmt unit.statements)) ]
    SourceUnit.mk rfl fun _ => rfl

/- A module is a unit of the program or the native one. -/
theorem ModuleTarget.encodes (target : ModuleTarget) :
    Encodes ModuleTarget.ofJson? target.toJson target := by
  cases target with
  | unit id =>
    have hUnit := encodes_uint32 id
    exact .variant rfl (hUnit.map ModuleTarget.unit) fun _ => rfl
  | native => exact ⟨Json.isLegible_ofText _, fun _ _ => rfl⟩

/- A link names the unit that imports by its number. -/
theorem ModuleLink.encodes (link : ModuleLink) :
    Encodes ModuleLink.ofJson? link.toJson link :=
  .record
    [ .of "from" (encodes_uint32 link.importer), .of "specifier" (encodes_text link.specifier),
      .of "target" link.target.encodes ]
    ModuleLink.mk rfl fun _ => rfl

/- A larger number goes to the end. -/
theorem insertEntry_of_lt
    {id : NodeId} {type : Text} {entries : List (NodeId × Text)}
    (h : ∀ entry ∈ entries, entry.1 < id) :
    insertEntry id type entries = entries ++ [(id, type)] := by
  induction entries with
  | nil => rfl
  | cons head _ ih =>
    have hHead := h head (by simp)
    have hRest := ih fun entry hMem => h entry (by simp [hMem])
    have hNotBelow : ¬ id < head.1 := UInt32.lt_asymm hHead
    have hNe : ¬ id = head.1 := (UInt32.ne_of_lt hHead).symm
    simp [insertEntry, hNotBelow, hNe, hRest]

/- Entries in order make up the table that they come from. -/
theorem NodeTypes.entries_foldl_insert
    (entries : List (NodeId × Text)) (types : NodeTypes)
    (h : (types.entries ++ entries).Pairwise fun a b => a.1 < b.1) :
    (entries.foldl (fun types entry => types.insert entry.1 entry.2) types).entries =
      types.entries ++ entries := by
  induction entries generalizing types with
  | nil => simp
  | cons entry _ ih =>
    have hBelow : ∀ other ∈ types.entries, other.1 < entry.1 :=
      fun other hMem => (List.pairwise_append.mp h).2.2 other hMem entry (by simp)
    have hInsert : (types.insert entry.1 entry.2).entries = types.entries ++ [entry] :=
      insertEntry_of_lt hBelow
    rw [List.foldl_cons, ih]
    · simp [hInsert]
    · simpa [hInsert] using h

/- Tables are ordered, so their entries determine them. -/
theorem NodeTypes.ofList_entries (types : NodeTypes) :
    NodeTypes.ofList types.entries = types := by
  have hEntries : (NodeTypes.ofList types.entries).entries = types.entries :=
    NodeTypes.entries_foldl_insert types.entries NodeTypes.empty types.ordered
  generalize NodeTypes.ofList types.entries = table at hEntries ⊢
  cases table
  cases types
  cases hEntries
  rfl

/- Nodes are keys, in decimal. -/
theorem nodeIdOfKey?_ofNat (id : NodeId) :
    nodeIdOfKey? (Text.ofNat id.toNat) = some id := by
  have hRead := JsonText.readNumber?_ofInt id.toNat
  have hKey : JsonText.ofInt id.toNat = Text.ofNat id.toNat := rfl
  rw [nodeIdOfKey?, ← hKey, hRead]
  exact Json.toUInt32?_ofNat id

/- Digits stand for themselves inside quotes. -/
theorem JsonText.escape_of_isDigit {c : Char} (h : c.isDigit = true) :
    escape c = [c] := by
  have hLetter : escapeLetter? c = none := by
    unfold escapeLetter?
    split
    case h_8 => rfl
    all_goals cases h
  have hSize : ¬ c.toNat < 0x20 := by
    simp only [Char.isDigit, Bool.and_eq_true, decide_eq_true_eq] at h
    have hLower : 48 ≤ c.toNat := h.1
    omega
  simp [escape, hLetter, hSize]

/- Decimal keys need no escapes. -/
theorem JsonText.isLiteral_ofNat (n : Nat) :
    isLiteral (Text.ofNat n) = true := by
  have hEncode : encode (Text.ofNat n) = Text.ofNat n := by
    have hEach : ∀ c ∈ Text.ofNat n, escape c = [c] := fun _ hMem =>
      escape_of_isDigit (Text.isDigit_of_mem_ofNat hMem)
    rw [encode, List.flatMap_congr hEach]
    simp
  rw [← hEncode]
  exact isLiteral_encode _

/-
  The table is an object with nodes as names, read back
  entry by entry into an ordered table.
-/
theorem NodeTypes.encodes (types : NodeTypes) :
    Encodes NodeTypes.ofJson? types.toJson types := by
  constructor
  · rw [NodeTypes.toJson, Json.isLegible_object, List.forall_mem_map]
    intro entry _
    exact ⟨JsonText.isLiteral_ofNat _, Json.isLegible_ofText _⟩
  · intro depth hDepth
    rw [NodeTypes.toJson, Json.depth] at hDepth
    have hEach :
        List.Forall₂
          (fun (member : Text × Json) (entry : NodeId × Text) =>
            nodeIdOfKey? member.1 = some entry.1 ∧ member.2.toText? = some entry.2)
          (types.entries.map fun entry => (Text.ofNat entry.1.toNat, .ofText entry.2))
          types.entries := by
      rw [List.forall₂_map_left_iff, List.forall₂_same]
      intro entry _
      exact ⟨nodeIdOfKey?_ofNat _, Json.toText?_ofText _⟩
    cases depth with
    | zero => cases hDepth
    | succ =>
      rw [NodeTypes.toJson, NodeTypes.ofJson?, mapM_eq_some (hEach.imp ?_)]
      · simp [NodeTypes.ofList_entries]
      · intro member entry hEntry
        simp [hEntry]

/- All parts together; a missing entry unit is null. -/
theorem Program.encodes (program : Program) :
    Encodes Program.ofJson? program.toJson program :=
  .record
    [ .of "units" (.list SourceUnit.encodes program.units),
      .optional "entry" (.option (fun _ => Json.noConfusion) encodes_uint32 program.entry?),
      .of "types" program.types.encodes,
      .of "modules" (.list ModuleLink.encodes program.links) ]
    Program.mk rfl fun _ => rfl

/-
  A program whose text nests arrays and objects no deeper
  than the reader allows is read back from its text.
-/
theorem Program.read?_render_toJson
    (program : Program) (h : program.toJson.depth ≤ maxProgramDepth) :
    Program.read? program.toJson.render = some program := by
  have hEncodes := program.encodes
  rw [Program.read?, Json.read?_render hEncodes.legible]
  exact hEncodes.decoded maxProgramDepth h

/-
  A program with the largest numbers, with characters that
  are escaped and others that need several bytes, with
  absent parts, and with an empty template.
-/
def wideProgram : Program where
  units :=
    [ { path := "a\"b.ts"
        source := "\x01 \n😀"
        statements :=
          [ .function ⟨4294967295, ⟨0, 18446744073709551615⟩⟩
              ⟨"é", [⟨⟨0, ⟨1, 0⟩⟩, "\\", none⟩], none⟩
              (some
                [ .ret ⟨1, ⟨0, 0⟩⟩ (some (.template ⟨2, ⟨0, 0⟩⟩ [""] [])),
                  .forLoop ⟨3, ⟨0, 0⟩⟩ none none none (.breakLoop ⟨4, ⟨0, 0⟩⟩) ]) ] } ]
  entry? := none
  types := NodeTypes.ofList [(4294967295, "u8"), (0, "string")]
  links := [⟨0, "./b", .unit 7⟩, ⟨0, "TypeSlang", .native⟩]

theorem wideProgram_read_back :
    wideProgram.toJson.depth ≤ maxProgramDepth ∧
      Program.read? wideProgram.toJson.render = some wideProgram :=
  ⟨by decide +kernel, Program.read?_render_toJson wideProgram (by decide +kernel)⟩

end ScriptLowering
