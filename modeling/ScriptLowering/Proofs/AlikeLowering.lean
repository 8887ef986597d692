import ScriptLowering.Proofs.PairedActions

/-
  Lowering in two places at once: a statement at its own
  site, and the same statement without spans at another site.
  Where the checker inferred the same types, both are made of
  the same actions, so they do the same to the state and give
  the same result. If they fail, they fail for the same
  reason, and the first failure is placed at its own site, at
  the span of a node of the statement or nowhere. If they do
  not, then all parts of the statement are supported. And if
  no type has to be read off a shape, then what they do goes
  by the view of the state.

  Key theorems include:
    * `paired_lowerTopLevel`
    * `alike_register`
    * `determined_lowerFunction`
-/

namespace ScriptLowering

open LowerM List

variable {twins : Twins} {adds : Bool}

-----
-- Shared Nodes
-----

/-
  A node at a span of a certain kind for which the checker
  inferred the same at both sites.
-/
structure SharedNode (twins : Twins) (node : Node) : Prop where
  placed : twins.placed node.span
  type_eq :
    twins.right.program.types.get? node.id = twins.left.program.types.get? node.id

/-
  A part with shared nodes; what has no place is nowhere. No
  shape is read if lowering must go by the view.
-/
structure Shared (twins : Twins) (part : Part) : Prop where
  nodes : ∀ node ∈ part.nodes, SharedNode twins node
  nowhere : part.isPlaceless = true → twins.placed Span.nowhere
  shapeless :
    twins.strict → part.IsShapeless twins.left.program.types

section Shared

theorem Shared.expr {expr : Expr} (h : Shared twins (.expr expr)) :
    SharedNode twins expr.node :=
  h.nodes _ expr.node_mem_nodes

theorem Shared.declarator {declarator : Declarator} (h : Shared twins (.declarator declarator)) :
    SharedNode twins declarator.node :=
  h.nodes _ mem_cons_self

theorem Shared.stmt {stmt : Stmt} (h : Shared twins (.stmt stmt)) :
    SharedNode twins stmt.node :=
  h.nodes _ stmt.node_mem_nodes

theorem SharedNode.inferredType_eq {node : Node} (h : SharedNode twins node) (subject : Text) :
    inferredType twins.right.program.types node.unplaced.id subject =
      inferredType twins.left.program.types node.id subject := by
  unfold inferredType
  rw [node.id_unplaced, h.type_eq]

theorem SharedNode.declaredType_eq
    {node : Node} (h : SharedNode twins node) (type? : Option TypeText) :
    declaredType twins.right.program.types node.unplaced.id (type?.map TypeText.unplaced) =
      declaredType twins.left.program.types node.id type? := by
  cases type? with
  | none => exact h.inferredType_eq _
  | some => rfl

/- The type of an expression goes by its nodes only. -/
theorem Expr.type_unplaced
    (scope : ScopeChain) (expr : Expr) (h : EveryPart (Shared twins) expr.parts) :
    expr.unplaced.type twins.right.program.types scope =
      expr.type twins.left.program.types scope := by
  have hNode := h.head.expr
  have hInner := h.tail
  cases expr with
  | assertion _ inner =>
    have hSame := type_unplaced scope inner hInner
    exact ite_congr rfl (fun _ => hSame) fun _ => rfl
  | paren _ inner => exact type_unplaced scope inner hInner
  | ident node name =>
    have hSame := hNode.inferredType_eq name
    simp only [Expr.node] at hSame
    simp only [Expr.unplaced, Expr.type, hSame]
  | call _ callee _ args =>
    cases args with
    | nil => exact hNode.inferredType_eq _
    | cons operand rest =>
      cases rest with
      | nil =>
        rcases hInner.of_append with ⟨_, hArgs⟩
        have hOperand := Expr.type_unplaced scope operand hArgs.of_append.1
        refine ite_congr ?_ ?_ fun _ => hNode.inferredType_eq _
        · rw [callee.isPointerCallee_unplaced]
        · intro _
          rw [hOperand]
      | cons => exact hNode.inferredType_eq _
  | _ => exact hNode.inferredType_eq _

theorem callKind_unplaced
    (scope : ScopeChain) (callee : Expr) (args : List Expr)
    (h : EveryPart (Shared twins) callee.parts) :
    callKind twins.right.program.types scope callee.unplaced (exprsUnplaced args) =
      callKind twins.left.program.types scope callee args := by
  unfold callKind
  rw [callee.isPointerCallee_unplaced, length_exprsUnplaced]
  cases callee with
  | member _ receiver =>
    simp only [Expr.unplaced, conversionKind, radixOf_unplaced,
      Expr.type_unplaced scope receiver h.tail]
  | _ => rfl

end Shared

-----
-- Expressions
-----

section Expressions

variable {span : Span}

/- A written type, or the one that the checker inferred. -/
theorem paired_declaredType
    (type? : Option TypeText) {node : Node} (h : SharedNode twins node)
    (hTexts :
      twins.strict →
        ∀ text ∈ declaredTexts twins.left.program.types node.id type?, text.IsShapeless) :
    Paired twins adds Anything
      (typed twins.left node.span (declaredType twins.left.program.types node.id type?))
      (typed twins.right node.unplaced.span
        (declaredType twins.right.program.types node.unplaced.id
          (type?.map TypeText.unplaced))) := by
  rw [h.declaredType_eq]
  cases type? with
  | some => exact .canonical h.placed _ fun hStrict => hTexts hStrict _ mem_cons_self
  | none =>
    unfold declaredType inferredType
    unfold declaredTexts NodeTypes.textsOf at hTexts
    generalize twins.left.program.types.get? node.id = inferred? at hTexts
    cases inferred? with
    | some => exact .canonical h.placed _ fun hStrict => hTexts hStrict _ mem_cons_self
    | none => exact .fail h.placed _ _

/- The type of an array literal is inferred, or it is expected. -/
theorem paired_arrayType
    (context : ValueContext) {node : Node} {elements : List Expr}
    (h : EveryPart (Shared twins) (Expr.array node elements).parts) :
    Paired twins adds Anything (arrayType twins.left context (.array node elements))
      (arrayType twins.right context (Expr.array node elements).unplaced) := by
  have hInferred :
      Paired twins adds Anything (exprType twins.left node.span (.array node elements) >>= pure)
        (exprType twins.right node.unplaced.span (Expr.array node elements).unplaced >>= pure) := by
    refine .typeOf h.head.expr.placed _ ?_ h.head.shapeless ?_ fun _ => .pure trivial
    · exact fun scope => Expr.type_unplaced scope _ h
    · exact fun _ hUnbound => absurd nofun hUnbound
  rw [bind_pure, bind_pure] at hInferred
  unfold arrayType
  cases context.expected? with
  | none => exact hInferred
  | some => exact .ite (fun _ => .pure trivial) fun _ => hInferred

theorem paired_writtenType
    (hSpan : twins.placed span) (other : Span) {type : TypeText}
    (hText : twins.strict → type.text.IsShapeless) :
    Paired twins adds Anything (writtenType twins.left span type)
      (writtenType twins.right other type.unplaced) := by
  refine (Paired.canonical hSpan other hText).bind fun decided _ => ?_
  exact (Paired.markUsed decided).bind fun _ _ => .pure trivial

theorem paired_writtenTypes
    (hSpan : twins.placed span) (other : Span) {types : List TypeText}
    (hTexts : twins.strict → ∀ text ∈ types.map TypeText.text, text.IsShapeless) :
    Paired twins adds Anything (writtenTypes twins.left span types)
      (writtenTypes twins.right other (types.map TypeText.unplaced)) := by
  induction types with
  | nil => exact .pure trivial
  | cons _ _ ih =>
    have hText := fun hStrict => hTexts hStrict _ mem_cons_self
    have hRest := fun hStrict text hText => hTexts hStrict text (mem_cons_of_mem _ hText)
    refine (paired_writtenType hSpan other hText).bind fun first _ => ?_
    exact (ih hRest).bind fun types _ => .pure trivial

theorem paired_markAssigned
    (op : BinaryOp) (target : Expr) (h : EveryPart (Shared twins) target.parts) :
    Paired twins adds Anything (markAssigned twins.left op target)
      (markAssigned twins.right op target.unplaced) := by
  have hSpan := h.head.expr.placed
  cases target with
  | ident _ name =>
    cases op with
    | assign => exact .markInitialized hSpan _ name
    | _ => exact .pure trivial
  | _ => cases op <;> exact .pure trivial

/- A pointer is made behind the type of its operand. -/
theorem paired_pointer
    {node : Node} {callee operand : Expr} {typeArgs : List TypeText} {told : Target.Expr → Prop}
    (hPointer : callee.isPointerCallee = true)
    (h : EveryPart (Shared twins) (Expr.call node callee typeArgs [operand]).parts)
    (hOperand :
      Paired twins adds (fun _ => ∀ value, told value)
        (lowerExpr twins.left ValueContext.plain operand)
        (lowerExpr twins.right ValueContext.plain operand.unplaced)) :
    Paired twins adds told
      (do
        let type ← exprType twins.left node.span (.call node callee typeArgs [operand])
        markUsed type
        let operand ← lowerExpr twins.left ValueContext.plain operand
        return Target.Expr.addressOf type operand)
      (do
        let type ←
          exprType twins.right node.unplaced.span
            (Expr.call node callee typeArgs [operand]).unplaced
        markUsed type
        let operand ← lowerExpr twins.right ValueContext.plain operand.unplaced
        return Target.Expr.addressOf type operand) := by
  refine .typeOf h.head.expr.placed _ ?_ ?_ ?_ ?_
  · exact fun scope => Expr.type_unplaced scope _ h
  · intro hStrict text hText
    apply h.head.shapeless hStrict
    simp only [Expr.typeTexts, if_pos hPointer] at hText
    simp only [Part.typeTexts, Expr.pointerOperand?, if_pos hPointer]
    simp [hText]
  · intro state hUnbound
    simp only [Expr.HasBoundSubject, Expr.subjectName?, if_pos hPointer] at hUnbound
    apply fails_address
    intro last hScope
    apply fails_lowerExpr _ _ operand
    rw [hScope]
    exact hUnbound
  · intro type
    refine (Paired.markUsed type).bind fun _ _ => ?_
    exact hOperand.bind fun _ hTold => .pure (hTold _)

/- A call is lowered by its kind, which is the same. -/
theorem paired_call
    {context : ValueContext} {node : Node} {callee : Expr} {typeArgs : List TypeText}
    {args : List Expr} (h : EveryPart (Shared twins) (Expr.call node callee typeArgs args).parts)
    (hReceiver :
      Option.Rel (Paired twins adds (Supports callee.parts)) (lowerReceiver? twins.left callee)
        (lowerReceiver? twins.right callee.unplaced))
    (hFirst :
      Option.Rel (Paired twins adds fun value => args.length ≤ 1 → Supports (exprsParts args) value)
        (lowerFirst? twins.left args)
        (lowerFirst? twins.right (exprsUnplaced args)))
    (hCallee :
      Paired twins adds (Supports callee.parts) (lowerExpr twins.left ValueContext.callee callee)
        (lowerExpr twins.right ValueContext.callee callee.unplaced))
    (hArgs :
      Paired twins adds (Supports (exprsParts args)) (lowerExprs twins.left ValueContext.plain args)
        (lowerExprs twins.right ValueContext.plain (exprsUnplaced args))) :
    Paired twins adds (Supports (Expr.call node callee typeArgs args).parts)
      (lowerExpr twins.left context (.call node callee typeArgs args))
      (lowerExpr twins.right context (Expr.call node callee typeArgs args).unplaced) := by
  have hSpan := h.head.expr.placed
  have hParts := h.tail.of_append.1
  have hCall (hCallee : EveryPart Part.Supported callee.parts)
      (hArgs : EveryPart Part.Supported (exprsParts args)) :
      EveryPart Part.Supported (Expr.call node callee typeArgs args).parts :=
    .cons rfl (.append hCallee hArgs)
  have hFails := fun receiver hReceiver (state : LowerState) =>
    @fails_call state twins.left args context node callee receiver typeArgs hReceiver
  simp only [lowerExpr] at hFails
  simp only [Expr.unplaced, lowerExpr]
  refine .kindOf hSpan _ ?_ ?_ hFails ?_
  · exact fun scope => callKind_unplaced scope callee args hParts
  · intro hStrict receiver hSome
    cases callee with
    | member =>
      cases hSome
      exact hParts.head.shapeless hStrict
    | _ => cases hSome
  intro kind hFits
  have hTexts : twins.strict → ∀ text ∈ typeArgs.map TypeText.text, text.IsShapeless :=
    fun hStrict text hText => h.head.shapeless hStrict text (mem_append_right _ hText)
  have hOrdinary :
      Paired twins adds (Supports (Expr.call node callee typeArgs args).parts)
        (do
          let function ← lowerExpr twins.left ValueContext.callee callee
          let types ← writtenTypes twins.left node.span typeArgs
          let values ← lowerExprs twins.left ValueContext.plain args
          return Target.Expr.call function types values)
        (do
          let function ←
            lowerExpr twins.right ValueContext.callee callee.unplaced
          let types ←
            writtenTypes twins.right node.unplaced.span (typeArgs.map TypeText.unplaced)
          let values ←
            lowerExprs twins.right ValueContext.plain (exprsUnplaced args)
          return Target.Expr.call function types values) := by
    refine hCallee.bind fun function hCallee => ?_
    refine (paired_writtenTypes hSpan _ hTexts).bind fun types _ => ?_
    exact hArgs.bind fun _ hArgs => .pure (hCall hCallee hArgs)
  cases kind with
  | ordinary => exact hOrdinary
  | pointer =>
    rcases hFits with ⟨hPointer, hLength⟩
    rcases length_eq_one_iff.mp hLength with ⟨operand, rfl⟩
    cases hFirst with
    | some hOperand =>
      refine paired_pointer hPointer h (hOperand.mono fun _ hArgs _ => ?_)
      exact hCall (supported_of_isPointerCallee hPointer) (hArgs (Nat.le_of_eq hLength))
  | numberToString radix =>
    generalize lowerReceiver? twins.left callee = receiver? at hReceiver ⊢
    generalize lowerReceiver? twins.right callee.unplaced = other? at hReceiver ⊢
    generalize lowerFirst? twins.left args = first? at hFirst ⊢
    generalize lowerFirst? twins.right (exprsUnplaced args) = next? at hFirst ⊢
    cases hReceiver with
    | none => cases radix <;> exact hOrdinary
    | some hNumber =>
      cases radix with
      | default | literal =>
        refine hNumber.bind fun _ hCallee => .pure (hCall hCallee ?_)
        exact supported_of_radixOf hFits.1 hFits.2 (by simp)
      | dynamic =>
        cases hFirst with
        | none => exact hOrdinary
        | some hRadix =>
          refine hNumber.bind fun number hCallee => ?_
          exact hRadix.bind fun _ hArgs => .pure (hCall hCallee (hArgs hFits.1))

mutual

theorem paired_lowerExpr
    (context : ValueContext) (expr : Expr) (h : EveryPart (Shared twins) expr.parts) :
    Paired twins adds (Supports expr.parts) (lowerExpr twins.left context expr)
      (lowerExpr twins.right context expr.unplaced) := by
  have hSpan := h.head.expr.placed
  have hInner := h.tail
  cases expr with
  | ident _ name =>
    refine (Paired.qualified hSpan _ name).bind fun emitted _ => ?_
    exact .pure (.cons rfl .nil)
  | number | bool | string => exact .pure (.cons rfl .nil)
  | template _ _ exprs =>
    refine (paired_lowerExprs _ exprs hInner).bind fun values hParts => ?_
    exact .pure (.cons rfl hParts)
  | array node elements =>
    refine (paired_arrayType context h).bind fun type _ => ?_
    cases type.arrayElement? with
    | none => exact .fail hSpan _ _
    | some =>
      refine (Paired.markUsed type).bind fun _ _ => ?_
      refine (paired_lowerExprs _ elements hInner).bind fun lowered hParts => ?_
      exact .pure (.cons rfl hParts)
  | object _ members =>
    refine (paired_lowerMembers members hInner).bind fun fields hParts => ?_
    exact .pure (.cons rfl hParts)
  | paren _ inner | step _ _ inner =>
    refine (paired_lowerExpr _ inner hInner).bind fun lowered hParts => ?_
    exact .pure (.cons rfl hParts)
  | member node object =>
    refine .typeOf hInner.head.expr.placed _ ?_ h.head.shapeless ?_ fun type => ?_
    · exact fun scope => Expr.type_unplaced scope object hInner
    · exact fun _ hUnbound => @fails_member _ _ context node _ _ hUnbound
    · refine (paired_lowerExpr _ object hInner).bind fun lowered hParts => ?_
      exact .pure (.cons rfl hParts)
  | index _ object index =>
    rcases hInner.of_append with ⟨hObject, hIndex⟩
    refine (paired_lowerExpr _ object hObject).bind fun first hObject => ?_
    refine (paired_lowerExpr _ index hIndex).bind fun second hIndex => ?_
    exact .pure (.cons rfl (.append hObject hIndex))
  | call _ callee _ args =>
    rcases hInner.of_append with ⟨hParts, hArgs⟩
    exact paired_call h (paired_lowerReceiver? callee hParts) (paired_lowerFirst? args hArgs)
      (paired_lowerExpr ValueContext.callee callee hParts)
      (paired_lowerExprs ValueContext.plain args hArgs)
  | conditional _ condition thenExpr elseExpr =>
    rcases hInner.of_append with ⟨hFront, hElse⟩
    rcases hFront.of_append with ⟨hCondition, hThen⟩
    refine (paired_lowerExpr _ condition hCondition).bind fun first hCondition => ?_
    refine (paired_lowerExpr _ thenExpr hThen).bind fun second hThen => ?_
    refine (paired_lowerExpr _ elseExpr hElse).bind fun third hElse => ?_
    refine .pure (.cons rfl (.append ?_ hElse))
    exact .append hCondition hThen
  | assertion _ inner written =>
    simp only [Expr.unplaced, lowerExpr]
    refine .ite (fun _ => ?_) fun hConst => ?_
    · exact (paired_lowerExpr context inner hInner).mono fun _ hParts => .cons rfl hParts
    · have hText : twins.strict → written.text.IsShapeless := by
        intro hStrict
        apply h.head.shapeless hStrict
        rw [Part.typeTexts, if_neg hConst]
        exact mem_cons_self
      refine (paired_writtenType hSpan _ hText).bind fun type _ => ?_
      simp only [floatLiteral?_unplaced, Expr.isCompound_unplaced]
      cases hLiteral : floatLiteral? type inner with
      | some =>
        have hParts := supported_of_floatLiteral? hLiteral
        exact .pure (.cons rfl hParts)
      | none =>
        refine (paired_lowerExpr _ inner hInner).bind fun lowered hParts => ?_
        exact .pure (.cons rfl hParts)
  | unary _ op operand =>
    simp only [Expr.unplaced, lowerExpr]
    cases hTarget : op.target? with
    | none => exact .fail hSpan _ _
    | some =>
      refine (paired_lowerExpr _ operand hInner).bind fun lowered hParts => ?_
      rw [Expr.isUnary_unplaced]
      refine .pure (.cons ?_ hParts)
      simp [Part.Supported, Part.isSupported, hTarget]
  | binary _ op first second =>
    rcases hInner.of_append with ⟨hFirst, hSecond⟩
    simp only [Expr.unplaced, lowerExpr]
    cases hTarget : op.target? with
    | none => exact .fail hSpan _ _
    | some =>
      refine (paired_lowerExpr _ first hFirst).bind fun lowered hLeft => ?_
      refine .look ?_ fun state => ?_
      · intro _ state other hView
        rw [assignedContext_congr hView]
      rw [assignedContext_unplaced]
      refine (paired_lowerExpr _ second hSecond).bind fun value hRight => ?_
      refine (paired_markAssigned op first hFirst).bind fun _ _ => ?_
      refine .pure (.cons ?_ (.append hLeft hRight))
      simp [Part.Supported, Part.isSupported, hTarget]
  | null | this | new | arrow => exact .fail hSpan _ _

theorem paired_lowerReceiver? (expr : Expr) (h : EveryPart (Shared twins) expr.parts) :
    Option.Rel (Paired twins adds (Supports expr.parts)) (lowerReceiver? twins.left expr)
      (lowerReceiver? twins.right expr.unplaced) := by
  have hInner := h.tail
  cases expr with
  | member _ object =>
    exact .some ((paired_lowerExpr _ object hInner).mono fun _ hParts => .cons rfl hParts)
  | _ => exact .none

theorem paired_lowerFirst? (exprs : List Expr) (h : EveryPart (Shared twins) (exprsParts exprs)) :
    Option.Rel (Paired twins adds fun value => exprs.length ≤ 1 → Supports (exprsParts exprs) value)
      (lowerFirst? twins.left exprs)
      (lowerFirst? twins.right (exprsUnplaced exprs)) := by
  cases exprs with
  | nil => exact .none
  | cons expr rest =>
    rcases h.of_append with ⟨hExpr, _⟩
    apply Option.Rel.some
    apply (paired_lowerExpr _ expr hExpr).mono
    intro _ hParts hLength
    have hRest : rest = [] :=
      eq_nil_of_length_eq_zero (Nat.le_zero.mp (Nat.le_of_succ_le_succ hLength))
    rw [hRest]
    exact .append hParts .nil

theorem paired_lowerExprs
    (context : ValueContext) (exprs : List Expr) (h : EveryPart (Shared twins) (exprsParts exprs)) :
    Paired twins adds (Supports (exprsParts exprs)) (lowerExprs twins.left context exprs)
      (lowerExprs twins.right context (exprsUnplaced exprs)) := by
  cases exprs with
  | nil => exact .pure .nil
  | cons expr rest =>
    rcases h.of_append with ⟨hExpr, hRest⟩
    refine (paired_lowerExpr context expr hExpr).bind fun first hFirst => ?_
    refine (paired_lowerExprs context rest hRest).bind fun lowered hRest => ?_
    exact .pure (.append hFirst hRest)

theorem paired_lowerMembers
    (members : List ObjectMember) (h : EveryPart (Shared twins) (membersParts members)) :
    Paired twins adds (Supports (membersParts members)) (lowerMembers twins.left members)
      (lowerMembers twins.right (membersUnplaced members)) := by
  cases members with
  | nil => exact .pure .nil
  | cons member rest =>
    rcases h.of_append with ⟨hMember, hRest⟩
    have hInner := hMember.tail
    cases member with
    | property _ value =>
      refine (paired_lowerExpr _ value hInner).bind fun first hValue => ?_
      refine (paired_lowerMembers rest hRest).bind fun fields hRest => ?_
      refine .pure (.append ?_ hRest)
      exact .cons rfl hValue
    | shorthand name =>
      have hNowhere := hMember.head.nowhere rfl
      refine (Paired.qualified hNowhere _ name).bind fun emitted _ => ?_
      refine (paired_lowerMembers rest hRest).bind fun fields hRest => ?_
      refine .pure (.append ?_ hRest)
      exact .cons rfl .nil
    | spread =>
      have hValue := hInner.head.expr
      exact .fail hValue.placed _ _
    | method =>
      have hNowhere := hMember.head.nowhere rfl
      exact .fail hNowhere _ _

end

theorem paired_lowerExpr?
    (context : ValueContext) (expr? : Option Expr)
    (h : EveryPart (Shared twins) (exprParts? expr?)) :
    Paired twins adds (Supports (exprParts? expr?)) (lowerExpr? twins.left context expr?)
      (lowerExpr? twins.right context (exprUnplaced? expr?)) := by
  cases expr? with
  | none => exact .pure .nil
  | some expr =>
    refine (paired_lowerExpr context expr h).bind fun lowered hParts => ?_
    exact .pure hParts

end Expressions

-----
-- Declarators
-----

section Statements

theorem paired_bindDeclarator
    (hOrigin : twins.right.origin? = twins.left.origin?) (declarator : Declarator)
    (h : Shared twins (.declarator declarator)) :
    Paired twins true Anything (bindDeclarator twins.left declarator)
      (bindDeclarator twins.right declarator.unplaced) := by
  rcases declarator with ⟨node, name, type?, _⟩
  have hNode : SharedNode twins node := h.declarator
  unfold bindDeclarator
  rw [hOrigin]
  refine (paired_declaredType type? hNode h.shapeless).bind fun type _ => ?_
  refine .look ?_ fun state => ?_
  · intro _ state other hView
    rw [state.scope.isRoot_eq_view, other.scope.isRoot_eq_view, hView]
  refine (Paired.declare hNode.placed _ name type _).bind fun _ _ => ?_
  exact .pure trivial

theorem paired_lowerDeclarator
    (type : TypeName) (declarator : Declarator)
    (h : EveryPart (Shared twins) (.declarator declarator :: declarator.inner)) :
    Paired twins adds (Supports (.declarator declarator :: declarator.inner))
      (lowerDeclarator twins.left type declarator)
      (lowerDeclarator twins.right type declarator.unplaced) := by
  have hSpan := h.head.declarator.placed
  have hInner := h.tail
  rcases declarator with ⟨_, name, _, init?⟩
  refine (Paired.qualified hSpan _ name).bind fun emitted _ => ?_
  cases init? with
  | none => exact .pure (.cons rfl .nil)
  | some init =>
    refine (paired_lowerExpr _ init hInner).bind fun value hParts => ?_
    refine (Paired.markInitialized hSpan _ name).bind fun _ _ => ?_
    exact .pure (.cons rfl hParts)

theorem paired_lowerVars
    (hOrigin : twins.right.origin? = twins.left.origin?) (declarators : List Declarator)
    (h : EveryPart (Shared twins) (declaratorsParts declarators)) :
    Paired twins true (Supports (declaratorsParts declarators)) (lowerVars twins.left declarators)
      (lowerVars twins.right (declaratorsUnplaced declarators)) := by
  induction declarators with
  | nil => exact .pure .nil
  | cons declarator _ ih =>
    rcases h.of_append with ⟨hFirst, hRest⟩
    have hName := hFirst.head
    refine (paired_bindDeclarator hOrigin declarator hName).bind fun type _ => ?_
    refine (paired_lowerDeclarator type declarator hFirst).bind fun lowered hFirst => ?_
    exact (ih hRest).bind fun _ hRest => .pure (.append hFirst hRest)

theorem paired_lowerSameType
    (hOrigin : twins.right.origin? = twins.left.origin?) (first : TypeName)
    (declarators : List Declarator) (h : EveryPart (Shared twins) (declaratorsParts declarators)) :
    Paired twins true (Supports (declaratorsParts declarators))
      (lowerSameType twins.left first declarators)
      (lowerSameType twins.right first (declaratorsUnplaced declarators)) := by
  induction declarators with
  | nil => exact .pure .nil
  | cons declarator _ ih =>
    rcases h.of_append with ⟨hFirst, hRest⟩
    have hName := hFirst.head
    refine (paired_bindDeclarator hOrigin declarator hName).bind fun type _ => ?_
    refine .ite (fun _ => ?_) fun _ => ?_
    · refine (paired_lowerDeclarator type declarator hFirst).bind fun lowered hFirst => ?_
      exact (ih hRest).bind fun _ hRest => .pure (.append hFirst hRest)
    · exact .fail hName.declarator.placed _ _

theorem paired_lowerForInit
    (hOrigin : twins.right.origin? = twins.left.origin?) (init? : Option ForInit)
    (h : EveryPart (Shared twins) (forInitParts? init?)) :
    Paired twins true (Supports (forInitParts? init?)) (lowerForInit twins.left init?)
      (lowerForInit twins.right (forInitUnplaced? init?)) := by
  cases init? with
  | none => exact .pure .nil
  | some init =>
    cases init with
    | expr value =>
      refine (paired_lowerExpr _ value h).bind fun lowered hParts => ?_
      exact .pure hParts
    | vars _ declarators =>
      cases declarators with
      | nil => exact .pure .nil
      | cons declarator rest =>
        rcases h.of_append with ⟨hFirst, hRest⟩
        have hName := hFirst.head
        refine (paired_bindDeclarator hOrigin declarator hName).bind fun type _ => ?_
        refine (paired_lowerDeclarator type declarator hFirst).bind fun lowered hFirst => ?_
        refine (paired_lowerSameType hOrigin type rest hRest).bind fun vars hRest => ?_
        exact .pure (.append hFirst hRest)

-----
-- Statements
-----

mutual

theorem paired_lowerStmt
    (hOrigin : twins.right.origin? = twins.left.origin?) (returnType? : Option TypeName)
    (isBody : Bool) (stmt : Stmt) (h : EveryPart (Shared twins) stmt.parts) :
    Paired twins true (Supports stmt.parts) (lowerStmt twins.left returnType? isBody stmt)
      (lowerStmt twins.right returnType? isBody stmt.unplaced) := by
  have hSpan := h.head.stmt.placed
  have hInner := h.tail
  cases stmt with
  | vars _ _ declarators =>
    refine (paired_lowerVars hOrigin declarators hInner).bind fun vars hParts => ?_
    exact .pure (.cons rfl hParts)
  | block _ body =>
    have hBody := paired_lowerStmts hOrigin returnType? body hInner
    simp only [Stmt.unplaced, lowerStmt]
    refine .ite (fun _ => ?_) fun _ => ?_
    · exact hBody.mono fun _ hParts => .cons rfl hParts
    · exact hBody.inFrame.bind fun _ hParts => .pure (.cons rfl hParts)
  | ifElse _ condition thenStmt else? =>
    rcases hInner.of_append with ⟨hFront, hElse⟩
    rcases hFront.of_append with ⟨hCondition, hThen⟩
    refine (paired_lowerExpr _ condition hCondition).bind fun first hCondition => ?_
    have hBody := paired_lowerStmt hOrigin returnType? true thenStmt hThen
    refine hBody.inFrame.bind fun body hThen => ?_
    refine (paired_lowerElse hOrigin returnType? else? hElse).bind fun rest hElse => ?_
    refine .pure (.cons rfl (.append ?_ hElse))
    exact .append hCondition hThen
  | whileLoop _ condition body =>
    rcases hInner.of_append with ⟨hCondition, hBody⟩
    refine (paired_lowerExpr _ condition hCondition).bind fun first hCondition => ?_
    have hBody := paired_lowerStmt hOrigin returnType? true body hBody
    refine hBody.inFrame.bind fun _ hBody => .pure ?_
    exact .cons rfl (.append hCondition hBody)
  | doLoop _ condition body =>
    rcases hInner.of_append with ⟨hCondition, hBody⟩
    have hBody := paired_lowerStmt hOrigin returnType? true body hBody
    refine hBody.inFrame.bind fun lowered hBody => ?_
    refine (paired_lowerExpr _ condition hCondition).bind fun first hCondition => ?_
    exact .pure (.cons rfl (.append hCondition hBody))
  | forLoop _ init? condition? update? body =>
    rcases hInner.of_append with ⟨hHeader, hBody⟩
    rcases hHeader.of_append with ⟨hFront, hUpdate⟩
    rcases hFront.of_append with ⟨hInit, hCondition⟩
    apply Paired.inFrame
    refine (paired_lowerForInit hOrigin init? hInit).bind fun init hInit => ?_
    refine (paired_lowerExpr? _ condition? hCondition).bind fun condition hCondition => ?_
    refine (paired_lowerExpr? _ update? hUpdate).bind fun update hUpdate => ?_
    have hBody := paired_lowerStmt hOrigin returnType? true body hBody
    refine hBody.inFrame.bind fun _ hBody => .pure ?_
    have hHeader := (EveryPart.append hInit hCondition).append hUpdate
    exact .cons rfl (.append hHeader hBody)
  | ret _ value? =>
    refine (paired_lowerExpr? _ value? hInner).bind fun value hParts => ?_
    exact .pure (.cons rfl hParts)
  | expr _ value =>
    refine (paired_lowerExpr _ value hInner).bind fun lowered hParts => ?_
    exact .pure (.cons rfl hParts)
  | breakLoop | continueLoop | empty => exact .pure (.cons rfl .nil)
  | _ => exact .fail hSpan _ _

theorem paired_lowerElse
    (hOrigin : twins.right.origin? = twins.left.origin?) (returnType? : Option TypeName)
    (else? : Option Stmt) (h : EveryPart (Shared twins) (stmtParts? else?)) :
    Paired twins true (Supports (stmtParts? else?)) (lowerElse twins.left returnType? else?)
      (lowerElse twins.right returnType? (stmtUnplaced? else?)) := by
  cases else? with
  | none => exact .pure .nil
  | some stmt =>
    have hBranch := paired_lowerStmt hOrigin returnType? true stmt h
    have hInner := h.tail
    cases stmt with
    | ifElse _ condition thenStmt rest? =>
      rcases hInner.of_append with ⟨hFront, hElse⟩
      rcases hFront.of_append with ⟨hCondition, hThen⟩
      refine (paired_lowerExpr _ condition hCondition).bind fun first hCondition => ?_
      have hBody := paired_lowerStmt hOrigin returnType? true thenStmt hThen
      refine hBody.inFrame.bind fun body hThen => ?_
      refine (paired_lowerElse hOrigin returnType? rest? hElse).bind fun rest hElse => ?_
      refine .pure (.cons rfl (.append ?_ hElse))
      exact .append hCondition hThen
    | _ => exact hBranch.inFrame.bind fun _ hParts => .pure hParts

theorem paired_lowerStmts
    (hOrigin : twins.right.origin? = twins.left.origin?) (returnType? : Option TypeName)
    (stmts : List Stmt) (h : EveryPart (Shared twins) (stmtsParts stmts)) :
    Paired twins true (Supports (stmtsParts stmts)) (lowerStmts twins.left returnType? stmts)
      (lowerStmts twins.right returnType? (stmtsUnplaced stmts)) := by
  cases stmts with
  | nil => exact .pure .nil
  | cons stmt rest =>
    rcases h.of_append with ⟨hStmt, hRest⟩
    refine (paired_lowerStmt hOrigin returnType? false stmt hStmt).bind fun first hFirst => ?_
    refine (paired_lowerStmts hOrigin returnType? rest hRest).bind fun lowered hRest => ?_
    exact .pure (.append hFirst hRest)

end

end Statements

-----
-- Entering a Unit
-----

section TopLevel

theorem interfaceFields_unplaced (interface : Text) (members : List InterfaceMember) :
    TypeTable.interfaceFields interface (members.map InterfaceMember.unplaced) =
      TypeTable.interfaceFields interface members := by
  induction members with
  | nil => rfl
  | cons _ _ ih =>
    simp only [map_cons, TypeTable.interfaceFields, ih]
    rfl

theorem declareInterface_unplaced (decl : Interface) :
    TypeTable.declareInterface decl.unplaced = TypeTable.declareInterface decl := by
  unfold TypeTable.declareInterface
  simp only [Interface.unplaced, interfaceFields_unplaced]

theorem alike_register
    (hOrigin : twins.right.origin? = twins.left.origin?) (bound : List Text) (stmts : List Stmt)
    (h : EveryPart (Shared twins) (stmtsParts stmts)) :
    Alike twins.left twins.right twins.placed (register twins.left bound stmts)
      (register twins.right bound (stmtsUnplaced stmts)) := by
  induction stmts generalizing bound with
  | nil => exact .pure ()
  | cons stmt _ ih =>
    rcases h.of_append with ⟨hStmt, hRest⟩
    have hSpan := hStmt.head.stmt.placed
    cases stmt with
    | function _ head =>
      simp only [stmtsUnplaced, Stmt.unplaced, register, hOrigin]
      have hName : head.unplaced.name = head.name := rfl
      rw [hName]
      split
      · exact ih bound hRest
      · apply Alike.bind
        · apply (alike_declare hSpan _ head.name _ _).bind
          exact fun _ _ _ _ => alike_markInitialized hSpan _ head.name
        · exact fun _ _ _ _ => ih (head.name :: bound) hRest
    | interface =>
      simp only [stmtsUnplaced, Stmt.unplaced, register, declareInterface_unplaced]
      apply (alike_onTypes hSpan _ _ _).bind
      exact fun _ _ _ _ => ih bound hRest
    | typeAlias =>
      apply (alike_onTypes hSpan _ _ _).bind
      exact fun _ _ _ _ => ih bound hRest
    | _ => exact ih bound hRest

-----
-- Functions
-----

theorem paired_returnType
    {node : Node} {head : FunctionHead} (h : SharedNode twins node)
    (hTexts :
      twins.strict →
        ∀ text ∈ declaredTexts twins.left.program.types node.id head.returnType?,
          text.IsShapeless) :
    Paired twins adds Anything (returnType twins.left node head)
      (returnType twins.right node.unplaced head.unplaced) := by
  unfold returnType
  simp only [FunctionHead.unplaced, Node.id_unplaced, h.type_eq]
  unfold declaredTexts NodeTypes.textsOf at hTexts
  generalize head.returnType? = written? at hTexts
  generalize twins.left.program.types.get? node.id = inferred? at hTexts
  cases written? with
  | some => exact .canonical h.placed _ fun hStrict => hTexts hStrict _ mem_cons_self
  | none =>
    cases inferred? with
    | some => exact .canonical h.placed _ fun hStrict => hTexts hStrict _ mem_cons_self
    | none => exact .pure trivial

theorem paired_lowerParams
    (params : List Param) (h : ∀ param ∈ params, SharedNode twins param.node)
    (hTexts :
      twins.strict →
        ∀ param ∈ params,
          ∀ text ∈ declaredTexts twins.left.program.types param.node.id param.type?,
            text.IsShapeless) :
    Paired twins true Anything (lowerParams twins.left params)
      (lowerParams twins.right (params.map Param.unplaced)) := by
  induction params with
  | nil => exact .pure trivial
  | cons param _ ih =>
    rcases forall_mem_cons.mp h with ⟨hParam, hRest⟩
    have hType := fun hStrict => (forall_mem_cons.mp (hTexts hStrict)).1
    have hOthers := fun hStrict => (forall_mem_cons.mp (hTexts hStrict)).2
    refine (paired_declaredType param.type? hParam hType).bind fun type _ => ?_
    refine (Paired.declareInitialized hParam.placed _ param.name type none).bind fun _ _ => ?_
    exact (ih hRest hOthers).bind fun _ _ => .pure trivial

theorem paired_lowerFunction
    (hOrigin : twins.right.origin? = twins.left.origin?) (node : Node) (head : FunctionHead)
    (body? : Option (List Stmt))
    (h : EveryPart (Shared twins) (Stmt.function node head body?).parts) :
    Paired twins adds (Supports (bodyParts? body?)) (lowerFunction twins.left node head body?)
      (lowerFunction twins.right node.unplaced head.unplaced (bodyUnplaced? body?)) := by
  rcases everyPart_cons.mp h with ⟨hPart, hInner⟩
  have hNode : SharedNode twins node := hPart.stmt
  have hParams : ∀ param ∈ head.params, SharedNode twins param.node := by
    intro param hParam
    apply hPart.nodes
    exact mem_cons_of_mem _ (mem_map_of_mem hParam)
  have hTexts := hPart.shapeless
  have hReturn := fun hStrict text hText => hTexts hStrict text (mem_append_left _ hText)
  have hTypes := fun hStrict param hParam text hText =>
    hTexts hStrict text (mem_append_right _ (mem_flatMap.mpr ⟨param, hParam, hText⟩))
  refine (Paired.qualified hNode.placed _ head.name).bind fun name _ => ?_
  refine (paired_returnType hNode hReturn).bind fun type _ => ?_
  refine (Paired.markUsed type).bind fun _ _ => ?_
  apply Paired.inFrame
  refine (paired_lowerParams head.params hParams hTypes).bind fun params _ => ?_
  cases body? with
  | none => exact .pure .nil
  | some body =>
    refine (paired_lowerStmts hOrigin (some type) body hInner).bind fun lowered hParts => ?_
    exact .pure hParts

-----
-- Imports
-----

/-
  A specifier leads to the same unit from both sites, and the
  programs of both have that unit, or neither has it.
-/
structure ImportShared (twins : Twins) (specifier : Text) : Prop where
  target_eq :
    twins.right.program.resolveModule? twins.right.unitId specifier =
      twins.left.program.resolveModule? twins.left.unitId specifier
  known_eq :
    ∀ id,
      twins.left.program.resolveModule? twins.left.unitId specifier = some (.unit id) →
        (twins.right.program.unit? id).isSome = (twins.left.program.unit? id).isSome

/- The names of a named import. -/
def ImportClause.names : ImportClause → List ImportName
  | .named names => names
  | _ => []

theorem find?_aliased_unplaced (names : List ImportName) :
    (names.map ImportName.unplaced).find? (fun name => name.alias?.isSome) =
      (names.find? fun name => name.alias?.isSome).map ImportName.unplaced := by
  rw [List.find?_map]
  rfl

theorem paired_bindNative
    (hLax : ¬twins.strict) (names : List ImportName)
    (h : ∀ name ∈ names, SharedNode twins name.node) :
    Paired twins true Anything (bindNative twins.left names)
      (bindNative twins.right (names.map ImportName.unplaced)) := by
  induction names with
  | nil => exact .pure trivial
  | cons name _ ih =>
    rcases forall_mem_cons.mp h with ⟨hName, hRest⟩
    refine .look (fun hStrict => absurd hStrict hLax) fun state => ?_
    refine .ite (fun _ => ih hRest) fun _ => ?_
    refine .bind (paired_declaredType none hName fun hStrict => absurd hStrict hLax) ?_
    intro type _
    refine (Paired.declareInitialized hName.placed _ name.name type none).bind ?_
    exact fun _ _ => ih hRest

theorem paired_checkProvided
    (hLax : ¬twins.strict) (specifier : Text) (names : List ImportName)
    (h : ∀ name ∈ names, SharedNode twins name.node) :
    Paired twins adds Anything (checkProvided twins.left specifier names)
      (checkProvided twins.right specifier (names.map ImportName.unplaced)) := by
  induction names with
  | nil => exact .pure trivial
  | cons _ _ ih =>
    rcases forall_mem_cons.mp h with ⟨hName, hRest⟩
    refine .look (fun hStrict => absurd hStrict hLax) fun state => ?_
    refine .ite (fun _ => ih hRest) fun _ => ?_
    exact .fail hName.placed _ _

theorem paired_lowerImport
    (hLax : ¬twins.strict) (node : Node) (specifier : Text) (clause : ImportClause)
    (hNode : SharedNode twins node) (hNames : ∀ name ∈ clause.names, SharedNode twins name.node)
    (hImport : ∀ names, clause = .named names → ImportShared twins specifier) :
    Paired twins true (fun _ => (Stmt.importFrom node specifier clause).isTopLevel = true)
      (lowerImport twins.left node specifier clause)
      (lowerImport twins.right node.unplaced specifier clause.unplaced) := by
  unfold lowerImport importNames
  cases clause with
  | named names =>
    have hTaken := hImport names rfl
    simp only [ImportClause.unplaced, find?_aliased_unplaced, hTaken.target_eq]
    cases hFind : names.find? fun name => name.alias?.isSome with
    | some =>
      have hAliased := hNames _ (mem_of_find?_eq_some hFind)
      exact .fail hAliased.placed _ _
    | none =>
      have hPlain : (Stmt.importFrom node specifier (.named names)).isTopLevel = true := by
        refine all_eq_true.mpr fun name hName => ?_
        simpa using List.find?_eq_none.mp hFind name hName
      simp only [Option.map_none, pure_bind]
      cases hTarget :
          twins.left.program.resolveModule? twins.left.unitId specifier with
      | none => exact .fail hNode.placed _ _
      | some target =>
        cases target with
        | native => exact (paired_bindNative hLax names hNames).mono fun _ _ => hPlain
        | unit id =>
          simp only [hTaken.known_eq id hTarget]
          refine .ite (fun _ => ?_) fun _ => ?_
          · exact (paired_checkProvided hLax specifier names hNames).mono fun _ _ => hPlain
          · exact .fail hNode.placed _ _
  | default | namespaced | sideEffect => exact .fail hNode.placed _ _

-----
-- Statements Of a Unit
-----

theorem Shared.importNames
    {node : Node} {specifier : Text} {clause : ImportClause}
    (h : Shared twins (.stmt (.importFrom node specifier clause))) :
    ∀ name ∈ clause.names, SharedNode twins name.node := by
  cases clause with
  | named =>
    intro name hName
    apply h.nodes
    exact mem_cons_of_mem _ (mem_map_of_mem hName)
  | _ =>
    intro name hName
    cases hName

theorem paired_lowerTopLevel
    (hLax : ¬twins.strict) (hOrigin : twins.right.origin? = twins.left.origin?) (stmt : Stmt)
    (hImport : ∀ node specifier names,
      stmt = .importFrom node specifier (.named names) → ImportShared twins specifier)
    (h : EveryPart (Shared twins) stmt.parts) :
    Paired twins true (fun _ => stmt.isTopLevel = true ∧ EveryPart Part.Supported stmt.inner)
      (lowerTopLevel twins.left stmt)
      (lowerTopLevel twins.right stmt.unplaced) := by
  rcases everyPart_cons.mp h with ⟨hPart, hInner⟩
  cases stmt with
  | function node head body? =>
    refine (paired_lowerFunction hOrigin node head body? h).bind fun item hBody => ?_
    exact .pure ⟨rfl, hBody⟩
  | importFrom node specifier clause =>
    have hNamed : ∀ names, clause = .named names → ImportShared twins specifier := by
      rintro names rfl
      exact hImport node specifier names rfl
    refine .bind
      (paired_lowerImport hLax node specifier clause hPart.stmt hPart.importNames hNamed) ?_
    exact fun _ hPlain => .pure ⟨hPlain, .nil⟩
  | interface | typeAlias => exact .pure ⟨rfl, .nil⟩
  | vars _ _ declarators =>
    refine (paired_lowerVars hOrigin declarators hInner).bind fun vars hVars => ?_
    exact .pure ⟨rfl, hVars⟩
  | _ => exact .fail hPart.stmt.placed _ _

end TopLevel

-----
-- Sites With The Same Types
-----

/- Two sites, with failures at any span. -/
abbrev Twins.anywhere (left right : Site) : Twins :=
  ⟨left, right, fun _ => True, False⟩

/- Two sites with the same inferred types share all parts. -/
theorem everyPart_anywhere
    {left right : Site} (h : right.program.types = left.program.types) (parts : List Part) :
    EveryPart (Shared (.anywhere left right)) parts :=
  fun _ _ => ⟨fun _ _ => ⟨trivial, by rw [h]⟩, fun _ => trivial, nofun⟩

variable (site : Site)

/- Any statement of a unit. -/
theorem paired_lowerTopLevel_self (stmt : Stmt) :
    Paired (.anywhere site site) true
      (fun _ => stmt.isTopLevel = true ∧ EveryPart Part.Supported stmt.inner)
      (lowerTopLevel site stmt)
      (lowerTopLevel site stmt.unplaced) :=
  paired_lowerTopLevel id rfl stmt (fun _ _ _ _ => ⟨rfl, fun _ _ => rfl⟩) (everyPart_anywhere rfl _)

theorem paired_lowerFunction_self (node : Node) (head : FunctionHead) (body? : Option (List Stmt)) :
    Paired (.anywhere site site) adds (Supports (bodyParts? body?))
      (lowerFunction site node head body?)
      (lowerFunction site node.unplaced head.unplaced (bodyUnplaced? body?)) :=
  paired_lowerFunction rfl node head body? (everyPart_anywhere rfl _)

/- A function in which no shape is read is lowered by the view. -/
theorem determined_lowerFunction
    (node : Node) (head : FunctionHead) (body? : Option (List Stmt))
    (h : EveryPart (Part.IsShapeless site.program.types) (Stmt.function node head body?).parts) :
    Determined (lowerFunction site node head body?) := by
  have hShared :
      EveryPart (Shared ⟨site, site, fun _ => True, True⟩) (Stmt.function node head body?).parts :=
    fun part hPart => ⟨fun _ _ => ⟨trivial, rfl⟩, fun _ => trivial, fun _ => h part hPart⟩
  exact (@paired_lowerFunction _ false rfl node head body? hShared).determined trivial

end ScriptLowering
