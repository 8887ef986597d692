import ScriptLowering.Proofs.Inlining
import ScriptLowering.Proofs.Tracking

/-
  Lowering with all that is tracked, for whole programs. If
  the names and numbers of a program are among the tracked
  texts, then lowering comes by known types only, and what it
  makes has no other texts in it and no types but known and
  marked ones.

  Key theorems include:
    * `Tracking.holds_stmtCourse`
    * `Tracking.holds_stepCourse`
-/

namespace ScriptLowering

open List

-----
-- Texts In A Script Program
-----

/- The names and numbers of a part itself that may be written. -/
def Part.texts : Part → List Text
  | .expr (.ident _ name) => [name]
  | .expr (.number _ text) => [text]
  | .expr (.member _ _ property) => [property]
  | .expr _ => []
  | .member (.property name _) => [name]
  | .member (.shorthand name) => [name]
  | .member _ => []
  | .declarator (.mk _ name _ _) => [name]
  | .stmt (.function _ head _) =>
      head.name :: head.params.map Param.name
  | .stmt (.interface _ decl) =>
      decl.name :: decl.members.map InterfaceMember.name
  | .stmt (.typeAlias _ decl) => [decl.name]
  | .stmt _ => []

/- The type that a statement of a unit declares, by its name. -/
def Stmt.typeName? : Stmt → Option Text
  | .interface _ decl => some decl.name
  | .typeAlias _ decl => some decl.name
  | _ => none

/- The name of a type that a statement gives to another type. -/
def Stmt.aliasName? : Stmt → Option Text
  | .typeAlias _ decl =>
      if decl.isObject then none else some decl.name
  | _ => none

/- The names for other types that a step declares. -/
def Step.aliasNames : Step → List Text
  | .enter site => site.unit.statements.filterMap Stmt.aliasName?
  | .statement _ _ => []

namespace Tracking

variable {tracking : Tracking} {time : tracking.Time}

/- The names and numbers of a part are tracked texts. -/
def HasPart (tracking : Tracking) (part : Part) : Prop :=
  ∀ text ∈ part.texts, tracking.text text

/- Texts that are tracked, and types that may be written. -/
structure Has
    (tracking : Tracking) (time : tracking.Time) (texts : List Text)
    (types : List TypeName) : Prop where
  texts : ∀ text ∈ texts, tracking.text text
  types : ∀ type ∈ types, tracking.Writes time type

namespace Has

variable {texts moreTexts : List Text}
variable {types moreTypes : List TypeName}

theorem nil :
    tracking.Has time [] [] :=
  ⟨forall_mem_nil _, forall_mem_nil _⟩

theorem text {text : Text} (hText : tracking.text text) (h : tracking.Has time texts types) :
    tracking.Has time (text :: texts) types :=
  ⟨forall_mem_cons.mpr ⟨hText, h.texts⟩, h.types⟩

theorem type
    {type : TypeName} (hType : tracking.Writes time type) (h : tracking.Has time texts types) :
    tracking.Has time texts (type :: types) :=
  ⟨h.texts, forall_mem_cons.mpr ⟨hType, h.types⟩⟩

theorem append (h : tracking.Has time texts types) (hMore : tracking.Has time moreTexts moreTypes) :
    tracking.Has time (texts ++ moreTexts) (types ++ moreTypes) :=
  ⟨forall_mem_append.mpr ⟨h.texts, hMore.texts⟩, forall_mem_append.mpr ⟨h.types, hMore.types⟩⟩

/- A text may also stand behind others. -/
theorem snoc {text : Text} (h : tracking.Has time texts types) (hText : tracking.text text) :
    tracking.Has time (texts ++ [text]) types := by
  simpa using h.append (nil.text hText)

theorem mono
    {later : tracking.Time} (h : tracking.Has time texts types) (hLater : tracking.le time later) :
    tracking.Has later texts types :=
  ⟨h.texts, fun type hType => (h.types type hType).mono hLater⟩

end Has

def HasExpr (tracking : Tracking) (time : tracking.Time) (expr : Target.Expr) : Prop :=
  tracking.Has time expr.texts expr.types

def HasExprs (tracking : Tracking) (time : tracking.Time) (exprs : List Target.Expr) : Prop :=
  tracking.Has time (Target.exprsTexts exprs) (Target.exprsTypes exprs)

theorem hasExpr_wrapIf {expr : Target.Expr} (h : tracking.HasExpr time expr) (wrap : Bool) :
    tracking.HasExpr time (wrapIf wrap expr) := by
  cases wrap with
  | false | true => exact h

theorem hasExpr_memberAccess
    {object : Target.Expr} {property : Text} (hObject : tracking.HasExpr time object)
    (hProperty : tracking.text property) (context : ValueContext) (type : TypeName) :
    tracking.HasExpr time (memberAccess context type object property) := by
  unfold memberAccess
  split
  · split
    · exact hObject
    · split
      · exact hObject
      · exact hObject.snoc hProperty
  · split
    · exact hObject.snoc hProperty
    · exact hObject.snoc hProperty

/- The digits of a number are in parentheses at most. -/
theorem text_of_floatLiteral?
    {type : TypeName} {inner : Expr} {literal : Text} (h : EveryPart tracking.HasPart inner.parts)
    (hLiteral : floatLiteral? type inner = some literal) :
    tracking.text literal := by
  unfold floatLiteral? at hLiteral
  split at hLiteral
  · next node digits kind hNumber hKind =>
    have hSelf := everyPart_unparenthesized h
    rw [hNumber] at hSelf
    split at hLiteral
    · exact tracking.float (forall_mem_singleton.mp hSelf) hLiteral
    · cases hLiteral
  · cases hLiteral

-----
-- Expressions
-----

theorem holds_typeCourse (site : Site) (span : Span) (type : TypeText) :
    tracking.Holds time (typeCourse site span type) tracking.Writes := by
  apply Holds.bind (.act (leads_typed (tracking.canonicalize type.text)))
  intro later decided _ hDecided
  apply Holds.mark hDecided
  intro last _ hWrites
  exact .pure hWrites

theorem holds_typesCourse
    (time : tracking.Time) (site : Site) (span : Span) (types : List TypeText) :
    tracking.Holds time (typesCourse site span types)
      fun later decided => tracking.Has later [] decided := by
  induction types generalizing time with
  | nil => exact .pure .nil
  | cons type _ ih =>
    apply Holds.bind (holds_typeCourse site span type)
    intro later first _ hFirst
    apply Holds.bind (ih later)
    intro last decided hLast hDecided
    exact .pure (hDecided.type (hFirst.mono hLast))

mutual

/- One rule of lowering after the other keeps track. -/
theorem holds_exprCourse
    {time : tracking.Time} (site : Site) {context : ValueContext}
    (hContext : tracking.HasContext time context) (expr : Expr)
    (h : EveryPart tracking.HasPart expr.parts) :
    tracking.Holds time (exprCourse site context expr) tracking.HasExpr := by
  rcases everyPart_expr_parts.mp h with ⟨hSelf, hInner⟩
  cases expr with
  | ident =>
    have hName := forall_mem_singleton.mp hSelf
    exact Holds.map (.act (leads_qualified site _ hName)) fun _ _ hEmitted => .text hEmitted .nil
  | number =>
    have hDigits := forall_mem_singleton.mp hSelf
    exact .pure (.text (tracking.number hDigits) .nil)
  | bool | string => exact .pure .nil
  | template _ _ exprs =>
    exact (holds_exprsCourse site .of_none exprs hInner).map fun _ _ hValues => hValues
  | array _ elements =>
    apply Holds.bind (.act (leads_arrayType hContext site _))
    intro later type _ hType
    cases hElement : type.arrayElement? with
    | none => exact .fail
    | some =>
      apply Holds.mark hType
      intro marked _ hWrites
      have hExpected := HasContext.expecting (tracking.arrayElement hWrites.2 hElement)
      apply Holds.bind (holds_exprsCourse site hExpected elements hInner)
      intro last lowered hLast hLowered
      exact .pure (hLowered.type (hWrites.mono hLast))
  | object _ members =>
    exact (holds_membersCourse site members hInner).map fun _ _ hFields => hFields
  | paren _ inner =>
    exact (holds_exprCourse site hContext.value inner hInner).map fun _ _ hLowered => hLowered
  | member _ object =>
    have hProperty := forall_mem_singleton.mp hSelf
    apply Holds.bind (.act (leads_exprType site _ object))
    intro later type _ _
    exact (holds_exprCourse site .of_none object hInner).map fun _ _ hLowered =>
      hasExpr_memberAccess hLowered hProperty context type
  | index _ object index =>
    rcases hInner.of_append with ⟨hObject, hIndex⟩
    apply Holds.bind (holds_exprCourse site .of_none object hObject)
    intro later first _ hFirst
    apply Holds.bind (holds_exprCourse site .of_none index hIndex)
    intro last second hLast hSecond
    exact .pure ((hFirst.mono hLast).append hSecond)
  | call _ callee typeArgs args =>
    rcases hInner.of_append with ⟨hCallee, hArgs⟩
    unfold exprCourse
    apply Holds.bind (.act (leads_kindOfCall site _ callee args))
    intro later kind _ _
    split
    · next operand hOperand =>
      apply Holds.bind (.act (leads_exprType site _ _))
      intro typed type _ hType
      apply Holds.mark hType
      intro marked _ hWrites
      apply Holds.bind (holds_firstCourse? site args hArgs hOperand marked)
      intro last lowered hLast hLowered
      exact .pure (hLowered.type (hWrites.mono hLast))
    · next receiver radix hReceiver hRadix =>
      apply Holds.bind (holds_receiverCourse? site callee hCallee hReceiver later)
      intro middle number _ hNumber
      apply Holds.bind (holds_firstCourse? site args hArgs hRadix middle)
      intro last lowered hLast hLowered
      exact .pure ((hNumber.mono hLast).append hLowered)
    · next value receiver hReceiver =>
      exact (holds_receiverCourse? site callee hCallee hReceiver later).map fun _ _ hNumber =>
        hNumber.append (.text (tracking.decimal value) .nil)
    · next receiver hReceiver =>
      exact (holds_receiverCourse? site callee hCallee hReceiver later).map fun _ _ hNumber =>
        hNumber.append .nil
    · apply Holds.bind (holds_exprCourse site .of_none callee hCallee)
      intro middle lowered _ hLowered
      apply Holds.bind (holds_typesCourse middle site _ typeArgs)
      intro typed types hTyped hTypes
      apply Holds.bind (holds_exprsCourse site .of_none args hArgs)
      intro last values hLast hValues
      exact .pure (((hLowered.mono hTyped).mono hLast).append ((hTypes.mono hLast).append hValues))
  | conditional _ condition thenExpr elseExpr =>
    rcases hInner.of_append with ⟨hFront, hElse⟩
    rcases hFront.of_append with ⟨hCondition, hThen⟩
    apply Holds.bind (holds_exprCourse site .of_none condition hCondition)
    intro later first hLater hFirst
    have hValue := hContext.value.mono hLater
    apply Holds.bind (holds_exprCourse site hValue thenExpr hThen)
    intro middle second hMiddle hSecond
    apply Holds.bind (holds_exprCourse site (hValue.mono hMiddle) elseExpr hElse)
    intro last third hLast hThird
    exact .pure (((hFirst.mono hMiddle).mono hLast).append ((hSecond.mono hLast).append hThird))
  | assertion node inner written =>
    unfold exprCourse
    split
    · exact holds_exprCourse site hContext inner hInner
    · apply Holds.bind (holds_typeCourse site node.span written)
      intro later type _ hType
      cases hLiteral : floatLiteral? type inner with
      | some =>
        have hText := text_of_floatLiteral? hInner hLiteral
        exact .pure (.text hText .nil)
      | none =>
        apply Holds.bind (holds_exprCourse site .of_none inner hInner)
        intro last operand hLast hOperand
        exact .pure ((hasExpr_wrapIf hOperand _).type (hType.mono hLast))
  | unary _ op operand =>
    unfold exprCourse
    cases hTarget : op.target? with
    | none => exact .fail
    | some =>
      exact (holds_exprCourse site .of_none operand hInner).map fun _ _ hLowered =>
        (hasExpr_wrapIf hLowered _).text (tracking.unaryOperator hTarget)
  | step _ op operand =>
    exact (holds_exprCourse site .of_none operand hInner).map fun _ _ hLowered =>
      hLowered.snoc (tracking.stepOperator op)
  | binary _ op left right =>
    rcases hInner.of_append with ⟨hLeft, hRight⟩
    unfold exprCourse
    cases hTarget : op.target? with
    | none => exact .fail
    | some =>
      apply Holds.bind (holds_exprCourse site .of_none left hLeft)
      intro later lowered _ hLowered
      apply Holds.bind (.act Leads.get)
      rintro _ _ _ ⟨rfl, hState⟩
      have hAssigned := HasContext.assigned hState.scope op left
      apply Holds.bind (holds_exprCourse site hAssigned right hRight)
      intro middle value hMiddle hValue
      apply Holds.bind (.act (leads_markAssigned site op left))
      intro last _ hLast _
      have hRest := (hValue.mono hLast).text (tracking.binaryOperator hTarget)
      exact .pure (((hLowered.mono hMiddle).mono hLast).append hRest)
  | null | this | new | arrow => exact .fail

theorem holds_receiverCourse?
    (site : Site) (expr : Expr) (h : EveryPart tracking.HasPart expr.parts)
    {course : Course Target.Expr} (hCourse : receiverCourse? site expr = some course)
    (time : tracking.Time) :
    tracking.Holds time course tracking.HasExpr := by
  rcases everyPart_expr_parts.mp h with ⟨_, hInner⟩
  cases expr with
  | member _ object =>
    cases hCourse
    exact holds_exprCourse site .of_none object hInner
  | _ => cases hCourse

theorem holds_firstCourse?
    (site : Site) (exprs : List Expr) (h : EveryPart tracking.HasPart (exprsParts exprs))
    {course : Course Target.Expr} (hCourse : firstCourse? site exprs = some course)
    (time : tracking.Time) :
    tracking.Holds time course tracking.HasExpr := by
  cases exprs with
  | nil => cases hCourse
  | cons expr =>
    rcases h.of_append with ⟨hExpr, _⟩
    cases hCourse
    exact holds_exprCourse site .of_none expr hExpr

theorem holds_exprsCourse
    {time : tracking.Time} (site : Site) {context : ValueContext}
    (hContext : tracking.HasContext time context) (exprs : List Expr)
    (h : EveryPart tracking.HasPart (exprsParts exprs)) :
    tracking.Holds time (exprsCourse site context exprs) tracking.HasExprs := by
  cases exprs with
  | nil => exact .pure .nil
  | cons expr rest =>
    rcases h.of_append with ⟨hExpr, hRest⟩
    apply Holds.bind (holds_exprCourse site hContext expr hExpr)
    intro later first hLater hFirst
    apply Holds.bind (holds_exprsCourse site (hContext.mono hLater) rest hRest)
    intro last lowered hLast hLowered
    exact .pure ((hFirst.mono hLast).append hLowered)

theorem holds_membersCourse
    {time : tracking.Time} (site : Site) (members : List ObjectMember)
    (h : EveryPart tracking.HasPart (membersParts members)) :
    tracking.Holds time (membersCourse site members)
      fun later fields =>
        tracking.Has later (Target.fieldsTexts fields) (Target.fieldsTypes fields) := by
  cases members with
  | nil => exact .pure .nil
  | cons member rest =>
    rcases h.of_append with ⟨hMember, hRest⟩
    rcases everyPart_cons.mp hMember with ⟨hSelf, hInner⟩
    cases member with
    | property _ value =>
      have hName := forall_mem_singleton.mp hSelf
      apply Holds.bind (holds_exprCourse site .of_none value hInner)
      intro later lowered _ hLowered
      apply Holds.bind (holds_membersCourse site rest hRest)
      intro last fields hLast hFields
      exact .pure (((hLowered.mono hLast).append hFields).text hName)
    | shorthand =>
      have hName := forall_mem_singleton.mp hSelf
      apply Holds.bind (.act (leads_qualified site _ hName))
      intro later emitted _ hEmitted
      exact (holds_membersCourse site rest hRest).map fun _ _ hFields =>
        (hFields.text hEmitted).text hName
    | spread | method => exact .fail

end

theorem holds_exprCourse?
    (site : Site) {context : ValueContext} (hContext : tracking.HasContext time context)
    (expr? : Option Expr) (h : EveryPart tracking.HasPart (exprParts? expr?)) :
    tracking.Holds time (exprCourse? site context expr?)
      fun later lowered? =>
        tracking.Has later (Target.exprTexts? lowered?) (Target.exprTypes? lowered?) := by
  cases expr? with
  | none => exact .pure .nil
  | some expr => exact (holds_exprCourse site hContext expr h).map fun _ _ hLowered => hLowered

-----
-- Statements
-----

def HasDeclarator
    (tracking : Tracking) (time : tracking.Time) (declarator : Target.Declarator) : Prop :=
  tracking.Has time declarator.texts declarator.types

def HasStmts (tracking : Tracking) (time : tracking.Time) (stmts : List Target.Stmt) : Prop :=
  tracking.Has time (Target.stmtsTexts stmts) (Target.stmtsTypes stmts)

theorem hasStmts_append
    {first rest : List Target.Stmt} (hFirst : tracking.HasStmts time first)
    (hRest : tracking.HasStmts time rest) :
    tracking.HasStmts time (first ++ rest) := by
  unfold HasStmts
  rw [Target.stmtsTexts_append, Target.stmtsTypes_append]
  exact hFirst.append hRest

theorem hasStmts_singleton {stmt : Target.Stmt} (h : tracking.Has time stmt.texts stmt.types) :
    tracking.HasStmts time [stmt] := by
  simpa [HasStmts, Target.stmtsTexts, Target.stmtsTypes] using h

/- Declared names with their types, as lowering has them at hand. -/
def HasVars
    (tracking : Tracking) (time : tracking.Time)
    (vars : List (TypeName × Target.Declarator)) : Prop :=
  ∀ entry ∈ vars, tracking.Has time entry.2.texts (entry.1 :: entry.2.types)

theorem hasStmts_vars
    {vars : List (TypeName × Target.Declarator)} (h : tracking.HasVars time vars) :
    tracking.HasStmts time (vars.map fun entry => .declare entry.1 entry.2) := by
  induction vars with
  | nil => exact .nil
  | cons _ _ ih =>
    rcases forall_mem_cons.mp h with ⟨hEntry, hRest⟩
    exact hEntry.append (ih hRest)

theorem holds_bindingCourse (site : Site) (declarator : Declarator) :
    tracking.Holds time (bindingCourse site declarator) tracking.Writes := by
  apply Holds.bind (.act (leads_typed (tracking.subjectRule.leads_declaredType _ _ _)))
  intro later type _ hType
  apply Holds.bind (.act Leads.get)
  rintro _ _ _ ⟨rfl, _⟩
  apply Holds.bind (.act (leads_declare hType))
  intro last _ hLast hMarked
  exact .pure ⟨hMarked, tracking.known_mono hType hLast⟩

theorem holds_declaratorCourse
    (site : Site) {type : TypeName} (hType : tracking.known time type) (declarator : Declarator)
    (h : EveryPart tracking.HasPart (.declarator declarator :: declarator.inner)) :
    tracking.Holds time (declaratorCourse site type declarator) tracking.HasDeclarator := by
  rcases everyPart_cons.mp h with ⟨hSelf, hInner⟩
  rcases declarator with ⟨_, _, _, init?⟩
  have hName := forall_mem_singleton.mp hSelf
  apply Holds.bind (.act (leads_qualified site _ hName))
  intro later emitted hLater hEmitted
  cases init? with
  | none => exact .pure (.text hEmitted .nil)
  | some init =>
    have hExpected := HasContext.expecting (tracking.known_mono hType hLater)
    apply Holds.bind (holds_exprCourse site hExpected init hInner)
    intro middle value _ hValue
    apply Holds.bind (.act (leads_markInitialized site _ _))
    intro last _ hLast _
    exact .pure ((hValue.mono hLast).text hEmitted)

theorem holds_varsCourse
    (time : tracking.Time) (site : Site) (declarators : List Declarator)
    (h : EveryPart tracking.HasPart (declaratorsParts declarators)) :
    tracking.Holds time (varsCourse site declarators) tracking.HasVars := by
  induction declarators generalizing time with
  | nil => exact .pure (forall_mem_nil _)
  | cons declarator _ ih =>
    rcases h.of_append with ⟨hFirst, hRest⟩
    apply Holds.bind (holds_bindingCourse site declarator)
    intro bound type _ hType
    apply Holds.bind (holds_declaratorCourse site hType.2 declarator hFirst)
    intro later lowered hLater hLowered
    apply Holds.bind (ih later hRest)
    intro last vars hLast hVars
    have hVar := (hLowered.type (hType.mono hLater)).mono hLast
    exact .pure (forall_mem_cons.mpr ⟨hVar, hVars⟩)

theorem holds_sameTypeCourse
    (time : tracking.Time) (site : Site) (first : TypeName) (declarators : List Declarator)
    (h : EveryPart tracking.HasPart (declaratorsParts declarators)) :
    tracking.Holds time (sameTypeCourse site first declarators)
      fun later vars =>
        tracking.Has later (vars.flatMap Target.Declarator.texts)
          (vars.flatMap Target.Declarator.types) := by
  induction declarators generalizing time with
  | nil => exact .pure .nil
  | cons declarator _ ih =>
    rcases h.of_append with ⟨hFirst, hRest⟩
    apply Holds.bind (holds_bindingCourse site declarator)
    intro bound type _ hType
    split
    · apply Holds.bind (holds_declaratorCourse site hType.2 declarator hFirst)
      intro later lowered _ hLowered
      apply Holds.bind (ih later hRest)
      intro last vars hLast hVars
      exact .pure ((hLowered.mono hLast).append hVars)
    · exact .fail

theorem holds_forInitCourse
    (site : Site) (init? : Option ForInit) (h : EveryPart tracking.HasPart (forInitParts? init?)) :
    tracking.Holds time (forInitCourse site init?)
      fun later init => tracking.Has later init.texts init.types := by
  unfold forInitCourse
  split
  · exact .pure .nil
  · next value =>
    exact (holds_exprCourse site .of_none value h).map fun _ _ hLowered => hLowered
  · exact .pure .nil
  · next kind declarator rest =>
    rcases h.of_append with ⟨hFirst, hRest⟩
    apply Holds.bind (holds_bindingCourse site declarator)
    intro bound type _ hType
    apply Holds.bind (holds_declaratorCourse site hType.2 declarator hFirst)
    intro later lowered hLater hLowered
    apply Holds.bind (holds_sameTypeCourse later site type rest hRest)
    intro last vars hLast hVars
    have hTyped := (hLowered.type (hType.mono hLater)).mono hLast
    exact .pure (hTyped.append hVars)

mutual

/- Nested statements keep track in frames of their own. -/
theorem holds_stmtCourse
    {time : tracking.Time} (site : Site) {returnType? : Option TypeName}
    (hReturn : tracking.HasContext time (returnContext returnType?)) (isBody : Bool) (stmt : Stmt)
    (h : EveryPart tracking.HasPart stmt.parts) :
    tracking.Holds time (stmtCourse site returnType? isBody stmt) tracking.HasStmts := by
  rcases everyPart_stmt_parts.mp h with ⟨_, hInner⟩
  cases stmt with
  | vars _ _ declarators =>
    exact (holds_varsCourse time site declarators hInner).map fun _ _ hVars => hasStmts_vars hVars
  | block _ body =>
    have hBody := holds_stmtsCourse site hReturn body hInner
    cases isBody with
    | true => exact hBody
    | false => exact hBody.inFrame.map fun _ _ hLowered => hasStmts_singleton hLowered
  | ifElse _ condition thenStmt else? =>
    rcases hInner.of_append with ⟨hFront, hElse⟩
    rcases hFront.of_append with ⟨hCondition, hThen⟩
    apply Holds.bind (holds_exprCourse site .of_none condition hCondition)
    intro later first hLater hFirst
    have hReturn := hReturn.mono hLater
    apply Holds.bind (holds_stmtCourse site hReturn true thenStmt hThen).inFrame
    intro middle body hMiddle hBody
    apply Holds.bind (holds_elseCourse site (hReturn.mono hMiddle) else? hElse)
    intro last rest hLast hRest
    exact .pure
      (hasStmts_singleton
        (((hFirst.mono hMiddle).mono hLast).append ((hBody.mono hLast).append hRest)))
  | whileLoop _ condition body =>
    rcases hInner.of_append with ⟨hCondition, hBody⟩
    apply Holds.bind (holds_exprCourse site .of_none condition hCondition)
    intro later first hLater hFirst
    apply Holds.bind (holds_stmtCourse site (hReturn.mono hLater) true body hBody).inFrame
    intro last lowered hLast hLowered
    exact .pure (hasStmts_singleton ((hFirst.mono hLast).append hLowered))
  | doLoop _ condition body =>
    rcases hInner.of_append with ⟨hCondition, hBody⟩
    apply Holds.bind (holds_stmtCourse site hReturn true body hBody).inFrame
    intro later lowered _ hLowered
    apply Holds.bind (holds_exprCourse site .of_none condition hCondition)
    intro last checked hLast hChecked
    exact .pure (hasStmts_singleton ((hLowered.mono hLast).append hChecked))
  | forLoop _ init? condition? update? body =>
    rcases hInner.of_append with ⟨hHeader, hBody⟩
    rcases hHeader.of_append with ⟨hFront, hUpdate⟩
    rcases hFront.of_append with ⟨hInit, hCondition⟩
    apply Holds.inFrame
    apply Holds.bind (holds_forInitCourse site init? hInit)
    intro later init hLater hFirst
    apply Holds.bind (holds_exprCourse? site .of_none condition? hCondition)
    intro middle condition hMiddle hSecond
    apply Holds.bind (holds_exprCourse? site .of_none update? hUpdate)
    intro fourth update hFourth hThird
    have hReturn := ((hReturn.mono hLater).mono hMiddle).mono hFourth
    apply Holds.bind (holds_stmtCourse site hReturn true body hBody).inFrame
    intro last lowered hLast hLowered
    have hHead := ((hFirst.mono hMiddle).mono hFourth).mono hLast
    exact .pure
      (hasStmts_singleton
        (hHead.append
          (((hSecond.mono hFourth).mono hLast).append ((hThird.mono hLast).append hLowered))))
  | ret _ value? =>
    exact (holds_exprCourse? site hReturn value? hInner).map fun _ _ hLowered =>
      hasStmts_singleton hLowered
  | expr _ value =>
    exact (holds_exprCourse site .of_none value hInner).map fun _ _ hLowered =>
      hasStmts_singleton hLowered
  | breakLoop | continueLoop | empty => exact .pure .nil
  | function | importFrom | interface | typeAlias | classDecl | enumDecl
  | raise => exact .fail

theorem holds_elseCourse
    {time : tracking.Time} (site : Site) {returnType? : Option TypeName}
    (hReturn : tracking.HasContext time (returnContext returnType?)) (else? : Option Stmt)
    (h : EveryPart tracking.HasPart (stmtParts? else?)) :
    tracking.Holds time (elseCourse site returnType? else?)
      fun later rest => tracking.Has later rest.texts rest.types := by
  cases else? with
  | none => exact .pure .nil
  | some stmt =>
    have hBranch := (holds_stmtCourse site hReturn true stmt h).inFrame
    cases stmt with
    | ifElse _ condition thenStmt rest? =>
      rcases everyPart_cons.mp h with ⟨_, hInner⟩
      rcases hInner.of_append with ⟨hFront, hElse⟩
      rcases hFront.of_append with ⟨hCondition, hThen⟩
      apply Holds.bind (holds_exprCourse site .of_none condition hCondition)
      intro later first hLater hFirst
      have hReturn := hReturn.mono hLater
      apply Holds.bind (holds_stmtCourse site hReturn true thenStmt hThen).inFrame
      intro middle body hMiddle hBody
      apply Holds.bind (holds_elseCourse site (hReturn.mono hMiddle) rest? hElse)
      intro last rest hLast hRest
      exact .pure (((hFirst.mono hMiddle).mono hLast).append ((hBody.mono hLast).append hRest))
    | _ => exact hBranch.map fun _ _ hBody => hBody

theorem holds_stmtsCourse
    {time : tracking.Time} (site : Site) {returnType? : Option TypeName}
    (hReturn : tracking.HasContext time (returnContext returnType?)) (stmts : List Stmt)
    (h : EveryPart tracking.HasPart (stmtsParts stmts)) :
    tracking.Holds time (stmtsCourse site returnType? stmts) tracking.HasStmts := by
  cases stmts with
  | nil => exact .pure .nil
  | cons stmt rest =>
    rcases h.of_append with ⟨hStmt, hRest⟩
    apply Holds.bind (holds_stmtCourse site hReturn false stmt hStmt)
    intro later first hLater hFirst
    apply Holds.bind (holds_stmtsCourse site (hReturn.mono hLater) rest hRest)
    intro last lowered hLast hLowered
    exact .pure (hasStmts_append (hFirst.mono hLast) hLowered)

end

-----
-- Units
-----

/- What a unit declares is tracked if its names are. -/
theorem holds_registerCourse
    (time : tracking.Time) (site : Site) (bound : List Text) (stmts : List Stmt)
    (h : EveryPart tracking.HasPart (stmtsParts stmts))
    (hTypes : ∀ stmt ∈ stmts, ∀ name, stmt.typeName? = some name → tracking.typeName name) :
    tracking.Holds time (registerCourse site bound stmts)
      fun later _ =>
        ∀ name ∈ stmts.filterMap Stmt.aliasName?, tracking.aliased later name := by
  induction stmts generalizing time bound with
  | nil => exact .pure (forall_mem_nil _)
  | cons stmt _ ih =>
    rcases h.of_append with ⟨hStmt, hRest⟩
    rcases everyPart_cons.mp hStmt with ⟨hSelf, _⟩
    rcases forall_mem_cons.mp hTypes with ⟨hType, hLater⟩
    cases stmt with
    | function =>
      unfold registerCourse
      split
      · exact ih time bound hRest hLater
      · apply Holds.bind
          (.act (leads_declareInitialized (tracking.native (mem_cons_of_mem _ mem_cons_self))))
        intro later _ _ _
        exact ih later _ hRest hLater
    | interface _ decl =>
      rcases forall_mem_cons.mp hSelf with ⟨hName, hMembers⟩
      apply Holds.bind
        (.act
          (leads_typed
            (tracking.declareInterface hName (hType decl.name rfl) (forall_mem_map.mp hMembers))))
      intro later _ _ _
      exact ih later bound hRest hLater
    | typeAlias _ decl =>
      have hName := forall_mem_singleton.mp hSelf
      apply Holds.bind (.act (leads_typed (tracking.declareAlias hName (hType decl.name rfl))))
      intro later _ _ hAliased
      apply (ih later bound hRest hLater).imp
      intro last _ hLast hNames name hMem
      rw [filterMap_cons] at hMem
      by_cases hObject : decl.isObject = true
      · simp only [Stmt.aliasName?, hObject, if_true] at hMem
        exact hNames name hMem
      · simp only [Stmt.aliasName?, hObject] at hMem
        rcases mem_cons.mp hMem with rfl | hBehind
        · exact tracking.aliased_mono (hAliased (Bool.eq_false_of_not_eq_true hObject)) hLast
        · exact hNames name hBehind
    | _ => exact ih time bound hRest hLater

theorem holds_paramsCourse
    (time : tracking.Time) (site : Site) (params : List Param)
    (h : ∀ param ∈ params, tracking.text param.name) :
    tracking.Holds time (paramsCourse site params)
      fun later lowered =>
        ∀ param ∈ lowered, tracking.text param.1 ∧ tracking.Writes later param.2 := by
  induction params generalizing time with
  | nil => exact .pure (forall_mem_nil _)
  | cons _ _ ih =>
    rcases forall_mem_cons.mp h with ⟨hName, hRest⟩
    apply Holds.bind (.act (leads_typed (tracking.subjectRule.leads_declaredType _ _ _)))
    intro decided type _ hType
    apply Holds.bind (.act (leads_declareInitialized hType))
    intro later _ hLater hMarked
    have hWrites : tracking.Writes later type := ⟨hMarked, tracking.known_mono hType hLater⟩
    apply Holds.bind (ih later hRest)
    intro last params hLast hParams
    exact .pure (forall_mem_cons.mpr ⟨⟨hName, hWrites.mono hLast⟩, hParams⟩)

theorem HasSignature.has {signature : Target.Signature} (h : tracking.HasSignature time signature) :
    tracking.Has time signature.texts signature.types := by
  constructor
  · refine forall_mem_cons.mpr ⟨h.name, ?_⟩
    exact forall_mem_map.mpr fun param hParam => (h.params param hParam).1
  · refine forall_mem_cons.mpr ⟨h.returnType, ?_⟩
    exact forall_mem_map.mpr fun param hParam => (h.params param hParam).2

def HasItem (tracking : Tracking) (time : tracking.Time) (item : Target.Item) : Prop :=
  tracking.Has time item.texts item.types

theorem holds_functionCourse
    (site : Site) (node : Node) (head : FunctionHead) (body? : Option (List Stmt))
    (h : EveryPart tracking.HasPart (Stmt.function node head body?).parts) :
    tracking.Holds time (functionCourse site node head body?) tracking.HasItem := by
  rcases everyPart_stmt_parts.mp h with ⟨hSelf, hInner⟩
  rcases forall_mem_cons.mp hSelf with ⟨hName, hParams⟩
  apply Holds.bind (.act (leads_qualified site _ hName))
  intro first emitted _ hEmitted
  apply Holds.bind (.act (leads_returnType site node head))
  intro second type _ hType
  apply Holds.bind (.act (leads_markUsed type))
  intro third _ hThird hMarked
  have hWrites : tracking.Writes third type := ⟨hMarked, tracking.known_mono hType hThird⟩
  apply Holds.inFrame
  apply Holds.bind (holds_paramsCourse third site head.params (forall_mem_map.mp hParams))
  intro fourth params hFourth hLowered
  have hSignature : tracking.HasSignature fourth ⟨emitted, params, type⟩ :=
    ⟨hEmitted, hLowered, hWrites.mono hFourth⟩
  apply Holds.bind (.note (.recorded _) hSignature)
  rintro _ _ _ rfl
  cases body? with
  | none => exact .pure hSignature.has
  | some body =>
    have hReturn : tracking.HasContext _ (returnContext (some type)) :=
      .expecting hSignature.returnType.2
    apply Holds.bind (holds_stmtsCourse site hReturn body hInner)
    intro last lowered hLast hBody
    exact .pure ((hSignature.has.mono hLast).append hBody)

theorem holds_nativeCourse (time : tracking.Time) (site : Site) (names : List ImportName) :
    tracking.Holds time (nativeCourse site names) fun _ _ => True := by
  induction names generalizing time with
  | nil => exact .pure trivial
  | cons _ _ ih =>
    apply Holds.bind (.act Leads.get)
    rintro _ _ _ ⟨rfl, _⟩
    split
    · exact ih _
    · apply Holds.bind (.act (leads_typed (tracking.subjectRule.leads_declaredType _ _ _)))
      intro decided type _ hType
      apply Holds.bind (.act (leads_declareInitialized hType))
      intro later _ _ _
      exact ih later

theorem holds_importCourse (site : Site) (node : Node) (specifier : Text) (clause : ImportClause) :
    tracking.Holds time (importCourse site node specifier clause) fun _ _ => True := by
  apply Holds.bind (.act (leads_importNames site _ clause))
  intro later names _ _
  split
  · exact .fail
  · exact holds_nativeCourse later site names
  · split
    · exact .act (leads_checkProvided site specifier names)
    · exact .fail

theorem holds_topLevelCourse
    (site : Site) (stmt : Stmt) (h : EveryPart tracking.HasPart stmt.parts) :
    tracking.Holds time (topLevelCourse site stmt)
      fun later items => ∀ item ∈ items, tracking.HasItem later item := by
  cases stmt with
  | function node head body? =>
    exact (holds_functionCourse site node head body? h).map fun _ _ hItem =>
      forall_mem_singleton.mpr hItem
  | importFrom node specifier clause =>
    apply Holds.bind (holds_importCourse site node specifier clause)
    intro later _ _ _
    exact .pure (forall_mem_nil _)
  | interface | typeAlias => exact .pure (forall_mem_nil _)
  | vars _ _ declarators =>
    rcases everyPart_stmt_parts.mp h with ⟨_, hInner⟩
    exact (holds_varsCourse time site declarators hInner).map fun _ _ hVars =>
      forall_mem_map.mpr hVars
  | _ => exact .fail

/- The source of a step is tracked. -/
structure HasStep (tracking : Tracking) (step : Step) : Prop where
  parts :
    EveryPart tracking.HasPart (stmtsParts step.site.unit.statements)
  types :
    ∀ stmt ∈ step.site.unit.statements, ∀ name, stmt.typeName? = some name → tracking.typeName name
  own :
    ∀ site stmt, step = .statement site stmt → EveryPart tracking.HasPart stmt.parts

/- One step makes items and declares its aliases. -/
theorem holds_stepCourse {step : Step} (h : tracking.HasStep step) :
    tracking.Holds time (stepCourse step)
      fun later items =>
        (∀ item ∈ items, tracking.HasItem later item) ∧
          ∀ name ∈ step.aliasNames, tracking.aliased later name := by
  cases step with
  | enter site =>
    apply Holds.bind (holds_registerCourse time site [] _ h.parts h.types)
    intro later _ _ hAliases
    exact .pure ⟨forall_mem_nil _, hAliases⟩
  | statement site stmt =>
    apply (holds_topLevelCourse site stmt (h.own site stmt rfl)).imp
    intro later items _ hItems
    exact ⟨hItems, forall_mem_nil _⟩

end Tracking

end ScriptLowering
