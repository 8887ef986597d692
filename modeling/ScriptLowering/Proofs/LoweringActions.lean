import ScriptLowering.Lowering.TopLevel
import ScriptLowering.Proofs.Preservation
import ScriptLowering.Proofs.SourceParts

/-
  What lowering does besides walking the program. The type
  of an expression is read from texts or points to types that
  are known, whatever is meant by knowing a type. A call that
  is of a special kind has a receiver and arguments to match,
  and what is looked at as a literal is supported.

  Key theorems include:
    * `SubjectRule.leads_type`
    * `callFits_of_callKind`
-/

namespace ScriptLowering

open LowerM

-----
-- Deciding Types
-----

/- Types are read from texts, or point to types that are known. -/
structure SubjectRule
    (clock : Clock) (Holds : clock.Time → TypeTable → Prop)
    (Known : clock.Time → TypeName → Prop) : Prop where
  canonicalize :
    ∀ {time} raw, Leads clock Holds time (TypeTable.canonicalize raw) Known
  pointerTo :
    ∀ {time target}, Known time target → Known time (TypeName.pointerTo target)

namespace SubjectRule

variable {clock : Clock} {time : clock.Time}
variable {Holds : clock.Time → TypeTable → Prop}
variable {Known : clock.Time → TypeName → Prop}
variable {scope : ScopeChain} (rule : SubjectRule clock Holds Known)
variable (types : NodeTypes)

include rule

theorem leads_inferredType (id : NodeId) (subject : Text) :
    Leads clock Holds time (inferredType types id subject) Known := by
  unfold inferredType
  split
  · exact rule.canonicalize _
  · exact .throw

theorem leads_declaredType (id : NodeId) (type? : Option TypeText) :
    Leads clock Holds time (declaredType types id type?) Known := by
  cases type? with
  | none => exact rule.leads_inferredType types id _
  | some written => exact rule.canonicalize written.text

/- The type of an expression, by the recursion on it. -/
theorem leads_type
    (hScope : ∀ {name type}, scope.lookupType? name = some type → Known time type) (expr : Expr) :
    Leads clock Holds time (expr.type types scope) Known := by
  fun_induction Expr.type types scope expr with
  | case1 _ _ _ _ ih | case3 _ _ ih => exact ih
  | case2 _ _ written => exact rule.canonicalize written.text
  | case4 _ _ _ hType => exact .pure (hScope hType)
  | case5 | case7 | case8 => exact rule.leads_inferredType types _ _
  | case6 _ _ _ _ _ ih =>
    apply Leads.bind ih
    intro later target _ hTarget
    exact .pure (rule.pointerTo hTarget)

theorem leads_callKind
    (hScope : ∀ {name type}, scope.lookupType? name = some type → Known time type) (callee : Expr)
    (args : List Expr) :
    Leads clock Holds time (callKind types scope callee args) fun _ _ => True := by
  unfold callKind
  split
  · split
    · exact .pure trivial
    · exact .throw
  · split
    · split
      · apply Leads.bind (Leads.adaptExcept (rule.leads_type types hScope _))
        intro later type _ _
        unfold conversionKind
        split
        · split
          · exact .pure trivial
          · exact .throw
        · exact .pure trivial
      · exact .pure trivial
    · exact .pure trivial

end SubjectRule

theorem KeptByInterning.subjectRule {kept : TypeTable → Prop} (h : KeptByInterning kept) :
    SubjectRule stillClock (fun _ => kept) fun _ _ => True :=
  ⟨fun _ => preserves_eval_of_intern h _, id⟩

/- A computation on the types leaves the rest as it is. -/
theorem Leads.onTypes
    {ε α : Type} {clock : Clock} {time : clock.Time} {Table : clock.Time → TypeTable → Prop}
    {Holds : clock.Time → LowerState → Prop} {Post : clock.Time → α → Prop} {site : Site}
    {span : Span} {fault : ε → Fault} {action : EStateM ε TypeTable α}
    (h : Leads clock Table time action Post)
    (hTypes : ∀ {state}, Holds time state → Table time state.types)
    (hHolds :
      ∀ {state later types}, Holds time state → clock.le time later →
        Table later types → Holds later { state with types }) :
    Leads clock Holds time (LowerM.onTypes site span fault action) Post := by
  intro state hState
  rcases h state.types (hTypes hState) with ⟨later, hLater, hLast, hPost⟩
  refine ⟨later, hLater, ?_⟩
  unfold LowerM.onTypes
  cases hRun : action state.types with
  | ok value types =>
    rw [hRun] at hLast hPost
    refine ⟨hHolds hState hLater hLast, ?_⟩
    rintro _ _ ⟨⟩
    exact hPost value types rfl
  | error =>
    rw [hRun] at hLast
    exact ⟨hHolds hState hLater hLast, nofun⟩

/- A frame of its own is left in any case. -/
theorem Leads.inFrame
    {α : Type} {clock : Clock} {time : clock.Time} {Holds : clock.Time → LowerState → Prop}
    {Post : clock.Time → α → Prop} {action : LowerM α} (h : Leads clock Holds time action Post)
    (hPush : ∀ {state}, Holds time state → Holds time (pushFrame state))
    (hPop : ∀ {later state}, Holds later state → Holds later (popFrame state)) :
    Leads clock Holds time (LowerM.inFrame action) Post := by
  intro state hState
  rcases h _ (hPush hState) with ⟨later, hLater, hLast, hPost⟩
  refine ⟨later, hLater, ?_⟩
  unfold LowerM.inFrame
  cases hRun : action (pushFrame state) with
  | ok value last =>
    rw [hRun] at hLast
    refine ⟨hPop hLast, ?_⟩
    rintro _ _ ⟨⟩
    exact hPost value last hRun
  | error =>
    rw [hRun] at hLast
    exact ⟨hPop hLast, nofun⟩

-----
-- Invariants Of The Table
-----

/- What deciding types and marking them as used keeps. -/
structure KeptByUse (kept : TypeTable → Prop) : Prop where
  interned : KeptByInterning kept
  marked :
    ∀ {table} (type : TypeName), kept table → kept (table.markUsed type)

theorem LowerM.get_run (state : LowerState) :
    (get : LowerM LowerState) state = .ok state state :=
  rfl

theorem preserves_onTypes
    {ε α : Type} {kept : TypeTable → Prop} {property : α → Prop} {site : Site} {span : Span}
    {fault : ε → Fault} {action : EStateM ε TypeTable α} (h : Preserves kept action property) :
    Preserves (fun state => kept state.types) (onTypes site span fault action) property :=
  h.onTypes id fun _ _ hTypes => hTypes

/- What was run in a frame of its own. -/
theorem exists_of_inFrame
    {α : Type} {action : LowerM α} {value : α} {state last : LowerState}
    (h : inFrame action state = .ok value last) :
    ∃ inner, action (pushFrame state) = .ok value inner := by
  unfold inFrame at h
  cases hResult : action (pushFrame state) with
  | ok _ inner =>
    rw [hResult] at h
    cases h
    exact ⟨inner, rfl⟩
  | error =>
    rw [hResult] at h
    cases h

/- The parts of a function that was lowered, and the actions that gave them. -/
theorem exists_of_lowerFunction
    {site : Site} {node : Node} {head : FunctionHead} {body? : Option (List Stmt)}
    {item : Target.Item} {state last : LowerState}
    (h : lowerFunction site node head body? state = .ok item last) :
    ∃ signature lowered? named typed used inner,
      item = .function signature lowered? ∧ lowered?.isSome = body?.isSome ∧
      qualified site node.span head.name state = .ok signature.name named ∧
      returnType site node head named = .ok signature.returnType typed ∧
      markUsed signature.returnType typed = .ok () used ∧
      lowerParams site head.params (pushFrame used) = .ok signature.params inner := by
  rcases bind_eq_ok h with ⟨_, _, hName, hType⟩
  rcases bind_eq_ok hType with ⟨_, _, hReturn, hMarked⟩
  rcases bind_eq_ok hMarked with ⟨_, _, hUsed, hFrame⟩
  rcases exists_of_inFrame hFrame with ⟨_, hInner⟩
  rcases bind_eq_ok hInner with ⟨_, _, hParams, hBody⟩
  cases body? with
  | none =>
    cases hBody
    exact ⟨_, _, _, _, _, _, rfl, rfl, hName, hReturn, hUsed, hParams⟩
  | some =>
    rcases bind_eq_ok hBody with ⟨_, _, _, hEnd⟩
    cases hEnd
    exact ⟨_, _, _, _, _, _, rfl, rfl, hName, hReturn, hUsed, hParams⟩

-----
-- Calls
-----

/- What the meaning of a call says about its parts. -/
def CallFits (callee : Expr) (args : List Expr) : CallKind → Prop
  | .ordinary => True
  | .pointer => callee.isPointerCallee = true ∧ args.length = 1
  | .numberToString radix =>
      args.length ≤ 1 ∧ radixOf args = .ok radix

theorem callFits_of_conversionKind
    {callee : Expr} {args : List Expr} {type : TypeName} {kind : CallKind} {table last : TypeTable}
    (hLength : args.length ≤ 1) (h : conversionKind args type table = .ok kind last) :
    CallFits callee args kind := by
  unfold conversionKind at h
  by_cases hNumeric : type.isNumeric = true
  · rw [if_pos hNumeric] at h
    cases hRadix : radixOf args with
    | ok =>
      simp only [hRadix] at h
      cases h
      exact ⟨hLength, hRadix⟩
    | error =>
      simp only [hRadix] at h
      cases h
  · rw [if_neg hNumeric] at h
    cases h
    trivial

theorem callFits_of_callKind
    {types : NodeTypes} {scope : ScopeChain} {callee : Expr} {args : List Expr} {kind : CallKind}
    {table last : TypeTable} (h : callKind types scope callee args table = .ok kind last) :
    CallFits callee args kind := by
  unfold callKind at h
  by_cases hPointer : callee.isPointerCallee = true
  · rw [if_pos hPointer] at h
    by_cases hLength : args.length = 1
    · rw [if_pos hLength] at h
      cases h
      exact ⟨hPointer, hLength⟩
    · rw [if_neg hLength] at h
      cases h
  · rw [if_neg hPointer] at h
    cases callee with
    | member _ _ property =>
      by_cases hMethod :
          property = Native.toStringMethod ∧ args.length ≤ 1
      · simp only [if_pos hMethod] at h
        rcases bind_eq_ok h with ⟨_, _, _, hKind⟩
        exact callFits_of_conversionKind hMethod.2 hKind
      · simp only [if_neg hMethod] at h
        cases h
        trivial
    | _ =>
      cases h
      trivial

-----
-- Supported Constructs
-----

/- The constructs that may stand in a function or initial value. -/
def Part.isSupported : Part → Bool
  | .expr (.null _) => false
  | .expr (.this _) => false
  | .expr (.new _ _ _) => false
  | .expr (.arrow _ _ _) => false
  | .expr (.unary _ op _) => op.target?.isSome
  | .expr (.binary _ op _ _) => op.target?.isSome
  | .expr _ => true
  | .member (.spread _) => false
  | .member (.method _) => false
  | .member _ => true
  | .declarator _ => true
  | .stmt (.function _ _ _) => false
  | .stmt (.importFrom _ _ _) => false
  | .stmt (.interface _ _) => false
  | .stmt (.typeAlias _ _) => false
  | .stmt (.classDecl _ _) => false
  | .stmt (.enumDecl _ _) => false
  | .stmt (.raise _ _) => false
  | .stmt _ => true

def Part.Supported (part : Part) : Prop :=
  part.isSupported = true

/- The statements that a unit may have at its top. -/
def Stmt.isTopLevel : Stmt → Bool
  | .function _ _ _ => true
  | .importFrom _ _ (.named names) =>
      names.all fun name => name.alias?.isNone
  | .interface _ _ => true
  | .typeAlias _ _ => true
  | .vars _ _ _ => true
  | _ => false

/- All of these parts are supported, whatever the value. -/
def Supports {α : Type} (parts : List Part) : α → Prop :=
  fun _ => EveryPart Part.Supported parts

/- A number in parentheses has no other parts. -/
theorem supported_of_unparenthesized
    {expr : Expr} {node : Node} {text : Text} (h : expr.unparenthesized = .number node text) :
    EveryPart Part.Supported expr.parts := by
  fun_induction Expr.unparenthesized expr with
  | case1 _ _ ih => exact .cons rfl (ih h)
  | case2 =>
    subst h
    exact .cons rfl .nil

theorem supported_of_isPointerCallee {callee : Expr} (h : callee.isPointerCallee = true) :
    EveryPart Part.Supported callee.parts := by
  cases callee with
  | ident => exact .cons rfl .nil
  | _ => cases h

theorem supported_of_floatLiteral?
    {type : TypeName} {inner : Expr} {literal : Text}
    (h : floatLiteral? type inner = some literal) :
    EveryPart Part.Supported inner.parts := by
  unfold floatLiteral? at h
  split at h
  · next node text kind hNumber hKind =>
    exact supported_of_unparenthesized hNumber
  · cases h

/- With a default or literal radix no argument has to be lowered. -/
theorem supported_of_radixOf
    {args : List Expr} {radix : Radix} (hLength : args.length ≤ 1)
    (hRadix : radixOf args = .ok radix) (hStatic : radix ≠ .dynamic) :
    EveryPart Part.Supported (exprsParts args) := by
  cases args with
  | nil => exact .nil
  | cons arg rest =>
    have hRest : rest = [] := by
      cases rest with
      | nil => rfl
      | cons =>
        simp only [List.length_cons] at hLength
        omega
    subst hRest
    cases hNumber : arg.unparenthesized with
    | number => exact .append (supported_of_unparenthesized hNumber) .nil
    | _ =>
      simp only [radixOf, hNumber] at hRadix
      cases hRadix
      exact absurd rfl hStatic

end ScriptLowering
