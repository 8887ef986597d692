import ScriptLowering.Proofs.LoweringViews
import ScriptLowering.Proofs.UsedTexts

/-
  Types that go by the view of the state. The type of an
  expression without object shapes is decided by the aliases,
  so nothing is registered on the way, and it goes by the
  types of names. A name that is not bound has no type of its
  own, but where its type is asked for, the name is lowered
  later and fails.

  Key theorems include:
    * `fails_lowerExpr`
    * `DeterminedAt.exprType`
-/

namespace ScriptLowering

open LowerM LowerState List

-----
-- Decided Types
-----

section Types

variable {α ε : Type} {view : LowerView} {site : Site} {span : Span}

theorem DeterminedAt.onTypes
    {fault : ε → Fault} {action : EStateM ε TypeTable α} (h : Consults view.aliases action) :
    DeterminedAt view (onTypes site span fault action) := by
  rcases h with ⟨value, hValue⟩ | hFails
  · refine ⟨some ⟨value, [], view.scope⟩, fun state hState => ?_⟩
    have hRun := hValue state.types (aliases_view hState)
    simp only [LowerM.onTypes, hRun]
    exact .ok ⟨value, [], view.scope⟩ rfl (scope_view hState)
  · apply DeterminedAt.of_fails
    intro state hState
    rcases hFails state.types (aliases_view hState) with ⟨_, _, hError⟩
    exact ⟨_, _, by simp only [LowerM.onTypes, hError]; rfl⟩

theorem determined_typed {action : TypeM α} (h : ∀ aliases, Consults aliases action) :
    Determined (typed site span action) :=
  fun view => .onTypes (h view.aliases)

theorem onTypes_eq_ok
    {fault : ε → Fault} {action : EStateM ε TypeTable α} {state last : LowerState} {value : α}
    (h : onTypes site span fault action state = .ok value last) :
    last.scope = state.scope ∧ action state.types = .ok value last.types := by
  unfold onTypes at h
  split at h
  · next types hRun =>
    cases h
    exact ⟨rfl, hRun⟩
  · cases h

/- The type of an expression goes by the types of names. -/
theorem Expr.type_congr
    {types : NodeTypes} {scope other : ScopeChain} (h : scope.view = other.view) (expr : Expr) :
    expr.type types scope = expr.type types other := by
  have hLookup : ∀ name, scope.lookupType? name = other.lookupType? name := by
    intro name
    rw [scope.lookupType?_eq_view, other.lookupType?_eq_view, h]
  cases expr with
  | assertion _ inner => simp only [Expr.type, type_congr h inner]
  | paren _ inner => exact type_congr h inner
  | ident => simp only [Expr.type, hLookup]
  | call _ _ _ args =>
    rcases args with _ | ⟨operand, _ | ⟨_, _⟩⟩
    · rfl
    · simp only [Expr.type, type_congr h operand]
    · rfl
  | _ => rfl

theorem callKind_congr
    {types : NodeTypes} {scope other : ScopeChain} (h : scope.view = other.view) (callee : Expr)
    (args : List Expr) :
    callKind types scope callee args = callKind types other callee args := by
  unfold callKind
  cases callee with
  | member _ receiver => simp only [Expr.type_congr h receiver]
  | _ => rfl

end Types

-----
-- Subjects
-----

/- The name that the type of an expression goes by is bound. -/
def Expr.HasBoundSubject (expr : Expr) (view : ScopeView) : Prop :=
  ∀ name, expr.subjectName? = some name → (view.lookup? name).isSome = true

variable {state : LowerState} {site : Site} {args : List Expr}

theorem fails_qualified
    {span : Span} {name : Text} (h : (state.scope.view.lookup? name).isSome ≠ true) :
    Fails (qualified site span name) state := by
  have hNone : state.scope.qualifiedName? name = none := by
    rw [state.scope.qualifiedName?_eq_view, Option.not_isSome_iff_eq_none.mp h, Option.map_none]
  refine ⟨site.error span (.scope (.unknownIdentifier name)), state, ?_⟩
  simp only [qualified, Bind.bind, EStateM.bind, get_run, hNone]
  rfl

/- An operand fails behind its type if it fails in these scopes. -/
theorem fails_address
    {span : Span} {expr : Expr} {operand : LowerM Target.Expr}
    (h : ∀ last : LowerState, last.scope = state.scope → Fails operand last) :
    Fails
      (do
        let type ← exprType site span expr
        markUsed type
        let operand ← operand
        return Target.Expr.addressOf type operand)
      state := by
  apply Fails.bind
  intro type middle hType
  apply Fails.bind
  intro _ marked hMarked
  cases hMarked
  apply Fails.bind_left
  apply h
  exact (onTypes_eq_ok hType).1

/- An expression is not lowered if its subject is not bound. -/
theorem fails_lowerExpr
    (site : Site) (context : ValueContext) (expr : Expr) {state : LowerState}
    (h : ¬expr.HasBoundSubject state.scope.view) :
    Fails (lowerExpr site context expr) state := by
  unfold Expr.HasBoundSubject at h
  cases expr with
  | ident =>
    apply Fails.bind_left
    apply fails_qualified
    simpa only [Expr.subjectName?, Option.some.injEq, forall_eq'] using h
  | paren _ inner =>
    apply Fails.bind_left
    exact fails_lowerExpr site _ inner h
  | assertion _ inner written =>
    unfold lowerExpr
    by_cases hConst : written.isConst = true
    · rw [if_pos hConst]
      apply fails_lowerExpr site _ inner
      simpa only [Expr.HasBoundSubject, Expr.subjectName?, if_pos hConst] using h
    · simp [Expr.subjectName?, hConst] at h
  | call node callee _ args =>
    rcases args with _ | ⟨operand, _ | ⟨_, _⟩⟩
    · simp [Expr.subjectName?] at h
    · by_cases hPointer : callee.isPointerCallee = true
      · have hOperand : ¬operand.HasBoundSubject state.scope.view := by
          simpa only [Expr.HasBoundSubject, Expr.subjectName?, if_pos hPointer] using h
        have hKind : kindOfCall site node.span callee [operand] state = .ok .pointer state := by
          simp only [kindOfCall, callKind, hPointer, Bind.bind, EStateM.bind, get_run]
          rfl
        unfold lowerExpr
        apply Fails.bind
        intro kind middle hMiddle
        rw [hKind] at hMiddle
        cases hMiddle
        apply fails_address
        intro last hScope
        apply fails_lowerExpr site _ operand
        rw [hScope]
        exact hOperand
      · simp [Expr.subjectName?, hPointer] at h
    · simp [Expr.subjectName?] at h
  | _ => simp [Expr.subjectName?] at h

theorem fails_member
    {context : ValueContext} {node : Node} {object : Expr} {property : Text}
    (h : ¬object.HasBoundSubject state.scope.view) :
    Fails (lowerExpr site context (.member node object property))
      state := by
  apply Fails.bind
  intro type middle hType
  have hScope : middle.scope = state.scope := (onTypes_eq_ok hType).1
  apply Fails.bind_left
  apply fails_lowerExpr site _ object
  rw [hScope]
  exact h

/- The object of a called property is lowered first in any case. -/
theorem fails_call
    {context : ValueContext} {node : Node} {callee receiver : Expr} {typeArgs : List TypeText}
    (hReceiver : callee.calledObject? = some receiver)
    (h : ¬receiver.HasBoundSubject state.scope.view) :
    Fails (lowerExpr site context (.call node callee typeArgs args)) state := by
  cases callee with
  | member =>
    cases hReceiver
    unfold lowerExpr
    apply Fails.bind
    intro kind middle hKind
    rw [← (onTypes_eq_ok hKind).1] at h
    have hObject := fails_lowerExpr site ValueContext.plain receiver h
    split
    · -- A property is not the name that takes addresses.
      cases (callFits_of_callKind (onTypes_eq_ok hKind).2).1
    · next hLowered _ =>
      cases hLowered
      exact .bind_left hObject _
    · next hLowered =>
      cases hLowered
      exact .bind_left hObject _
    · next hLowered =>
      cases hLowered
      exact .bind_left hObject _
    · exact .bind_left (fails_member h) _
  | _ => cases hReceiver

-----
-- Types Of Expressions
-----

section Expressions

variable {span : Span} {view : LowerView}

theorem consults_type_of_view
    {expr : Expr} {state : LowerState} (hState : state.view = view)
    (hTexts : ∀ text ∈ expr.typeTexts site.program.types, text.IsShapeless)
    (hBound : expr.HasBoundSubject view.scope) :
    Consults view.aliases (expr.type site.program.types state.scope) := by
  apply consults_type expr hTexts
  intro name hName
  rw [state.scope.lookupType?_eq_view, Option.isSome_map, scope_view hState]
  exact hBound name hName

theorem DeterminedAt.exprType
    {expr : Expr} (hTexts : ∀ text ∈ expr.typeTexts site.program.types, text.IsShapeless)
    (hBound : expr.HasBoundSubject view.scope) :
    DeterminedAt view (exprType site span expr) := by
  apply DeterminedAt.get
  · intro state other hScopes
    rw [Expr.type_congr hScopes expr]
  · intro state hState
    exact .onTypes (consults_type_of_view hState hTexts hBound)

variable {callee : Expr}

theorem DeterminedAt.kindOfCall
    (args : List Expr)
    (hTexts :
      ∀ receiver, callee.calledObject? = some receiver →
        ∀ text ∈ receiver.typeTexts site.program.types, text.IsShapeless)
    (hBound :
      ∀ receiver, callee.calledObject? = some receiver → receiver.HasBoundSubject view.scope) :
    DeterminedAt view (kindOfCall site span callee args) := by
  apply DeterminedAt.get
  · intro state other hScopes
    rw [callKind_congr hScopes callee args]
  · intro state hState
    apply DeterminedAt.onTypes
    apply consults_callKind
    intro receiver hReceiver
    exact consults_type_of_view hState (hTexts receiver hReceiver) (hBound receiver hReceiver)

theorem assignedContext_congr
    {scope other : ScopeChain} (h : scope.view = other.view) (op : BinaryOp) (left : Expr) :
    assignedContext op left scope = assignedContext op left other := by
  unfold assignedContext
  split
  · rw [scope.lookupType?_eq_view, other.lookupType?_eq_view, h]
  · rfl

end Expressions

end ScriptLowering
