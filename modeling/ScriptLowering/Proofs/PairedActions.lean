import ScriptLowering.Proofs.BoundSubjects
import ScriptLowering.Proofs.Unplaced

/-
  What lowering is made of. Whatever is lowered inside of a
  unit, it comes down to a few actions on the state: types
  are decided and marked as used, names are declared and get
  their values, and frames are entered and left. Computations
  that are made of the same actions at two sites do the same
  to the state, and what these actions keep is kept by all
  that is made of them.

  Key theorems include:
    * `Paired.alike`
    * `Paired.preserves`
    * `Paired.determined`
-/

namespace ScriptLowering

open LowerM List

-----
-- Alike Results
-----

/-
  The same value and state, or errors for the same fault, of
  which the first is at a span of a certain kind.
-/
inductive AlikeResult {α : Type} (left right : Site) (placed : Span → Prop) :
    EStateM.Result CompileError LowerState α → EStateM.Result CompileError LowerState α → Prop
  | ok (value : α) (state : LowerState) :
      AlikeResult left right placed (.ok value state) (.ok value state)
  | error {span : Span} (hSpan : placed span) (other : Span) (fault : Fault) (state : LowerState) :
      AlikeResult left right placed (.error (left.error span fault) state)
        (.error (right.error other fault) state)

/- Two computations with alike results in every state. -/
def Alike {α : Type} (left right : Site) (placed : Span → Prop) (first second : LowerM α) : Prop :=
  ∀ state, AlikeResult left right placed (first state) (second state)

section Actions

variable {α β ε : Type} {left right : Site} {placed : Span → Prop}
variable {span : Span}

theorem Alike.pure (value : α) :
    Alike left right placed (Pure.pure value) (Pure.pure value) :=
  fun state => .ok value state

theorem alike_get :
    Alike left right placed (get : LowerM LowerState) get :=
  fun state => .ok state state

theorem alike_fail (hSpan : placed span) (other : Span) (fault : Fault) :
    Alike left right placed (fail left span fault : LowerM α) (fail right other fault) :=
  fun state => .error hSpan other fault state

/- Both go on with the same value in the same state. -/
theorem Alike.bind
    {first second : LowerM α} {next other : α → LowerM β}
    (hFirst : Alike left right placed first second)
    (hNext :
      ∀ value state last, first state = .ok value last →
        Alike left right placed (next value) (other value)) :
    Alike left right placed (first >>= next) (second >>= other) := by
  intro state
  have hRun := hFirst state
  simp only [Bind.bind, EStateM.bind]
  generalize hResult : first state = firstResult at hRun
  generalize second state = secondResult at hRun
  cases hRun with
  | ok value middle => exact hNext value state middle hResult middle
  | error hSpan span fault middle => exact .error hSpan span fault middle

theorem Alike.inFrame {first second : LowerM α} (h : Alike left right placed first second) :
    Alike left right placed (inFrame first) (inFrame second) := by
  intro state
  have hRun := h (pushFrame state)
  unfold LowerM.inFrame
  generalize first (pushFrame state) = firstResult at hRun ⊢
  generalize second (pushFrame state) = secondResult at hRun ⊢
  cases hRun with
  | ok value last => exact .ok value (popFrame last)
  | error hSpan span fault last => exact .error hSpan span fault (popFrame last)

theorem alike_onTypes
    (hSpan : placed span) (other : Span) (fault : ε → Fault) (action : EStateM ε TypeTable α) :
    Alike left right placed (onTypes left span fault action)
      (onTypes right other fault action) := by
  intro state
  unfold onTypes
  cases action state.types with
  | ok value => exact .ok value _
  | error error => exact .error hSpan other _ _

theorem alike_declare
    (hSpan : placed span) (other : Span) (name : Text) (type : TypeName) (origin? : Option Text) :
    Alike left right placed (declare left span name type origin?)
      (declare right other name type origin?) := by
  apply alike_get.bind
  intro state _ _ _
  cases state.scope.declare state.types name type origin? with
  | ok => exact fun _ => .ok () _
  | error => exact alike_fail hSpan other _

theorem alike_markInitialized (hSpan : placed span) (other : Span) (name : Text) :
    Alike left right placed (markInitialized left span name)
      (markInitialized right other name) := by
  apply alike_get.bind
  intro state _ _ _
  cases state.scope.markInitialized name with
  | ok => exact fun _ => .ok () _
  | error => exact alike_fail hSpan other _

end Actions

-----
-- Paired Computations
-----

/-
  Two sites, the spans at which the first may fail, and
  whether what is done must go by the view of the state.
-/
structure Twins where
  left : Site
  right : Site
  placed : Span → Prop
  strict : Prop

/- Nothing is known about a value. -/
def Anything {α : Type} : α → Prop :=
  fun _ => True

/-
  Computations that are made of the same actions, one at each
  site, whether they may add names to the current frame, and
  what they tell about their value. The type of a name that
  is not bound does not go by the view, so what asks for it
  must fail.
-/
inductive Paired (twins : Twins) :
    Bool → {α : Type} → (α → Prop) → LowerM α → LowerM α → Prop
  | pure {adds : Bool} {α : Type} {told : α → Prop} {value : α} (h : told value) :
      Paired twins adds told (Pure.pure value) (Pure.pure value)
  | fail
      {adds : Bool} {α : Type} {told : α → Prop} {span : Span} (hSpan : twins.placed span)
      (other : Span) (fault : Fault) :
      Paired twins adds told (fail twins.left span fault) (fail twins.right other fault)
  | look
      {adds : Bool} {α : Type} {told : α → Prop} {next follow : LowerState → LowerM α}
      (hSame :
        twins.strict →
          ∀ state other : LowerState,
            state.scope.view = other.scope.view →
              next state = next other)
      (hNext :
        ∀ state, Paired twins adds told (next state) (follow state)) :
      Paired twins adds told (get >>= next) (get >>= follow)
  | canonical
      {adds : Bool} {span : Span} (hSpan : twins.placed span) (other : Span) {raw : Text}
      (hText : twins.strict → raw.IsShapeless) :
      Paired twins adds Anything (typed twins.left span (TypeTable.canonicalize raw))
        (typed twins.right other (TypeTable.canonicalize raw))
  | typeOf
      {adds : Bool} {α : Type} {told : α → Prop} {span : Span} {expr : Expr}
      {next follow : TypeName → LowerM α} (hSpan : twins.placed span) (other : Span)
      (hSame :
        ∀ scope,
          expr.unplaced.type twins.right.program.types scope =
            expr.type twins.left.program.types scope)
      (hTexts :
        twins.strict → ∀ text ∈ expr.typeTexts twins.left.program.types, text.IsShapeless)
      (hFails :
        ∀ state : LowerState,
          ¬expr.HasBoundSubject state.scope.view →
            Fails (exprType twins.left span expr >>= next) state)
      (hNext :
        ∀ type, Paired twins adds told (next type) (follow type)) :
      Paired twins adds told (exprType twins.left span expr >>= next)
        (exprType twins.right other expr.unplaced >>= follow)
  | kindOf
      {adds : Bool} {α : Type} {told : α → Prop} {span : Span} {callee : Expr} {args : List Expr}
      {next follow : CallKind → LowerM α} (hSpan : twins.placed span) (other : Span)
      (hSame :
        ∀ scope,
          callKind twins.right.program.types scope callee.unplaced (exprsUnplaced args) =
            callKind twins.left.program.types scope callee args)
      (hTexts :
        twins.strict → ∀ receiver, callee.calledObject? = some receiver →
          ∀ text ∈ receiver.typeTexts twins.left.program.types, text.IsShapeless)
      (hFails :
        ∀ receiver, callee.calledObject? = some receiver →
          ∀ state : LowerState,
            ¬receiver.HasBoundSubject state.scope.view →
              Fails (kindOfCall twins.left span callee args >>= next) state)
      (hNext :
        ∀ kind, CallFits callee args kind → Paired twins adds told (next kind) (follow kind)) :
      Paired twins adds told (kindOfCall twins.left span callee args >>= next)
        (kindOfCall twins.right other callee.unplaced (exprsUnplaced args) >>= follow)
  | markUsed {adds : Bool} (type : TypeName) :
      Paired twins adds Anything (markUsed type) (markUsed type)
  | declare
      {span : Span} (hSpan : twins.placed span) (other : Span) (name : Text) (type : TypeName)
      (origin? : Option Text) :
      Paired twins true Anything (declare twins.left span name type origin?)
        (declare twins.right other name type origin?)
  | markInitialized
      {adds : Bool} {span : Span} (hSpan : twins.placed span) (other : Span) (name : Text) :
      Paired twins adds Anything (markInitialized twins.left span name)
        (markInitialized twins.right other name)
  | inFrame
      {adds inner : Bool} {α : Type} {told : α → Prop} {first second : LowerM α}
      (h : Paired twins inner told first second) :
      Paired twins adds told (inFrame first) (inFrame second)
  | bind
      {adds : Bool} {α β : Type} {before : α → Prop} {told : β → Prop} {first second : LowerM α}
      {next other : α → LowerM β} (hFirst : Paired twins adds before first second)
      (hNext :
        ∀ value, before value → Paired twins adds told (next value) (other value)) :
      Paired twins adds told (first >>= next) (second >>= other)

theorem callFits_of_kindOfCall
    {site : Site} {span : Span} {callee : Expr} {args : List Expr} {state last : LowerState}
    {kind : CallKind} (h : kindOfCall site span callee args state = .ok kind last) :
    CallFits callee args kind :=
  callFits_of_callKind (onTypes_eq_ok h).2

namespace Paired

variable {twins : Twins} {α : Type} {told : α → Prop} {adds : Bool}
variable {span : Span} {first second : LowerM α}

/-
  What deciding types and marking them as used keeps is kept,
  and the value is as it is told. By induction on what a
  computation is made of.
-/
theorem preserves
    {kept : TypeTable → Prop} (hKept : KeptByUse kept) (h : Paired twins adds told first second) :
    Preserves (fun state => kept state.types) first told := by
  induction h with
  | pure h => exact .pure h
  | fail => exact .throw
  | look _ _ ih => exact Preserves.get.bind fun state _ => ih state
  | canonical => exact preserves_onTypes (hKept.interned.subjectRule.canonicalize _)
  | @typeOf _ _ _ span expr _ _ _ _ _ _ _ _ ih =>
    have hType : Preserves (fun state => kept state.types)
        (exprType twins.left span expr) Anything := by
      refine Preserves.get.bind fun state _ => ?_
      exact preserves_onTypes (hKept.interned.subjectRule.leads_type _ (fun _ => trivial) expr)
    exact hType.bind fun type _ => ih type
  | @kindOf _ _ _ span callee args _ _ _ _ _ _ _ _ ih =>
    have hKind : Preserves (fun state => kept state.types)
        (kindOfCall twins.left span callee args) (CallFits callee args) := by
      refine Preserves.get.bind fun state _ => ?_
      have hAction : Preserves kept (callKind twins.left.program.types state.scope callee args) _ :=
        hKept.interned.subjectRule.leads_callKind _ (fun _ => trivial) callee args
      exact preserves_onTypes (.intro hAction.kept fun _ hRun => callFits_of_callKind hRun)
    exact hKind.bind ih
  | markUsed type => exact .intro (hKept.marked type) fun _ _ => trivial
  | declare _ _ name type origin? =>
    refine Preserves.get.bind fun state hState => ?_
    unfold ScopeChain.declare
    cases state.scope.current.lookup name with
    | some => exact .throw
    | none => exact .set (hKept.marked type hState)
  | markInitialized _ _ name =>
    refine Preserves.get.bind fun state hState => ?_
    cases state.scope.markInitialized name with
    | error => exact .throw
    | ok => exact .set hState
  | inFrame _ ih => exact Leads.inFrame ih id id
  | bind _ _ ihFirst ihNext => exact ihFirst.bind ihNext

theorem told_of_ok
    (h : Paired twins adds told first second) {state last : LowerState} {value : α}
    (hRun : first state = .ok value last) :
    told value := by
  have hAll : KeptByUse fun _ => True :=
    ⟨fun _ => .intro (fun _ => trivial) fun _ _ => trivial, fun _ _ => trivial⟩
  exact (h.preserves hAll).gives trivial hRun

/- What is made of the same actions is alike. -/
theorem alike (h : Paired twins adds told first second) :
    Alike twins.left twins.right twins.placed first second := by
  induction h with
  | pure => exact .pure _
  | fail hSpan other fault => exact alike_fail hSpan other fault
  | look _ _ ih => exact alike_get.bind fun state _ _ _ => ih state
  | canonical hSpan other => exact alike_onTypes hSpan other _ _
  | typeOf hSpan other hSame _ _ _ ih =>
    refine Alike.bind (alike_get.bind fun state _ _ _ => ?_) fun type _ _ _ => ih type
    rw [hSame]
    exact alike_onTypes hSpan other _ _
  | kindOf hSpan other hSame _ _ _ ih =>
    refine Alike.bind (alike_get.bind fun state _ _ _ => ?_) fun kind _ _ hRun =>
      ih kind (callFits_of_kindOfCall hRun)
    rw [hSame]
    exact alike_onTypes hSpan other _ _
  | markUsed => exact fun _ => .ok () _
  | declare hSpan other name type origin? => exact alike_declare hSpan other name type origin?
  | markInitialized hSpan other name => exact alike_markInitialized hSpan other name
  | inFrame _ ih => exact ih.inFrame
  | bind hFirst _ ihFirst ihNext =>
    exact ihFirst.bind fun value _ _ hRun => ihNext value (hFirst.told_of_ok hRun)

/-
  Whatever lowering is made of adds names to the current
  frame only, and only if it may add any.
-/
theorem moves (h : Paired twins adds told first second) :
    Moves (FrameChanged adds) first := by
  induction h with
  | pure | fail | markUsed => exact moves_of_scope_eq fun _ => rfl
  | look _ _ ih => exact .bind (moves_of_scope_eq fun _ => rfl) fun state _ _ _ => ih state
  | canonical => exact moves_onTypes _
  | typeOf _ _ _ _ _ _ ih =>
    refine .bind (.bind (moves_of_scope_eq fun _ => rfl) ?_) fun type _ _ _ => ih type
    exact fun _ _ _ _ => moves_onTypes _
  | kindOf _ _ _ _ _ _ ih =>
    refine .bind (.bind (moves_of_scope_eq fun _ => rfl) ?_) fun kind _ _ hRun =>
      ih kind (callFits_of_kindOfCall hRun)
    exact fun _ _ _ _ => moves_onTypes _
  | declare => exact moves_declare _ _ _ _ _
  | markInitialized => exact (moves_markInitialized _ _ _).changed _
  | inFrame _ ih => exact (moves_inFrame ih).changed _
  | bind hFirst _ ihFirst ihNext =>
    exact ihFirst.bind fun value _ _ hRun => ihNext value (hFirst.told_of_ok hRun)

/- Without leave to add names, all of them stay. -/
theorem keepsFrames (h : Paired twins false told first second) :
    Moves FrameKept first :=
  h.moves

/- What must go by the view of the state is determined by it. -/
theorem determined (hStrict : twins.strict) (h : Paired twins adds told first second) :
    Determined first := by
  induction h with
  | pure => exact .pure _
  | fail => exact determined_fail _ _ _
  | look hSame _ ih => exact fun view => .get (hSame hStrict) fun state _ => ih state view
  | canonical _ _ hText => exact determined_typed fun _ => consults_canonicalize (hText hStrict)
  | @typeOf _ _ _ _ expr _ _ _ _ _ hTexts hFails _ ih =>
    intro view
    by_cases hBound : expr.HasBoundSubject view.scope
    · exact .bind (.exprType (hTexts hStrict) hBound) fun type _ _ _ => ih type
    · apply DeterminedAt.of_fails
      intro state hState
      rw [← LowerState.scope_view hState] at hBound
      exact hFails state hBound
  | @kindOf _ _ _ _ callee args _ _ _ _ _ hTexts hFails _ ih =>
    intro view
    by_cases hBound :
        ∀ receiver, callee.calledObject? = some receiver → receiver.HasBoundSubject view.scope
    · exact .bind (.kindOfCall args (hTexts hStrict) hBound) fun kind _ _ hRun =>
        ih kind (callFits_of_kindOfCall hRun)
    · simp only [not_forall] at hBound
      rcases hBound with ⟨receiver, hReceiver, hUnbound⟩
      apply DeterminedAt.of_fails
      intro state hState
      rw [← LowerState.scope_view hState] at hUnbound
      exact hFails receiver hReceiver state hUnbound
  | markUsed type => exact determined_markUsed type
  | declare => exact determined_declare _ _ _ _ _
  | markInitialized => exact determined_markInitialized _ _ _
  | inFrame _ ih => exact ih.inFrame
  | bind hFirst _ ihFirst ihNext =>
    exact fun view => (ihFirst view).bind fun value _ _ hRun =>
      ihNext value (hFirst.told_of_ok hRun)

-----
-- Rules
-----

theorem mono
    {known : α → Prop} (h : Paired twins adds told first second)
    (hKnown : ∀ value, told value → known value) :
    Paired twins adds known first second := by
  have hPure := h.bind fun value hValue => .pure (hKnown value hValue)
  rwa [bind_pure, bind_pure] at hPure

/- The same branch is taken on both sides. -/
theorem ite
    {condition : Prop} [Decidable condition] {next other : LowerM α}
    (hThen : condition → Paired twins adds told first second)
    (hElse : ¬condition → Paired twins adds told next other) :
    Paired twins adds told (if condition then first else next)
      (if condition then second else other) := by
  by_cases h : condition
  · rw [if_pos h, if_pos h]
    exact hThen h
  · rw [if_neg h, if_neg h]
    exact hElse h

theorem declareInitialized
    (hSpan : twins.placed span) (other : Span) (name : Text) (type : TypeName)
    (origin? : Option Text) :
    Paired twins true Anything (declareInitialized twins.left span name type origin?)
      (declareInitialized twins.right other name type origin?) :=
  .bind (.declare hSpan other name type origin?) fun _ _ => .markInitialized hSpan other name

theorem qualified (hSpan : twins.placed span) (other : Span) (name : Text) :
    Paired twins adds Anything (qualified twins.left span name)
      (qualified twins.right other name) := by
  apply Paired.look
  · intro _ state other hView
    rw [state.scope.qualifiedName?_eq_view, other.scope.qualifiedName?_eq_view, hView]
  · intro state
    cases state.scope.qualifiedName? name with
    | some => exact .pure trivial
    | none => exact .fail hSpan other _

end Paired

end ScriptLowering
