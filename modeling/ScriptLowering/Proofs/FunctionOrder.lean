import ScriptLowering.Proofs.Prototypes
import ScriptLowering.Proofs.Registration

/-
  The order of the functions of a unit. All functions are
  bound when the unit is entered, and a function that spells
  no object shape registers no struct, so what it is lowered
  to depends on what the unit declares and not on the other
  functions. The structs that are used in the end are those
  that some function marks, in whatever order.

  Key theorems include:
    * `lowerSteps_reordered`
    * `function_order_irrelevant`
-/

namespace ScriptLowering

open LowerM List Program LowerState

-----
-- Orders Of Functions
-----

/- The functions of a unit, in order. -/
def functionsOf (stmts : List Stmt) : List Stmt :=
  stmts.filter Stmt.isFunction

/- What a unit has besides functions, in order. -/
def othersOf (stmts : List Stmt) : List Stmt :=
  stmts.filter fun stmt => !stmt.isFunction

def Stmt.declaresType : Stmt → Bool
  | .interface _ _ => true
  | .typeAlias _ _ => true
  | _ => false

/- The same statements, the functions in another order. -/
structure Reordered (left right : List Stmt) : Prop where
  functions : (functionsOf left).Perm (functionsOf right)
  others : othersOf left = othersOf right

/-
  Functions and types only, no struct with the name of the
  type of functions, and no function with an object shape in
  a type text.
-/
structure Reorderable (types : NodeTypes) (stmts : List Stmt) : Prop where
  kinds :
    ∀ stmt ∈ stmts, stmt.isFunction = true ∨ stmt.declaresType = true
  names : ∀ stmt ∈ stmts, stmt.structName? ≠ some Spelling.function
  shapeless :
    ∀ stmt ∈ functionsOf stmts, EveryPart (Part.IsShapeless types) stmt.parts

namespace Reordered

variable {left right : List Stmt}

theorem symm (h : Reordered left right) :
    Reordered right left :=
  ⟨h.functions.symm, h.others.symm⟩

theorem mem_iff (h : Reordered left right) {stmt : Stmt} :
    stmt ∈ left ↔ stmt ∈ right := by
  have hFunctions := h.functions.mem_iff (a := stmt)
  have hOthers : stmt ∈ othersOf left ↔ stmt ∈ othersOf right := by rw [h.others]
  cases hKind : stmt.isFunction with
  | true => simpa [functionsOf, hKind] using hFunctions
  | false => simpa [othersOf, hKind] using hOthers

theorem declareTypes_eq (h : Reordered left right) :
    declareTypes left = declareTypes right := by
  rw [← declareTypes_filter left, ← declareTypes_filter right]
  exact congrArg declareTypes h.others

theorem mem_newNames_iff (h : Reordered left right) {bound : List Text} {name : Text} :
    name ∈ newNames bound left ↔ name ∈ newNames bound right := by
  simp only [mem_newNames, functionNames, mem_filterMap, h.mem_iff]

end Reordered

theorem Reorderable.of_reordered
    {types : NodeTypes} {left right : List Stmt} (h : Reorderable types left)
    (hOrder : Reordered left right) :
    Reorderable types right := by
  constructor
  · intro stmt hStmt
    exact h.kinds stmt (hOrder.mem_iff.mpr hStmt)
  · intro stmt hStmt
    exact h.names stmt (hOrder.mem_iff.mpr hStmt)
  · intro stmt hStmt
    exact h.shapeless stmt (hOrder.functions.mem_iff.mpr hStmt)

-----
-- Entering In Another Order
-----

section Entering

variable {left right : Site} {start : LowerState}

/-
  If a unit is entered, so is the same unit with its functions
  in another order, and both lead to the same types and to
  scopes of one view.
-/
theorem register_reordered
    {last : LowerState} (hOrigin : right.origin? = left.origin?)
    (hRoot : start.scope.view.nested = []) (hDormant : start.types.IsDormant)
    (hLeft : Reorderable left.program.types left.unit.statements)
    (hOrder : Reordered left.unit.statements right.unit.statements)
    (hRun : register left [] left.unit.statements start = .ok () last) :
    ∃ other,
      register right [] right.unit.statements start = .ok () other ∧ other.types = last.types ∧
        other.scope.view = last.scope.view ∧
        last.types.IsDormant := by
  have hRight := hLeft.of_reordered hOrder
  have hEntered : Enters left [] left.unit.statements start last := by
    rcases enters_or_fails left [] left.unit.statements hRoot hDormant hLeft.names with
      ⟨reached, hReached, hEnters⟩ | ⟨⟨error, reached, hError⟩, _⟩
    · rw [hRun] at hReached
      cases hReached
      exact hEnters
    · rw [hRun] at hError
      cases hError
  have hLast : last.types.IsDormant := by
    have hKept := (preserves_declareTypes hLeft.names).kept hDormant
    rw [hEntered.types] at hKept
    exact hKept
  rcases enters_or_fails right [] right.unit.statements hRoot hDormant hRight.names with
    ⟨other, hOther, hEnters⟩ | ⟨_, hRefused⟩
  · refine ⟨other, hOther, ?_, ?_, hLast⟩
    · have hSame := hEnters.types
      rw [← hOrder.declareTypes_eq, hEntered.types] at hSame
      injection hSame with _ hTables
      exact hTables.symm
    · have hNested : other.scope.view.nested = last.scope.view.nested :=
        hEnters.nested.trans hEntered.nested.symm
      have hNames : other.scope.view.root = last.scope.view.root := by
        funext name
        rw [hEnters.root name, hEntered.root name, hOrigin]
        simp only [hOrder.mem_newNames_iff]
      exact ScopeView.ext hNested hNames
  -- What would keep the second from being entered is not there.
  · rcases hRefused with ⟨_, _, hError⟩ | ⟨name, hName, hTaken⟩
    · rw [← hOrder.declareTypes_eq, hEntered.types] at hError
      cases hError
    · exact absurd (hEntered.free name (hOrder.mem_newNames_iff.mpr hName)) hTaken

end Entering

-----
-- Statements That Keep A View
-----

/-
  In all states of a view a computation gives one value, marks
  the same types and keeps the view, or it fails in all.
-/
def KeepsTo
    {α : Type} (view : LowerView) (action : LowerM α)
    (outcome : Option (α × List TypeName)) : Prop :=
  ∀ state : LowerState, state.view = view →
    ComesTo state (action state) (outcome.map fun result => ⟨result.1, result.2, view.scope⟩)

section Keeping

variable {α : Type} {view : LowerView} {start : LowerState}
variable {action : LowerM α} {value : α}

/- What is determined and moves no name keeps the view. -/
theorem Determined.exists_keepsTo
    (h : Determined action) (hMoves : Moves FrameKept action) (view : LowerView) :
    ∃ outcome, KeepsTo view action outcome := by
  rcases h view with ⟨outcome, hOutcome⟩
  refine ⟨outcome.map fun yield => (yield.value, yield.marks), fun state hState => ?_⟩
  have hRun := hOutcome state hState
  have hScope := ScopeChain.view_eq_of_moved (hMoves state)
  generalize action state = result at hRun hScope
  cases hRun with
  | error error last => exact .error error last
  | @ok yield _ hTypes =>
    refine .ok ⟨yield.value, yield.marks, view.scope⟩ hTypes ?_
    exact hScope.trans (scope_view hState)

/- Alike results come to the same. -/
theorem AlikeResult.comesTo_iff
    {left right : Site} {placed : Span → Prop}
    {first second : EStateM.Result CompileError LowerState α} {outcome : Option (Yield α)}
    (h : AlikeResult left right placed first second) :
    ComesTo start first outcome ↔ ComesTo start second outcome := by
  cases h with
  | ok => exact .rfl
  | error _ _ _ last =>
    constructor
    · intro hFirst
      cases hFirst
      exact .error _ last
    · intro hSecond
      cases hSecond
      exact .error _ last

theorem Fails.of_keepsTo (h : KeepsTo view action none) (hStart : start.view = view) :
    Fails action start := by
  have hRun := h start hStart
  unfold Fails
  generalize action start = result at hRun
  cases hRun
  exact ⟨_, _, rfl⟩

theorem KeepsTo.pure (value : α) :
    KeepsTo view (Pure.pure value) (some (value, [])) :=
  fun _ hState => .ok ⟨value, [], view.scope⟩ rfl (scope_view hState)

theorem KeepsTo.exists_ok
    {marks : List TypeName} (h : KeepsTo view action (some (value, marks)))
    (hStart : start.view = view) :
    ∃ last, action start = .ok value last ∧ last.types = start.types.marked marks := by
  have hRun := h start hStart
  generalize action start = result at hRun
  cases hRun with
  | @ok _ last hTypes => exact ⟨last, rfl, hTypes⟩

/- What succeeds in a view stays in it. -/
theorem KeepsTo.view_of_ok
    {outcome : Option (α × List TypeName)} {last : LowerState} (h : KeepsTo view action outcome)
    (hStart : start.view = view) (hOk : action start = .ok value last) :
    last.view = view := by
  have hRun := h start hStart
  rw [hOk] at hRun
  generalize hOutcome :
    outcome.map (fun result => (⟨result.1, result.2, view.scope⟩ : Yield α)) = yield? at hRun
  cases hRun with
  | ok _ hTypes hScope =>
    rcases Option.map_eq_some_iff.mp hOutcome with ⟨_, _, rfl⟩
    rw [LowerState.view, hTypes, hScope]
    exact congrArg (LowerView.mk · view.scope) (aliases_view hStart)

theorem KeepsTo.bind
    {β : Type} {first : LowerM α} {next : α → LowerM β} {result : β} {marks more : List TypeName}
    (hFirst : KeepsTo view first (some (value, marks)))
    (hNext : KeepsTo view (next value) (some (result, more))) :
    KeepsTo view (first >>= next) (some (result, marks ++ more)) := by
  intro state hState
  show
    ComesTo state ((first >>= next) state)
      ((some ⟨result, more, view.scope⟩).map (Yield.andThen ⟨value, marks, view.scope⟩))
  apply (hFirst state hState).bind
  intro middle hMiddle
  apply hNext middle
  rw [hMiddle, aliases_view hState]

theorem KeepsTo.map
    {β : Type} {outcome : Option (α × List TypeName)} (h : KeepsTo view action outcome)
    (f : α → β) :
    KeepsTo view (action >>= fun value => Pure.pure (f value))
      (outcome.map fun result => (f result.1, result.2)) := by
  intro state hState
  have hRun := h state hState
  simp only [Bind.bind, EStateM.bind]
  generalize action state = result at hRun
  cases outcome with
  | none =>
    cases hRun with
    | error error last => exact .error error last
  | some yield =>
    cases hRun with
    | ok _ hTypes hScope => exact .ok ⟨f yield.1, yield.2, view.scope⟩ hTypes hScope

end Keeping

-----
-- Functions
-----

section Functions

variable {left right : Site} {view : LowerView} {stmt : Stmt}

/- A function is lowered to the same at both sites. -/
theorem KeepsTo.of_site
    {node : Node} {head : FunctionHead} {body? : Option (List Stmt)}
    {outcome : Option (Target.Item × List TypeName)}
    (hTypes : right.program.types = left.program.types) (hOrigin : right.origin? = left.origin?)
    (h : KeepsTo view (lowerFunction left node head body?) outcome) :
    KeepsTo view (lowerFunction right node head body?) outcome := by
  intro state hState
  -- Both are compared with the function without its spans.
  have hLeft : Paired (.anywhere left left) false _ (lowerFunction left node head body?) _ :=
    paired_lowerFunction_self left node head body?
  have hRight : Paired (.anywhere right left) false _ (lowerFunction right node head body?) _ :=
    paired_lowerFunction hOrigin.symm node head body? (everyPart_anywhere hTypes.symm _)
  rw [(hRight.alike state).comesTo_iff, ← (hLeft.alike state).comesTo_iff]
  exact h state hState

/- A function without object shapes is lowered in every view. -/
theorem exists_keepsTo_lowerTopLevel
    (hTypes : right.program.types = left.program.types) (hOrigin : right.origin? = left.origin?)
    (hFunction : stmt.isFunction = true)
    (h : EveryPart (Part.IsShapeless left.program.types) stmt.parts) (view : LowerView) :
    ∃ outcome : Option (Target.Item × List TypeName),
      KeepsTo view (lowerTopLevel left stmt) (outcome.map fun result => ([result.1], result.2)) ∧
        KeepsTo view (lowerTopLevel right stmt)
          (outcome.map fun result => ([result.1], result.2)) := by
  cases stmt with
  | function node head body? =>
    rcases
        (determined_lowerFunction left node head body? h).exists_keepsTo
          (paired_lowerFunction_self left node head body?).keepsFrames
          view with
      ⟨outcome, hLeft⟩
    have hRight := hLeft.of_site hTypes hOrigin
    exact ⟨outcome, hLeft.map fun item => [item], hRight.map fun item => [item]⟩
  | _ => cases hFunction

/- The item of a function. -/
def Target.Function.item (function : Target.Function) : Target.Item :=
  .function function.signature function.body?

theorem exists_function_of_lowerTopLevel
    {site : Site} {item : Target.Item} {state last : LowerState}
    (hFunction : stmt.isFunction = true) (hRun : lowerTopLevel site stmt state = .ok [item] last) :
    ∃ function : Target.Function, item = function.item := by
  cases stmt with
  | function =>
    rcases bind_eq_ok hRun with ⟨_, _, hItem, hReturn⟩
    cases hReturn
    rcases exists_of_lowerFunction hItem with ⟨signature, body?, _, _, _, _, rfl, _⟩
    exact ⟨⟨signature, body?⟩, rfl⟩
  | _ => cases hFunction

theorem keepsTo_of_declaresType (site : Site) (h : stmt.declaresType = true) :
    KeepsTo view (lowerTopLevel site stmt) (some ([], [])) := by
  cases stmt with
  | interface | typeAlias => exact .pure []
  | _ => cases h

end Functions

-----
-- Units
-----

/- What the functions of a unit are lowered to, in order. -/
def functionItems (function : Stmt → Target.Function) (stmts : List Stmt) : List Target.Item :=
  (functionsOf stmts).map fun stmt => (function stmt).item

section Units

variable {site : Site} {view : LowerView} {stmts : List Stmt}

/- The statements of a unit come to what its functions come to. -/
theorem keepsTo_lowerSteps
    (function : Stmt → Target.Function) (marks : Stmt → List TypeName)
    (hKinds : ∀ stmt ∈ stmts, stmt.isFunction = true ∨ stmt.declaresType = true)
    (hFunctions :
      ∀ stmt ∈ functionsOf stmts,
        KeepsTo view (lowerTopLevel site stmt) (some ([(function stmt).item], marks stmt))) :
    KeepsTo view (lowerSteps (stmts.map (.statement site)))
      (some (functionItems function stmts, (functionsOf stmts).flatMap marks)) := by
  unfold functionItems
  induction stmts with
  | nil => exact .pure []
  | cons stmt rest ih =>
    rcases forall_mem_cons.mp hKinds with ⟨hKind, hRest⟩
    cases hFunction : stmt.isFunction with
    | true =>
      have hCons : functionsOf (stmt :: rest) = stmt :: functionsOf rest :=
        filter_cons_of_pos hFunction
      rw [hCons] at hFunctions ⊢
      rcases forall_mem_cons.mp hFunctions with ⟨hFirst, hLater⟩
      rw [map_cons, flatMap_cons]
      refine hFirst.bind ?_
      exact (ih hRest hLater).map fun items => (function stmt).item :: items
    | false =>
      have hCons : functionsOf (stmt :: rest) = functionsOf rest :=
        filter_cons_of_neg (by simp [hFunction])
      rw [hCons] at hFunctions ⊢
      have hType : stmt.declaresType = true := by simpa [hFunction] using hKind
      refine (keepsTo_of_declaresType site hType).bind ?_
      exact (ih hRest hFunctions).map fun items => items

/- One statement that fails makes the unit fail. -/
theorem fails_lowerSteps
    {start : LowerState} (hStart : start.view = view)
    (hAll : ∀ stmt ∈ stmts, ∃ outcome, KeepsTo view (lowerTopLevel site stmt) outcome)
    (hFailing : ∃ stmt ∈ stmts, KeepsTo view (lowerTopLevel site stmt) none) :
    Fails (lowerSteps (stmts.map (.statement site))) start := by
  induction stmts generalizing start with
  | nil => simp at hFailing
  | cons _ _ ih =>
    rcases forall_mem_cons.mp hAll with ⟨⟨_, hFirst⟩, hRest⟩
    rcases hFailing with ⟨failing, hMem, hNone⟩
    rcases mem_cons.mp hMem with rfl | hLater
    · exact .bind_left (.of_keepsTo hNone hStart) _
    · apply Fails.bind
      intro first middle hOk
      apply Fails.bind_left
      exact ih (hFirst.view_of_ok hStart hOk) hRest ⟨failing, hLater, hNone⟩

/- A unit is entered, and its statements follow. -/
theorem lowerSteps_steps (site : Site) :
    lowerSteps site.steps =
      register site [] site.unit.statements >>= fun _ =>
        lowerSteps (site.unit.statements.map (.statement site)) := by
  simp only [Site.steps, lowerSteps, lowerStep, bind_assoc, pure_bind, nil_append, bind_pure]

end Units

section Reordering

variable {left right : Site} {start last : LowerState}
variable {items : List Target.Item}

/-
  The statements of two units that were entered alike. Each
  function comes to the same in both, and the same types are
  marked in the end.
-/
theorem lowerStatements_reordered
    {other : LowerState} (hTypes : right.program.types = left.program.types)
    (hOrigin : right.origin? = left.origin?)
    (hLeft : Reorderable left.program.types left.unit.statements)
    (hOrder : Reordered left.unit.statements right.unit.statements)
    (hDormant : start.types.IsDormant) (hSame : other.types = start.types)
    (hView : other.view = start.view)
    (hRun : lowerSteps (left.unit.statements.map (.statement left)) start = .ok items last) :
    ∃ (function : Stmt → Target.Function) (otherLast : LowerState),
      items = functionItems function left.unit.statements ∧
        lowerSteps (right.unit.statements.map (.statement right)) other =
          .ok (functionItems function right.unit.statements) otherLast ∧
        otherLast.types = last.types := by
  have hOutcomes :=
    fun stmt (hStmt : stmt ∈ functionsOf left.unit.statements) =>
      exists_keepsTo_lowerTopLevel hTypes hOrigin
        (mem_filter.mp hStmt).2 (hLeft.shapeless stmt hStmt)
        start.view
  have hEvery :
      ∀ stmt ∈ left.unit.statements,
        ∃ outcome, KeepsTo start.view (lowerTopLevel left stmt) outcome := by
    intro stmt hStmt
    rcases hLeft.kinds stmt hStmt with hFunction | hType
    · rcases hOutcomes stmt (mem_filter.mpr ⟨hStmt, hFunction⟩) with ⟨_, hOutcome, _⟩
      exact ⟨_, hOutcome⟩
    · exact ⟨_, keepsTo_of_declaresType left hType⟩
  -- No function fails, because the whole unit does not.
  have hAll :
      ∀ stmt ∈ functionsOf left.unit.statements,
        ∃ result : Target.Function × List TypeName,
          KeepsTo start.view (lowerTopLevel left stmt) (some ([result.1.item], result.2)) ∧
            KeepsTo start.view (lowerTopLevel right stmt) (some ([result.1.item], result.2)) := by
    intro stmt hStmt
    rcases mem_filter.mp hStmt with ⟨hMem, hFunction⟩
    rcases hOutcomes stmt hStmt with ⟨outcome, hFirst, hSecond⟩
    cases outcome with
    | some result =>
      rcases hFirst.exists_ok rfl with ⟨reached, hReached, _⟩
      rcases exists_function_of_lowerTopLevel hFunction hReached with ⟨function, hItem⟩
      rw [Option.map_some, hItem] at hFirst hSecond
      exact ⟨(function, result.2), hFirst, hSecond⟩
    | none =>
      rcases fails_lowerSteps rfl hEvery ⟨stmt, hMem, hFirst⟩ with ⟨_, reached, hError⟩
      rw [hRun] at hError
      cases hError
  have hNonempty : Nonempty (Target.Function × List TypeName) :=
    ⟨⟨⟨[], [], TypeName.void⟩, none⟩, []⟩
  choose! result hResult using hAll
  have hFirst :=
    keepsTo_lowerSteps (fun stmt => (result stmt).1) (fun stmt => (result stmt).2) hLeft.kinds
      fun stmt hStmt => (hResult stmt hStmt).1
  have hSecond :=
    keepsTo_lowerSteps (fun stmt => (result stmt).1)
      (fun stmt => (result stmt).2) (hLeft.of_reordered hOrder).kinds
      fun stmt hStmt => (hResult stmt (hOrder.functions.mem_iff.mpr hStmt)).2
  rcases hFirst.exists_ok rfl with ⟨_, hReached, hMarks⟩
  rcases hSecond.exists_ok hView with ⟨otherLast, hOtherLast, hOtherMarks⟩
  rw [hRun] at hReached
  cases hReached
  refine ⟨_, otherLast, rfl, hOtherLast, ?_⟩
  have hMarked :=
    Registry.marked_perm hDormant.isUnused.isClosed
      (hOrder.functions.flatMap_right fun stmt => (result stmt).2)
  rw [hOtherMarks, hMarks, hSame, TypeTable.marked, TypeTable.marked, hMarked]

/- Two units are lowered alike, from their first step on. -/
theorem lowerSteps_reordered
    (hTypes : right.program.types = left.program.types) (hOrigin : right.origin? = left.origin?)
    (hRoot : start.scope.view.nested = []) (hDormant : start.types.IsDormant)
    (hLeft : Reorderable left.program.types left.unit.statements)
    (hOrder : Reordered left.unit.statements right.unit.statements)
    (hRun : lowerSteps left.steps start = .ok items last) :
    ∃ (function : Stmt → Target.Function) (otherLast : LowerState),
      items = functionItems function left.unit.statements ∧
        lowerSteps right.steps start =
          .ok (functionItems function right.unit.statements) otherLast ∧
        otherLast.types = last.types := by
  rw [lowerSteps_steps] at hRun
  rcases bind_eq_ok hRun with ⟨_, entered, hEnter, hStatements⟩
  rcases register_reordered hOrigin hRoot hDormant hLeft hOrder hEnter with
    ⟨other, hOther, hSame, hScope, hEntered⟩
  have hView : other.view = entered.view := by rw [view, view, hSame, hScope]
  rcases lowerStatements_reordered hTypes hOrigin hLeft hOrder hEntered hSame hView hStatements with
    ⟨function, otherLast, hItems, hOtherRun, hLast⟩
  refine ⟨function, otherLast, hItems, ?_, hLast⟩
  rw [lowerSteps_steps]
  simp only [Bind.bind, EStateM.bind, hOther, hOtherRun]

end Reordering

-----
-- Programs
-----

/- Without imports a unit is lowered statement by statement. -/
theorem Program.steps_eq_steps
    {program : Program} {site : Site} (hProgram : site.program = program)
    (hKinds : ∀ stmt ∈ site.unit.statements, stmt.isFunction = true ∨ stmt.declaresType = true) :
    program.steps site = site.steps := by
  have hAsks : ∀ step ∈ site.steps, inlining.opening? [site.unitId.toNat] step = none := by
    intro step hStep
    have hNone : step.imported? = none := by
      rcases mem_cons.mp hStep with rfl | hStatement
      · rfl
      · rcases mem_map.mp hStatement with ⟨stmt, hStmt, rfl⟩
        cases stmt with
        | importFrom =>
          rcases hKinds _ hStmt with hFunction | hType
          · cases hFunction
          · cases hType
        | _ => rfl
    simp [Expansion.opening?, inlining, hNone]
  rcases program.expands_steps site hProgram with ⟨_, hTrace, hSteps⟩
  rw [← hSteps, hTrace.unique (Expansion.expands_of_no_opening hAsks)]

theorem Program.of_startSite?
    {program : Program} {site : Site} (h : program.startSite? = some site) :
    site.program = program ∧ site.origin? = none := by
  rcases Option.bind_eq_some_iff.mp h with ⟨_, _, hSite⟩
  exact program_of_entrySite? hSite

/-
  Two programs of one unit each that differ in the order of
  the functions, and in nothing else that lowering looks at.
-/
structure ReorderedPrograms (program other : Program) (unit otherUnit : SourceUnit) : Prop where
  units : program.units = [unit]
  otherUnits : other.units = [otherUnit]
  entry : other.entry? = program.entry?
  types : other.types = program.types
  order : Reordered unit.statements otherUnit.statements

namespace ReorderedPrograms

variable {program other : Program} {unit otherUnit : SourceUnit}

theorem symm (h : ReorderedPrograms program other unit otherUnit) :
    ReorderedPrograms other program otherUnit unit :=
  ⟨h.otherUnits, h.units, h.entry.symm, h.types.symm, h.order.symm⟩

/- If a program starts at its unit, so does the other. -/
theorem exists_startSite
    (h : ReorderedPrograms program other unit otherUnit) {site : Site}
    (hSite : program.startSite? = some site) :
    ∃ otherSite,
      other.startSite? = some otherSite ∧ site.unit = unit ∧ otherSite.unit = otherUnit := by
  rcases Option.bind_eq_some_iff.mp hSite with ⟨id, hEntry, hUnit⟩
  rcases Option.map_eq_some_iff.mp hUnit with ⟨_, hFound, rfl⟩
  have hOtherEntry : other.entryUnit? = some id := by
    rw [← hEntry]
    simp only [entryUnit?, h.entry, h.units, h.otherUnits, isEmpty_cons]
  rw [unit?, h.units, List.getElem?_singleton] at hFound
  by_cases hZero : id.toNat = 0
  · rw [if_pos hZero] at hFound
    cases hFound
    refine ⟨⟨other, id, otherUnit, none⟩, ?_, rfl, rfl⟩
    simp [startSite?, hOtherEntry, entrySite?, unit?, h.otherUnits, hZero]
  · rw [if_neg hZero] at hFound
    cases hFound

/-
  A compilation of a program leads to one of the other, with
  the same types, in which each function is lowered to the
  same.
-/
theorem exists_compilation
    (h : ReorderedPrograms program other unit otherUnit)
    (hUnit : Reorderable program.types unit.statements) (run : Compilation program) :
    ∃ (otherRun : Compilation other) (function : Stmt → Target.Function),
      run.items = functionItems function unit.statements ∧
        otherRun.items = functionItems function otherUnit.statements ∧
        otherRun.state.types = run.state.types := by
  rcases h.exists_startSite run.starts with ⟨otherSite, hOtherSite, hAt, hOtherAt⟩
  rcases of_startSite? run.starts with ⟨hProgram, hOrigin⟩
  rcases of_startSite? hOtherSite with ⟨hOtherProgram, hOtherOrigin⟩
  have hLeft : Reorderable run.site.program.types run.site.unit.statements := by
    rw [hProgram, hAt]
    exact hUnit
  have hOrder : Reordered run.site.unit.statements otherSite.unit.statements := by
    rw [hAt, hOtherAt]
    exact h.order
  have hTypes : otherSite.program.types = run.site.program.types := by
    rw [hProgram, hOtherProgram, h.types]
  have hRun := run.runs
  rw [steps_eq_steps hProgram hLeft.kinds] at hRun
  rcases lowerSteps_reordered hTypes (hOtherOrigin.trans hOrigin.symm) rfl isDormant_empty hLeft
      hOrder hRun with
    ⟨function, last, hItems, hOther, hLast⟩
  rw [← steps_eq_steps hOtherProgram (hLeft.of_reordered hOrder).kinds] at hOther
  rw [hAt] at hItems
  rw [hOtherAt] at hOther
  exact ⟨⟨otherSite, _, last, hOtherSite, hOther⟩, function, hItems, rfl, hLast⟩

theorem compiles_of_compiles
    (h : ReorderedPrograms program other unit otherUnit)
    (hUnit : Reorderable program.types unit.statements) {config : LayoutConfig}
    (hCompiles : ∃ text, program.compile config = .ok text) :
    ∃ text, other.compile config = .ok text := by
  rcases hCompiles with ⟨_, hText⟩
  rcases compile_eq_ok_iff.mp hText with ⟨run, rfl⟩
  rcases h.exists_compilation hUnit run with ⟨otherRun, _⟩
  exact ⟨_, compile_eq_ok_iff.mpr ⟨otherRun, rfl⟩⟩

end ReorderedPrograms

/- One prototype for each function of a unit. -/
theorem signatures_functionItems
    {types : TypeTable} {stmts : List Stmt} (function : Stmt → Target.Function) :
    (codeFile types (functionItems function stmts)).signatures =
      (functionsOf stmts).map fun stmt =>
        (function stmt).signature := by
  unfold Target.CodeFile.signatures codeFile functionItems
  rw [filterMap_map]
  exact congrFun filterMap_eq_map _

/-
  The order of the functions of a unit decides neither whether
  the program compiles nor what its structs are printed as,
  and the prototype and the definition of each function are
  printed as before, in the new order.
-/
theorem function_order_irrelevant
    {program other : Program} {unit otherUnit : SourceUnit}
    (hOrder : ReorderedPrograms program other unit otherUnit)
    (hUnit : Reorderable program.types unit.statements) (config : LayoutConfig) :
    ((∃ text, program.compile config = .ok text) ↔ ∃ text, other.compile config = .ok text) ∧
      ∀ text, program.compile config = .ok text →
        ∃ (run : Compilation program) (otherRun : Compilation other) (prototype : Stmt → Text)
            (definition : Stmt → List Text),
          text = run.file.text config ∧ other.compile config = .ok (otherRun.file.text config) ∧
            otherRun.file.structSection config = run.file.structSection config ∧
            (run.file.signatures.map Target.Signature.prototype =
                (functionsOf unit.statements).map prototype ∧
              otherRun.file.signatures.map Target.Signature.prototype =
                (functionsOf otherUnit.statements).map prototype) ∧
            run.file.items.map (Target.Item.lines config.indentWidth) =
              (functionsOf unit.statements).map definition ∧
            otherRun.file.items.map (Target.Item.lines config.indentWidth) =
              (functionsOf otherUnit.statements).map definition := by
  have hOtherUnit : Reorderable other.types otherUnit.statements := by
    rw [hOrder.types]
    exact hUnit.of_reordered hOrder.order
  constructor
  · exact ⟨hOrder.compiles_of_compiles hUnit, hOrder.symm.compiles_of_compiles hOtherUnit⟩
  · intro text hText
    rcases compile_eq_ok_iff.mp hText with ⟨run, rfl⟩
    rcases hOrder.exists_compilation hUnit run with
      ⟨otherRun, function, hItems, hOtherItems, hTypes⟩
    refine
      ⟨run, otherRun, fun stmt => (function stmt).signature.prototype,
        fun stmt => (function stmt).item.lines config.indentWidth,
        rfl, compile_eq_ok_iff.mpr ⟨otherRun, rfl⟩, ?_, ⟨?_, ?_⟩,
        ?_, ?_⟩
    · unfold Compilation.file Target.CodeFile.structSection codeFile
      rw [hTypes]
    · rw [Compilation.file, hItems, signatures_functionItems, List.map_map]
      rfl
    · rw [Compilation.file, hOtherItems, signatures_functionItems, List.map_map]
      rfl
    · rw [Compilation.file, hItems]
      exact List.map_map
    · rw [Compilation.file, hOtherItems]
      exact List.map_map

/- A function whose parameters and result have written types. -/
def writtenFunction
    (name : Text) (params : List (Text × Text)) (type : Text) (body? : Option (List Stmt)) : Stmt :=
  .function plainNode
    ⟨name,
      params.map fun param =>
        ⟨plainNode, param.1, some ⟨param.2, Span.nowhere⟩⟩,
      some ⟨type, Span.nowhere⟩⟩
    body?

/- A unit without inferred types, and the program of that unit. -/
def mainUnit (statements : List Stmt) : SourceUnit :=
  ⟨"main.ts", [], statements⟩

def mainProgram (statements : List Stmt) : Program :=
  ⟨[mainUnit statements], none, NodeTypes.empty, []⟩

theorem reorderedPrograms_mainProgram {left right : List Stmt} (h : Reordered left right) :
    ReorderedPrograms (mainProgram left) (mainProgram right) (mainUnit left) (mainUnit right) :=
  ⟨rfl, rfl, rfl, rfl, h⟩

def widthHeading : Stmt :=
  writtenFunction "width" [("p", "Point")] "number" none

/- It calls another function with a field of its parameter. -/
def widthFunction : Stmt :=
  writtenFunction "width" [("p", "Point")] "number"
    (some
      [.ret plainNode
        (some
          (.call plainNode (.ident plainNode "twice") []
            [.member plainNode (.ident plainNode "p") "x"]))])

def twiceFunction : Stmt :=
  writtenFunction "twice" [("n", "number")] "number"
    (some
      [.ret plainNode
        (some (.binary plainNode .plus (.ident plainNode "n") (.ident plainNode "n")))])

def widthTypes : List Stmt :=
  [.interface plainNode
      ⟨"Point", [⟨"x", ⟨"number", Span.nowhere⟩, false, false, false, Span.nowhere⟩]⟩,
    .typeAlias plainNode ⟨"Row", ⟨"number[]", Span.nowhere⟩⟩]

/- The caller is declared before the types, and defined last. -/
def callerAround : List Stmt :=
  widthHeading :: widthTypes ++ [twiceFunction, widthFunction]

/- The caller is defined before the types, and declared last. -/
def callerBehind : List Stmt :=
  twiceFunction :: widthFunction :: widthTypes ++ [widthHeading]

theorem reordered_caller :
    Reordered callerAround callerBehind := by
  constructor
  · show
      ([widthHeading] ++ [twiceFunction, widthFunction]).Perm
        ([twiceFunction, widthFunction] ++ [widthHeading])
    exact perm_append_comm
  · rfl

def widthPrototype : Text :=
  "i32 width(Point p);"

def twicePrototype : Text :=
  "i32 twice(i32 n);"

def pointLines : List Text :=
  ["// Structs", "struct Point \x7b", "    i32 x;", "\x7d;", ""]

theorem caller_order_irrelevant :
    ReorderedPrograms (mainProgram callerAround) (mainProgram callerBehind) (mainUnit callerAround)
        (mainUnit callerBehind) ∧
      Reorderable (mainProgram callerAround).types callerAround ∧
      ∃ (run : Compilation (mainProgram callerAround))
          (otherRun : Compilation (mainProgram callerBehind))
          (prototype : Stmt → Text) (definition : Stmt → List Text),
        (mainProgram callerBehind).compile LayoutConfig.standard =
            .ok (otherRun.file.text LayoutConfig.standard) ∧
          otherRun.file.structSection LayoutConfig.standard = pointLines ∧
          (functionsOf callerAround).map prototype =
            [widthPrototype, twicePrototype, widthPrototype] ∧
          (functionsOf callerBehind).map prototype =
            otherRun.file.signatures.map Target.Signature.prototype ∧
          (functionsOf callerAround).map definition = run.file.items.map (Target.Item.lines 4) ∧
          (functionsOf callerBehind).map definition =
            otherRun.file.items.map (Target.Item.lines 4) := by
  have hOrder := reorderedPrograms_mainProgram reordered_caller
  have hUnit : Reorderable (mainProgram callerAround).types callerAround := by
    constructor <;> decide +kernel
  have hPasses :
      Compilation.passes (mainProgram callerAround)
        (fun _ items state =>
          decide
            ((codeFile state.types items).structSection LayoutConfig.standard = pointLines ∧
              (codeFile state.types items).signatures.map Target.Signature.prototype =
                [widthPrototype, twicePrototype, widthPrototype])) =
        true := by
    decide +kernel
  rcases Compilation.compiles_of_passes hPasses LayoutConfig.standard with ⟨_, hCompile⟩
  rcases (function_order_irrelevant hOrder hUnit LayoutConfig.standard).2 _ hCompile with
    ⟨run, otherRun, prototype, definition, _, hOther, hStructs,
      ⟨hPrototypes, hOtherPrototypes⟩, hLines, hOtherLines⟩
  rcases of_decide_eq_true (run.check_of_passes hPasses) with ⟨hSection, hTexts⟩
  exact
    ⟨hOrder, hUnit, run, otherRun, prototype, definition, hOther,
      hStructs.trans hSection, hPrototypes.symm.trans hTexts,
      hOtherPrototypes.symm, hLines.symm, hOtherLines.symm⟩

/- An alias of an object shape with the name of function types. -/
def functionAlias : Stmt :=
  .typeAlias plainNode ⟨"function", ⟨"\x7b x: u8 \x7d", Span.nowhere⟩⟩

def voidFunction (name : Text) (body? : Option (List Stmt)) : Stmt :=
  writtenFunction name [] "void" body?

/- All names are bound when the alias is declared. -/
def aliasBehind : List Stmt :=
  [voidFunction "f" none, voidFunction "g" (some []), functionAlias, voidFunction "f" (some [])]

/- One name is bound after the alias was declared. -/
def aliasBetween : List Stmt :=
  [voidFunction "f" none, voidFunction "f" (some []), functionAlias, voidFunction "g" (some [])]

def functionLines : List Text :=
  ["// Structs", "struct function \x7b", "    u8 x;", "\x7d;", ""]

/-
  Binding a function marks the type of functions. If a struct
  has its name, it is used as soon as a function is bound
  behind it, and then the order of the functions shows.
-/
theorem aliased_function_order_shows :
    ReorderedPrograms (mainProgram aliasBehind) (mainProgram aliasBetween) (mainUnit aliasBehind)
        (mainUnit aliasBetween) ∧
      (∀ stmt ∈ aliasBehind, stmt.isFunction = true ∨ stmt.declaresType = true) ∧
      (∀ node decl, Stmt.interface node decl ∉ aliasBehind) ∧
      (∀ stmt ∈ functionsOf aliasBehind,
        EveryPart (Part.IsShapeless (mainProgram aliasBehind).types) stmt.parts) ∧
      ∃ (run : Compilation (mainProgram aliasBehind))
          (otherRun : Compilation (mainProgram aliasBetween)),
        (mainProgram aliasBehind).compile LayoutConfig.standard =
            .ok (run.file.text LayoutConfig.standard) ∧
          (mainProgram aliasBetween).compile LayoutConfig.standard =
            .ok (otherRun.file.text LayoutConfig.standard) ∧
          run.file.structSection LayoutConfig.standard = [] ∧
          otherRun.file.structSection LayoutConfig.standard =
            functionLines := by
  have hOrder : Reordered aliasBehind aliasBetween := ⟨(List.Perm.swap _ _ []).cons _, rfl⟩
  have hPasses :
      Compilation.passes (mainProgram aliasBehind)
        (fun _ items state =>
          decide ((codeFile state.types items).structSection LayoutConfig.standard = [])) =
        true := by
    decide +kernel
  have hOtherPasses :
      Compilation.passes (mainProgram aliasBetween)
        (fun _ items state =>
          decide
            ((codeFile state.types items).structSection LayoutConfig.standard = functionLines)) =
        true := by
    decide +kernel
  rcases Compilation.exists_of_passes hPasses with ⟨run⟩
  rcases Compilation.exists_of_passes hOtherPasses with ⟨otherRun⟩
  refine
    ⟨reorderedPrograms_mainProgram hOrder, by decide +kernel,
      fun node decl => ?_, by decide +kernel, run, otherRun,
      compile_eq_ok_iff.mpr ⟨run, rfl⟩,
      compile_eq_ok_iff.mpr ⟨otherRun, rfl⟩,
      of_decide_eq_true (run.check_of_passes hPasses),
      of_decide_eq_true (otherRun.check_of_passes hOtherPasses)⟩
  simp [aliasBehind, voidFunction, writtenFunction, functionAlias]

end ScriptLowering
