import ScriptLowering.Proofs.Prototypes

/-
  Functions that a unit defines more than once. A unit is
  entered as if each of its functions was stated once, so
  that a second body goes unnoticed. Later every statement
  with a body is defined in its turn. So a unit has two
  definitions of one name with parameters of the same types
  exactly if two of its statements with a body have that
  name and are given those types.

  Key theorems include:
    * `pairwise_repeats_iff`
    * `definitions_repeat_iff_bodies_repeat`
-/

namespace ScriptLowering

open LowerM List

-----
-- Entering a Unit
-----

/- Of all statements of one function only the first is left. -/
def withoutRepeats (bound : List Text) : List Stmt → List Stmt
  | [] => []
  | .function node head body? :: rest =>
      if bound.contains head.name then
        withoutRepeats bound rest
      else
        .function node head body? ::
          withoutRepeats (head.name :: bound) rest
  | stmt :: rest => stmt :: withoutRepeats bound rest

/- Entering a unit does not depend on further statements of a function. -/
theorem register_withoutRepeats (site : Site) (bound : List Text) (stmts : List Stmt) :
    register site bound (withoutRepeats bound stmts) = register site bound stmts := by
  induction stmts generalizing bound with
  | nil => rfl
  | cons stmt _ ih =>
    cases stmt with
    | function _ head =>
      by_cases hBound : bound.contains head.name = true
      · simp only [withoutRepeats, register, if_pos hBound, ih]
      · simp only [withoutRepeats, register, if_neg hBound, ih]
    | _ => simp only [withoutRepeats, register, ih]

-----
-- Turns
-----

/- A function statement and the state in which it is lowered. -/
structure FunctionTurn where
  statement : FunctionStatement
  state : LowerState

namespace FunctionTurn

/- The parameters of a function, without a look at its body. -/
def heading (statement : FunctionStatement) :
    LowerM (List (Text × TypeName)) := do
  let type ←
    returnType statement.site statement.node statement.head
  markUsed type
  inFrame (lowerParams statement.site statement.head.params)

/- The types that the parameters are given in this turn. -/
def paramTypes? (turn : FunctionTurn) : Option (List TypeName) :=
  match heading turn.statement turn.state with
  | .ok params _ => some (params.map Prod.snd)
  | .error _ _ => none

/- Two turns of one name that give the same types. -/
def Repeats (first second : FunctionTurn) : Prop :=
  first.statement.head.name = second.statement.head.name ∧ first.paramTypes? = second.paramTypes?

instance (first second : FunctionTurn) :
    Decidable (first.Repeats second) :=
  inferInstanceAs (Decidable (_ ∧ _))

end FunctionTurn

/- The turns of the functions among steps that are lowered. -/
def functionTurns : List Step → LowerState → List FunctionTurn
  | [], _ => []
  | step :: rest, state =>
      let later :=
        match lowerStep step state with
        | .ok _ next => functionTurns rest next
        | .error _ _ => []
      match step.function? with
      | some statement => ⟨statement, state⟩ :: later
      | none => later

def Target.Function.paramTypes (function : Target.Function) : List TypeName :=
  function.signature.params.map Prod.snd

/- Two functions of one name with parameters of the same types. -/
def Target.Function.Repeats (first second : Target.Function) : Prop :=
  first.signature.name = second.signature.name ∧ first.paramTypes = second.paramTypes

instance (first second : Target.Function) :
    Decidable (first.Repeats second) :=
  inferInstanceAs (Decidable (_ ∧ _))

/-
  What a turn is lowered to. The types of the parameters are
  those that the heading was given.
-/
structure FunctionTurn.Gives (turn : FunctionTurn) (function : Target.Function) : Prop where
  lowersTo : turn.statement.LowersTo function
  types : turn.paramTypes? = some function.paramTypes

-----
-- Definitions In Their Turns
-----

variable {items : List Target.Item} {site : Site}
variable {step : Step} {rest : List Step} {last state : LowerState}

theorem state_of_qualified
    {span : Span} {name emitted : Text} (hRun : qualified site span name state = .ok emitted last) :
    last = state := by
  rcases bind_eq_ok hRun with ⟨_, _, hGet, hEmitted⟩
  cases hGet
  cases hName : state.scope.qualifiedName? name with
  | none =>
    rw [hName] at hEmitted
    cases hEmitted
  | some =>
    rw [hName] at hEmitted
    cases hEmitted
    rfl

/- The heading of a function is decided before its body. -/
theorem FunctionTurn.paramTypes?_of_lowerFunction
    (turn : FunctionTurn) {item : Target.Item} {function : Target.Function}
    (hRun :
      lowerFunction turn.statement.site turn.statement.node
          turn.statement.head turn.statement.body? turn.state =
        .ok item last)
    (hFunction : item.function? = some function) :
    turn.paramTypes? = some function.paramTypes := by
  rcases turn with ⟨⟨site, node, head, body?⟩, state⟩
  rcases exists_of_lowerFunction hRun with
    ⟨signature, _, _, _, _, inner, rfl, _, hName, hReturn, hUsed, hParams⟩
  cases state_of_qualified hName
  cases hFunction
  have hHeading :
      heading ⟨site, node, head, body?⟩ state = .ok signature.params (popFrame inner) := by
    simp only [heading, bind, EStateM.bind, hReturn, hUsed, inFrame, hParams]
  rw [paramTypes?, hHeading]
  rfl

/- One step, whose unit was entered before. -/
theorem gives_lowerStep
    {statement : FunctionStatement} (h : Prepared (step :: rest) state.scope)
    (hStatement : step.function? = some statement) (hRun : lowerStep step state = .ok items last) :
    ∃ function, Target.functions items = [function] ∧
      FunctionTurn.Gives ⟨statement, state⟩ function := by
  have hLowers := lowersTo_lowerStep h hRun
  have hOnly : functionStatements [step] = [statement] := filterMap_cons_some hStatement
  rw [hOnly] at hLowers
  rcases forall₂_cons_left_iff.mp hLowers with ⟨function, _, hFunction, hNone, hItems⟩
  rw [forall₂_nil_left_iff.mp hNone] at hItems
  refine ⟨function, hItems, hFunction, ?_⟩
  cases step with
  | enter => cases hStatement
  | statement _ stmt =>
    cases stmt with
    | function =>
      cases hStatement
      rcases bind_eq_ok hRun with ⟨item, _, hItem, hReturn⟩
      cases hReturn
      apply FunctionTurn.paramTypes?_of_lowerFunction _ hItem
      cases item with
      | function =>
        injection hItems with hSame
        exact congrArg some hSame
      | global => cases hItems
    | _ => cases hStatement

/- A step that is no function gives none. -/
theorem functions_of_lowerStep
    (h : Prepared (step :: rest) state.scope) (hNone : step.function? = none)
    (hRun : lowerStep step state = .ok items last) :
    Target.functions items = [] := by
  have hLowers := lowersTo_lowerStep h hRun
  have hOnly : functionStatements [step] = [] := filterMap_cons_none hNone
  rw [hOnly] at hLowers
  exact forall₂_nil_left_iff.mp hLowers

/- A whole run, by induction on its steps. -/
theorem gives_lowerSteps
    {steps : List Step} (h : Prepared steps state.scope)
    (hRun : lowerSteps steps state = .ok items last) :
    List.Forall₂ FunctionTurn.Gives (functionTurns steps state) (Target.functions items) ∧
      (functionTurns steps state).map FunctionTurn.statement = functionStatements steps := by
  induction steps generalizing state items with
  | nil =>
    cases hRun
    exact ⟨.nil, rfl⟩
  | cons step rest ih =>
    rcases h.exists_first hRun with ⟨first, more, middle, _, rfl, hStep, hMore, hNow, _⟩
    rcases ih hNow hMore with ⟨hLater, hStatements⟩
    have hItems :
        Target.functions (first ++ more) = Target.functions first ++ Target.functions more :=
      filterMap_append
    cases hFunction : step.function? with
    | none =>
      have hTurns : functionTurns (step :: rest) state = functionTurns rest middle := by
        simp only [functionTurns, hStep, hFunction]
      rw [hTurns, hItems, functions_of_lowerStep h hFunction hStep, functionStatements,
        filterMap_cons_none hFunction]
      exact ⟨hLater, hStatements⟩
    | some statement =>
      have hTurns :
          functionTurns (step :: rest) state = ⟨statement, state⟩ :: functionTurns rest middle := by
        simp only [functionTurns, hStep, hFunction]
      rcases gives_lowerStep h hFunction hStep with ⟨_, hOne, hGives⟩
      rw [hTurns, hItems, hOne, functionStatements, filterMap_cons_some hFunction]
      exact ⟨.cons hGives hLater, congrArg (statement :: ·) hStatements⟩

-----
-- Definitions Of a Unit
-----

/- A statement with a body in a unit. -/
def FunctionTurn.isBodyOf (id : UnitId) (turn : FunctionTurn) : Bool :=
  turn.statement.site.unitId == id && turn.statement.body?.isSome

/- The functions that are given for statements with a body. -/
def definedBy
    (id : UnitId) (turns : List FunctionTurn)
    (functions : List Target.Function) : List Target.Function :=
  ((turns.zip functions).filter fun entry =>
    entry.1.isBodyOf id).map Prod.snd

namespace Compilation

variable {program : Program}

def functionTurns (run : Compilation program) : List FunctionTurn :=
  ScriptLowering.functionTurns run.steps LowerState.start

/- The turns of the statements of a unit that have a body. -/
def bodiesOf (run : Compilation program) (id : UnitId) : List FunctionTurn :=
  run.functionTurns.filter (FunctionTurn.isBodyOf id)

/- The definitions that a unit contributes to the program. -/
def definitionsOf (run : Compilation program) (id : UnitId) : List Target.Function :=
  definedBy id run.functionTurns (Target.functions run.items)

end Compilation

theorem forall₂_filter_zip
    {α β : Type} {R : α → β → Prop} {p : α → Bool} {left : List α} {right : List β}
    (h : List.Forall₂ R left right) :
    List.Forall₂ R (left.filter p)
      (((left.zip right).filter fun entry => p entry.1).map Prod.snd) := by
  induction h with
  | nil => exact .nil
  | @cons first _ _ _ hFirst _ ih =>
    by_cases hKeep : p first = true
    · rw [zip_cons_cons, filter_cons_of_pos hKeep, filter_cons_of_pos (by exact hKeep)]
      exact .cons hFirst ih
    · rw [zip_cons_cons, filter_cons_of_neg hKeep, filter_cons_of_neg (by exact hKeep)]
      exact ih

/- In one unit, names are emitted as one only if they are one. -/
theorem FunctionTurn.Gives.repeats_iff
    {first second : FunctionTurn} {function other : Target.Function} (hFirst : first.Gives function)
    (hSecond : second.Gives other) (hSite : first.statement.site = second.statement.site) :
    function.Repeats other ↔ first.Repeats second := by
  unfold Target.Function.Repeats FunctionTurn.Repeats
  rw [hFirst.lowersTo.name, hSecond.lowersTo.name, hFirst.types,
    hSecond.types, hSite, emittedName, emittedName,
    append_cancel_left_eq, Option.some.injEq]

theorem forall_mem_iff_of_forall₂
    {α β : Type} {R : α → β → Prop} {p : α → Prop} {q : β → Prop} {left : List α} {right : List β}
    (h : List.Forall₂ R left right) (hSame : ∀ a ∈ left, ∀ b, R a b → (p a ↔ q b)) :
    (∀ a ∈ left, p a) ↔ ∀ b ∈ right, q b := by
  induction h with
  | nil => simp
  | cons hFirst _ ih =>
    rcases forall_mem_cons.mp hSame with ⟨hHead, hTail⟩
    rw [forall_mem_cons, forall_mem_cons, hHead _ hFirst, ih hTail]

/- Repetitions among the functions of a unit are those of its turns. -/
theorem pairwise_repeats_iff
    {turns : List FunctionTurn} {functions : List Target.Function}
    (h : List.Forall₂ FunctionTurn.Gives turns functions)
    (hSite : ∀ turn ∈ turns, turn.statement.site = site) :
    (functions.Pairwise fun f g => ¬f.Repeats g) ↔ turns.Pairwise fun a b => ¬a.Repeats b := by
  induction h with
  | nil => simp
  | @cons turn function rest more hFirst hRest ih =>
    rcases forall_mem_cons.mp hSite with ⟨hTurn, hOthers⟩
    have hHead :
        (∀ other ∈ rest, ¬turn.Repeats other) ↔ ∀ other ∈ more, ¬function.Repeats other := by
      apply forall_mem_iff_of_forall₂ hRest
      intro other hOther given hGiven
      have hSame : turn.statement.site = other.statement.site := by rw [hTurn, hOthers other hOther]
      rw [hFirst.repeats_iff hGiven hSame]
    rw [pairwise_cons, pairwise_cons, hHead, ih hOthers]

/- The statements of a unit that have a body. -/
def Site.bodies (site : Site) : List FunctionStatement :=
  (functionStatements
    (site.unit.statements.map (.statement site))).filter fun statement => statement.body?.isSome

theorem Step.site_of_function?
    {statement : FunctionStatement} (h : step.function? = some statement) :
    statement.site = step.site := by
  cases step with
  | enter => cases h
  | statement _ stmt =>
    cases stmt with
    | function =>
      cases h
      rfl
    | _ => cases h

/- The functions of a unit, if all steps of the unit are of one site. -/
theorem functionStatements_walkedOf
    {steps : List Step}
    (hSite :
      ∀ other stmt, Step.statement other stmt ∈ steps → other.unitId = site.unitId → other = site) :
    (functionStatements steps).filter (fun statement => statement.site.unitId == site.unitId) =
      functionStatements ((walkedOf site.unitId steps).map (.statement site)) := by
  induction steps with
  | nil => rfl
  | cons step _ ih =>
    have hRest := ih fun other stmt hMem => hSite other stmt (mem_cons_of_mem _ hMem)
    unfold functionStatements at hRest ⊢
    cases step with
    | enter => exact hRest
    | statement other stmt =>
      by_cases hId : other.unitId = site.unitId
      · have hSame := hSite other stmt mem_cons_self hId
        subst hSame
        rw [walkedOf_statement_self, map_cons]
        cases hFunction : (Step.statement other stmt).function? with
        | none => rw [filterMap_cons_none hFunction, filterMap_cons_none hFunction, hRest]
        | some statement =>
          have hHere : statement.site = other := Step.site_of_function? hFunction
          rw [filterMap_cons_some hFunction, filterMap_cons_some hFunction,
            filter_cons_of_pos (by simp [hHere]), hRest]
      · rw [walkedOf_statement_of_ne (Ne.symm hId)]
        cases hFunction : (Step.statement other stmt).function? with
        | none => rwa [filterMap_cons_none hFunction]
        | some statement =>
          have hHere : statement.site = other := Step.site_of_function? hFunction
          rwa [filterMap_cons_some hFunction, filter_cons_of_neg (by simp [hHere, hId])]

namespace Compilation

variable {program : Program} {run : Compilation program}

/- No unit is entered twice, so each has one site. -/
theorem site_eq
    {other : Site} (hSite : site ∈ enteredSites run.steps) (hOther : other ∈ enteredSites run.steps)
    (hId : other.unitId = site.unitId) :
    other = site := by
  rcases run.exists_walk with ⟨_, steps, _, hWalk, hSteps⟩
  have hOnce : ((enteredSites run.steps).map Site.unitId).Nodup := by
    rw [hSteps]
    exact hWalk.walkedOnce.entered_once
  exact inj_on_of_nodup_map hOnce hOther hSite hId

theorem site_mem (run : Compilation program) :
    run.site ∈ enteredSites run.steps := by
  rcases run.exists_walk with ⟨_, _, _, _, hSteps⟩
  rw [hSteps]
  exact mem_cons_self

theorem site_mem_of_statement {stmt : Stmt} (h : Step.statement site stmt ∈ run.steps) :
    site ∈ enteredSites run.steps := by
  have hEntered := (run.wellEntered.mem_of_statement h).1
  exact (mem_enteredSites site run.steps).mpr (hEntered.resolve_left not_mem_nil)

/- The statements of a unit are walked once, in their order. -/
theorem walkedOf_eq (h : site ∈ enteredSites run.steps) :
    walkedOf site.unitId run.steps = site.unit.statements := by
  rcases run.exists_walk with ⟨_, _, _, hWalk, hSteps⟩
  rw [hSteps] at h ⊢
  rcases mem_cons.mp h with rfl | hInner
  · exact hWalk.walkedOnce.entry_once
  · exact hWalk.walkedOnce.units_once site hInner

/- Every function with a body has one turn, in the order of its unit. -/
theorem statements_bodiesOf (h : site ∈ enteredSites run.steps) :
    (run.bodiesOf site.unitId).map FunctionTurn.statement = site.bodies := by
  have hTurns := (gives_lowerSteps run.wellEntered.prepared run.runs).2
  have hSite :
      ∀ other stmt, Step.statement other stmt ∈ run.steps →
        other.unitId = site.unitId → other = site :=
    fun _ _ hMem => site_eq h (site_mem_of_statement hMem)
  have hOwn := functionStatements_walkedOf hSite
  rw [walkedOf_eq h] at hOwn
  have hFilter :
      (run.bodiesOf site.unitId).map FunctionTurn.statement =
        (run.functionTurns.map FunctionTurn.statement).filter
          fun statement =>
            statement.site.unitId == site.unitId && statement.body?.isSome := by
    rw [filter_map]
    rfl
  rw [hFilter, functionTurns, hTurns]
  rw [Site.bodies, ← hOwn, filter_filter]
  congr 1
  funext statement
  exact Bool.and_comm _ _

end Compilation

/-
  For a program that compiles: its functions are what the
  function statements give in their turns. Each unit that is
  taken in contributes one definition for each of its
  statements with a body. Two of them repeat each other
  exactly if two of these statements do. Nor is a repetition
  noticed when a unit is entered.
-/
theorem definitions_repeat_iff_bodies_repeat
    {program : Program} {config : LayoutConfig} {text : Text}
    (hCompile : program.compile config = .ok text) :
    (∃ run : Compilation program,
      text = run.file.text config ∧
        List.Forall₂ FunctionTurn.Gives run.functionTurns (Target.functions run.items) ∧
        ∀ site ∈ enteredSites run.steps,
          (run.bodiesOf site.unitId).map FunctionTurn.statement = site.bodies ∧
            List.Forall₂ FunctionTurn.Gives (run.bodiesOf site.unitId)
              (run.definitionsOf site.unitId) ∧
            (((run.definitionsOf site.unitId).Pairwise fun f g => ¬f.Repeats g) ↔
              (run.bodiesOf site.unitId).Pairwise fun a b => ¬a.Repeats b)) ∧
      ∀ site bound stmts,
        register site bound (withoutRepeats bound stmts) = register site bound stmts := by
  rcases compile_eq_ok_iff.mp hCompile with ⟨run, rfl⟩
  have hGives := (gives_lowerSteps run.wellEntered.prepared run.runs).1
  refine ⟨⟨run, rfl, hGives, ?_⟩, register_withoutRepeats⟩
  intro site hSite
  have hOwn :
      List.Forall₂ FunctionTurn.Gives (run.bodiesOf site.unitId) (run.definitionsOf site.unitId) :=
    forall₂_filter_zip hGives
  have hStatements := Compilation.statements_bodiesOf hSite
  have hSame : ∀ turn ∈ run.bodiesOf site.unitId, turn.statement.site = site := by
    intro turn hTurn
    have hMem : turn.statement ∈ site.bodies := by
      rw [← hStatements]
      exact List.mem_map_of_mem hTurn
    rcases List.mem_filterMap.mp (List.mem_filter.mp hMem).1 with ⟨step, hStep, hFunction⟩
    rcases List.mem_map.mp hStep with ⟨stmt, _, rfl⟩
    exact Step.site_of_function? hFunction
  exact ⟨hStatements, hOwn, pairwise_repeats_iff hOwn hSame⟩

/- A unit that states a function with parameters of some types. -/
def headingUnit (headings : List (List Text × Option (List Stmt))) : Program :=
  ⟨[⟨"main.ts", [],
      headings.map fun heading =>
        .function plainNode
          ⟨"show",
            heading.1.map fun type =>
              ⟨plainNode, "value" ++ type, some ⟨type, Span.nowhere⟩⟩,
            some ⟨"void", Span.nowhere⟩⟩
          heading.2⟩],
    some 0, NodeTypes.empty, []⟩

/- Two bodies for parameters of different types. -/
def overloadedUnit : Program :=
  headingUnit [(["number"], none), (["number"], some []), (["string"], some [])]

/- Two bodies whose parameters are spelled in two ways. -/
def doubledUnit : Program :=
  headingUnit [(["number"], some []), (["i32"], some [])]

theorem overloadedUnit_defined_apart :
    ∃ text,
      overloadedUnit.compile LayoutConfig.standard = .ok text ∧
        ∃ run : Compilation overloadedUnit,
          (run.definitionsOf run.site.unitId).length = 2 ∧
            (run.definitionsOf run.site.unitId).Pairwise fun f g => ¬f.Repeats g := by
  have hPasses :
      Compilation.passes overloadedUnit (fun site _ _ =>
        let bodies :=
          (functionTurns (overloadedUnit.steps site)
            LowerState.start).filter (FunctionTurn.isBodyOf site.unitId)
        decide (bodies.length = 2 ∧ bodies.Pairwise fun a b => ¬a.Repeats b)) =
        true := by
    decide +kernel
  rcases Compilation.compiles_of_passes hPasses LayoutConfig.standard with ⟨_, hCompile⟩
  rcases (definitions_repeat_iff_bodies_repeat hCompile).1 with ⟨run, _, _, hUnits⟩
  rcases hUnits run.site run.site_mem with ⟨_, hGives, hRepeats⟩
  rcases of_decide_eq_true (run.check_of_passes hPasses) with ⟨hTwo, hApart⟩
  exact ⟨_, hCompile, run, hGives.length_eq.symm.trans hTwo, hRepeats.mpr hApart⟩

/- A program compiles although a unit defines a function twice. -/
theorem doubledUnit_defined_twice :
    ∃ (text : Text) (run : Compilation doubledUnit),
      doubledUnit.compile LayoutConfig.standard = .ok text ∧
        text = run.file.text LayoutConfig.standard ∧
        ¬(run.definitionsOf run.site.unitId).Pairwise fun f g => ¬f.Repeats g := by
  have hPasses :
      Compilation.passes doubledUnit (fun site items _ =>
        decide
          (¬(definedBy site.unitId (functionTurns (doubledUnit.steps site) LowerState.start)
              (Target.functions items)).Pairwise
            fun f g => ¬f.Repeats g)) =
        true := by
    decide +kernel
  rcases Compilation.exists_of_passes hPasses with ⟨run⟩
  have hRun := of_decide_eq_true (run.check_of_passes hPasses)
  exact ⟨_, run, compile_eq_ok_iff.mpr ⟨run, rfl⟩, rfl, hRun⟩

end ScriptLowering
