import ScriptLowering.Proofs.UnitTags

/-
  Where errors are placed. Lowering only comes to units that
  are reached from the entry unit by named imports, and an
  error is placed in the unit whose statement is lowered, at
  a node of that unit. Members of an object literal that have
  no node of their own are placed nowhere.

  Key theorems include:
    * `lowerStep_error`
    * `errors_placed_in_reached_units`
-/

namespace ScriptLowering

open List

-----
-- Reached Units
-----

namespace Program

/- A named import of one unit leads to another. -/
def Imports (program : Program) (importer target : UnitId) : Prop :=
  ∃ unit node specifier names,
    program.unit? importer = some unit ∧
      Stmt.importFrom node specifier (.named names) ∈ unit.statements ∧
      program.resolveModule? importer specifier = some (.unit target)

/- Named imports lead from one unit to another in some steps. -/
def Reaches (program : Program) : UnitId → UnitId → Prop :=
  Relation.ReflTransGen program.Imports

/- The site of a unit that is reached from the entry unit. -/
structure ReachesSite (program : Program) (entry : UnitId) (site : Site) : Prop where
  program_eq : site.program = program
  reaches : program.Reaches entry site.unitId
  unit_eq : program.unit? site.unitId = some site.unit

end Program

/- What a statement takes in, in full. -/
theorem imported?_statement_eq_some
    {site inner : Site} {stmt : Stmt} (h : (Step.statement site stmt).imported? = some inner) :
    ∃ node specifier names,
      stmt = .importFrom node specifier (.named names) ∧
        site.program.resolveModule? site.unitId specifier = some (.unit inner.unitId) ∧
        inner.program = site.program ∧
        inner.origin? = some specifier ∧
        site.program.unit? inner.unitId = some inner.unit := by
  rcases Step.exists_of_imported? h with
    ⟨_, node, specifier, names, _, _, hStep, _, hTarget, hUnit, rfl⟩
  cases hStep
  exact ⟨node, specifier, names, rfl, hTarget, rfl, rfl, hUnit⟩

section Walks

variable {program : Program} {entry : UnitId}
variable {visited later : List UnitId} {site inner : Site}
variable {stmts : List Stmt} {reads steps : List Step}

theorem Program.ReachesSite.imported
    {stmt : Stmt} (hSite : program.ReachesSite entry site) (hStmt : stmt ∈ site.unit.statements)
    (hImport : (Step.statement site stmt).imported? = some inner) :
    program.ReachesSite entry inner := by
  rcases hSite with ⟨rfl, hReaches, hUnit⟩
  rcases imported?_statement_eq_some hImport with
    ⟨node, specifier, names, rfl, hTarget, hProgram, _, hInner⟩
  have hEdge : site.program.Imports site.unitId inner.unitId :=
    ⟨site.unit, node, specifier, names, hUnit, hStmt, hTarget⟩
  exact ⟨hProgram, hReaches.tail hEdge, hInner⟩

/- A walk stays in units that are reached. -/
theorem Walks.reachesSite
    (h : Walks visited site stmts reads steps later) (hSite : program.ReachesSite entry site)
    (hStmts : stmts ⊆ site.unit.statements) :
    ∀ step ∈ steps, program.ReachesSite entry step.site := by
  induction h with
  | done =>
    intro step hStep
    cases hStep
  | pass _ _ ih =>
    rcases cons_subset.mp hStmts with ⟨_, hRest⟩
    exact forall_mem_cons.mpr ⟨hSite, ih hSite hRest⟩
  | takeIn hImport _ _ _ ihInner ihRest =>
    rcases cons_subset.mp hStmts with ⟨hStmt, hRest⟩
    have hTaken := hSite.imported hStmt hImport
    refine forall_mem_cons.mpr ⟨hTaken, forall_mem_append.mpr ⟨?_, ?_⟩⟩
    · exact ihInner hTaken (.refl _)
    · exact forall_mem_cons.mpr ⟨hSite, ihRest hSite hRest⟩

theorem Program.steps_reachesSite (hSite : program.entrySite? entry = some site) :
    ∀ step ∈ program.steps site, program.ReachesSite entry step.site := by
  rcases Program.entrySite?_eq_some hSite with ⟨hProgram, rfl, _, hUnit⟩
  have hEntry : program.ReachesSite site.unitId site := ⟨hProgram, .refl, hUnit⟩
  rcases exists_walks site [site.unitId] site.unit.statements with ⟨_, _, _, hWalk⟩
  rw [Program.steps_eq_of_walks hProgram hWalk]
  exact forall_mem_cons.mpr ⟨hEntry, hWalk.reachesSite hEntry (.refl _)⟩

end Walks

-----
-- Places
-----

/- The places of a unit that an error can point at. -/
def SourceUnit.HasPlace (unit : SourceUnit) (span : Span) : Prop :=
  span ∈ unit.nodes.map Node.span ∨
    (span = Span.nowhere ∧ ∃ part ∈ stmtsParts unit.statements, part.isPlaceless = true)

structure CompileError.IsPlacedIn (error : CompileError) (unit : SourceUnit) : Prop where
  unit_eq : error.unit = unit.path
  position_eq :
    error.position = unit.position error.span.start.toNat
  hasPlace : unit.HasPlace error.span

/- A unit shares all its parts with itself. -/
theorem Site.everyPart_shared (site : Site) :
    EveryPart (Shared ⟨site, site, site.unit.HasPlace, False⟩)
      (stmtsParts site.unit.statements) := by
  intro part hPart
  refine ⟨?_, ?_, nofun⟩
  · intro node hNode
    have hMem : node ∈ site.unit.nodes := mem_flatMap.mpr ⟨part, hPart, hNode⟩
    exact ⟨.inl (mem_map_of_mem hMem), rfl⟩
  · intro hPlaceless
    exact .inr ⟨rfl, part, hPart, hPlaceless⟩

/- A computation that is like some other one places its errors. -/
theorem Alike.isPlacedIn
    {α : Type} {site other : Site} {first second : LowerM α} {state last : LowerState}
    {error : CompileError} (h : Alike site other site.unit.HasPlace first second)
    (hError : first state = .error error last) :
    error.IsPlacedIn site.unit := by
  have hRun := h state
  rw [hError] at hRun
  generalize second state = result at hRun
  cases hRun with
  | error hSpan => exact ⟨rfl, rfl, hSpan⟩

/- A step of a unit: its statement is one of that unit. -/
def Step.IsOwn : Step → Prop
  | .enter _ => True
  | .statement site stmt => stmt ∈ site.unit.statements

theorem lowerStep_error
    {step : Step} {state last : LowerState} {error : CompileError} (hOwn : step.IsOwn)
    (h : lowerStep step state = .error error last) :
    error.IsPlacedIn step.site.unit := by
  cases step with
  | enter site =>
    have hRegister := alike_register rfl [] site.unit.statements site.everyPart_shared
    have hEnter : Alike site site site.unit.HasPlace (lowerStep (.enter site)) _ :=
      hRegister.bind fun _ _ _ _ => .pure []
    exact hEnter.isPlacedIn h
  | statement site stmt =>
    have hParts := everyPart_of_mem_stmts site.everyPart_shared hOwn
    have hPaired := paired_lowerTopLevel id rfl stmt (fun _ _ _ _ => ⟨rfl, fun _ _ => rfl⟩) hParts
    exact hPaired.alike.isPlacedIn h

theorem lowerSteps_error
    {steps : List Step} {state last : LowerState} {error : CompileError}
    (hOwn : ∀ step ∈ steps, step.IsOwn) (h : lowerSteps steps state = .error error last) :
    ∃ step ∈ steps, error.IsPlacedIn step.site.unit := by
  induction steps generalizing state with
  | nil => cases h
  | cons step rest ih =>
    rcases forall_mem_cons.mp hOwn with ⟨hStep, hRest⟩
    simp only [lowerSteps, Bind.bind, EStateM.bind] at h
    cases hFirst : lowerStep step state with
    | error =>
      rw [hFirst] at h
      cases h
      exact ⟨step, mem_cons_self, lowerStep_error hStep hFirst⟩
    | ok _ middle =>
      rw [hFirst] at h
      simp only at h
      cases hLater : lowerSteps rest middle with
      | error =>
        rw [hLater] at h
        cases h
        rcases ih hRest hLater with ⟨other, hMem, hPlaced⟩
        exact ⟨other, mem_cons_of_mem _ hMem, hPlaced⟩
      | ok =>
        rw [hLater] at h
        cases h

theorem Program.isOwn_steps (program : Program) (entry : Site) (hEntry : entry.program = program) :
    ∀ step ∈ program.steps entry, step.IsOwn := by
  intro step hStep
  cases step with
  | enter => trivial
  | statement => exact ((program.wellEntered_steps entry hEntry).mem_of_statement hStep).2

-----
-- Errors Of Programs
-----

section Errors

variable {program : Program} {config : LayoutConfig} {entry : UnitId}
variable {error : CompileError}

/- Only lowering fails; writing the text does not. -/
theorem Program.lower_of_compileFrom_error (h : program.compileFrom config entry = .error error) :
    program.lower entry = .error error := by
  unfold Program.compileFrom at h
  cases hResult : program.lower entry with
  | ok =>
    rw [hResult] at h
    cases h
  | error =>
    rw [hResult] at h
    cases h
    rfl

theorem Program.lowerSteps_of_lower_error
    {site : Site} (hEntry : program.entrySite? entry = some site)
    (h : program.lower entry = .error error) :
    ∃ state, lowerSteps (program.steps site) LowerState.start = .error error state := by
  simp only [Program.lower, hEntry] at h
  cases hRun : lowerSteps (program.steps site) LowerState.start with
  | ok =>
    rw [hRun] at h
    cases h
  | error _ state =>
    rw [hRun] at h
    cases h
    exact ⟨state, rfl⟩

/-
  An error is about a missing entry unit, or is placed in a
  unit that is reached from the entry unit.
-/
theorem errors_placed_in_reached_units (h : program.compileFrom config entry = .error error) :
    (program.unit? entry = none ∧ error.unit = [] ∧ error.position = ⟨1, 1⟩ ∧ error.span = ⟨0, 0⟩) ∨
      ∃ id unit,
        program.Reaches entry id ∧ program.unit? id = some unit ∧ error.IsPlacedIn unit := by
  have hLower := Program.lower_of_compileFrom_error h
  cases hEntry : program.entrySite? entry with
  | none =>
      simp only [Program.lower, hEntry] at hLower
      cases hLower
      exact Or.inl ⟨Option.map_eq_none_iff.mp hEntry, rfl, rfl, rfl⟩
  | some site =>
      have hProgram := (Program.entrySite?_eq_some hEntry).1
      have hOwn := program.isOwn_steps site hProgram
      rcases Program.lowerSteps_of_lower_error hEntry hLower with ⟨state, hRun⟩
      rcases lowerSteps_error hOwn hRun with ⟨step, hStep, hPlaced⟩
      have hSite := Program.steps_reachesSite hEntry step hStep
      exact Or.inr ⟨step.site.unitId, step.site.unit, hSite.reaches, hSite.unit_eq, hPlaced⟩

end Errors

/- The error of a program that starts at a unit, if it has one. -/
def Program.failure?
    (program : Program) (config : LayoutConfig) (entry : UnitId) : Option CompileError :=
  match program.compileFrom config entry with
  | .ok _ => none
  | .error error => some error

theorem Program.compileFrom_of_failure?
    {program : Program} {config : LayoutConfig} {entry : UnitId} {error : CompileError}
    (h : program.failure? config entry = some error) :
    program.compileFrom config entry = .error error := by
  unfold Program.failure? at h
  cases hResult : program.compileFrom config entry with
  | ok =>
    rw [hResult] at h
    cases h
  | error =>
    rw [hResult] at h
    cases h
    rfl

/-
  A unit with an unknown name in its second line, which is
  reached through another unit.
-/
def brokenUnits : Program :=
  ⟨[⟨"main.ts", [], nameImport "./middle.ts" "f" ::
          (functionUnit [] "g").statements⟩,
      ⟨"middle.ts", [], [nameImport "./main.ts" "g", nameImport "./broken.ts" "f"]⟩,
      ⟨"broken.ts", "function f(): void;\nconst y = x;",
        [.function ⟨1, ⟨0, 19⟩⟩ ⟨"f", [], some ⟨"void", Span.nowhere⟩⟩ none,
          .vars ⟨2, ⟨20, 32⟩⟩ .constKind
            [.mk ⟨3, ⟨26, 31⟩⟩ "y" (some ⟨"number", Span.nowhere⟩)
              (some (.ident ⟨4, ⟨30, 31⟩⟩ "x"))]]⟩],
    some 0, NodeTypes.empty,
    [⟨0, "./middle.ts", .unit 1⟩, ⟨1, "./main.ts", .unit 0⟩, ⟨1, "./broken.ts", .unit 2⟩]⟩

theorem brokenUnits_errors_placed_in_reached_units :
    ∃ error id unit,
      brokenUnits.compileFrom LayoutConfig.standard 0 = .error error ∧
        error.kind = .unknownIdentifier ∧
        error.span = ⟨30, 31⟩ ∧
        error.position = ⟨2, 11⟩ ∧
        brokenUnits.Reaches 0 id ∧
        brokenUnits.unit? id = some unit ∧
        unit.path = "broken.ts" ∧
        error.IsPlacedIn unit := by
  have hFailure :
      brokenUnits.failure? LayoutConfig.standard 0 =
        some ⟨.unknownIdentifier, "unknown identifier `x`", "broken.ts", ⟨2, 11⟩, ⟨30, 31⟩⟩ := by
    decide +kernel
  have hFails := Program.compileFrom_of_failure? hFailure
  rcases errors_placed_in_reached_units hFails with
    ⟨hNone, _⟩ | ⟨id, unit, hReaches, hUnit, hPlaced⟩
  · cases hNone
  · exact ⟨_, id, unit, hFails, rfl, rfl, rfl, hReaches, hUnit, hPlaced.unit_eq.symm, hPlaced⟩

end ScriptLowering
