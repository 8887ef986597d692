import ScriptLowering.Proofs.UnitWalk

/-
  Where the names of the root frame come from. A name that a
  unit declares is bound with the origin of that unit, which
  is the specifier of the import that was read first. All
  other names belong to the native library and have no
  origin.

  Key theorems include:
    * `units_walked_once_and_tagged`
-/

namespace ScriptLowering

open List

variable {entry : Site} {program : Program}

-----
-- Tags Of Units
-----

/-
  The steps of a walk enter no unit twice, and of each unit
  they walk all statements once, in order.
-/
structure WalkedOnce (entry : Site) (steps : List Step) : Prop where
  entered_once : (entry.unitId :: enteredUnits steps).Nodup
  entry_once : walkedOf entry.unitId steps = entry.unit.statements
  units_once :
    ∀ site ∈ enteredSites steps, walkedOf site.unitId steps = site.unit.statements
  others_never :
    ∀ id, id ∉ entry.unitId :: enteredUnits steps → walkedOf id steps = []

theorem Walks.walkedOnce
    {reads steps : List Step} {later : List UnitId}
    (h : Walks [entry.unitId] entry entry.unit.statements reads steps later) :
    WalkedOnce entry steps := by
  have hVisited : entry.unitId ∈ [entry.unitId] := mem_singleton_self _
  refine ⟨?_, h.walkedOf_site hVisited, ?_, ?_⟩
  · have hNodup := h.nodup (nodup_singleton _)
    rw [h.later_eq, ← reverse_cons, nodup_reverse] at hNodup
    exact hNodup
  · intro site hSite
    exact h.walkedOf_entered hVisited ((mem_enteredSites site steps).mp hSite)
  · intro id hId
    rcases not_or.mp (mem_cons.not.mp hId) with ⟨hEntry, hEntered⟩
    exact h.walkedOf_eq_nil hEntry hEntered

/- The specifier that a step imports by. -/
def Step.specifier? : Step → Option Text
  | .statement _ (.importFrom _ specifier _) => some specifier
  | _ => none

/- A unit that is taken in has the specifier as its origin. -/
theorem Step.origin_of_imported? {step : Step} {inner : Site} (h : step.imported? = some inner) :
    inner.origin? = step.specifier? ∧ inner.origin?.isSome := by
  rcases exists_of_imported? h with ⟨_, _, _, _, _, _, rfl, _, _, _, rfl⟩
  exact ⟨rfl, rfl⟩

/- The names that a statement of a unit declares. -/
def Stmt.declaredNames : Stmt → List Text
  | .function _ head _ => [head.name]
  | .vars _ _ declarators => declarators.map Declarator.name
  | _ => []

/- The names that a unit declares at its top. -/
def Site.declaredNames (site : Site) : List Text :=
  site.unit.statements.flatMap Stmt.declaredNames

/- The names that a unit takes from the native library. -/
def Site.nativeNames (site : Site) : List Text :=
  site.unit.statements.flatMap fun stmt =>
    (Step.statement site stmt).fromNative

/-
  The names of a root frame and their tags: those of a unit
  have the tag of the unit, and all others are native ones.
-/
structure RootTagged (sites : List Site) (root : Frame) : Prop where
  declared :
    ∀ site ∈ sites, ∀ name ∈ site.declaredNames,
      (root.lookup name).map Binding.origin? = some site.origin?
  accounted :
    ∀ name binding, (name, binding) ∈ root →
      (∃ site ∈ sites, name ∈ site.declaredNames ∧ binding.origin? = site.origin?) ∨
        binding.origin? = none ∧
          (name ∈ Native.globals.map Prod.fst ∨ ∃ site ∈ sites, name ∈ site.nativeNames)

section Entered

variable {steps : List Step} {step : Step} {name : Text}

/- Steps belong to units that were entered. -/
theorem WellEntered.site_mem
    (h : WellEntered [] (.enter entry :: steps)) (hStep : step ∈ Step.enter entry :: steps) :
    step.site ∈ entry :: enteredSites steps := by
  have hEntered :
      ∀ site, Step.enter site ∈ Step.enter entry :: steps → site ∈ entry :: enteredSites steps := by
    intro site hSite
    rw [← enteredSites_enter]
    exact (mem_enteredSites site _).mpr hSite
  cases step with
  | enter site => exact hEntered site hStep
  | statement site => exact hEntered site ((h.mem_of_statement hStep).1.resolve_left not_mem_nil)

theorem WellEntered.mem_declaredNames
    (h : WellEntered [] (.enter entry :: steps)) (hStep : step ∈ Step.enter entry :: steps)
    (hName : name ∈ step.bound) :
    name ∈ step.site.declaredNames := by
  cases step with
  | enter =>
    rcases mem_filterMap.mp hName with ⟨stmt, hStmt, hFunction⟩
    refine mem_flatMap.mpr ⟨stmt, hStmt, ?_⟩
    cases stmt with
    | function =>
      cases hFunction
      exact mem_singleton_self _
    | _ => cases hFunction
  | statement _ stmt =>
    have hStmt := (h.mem_of_statement hStep).2
    refine mem_flatMap.mpr ⟨stmt, hStmt, ?_⟩
    cases stmt with
    | vars => exact hName
    | _ => cases hName

theorem WellEntered.mem_nativeNames
    (h : WellEntered [] (.enter entry :: steps)) (hStep : step ∈ Step.enter entry :: steps)
    (hName : name ∈ step.fromNative) :
    name ∈ step.site.nativeNames := by
  cases step with
  | enter => cases hName
  | statement _ stmt => exact mem_flatMap.mpr ⟨stmt, (h.mem_of_statement hStep).2, hName⟩

/- All statements of the entered units are steps. -/
theorem WalkedOnce.statement_mem
    (h : WalkedOnce entry steps) (hEntered : WellEntered [] (.enter entry :: steps)) {site : Site}
    (hSite : site ∈ entry :: enteredSites steps) {stmt : Stmt}
    (hStmt : stmt ∈ site.unit.statements) :
    Step.statement site stmt ∈ steps := by
  have hWalked : stmt ∈ walkedOf site.unitId steps := by
    rcases mem_cons.mp hSite with rfl | hInner
    · rw [h.entry_once]
      exact hStmt
    · rw [h.units_once site hInner]
      exact hStmt
  rcases mem_filterMap.mp hWalked with ⟨step, hStep, hSame⟩
  cases step with
  | enter => cases hSame
  | statement other =>
    by_cases hId : other.unitId = site.unitId
    · rw [Step.statementOf?, if_pos hId] at hSame
      cases hSame
      -- No unit is entered twice, so both sites are one.
      have hOther : other ∈ entry :: enteredSites steps :=
        hEntered.site_mem (mem_cons_of_mem _ hStep)
      have hOnce : ((entry :: enteredSites steps).map Site.unitId).Nodup := h.entered_once
      have hEq : other = site := inj_on_of_nodup_map hOnce hOther hSite hId
      rw [← hEq]
      exact hStep
    · rw [Step.statementOf?, if_neg hId] at hSame
      cases hSame

theorem WalkedOnce.exists_bound
    (h : WalkedOnce entry steps) (hEntered : WellEntered [] (.enter entry :: steps)) {site : Site}
    (hSite : site ∈ entry :: enteredSites steps) (hName : name ∈ site.declaredNames) :
    ∃ step ∈ Step.enter entry :: steps, step.site = site ∧ name ∈ step.bound := by
  rcases mem_flatMap.mp hName with ⟨stmt, hStmt, hDeclares⟩
  cases stmt with
  | function =>
    refine ⟨.enter site, ?_, rfl, ?_⟩
    · exact (mem_enteredSites site _).mp hSite
    · rw [mem_singleton.mp hDeclares]
      exact mem_filterMap.mpr ⟨_, hStmt, rfl⟩
  | vars => exact ⟨_, mem_cons_of_mem _ (h.statement_mem hEntered hSite hStmt), rfl, hDeclares⟩
  | _ => cases hDeclares

end Entered

theorem mem_originsOf_start
    {name : Text} {origin? : Option Text}
    (h : (name, origin?) ∈ originsOf LowerState.start.scope.root) :
    origin? = none ∧ name ∈ Native.globals.map Prod.fst := by
  simp only [originsOf, LowerState.start, map_map, mem_map, Function.comp_apply, Prod.mk.injEq] at h
  rcases h with ⟨_, hGlobal, rfl, rfl⟩
  exact ⟨rfl, mem_map_of_mem hGlobal⟩

theorem WalkedOnce.rootTagged
    {steps : List Step} {items : List Target.Item} {state : LowerState} (h : WalkedOnce entry steps)
    (hEntered : WellEntered [] (.enter entry :: steps))
    (hRun : lowerSteps (.enter entry :: steps) LowerState.start = .ok items state) :
    RootTagged (entry :: enteredSites steps) state.scope.root := by
  rcases rootGrows_lowerSteps hEntered.prepared hRun with ⟨_, hGrows, hBinds, hOnly, _⟩
  constructor
  · intro site hSite name hName
    rcases h.exists_bound hEntered hSite hName with ⟨step, hStep, rfl, hBound⟩
    apply origin_of_lookup hGrows.only.distinct
    rw [hGrows.origins_eq]
    exact mem_append_left _ (hBinds step hStep name hBound)
  · intro name binding hMem
    have hOrigin : (name, binding.origin?) ∈ originsOf state.scope.root :=
      mem_map.mpr ⟨_, hMem, rfl⟩
    rw [hGrows.origins_eq] at hOrigin
    rcases mem_append.mp hOrigin with hAdded | hStart
    · rcases hOnly _ hAdded with ⟨step, hStep, hMay⟩
      have hSite := hEntered.site_mem hStep
      rcases hMay with ⟨hBound, hTag⟩ | ⟨hNative, hNone⟩
      · exact .inl ⟨step.site, hSite, hEntered.mem_declaredNames hStep hBound, hTag⟩
      · exact .inr ⟨hNone, .inr ⟨step.site, hSite, hEntered.mem_nativeNames hStep hNative⟩⟩
    · rcases mem_originsOf_start hStart with ⟨hNone, hGlobal⟩
      exact .inr ⟨hNone, .inl hGlobal⟩

theorem Program.entrySite?_eq_some {id : UnitId} (h : program.entrySite? id = some entry) :
    entry.program = program ∧ entry.unitId = id ∧
      entry.origin? = none ∧ program.unit? id = some entry.unit := by
  rcases Option.map_eq_some_iff.mp h with ⟨_, hUnit, rfl⟩
  exact ⟨rfl, rfl, rfl, hUnit⟩

theorem Program.lower_eq_ok
    {id : UnitId} {file : Target.CodeFile} (hEntry : program.entrySite? id = some entry)
    (h : program.lower id = .ok file) :
    ∃ items state,
      lowerSteps (program.steps entry) LowerState.start = .ok items state ∧
        file = codeFile state.types items := by
  simp only [Program.lower, hEntry] at h
  cases hRun : lowerSteps (program.steps entry) LowerState.start with
  | error =>
    rw [hRun] at h
    cases h
  | ok items state =>
    rw [hRun] at h
    cases h
    exact ⟨items, state, rfl, rfl⟩

/- The steps of a compilation are those of a walk. -/
theorem Compilation.exists_walk (run : Compilation program) :
    ∃ reads steps visited,
      Walks [run.site.unitId] run.site run.site.unit.statements reads steps visited ∧
        run.steps = .enter run.site :: steps := by
  rcases Option.bind_eq_some_iff.mp run.starts with ⟨_, _, hSite⟩
  have hProgram := (Program.entrySite?_eq_some hSite).1
  rcases exists_walks run.site [run.site.unitId] run.site.unit.statements with
    ⟨reads, steps, visited, hWalk⟩
  exact ⟨reads, steps, visited, hWalk, Program.steps_eq_of_walks hProgram hWalk⟩

/-
  The steps from an entry unit are those of its one walk. The
  walk enters a unit where it is first imported and never
  again, with the specifier of that import as its origin,
  and the names that lowering binds at the root carry the
  origin of a unit it entered.
-/
theorem units_walked_once_and_tagged
    {program : Program} {id : UnitId} {entry : Site} (hEntry : program.entrySite? id = some entry) :
    ∃ reads steps visited,
      Walks [id] entry entry.unit.statements reads steps visited ∧
        (∀ others otherSteps otherVisited,
          Walks [id] entry entry.unit.statements others otherSteps otherVisited →
            others = reads ∧ otherSteps = steps) ∧
        program.steps entry = .enter entry :: steps ∧
        WalkedOnce entry steps ∧
        VisitsInOrder program.importsOf [id] (program.importsOf id) (enteredUnits steps) ∧
        enteredSites steps = firstInclusions [id] (reads.filterMap Step.imported?) ∧
        (∀ step ∈ reads, ∀ inner, step.imported? = some inner →
          inner.origin? = step.specifier? ∧ inner.origin?.isSome) ∧
        entry.origin? = none ∧
        ∀ file, program.lower id = .ok file →
          ∃ items state,
            lowerSteps (program.steps entry) LowerState.start = .ok items state ∧
              file = codeFile state.types items ∧
              RootTagged (entry :: enteredSites steps) state.scope.root := by
  rcases Program.entrySite?_eq_some hEntry with ⟨rfl, rfl, hOrigin, hUnit⟩
  rcases exists_walks entry [entry.unitId] entry.unit.statements with ⟨reads, steps, visited, hWalk⟩
  have hSteps := Program.steps_eq_of_walks rfl hWalk
  refine
    ⟨reads, steps, visited, hWalk, ?_, hSteps, hWalk.walkedOnce, ?_,
      hWalk.enteredSites_eq, ?_, hOrigin, ?_⟩
  · intro others otherSteps otherVisited hOther
    rcases hOther.unique hWalk with ⟨hReads, hSame, _⟩
    exact ⟨hReads, hSame⟩
  · rw [Site.importsOf_eq hUnit]
    exact hWalk.visitsInOrder
  · intro step _ inner hImport
    exact Step.origin_of_imported? hImport
  · intro file hFile
    rcases Program.lower_eq_ok hEntry hFile with ⟨items, state, hRun, hCode⟩
    refine ⟨items, state, hRun, hCode, ?_⟩
    have hEntered := entry.program.wellEntered_steps entry rfl
    rw [hSteps] at hEntered hRun
    exact hWalk.walkedOnce.rootTagged hEntered hRun

/-
  Two units that import each other and themselves; one of
  them is imported under two specifiers.
-/
def ringUnits : Program :=
  ⟨[⟨"main.ts", [],
        [nameImport "./self.ts" "g", nameImport "./a.ts" "f", nameImport "./again.ts" "f"] ++
          (functionUnit [] "g").statements⟩,
      ⟨"a.ts", [],
        [nameImport "./main.ts" "g", nameImport "./me.ts" "f"] ++
          (functionUnit [] "f").statements⟩],
    some 0, NodeTypes.empty,
    [⟨0, "./self.ts", .unit 0⟩, ⟨0, "./a.ts", .unit 1⟩,
      ⟨0, "./again.ts", .unit 1⟩, ⟨1, "./main.ts", .unit 0⟩,
      ⟨1, "./me.ts", .unit 1⟩]⟩

theorem ringUnits_walked_once_and_tagged :
    ∃ entry file reads steps visited items state,
      ringUnits.entrySite? 0 = some entry ∧ ringUnits.lower 0 = .ok file ∧
        Walks [0] entry entry.unit.statements reads steps visited ∧
        enteredUnits steps = [1] ∧
        WalkedOnce entry steps ∧
        lowerSteps (ringUnits.steps entry) LowerState.start = .ok items state ∧
        (state.scope.lookupRoot? "f").map Binding.origin? = some (some ("./a.ts" : Text)) ∧
        (state.scope.lookupRoot? "g").map Binding.origin? = some none := by
  have hChecked :
      ((ringUnits.entrySite? 0).any fun entry =>
        decide
          (enteredUnits (ringUnits.steps entry) = [0, 1] ∧ ("g" : Text) ∈ entry.declaredNames ∧
            ∃ site ∈ enteredSites (ringUnits.steps entry),
              ("f" : Text) ∈ site.declaredNames ∧
                site.origin? = some ("./a.ts" : Text))) = true := by
    decide +kernel
  have hLowers : (ringUnits.lower 0).isOk = true := by decide +kernel
  rcases (Option.any_eq_true _ _).mp hChecked with ⟨entry, hEntry, hFacts⟩
  rcases of_decide_eq_true hFacts with ⟨hUnits, hG, site, hSite, hF, hTag⟩
  cases hFile : ringUnits.lower 0 with
  | error =>
      rw [hFile] at hLowers
      cases hLowers
  | ok file =>
      rcases units_walked_once_and_tagged hEntry with
        ⟨reads, steps, visited, hWalk, _, hSteps, hOnce, _, _, _, hOrigin, hTagged⟩
      rcases hTagged file hFile with ⟨items, state, hRun, _, hRoot⟩
      rw [hSteps, enteredUnits_enter] at hUnits
      rw [hSteps, enteredSites_enter] at hSite
      have hAtF := hRoot.declared site hSite "f" hF
      have hAtG := hRoot.declared entry List.mem_cons_self "g" hG
      rw [hTag] at hAtF
      rw [hOrigin] at hAtG
      exact
        ⟨entry, file, reads, steps, visited, items, state, hEntry,
          rfl, hWalk, (List.cons.inj hUnits).2, hOnce, hRun, hAtF,
          hAtG⟩

end ScriptLowering
