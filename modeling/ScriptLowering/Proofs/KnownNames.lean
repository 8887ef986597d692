import ScriptLowering.Proofs.ErrorPlaces
import ScriptLowering.Proofs.LexiconCourse
import ScriptLowering.Proofs.StructNames

/-
  The names that an import may list. A unit is taken in
  before the names that are imported from it are looked up,
  and they are looked up among all names that are known by
  then. A name is known if it belongs to the native library,
  if some unit has introduced it, or if a struct was
  synthesized under it. Whether the imported unit provides
  the name plays no part.

  Key theorems include:
    * `knows_iff_knownAfter`
    * `imports_list_known_names`
-/

namespace ScriptLowering

open List TypeTable LowerState

variable {steps : List Step} {state : LowerState}

-----
-- Names Of Types
-----

/- Deciding and using types declares none. -/
theorem keptByUse_declaredNames (names : List Text) :
    KeptByUse fun table => table.declaredNames = names := by
  constructor
  · refine .of_push ?_
    intro table fields hTable
    unfold declaredNames
    rw [Registry.declaredNames_push, if_neg (by simp), append_nil]
    exact hTable
  · intro table type hTable
    show (table.registry.markUsed type).declaredNames ++ table.aliases.map Prod.fst = names
    rw [Registry.declaredNames_markUsed]
    exact hTable

section Declarations

variable {table after : TypeTable} {type : TypeName}

/- What a decision leaves has declared what was declared before. -/
theorem declaredNames_eq_of_intern
    {ε α : Type} {action : EStateM ε TypeTable α} {value : α}
    (h : ∀ {kept : TypeTable → Prop}, KeptByInterning kept → Preserves kept action fun _ => True)
    (hRun : action table = .ok value after) :
    after.declaredNames = table.declaredNames := by
  have hKept := (h (keptByUse_declaredNames table.declaredNames).interned).kept rfl
  rw [hRun] at hKept
  exact hKept

theorem mem_declaredNames_declareStruct
    {name : Text} {fields : List (Text × TypeName)}
    (hRun : declareStruct name fields table = .ok type after) (other : Text) :
    other ∈ after.declaredNames ↔ other = name ∨ other ∈ table.declaredNames := by
  rcases bind_eq_ok hRun with ⟨_, _, hGet, hDeclare⟩
  cases hGet
  cases hResult : table.registry.declare name fields with
  | error =>
    rw [hResult] at hDeclare
    cases hDeclare
  | ok =>
    rw [hResult] at hDeclare
    cases hDeclare
    rcases Registry.declare_eq_ok hResult with ⟨_, rfl⟩
    unfold declaredNames
    rw [Registry.declaredNames_push, if_pos rfl]
    simp only [mem_append, mem_singleton]
    tauto

theorem mem_declaredNames_addAlias
    {name : Text} {target : TypeName} (hRun : addAlias name target table = .ok type after)
    (other : Text) :
    other ∈ after.declaredNames ↔ other = name ∨ other ∈ table.declaredNames := by
  cases hRun
  show other ∈ table.registry.declaredNames ++ name :: table.aliases.map Prod.fst ↔ _
  unfold declaredNames
  rw [mem_append, mem_append, mem_cons, or_left_comm]

theorem mem_declaredNames_declareInterface
    {decl : Interface} (hRun : declareInterface decl table = .ok type after) (other : Text) :
    other ∈ after.declaredNames ↔ other = decl.name ∨ other ∈ table.declaredNames := by
  rcases bind_eq_ok hRun with ⟨_, _, hGet, hDeclare⟩
  cases hGet
  split at hDeclare
  · cases hDeclare
  · rcases bind_eq_ok hDeclare with ⟨_, middle, hFields, hStruct⟩
    have hSame :=
      declaredNames_eq_of_intern
        (fun hKept => preserves_interfaceFields_of_intern hKept decl.name decl.members)
        hFields
    split at hStruct
    · cases hStruct
    · rw [mem_declaredNames_declareStruct hStruct, hSame]

theorem mem_declaredNames_declareAlias
    {decl : TypeAlias} (hRun : declareAlias decl table = .ok type after) (other : Text) :
    other ∈ after.declaredNames ↔ other = decl.name ∨ other ∈ table.declaredNames := by
  rcases bind_eq_ok hRun with ⟨_, _, hGet, hDeclare⟩
  cases hGet
  split at hDeclare
  · cases hDeclare
  · cases hTerm : TypeTerm.ofText (Text.trim decl.type.text) with
    | shape members =>
      rw [hTerm] at hDeclare
      rcases bind_eq_ok hDeclare with ⟨_, middle, hFields, hStruct⟩
      have hSame :=
        declaredNames_eq_of_intern
          (fun hKept => preserves_evalMembers_of_intern hKept members) hFields
      rw [mem_declaredNames_declareStruct hStruct, hSame]
    | _ =>
      rw [hTerm] at hDeclare
      rcases bind_eq_ok hDeclare with ⟨_, middle, hTarget, hAlias⟩
      have hSame :=
        declaredNames_eq_of_intern (fun hKept => preserves_eval_of_intern hKept _) hTarget
      rw [mem_declaredNames_addAlias hAlias, hSame]

end Declarations

/- The names of the types that a step declares. -/
def Step.typeNames : Step → List Text
  | .enter site => site.unit.statements.filterMap Stmt.typeName?
  | .statement _ _ => []

section Runs

variable {last : LowerState}

/- What is made of actions declares no types. -/
theorem Paired.declaredNames_eq
    {twins : Twins} {adds : Bool} {α : Type} {told : α → Prop} {action other : LowerM α} {value : α}
    (h : Paired twins adds told action other) (hRun : action state = .ok value last) :
    last.types.declaredNames = state.types.declaredNames := by
  have hKept := (h.preserves (keptByUse_declaredNames state.types.declaredNames)).kept rfl
  rw [hRun] at hKept
  exact hKept

/- Entering a unit declares the types of its statements. -/
theorem mem_declaredNames_register
    {site : Site} {bound : List Text} {stmts : List Stmt}
    (hRun : register site bound stmts state = .ok () last) (name : Text) :
    name ∈ last.types.declaredNames ↔
      name ∈ stmts.filterMap Stmt.typeName? ∨ name ∈ state.types.declaredNames := by
  fun_induction register site bound stmts generalizing state with
  | case1 =>
    cases hRun
    simp
  | case2 _ _ _ _ _ _ ih => exact ih hRun
  | case3 _ _ _ _ _ _ ih =>
    rcases bind_eq_ok hRun with ⟨_, middle, hDeclare, hRest⟩
    have hSame :=
      @Paired.declaredNames_eq _ _ (.anywhere site site) _ _ _ _ _ _
        (.declareInitialized trivial .nowhere _ _ _) hDeclare
    rw [← hSame]
    exact ih hRest
  | case4 _ _ _ _ ih =>
    rcases bind_eq_ok hRun with ⟨_, middle, hDeclare, hRest⟩
    have hTypes := (onTypes_eq_ok hDeclare).2
    rw [ih hRest, mem_declaredNames_declareInterface hTypes]
    simp only [filterMap_cons, Stmt.typeName?, mem_cons]
    tauto
  | case5 _ _ _ _ ih =>
    rcases bind_eq_ok hRun with ⟨_, _, hDeclare, hRest⟩
    have hTypes := (onTypes_eq_ok hDeclare).2
    rw [ih hRest, mem_declaredNames_declareAlias hTypes]
    simp only [filterMap_cons, Stmt.typeName?, mem_cons]
    tauto
  | case6 _ stmt _ _ hInterface hAlias ih =>
    have hNone : stmt.typeName? = none := by
      cases stmt with
      | interface node decl => exact (hInterface node decl rfl).elim
      | typeAlias node decl => exact (hAlias node decl rfl).elim
      | _ => rfl
    rw [filterMap_cons_none hNone]
    exact ih hRun

theorem mem_declaredNames_lowerStep
    {step : Step} {items : List Target.Item} (hRun : lowerStep step state = .ok items last)
    (name : Text) :
    name ∈ last.types.declaredNames ↔ name ∈ step.typeNames ∨ name ∈ state.types.declaredNames := by
  cases step with
  | enter =>
    rcases bind_eq_ok hRun with ⟨_, _, hRegister, hReturn⟩
    cases hReturn
    exact mem_declaredNames_register hRegister name
  | statement site stmt =>
    rw [(paired_lowerTopLevel_self site stmt).declaredNames_eq hRun]
    simp [Step.typeNames]

/- A whole run declares the types of the units it enters. -/
theorem mem_declaredNames_lowerSteps
    {steps : List Step} {items : List Target.Item} (hRun : lowerSteps steps state = .ok items last)
    (name : Text) :
    name ∈ last.types.declaredNames ↔
      (∃ step ∈ steps, name ∈ step.typeNames) ∨ name ∈ state.types.declaredNames := by
  induction steps generalizing state items with
  | nil =>
    cases hRun
    simp
  | cons _ _ ih =>
    rcases bind_eq_ok hRun with ⟨_, _, hStep, hRest⟩
    rcases bind_eq_ok hRest with ⟨_, _, hMore, hReturn⟩
    cases hReturn
    rw [ih hMore, mem_declaredNames_lowerStep hStep]
    simp only [mem_cons, exists_eq_or_imp]
    rw [or_left_comm, or_assoc]

end Runs

/- A name of a type was declared, or comes from the counter. -/
theorem Valid.isTypeName_iff {log : List TableEvent} (h : Valid log) {name : Text} :
    (replay log).isTypeName name = true ↔
      name ∈ (replay log).declaredNames ∨
        ∃ count < (replay log).registry.synthesizedCount, synthesizedName count = name := by
  have hStruct :
      (replay log).registry.contains name = true ↔
        name ∈ (replay log).registry.structs.map Struct.name := by
    rw [Registry.contains_iff, mem_map]
  have hAlias :
      ((replay log).alias? name).isSome = true ↔ name ∈ (replay log).aliases.map Prod.fst := by
    rw [Option.isSome_iff_ne_none, Ne, alias?_eq_none_iff, not_not]
  unfold isTypeName declaredNames
  rw [Bool.or_eq_true, hStruct, hAlias, Registry.mem_names_iff,
    h.mem_synthesizedNames_iff, mem_append, or_right_comm]

-----
-- Names Of The Root Frame
-----

/- What a run from the start binds in the root frame. -/
theorem mem_rootNames_lowerSteps
    {items : List Target.Item} {last : LowerState} (hEntered : WellEntered [] steps)
    (hRun : lowerSteps steps start = .ok items last) (name : Text) :
    name ∈ last.scope.rootNames ↔
      name ∈ Native.globals.map Prod.fst ∨
        ∃ step ∈ steps, name ∈ step.bound ∨ name ∈ step.fromNative := by
  rcases rootGrows_lowerSteps hEntered.prepared hRun with ⟨_, hGrows, hBinds, hOnly, hTaken, _⟩
  constructor
  · intro hName
    rcases mem_map.mp hName with ⟨entry, hEntry, rfl⟩
    rw [hGrows.origins_eq] at hEntry
    rcases mem_append.mp hEntry with hAdded | hStart
    · rcases hOnly entry hAdded with ⟨step, hStep, hBound | hNative⟩
      · exact .inr ⟨step, hStep, .inl hBound.1⟩
      · exact .inr ⟨step, hStep, .inr hNative.1⟩
    · exact .inl (mem_originsOf_start hStart).2
  · rintro (hGlobal | ⟨step, hStep, hBound | hNative⟩)
    · apply hGrows.rootNames_subset
      simpa [ScopeChain.rootNames, originsOf, start, Function.comp_def] using hGlobal
    · unfold ScopeChain.rootNames
      rw [hGrows.origins_eq, map_append]
      exact mem_append_left _ (mem_map_of_mem (hBinds step hStep name hBound))
    · exact hTaken step hStep hNative

-----
-- Known Names
-----

/- The names that a step introduces. -/
def Step.introduced (step : Step) : List Text :=
  step.bound ++ step.typeNames ++ step.fromNative

/-
  What is known after some steps: the names of the native
  library, those that the steps have introduced, and those
  that the counter has used up.
-/
def KnownAfter (steps : List Step) (state : LowerState) (name : Text) : Prop :=
  name ∈ Native.globals.map Prod.fst ∨
    (∃ step ∈ steps, name ∈ step.introduced) ∨
      ∃ count < state.types.registry.synthesizedCount, synthesizedName count = name

instance (steps : List Step) (state : LowerState) (name : Text) :
    Decidable (KnownAfter steps state name) :=
  inferInstanceAs
    (Decidable
      (name ∈ Native.globals.map Prod.fst ∨
        (∃ step ∈ steps, name ∈ step.introduced) ∨
          ∃ count < state.types.registry.synthesizedCount, synthesizedName count = name))

/- What imports go by when they look up a name. -/
def LowerState.knows (state : LowerState) (name : Text) : Bool :=
  (state.scope.lookupRoot? name).isSome || state.types.isTypeName name

theorem knows_iff_knownAfter
    {items : List Target.Item} (hEntered : WellEntered [] steps)
    (hRun : lowerSteps steps start = .ok items state) (name : Text) :
    state.knows name = true ↔ KnownAfter steps state name := by
  rcases exists_log_of_lowerSteps lowered_start hRun with ⟨_, _, hLast, _⟩
  have hTypes := hLast.settled.2
  have hEmpty : name ∉ start.types.declaredNames := not_mem_nil
  rw [knows, Bool.or_eq_true, ScopeChain.isSome_lookupRoot?_iff,
    mem_rootNames_lowerSteps hEntered hRun, ← hTypes,
    hLast.settled.1.isTypeName_iff, hTypes,
    mem_declaredNames_lowerSteps hRun]
  unfold KnownAfter Step.introduced
  simp only [hEmpty, false_or, mem_append, and_or_left, exists_or, or_assoc, or_comm, or_left_comm]

/- The names that a statement of a unit makes available. -/
def Stmt.providedNames : Stmt → List Text
  | .function _ head _ => [head.name]
  | .vars _ _ declarators => declarators.map Declarator.name
  | .interface _ decl => [decl.name]
  | .typeAlias _ decl => [decl.name]
  | .importFrom _ _ (.named names) => names.map ImportName.name
  | _ => []

/- The names that a unit declares or imports itself. -/
def Site.providedNames (site : Site) : List Text :=
  site.unit.statements.flatMap Stmt.providedNames

/- A unit introduces no names but those that it provides. -/
theorem Step.introduced_subset
    {step : Step} (hOwn : ∀ site stmt, step = .statement site stmt → stmt ∈ site.unit.statements) :
    step.introduced ⊆ step.site.providedNames := by
  intro name hName
  rcases mem_append.mp hName with hDeclared | hNative
  · cases step with
    | enter =>
      rcases mem_append.mp hDeclared with hFunction | hType
      · rcases mem_filterMap.mp hFunction with ⟨stmt, hStmt, hStmtName⟩
        refine mem_flatMap.mpr ⟨stmt, hStmt, ?_⟩
        cases stmt with
        | function =>
          cases hStmtName
          exact mem_singleton_self _
        | _ => cases hStmtName
      · rcases mem_filterMap.mp hType with ⟨stmt, hStmt, hStmtName⟩
        refine mem_flatMap.mpr ⟨stmt, hStmt, ?_⟩
        cases stmt with
        | interface | typeAlias =>
          cases hStmtName
          exact mem_singleton_self _
        | _ => cases hStmtName
    | statement site stmt =>
      refine mem_flatMap.mpr ⟨stmt, hOwn site stmt rfl, ?_⟩
      rw [Step.typeNames, append_nil] at hDeclared
      cases stmt with
      | vars => exact hDeclared
      | _ => cases hDeclared
  · cases step with
    | enter => cases hNative
    | statement site stmt =>
      refine mem_flatMap.mpr ⟨stmt, hOwn site stmt rfl, ?_⟩
      cases stmt with
      | importFrom _ specifier clause =>
        cases clause with
        | named =>
          by_cases hTarget :
              site.program.resolveModule? site.unitId specifier = some .native
          · rw [Step.fromNative, if_pos hTarget] at hNative
            exact hNative
          · rw [Step.fromNative, if_neg hTarget] at hNative
            cases hNative
        | _ => cases hNative
      | _ => cases hNative

-----
-- Imports
-----

section Imports

variable {site inner : Site} {specifier : Text}
variable {names : List ImportName}

/- An import that takes in a unit only looks up its names. -/
theorem lowerStep_import
    (node : Node) (hImport : importedSite? site specifier (.named names) = some inner) :
    lowerStep (.statement site (.importFrom node specifier (.named names))) =
      (do
        checkProvided site specifier names
        return []) := by
  have hStep :
      (Step.statement site (.importFrom node specifier (.named names))).imported? = some inner :=
    hImport
  rcases Step.exists_of_imported? hStep with ⟨_, _, _, _, id, _, hStmt, hNone, hTarget, hUnit, _⟩
  cases hStmt
  have hKnown : (site.program.unit? id).isSome = true := by
    rw [hUnit]
    rfl
  simp only [lowerStep, lowerTopLevel, lowerImport, importNames,
    hNone, hTarget, if_pos hKnown, pure_bind]

/- The first name that is not known is reported. -/
theorem checkProvided_eq (names : List ImportName) :
    checkProvided site specifier names state =
      (names.find? fun name => !state.knows name.name).elim
        (.ok () state) fun name =>
          .error (site.error name.node.span (.notProvided name.name specifier))
            state := by
  induction names with
  | nil => rfl
  | cons name rest ih =>
    show
      (if state.knows name.name then
        checkProvided site specifier rest
      else
        LowerM.fail site name.node.span (.notProvided name.name specifier)) state = _
    cases hName : state.knows name.name with
    | true => simpa [find?_cons, hName] using ih
    | false =>
      rw [find?_cons, hName]
      rfl

theorem exists_unknown (h : ¬∀ name ∈ names, state.knows name.name = true) :
    ∃ front name back, names = front ++ name :: back ∧
      (∀ known ∈ front, state.knows known.name = true) ∧
      state.knows name.name = false := by
  cases hFind : names.find? fun name => !state.knows name.name with
  | none => exact absurd (by simpa using hFind) h
  | some name =>
    rcases find?_eq_some_iff_append.mp hFind with ⟨hName, front, back, hNames, hFront⟩
    exact ⟨front, name, back, hNames, by simpa using hFront, by simpa using hName⟩

theorem lowerStep_import_of_unknown
    (node : Node) {front back : List ImportName} {name : ImportName}
    (hImport : importedSite? site specifier (.named names) = some inner)
    (hNames : names = front ++ name :: back)
    (hFront : ∀ known ∈ front, state.knows known.name = true)
    (hName : state.knows name.name = false) :
    lowerStep (.statement site (.importFrom node specifier (.named names))) state =
      .error (site.error name.node.span (.notProvided name.name specifier))
        state := by
  have hFind : (names.find? fun name => !state.knows name.name) = some name :=
    find?_eq_some_iff_append.mpr ⟨by simpa using hName, front, back, hNames, by simpa using hFront⟩
  rw [lowerStep_import node hImport]
  simp only [bind, EStateM.bind, checkProvided_eq, hFind, Option.elim]

theorem lowerStep_import_eq_ok_iff
    (node : Node) (hImport : importedSite? site specifier (.named names) = some inner) :
    lowerStep (.statement site (.importFrom node specifier (.named names))) state = .ok [] state ↔
      ∀ name ∈ names, state.knows name.name = true := by
  constructor
  · intro hRun
    by_contra hUnknown
    rcases exists_unknown hUnknown with ⟨_, name, _, hNames, hFront, hName⟩
    rw [lowerStep_import_of_unknown node hImport hNames hFront hName] at hRun
    cases hRun
  · intro hKnown
    have hFind : (names.find? fun name => !state.knows name.name) = none := by simpa using hKnown
    rw [lowerStep_import node hImport]
    simp only [bind, EStateM.bind, checkProvided_eq, hFind, Option.elim]
    rfl

/- Steps are lowered one part after the other. -/
theorem lowerSteps_append (front back : List Step) :
    lowerSteps (front ++ back) =
      (do
        let first ← lowerSteps front
        let items ← lowerSteps back
        return first ++ items) := by
  induction front with
  | nil => simp [lowerSteps]
  | cons _ _ ih => simp only [cons_append, lowerSteps, ih, bind_assoc, pure_bind, append_assoc]

/- A run ends with the first error. -/
theorem lowerSteps_of_error
    {before : List Step} (later : List Step) {step : Step} {items : List Target.Item}
    {start last : LowerState} {error : CompileError}
    (hBefore : lowerSteps before start = .ok items state)
    (hStep : lowerStep step state = .error error last) :
    lowerSteps (before ++ step :: later) start = .error error last := by
  rw [lowerSteps_append]
  simp only [lowerSteps, bind, EStateM.bind, hBefore, hStep]

theorem exists_of_lowerSteps_append
    {front back : List Step} {items : List Target.Item} {start last : LowerState}
    (h : lowerSteps (front ++ back) start = .ok items last) :
    ∃ first middle more,
      lowerSteps front start = .ok first middle ∧ lowerSteps back middle = .ok more last := by
  rw [lowerSteps_append] at h
  rcases bind_eq_ok h with ⟨first, middle, hFirst, hRest⟩
  rcases bind_eq_ok hRest with ⟨more, _, hMore, hReturn⟩
  cases hReturn
  exact ⟨first, middle, more, hFirst, hMore⟩

end Imports

theorem WellEntered.of_append
    {entered : List Site} {front back : List Step} (h : WellEntered entered (front ++ back)) :
    WellEntered entered front := by
  induction front generalizing entered with
  | nil => trivial
  | cons step _ ih =>
    cases step with
    | enter => exact ih h
    | statement => exact ⟨h.1, ih h.2⟩

theorem Program.compile_eq_error
    {program : Program} {config : LayoutConfig} {entry : Site} {error : CompileError}
    (hStart : program.startSite? = some entry)
    (hRun : lowerSteps (program.steps entry) start = .error error state) :
    program.compile config = .error error := by
  rcases Option.bind_eq_some_iff.mp hStart with ⟨_, hId, hEntry⟩
  simp only [Program.compile, Program.compileFrom, Program.lower, hId, hEntry, hRun]
  rfl

/- What a unit does not provide is known without its steps. -/
theorem knownAfter_iff_without_unit
    {program : Program} {entry inner : Site} {before later : List Step}
    (hStart : program.startSite? = some entry) (hSteps : program.steps entry = before ++ later)
    (hInner : program.unit? inner.unitId = some inner.unit) {name : Text}
    (hName : name ∉ inner.providedNames) :
    KnownAfter before state name ↔
      KnownAfter (before.filter fun step => step.site.unitId != inner.unitId) state name := by
  rcases Option.bind_eq_some_iff.mp hStart with ⟨_, _, hEntry⟩
  have hProgram := (Program.entrySite?_eq_some hEntry).1
  have hEntered := program.wellEntered_steps entry hProgram
  -- A step of the unit itself would introduce a provided name.
  have hOther : ∀ step ∈ before, name ∈ step.introduced → step.site.unitId ≠ inner.unitId := by
    intro step hStep hIntroduced hId
    have hMem : step ∈ program.steps entry := by
      rw [hSteps]
      exact mem_append_left _ hStep
    have hReached := Program.steps_reachesSite hEntry step hMem
    have hUnit : step.site.unit = inner.unit := by
      have hFound := hReached.unit_eq
      rw [hId, hInner] at hFound
      exact (Option.some.inj hFound).symm
    have hOwn : ∀ site stmt, step = .statement site stmt → stmt ∈ site.unit.statements := by
      intro site stmt hSame
      rw [hSame] at hMem
      exact (hEntered.mem_of_statement hMem).2
    have hProvided := Step.introduced_subset hOwn hIntroduced
    unfold Site.providedNames at hProvided
    rw [hUnit] at hProvided
    exact hName hProvided
  unfold KnownAfter
  refine or_congr_right (or_congr_left ?_)
  constructor
  · rintro ⟨step, hStep, hIntroduced⟩
    exact
      ⟨step, mem_filter.mpr ⟨hStep, bne_iff_ne.mpr (hOther step hStep hIntroduced)⟩, hIntroduced⟩
  · rintro ⟨step, hStep, hIntroduced⟩
    exact ⟨step, (mem_filter.mp hStep).1, hIntroduced⟩

/-
  An import that takes in a unit is lowered exactly if all
  the names that it lists are known by then, and else the
  program is refused for the first that is not. A name that
  the unit does not provide is known exactly if it is known
  without the unit.
-/
theorem imports_list_known_names
    {program : Program} {entry site inner : Site} {before later : List Step} {node : Node}
    {specifier : Text} {names : List ImportName} (hStart : program.startSite? = some entry)
    (hSteps :
      program.steps entry = before ++ .statement site (.importFrom node specifier (.named names)) ::
            later)
    (hImport : importedSite? site specifier (.named names) = some inner) :
    (∀ config text, program.compile config = .ok text →
      ∃ items state,
        lowerSteps before LowerState.start = .ok items state ∧
          ∀ name ∈ names, KnownAfter before state name.name) ∧
      ∀ items state,
        lowerSteps before LowerState.start = .ok items state →
          (lowerStep (.statement site (.importFrom node specifier (.named names))) state =
              .ok [] state ↔
            ∀ name ∈ names, KnownAfter before state name.name) ∧
          (∀ front name back, names = front ++ name :: back →
            (∀ known ∈ front, KnownAfter before state known.name) →
            ¬KnownAfter before state name.name →
              ∀ config, ∃ error,
                program.compile config = .error error ∧ error.kind = .unknownIdentifier ∧
                  error = site.error name.node.span (.notProvided name.name specifier)) ∧
          ∀ name, name ∉ inner.providedNames →
            (KnownAfter before state name ↔
              KnownAfter (before.filter fun step => step.site.unitId != inner.unitId)
                state name) := by
  rcases Option.bind_eq_some_iff.mp hStart with ⟨id, _, hEntry⟩
  have hProgram := (Program.entrySite?_eq_some hEntry).1
  have hWhole := program.wellEntered_steps entry hProgram
  rw [hSteps] at hWhole
  have hInner : program.unit? inner.unitId = some inner.unit := by
    have hMem :
        Step.statement site (.importFrom node specifier (.named names)) ∈ program.steps entry := by
      rw [hSteps]
      exact List.mem_append_right _ List.mem_cons_self
    have hTaken :
        (Step.statement site (.importFrom node specifier (.named names))).imported? = some inner :=
      hImport
    have hReached := Program.steps_reachesSite hEntry _ hMem
    rw [← hReached.program_eq]
    exact (Step.imported?_eq_some hTaken).2.2
  have hKnows :
      ∀ {items state},
        lowerSteps before LowerState.start = .ok items state →
          ∀ name, state.knows name = true ↔ KnownAfter before state name :=
    fun hRun => knows_iff_knownAfter hWhole.of_append hRun
  refine ⟨?_, ?_⟩
  · intro config text hCompile
    rcases compile_eq_ok_iff.mp hCompile with ⟨run, _⟩
    have hSite : run.site = entry := Option.some.inj (run.starts.symm.trans hStart)
    have hRun := run.runs
    rw [hSite, hSteps] at hRun
    rcases exists_of_lowerSteps_append hRun with ⟨items, state, more, hBefore, hLater⟩
    refine ⟨items, state, hBefore, ?_⟩
    rcases bind_eq_ok hLater with ⟨first, middle, hStep, _⟩
    intro name hName
    rw [← hKnows hBefore]
    by_contra hUnknown
    rcases exists_unknown fun hAll => hUnknown (hAll name hName) with
      ⟨front, other, back, hNames, hFront, hOther⟩
    rw [lowerStep_import_of_unknown node hImport hNames hFront hOther] at hStep
    cases hStep
  · intro items state hRun
    refine ⟨?_, ?_, ?_⟩
    · rw [lowerStep_import_eq_ok_iff node hImport]
      simp only [hKnows hRun]
    · intro front name back hNames hFront hName config
      have hUnknown : state.knows name.name = false := by
        rw [← Bool.not_eq_true, hKnows hRun]
        exact hName
      have hError :=
        lowerStep_import_of_unknown node hImport hNames
          (fun known hKnown => (hKnows hRun known.name).mpr (hFront known hKnown))
          hUnknown
      have hAll := lowerSteps_of_error later hRun hError
      rw [← hSteps] at hAll
      exact ⟨_, Program.compile_eq_error hStart hAll, rfl, rfl⟩
    · intro name hName
      exact knownAfter_iff_without_unit hStart hSteps hInner hName

/- Whether some steps can be lowered to what passes a check. -/
def stepsPass (steps : List Step) (check : LowerState → Bool) : Bool :=
  match lowerSteps steps LowerState.start with
  | .ok _ state => check state
  | .error _ _ => false

theorem exists_of_stepsPass {check : LowerState → Bool} (h : stepsPass steps check = true) :
    ∃ items state, lowerSteps steps start = .ok items state ∧ check state = true := by
  unfold stepsPass at h
  cases hRun : lowerSteps steps start with
  | error =>
    rw [hRun] at h
    cases h
  | ok items state =>
    rw [hRun] at h
    exact ⟨items, state, rfl, h⟩

/-
  A unit that imports some names from a unit with the
  function `f`. It has a function `g` of its own and has
  taken in a function `h` from another unit.
-/
def importingUnit (names : List ImportName) : SourceUnit :=
  ⟨"main.ts", [], nameImport "./other.ts" "h" ::
      .importFrom plainNode "./lib.ts" (.named names) ::
        (functionUnit [] "g").statements⟩

def listingUnits (names : List ImportName) : Program :=
  ⟨[importingUnit names, functionUnit "other.ts" "h", functionUnit "lib.ts" "f"],
    some 0, NodeTypes.empty,
    [⟨0, "./other.ts", .unit 1⟩, ⟨0, "./lib.ts", .unit 2⟩]⟩

/- The site of the unit that imports. -/
def importingSite (names : List ImportName) : Site :=
  ⟨listingUnits names, 0, importingUnit names, none⟩

/- The site of the unit that is imported from. -/
def libSite (names : List ImportName) : Site :=
  ⟨listingUnits names, 2, functionUnit "lib.ts" "f", some "./lib.ts"⟩

/- The steps in front of the import. -/
def stepsBeforeImport (names : List ImportName) : List Step :=
  ((listingUnits names).steps (importingSite names)).take 6

/- The import, and what comes behind it. -/
def stepsFromImport (names : List ImportName) : List Step :=
  .statement (importingSite names) (.importFrom plainNode "./lib.ts" (.named names)) ::
    (functionUnit [] "g").statements.map (.statement (importingSite names))

def plainImportName (name : Text) : ImportName :=
  ⟨plainNode, name, none⟩

def missingNames : List ImportName :=
  [plainImportName "f", plainImportName "missing"]

theorem missingNames_refused :
    ∃ error,
      (listingUnits missingNames).compile LayoutConfig.standard = .error error ∧
        error.kind = .unknownIdentifier ∧
        error.message = "`missing` is not declared by `./lib.ts`" := by
  have hChecked :
      stepsPass (stepsBeforeImport missingNames) (fun state =>
        decide
          (KnownAfter (stepsBeforeImport missingNames) state "f" ∧
            ¬KnownAfter (stepsBeforeImport missingNames) state "missing")) =
        true := by
    decide +kernel
  rcases exists_of_stepsPass hChecked with ⟨items, state, hRun, hNames⟩
  rcases of_decide_eq_true hNames with ⟨hKnown, hMissing⟩
  have hSteps :
      (listingUnits missingNames).steps (importingSite missingNames) =
        stepsBeforeImport missingNames ++ stepsFromImport missingNames :=
    rfl
  have hTaken :
      importedSite? (importingSite missingNames) "./lib.ts" (.named missingNames) =
        some (libSite missingNames) :=
    rfl
  rcases
      ((imports_list_known_names rfl hSteps hTaken).2 items state
        hRun).2.1 [plainImportName "f"] (plainImportName "missing")
        [] rfl (List.forall_mem_singleton.mpr hKnown) hMissing
        LayoutConfig.standard with
    ⟨error, hCompile, hKind, rfl⟩
  exact ⟨_, hCompile, hKind, rfl⟩

/- Names of the importing unit, of another unit and of no unit. -/
def strayNames : List ImportName :=
  [plainImportName "g", plainImportName "h", plainImportName "console"]

/- Names are imported from a unit that provides none of them. -/
theorem strayNames_accepted :
    (∃ text, (listingUnits strayNames).compile LayoutConfig.standard = .ok text) ∧
      (listingUnits strayNames).startSite? = some (importingSite strayNames) ∧
      Step.statement (importingSite strayNames)
          (.importFrom plainNode "./lib.ts" (.named strayNames)) ∈
        (listingUnits strayNames).steps (importingSite strayNames) ∧
      importedSite? (importingSite strayNames) "./lib.ts" (.named strayNames) =
        some (libSite strayNames) ∧
      ∀ name ∈ strayNames, name.name ∉ (libSite strayNames).providedNames := by
  have hPasses :
      Compilation.passes (listingUnits strayNames) (fun _ _ _ => true) =
        true := by
    decide +kernel
  rcases Compilation.exists_of_passes hPasses with ⟨run⟩
  refine ⟨⟨_, compile_eq_ok_iff.mpr ⟨run, rfl⟩⟩, rfl, ?_, rfl, ?_⟩
  · have hSteps :
        (listingUnits strayNames).steps (importingSite strayNames) =
          stepsBeforeImport strayNames ++ stepsFromImport strayNames :=
      rfl
    rw [hSteps]
    exact List.mem_append_right _ List.mem_cons_self
  · decide +kernel

end ScriptLowering
