import ScriptLowering.Proofs.AlikeLowering
import ScriptLowering.Proofs.LoweringLog

/-
  The names of the root frame. Lowering a program leaves only
  the root frame open, and there every name is bound once. So
  no two steps bind one name, and a name is emitted behind
  the mark of the unit that declares it.

  Key theorems include:
    * `outcome_of_lowerStep`
    * `rootGrows_lowerSteps`
-/

namespace ScriptLowering

open List ScopeChain

-----
-- Names And Their Origins
-----

/- The names of a frame with the units that they come from. -/
def originsOf (frame : Frame) : List (Text × Option Text) :=
  frame.map fun entry => (entry.1, entry.2.origin?)

theorem FrameKept.originsOf_eq {before after : Frame} (h : FrameKept before after) :
    originsOf after = originsOf before := by
  induction h with
  | nil => rfl
  | cons hEntry _ ih =>
    unfold originsOf at ih ⊢
    rw [map_cons, map_cons, ih, hEntry.1, hEntry.2.origin_eq]

theorem lookup_eq_none_iff_originsOf {frame : Frame} {name : Text} :
    frame.lookup name = none ↔ name ∉ (originsOf frame).map Prod.fst := by
  have hNames : (originsOf frame).map Prod.fst = frame.map Prod.fst := by
    simp [originsOf, Function.comp_def]
  rw [hNames, lookup_eq_none_iff]
  constructor
  · intro h hMem
    rcases mem_map.mp hMem with ⟨entry, hEntry, rfl⟩
    have hOther := h entry hEntry
    simp at hOther
  · intro h entry hEntry
    apply bne_iff_ne.mpr
    intro hSame
    apply h
    rw [hSame]
    exact mem_map_of_mem hEntry

variable {site : Site} {items : List Target.Item}
variable {origin? : Option Text} {step : Step} {rest : List Step}
variable {state last : LowerState} {added : List (Text × Option Text)}

/- In a frame without repetitions a name is found with its origin. -/
theorem origin_of_lookup
    {frame : Frame} (hNames : ((originsOf frame).map Prod.fst).Nodup) {name : Text}
    (h : (name, origin?) ∈ originsOf frame) :
    (frame.lookup name).map Binding.origin? = some origin? := by
  induction frame with
  | nil => cases h
  | cons entry _ ih =>
    rcases nodup_cons.mp hNames with ⟨hFresh, hRest⟩
    rcases mem_cons.mp h with hEntry | hMem
    · cases hEntry
      rw [lookup_cons, beq_self_eq_true]
      rfl
    · have hOther : name ≠ entry.1 := by
        intro hSame
        apply hFresh
        rw [← hSame]
        exact mem_map_of_mem hMem
      rw [lookup_cons, beq_eq_false_iff_ne.mpr hOther]
      exact ih hRest hMem

-----
-- The Root Frame
-----

/- Only the root frame is open, and it binds a name once. -/
structure RootOnly (scope : ScopeChain) : Prop where
  nested_eq : scope.nested = []
  distinct : ((originsOf scope.root).map Prod.fst).Nodup

/- Names were added to the root frame, the latest first. -/
structure RootGrows (added : List (Text × Option Text)) (before after : ScopeChain) : Prop where
  only : RootOnly after
  origins_eq :
    originsOf after.root = added ++ originsOf before.root

theorem RootGrows.trans
    {first second third : ScopeChain} {more : List (Text × Option Text)}
    (hFirst : RootGrows added first second) (hSecond : RootGrows more second third) :
    RootGrows (more ++ added) first third := by
  refine ⟨hSecond.only, ?_⟩
  rw [hSecond.origins_eq, hFirst.origins_eq, append_assoc]

/- The names that are bound in the root frame. -/
def ScopeChain.rootNames (scope : ScopeChain) : List Text :=
  (originsOf scope.root).map Prod.fst

theorem ScopeChain.isSome_lookupRoot?_iff {scope : ScopeChain} {name : Text} :
    (scope.lookupRoot? name).isSome = true ↔ name ∈ scope.rootNames := by
  rw [Option.isSome_iff_ne_none, Ne, lookupRoot?, lookup_eq_none_iff_originsOf, not_not]
  rfl

theorem RootGrows.rootNames_subset
    {added : List (Text × Option Text)} {before after : ScopeChain}
    (h : RootGrows added before after) :
    before.rootNames ⊆ after.rootNames := by
  unfold rootNames
  rw [h.origins_eq]
  exact map_subset _ (subset_append_right _ _)

theorem RootOnly.qualifiedName?_eq
    {scope : ScopeChain} (h : RootOnly scope) {name : Text}
    (hName : (name, origin?) ∈ originsOf scope.root) :
    scope.qualifiedName? name = some (emittedName origin? name) := by
  have hOrigin := origin_of_lookup h.distinct hName
  have hLookup : scope.lookup? name = scope.root.lookup name := by
    simp [lookup?, frames, h.nested_eq]
  rw [ScriptLowering.qualifiedName?_eq, hLookup]
  rcases Option.map_eq_some_iff.mp hOrigin with ⟨_, hFound, rfl⟩
  rw [hFound]
  rfl

/- Where names are kept, so is the root frame. -/
theorem RootOnly.rootGrows_nil
    {before after : ScopeChain} (h : RootOnly before) (hMoved : before.Moved FrameKept after) :
    RootGrows [] before after := by
  rcases before with ⟨nested, root⟩
  rcases after with ⟨afterNested, afterRoot⟩
  have hNested : nested = [] := h.nested_eq
  subst hNested
  cases afterNested with
  | cons _ outer =>
    have hLength := hMoved.outer.length_eq
    simp [ScopeChain.outer, frames] at hLength
  | nil =>
    have hKept : originsOf afterRoot = originsOf root := FrameKept.originsOf_eq hMoved.current
    refine ⟨⟨rfl, ?_⟩, hKept⟩
    rw [hKept]
    exact h.distinct

/- A computation that adds no names to the root frame. -/
theorem Moves.rootGrows_nil
    {α : Type} {action : LowerM α} (h : Moves FrameKept action) {value : α}
    (hRoot : RootOnly state.scope) (hRun : action state = .ok value last) :
    RootGrows [] state.scope last.scope := by
  have hMoved := h state
  rw [hRun] at hMoved
  exact hRoot.rootGrows_nil hMoved

theorem Paired.rootGrows_nil
    {twins : Twins} {α : Type} {told : α → Prop} {action other : LowerM α}
    (h : Paired twins false told action other) {value : α} (hRoot : RootOnly state.scope)
    (hRun : action state = .ok value last) :
    RootGrows [] state.scope last.scope :=
  h.keepsFrames.rootGrows_nil hRoot hRun

section Actions

variable {span : Span} {name : Text} {type : TypeName}

/- A name that is declared was not bound before. -/
theorem rootGrows_declare
    (hRoot : RootOnly state.scope)
    (hRun : LowerM.declare site span name type origin? state = .ok () last) :
    RootGrows [(name, origin?)] state.scope last.scope := by
  rcases bind_eq_ok hRun with ⟨_, _, hGet, hDeclare⟩
  cases hGet
  have hCurrent : state.scope.current = state.scope.root := by simp [current, hRoot.nested_eq]
  rw [declare, hCurrent] at hDeclare
  cases hFound : state.scope.root.lookup name with
  | some =>
    rw [hFound] at hDeclare
    cases hDeclare
  | none =>
    rw [hFound] at hDeclare
    cases hDeclare
    simp only [ScopeChain.bind, hRoot.nested_eq]
    refine ⟨⟨rfl, ?_⟩, rfl⟩
    exact nodup_cons.mpr ⟨lookup_eq_none_iff_originsOf.mp hFound, hRoot.distinct⟩

theorem rootGrows_declareInitialized
    (hRoot : RootOnly state.scope)
    (hRun : LowerM.declareInitialized site span name type origin? state = .ok () last) :
    RootGrows [(name, origin?)] state.scope last.scope := by
  rcases bind_eq_ok hRun with ⟨_, _, hDeclare, hMark⟩
  have hFirst := rootGrows_declare hRoot hDeclare
  exact hFirst.trans ((moves_markInitialized site span name).rootGrows_nil hFirst.only hMark)

/- A name of the root frame is emitted behind its mark. -/
theorem emitted_of_qualified
    {emitted : Text} (hRoot : RootOnly state.scope)
    (hName : (name, origin?) ∈ originsOf state.scope.root)
    (hRun : LowerM.qualified site span name state = .ok emitted last) :
    emitted = emittedName origin? name := by
  rcases bind_eq_ok hRun with ⟨_, _, hGet, hEmitted⟩
  cases hGet
  rw [hRoot.qualifiedName?_eq hName] at hEmitted
  cases hEmitted
  rfl

end Actions

-----
-- Units
-----

/- The name of a function that a statement declares. -/
def Stmt.functionName? : Stmt → Option Text
  | .function _ head _ => some head.name
  | _ => none

/-
  The names that a step binds in the root frame. All functions
  of a unit are bound when it is entered.
-/
def Step.bound : Step → List Text
  | .enter site => site.unit.statements.filterMap Stmt.functionName?
  | .statement _ (.vars _ _ declarators) =>
      declarators.map Declarator.name
  | .statement _ _ => []

/- The names of the functions and variables that a step emits. -/
def Step.declared : Step → List Text
  | .statement _ (.function _ head _) => [head.name]
  | .statement _ (.vars _ _ declarators) =>
      declarators.map Declarator.name
  | _ => []

def Target.Item.name : Target.Item → Text
  | .function signature _ => signature.name
  | .global _ declarator => declarator.name

/- The names that a step may take from the native library. -/
def Step.fromNative : Step → List Text
  | .statement site (.importFrom _ specifier (.named names)) =>
      if site.program.resolveModule? site.unitId specifier =
          some .native then
        names.map ImportName.name
      else
        []
  | _ => []

/- What a step may add to the root frame. -/
def Step.MayBind (step : Step) (entry : Text × Option Text) : Prop :=
  entry.1 ∈ step.bound ∧ entry.2 = step.site.origin? ∨ entry.1 ∈ step.fromNative ∧ entry.2 = none

theorem rootGrows_register
    {bound : List Text} {stmts : List Stmt} (hRoot : RootOnly state.scope)
    (hRun : register site bound stmts state = .ok () last) :
    ∃ added, RootGrows added state.scope last.scope ∧
      (∀ name ∈ stmts.filterMap Stmt.functionName?, name ∈ bound ∨ (name, site.origin?) ∈ added) ∧
      ∀ entry ∈ added, entry.1 ∈ stmts.filterMap Stmt.functionName? ∧ entry.2 = site.origin? := by
  fun_induction register site bound stmts generalizing state with
  | case1 =>
    cases hRun
    exact ⟨[], hRoot.rootGrows_nil (refl_of _ _), by simp, by simp⟩
  | case2 _ _ _ _ _ hBound ih =>
    rcases ih hRoot hRun with ⟨added, hGrows, hNames, hOnly⟩
    refine ⟨added, hGrows, ?_, ?_⟩
    · exact forall_mem_cons.mpr ⟨.inl (contains_iff_mem.mp hBound), hNames⟩
    · intro entry hEntry
      exact (hOnly entry hEntry).imp_left (mem_cons_of_mem _)
  | case3 _ _ _ _ _ _ ih =>
    rcases bind_eq_ok hRun with ⟨_, middle, hDeclare, hRest⟩
    have hFirst := rootGrows_declareInitialized hRoot hDeclare
    rcases ih hFirst.only hRest with ⟨added, hGrows, hNames, hOnly⟩
    refine ⟨_, hFirst.trans hGrows, ?_, ?_⟩
    · intro name hName
      rcases mem_cons.mp hName with rfl | hMem
      · exact .inr (by simp)
      · rcases hNames name hMem with hSeen | hAdded
        · rcases mem_cons.mp hSeen with rfl | hBefore
          · exact .inr (by simp)
          · exact .inl hBefore
        · exact .inr (mem_append_left _ hAdded)
    · intro entry hEntry
      rcases mem_append.mp hEntry with hLater | hFirst
      · exact (hOnly entry hLater).imp_left (mem_cons_of_mem _)
      · rw [mem_singleton.mp hFirst]
        exact ⟨mem_cons_self, rfl⟩
  | case4 _ _ _ _ ih | case5 _ _ _ _ ih =>
    rcases bind_eq_ok hRun with ⟨_, _, hDeclare, hRest⟩
    have hFirst := (moves_typed _).rootGrows_nil hRoot hDeclare
    rcases ih hFirst.only hRest with ⟨_, hGrows, hAdded⟩
    exact ⟨_, hFirst.trans hGrows, by simpa [Stmt.functionName?] using hAdded⟩
  | case6 _ stmt _ hFunction _ _ ih =>
    have hNone : stmt.functionName? = none := by
      cases stmt with
      | function node head body => exact (hFunction node head body rfl).elim
      | _ => rfl
    rw [filterMap_cons, hNone]
    exact ih hRoot hRun

theorem rootGrows_bindDeclarator
    {declarator : Declarator} {type : TypeName} (hRoot : RootOnly state.scope)
    (hRun : bindDeclarator site declarator state = .ok type last) :
    RootGrows [(declarator.name, site.origin?)] state.scope last.scope := by
  rcases bind_eq_ok hRun with ⟨_, typed, hTyped, hRest⟩
  have hFirst := (moves_typed _).rootGrows_nil hRoot hTyped
  rcases bind_eq_ok hRest with ⟨_, _, hGet, hBind⟩
  cases hGet
  rcases bind_eq_ok hBind with ⟨_, _, hDeclare, hReturn⟩
  cases hReturn
  have hIsRoot : typed.scope.isRoot = true := by simp [isRoot, hFirst.only.nested_eq]
  rw [hIsRoot] at hDeclare
  exact hFirst.trans (rootGrows_declare hFirst.only hDeclare)

theorem name_of_lowerDeclarator
    {type : TypeName} {declarator : Declarator} {lowered : Target.Declarator}
    (hRoot : RootOnly state.scope) (hName : (declarator.name, origin?) ∈ originsOf state.scope.root)
    (hRun : lowerDeclarator site type declarator state = .ok lowered last) :
    lowered.name = emittedName origin? declarator.name := by
  rcases bind_eq_ok hRun with ⟨_, _, hQualified, hRest⟩
  have hEmitted := emitted_of_qualified hRoot hName hQualified
  cases hInit : declarator.init? with
  | none =>
    rw [hInit] at hRest
    cases hRest
    exact hEmitted
  | some =>
    rw [hInit] at hRest
    rcases bind_eq_ok hRest with ⟨_, _, _, hMark⟩
    rcases bind_eq_ok hMark with ⟨_, _, _, hReturn⟩
    cases hReturn
    exact hEmitted

/- The names of a variable statement, the latest first. -/
theorem rootGrows_lowerVars
    {declarators : List Declarator} {vars : List (TypeName × Target.Declarator)}
    (hRoot : RootOnly state.scope) (hRun : lowerVars site declarators state = .ok vars last) :
    RootGrows (declarators.map fun declarator => (declarator.name, site.origin?)).reverse
        state.scope last.scope ∧
      vars.map (fun entry => entry.2.name) =
        (declarators.map Declarator.name).map (emittedName site.origin?) := by
  induction declarators generalizing state vars with
  | nil =>
    cases hRun
    exact ⟨hRoot.rootGrows_nil (refl_of _ _), rfl⟩
  | cons declarator _ ih =>
    rcases bind_eq_ok hRun with ⟨type, bound, hBind, hLower⟩
    have hFirst := rootGrows_bindDeclarator hRoot hBind
    rcases bind_eq_ok hLower with ⟨_, _, hLowered, hMore⟩
    have hKept :=
      (paired_lowerDeclarator type declarator (everyPart_anywhere rfl _)).rootGrows_nil
        hFirst.only hLowered
    have hBound : (declarator.name, site.origin?) ∈ originsOf bound.scope.root := by
      simp [hFirst.origins_eq]
    have hName := name_of_lowerDeclarator hFirst.only hBound hLowered
    rcases bind_eq_ok hMore with ⟨_, _, hOthers, hReturn⟩
    cases hReturn
    rcases ih hKept.only hOthers with ⟨hGrows, hEmitted⟩
    constructor
    · rw [map_cons, reverse_cons]
      exact (hFirst.trans hKept).trans hGrows
    · simp only [map_cons, hName, hEmitted]

-----
-- Functions And Imports
-----

/- A function has the emitted name of its unit. -/
theorem name_of_lowerFunction
    {node : Node} {head : FunctionHead} {body? : Option (List Stmt)} {item : Target.Item}
    (hRoot : RootOnly state.scope) (hName : (head.name, origin?) ∈ originsOf state.scope.root)
    (hRun : lowerFunction site node head body? state = .ok item last) :
    item.name = emittedName origin? head.name := by
  rcases exists_of_lowerFunction hRun with ⟨_, _, _, _, _, _, rfl, _, hQualified, _⟩
  exact emitted_of_qualified hRoot hName hQualified

/-
  Names of the native library, of which those are new that
  were not bound before.
-/
theorem rootGrows_bindNative
    {names : List ImportName} (hRoot : RootOnly state.scope)
    (hRun : bindNative site names state = .ok () last) :
    ∃ added, RootGrows added state.scope last.scope ∧
      (∀ entry ∈ added, entry.1 ∈ names.map ImportName.name ∧ entry.2 = none) ∧
      names.map ImportName.name ⊆ last.scope.rootNames := by
  induction names generalizing state with
  | nil =>
    cases hRun
    exact ⟨[], hRoot.rootGrows_nil (refl_of _ _), by simp, nil_subset _⟩
  | cons _ _ ih =>
    rw [map_cons]
    rcases bind_eq_ok hRun with ⟨_, _, hGet, hName⟩
    cases hGet
    split at hName
    · next hBound =>
      rcases ih hRoot hName with ⟨added, hGrows, hOnly, hTaken⟩
      refine ⟨added, hGrows, ?_, cons_subset.mpr ⟨?_, hTaken⟩⟩
      · intro entry hEntry
        exact (hOnly entry hEntry).imp_left (mem_cons_of_mem _)
      · exact hGrows.rootNames_subset (isSome_lookupRoot?_iff.mp hBound)
    · rcases bind_eq_ok hName with ⟨_, _, hTyped, hBind⟩
      have hFirst := (moves_typed _).rootGrows_nil hRoot hTyped
      rcases bind_eq_ok hBind with ⟨_, _, hDeclare, hRest⟩
      have hSecond := rootGrows_declareInitialized hFirst.only hDeclare
      rcases ih hSecond.only hRest with ⟨_, hGrows, hOnly, hTaken⟩
      refine ⟨_, (hFirst.trans hSecond).trans hGrows, ?_, cons_subset.mpr ⟨?_, hTaken⟩⟩
      · intro entry hEntry
        rcases mem_append.mp hEntry with hLater | hNow
        · exact (hOnly entry hLater).imp_left (mem_cons_of_mem _)
        · rw [mem_singleton.mp hNow]
          exact ⟨mem_cons_self, rfl⟩
      · apply hGrows.rootNames_subset
        unfold rootNames
        rw [hSecond.origins_eq]
        exact mem_cons_self

theorem eq_of_importNames
    {site : Site} {span : Span} {listed names : List ImportName} {state last : LowerState}
    (h : importNames site span (.named listed) state = .ok names last) :
    names = listed ∧ last = state := by
  cases hAliased : listed.find? fun name => name.alias?.isSome with
  | some =>
    simp only [importNames, hAliased] at h
    cases h
  | none =>
    simp only [importNames, hAliased] at h
    cases h
    exact ⟨rfl, rfl⟩

/- Only imports of the native library bind names. -/
theorem rootGrows_lowerImport
    {node : Node} {specifier : Text} {clause : ImportClause}
    (hStep : step = .statement site (.importFrom node specifier clause))
    (hRoot : RootOnly state.scope)
    (hRun : lowerImport site node specifier clause state = .ok () last) :
    ∃ added, RootGrows added state.scope last.scope ∧
      (∀ entry ∈ added, entry.1 ∈ step.fromNative ∧ entry.2 = none) ∧
      step.fromNative ⊆ last.scope.rootNames := by
  rcases bind_eq_ok hRun with ⟨names, _, hNames, hRest⟩
  cases clause with
  | named =>
    rcases eq_of_importNames hNames with ⟨rfl, rfl⟩
    subst hStep
    cases hTarget :
        site.program.resolveModule? site.unitId specifier with
    | none =>
      simp only [hTarget] at hRest
      cases hRest
    | some target =>
      cases target with
      | native =>
        simp only [hTarget] at hRest
        rw [Step.fromNative, if_pos hTarget]
        exact rootGrows_bindNative hRoot hRest
      | unit id =>
        simp only [hTarget] at hRest
        rw [Step.fromNative, if_neg (by simp [hTarget])]
        by_cases hUnit : (site.program.unit? id).isSome = true
        · rw [if_pos hUnit] at hRest
          have hProvided :=
            (@paired_checkProvided (.anywhere site site) _ nofun specifier names fun _ _ =>
              ⟨trivial, rfl⟩).rootGrows_nil hRoot hRest
          exact ⟨_, hProvided, by simp, nil_subset _⟩
        · rw [if_neg hUnit] at hRest
          cases hRest
  | _ => cases hNames

-----
-- Steps
-----

/- The functions of a unit are bound with its origin. -/
def FunctionsBound (scope : ScopeChain) (site : Site) : Prop :=
  ∀ name ∈ (Step.enter site).bound, (name, site.origin?) ∈ originsOf scope.root

theorem FunctionsBound.mono
    {before after : ScopeChain} (h : FunctionsBound before site)
    (hGrows : RootGrows added before after) :
    FunctionsBound after site := by
  intro name hName
  rw [hGrows.origins_eq]
  exact mem_append_right _ (h name hName)

/- What one step adds to the root frame and emits. -/
structure StepOutcome
    (step : Step) (items : List Target.Item) (before after : ScopeChain)
    (added : List (Text × Option Text)) : Prop where
  grows : RootGrows added before after
  binds :
    ∀ name ∈ step.bound, (name, step.site.origin?) ∈ added
  emits :
    items.map Target.Item.name = step.declared.map (emittedName step.site.origin?)

theorem outcome_of_lowerTopLevel
    {stmt : Stmt} (hRoot : RootOnly state.scope) (hBound : FunctionsBound state.scope site)
    (hStmt : stmt ∈ site.unit.statements) (hRun : lowerTopLevel site stmt state = .ok items last) :
    ∃ added,
      StepOutcome (.statement site stmt) items state.scope last.scope added ∧
        (∀ entry ∈ added, (Step.statement site stmt).MayBind entry) ∧
        (Step.statement site stmt).fromNative ⊆ last.scope.rootNames := by
  cases stmt with
  | function node head body? =>
    rcases bind_eq_ok hRun with ⟨item, _, hItem, hReturn⟩
    cases hReturn
    have hName : (head.name, site.origin?) ∈ originsOf state.scope.root :=
      hBound head.name (mem_filterMap.mpr ⟨_, hStmt, rfl⟩)
    refine ⟨[], ⟨?_, by simp [Step.bound], ?_⟩, by simp, nil_subset _⟩
    · exact (paired_lowerFunction_self site node head body?).rootGrows_nil hRoot hItem
    · show [item.name] = _
      rw [name_of_lowerFunction hRoot hName hItem]
      rfl
  | importFrom =>
    rcases bind_eq_ok hRun with ⟨_, _, hImport, hReturn⟩
    cases hReturn
    rcases rootGrows_lowerImport rfl hRoot hImport with ⟨added, hGrows, hOnly, hTaken⟩
    exact
      ⟨added, ⟨hGrows, by simp [Step.bound], rfl⟩,
        fun entry hEntry => .inr (hOnly entry hEntry), hTaken⟩
  | vars =>
    rcases bind_eq_ok hRun with ⟨_, _, hVars, hReturn⟩
    cases hReturn
    rcases rootGrows_lowerVars hRoot hVars with ⟨hGrows, hEmitted⟩
    refine ⟨_, ⟨hGrows, ?_, ?_⟩, ?_, nil_subset _⟩
    · intro name hName
      rcases mem_map.mp hName with ⟨declarator, hMem, rfl⟩
      exact mem_reverse.mpr (mem_map.mpr ⟨_, hMem, rfl⟩)
    · rw [map_map]
      exact hEmitted
    · intro entry hEntry
      rcases mem_map.mp (mem_reverse.mp hEntry) with ⟨_, hMem, rfl⟩
      exact .inl ⟨mem_map_of_mem hMem, rfl⟩
  | interface | typeAlias =>
    cases hRun
    exact
      ⟨[], ⟨hRoot.rootGrows_nil (refl_of _ _), by simp [Step.bound], rfl⟩, by simp, nil_subset _⟩
  | _ => cases hRun

/- Only the root frame is open, and it binds the functions of the entered units. -/
structure Prepared (steps : List Step) (scope : ScopeChain) : Prop where
  root : RootOnly scope
  entered :
    ∃ sites, WellEntered sites steps ∧ ∀ site ∈ sites, FunctionsBound scope site

/- One step, whose unit was entered before. -/
theorem outcome_of_lowerStep
    (h : Prepared (step :: rest) state.scope) (hRun : lowerStep step state = .ok items last) :
    ∃ added, StepOutcome step items state.scope last.scope added ∧
      (∀ entry ∈ added, step.MayBind entry) ∧
      step.fromNative ⊆ last.scope.rootNames := by
  cases step with
  | enter =>
    rcases bind_eq_ok hRun with ⟨_, _, hRegister, hReturn⟩
    cases hReturn
    rcases rootGrows_register h.root hRegister with ⟨added, hGrows, hNames, hOnly⟩
    refine ⟨added, ⟨hGrows, ?_, rfl⟩, ?_, nil_subset _⟩
    · intro name hName
      exact (hNames name hName).resolve_left not_mem_nil
    · intro entry hEntry
      exact .inl (hOnly entry hEntry)
  | statement site =>
    rcases h.entered with ⟨_, hEntered, hBound⟩
    exact outcome_of_lowerTopLevel h.root (hBound site hEntered.1.1) hEntered.1.2 hRun

/- After a step the units are entered that later ones need. -/
theorem Prepared.next
    {before after : ScopeChain} (h : Prepared (step :: rest) before)
    (hOutcome : StepOutcome step items before after added) :
    Prepared rest after := by
  rcases h.entered with ⟨sites, hEntered, hBound⟩
  have hKept : ∀ site ∈ sites, FunctionsBound after site := by
    intro site hSite
    exact (hBound site hSite).mono hOutcome.grows
  refine ⟨hOutcome.grows.only, ?_⟩
  cases step with
  | statement => exact ⟨sites, hEntered.2, hKept⟩
  | enter site =>
    refine ⟨site :: sites, hEntered, forall_mem_cons.mpr ⟨?_, hKept⟩⟩
    intro name hName
    rw [hOutcome.grows.origins_eq]
    exact mem_append_left _ (hOutcome.binds name hName)

/- A run is its first step and a run of the others. -/
theorem Prepared.exists_first
    (h : Prepared (step :: rest) state.scope)
    (hRun : lowerSteps (step :: rest) state = .ok items last) :
    ∃ first more middle added, items = first ++ more ∧ lowerStep step state = .ok first middle ∧
      lowerSteps rest middle = .ok more last ∧ Prepared rest middle.scope ∧
      StepOutcome step first state.scope middle.scope added ∧
      (∀ entry ∈ added, step.MayBind entry) ∧
      step.fromNative ⊆ middle.scope.rootNames := by
  rcases bind_eq_ok hRun with ⟨first, middle, hStep, hRest⟩
  rcases bind_eq_ok hRest with ⟨more, _, hMore, hReturn⟩
  cases hReturn
  rcases outcome_of_lowerStep h hStep with ⟨added, hOutcome, hBinds⟩
  exact ⟨first, more, middle, added, rfl, hStep, hMore, h.next hOutcome, hOutcome, hBinds⟩

/- No name is bound by both of two steps. -/
def Step.Apart (first second : Step) : Prop :=
  ∀ name ∈ first.bound, name ∉ second.bound

instance : Std.Symm Step.Apart where
  symm _ _ h name hSecond hFirst := h name hFirst hSecond

/- A whole run, by induction on its steps. -/
theorem rootGrows_lowerSteps
    {steps : List Step} (h : Prepared steps state.scope)
    (hRun : lowerSteps steps state = .ok items last) :
    ∃ added, RootGrows added state.scope last.scope ∧
      (∀ step ∈ steps, ∀ name ∈ step.bound, (name, step.site.origin?) ∈ added) ∧
      (∀ entry ∈ added, ∃ step ∈ steps, step.MayBind entry) ∧
      (∀ step ∈ steps, step.fromNative ⊆ last.scope.rootNames) ∧
      steps.Pairwise Step.Apart ∧
      items.map Target.Item.name =
        steps.flatMap fun step =>
          step.declared.map (emittedName step.site.origin?) := by
  induction steps generalizing state items with
  | nil =>
    cases hRun
    exact ⟨[], h.root.rootGrows_nil (refl_of _ _), by simp, by simp, by simp, .nil, rfl⟩
  | cons step _ ih =>
    rcases h.exists_first hRun with ⟨_, _, _, added, rfl, _, hMore, hAfter, hOutcome, hMay, hNow⟩
    rcases ih hAfter hMore with ⟨later, hGrows, hBinds, hOnly, hTaken, hApart, hEmits⟩
    refine ⟨later ++ added, hOutcome.grows.trans hGrows, ?_, ?_, ?_, ?_, ?_⟩
    · intro other hOther name hName
      rcases mem_cons.mp hOther with rfl | hMem
      · exact mem_append_right _ (hOutcome.binds name hName)
      · exact mem_append_left _ (hBinds other hMem name hName)
    · intro entry hEntry
      rcases mem_append.mp hEntry with hLater | hAdded
      · rcases hOnly entry hLater with ⟨other, hOther, hBinds⟩
        exact ⟨other, mem_cons_of_mem _ hOther, hBinds⟩
      · exact ⟨step, mem_cons_self, hMay entry hAdded⟩
    · have hFirst := List.Subset.trans hNow hGrows.rootNames_subset
      exact forall_mem_cons.mpr ⟨hFirst, hTaken⟩
    · refine pairwise_cons.mpr ⟨?_, hApart⟩
      intro other hOther name hFirst hSecond
      -- The name would be in the root frame twice.
      have hNames := hGrows.only.distinct
      rw [hGrows.origins_eq, hOutcome.grows.origins_eq, map_append, map_append] at hNames
      have hLater : name ∈ later.map Prod.fst := mem_map_of_mem (hBinds other hOther name hSecond)
      have hAdded : name ∈ added.map Prod.fst := mem_map_of_mem (hOutcome.binds name hFirst)
      exact disjoint_of_nodup_append hNames hLater (mem_append_left _ hAdded)
    · rw [map_append, hOutcome.emits, hEmits, flatMap_cons]

end ScriptLowering
