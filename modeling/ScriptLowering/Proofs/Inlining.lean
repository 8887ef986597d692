import ScriptLowering.Lowering.Compile
import ScriptLowering.Proofs.DepthFirst

/-
  The steps of a program. They are a depth-first expansion of
  the steps of the unit that the program starts at, and a
  statement is lowered only after its unit was entered.

  Key theorems include:
    * `Program.wellEntered_steps`
    * `WellEntered.mem_of_statement`
-/

namespace ScriptLowering

open List

-----
-- Sites Of Steps
-----

/- The unit that a step belongs to. -/
def Step.site : Step → Site
  | .enter site => site
  | .statement site _ => site

theorem Site.site_of_mem_steps {site : Site} {step : Step} (h : step ∈ site.steps) :
    step.site = site := by
  rcases mem_cons.mp h with rfl | hStatement
  · rfl
  · rcases mem_map.mp hStatement with ⟨_, _, rfl⟩
    rfl

/- Only an import of plain names takes in a unit, the one it resolves to. -/
theorem Step.exists_of_imported? {step : Step} {inner : Site} (h : step.imported? = some inner) :
    ∃ site node specifier names id unit,
      step = .statement site (.importFrom node specifier (.named names)) ∧
        (names.find? fun name => name.alias?.isSome) = none ∧
        site.program.resolveModule? site.unitId specifier = some (.unit id) ∧
        site.program.unit? id = some unit ∧
        inner = ⟨site.program, id, unit, some specifier⟩ := by
  unfold imported? at h
  split at h
  · next site node specifier clause =>
    unfold importedSite? at h
    split at h
    · next names =>
      split at h
      · cases h
      · next hPlain =>
        split at h
        · next id hTarget =>
          rcases Option.map_eq_some_iff.mp h with ⟨unit, hUnit, rfl⟩
          have hNone : (names.find? fun name => name.alias?.isSome) = none := by simpa using hPlain
          exact ⟨site, node, specifier, names, id, unit, rfl, hNone, hTarget, hUnit, rfl⟩
        · cases h
    · cases h
  · cases h

/- A unit that is taken in is one of the same program. -/
theorem Step.imported?_eq_some {step : Step} {site : Site} (h : step.imported? = some site) :
    (∃ stmt, step = .statement step.site stmt) ∧ site.program = step.site.program ∧
      step.site.program.unit? site.unitId = some site.unit := by
  rcases exists_of_imported? h with ⟨_, _, _, _, _, _, rfl, _, _, hUnit, rfl⟩
  exact ⟨⟨_, rfl⟩, rfl, hUnit⟩

theorem inlining_asks_eq_some {step : Step} {node : Nat} (h : inlining.asks step = some node) :
    ∃ site, step.imported? = some site ∧ site.unitId.toNat = node ∧
      inlining.tasksOf node step = site.steps ++ [step] := by
  rcases Option.map_eq_some_iff.mp h with ⟨site, hSite, hNode⟩
  refine ⟨site, hSite, hNode, ?_⟩
  simp [inlining, hSite]

/- The bound on the number of units is enough for all of them. -/
theorem Program.expands_steps
    (program : Program) (entry : Site) (hEntry : entry.program = program) :
    ∃ trace,
      inlining.Expands [entry.unitId.toNat] entry.steps trace ∧
        trace.emitted = program.steps entry := by
  refine ⟨_, ?_, rfl⟩
  apply Expansion.expands_run_of_closed program.units.length
    (fun step => step.site.program = program)
  · intro step node hProgram hAsks
    rcases inlining_asks_eq_some hAsks with ⟨_, hSite, rfl, hTasks⟩
    rcases Step.imported?_eq_some hSite with ⟨_, hSame, hUnit⟩
    constructor
    · rw [hProgram] at hUnit
      exact (List.getElem?_eq_some_iff.mp hUnit).1
    · intro other hOther
      rw [hTasks] at hOther
      rcases mem_append.mp hOther with hNew | hOld
      · rw [Site.site_of_mem_steps hNew, hSame, hProgram]
      · rw [mem_singleton.mp hOld, hProgram]
  · intro step hStep
    rw [Site.site_of_mem_steps hStep, hEntry]
  · exact Expansion.closedNodes_card_le _ _

-----
-- Units Are Entered First
-----

/- Every statement is one of a unit that was entered before. -/
def WellEntered (entered : List Site) : List Step → Prop
  | [] => True
  | .enter site :: rest => WellEntered (site :: entered) rest
  | .statement site stmt :: rest =>
      (site ∈ entered ∧ stmt ∈ site.unit.statements) ∧ WellEntered entered rest

namespace WellEntered

variable {entered more : List Site} {steps front back : List Step}

theorem mono (h : WellEntered entered steps) (hMore : entered ⊆ more) :
    WellEntered more steps := by
  induction steps generalizing entered more with
  | nil => trivial
  | cons step _ ih =>
    cases step with
    | enter site => exact ih h (cons_subset_cons site hMore)
    | statement => exact ⟨⟨hMore h.1.1, h.1.2⟩, ih h.2 hMore⟩

theorem append (hFront : WellEntered entered front) (hBack : WellEntered entered back) :
    WellEntered entered (front ++ back) := by
  induction front generalizing entered with
  | nil => exact hBack
  | cons step _ ih =>
    cases step with
    | enter => exact ih hFront (hBack.mono (subset_cons_self _ _))
    | statement => exact ⟨hFront.1, ih hFront.2 hBack⟩

/- Entering a unit makes way for its own statements. -/
theorem site_steps (site : Site) (entered : List Site) :
    WellEntered entered site.steps := by
  have hStatements :
      ∀ stmts, stmts ⊆ site.unit.statements →
        WellEntered (site :: entered) (stmts.map (.statement site)) := by
    intro stmts hStmts
    induction stmts with
    | nil => trivial
    | cons _ _ ih =>
      rcases cons_subset.mp hStmts with ⟨hStmt, hRest⟩
      exact ⟨⟨mem_cons_self, hStmt⟩, ih hRest⟩
  exact hStatements _ (.refl _)

/- Taking in units keeps this, by induction on the expansion. -/
theorem of_expands
    {opened : List Nat} {trace : Expansion.Trace Step}
    (hExpands : inlining.Expands opened steps trace) (h : WellEntered entered steps) :
    WellEntered entered trace.emitted := by
  induction hExpands generalizing entered with
  | done => trivial
  | @emit _ step _ _ _ _ ih =>
    cases step with
    | enter => exact ih h
    | statement => exact ⟨h.1, ih h.2⟩
  | @enter _ _ _ _ _ _ hTask _ _ ihInner ihRest =>
      rcases inlining_asks_eq_some (Expansion.opening?_eq_some.mp hTask).1 with
        ⟨site, hSite, _, hTasks⟩
      rcases Step.imported?_eq_some hSite with ⟨⟨_, hStep⟩, _⟩
      rw [hStep] at h hTasks
      apply WellEntered.append
      · apply ihInner
        rw [hStep, hTasks]
        exact (site_steps site entered).append ⟨h.1, trivial⟩
      · exact ihRest h.2

theorem mem_of_statement
    (h : WellEntered entered steps) {site : Site} {stmt : Stmt}
    (hMem : Step.statement site stmt ∈ steps) :
    (site ∈ entered ∨ Step.enter site ∈ steps) ∧ stmt ∈ site.unit.statements := by
  induction steps generalizing entered with
  | nil => cases hMem
  | cons step rest ih =>
    cases step with
    | enter =>
      have hRest : Step.statement site stmt ∈ rest := by simpa using hMem
      rcases ih h hRest with ⟨hSite, hStmt⟩
      refine ⟨?_, hStmt⟩
      rcases hSite with hEntered | hEnter
      · rcases mem_cons.mp hEntered with rfl | hBefore
        · exact .inr mem_cons_self
        · exact .inl hBefore
      · exact .inr (mem_cons_of_mem _ hEnter)
    | statement =>
      rcases mem_cons.mp hMem with hSame | hRest
      · cases hSame
        exact ⟨.inl h.1.1, h.1.2⟩
      · rcases ih h.2 hRest with ⟨hSite, hStmt⟩
        exact ⟨hSite.imp_right (mem_cons_of_mem _), hStmt⟩

end WellEntered

theorem Program.wellEntered_steps
    (program : Program) (entry : Site) (hEntry : entry.program = program) :
    WellEntered [] (program.steps entry) := by
  rcases program.expands_steps entry hEntry with ⟨_, hExpands, hSteps⟩
  rw [← hSteps]
  exact .of_expands hExpands (.site_steps entry [])

/- The entry unit is a unit of the program. -/
theorem Program.program_of_entrySite?
    {program : Program} {entry : UnitId} {site : Site} (h : program.entrySite? entry = some site) :
    site.program = program ∧ site.origin? = none := by
  rcases Option.map_eq_some_iff.mp h with ⟨_, _, rfl⟩
  exact ⟨rfl, rfl⟩

end ScriptLowering
