import ScriptLowering.Proofs.EmittedNames

/-
  How lowering walks through the units of a program. The
  statements of a unit are walked in order; an import of a
  unit that was not visited is preceded by a walk through
  that unit. Imports may lead back to any unit, so a walk is
  a relation, and that it ends is proved: a walk into a unit
  leaves fewer units to visit, all other walks have fewer
  statements left.

  Key theorems include:
    * `Walks.enteredSites_eq`
    * `Program.steps_eq_of_walks`
-/

namespace ScriptLowering

open List Step

variable {visited later : List UnitId} {site : Site}

-----
-- Walks
-----

/-
  Walking statements of a unit, with some units visited
  before. An import is read before the unit that it takes in,
  but its step comes behind the steps of that unit. The walk
  gives the statements as they are read, the steps, and the
  units that are visited at its end.
-/
inductive Walks :
    List UnitId → Site → List Stmt → List Step → List Step → List UnitId → Prop
  | done (visited : List UnitId) (site : Site) :
      Walks visited site [] [] [] visited
  | pass
      {visited later : List UnitId} {site : Site} {stmt : Stmt} {rest : List Stmt}
      {reads steps : List Step}
      (hVisited :
        ∀ inner, (Step.statement site stmt).imported? = some inner → inner.unitId ∈ visited)
      (hRest : Walks visited site rest reads steps later) :
      Walks visited site (stmt :: rest) (.statement site stmt :: reads)
        (.statement site stmt :: steps) later
  | takeIn
      {visited middle later : List UnitId} {site inner : Site} {stmt : Stmt} {rest : List Stmt}
      {innerReads reads innerSteps steps : List Step}
      (hImport : (Step.statement site stmt).imported? = some inner) (hNew : inner.unitId ∉ visited)
      (hInner :
        Walks (inner.unitId :: visited) inner inner.unit.statements innerReads innerSteps middle)
      (hRest : Walks middle site rest reads steps later) :
      Walks visited site (stmt :: rest) (.statement site stmt :: (innerReads ++ reads))
        (.enter inner ::
          (innerSteps ++ .statement site stmt :: steps))
        later

/- The unit that a step enters. -/
def Step.entered? : Step → Option Site
  | .enter site => some site
  | .statement _ _ => none

/- The units that are entered, in order. -/
def enteredSites (steps : List Step) : List Site :=
  steps.filterMap Step.entered?

def enteredUnits (steps : List Step) : List UnitId :=
  (enteredSites steps).map Site.unitId

section Entered

variable (site) (stmt : Stmt) (steps front back : List Step)

@[simp] theorem enteredSites_nil :
    enteredSites [] = [] :=
  rfl

@[simp] theorem enteredSites_enter :
    enteredSites (.enter site :: steps) = site :: enteredSites steps :=
  rfl

@[simp] theorem enteredSites_statement :
    enteredSites (.statement site stmt :: steps) = enteredSites steps :=
  rfl

@[simp] theorem enteredSites_append :
    enteredSites (front ++ back) = enteredSites front ++ enteredSites back :=
  filterMap_append

theorem mem_enteredSites :
    site ∈ enteredSites steps ↔ enter site ∈ steps := by
  induction steps with
  | nil => simp
  | cons step _ ih =>
    cases step with
    | enter | statement => simp [ih]

@[simp] theorem enteredUnits_nil :
    enteredUnits [] = [] :=
  rfl

@[simp] theorem enteredUnits_enter :
    enteredUnits (.enter site :: steps) = site.unitId :: enteredUnits steps :=
  rfl

@[simp] theorem enteredUnits_statement :
    enteredUnits (.statement site stmt :: steps) = enteredUnits steps :=
  rfl

@[simp] theorem enteredUnits_append :
    enteredUnits (front ++ back) = enteredUnits front ++ enteredUnits back := by
  simp [enteredUnits]

end Entered

namespace Walks

variable {stmts : List Stmt}
variable {reads steps : List Step}

/- The units that are visited newly are the entered ones. -/
theorem later_eq (h : Walks visited site stmts reads steps later) :
    later = (enteredUnits steps).reverse ++ visited := by
  induction h with
  | done => rfl
  | pass _ _ ih => simpa using ih
  | takeIn _ _ _ _ ihInner ihRest =>
    rw [ihRest, ihInner]
    simp

theorem visited_subset (h : Walks visited site stmts reads steps later) :
    visited ⊆ later := by
  rw [h.later_eq]
  exact subset_append_right _ _

/- No unit is entered twice, or again. -/
theorem nodup (h : Walks visited site stmts reads steps later) (hVisited : visited.Nodup) :
    later.Nodup := by
  induction h with
  | done => exact hVisited
  | pass _ _ ih => exact ih hVisited
  | takeIn _ hNew _ _ ihInner ihRest => exact ihRest (ihInner (nodup_cons.mpr ⟨hNew, hVisited⟩))

-----
-- Walks And Expansions
-----

/- A step opens no unit if its import leads to a visited one. -/
theorem opening?_eq_none
    {step : Step} (h : ∀ inner, step.imported? = some inner → inner.unitId ∈ visited) :
    inlining.opening? (visited.map UInt32.toNat) step = none := by
  cases hOpening :
      inlining.opening? (visited.map UInt32.toNat) step with
  | none => rfl
  | some =>
    rcases Expansion.opening?_eq_some.mp hOpening with ⟨hAsks, hClosed⟩
    rcases inlining_asks_eq_some hAsks with ⟨inner, hInner, rfl, _⟩
    exact absurd (mem_map_of_mem (h inner hInner)) hClosed

/- A walk is the expansion of the statements. -/
theorem expands (h : Walks visited site stmts reads steps later) :
    inlining.Expands (visited.map UInt32.toNat) (stmts.map (.statement site))
      ⟨later.map UInt32.toNat, steps⟩ := by
  induction h with
  | done => exact .done _
  | pass hVisited _ ih => exact .emit (opening?_eq_none hVisited) ih
  | @takeIn visited middle _ site inner stmt _ _ _ innerSteps _ hImport hNew hInner _
      ihInner ihRest =>
    have hOpening :
        inlining.opening? (visited.map UInt32.toNat) (.statement site stmt) =
          some inner.unitId.toNat := by
      refine Expansion.opening?_eq_some.mpr ⟨?_, ?_⟩
      · simp [inlining, hImport]
      · intro hMem
        rcases mem_map.mp hMem with ⟨_, hId, hSame⟩
        rw [UInt32.toNat_inj.mp hSame] at hId
        exact hNew hId
    have hTasks :
        inlining.tasksOf inner.unitId.toNat (.statement site stmt) =
          inner.steps ++ [.statement site stmt] := by
      simp [inlining, hImport]
    -- The unit is walked, and then its import finds it visited.
    have hUnit :
        inlining.Expands (inner.unitId.toNat :: visited.map UInt32.toNat) inner.steps
          ⟨middle.map UInt32.toNat, .enter inner :: innerSteps⟩ :=
      .emit rfl ihInner
    have hAgain :
        inlining.Expands (middle.map UInt32.toNat) [.statement site stmt]
          ⟨middle.map UInt32.toNat, [.statement site stmt]⟩ := by
      refine .emit (opening?_eq_none ?_) (.done _)
      intro other hOther
      rw [hImport] at hOther
      cases hOther
      exact hInner.visited_subset mem_cons_self
    have hWhole := hUnit.append hAgain
    rw [← hTasks] at hWhole
    have hAll := Expansion.Expands.enter hOpening hWhole ihRest
    simpa using hAll

/- A walk is determined by where it starts. -/
theorem unique
    {others otherSteps : List Step} {otherLater : List UnitId}
    (h : Walks visited site stmts reads steps later)
    (hOther : Walks visited site stmts others otherSteps otherLater) :
    reads = others ∧ steps = otherSteps ∧ later = otherLater := by
  induction h generalizing others otherSteps otherLater with
  | done =>
    cases hOther
    exact ⟨rfl, rfl, rfl⟩
  | pass hVisited _ ih =>
    cases hOther with
    | pass _ hRest =>
      rcases ih hRest with ⟨rfl, rfl, rfl⟩
      exact ⟨rfl, rfl, rfl⟩
    | takeIn hImport hNew => exact absurd (hVisited _ hImport) hNew
  | takeIn hImport hNew _ _ ihInner ihRest =>
    cases hOther with
    | pass hVisited => exact absurd (hVisited _ hImport) hNew
    | takeIn hOtherImport _ hInner hRest =>
      rw [hImport] at hOtherImport
      cases hOtherImport
      rcases ihInner hInner with ⟨rfl, rfl, rfl⟩
      rcases ihRest hRest with ⟨rfl, rfl, rfl⟩
      exact ⟨rfl, rfl, rfl⟩

end Walks

-----
-- Every Walk Ends
-----

/- The number of units that are still to be visited. -/
def unvisitedCount (program : Program) (visited : List UnitId) : Nat :=
  (Expansion.closedNodes program.units.length (visited.map UInt32.toNat)).card

/- Taking in a unit leaves fewer of them. -/
theorem unvisitedCount_takeIn_lt
    {inner : Site} {stmt : Stmt} (hImport : (statement site stmt).imported? = some inner)
    (hNew : inner.unitId ∉ visited) :
    unvisitedCount site.program (inner.unitId :: visited) <
      unvisitedCount site.program visited := by
  rcases imported?_eq_some hImport with ⟨_, _, hUnit⟩
  apply Expansion.closedNodes_cons_card_lt
  · exact (List.getElem?_eq_some_iff.mp hUnit).1
  · intro hMem
    rcases mem_map.mp hMem with ⟨_, hOther, hSame⟩
    rw [UInt32.toNat_inj.mp hSame] at hOther
    exact hNew hOther

theorem unvisitedCount_mono (program : Program) (h : visited ⊆ later) :
    unvisitedCount program later ≤ unvisitedCount program visited := by
  apply Finset.card_le_card
  intro node hNode
  simp only [Expansion.closedNodes, Finset.mem_filter] at hNode ⊢
  refine ⟨hNode.1, fun hMem => hNode.2 ?_⟩
  exact map_subset _ h hMem

/-
  A walk ends, by induction on the number of units that are
  still to be visited, and then on the statements.
-/
theorem exists_walks_of_lt
    (count : Nat) (stmts : List Stmt) (site : Site) (visited : List UnitId)
    (hCount : unvisitedCount site.program visited < count) :
    ∃ reads steps later, Walks visited site stmts reads steps later := by
  induction count generalizing stmts site visited with
  | zero => omega
  | succ _ ihCount =>
    induction stmts generalizing visited with
    | nil => exact ⟨[], [], visited, .done visited site⟩
    | cons stmt _ ih =>
      by_cases hTaken :
          ∃ inner, (statement site stmt).imported? = some inner ∧ inner.unitId ∉ visited
      · rcases hTaken with ⟨inner, hImport, hNew⟩
        have hProgram : inner.program = site.program := (imported?_eq_some hImport).2.1
        have hLt := unvisitedCount_takeIn_lt hImport hNew
        rcases ihCount inner.unit.statements inner (inner.unitId :: visited)
            (by rw [hProgram]; omega) with
          ⟨_, _, middle, hInner⟩
        have hMiddle : visited ⊆ middle :=
          List.Subset.trans (subset_cons_self _ _) hInner.visited_subset
        have hLe := unvisitedCount_mono site.program hMiddle
        rcases ih middle (by omega) with ⟨reads, steps, later, hRest⟩
        exact ⟨_, _, later, .takeIn hImport hNew hInner hRest⟩
      · rcases ih visited hCount with ⟨_, _, later, hRest⟩
        refine ⟨_, _, later, .pass ?_ hRest⟩
        intro inner hImport
        by_contra hNew
        exact hTaken ⟨inner, hImport, hNew⟩

theorem exists_walks (site : Site) (visited : List UnitId) (stmts : List Stmt) :
    ∃ reads steps later, Walks visited site stmts reads steps later :=
  exists_walks_of_lt _ stmts site visited (Nat.lt_succ_self _)

/- The steps of a program are those of the walk. -/
theorem Program.steps_eq_of_walks
    {program : Program} {entry : Site} {reads steps : List Step} (hEntry : entry.program = program)
    (h : Walks [entry.unitId] entry entry.unit.statements reads steps later) :
    program.steps entry = .enter entry :: steps := by
  rcases program.expands_steps entry hEntry with ⟨_, hExpands, hSteps⟩
  have hWalk :
      inlining.Expands [entry.unitId.toNat] entry.steps
        ⟨later.map UInt32.toNat, .enter entry :: steps⟩ :=
    .emit rfl h.expands
  rw [← hSteps, hExpands.unique hWalk]

-----
-- Depth-First Order
-----

/- The units that statements of a unit import, in order. -/
def Site.importsIn (site : Site) (stmts : List Stmt) : List UnitId :=
  stmts.filterMap fun stmt =>
    (Step.statement site stmt).imported?.map Site.unitId

/- The units that a unit imports, in order. -/
def Program.importsOf (program : Program) (id : UnitId) : List UnitId :=
  match program.entrySite? id with
  | some site => site.importsIn site.unit.statements
  | none => []

/-
  Visiting units of a list in order, each with the units that
  it leads to right behind it, unless it was seen before.
-/
inductive VisitsInOrder (next : UnitId → List UnitId) :
    List UnitId → List UnitId → List UnitId → Prop
  | done (seen : List UnitId) :
      VisitsInOrder next seen [] []
  | skip
      {seen rest order : List UnitId} {id : UnitId} (hSeen : id ∈ seen)
      (hRest : VisitsInOrder next seen rest order) :
      VisitsInOrder next seen (id :: rest) order
  | visit
      {seen rest inner order : List UnitId} {id : UnitId} (hNew : id ∉ seen)
      (hInner : VisitsInOrder next (id :: seen) (next id) inner)
      (hRest :
        VisitsInOrder next (inner.reverse ++ id :: seen) rest order) :
      VisitsInOrder next seen (id :: rest) (id :: (inner ++ order))

/- What a unit imports does not depend on its own importer. -/
theorem imported?_origin (site : Site) (origin? : Option Text) (stmt : Stmt) :
    (statement { site with origin? := origin? } stmt).imported? =
      (statement site stmt).imported? := by
  cases stmt <;> rfl

theorem Site.importsOf_eq (h : site.program.unit? site.unitId = some site.unit) :
    site.program.importsOf site.unitId = site.importsIn site.unit.statements := by
  have hEntry : site.program.entrySite? site.unitId = some { site with origin? := none } := by
    simp [Program.entrySite?, h]
  unfold Program.importsOf Site.importsIn
  rw [hEntry]
  simp only [imported?_origin]

namespace Walks

variable {stmts : List Stmt}
variable {reads steps : List Step}

/- Units are entered depth first, by the order of the imports. -/
theorem visitsInOrder (h : Walks visited site stmts reads steps later) :
    VisitsInOrder site.program.importsOf visited (site.importsIn stmts) (enteredUnits steps) := by
  induction h with
  | done => exact .done _
  | @pass _ _ site stmt _ _ _ hVisited _ ih =>
    cases hImport : (statement site stmt).imported? with
    | none => simpa [Site.importsIn, hImport] using ih
    | some inner =>
      have hSkip := VisitsInOrder.skip (hVisited inner hImport) ih
      simpa [Site.importsIn, hImport] using hSkip
  | @takeIn _ _ _ site inner _ _ _ _ _ _ hImport hNew hInner _ ihInner ihRest =>
    rcases imported?_eq_some hImport with ⟨_, hProgram, hUnit⟩
    have hProgram : inner.program = site.program := hProgram
    have hNext : site.program.importsOf inner.unitId = inner.importsIn inner.unit.statements := by
      rw [← hProgram]
      apply Site.importsOf_eq
      rw [hProgram]
      exact hUnit
    rw [hProgram, ← hNext] at ihInner
    rw [hInner.later_eq] at ihRest
    have hVisit := VisitsInOrder.visit hNew ihInner ihRest
    simpa [Site.importsIn, hImport] using hVisit

-----
-- Statements Are Walked Once
-----

/- A visited unit is not entered again. -/
theorem not_mem_enteredUnits
    (h : Walks visited site stmts reads steps later) {id : UnitId} (hId : id ∈ visited) :
    id ∉ enteredUnits steps := by
  induction h with
  | done => simp
  | pass _ _ ih => simpa using ih hId
  | @takeIn _ _ _ _ inner _ _ _ _ _ _ _ hNew hInner _ ihInner ihRest =>
    have hOther : id ≠ inner.unitId := by
      intro hSame
      rw [hSame] at hId
      exact hNew hId
    have hFront := ihInner (mem_cons_of_mem _ hId)
    have hBack := ihRest (hInner.visited_subset (mem_cons_of_mem _ hId))
    simp [hOther, hFront, hBack]

end Walks

/- The statement that a step lowers, if it is one of a unit. -/
def Step.statementOf? (id : UnitId) : Step → Option Stmt
  | .enter _ => none
  | .statement site stmt =>
      if site.unitId = id then
        some stmt
      else
        none

/- The statements of a unit that are walked, in order. -/
def walkedOf (id : UnitId) (steps : List Step) : List Stmt :=
  steps.filterMap (Step.statementOf? id)

section Walked

variable {id : UnitId}

@[simp] theorem walkedOf_nil :
    walkedOf id [] = [] :=
  rfl

@[simp] theorem walkedOf_enter (steps : List Step) :
    walkedOf id (.enter site :: steps) = walkedOf id steps :=
  rfl

@[simp] theorem walkedOf_append (front back : List Step) :
    walkedOf id (front ++ back) = walkedOf id front ++ walkedOf id back :=
  filterMap_append

@[simp] theorem walkedOf_statement_self (stmt : Stmt) (steps : List Step) :
    walkedOf site.unitId (.statement site stmt :: steps) = stmt :: walkedOf site.unitId steps := by
  simp [walkedOf, statementOf?]

theorem walkedOf_statement_of_ne (h : id ≠ site.unitId) (stmt : Stmt) (steps : List Step) :
    walkedOf id (.statement site stmt :: steps) = walkedOf id steps := by
  simp [walkedOf, statementOf?, Ne.symm h]

end Walked

namespace Walks

variable {stmts : List Stmt}
variable {reads steps : List Step}

/- A unit that is not entered has no statement walked. -/
theorem walkedOf_eq_nil
    (h : Walks visited site stmts reads steps later) {id : UnitId} (hSite : id ≠ site.unitId)
    (hId : id ∉ enteredUnits steps) :
    walkedOf id steps = [] := by
  induction h with
  | done => rfl
  | pass _ _ ih =>
    rw [walkedOf_statement_of_ne hSite]
    exact ih hSite hId
  | takeIn _ _ _ _ ihInner ihRest =>
    simp only [enteredUnits_enter, enteredUnits_append,
      enteredUnits_statement, mem_cons, mem_append,
      not_or] at hId
    rw [walkedOf_enter, walkedOf_append, walkedOf_statement_of_ne hSite, ihInner hId.1 hId.2.1,
      ihRest hSite hId.2.2]
    rfl

/- The unit at the start of a walk has just its own ones walked. -/
theorem walkedOf_site
    (h : Walks visited site stmts reads steps later) (hSite : site.unitId ∈ visited) :
    walkedOf site.unitId steps = stmts := by
  induction h with
  | done => rfl
  | pass _ _ ih => rw [walkedOf_statement_self, ih hSite]
  | @takeIn visited _ _ site inner _ _ _ _ _ _ _ hNew hInner _ _ ihRest =>
    have hOther : site.unitId ≠ inner.unitId := by
      intro hSame
      rw [hSame] at hSite
      exact hNew hSite
    have hSiteInner : site.unitId ∈ inner.unitId :: visited := mem_cons_of_mem _ hSite
    rw [walkedOf_enter, walkedOf_append, walkedOf_statement_self,
      hInner.walkedOf_eq_nil hOther (hInner.not_mem_enteredUnits hSiteInner),
      ihRest (hInner.visited_subset hSiteInner)]
    rfl

theorem mem_enteredUnits_of_enter {inner : Site} (h : enter inner ∈ steps) :
    inner.unitId ∈ enteredUnits steps :=
  mem_map_of_mem ((mem_enteredSites inner steps).mpr h)

/- So have all units that are entered. -/
theorem walkedOf_entered
    (h : Walks visited site stmts reads steps later) (hSite : site.unitId ∈ visited) {unit : Site}
    (hUnit : enter unit ∈ steps) :
    walkedOf unit.unitId steps = unit.unit.statements := by
  induction h with
  | done => cases hUnit
  | pass _ hRest ih =>
    have hEnter : enter unit ∈ _ := (mem_cons.mp hUnit).resolve_left (by simp)
    have hOther :=
      ne_of_mem_of_not_mem (mem_enteredUnits_of_enter hEnter) (hRest.not_mem_enteredUnits hSite)
    rw [walkedOf_statement_of_ne hOther]
    exact ih hSite hEnter
  | @takeIn visited middle _ site inner stmt _ _ _ innerSteps steps _ hNew hInner hRest
      ihInner ihRest =>
    have hInnerVisited : inner.unitId ∈ inner.unitId :: visited := mem_cons_self
    have hSiteInner : site.unitId ∈ inner.unitId :: visited := mem_cons_of_mem _ hSite
    have hMiddle :
        ∀ id ∈ middle, id ≠ site.unitId → walkedOf id (.statement site stmt :: steps) = [] := by
      intro id hId hOther
      rw [walkedOf_statement_of_ne hOther]
      exact hRest.walkedOf_eq_nil hOther (hRest.not_mem_enteredUnits hId)
    rw [walkedOf_enter, walkedOf_append]
    rcases mem_cons.mp hUnit with hSame | hDeeper
    · injection hSame with hSame
      have hOther : inner.unitId ≠ site.unitId := by
        intro hSame
        rw [hSame] at hNew
        exact hNew hSite
      rw [hSame, hInner.walkedOf_site hInnerVisited,
        hMiddle _ (hInner.visited_subset hInnerVisited) hOther,
        append_nil]
    · rcases mem_append.mp hDeeper with hFront | hBack
      · have hEntered := mem_enteredUnits_of_enter hFront
        have hOther := ne_of_mem_of_not_mem hEntered (hInner.not_mem_enteredUnits hSiteInner)
        have hLater : unit.unitId ∈ middle := by
          rw [hInner.later_eq]
          simp [hEntered]
        rw [ihInner hInnerVisited hFront, hMiddle _ hLater hOther, append_nil]
      · have hEnter : enter unit ∈ steps := (mem_cons.mp hBack).resolve_left (by simp)
        have hEntered := mem_enteredUnits_of_enter hEnter
        have hNotMiddle : unit.unitId ∉ middle := fun hMem =>
          hRest.not_mem_enteredUnits hMem hEntered
        have hOther : unit.unitId ≠ site.unitId := by
          intro hSame
          rw [hSame] at hNotMiddle
          exact hNotMiddle (hInner.visited_subset hSiteInner)
        have hNotInner : unit.unitId ≠ inner.unitId := by
          intro hSame
          rw [hSame] at hNotMiddle
          exact hNotMiddle (hInner.visited_subset hInnerVisited)
        have hNotEntered : unit.unitId ∉ enteredUnits innerSteps := by
          intro hMem
          apply hNotMiddle
          rw [hInner.later_eq]
          simp [hMem]
        rw [hInner.walkedOf_eq_nil hNotInner hNotEntered,
          walkedOf_statement_of_ne hOther, nil_append]
        exact ihRest (hInner.visited_subset hSiteInner) hEnter

end Walks

-----
-- First Inclusions
-----

/- The first site of each unit that was not visited before. -/
def firstInclusions (visited : List UnitId) : List Site → List Site
  | [] => []
  | site :: rest =>
      if site.unitId ∈ visited then
        firstInclusions visited rest
      else
        site :: firstInclusions (site.unitId :: visited) rest

theorem firstInclusions_seen (h : site.unitId ∈ visited) (rest : List Site) :
    firstInclusions visited (site :: rest) = firstInclusions visited rest := by
  rw [firstInclusions, if_pos h]

theorem firstInclusions_new (h : site.unitId ∉ visited) (rest : List Site) :
    firstInclusions visited (site :: rest) =
      site :: firstInclusions (site.unitId :: visited) rest := by
  rw [firstInclusions, if_neg h]

theorem firstInclusions_append (visited : List UnitId) (front back : List Site) :
    firstInclusions visited (front ++ back) =
      firstInclusions visited front ++
        firstInclusions (((firstInclusions visited front).map Site.unitId).reverse ++ visited)
          back := by
  induction front generalizing visited with
  | nil => rfl
  | cons site _ ih =>
    rw [cons_append]
    by_cases hSeen : site.unitId ∈ visited
    · rw [firstInclusions_seen hSeen, firstInclusions_seen hSeen]
      exact ih visited
    · rw [firstInclusions_new hSeen, firstInclusions_new hSeen, ih]
      simp

/- Units are entered as they are imported first, in reading order. -/
theorem Walks.enteredSites_eq
    {stmts : List Stmt} {reads steps : List Step} (h : Walks visited site stmts reads steps later) :
    enteredSites steps = firstInclusions visited (reads.filterMap imported?) := by
  induction h with
  | done => rfl
  | @pass _ _ site stmt _ _ _ hVisited _ ih =>
    cases hImport : (statement site stmt).imported? with
    | none => simpa [hImport] using ih
    | some inner =>
      rw [filterMap_cons_some hImport, firstInclusions_seen (hVisited inner hImport)]
      exact ih
  | takeIn hImport hNew hInner _ ihInner ihRest =>
    rw [filterMap_cons_some hImport, filterMap_append,
      firstInclusions_new hNew, firstInclusions_append, ← ihInner]
    have hMiddle := hInner.later_eq
    unfold enteredUnits at hMiddle
    rw [← hMiddle, ← ihRest]
    simp

end ScriptLowering
