import ScriptLowering.Proofs.ErrorPlaces

/-
  Compilation depends on what is reached only. Two programs
  whose reached units are the same up to the places of their
  nodes, with the same inferred types and the same targets of
  imports, are compiled to the same text, or fail for the
  same reason. Units that are not reached, paths, sources and
  spans make no difference.

  Both programs are walked side by side, and both runs are
  compared with the run of the second program without places.

  Key theorems include:
    * `lowerSteps_agree`
    * `same_outcome_of_same_reached_units`
-/

namespace ScriptLowering

open List

-----
-- Programs That Share a Unit
-----

/- The statements of a unit up to spans, if there is the unit. -/
def Program.unplacedUnit? (program : Program) (id : UnitId) : Option (List Stmt) :=
  (program.unit? id).map fun unit => stmtsUnplaced unit.statements

/-
  A unit has the same statements up to spans in both programs,
  its named imports lead to the same units, and the checker
  inferred the same types for its nodes.
-/
structure Program.SameUnit (left right : Program) (id : UnitId) : Prop where
  statements_eq : right.unplacedUnit? id = left.unplacedUnit? id
  target_eq :
    ∀ unit node specifier names,
      left.unit? id = some unit →
        Stmt.importFrom node specifier (.named names) ∈ unit.statements →
          right.resolveModule? id specifier = left.resolveModule? id specifier
  type_eq :
    ∀ unit, left.unit? id = some unit →
      ∀ node ∈ unit.nodes, right.types.get? node.id = left.types.get? node.id

theorem Program.isSome_unit?_eq
    {left right : Program} {id : UnitId} (h : right.unplacedUnit? id = left.unplacedUnit? id) :
    (right.unit? id).isSome = (left.unit? id).isSome := by
  have hSame := congrArg Option.isSome h
  simpa only [unplacedUnit?, Option.isSome_map] using hSame

-----
-- Results That Agree
-----

/- What an error tells, apart from where it is. -/
def CompileError.reason (error : CompileError) : ErrorKind × Text :=
  (error.kind, error.message)

/- The same value and state, or errors for the same reason. -/
inductive Agree {α : Type} :
    EStateM.Result CompileError LowerState α → EStateM.Result CompileError LowerState α → Prop
  | ok (value : α) (state : LowerState) :
      Agree (.ok value state) (.ok value state)
  | error {first second : CompileError} (h : second.reason = first.reason) (state : LowerState) :
      Agree (.error first state) (.error second state)

namespace Agree

variable {α : Type}
variable {first second third :
  EStateM.Result CompileError LowerState α}

theorem symm (h : Agree first second) :
    Agree second first := by
  cases h with
  | ok value state => exact .ok value state
  | error hReason state => exact .error hReason.symm state

theorem trans (hFirst : Agree first second) (hSecond : Agree second third) :
    Agree first third := by
  cases hFirst with
  | ok => exact hSecond
  | error hReason state =>
    cases hSecond with
    | error hNext state => exact .error (hNext.trans hReason) state

theorem of_alike
    {left right : Site} {placed : Span → Prop} (h : AlikeResult left right placed first second) :
    Agree first second := by
  cases h with
  | ok value state => exact .ok value state
  | error =>
    apply Agree.error
    rfl

/- Agreeing computations, one after another. -/
theorem bind
    {β : Type} {next other : α → LowerM β} {start begin : LowerM α} {state : LowerState}
    (hFirst : Agree (start state) (begin state))
    (hNext : ∀ value middle, Agree (next value middle) (other value middle)) :
    Agree ((start >>= next) state) ((begin >>= other) state) := by
  simp only [Bind.bind, EStateM.bind]
  generalize start state = firstResult at hFirst
  generalize begin state = secondResult at hFirst
  cases hFirst with
  | ok value middle => exact hNext value middle
  | error hReason middle => exact .error hReason middle

end Agree

-----
-- Sites Side By Side
-----

/-
  The sites of one unit in two programs that share all units
  that the first one reaches.
-/
structure SitePair (entry : UnitId) (left right : Site) : Prop where
  same :
    ∀ id, left.program.Reaches entry id → left.program.SameUnit right.program id
  reached : left.program.ReachesSite entry left
  unitId_eq : right.unitId = left.unitId
  origin_eq : right.origin? = left.origin?
  unit_eq : right.program.unit? left.unitId = some right.unit

/- The sites of a unit that is reached, if there is the unit. -/
theorem sitePair_of_reaches
    {left right : Program} {entry id : UnitId}
    (h : ∀ id, left.Reaches entry id → left.SameUnit right id) (hReaches : left.Reaches entry id)
    (origin? : Option Text) :
    Option.Rel (SitePair entry) ((left.unit? id).map fun unit => ⟨left, id, unit, origin?⟩)
      ((right.unit? id).map fun unit =>
        ⟨right, id, unit, origin?⟩) := by
  have hKnown := Program.isSome_unit?_eq (h id hReaches).statements_eq
  cases hLeft : left.unit? id with
  | none =>
    rw [hLeft] at hKnown
    have hRight : right.unit? id = none := by simpa using hKnown
    rw [hRight]
    exact .none
  | some =>
    rw [hLeft] at hKnown
    rcases Option.isSome_iff_exists.mp hKnown with ⟨_, hRight⟩
    rw [hRight]
    exact .some ⟨h, ⟨rfl, hReaches, hLeft⟩, rfl, rfl, hRight⟩

namespace SitePair

variable {entry : UnitId} {left right : Site}

theorem sameUnit (h : SitePair entry left right) :
    left.program.SameUnit right.program left.unitId :=
  h.same _ h.reached.reaches

theorem statements_eq (h : SitePair entry left right) :
    stmtsUnplaced right.unit.statements = stmtsUnplaced left.unit.statements := by
  have hSame := h.sameUnit.statements_eq
  unfold Program.unplacedUnit? at hSame
  rw [h.unit_eq, h.reached.unit_eq] at hSame
  exact Option.some.inj hSame

/- The parts of the unit are shared; errors may be anywhere. -/
theorem everyPart_shared (h : SitePair entry left right) :
    EveryPart (Shared (.anywhere left right)) (stmtsParts left.unit.statements) := by
  intro part hPart
  refine ⟨?_, fun _ => trivial, nofun⟩
  intro node hNode
  have hMem : node ∈ left.unit.nodes := mem_flatMap.mpr ⟨part, hPart, hNode⟩
  exact ⟨trivial, h.sameUnit.type_eq left.unit h.reached.unit_eq node hMem⟩

theorem reaches_target
    (h : SitePair entry left right) {node : Node} {specifier : Text} {names : List ImportName}
    {id : UnitId} (hStmt : Stmt.importFrom node specifier (.named names) ∈ left.unit.statements)
    (hTarget : left.program.resolveModule? left.unitId specifier = some (.unit id)) :
    left.program.Reaches entry id :=
  h.reached.reaches.tail ⟨left.unit, node, specifier, names, h.reached.unit_eq, hStmt, hTarget⟩

/- A named import leads to a unit that is shared as well. -/
theorem importShared
    (h : SitePair entry left right) {node : Node} {specifier : Text} {names : List ImportName}
    (hStmt : Stmt.importFrom node specifier (.named names) ∈ left.unit.statements) :
    ImportShared (.anywhere left right) specifier := by
  constructor
  · rw [h.unitId_eq]
    exact h.sameUnit.target_eq left.unit node specifier names h.reached.unit_eq hStmt
  · intro id hTarget
    have hSame := h.same id (h.reaches_target hStmt hTarget)
    exact Program.isSome_unit?_eq hSame.statements_eq

end SitePair

-----
-- Steps Side By Side
-----

/- Steps of one unit that are the same up to spans. -/
inductive StepPair (entry : UnitId) : Step → Step → Prop
  | enter {left right : Site} (hSites : SitePair entry left right) :
      StepPair entry (.enter left) (.enter right)
  | statement
      {left right : Site} {first second : Stmt} (hSites : SitePair entry left right)
      (hFirst : first ∈ left.unit.statements) (hSecond : second ∈ right.unit.statements)
      (hSame : second.unplaced = first.unplaced) :
      StepPair entry (.statement left first) (.statement right second)

section Steps

variable {entry : UnitId} {left right : Site}

theorem StepPair.agree
    {first second : Step} (h : StepPair entry first second) (state : LowerState) :
    Agree (lowerStep first state) (lowerStep second state) := by
  cases h with
  | @enter left right hSites =>
    apply Agree.bind
    · have hLeft := alike_register hSites.origin_eq [] left.unit.statements hSites.everyPart_shared
      have hRight :=
        @alike_register (.anywhere right right) rfl [] right.unit.statements
          (everyPart_anywhere rfl _)
      rw [hSites.statements_eq] at hRight
      exact (Agree.of_alike (hLeft state)).trans (Agree.of_alike (hRight state)).symm
    · exact fun _ middle => .ok [] middle
  | @statement left right first second hSites hFirst hSecond hSame =>
    have hImport :
        ∀ node specifier names,
          first = .importFrom node specifier (.named names) →
            ImportShared (.anywhere left right) specifier := by
      rintro node specifier names rfl
      exact hSites.importShared hFirst
    have hLeft :=
      (paired_lowerTopLevel id hSites.origin_eq first hImport
        (everyPart_of_mem_stmts hSites.everyPart_shared hFirst)).alike
    have hRight := (paired_lowerTopLevel_self right second).alike
    rw [hSame] at hRight
    exact (Agree.of_alike (hLeft state)).trans (Agree.of_alike (hRight state)).symm

/- Steps side by side end alike, by induction on the steps. -/
theorem lowerSteps_agree
    {first second : List Step} (h : List.Forall₂ (StepPair entry) first second)
    (state : LowerState) :
    Agree (lowerSteps first state) (lowerSteps second state) := by
  induction h generalizing state with
  | nil => exact .ok [] state
  | cons hStep _ ih =>
    apply Agree.bind (hStep.agree state)
    intro items middle
    apply Agree.bind (ih middle)
    exact fun others last => .ok (items ++ others) last

end Steps

-----
-- Walks Side By Side
-----

/- What is taken in does not depend on places. -/
theorem imported?_unplaced (site : Site) (stmt : Stmt) :
    (Step.statement site stmt.unplaced).imported? = (Step.statement site stmt).imported? := by
  cases stmt with
  | importFrom _ specifier clause =>
    cases clause with
    | named names =>
      show importedSite? site specifier (.named (names.map ImportName.unplaced)) = _
      simp only [importedSite?, any_map]
      rfl
    | _ => rfl
  | _ => rfl

section Walks

variable {entry : UnitId} {left right : Site}

/- Both take in the same unit, or neither takes in one. -/
theorem SitePair.imported
    (h : SitePair entry left right) {stmt other : Stmt} (hStmt : stmt ∈ left.unit.statements)
    (hSame : other.unplaced = stmt.unplaced) :
    Option.Rel (SitePair entry) (Step.statement left stmt).imported?
      (Step.statement right other).imported? := by
  rw [← imported?_unplaced right other, hSame, imported?_unplaced]
  cases stmt with
  | importFrom _ specifier clause =>
    cases clause with
    | named =>
      have hShared := h.importShared hStmt
      simp only [Step.imported?, importedSite?, hShared.target_eq]
      split
      · exact .none
      · cases hTarget :
            left.program.resolveModule? left.unitId specifier with
        | none => exact .none
        | some target =>
          cases target with
          | native => exact .none
          | unit =>
            have hReaches := h.reaches_target hStmt hTarget
            exact sitePair_of_reaches h.same hReaches _
    | _ => exact .none
  | _ => exact .none

/-
  The second program is walked in the same way, by induction
  on the walk through the first one.
-/
theorem Walks.paired
    {visited later : List UnitId} {stmts others : List Stmt} {reads steps : List Step}
    (h : Walks visited left stmts reads steps later) (hSites : SitePair entry left right)
    (hStmts : stmts ⊆ left.unit.statements) (hOthers : others ⊆ right.unit.statements)
    (hSame : stmtsUnplaced others = stmtsUnplaced stmts) :
    ∃ otherReads otherSteps,
      Walks visited right others otherReads otherSteps later ∧
        List.Forall₂ (StepPair entry) steps otherSteps := by
  induction h generalizing right others with
  | done visited =>
    cases others with
    | nil => exact ⟨[], [], .done visited right, .nil⟩
    | cons => cases hSame
  | @pass _ _ left stmt _ _ _ hVisited _ ih =>
    cases others with
    | nil => cases hSame
    | cons =>
      rcases cons.inj hSame with ⟨hFirst, hLater⟩
      rcases cons_subset.mp hStmts with ⟨hStmt, hStmts⟩
      rcases cons_subset.mp hOthers with ⟨hOther, hOthers⟩
      rcases ih hSites hStmts hOthers hLater with ⟨otherReads, otherSteps, hWalk, hPairs⟩
      have hTaken := hSites.imported hStmt hFirst
      refine ⟨_, _, .pass ?_ hWalk, .cons (.statement hSites hStmt hOther hFirst) hPairs⟩
      intro inner hInner
      rw [hInner] at hTaken
      generalize hImport :
        (Step.statement left stmt).imported? = taken at hTaken
      cases hTaken with
      | some hPair =>
        rw [hPair.unitId_eq]
        exact hVisited _ hImport
  | takeIn hImport hNew _ _ ihInner ihRest =>
    cases others with
    | nil => cases hSame
    | cons other =>
      rcases cons.inj hSame with ⟨hFirst, hLater⟩
      rcases cons_subset.mp hStmts with ⟨hStmt, hStmts⟩
      rcases cons_subset.mp hOthers with ⟨hOther, hOthers⟩
      have hTaken := hSites.imported hStmt hFirst
      rw [hImport] at hTaken
      generalize hOtherImport :
        (Step.statement right other).imported? = taken at hTaken
      cases hTaken with
      | some hPair =>
        rcases ihInner hPair (.refl _) (.refl _) hPair.statements_eq with
          ⟨_, _, hWalkInner, hInnerPairs⟩
        rcases ihRest hSites hStmts hOthers hLater with ⟨_, _, hWalk, hPairs⟩
        rw [← hPair.unitId_eq] at hNew hWalkInner
        refine ⟨_, _, .takeIn hOtherImport hNew hWalkInner hWalk, .cons (.enter hPair) ?_⟩
        refine rel_append hInnerPairs ?_
        exact .cons (.statement hSites hStmt hOther hFirst) hPairs

end Walks

-----
-- Programs Side By Side
-----

section Programs

variable {left right : Program} {entry : UnitId}

theorem SitePair.steps_paired {first second : Site} (h : SitePair entry first second) :
    List.Forall₂ (StepPair entry) (first.program.steps first) (second.program.steps second) := by
  rcases exists_walks first [first.unitId] first.unit.statements with ⟨_, _, _, hWalk⟩
  rcases hWalk.paired h (.refl _) (.refl _) h.statements_eq with ⟨_, _, hOther, hPairs⟩
  rw [← h.unitId_eq] at hOther
  rw [Program.steps_eq_of_walks rfl hWalk, Program.steps_eq_of_walks rfl hOther]
  exact .cons (.enter h) hPairs

/-
  Compilation depends on the units that are reached from the
  entry and on nothing else of a program. If two programs have
  these in common, then they compile to one text, or both fail
  with errors of one kind and message.
-/
theorem same_outcome_of_same_reached_units
    (h : ∀ id, left.Reaches entry id → left.SameUnit right id) (config : LayoutConfig) :
    (∃ text, left.compileFrom config entry = .ok text ∧ right.compileFrom config entry = .ok text) ∨
      ∃ first second,
        left.compileFrom config entry = .error first ∧
          right.compileFrom config entry = .error second ∧
          second.kind = first.kind ∧
          second.message = first.message := by
  have hSites : Option.Rel (SitePair entry) (left.entrySite? entry) (right.entrySite? entry) :=
    sitePair_of_reaches h .refl none
  unfold Program.compileFrom Program.lower
  generalize hLeft : left.entrySite? entry = leftSite? at hSites
  generalize hRight : right.entrySite? entry = rightSite? at hSites
  cases hSites with
  | none => exact Or.inr ⟨_, _, rfl, rfl, rfl, rfl⟩
  | @some first second hPair =>
      have hFirst := (Program.entrySite?_eq_some hLeft).1
      have hSecond := (Program.entrySite?_eq_some hRight).1
      have hSteps := hPair.steps_paired
      rw [hFirst, hSecond] at hSteps
      have hAgree := lowerSteps_agree hSteps LowerState.start
      simp only
      generalize lowerSteps (left.steps first) LowerState.start = firstRun at hAgree ⊢
      generalize lowerSteps (right.steps second) LowerState.start = secondRun at hAgree ⊢
      cases hAgree with
      | ok => exact Or.inl ⟨_, rfl, rfl⟩
      | error hReason =>
          rcases Prod.mk.inj hReason with ⟨hKind, hMessage⟩
          exact Or.inr ⟨_, _, rfl, rfl, hKind, hMessage⟩

end Programs

/-
  A unit that imports another one, with all nodes at one
  span. What else is in the program is left open.
-/
def importingUnits
    (span : Span) (folder : Text) (more : List SourceUnit) (types : NodeTypes) : Program :=
  ⟨⟨folder ++ "main.ts", folder,
        [.importFrom ⟨1, span⟩ "./lib.ts" (.named [⟨⟨2, span⟩, "f", none⟩]),
          .function ⟨3, span⟩ ⟨"g", [], none⟩
            (some [.ret ⟨4, span⟩ (some (.call ⟨5, span⟩ (.ident ⟨6, span⟩ "f") [] []))])]⟩ ::
      ⟨folder ++ "lib.ts", folder, [.function ⟨7, span⟩ ⟨"f", [], some ⟨"string", span⟩⟩ none]⟩ ::
      more,
    some 0, types,
    [⟨0, "./lib.ts", .unit 1⟩, ⟨2, "./lib.ts", .unit 0⟩]⟩

theorem importingUnits_reaches
    {span : Span} {folder : Text} {more : List SourceUnit} {types : NodeTypes} {id : UnitId}
    (h : (importingUnits span folder more types).Reaches 0 id) :
    id = 0 ∨ id = 1 := by
  induction h with
  | refl => exact .inl rfl
  | tail _ hEdge ih =>
    rcases hEdge with ⟨unit, _, _, _, hUnit, hStmt, hTarget⟩
    rcases ih with rfl | rfl
    · cases hUnit
      rcases mem_cons.mp hStmt with hImport | hOther
      · cases hImport
        have hFound :
            (importingUnits span folder more types).resolveModule? 0 "./lib.ts" = some (.unit 1) :=
          rfl
        rw [hFound] at hTarget
        cases hTarget
        exact .inr rfl
      · cases mem_singleton.mp hOther
    · cases hUnit
      cases mem_singleton.mp hStmt

/- The program in other places, with one more broken unit. -/
def movedUnits : Program :=
  importingUnits ⟨4, 9⟩ "src/" [⟨"broken.ts", [], [nameImport "./lib.ts" "g", .empty plainNode]⟩]
    (NodeTypes.ofList [(3, "string"), (40, "string")])

def plainUnits : Program :=
  importingUnits Span.nowhere [] [] (NodeTypes.ofList [(3, "string")])

theorem plainUnits_sameUnit {id : UnitId} (h : plainUnits.Reaches 0 id) :
    plainUnits.SameUnit movedUnits id := by
  rcases importingUnits_reaches h with rfl | rfl
  · refine ⟨rfl, ?_, ?_⟩
    · intro unit node specifier names hUnit hStmt
      cases hUnit
      rcases mem_cons.mp hStmt with hImport | hOther
      · cases hImport
        rfl
      · cases mem_singleton.mp hOther
    · intro unit hUnit
      cases hUnit
      decide +kernel
  · refine ⟨rfl, ?_, ?_⟩
    · intro unit node specifier names hUnit hStmt
      cases hUnit
      cases mem_singleton.mp hStmt
    · intro unit hUnit
      cases hUnit
      decide +kernel

theorem plainUnits_same_outcome_of_same_reached_units :
    (∀ id, plainUnits.Reaches 0 id → plainUnits.SameUnit movedUnits id) ∧
      ∃ text,
        plainUnits.compileFrom LayoutConfig.standard 0 = .ok text ∧
          movedUnits.compileFrom LayoutConfig.standard 0 = .ok text := by
  refine ⟨fun _ => plainUnits_sameUnit, ?_⟩
  have hOk : plainUnits.failure? LayoutConfig.standard 0 = none := by decide +kernel
  rcases same_outcome_of_same_reached_units
      (fun _ => plainUnits_sameUnit) LayoutConfig.standard with
    hTexts | ⟨first, second, hFirst, _⟩
  · exact hTexts
  · unfold Program.failure? at hOk
    rw [hFirst] at hOk
    cases hOk

end ScriptLowering
