import ScriptLowering.Proofs.TrackedCourse

/-
  Lowering told by its log. Whatever is lowered, all types
  that are written in the result were marked on the way and
  go back to decided or native ones. A whole program is
  lowered step by step, and so is its log.

  Key theorems include:
    * `compile_eq_ok_iff`
    * `exists_history`
-/

namespace ScriptLowering

open List

open TypeTable (replay)

variable {log since : List TableEvent} {state : LowerState}
variable {items : List Target.Item}

-----
-- Logs As Times
-----

/- The start of a log is kept while the log grows. -/
theorem Leads.from_start
    {ε α : Type} {action : EStateM ε TypeTable α} {Post : List TableEvent → α → Prop}
    (h : Extends log action Post) :
    Leads logClock (fun log types => since <+: log ∧ Settled log types) log action
      Post := by
  rintro types ⟨hSince, hTypes⟩
  rcases h types hTypes with ⟨later, hLater, hLast, hPost⟩
  exact ⟨later, hLater, ⟨hSince.trans hLater, hLast⟩, hPost⟩

/-
  What a log tells of types, from some log on: a longer log
  is a later time. All texts are tracked.
-/
def logTracking (since : List TableEvent) : Tracking where
  toClock := logClock
  toTextLaws := .all
  typeName _ := True
  known := Derived
  marked := MarkedSince since
  aliased := Aliased
  table log types := since <+: log ∧ Settled log types
  known_mono := Derived.mono
  marked_mono := MarkedSince.mono
  aliased_mono := Aliased.mono
  native := Derived.of_native
  pointerTo := Derived.pointerTo
  arrayElement hType hElement := hType.element hElement
  markUsed := by
    rintro log types ⟨hSince, hTypes⟩ type
    have hLater := prefix_append log [.marked type]
    exact
      ⟨log ++ [.marked type], hLater, ⟨hSince.trans hLater, hTypes.markUsed type⟩,
        log, hSince, Occurs.last log _⟩
  canonicalize raw :=
    ((decisionRule_log.leads_eval (.ofText raw) _).loud.imp
      fun _ _ _ hType => .of_decided hType.2).from_start
  declareInterface _ _ _ :=
    (extends_declareInterface _ _).from_start
  declareAlias _ _ :=
    (extends_declareAlias _ _).from_start

/- What a log leads to, step by step of lowering. -/
def Lowered (since log : List TableEvent) (state : LowerState) : Prop :=
  (logTracking since).HasState log state

theorem Lowered.settled (h : Lowered since log state) :
    Settled log state.types :=
  h.types.2

/- The time can be taken anew. -/
theorem Lowered.now (h : Lowered since log state) :
    Lowered log log state :=
  ⟨⟨prefix_refl _, h.settled⟩, h.scope⟩

theorem lowered_start :
    Lowered [] [] LowerState.start :=
  Tracking.hasState_start ⟨prefix_refl _, settled_empty⟩

/- One step writes types and declares its aliases. -/
theorem exists_log_of_lowerStep
    {step : Step} {last : LowerState} (hState : Lowered since log state)
    (hRun : lowerStep step state = .ok items last) :
    ∃ later, log <+: later ∧ Lowered since later last ∧
      AllWritten since later (items.flatMap Target.Item.types) ∧
      ∀ name ∈ step.aliasNames, Aliased later name := by
  have hStep : (logTracking since).HasStep step :=
    ⟨fun _ _ _ _ => trivial, fun _ _ _ _ => trivial, fun _ _ _ _ _ _ _ => trivial⟩
  rw [← result_stepCourse] at hRun
  rcases (Tracking.holds_stepCourse hStep).result state hState with ⟨later, hLater, hLeft, hMade⟩
  rw [hRun] at hLeft
  rcases hMade items last hRun with ⟨hItems, hAliases⟩
  refine ⟨later, hLater, hLeft, ?_, hAliases⟩
  intro type hType
  rcases mem_flatMap.mp hType with ⟨item, hItem, hMem⟩
  exact (hItems item hItem).types type hMem

-----
-- Programs
-----

/-
  A point of a run at which some of its steps are done. What
  the other steps write is marked behind this point.
-/
structure Stage
    (start : LowerState) (done : List Step) (items : List Target.Item) (log : List TableEvent) where
  doneItems : List Target.Item
  restItems : List Target.Item
  state : LowerState
  reached : List TableEvent
  runs : lowerSteps done start = .ok doneItems state
  items_eq : items = doneItems ++ restItems
  reaches : reached <+: log
  types_eq : replay reached = state.types
  written :
    AllWritten reached log (restItems.flatMap Target.Item.types)

/- One more step in front of a run. -/
theorem Stage.exists_cons
    {start middle : LowerState} {step : Step} {done : List Step} {first : List Target.Item}
    (hStep : lowerStep step start = .ok first middle) (stage : Stage middle done items log) :
    Nonempty (Stage start (step :: done) (first ++ items) log) := by
  refine
    ⟨⟨first ++ stage.doneItems, stage.restItems, stage.state,
      stage.reached, ?_, ?_, stage.reaches, stage.types_eq,
      stage.written⟩⟩
  · simp only [lowerSteps, bind, EStateM.bind, hStep, stage.runs]
    rfl
  · rw [append_assoc, ← stage.items_eq]

/- The log has a stage for all ways to divide the steps. -/
def FollowsSteps
    (start : LowerState) (steps : List Step) (items : List Target.Item)
    (log : List TableEvent) : Prop :=
  ∀ done rest, steps = done ++ rest → Nonempty (Stage start done items log)

/- A whole run, by induction on its steps. -/
theorem exists_log_of_lowerSteps
    {steps : List Step} {start last : LowerState} (hStart : Lowered log log start)
    (hRun : lowerSteps steps start = .ok items last) :
    ∃ later, log <+: later ∧ Lowered later later last ∧
      AllWritten log later (items.flatMap Target.Item.types) ∧
      (∀ step ∈ steps, ∀ name ∈ step.aliasNames, Aliased later name) ∧
      FollowsSteps start steps items later := by
  induction steps generalizing log start items with
  | nil =>
    cases hRun
    refine ⟨log, prefix_refl _, hStart, .nil, by simp, ?_⟩
    intro done rest hSplit
    rcases nil_eq_append_iff.mp hSplit with ⟨rfl, rfl⟩
    exact ⟨⟨[], [], _, log, rfl, rfl, prefix_refl _, hStart.settled.2, .nil⟩⟩
  | cons _ _ ih =>
    rcases bind_eq_ok hRun with ⟨first, _, hStep, hRest⟩
    rcases bind_eq_ok hRest with ⟨more, _, hMore, hReturn⟩
    cases hReturn
    rcases exists_log_of_lowerStep hStart hStep with ⟨_, hReached, hMiddle, hWritten, hAliases⟩
    rcases ih hMiddle.now hMore with ⟨later, hLater, hLast, hMoreWritten, hMoreAliases, hFollows⟩
    have hAll : AllWritten log later ((first ++ more).flatMap Target.Item.types) := by
      rw [flatMap_append]
      exact (hWritten.mono hLater).append (hMoreWritten.of_later hReached)
    refine ⟨later, hReached.trans hLater, hLast, hAll, ?_, ?_⟩
    · intro other hOther name hName
      rcases mem_cons.mp hOther with rfl | hMem
      · exact (hAliases name hName).mono hLater
      · exact hMoreAliases other hMem name hName
    · intro done tail hSplit
      cases done with
      | nil =>
        exact
          ⟨⟨[], first ++ more, start, log, rfl, rfl, hReached.trans hLater, hStart.settled.2, hAll⟩⟩
      | cons _ done =>
        simp only [cons_append, cons.injEq] at hSplit
        rcases hSplit with ⟨rfl, hTail⟩
        rcases hFollows done tail hTail with ⟨stage⟩
        exact stage.exists_cons hStep

/- A node of programs that are written out in the theory. -/
def plainNode : Node :=
  ⟨0, Span.nowhere⟩

/- A program that was lowered to the end. -/
structure Compilation (program : Program) where
  site : Site
  items : List Target.Item
  state : LowerState
  starts : program.startSite? = some site
  runs :
    lowerSteps (program.steps site) LowerState.start = .ok items state

namespace Compilation

variable {program : Program}

def steps (run : Compilation program) : List Step :=
  program.steps run.site

def file (run : Compilation program) : Target.CodeFile :=
  codeFile run.state.types run.items

/- Whether a program can be lowered to what passes a check. -/
def passes (program : Program) (check : Site → List Target.Item → LowerState → Bool) : Bool :=
  program.startSite?.any fun site =>
    match lowerSteps (program.steps site) LowerState.start with
    | .ok items state => check site items state
    | .error _ _ => false

variable {check : Site → List Target.Item → LowerState → Bool}

theorem exists_of_passes (h : passes program check = true) :
    Nonempty (Compilation program) := by
  rcases (Option.any_eq_true _ _).mp h with ⟨site, hSite, hRun⟩
  split at hRun
  · next items state hResult =>
    exact ⟨⟨site, items, state, hSite, hResult⟩⟩
  · cases hRun

theorem check_of_passes (run : Compilation program) (h : passes program check = true) :
    check run.site run.items run.state = true := by
  unfold passes at h
  simpa [run.starts, run.runs] using h

end Compilation

/- A program compiles to the text of the file it is lowered to. -/
theorem compile_eq_ok_iff {program : Program} {config : LayoutConfig} {text : Text} :
    program.compile config = .ok text ↔
      ∃ run : Compilation program, text = run.file.text config := by
  unfold Program.compile Program.compileFrom Program.lower
  constructor
  · intro h
    cases hEntry : program.entryUnit? with
    | none =>
      rw [hEntry] at h
      cases h
    | some entry =>
      cases hSite : program.entrySite? entry with
      | none =>
        simp only [hEntry, hSite] at h
        cases h
      | some site =>
        cases hRun :
            lowerSteps (program.steps site) LowerState.start with
        | error =>
          simp only [hEntry, hSite, hRun] at h
          cases h
        | ok items state =>
          simp only [hEntry, hSite, hRun] at h
          cases h
          have hStart : program.startSite? = some site := by
            simp [Program.startSite?, hEntry, hSite]
          exact ⟨⟨site, items, state, hStart, hRun⟩, rfl⟩
  · rintro ⟨run, rfl⟩
    rcases Option.bind_eq_some_iff.mp run.starts with ⟨_, hEntry, hSite⟩
    simp only [hEntry, hSite, run.runs]
    rfl

theorem Compilation.compiles_of_passes
    {program : Program} {check : Site → List Target.Item → LowerState → Bool}
    (h : passes program check = true) (config : LayoutConfig) :
    ∃ text, program.compile config = .ok text := by
  rcases exists_of_passes h with ⟨run⟩
  exact ⟨run.file.text config, compile_eq_ok_iff.mpr ⟨run, rfl⟩⟩

/- How a compilation came about: the log of its steps. -/
structure History
    {program : Program} (run : Compilation program) (log : List TableEvent) : Prop where
  valid : Valid log
  types_eq : replay log = run.state.types
  follows :
    FollowsSteps LowerState.start run.steps run.items log
  written :
    AllWritten [] log (run.items.flatMap Target.Item.types)
  aliased :
    ∀ step ∈ run.steps, ∀ name ∈ step.aliasNames, Aliased log name

/- Every compilation has a history. -/
theorem exists_history {program : Program} (run : Compilation program) :
    ∃ log, History run log := by
  rcases exists_log_of_lowerSteps lowered_start run.runs with
    ⟨log, _, hLast, hWritten, hAliases, hFollows⟩
  exact ⟨log, hLast.settled.1, hLast.settled.2, hFollows, hWritten, hAliases⟩

end ScriptLowering
