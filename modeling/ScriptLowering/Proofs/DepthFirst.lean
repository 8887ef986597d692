import Mathlib.Data.Finset.Card
import Mathlib.Data.Finset.Range
import Mathlib.Logic.Relation
import ScriptLowering.DepthFirst

/-
  What a depth-first expansion does, by recursion on the
  tasks and without a bound on the number of openings. A task
  that opens a node is expanded on its own, and the tasks
  behind it find all nodes opened that it opened.

  Key theorems include:
    * `Expansion.Expands.mem_opened_iff`
    * `Expansion.Expands.exists_visit`
-/

namespace ScriptLowering

open List

namespace Expansion

variable {τ : Type} {expansion : Expansion τ} {opened : List Nat}
variable {tasks : List τ} {trace : Trace τ}

-----
-- Expansion Without A Bound
-----

/-
  Expanding tasks, with some nodes opened before, leaves a
  trace.
-/
inductive Expands (expansion : Expansion τ) :
    List Nat → List τ → Trace τ → Prop
  | done (opened : List Nat) :
      Expands expansion opened [] ⟨opened, []⟩
  | emit
      {opened : List Nat} {task : τ} {rest : List τ} {later : Trace τ}
      (hTask : expansion.opening? opened task = none)
      (hRest : Expands expansion opened rest later) :
      Expands expansion opened (task :: rest) ⟨later.opened, task :: later.emitted⟩
  | enter
      {opened : List Nat} {task : τ} {rest : List τ} {node : Nat} {inner later : Trace τ}
      (hTask : expansion.opening? opened task = some node)
      (hInner :
        Expands expansion (node :: opened) (expansion.tasksOf node task) inner)
      (hRest : Expands expansion inner.opened rest later) :
      Expands expansion opened (task :: rest) ⟨later.opened, inner.emitted ++ later.emitted⟩

variable {task : τ} {node : Nat}

theorem opening?_eq_some :
    expansion.opening? opened task = some node ↔
      expansion.asks task = some node ∧ node ∉ opened := by
  simp [opening?, Option.filter_eq_some_iff]

theorem mem_of_opening?_eq_none
    (h : expansion.opening? opened task = none) (hAsks : expansion.asks task = some node) :
    node ∈ opened := by
  by_contra hClosed
  have hSome := opening?_eq_some.mpr ⟨hAsks, hClosed⟩
  rw [h] at hSome
  cases hSome

/- Tasks in front of others are expanded first. -/
theorem Expands.of_append
    {front back : List τ} (h : Expands expansion opened (front ++ back) trace) :
    ∃ first second,
      Expands expansion opened front first ∧ Expands expansion first.opened back second ∧
        trace = ⟨second.opened, first.emitted ++ second.emitted⟩ := by
  induction front generalizing opened trace with
  | nil => exact ⟨⟨opened, []⟩, trace, .done opened, h, rfl⟩
  | cons _ _ ih =>
    cases h with
    | emit hTask hRest =>
      rcases ih hRest with ⟨first, second, hFirst, hSecond, rfl⟩
      exact ⟨_, second, .emit hTask hFirst, hSecond, rfl⟩
    | enter hTask hInner hRest =>
      rcases ih hRest with ⟨_, second, hFirst, hSecond, rfl⟩
      refine ⟨_, second, .enter hTask hInner hFirst, hSecond, ?_⟩
      simp

theorem Expands.append
    {front back : List τ} {first second : Trace τ} (hFirst : Expands expansion opened front first)
    (hSecond : Expands expansion first.opened back second) :
    Expands expansion opened (front ++ back) ⟨second.opened, first.emitted ++ second.emitted⟩ := by
  induction hFirst with
  | done => exact hSecond
  | emit hTask _ ih => exact .emit hTask (ih hSecond)
  | enter hTask hInner _ _ ih =>
    rw [append_assoc]
    exact .enter hTask hInner (ih hSecond)

/- The trace of an expansion is determined by its tasks. -/
theorem Expands.unique
    {other : Trace τ} (h : Expands expansion opened tasks trace)
    (hOther : Expands expansion opened tasks other) :
    trace = other := by
  induction h generalizing other with
  | done =>
    cases hOther
    rfl
  | emit hTask _ ih =>
    cases hOther with
    | emit _ hRest => rw [ih hRest]
    | enter hSome =>
      rw [hTask] at hSome
      cases hSome
  | enter hTask _ _ ihInner ihRest =>
    cases hOther with
    | emit hNone =>
      rw [hTask] at hNone
      cases hNone
    | enter hSome hInner hRest =>
      rw [hTask] at hSome
      cases hSome
      cases ihInner hInner
      rw [ihRest hRest]

theorem expands_of_no_opening (h : ∀ task ∈ tasks, expansion.opening? opened task = none) :
    Expands expansion opened tasks ⟨opened, tasks⟩ := by
  induction tasks with
  | nil => exact .done opened
  | cons task _ ih =>
    refine .emit (h task mem_cons_self) (ih ?_)
    intro other hOther
    exact h other (mem_cons_of_mem _ hOther)

theorem firstOpening?_eq_none (h : expansion.firstOpening? opened tasks = none) :
    ∀ task ∈ tasks, expansion.opening? opened task = none := by
  induction tasks with
  | nil => simp
  | cons _ _ ih =>
    unfold firstOpening? at h
    split at h
    · cases h
    · next hTask =>
      exact forall_mem_cons.mpr ⟨hTask, ih (Option.map_eq_none_iff.mp h)⟩

theorem firstOpening?_eq_some
    {opening : Opening τ} (h : expansion.firstOpening? opened tasks = some opening) :
    tasks = opening.before ++ opening.task :: opening.after ∧
      (∀ task ∈ opening.before, expansion.opening? opened task = none) ∧
      expansion.opening? opened opening.task = some opening.node := by
  induction tasks generalizing opening with
  | nil => cases h
  | cons _ _ ih =>
    unfold firstOpening? at h
    split at h
    · next node hTask =>
      cases h
      exact ⟨rfl, by simp, hTask⟩
    · next hTask =>
      rcases Option.map_eq_some_iff.mp h with ⟨_, hFound, rfl⟩
      rcases ih hFound with ⟨hRest, hBefore, hOpening⟩
      exact ⟨by simp [← hRest], forall_mem_cons.mpr ⟨hTask, hBefore⟩, hOpening⟩

-----
-- The Bound Is Enough
-----

/- Those of the first nodes that are not opened. -/
def closedNodes (size : Nat) (opened : List Nat) : Finset Nat :=
  (Finset.range size).filter fun node => node ∉ opened

theorem closedNodes_card_le (size : Nat) (opened : List Nat) :
    (closedNodes size opened).card ≤ size := by
  calc
    (closedNodes size opened).card ≤ (Finset.range size).card :=
      Finset.card_filter_le _ _
    _ = size := Finset.card_range size

theorem closedNodes_cons_card_lt {size : Nat} (hNode : node < size) (hClosed : node ∉ opened) :
    (closedNodes size (node :: opened)).card < (closedNodes size opened).card := by
  apply Finset.card_lt_card
  refine Finset.ssubset_iff_of_subset ?_ |>.mpr ⟨node, ?_, ?_⟩
  · intro other hOther
    simp only [closedNodes, Finset.mem_filter, mem_cons, not_or] at hOther ⊢
    exact ⟨hOther.1, hOther.2.2⟩
  · simp [closedNodes, hNode, hClosed]
  · simp [closedNodes]

/-
  With a bound of at least the number of closed nodes, the
  bounded run is the expansion. The tasks may be of a kind
  that only stands for nodes below the size.
-/
theorem expands_run_of_closed
    (size : Nat) (Good : τ → Prop)
    (hAsks :
      ∀ task node, Good task → expansion.asks task = some node →
        node < size ∧ ∀ other ∈ expansion.tasksOf node task, Good other)
    (bound : Nat) (opened : List Nat) (tasks : List τ) (hGood : ∀ task ∈ tasks, Good task)
    (hBound : (closedNodes size opened).card ≤ bound) :
    Expands expansion opened tasks (expansion.run bound opened tasks) := by
  induction bound generalizing opened tasks with
  | zero =>
    -- Without closed nodes there is nothing to open.
    apply expands_of_no_opening
    intro task hMem
    cases hTask : expansion.opening? opened task with
    | none => rfl
    | some node =>
      rcases opening?_eq_some.mp hTask with ⟨hAsk, hClosed⟩
      have hNode := (hAsks task node (hGood task hMem) hAsk).1
      have hLt := closedNodes_cons_card_lt hNode hClosed
      omega
  | succ _ ih =>
    unfold run
    split
    · next hNone =>
      exact expands_of_no_opening (firstOpening?_eq_none hNone)
    · next opening hSome =>
      rcases firstOpening?_eq_some hSome with ⟨hTasks, hBefore, hTask⟩
      rcases opening?_eq_some.mp hTask with ⟨hAsk, hClosed⟩
      have hOpening : Good opening.task := hGood opening.task (by simp [hTasks])
      rcases hAsks _ _ hOpening hAsk with ⟨hNode, hSupplied⟩
      have hLt := closedNodes_cons_card_lt hNode hClosed
      have hLater :=
        ih (opening.node :: opened) (expansion.tasksOf opening.node opening.task ++ opening.after)
          (by
            intro task hMem
            rcases mem_append.mp hMem with hNew | hAfter
            · exact hSupplied task hNew
            · exact hGood task (by simp [hTasks, hAfter]))
          (by omega)
      rcases hLater.of_append with ⟨_, _, hInner, hAfter, hTrace⟩
      rw [hTrace]
      conv =>
        enter [3]
        rw [hTasks]
      exact (expands_of_no_opening hBefore).append (.enter hTask hInner hAfter)

theorem expands_run
    (size : Nat) (hAsks : ∀ task node, expansion.asks task = some node → node < size) (bound : Nat)
    (opened : List Nat) (tasks : List τ) (hBound : (closedNodes size opened).card ≤ bound) :
    Expands expansion opened tasks (expansion.run bound opened tasks) :=
  expands_run_of_closed size (fun _ => True)
    (fun task node _ hAsk => ⟨hAsks task node hAsk, fun _ _ => trivial⟩)
    bound opened tasks (fun _ _ => trivial) hBound

-----
-- Opened Nodes
-----

/- Nodes that were opened stay opened. -/
theorem Expands.opened_suffix (h : Expands expansion opened tasks trace) :
    opened <:+ trace.opened := by
  induction h with
  | done => exact suffix_rfl
  | emit _ _ ih => exact ih
  | enter _ _ _ ihInner ihRest => exact ((suffix_cons _ _).trans ihInner).trans ihRest

/- No node is opened twice. -/
theorem Expands.nodup (h : Expands expansion opened tasks trace) (hOpened : opened.Nodup) :
    trace.opened.Nodup := by
  induction h with
  | done => exact hOpened
  | emit _ _ ih => exact ih hOpened
  | enter hTask _ _ ihInner ihRest =>
    apply ihRest
    apply ihInner
    exact nodup_cons.mpr ⟨(opening?_eq_some.mp hTask).2, hOpened⟩

/- In the end every node is opened that a task asks for. -/
theorem Expands.mem_opened_of_asks
    (h : Expands expansion opened tasks trace) (hTask : task ∈ tasks)
    (hAsks : expansion.asks task = some node) :
    node ∈ trace.opened := by
  induction h with
  | done => simp at hTask
  | emit hNone hRest ih =>
    rcases mem_cons.mp hTask with rfl | hMem
    · exact hRest.opened_suffix.subset (mem_of_opening?_eq_none hNone hAsks)
    · exact ih hMem
  | enter hSome hInner hRest _ ih =>
    rcases mem_cons.mp hTask with rfl | hMem
    · have hNode := (opening?_eq_some.mp hSome).1
      rw [hAsks] at hNode
      cases hNode
      apply hRest.opened_suffix.subset
      exact hInner.opened_suffix.subset mem_cons_self
    · exact ih hMem

-----
-- Expansion Along A Graph
-----

/-
  The nodes that the tasks of a node ask for are its
  neighbours, whichever task opened it.
-/
def Follows (expansion : Expansion τ) (next : Nat → List Nat) : Prop :=
  ∀ node task,
    (expansion.tasksOf node task).filterMap expansion.asks =
      next node

/- One edge of a graph, to a node outside of a list. -/
def EdgeAvoiding (next : Nat → List Nat) (avoided : List Nat) (node neighbour : Nat) : Prop :=
  neighbour ∈ next node ∧ neighbour ∉ avoided

/- A chain of edges, all to nodes outside of a list. -/
def PathAvoiding (next : Nat → List Nat) (avoided : List Nat) : Nat → Nat → Prop :=
  Relation.ReflTransGen (EdgeAvoiding next avoided)

theorem PathAvoiding.of_subset
    {next : Nat → List Nat} {fewer more : List Nat} (hSubset : fewer ⊆ more) {first last : Nat}
    (h : PathAvoiding next more first last) :
    PathAvoiding next fewer first last := by
  refine .mono ?_ _ _ h
  intro node neighbour hEdge
  exact ⟨hEdge.1, fun hMem => hEdge.2 (hSubset hMem)⟩

section Graph

variable {next : Nat → List Nat}

theorem Follows.exists_task
    (hNext : expansion.Follows next) {node neighbour : Nat} (hEdge : neighbour ∈ next node)
    (task : τ) :
    ∃ asking ∈ expansion.tasksOf node task, expansion.asks asking = some neighbour := by
  rw [← hNext node task] at hEdge
  exact mem_filterMap.mp hEdge

theorem Follows.mem_next
    (hNext : expansion.Follows next) {node neighbour : Nat} {task asking : τ}
    (hTask : asking ∈ expansion.tasksOf node task)
    (hAsks : expansion.asks asking = some neighbour) :
    neighbour ∈ next node := by
  rw [← hNext node task]
  exact mem_filterMap.mpr ⟨asking, hTask, hAsks⟩

/- A node that was opened has its neighbours opened too. -/
theorem Expands.mem_opened_of_edge
    (hNext : expansion.Follows next) (h : Expands expansion opened tasks trace)
    {node neighbour : Nat} (hNode : node ∈ trace.opened) (hNew : node ∉ opened)
    (hEdge : neighbour ∈ next node) :
    neighbour ∈ trace.opened := by
  induction h with
  | done => exact absurd hNode hNew
  | emit _ _ ih => exact ih hNode hNew
  | @enter opened task _ entered inner _ _ hInner hRest ihInner ihRest =>
    by_cases hMem : node ∈ inner.opened
    · apply hRest.opened_suffix.subset
      by_cases hEq : node = entered
      · subst hEq
        rcases hNext.exists_task hEdge task with ⟨_, hAsking, hAsks⟩
        exact hInner.mem_opened_of_asks hAsking hAsks
      · exact ihInner hMem (by simp [hEq, hNew])
    · exact ihRest hNode hMem

/- What is opened is led to by a task, around what was opened. -/
theorem Expands.exists_path
    (hNext : expansion.Follows next) (h : Expands expansion opened tasks trace) {node : Nat}
    (hNode : node ∈ trace.opened) (hNew : node ∉ opened) :
    ∃ task ∈ tasks, ∃ first,
      expansion.asks task = some first ∧ first ∉ opened ∧ PathAvoiding next opened first node := by
  induction h with
  | done => exact absurd hNode hNew
  | emit _ _ ih =>
    rcases ih hNode hNew with ⟨task, hTask, hPath⟩
    exact ⟨task, mem_cons_of_mem _ hTask, hPath⟩
  | @enter opened task _ entered inner _ hTask hInner _ ihInner ihRest =>
    rcases opening?_eq_some.mp hTask with ⟨hAsk, hClosed⟩
    by_cases hMem : node ∈ inner.opened
    · refine ⟨task, mem_cons_self, entered, hAsk, hClosed, ?_⟩
      by_cases hEq : node = entered
      · subst hEq
        exact .refl
      · rcases ihInner hMem (by simp [hEq, hNew]) with
          ⟨asking, hAsking, first, hFirst, hAvoids, hPath⟩
        have hEdge : EdgeAvoiding next opened entered first :=
          ⟨hNext.mem_next hAsking hFirst, fun hOld => hAvoids (mem_cons_of_mem _ hOld)⟩
        exact .head hEdge (hPath.of_subset (subset_cons_self _ _))
    · rcases ihRest hNode hMem with ⟨asking, hAsking, first, hFirst, hAvoids, hPath⟩
      have hSubset : opened ⊆ inner.opened :=
        List.Subset.trans (subset_cons_self _ _) hInner.opened_suffix.subset
      exact
        ⟨asking, mem_cons_of_mem _ hAsking, first, hFirst, fun hOld => hAvoids (hSubset hOld),
          hPath.of_subset hSubset⟩

/-
  The opened nodes are exactly those opened before and those
  that some task leads to around them.
-/
theorem Expands.mem_opened_iff
    (hNext : expansion.Follows next) (h : Expands expansion opened tasks trace) (node : Nat) :
    node ∈ trace.opened ↔
      node ∈ opened ∨
        ∃ task ∈ tasks, ∃ first,
          expansion.asks task = some first ∧ first ∉ opened ∧
            PathAvoiding next opened first node := by
  constructor
  · intro hNode
    by_cases hOld : node ∈ opened
    · exact .inl hOld
    · exact .inr (h.exists_path hNext hNode hOld)
  · rintro (hOld | ⟨_, hTask, _, hAsks, hFirst, hPath⟩)
    · exact h.opened_suffix.subset hOld
    · have hStart := h.mem_opened_of_asks hTask hAsks
      -- The chain never leaves what is opened newly.
      have hBoth : node ∈ trace.opened ∧ node ∉ opened := by
        induction hPath with
        | refl => exact ⟨hStart, hFirst⟩
        | tail _ hEdge ih => exact ⟨h.mem_opened_of_edge hNext ih.1 ih.2 hEdge.1, hEdge.2⟩
      exact hBoth.1

end Graph

-----
-- Visits
-----

/-
  A task that was given, or that was supplied by a node which
  was not opened at the start.
-/
def IsSupplied
    (expansion : Expansion τ) (start opened : List Nat) (tasks : List τ) (task : τ) : Prop :=
  task ∈ tasks ∨
    ∃ node ∈ opened, node ∉ start ∧
      ∃ asking, expansion.asks asking = some node ∧ task ∈ expansion.tasksOf node asking

theorem IsSupplied.cons
    {start : List Nat} {first task : τ} (h : expansion.IsSupplied start opened tasks task) :
    expansion.IsSupplied start opened (first :: tasks) task :=
  h.imp_left (mem_cons_of_mem _)

/- A later start leaves fewer suppliers. -/
theorem IsSupplied.of_start_subset
    {start newer : List Nat} (hStart : start ⊆ newer)
    (h : expansion.IsSupplied newer opened tasks task) :
    expansion.IsSupplied start opened tasks task := by
  rcases h with hGiven | ⟨node, hNode, hNew, hTask⟩
  · exact .inl hGiven
  · exact .inr ⟨node, hNode, fun hOld => hNew (hStart hOld), hTask⟩

/- What is supplied during the visit of a node is so from outside. -/
theorem IsSupplied.of_visit
    {start : List Nat} {rest : List τ} {first : τ} (hAsks : expansion.asks first = some node)
    (hNew : node ∉ start) (hNode : node ∈ opened)
    (h : expansion.IsSupplied (node :: start) opened (expansion.tasksOf node first) task) :
    expansion.IsSupplied start opened (first :: rest) task := by
  right
  rcases h with hGiven | ⟨other, hOther, hOtherNew, hTask⟩
  · exact ⟨node, hNode, hNew, first, hAsks, hGiven⟩
  · exact ⟨other, hOther, fun hOld => hOtherNew (mem_cons_of_mem _ hOld), hTask⟩

theorem IsSupplied.of_opened_subset
    {start more : List Nat} (hOpened : opened ⊆ more)
    (h : expansion.IsSupplied start opened tasks task) :
    expansion.IsSupplied start more tasks task := by
  rcases h with hGiven | ⟨node, hNode, hTask⟩
  · exact .inl hGiven
  · exact .inr ⟨node, hOpened hNode, hTask⟩

/-
  The part of an expansion between the opening of a node and
  the last of its tasks. The task that opens the node and
  all that was emitted before the visit were supplied by
  nodes that were opened before.
-/
structure Visit
    (expansion : Expansion τ) (start : List Nat) (tasks : List τ) (trace : Trace τ)
    (node : Nat) where
  task : τ
  earlier : List Nat
  inner : Trace τ
  later : List Nat
  before : List τ
  after : List τ
  asks : expansion.asks task = some node
  closed : node ∉ earlier
  start_subset : start ⊆ earlier
  expands :
    Expands expansion (node :: earlier) (expansion.tasksOf node task) inner
  opened_eq : trace.opened = later ++ inner.opened
  emitted_eq : trace.emitted = before ++ (inner.emitted ++ after)
  task_supplied : expansion.IsSupplied start earlier tasks task
  before_supplied :
    ∀ task ∈ before, expansion.IsSupplied start earlier tasks task

/- Everything emitted was given or supplied. -/
theorem Expands.isSupplied
    (h : Expands expansion opened tasks trace) (hTask : task ∈ trace.emitted) :
    expansion.IsSupplied opened trace.opened tasks task := by
  induction h with
  | done => simp at hTask
  | emit _ _ ih =>
    rcases mem_cons.mp hTask with rfl | hMem
    · exact .inl mem_cons_self
    · exact (ih hMem).cons
  | @enter opened _ _ node inner _ hSome hInner hRest ihInner ihRest =>
    rcases opening?_eq_some.mp hSome with ⟨hAsks, hClosed⟩
    have hOpened : node :: opened ⊆ inner.opened := hInner.opened_suffix.subset
    rcases mem_append.mp hTask with hMem | hMem
    · apply IsSupplied.of_opened_subset hRest.opened_suffix.subset
      exact (ihInner hMem).of_visit hAsks hClosed (hOpened mem_cons_self)
    · apply IsSupplied.cons
      exact (ihRest hMem).of_start_subset (List.Subset.trans (subset_cons_self _ _) hOpened)

/- Every newly opened node was visited. -/
theorem Expands.exists_visit
    (h : Expands expansion opened tasks trace) (hNode : node ∈ trace.opened)
    (hNew : node ∉ opened) :
    Nonempty (expansion.Visit opened tasks trace node) := by
  induction h with
  | done => exact absurd hNode hNew
  | @emit _ task _ _ _ _ ih =>
    rcases ih hNode hNew with ⟨visit⟩
    refine
      ⟨{ visit with
          before := task :: visit.before
          emitted_eq := by simp [visit.emitted_eq]
          task_supplied := visit.task_supplied.cons
          before_supplied := ?_ }⟩
    intro other hOther
    rcases mem_cons.mp hOther with rfl | hMem
    · exact .inl mem_cons_self
    · exact (visit.before_supplied other hMem).cons
  | @enter opened task _ entered inner later hTask hInner hRest ihInner ihRest =>
    rcases opening?_eq_some.mp hTask with ⟨hAsk, hClosed⟩
    rcases hRest.opened_suffix with ⟨newer, hNewer⟩
    by_cases hEq : node = entered
    · -- The task at the front opens the node.
      subst hEq
      exact
        ⟨{ task := task
           earlier := opened
           inner := inner
           later := newer
           before := []
           after := later.emitted
           asks := hAsk
           closed := hClosed
           start_subset := List.Subset.refl _
           expands := hInner
           opened_eq := hNewer.symm
           emitted_eq := rfl
           task_supplied := Or.inl mem_cons_self
           before_supplied := by simp }⟩
    · by_cases hMem : node ∈ inner.opened
      · -- A task of the node at the front opens it.
        rcases ihInner hMem (by simp [hEq, hNew]) with ⟨visit⟩
        have hEntered : entered ∈ visit.earlier := visit.start_subset mem_cons_self
        exact
          ⟨{ visit with
              later := newer ++ visit.later
              after := visit.after ++ later.emitted
              start_subset :=
                List.Subset.trans (subset_cons_self _ _) visit.start_subset
              opened_eq := by
                simp [← hNewer, visit.opened_eq]
              emitted_eq := by simp [visit.emitted_eq]
              task_supplied :=
                visit.task_supplied.of_visit hAsk hClosed hEntered
              before_supplied := fun other hOther =>
                (visit.before_supplied other hOther).of_visit hAsk hClosed hEntered }⟩
      · -- A task behind the front opens it.
        rcases ihRest hNode hMem with ⟨visit⟩
        have hStart : opened ⊆ inner.opened :=
          List.Subset.trans (subset_cons_self _ _) hInner.opened_suffix.subset
        refine
          ⟨{ visit with
              before := inner.emitted ++ visit.before
              start_subset :=
                List.Subset.trans hStart visit.start_subset
              emitted_eq := by simp [visit.emitted_eq]
              task_supplied :=
                (visit.task_supplied.of_start_subset hStart).cons
              before_supplied := ?_ }⟩
        intro other hOther
        rcases mem_append.mp hOther with hFront | hBehind
        · apply IsSupplied.of_opened_subset visit.start_subset
          exact (hInner.isSupplied hFront).of_visit hAsk hClosed
            (hInner.opened_suffix.subset mem_cons_self)
        · exact ((visit.before_supplied other hBehind).of_start_subset hStart).cons

namespace Visit

variable {start : List Nat}

theorem opened_suffix (visit : expansion.Visit start tasks trace node) :
    node :: visit.earlier <:+ trace.opened := by
  rw [visit.opened_eq]
  exact visit.expands.opened_suffix.trans (suffix_append _ _)

/-
  What is opened during the visit of a node is what the node
  leads to around all that was opened before.
-/
theorem mem_inner_iff
    {next : Nat → List Nat} (hNext : expansion.Follows next)
    (visit : expansion.Visit start tasks trace node) (other : Nat) :
    other ∈ visit.inner.opened ∧ other ∉ visit.earlier ↔
      PathAvoiding next visit.earlier node other := by
  constructor
  · rintro ⟨hOther, hNew⟩
    by_cases hEq : other = node
    · subst hEq
      exact .refl
    · rcases visit.expands.exists_path hNext hOther (by simp [hEq, hNew]) with
        ⟨asking, hAsking, first, hFirst, hAvoids, hPath⟩
      have hEdge : EdgeAvoiding next visit.earlier node first :=
        ⟨hNext.mem_next hAsking hFirst, fun hOld => hAvoids (mem_cons_of_mem _ hOld)⟩
      exact .head hEdge (hPath.of_subset (subset_cons_self _ _))
  · intro hPath
    induction hPath with
    | refl => exact ⟨visit.expands.opened_suffix.subset mem_cons_self, visit.closed⟩
    | @tail last _ _ hEdge ih =>
      refine ⟨?_, hEdge.2⟩
      by_cases hEq : last = node
      · subst hEq
        rcases hNext.exists_task hEdge.1 visit.task with ⟨_, hAsking, hAsks⟩
        exact visit.expands.mem_opened_of_asks hAsking hAsks
      · exact visit.expands.mem_opened_of_edge hNext ih.1 (by simp [hEq, ih.2]) hEdge.1

end Visit

end Expansion

end ScriptLowering
