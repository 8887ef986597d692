import ScriptLowering.Proofs.MarkOrder
import ScriptLowering.Proofs.ScopeDiscipline

/-
  What lowering goes by. The view of a state shows the
  aliases, and which names are bound with which types and
  origins; it shows neither what is used nor which names have
  a value. A computation is determined by the view if it does
  the same in all states of one view: it fails in all, or
  gives one value, marks the same types as used and leaves
  scopes of one view.

  Key theorems include:
    * `DeterminedAt.get`
    * `Determined.inFrame`
-/

namespace ScriptLowering

open LowerM LowerState List

-----
-- Views Of Scopes
-----

/- What a name is known as: its type and its origin. -/
abbrev KnownName :=
  TypeName × Option Text

def Binding.known (binding : Binding) : KnownName :=
  (binding.type, binding.origin?)

/- The names that are known in a frame. -/
abbrev FrameView :=
  Text → Option KnownName

def Frame.view (frame : Frame) : FrameView :=
  fun name => (frame.lookup name).map Binding.known

/- Nested frames, the current one first, inside the root frame. -/
@[ext] structure ScopeView where
  nested : List FrameView
  root : FrameView

namespace ScopeView

/- The nearest frame that knows a name tells what it is. -/
def lookup? (view : ScopeView) (name : Text) : Option KnownName :=
  (view.nested ++ [view.root]).findSome? fun frame => frame name

def current (view : ScopeView) : FrameView :=
  view.nested.headD view.root

def push (view : ScopeView) : ScopeView :=
  { view with nested := (fun _ => none) :: view.nested }

def pop (view : ScopeView) : ScopeView :=
  { view with nested := view.nested.tail }

/- Let a name be known in the current frame. -/
def bind (view : ScopeView) (name : Text) (known : KnownName) : ScopeView :=
  match view.nested with
  | [] =>
      { view with root := Function.update view.root name (some known) }
  | frame :: outer =>
      { view with
        nested := Function.update frame name (some known) :: outer }

theorem lookup?_bind (view : ScopeView) (name : Text) (known : KnownName) :
    (view.bind name known).lookup? name = some known := by
  rcases view with ⟨nested, _⟩
  cases nested <;> simp [bind, lookup?]

end ScopeView

def ScopeChain.view (scope : ScopeChain) : ScopeView :=
  ⟨scope.nested.map Frame.view, Frame.view scope.root⟩

theorem Frame.view_cons (name : Text) (binding : Binding) (frame : Frame) :
    Frame.view ((name, binding) :: frame) =
      Function.update (Frame.view frame) name (some binding.known) := by
  funext other
  unfold Frame.view Function.update
  rw [lookup_cons]
  by_cases hName : other = name
  · simp [hName]
  · simp [hName, beq_eq_false_iff_ne.mpr hName]

/- A frame that keeps its names looks the same. -/
theorem FrameKept.view_eq {before after : Frame} (h : FrameKept before after) :
    Frame.view after = Frame.view before := by
  induction h with
  | nil => rfl
  | @cons entry other _ _ hEntry _ ih =>
    rcases entry with ⟨_, binding⟩
    rcases other with ⟨_, kept⟩
    rcases hEntry with ⟨rfl, hKept⟩
    have hKnown : kept.known = binding.known := Prod.ext hKept.type_eq hKept.origin_eq
    rw [Frame.view_cons, Frame.view_cons, ih, hKnown]

theorem map_view_of_framesKept
    {before after : List Frame} (h : List.Forall₂ FrameKept before after) :
    before.map Frame.view = after.map Frame.view := by
  induction h with
  | nil => rfl
  | cons hFrame _ ih => rw [map_cons, map_cons, hFrame.view_eq, ih]

namespace ScopeChain

theorem view_pop (scope : ScopeChain) :
    scope.pop.view = scope.view.pop := by
  simp [view, pop, ScopeView.pop]

variable (scope : ScopeChain)

theorem view_bind (name : Text) (binding : Binding) :
    (scope.bind name binding).view = scope.view.bind name binding.known := by
  rcases scope with ⟨nested, _⟩
  cases nested with
  | nil | cons => simp [view, bind, ScopeView.bind, Frame.view_cons]

theorem current_view (name : Text) :
    (scope.current.lookup name).map Binding.known = scope.view.current name := by
  rcases scope with ⟨nested, _⟩
  cases nested <;> rfl

theorem isRoot_eq_view (scope : ScopeChain) :
    scope.isRoot = scope.view.nested.isEmpty := by
  simp [isRoot, view]

theorem known_lookup? (name : Text) :
    (scope.lookup? name).map Binding.known = scope.view.lookup? name := by
  have hFrames : scope.view.nested ++ [scope.view.root] = scope.frames.map Frame.view := by
    simp [view, frames]
  rw [ScopeView.lookup?, hFrames, findSome?_map, lookup?]
  induction scope.frames with
  | nil => rfl
  | cons frame _ ih =>
    simp only [findSome?_cons, Function.comp_apply, Frame.view]
    cases frame.lookup name with
    | none => exact ih
    | some => rfl

theorem lookupType?_eq_view (name : Text) :
    scope.lookupType? name = (scope.view.lookup? name).map Prod.fst := by
  rw [← scope.known_lookup?, Option.map_map]
  rfl

theorem qualifiedName?_eq_view (name : Text) :
    scope.qualifiedName? name =
      (scope.view.lookup? name).map fun known =>
        match known.2 with
        | some origin => mangleModule origin ++ name
        | none => name := by
  rw [← scope.known_lookup?, Option.map_map]
  rfl

/- Where no names are added, the view stays the same. -/
theorem view_eq_of_moved {before after : ScopeChain} (h : Moved FrameKept before after) :
    after.view = before.view := by
  have hFrames : List.Forall₂ FrameKept before.frames after.frames := by
    rw [frames_eq_cons before, frames_eq_cons after]
    exact .cons h.current h.outer
  have hViews := map_view_of_framesKept hFrames
  simp only [frames, map_append, map_cons, map_nil] at hViews
  rcases append_inj' hViews rfl with ⟨hNested, hRoot⟩
  unfold view
  rw [hNested, singleton_inj.mp hRoot]

/- A name can get a value exactly if it is bound. -/
theorem exists_markInitialized_iff (name : Text) :
    (∃ after, scope.markInitialized name = .ok after) ↔
      (scope.view.lookup? name).isSome = true := by
  have hNested :
      ∀ frames : List Frame,
        (initializeNearest name frames).isSome =
          (frames.findSome? fun frame =>
            frame.lookup name).isSome := by
    intro frames
    induction frames with
    | nil => rfl
    | cons frame _ ih =>
      unfold initializeNearest
      cases hFound : frame.lookup name with
      | some => simp [hFound]
      | none => simp [hFound, ih]
  have hSome := hNested scope.nested
  rw [← scope.known_lookup?, Option.isSome_map, lookup?, frames,
    findSome?_append, Option.isSome_or, ← hSome]
  unfold markInitialized
  cases hNear : initializeNearest name scope.nested with
  | some => simp
  | none => cases hRoot : scope.root.lookup name <;> simp [hRoot]

end ScopeChain

-----
-- Views Of States
-----

/- What lowering a function goes by. -/
structure LowerView where
  aliases : List (Text × TypeName)
  scope : ScopeView

def LowerState.view (state : LowerState) : LowerView :=
  ⟨state.types.aliases, state.scope.view⟩

theorem LowerState.scope_view {state : LowerState} {view : LowerView} (h : state.view = view) :
    state.scope.view = view.scope :=
  congrArg LowerView.scope h

theorem LowerState.aliases_view {state : LowerState} {view : LowerView} (h : state.view = view) :
    state.types.aliases = view.aliases :=
  congrArg LowerView.aliases h

/- The table after types were marked one after the other. -/
def TypeTable.marked (table : TypeTable) (types : List TypeName) : TypeTable :=
  { table with registry := table.registry.marked types }

/-
  What a computation comes to if it succeeds: its value, the
  types that it marks, and what it leaves of the scopes.
-/
structure Yield (α : Type) where
  value : α
  marks : List TypeName
  scope : ScopeView

/- What two computations come to, one after the other. -/
def Yield.andThen {α β : Type} (first : Yield α) (second : Yield β) : Yield β :=
  ⟨second.value, first.marks ++ second.marks, second.scope⟩

/- The outcome of a computation that was started in a state. -/
inductive ComesTo {α : Type} (start : LowerState) :
    EStateM.Result CompileError LowerState α → Option (Yield α) → Prop
  | ok
      (yield : Yield α) {last : LowerState} (hTypes : last.types = start.types.marked yield.marks)
      (hScope : last.scope.view = yield.scope) :
      ComesTo start (.ok yield.value last) (some yield)
  | error (error : CompileError) (last : LowerState) :
      ComesTo start (.error error last) none

/- A computation comes to nothing when it is started in a state. -/
def Fails {α : Type} (action : LowerM α) (start : LowerState) : Prop :=
  ∃ error last, action start = .error error last

/- All states of a view lead to one outcome. -/
def DeterminedAt {α : Type} (view : LowerView) (action : LowerM α) : Prop :=
  ∃ outcome, ∀ state : LowerState, state.view = view → ComesTo state (action state) outcome

def Determined {α : Type} (action : LowerM α) : Prop :=
  ∀ view, DeterminedAt view action

-----
-- Rules
-----

section Rules

variable {α β : Type} {view : LowerView} {start : LowerState}
variable {first : LowerM α} {next : α → LowerM β}

theorem Determined.pure (value : α) :
    Determined (Pure.pure value) :=
  fun view => ⟨some ⟨value, [], view.scope⟩, fun _ hState =>
    .ok ⟨value, [], view.scope⟩ rfl (scope_view hState)⟩

theorem determined_fail (site : Site) (span : Span) (fault : Fault) :
    Determined (fail site span fault : LowerM α) :=
  fun _ => ⟨none, fun state _ => .error _ state⟩

/- What fails in all states of a view is determined there. -/
theorem DeterminedAt.of_fails
    {action : LowerM α} (h : ∀ state : LowerState, state.view = view → Fails action state) :
    DeterminedAt view action := by
  refine ⟨none, fun state hState => ?_⟩
  rcases h state hState with ⟨error, last, hError⟩
  rw [hError]
  exact .error error last

/- What comes first fails, or what comes next does. -/
theorem Fails.bind
    (h : ∀ value middle, first start = .ok value middle → Fails (next value) middle) :
    Fails (first >>= next) start := by
  unfold Fails
  simp only [Bind.bind, EStateM.bind]
  cases hResult : first start with
  | error error last => exact ⟨error, last, rfl⟩
  | ok value middle => exact h value middle hResult

theorem Fails.bind_left (h : Fails first start) (next : α → LowerM β) :
    Fails (first >>= next) start := by
  rcases h with ⟨_, _, hError⟩
  apply Fails.bind
  intro value middle hOk
  rw [hError] at hOk
  cases hOk

/- Two outcomes one after the other. -/
theorem ComesTo.bind
    {yield : Yield α} {later : Option (Yield β)} (hFirst : ComesTo start (first start) (some yield))
    (hNext :
      ∀ middle : LowerState,
        middle.view = ⟨start.types.aliases, yield.scope⟩ →
          ComesTo middle (next yield.value middle) later) :
    ComesTo start ((first >>= next) start) (later.map yield.andThen) := by
  simp only [Bind.bind, EStateM.bind]
  generalize first start = result at hFirst
  cases hFirst with
  | @ok _ middle hTypes hScope =>
    have hMiddle : middle.view = ⟨start.types.aliases, yield.scope⟩ := by
      rw [view, hScope, hTypes]
      rfl
    have hRest := hNext middle hMiddle
    dsimp only
    generalize next yield.value middle = after at hRest
    cases hRest with
    | error error last => exact .error error last
    | ok last hMore hLast =>
      refine .ok (yield.andThen last) ?_ hLast
      rw [hMore, hTypes]
      simp only [TypeTable.marked, Yield.andThen, Registry.marked, foldl_append]

/- What comes next must be determined for values that are reached. -/
theorem DeterminedAt.bind
    (hFirst : DeterminedAt view first)
    (hNext : ∀ value state last, first state = .ok value last → Determined (next value)) :
    DeterminedAt view (first >>= next) := by
  rcases hFirst with ⟨outcome, hOutcome⟩
  by_cases hSome :
      ∃ state : LowerState, state.view = view ∧ outcome.isSome = true
  · rcases hSome with ⟨sample, hSample, hYield⟩
    rcases Option.isSome_iff_exists.mp hYield with ⟨yield, rfl⟩
    have hDetermined : Determined (next yield.value) := by
      have hRun := hOutcome sample hSample
      generalize hResult : first sample = result at hRun
      cases hRun
      exact hNext _ _ _ hResult
    rcases hDetermined ⟨view.aliases, yield.scope⟩ with ⟨later, hLater⟩
    refine ⟨later.map yield.andThen, fun state hState => ?_⟩
    apply (hOutcome state hState).bind
    intro middle hMiddle
    apply hLater
    rw [hMiddle, aliases_view hState]
  · apply DeterminedAt.of_fails
    intro state hState
    apply Fails.bind
    intro value middle hOk
    have hRun := hOutcome state hState
    rw [hOk] at hRun
    cases hRun
    exact absurd ⟨state, hState, rfl⟩ hSome

/- What comes after a look at the state goes by its view. -/
theorem DeterminedAt.get
    {next : LowerState → LowerM α}
    (hSame : ∀ state other, state.scope.view = other.scope.view → next state = next other)
    (hNext : ∀ state : LowerState, state.view = view → DeterminedAt view (next state)) :
    DeterminedAt view (MonadState.get >>= next) := by
  by_cases hSome : ∃ state : LowerState, state.view = view
  · rcases hSome with ⟨sample, hSample⟩
    rcases hNext sample hSample with ⟨outcome, hOutcome⟩
    refine ⟨outcome, fun state hState => ?_⟩
    show ComesTo state (next state state) outcome
    rw [hSame state sample ((scope_view hState).trans (scope_view hSample).symm)]
    exact hOutcome state hState
  · exact ⟨none, fun state hState => absurd ⟨state, hState⟩ hSome⟩

theorem Determined.inFrame {action : LowerM α} (h : Determined action) :
    Determined (inFrame action) := by
  intro view
  rcases h ⟨view.aliases, view.scope.push⟩ with ⟨outcome, hOutcome⟩
  refine
    ⟨outcome.map fun yield =>
      ⟨yield.value, yield.marks, yield.scope.pop⟩,
      fun state hState => ?_⟩
  have hPushed : (pushFrame state).view = ⟨view.aliases, view.scope.push⟩ := by
    rw [← hState]
    rfl
  have hRun := hOutcome _ hPushed
  unfold LowerM.inFrame
  generalize action (pushFrame state) = result at hRun
  cases hRun with
  | error error => exact .error error _
  | @ok yield last hTypes hScope =>
    refine .ok ⟨yield.value, yield.marks, yield.scope.pop⟩ hTypes ?_
    show last.scope.pop.view = yield.scope.pop
    rw [ScopeChain.view_pop, hScope]

end Rules

-----
-- Actions On The State
-----

section Actions

variable {start : LowerState} {name : Text}

theorem determined_markUsed (type : TypeName) :
    Determined (markUsed type) :=
  fun view => ⟨some ⟨(), [type], view.scope⟩, fun _ hState =>
    .ok ⟨(), [type], view.scope⟩ rfl (scope_view hState)⟩

variable (site : Site)

/- A name that is free in the current frame can be declared. -/
theorem comesTo_declare
    (span : Span) (type : TypeName) (origin? : Option Text)
    (h : start.scope.view.current name = none) :
    ComesTo start (declare site span name type origin? start)
      (some ⟨(), [type], start.scope.view.bind name (type, origin?)⟩) := by
  rw [← start.scope.current_view] at h
  have hNone := Option.map_eq_none_iff.mp h
  simp only [declare, Bind.bind, EStateM.bind, get_run, ScopeChain.declare, hNone]
  refine .ok ⟨(), [type], _⟩ rfl ?_
  exact start.scope.view_bind name ⟨type, false, origin?⟩

theorem fails_declare
    (span : Span) {known : KnownName} (type : TypeName) (origin? : Option Text)
    (h : start.scope.view.current name = some known) :
    Fails (declare site span name type origin?) start := by
  rw [← start.scope.current_view] at h
  rcases Option.map_eq_some_iff.mp h with ⟨_, hBinding, _⟩
  refine ⟨site.error span (.scope (.doubleDeclaration name)), start, ?_⟩
  simp only [declare, Bind.bind, EStateM.bind, get_run, ScopeChain.declare, hBinding]
  rfl

theorem determined_declare (span : Span) (name : Text) (type : TypeName) (origin? : Option Text) :
    Determined (declare site span name type origin?) := by
  intro view
  cases hCurrent : view.scope.current name with
  | some =>
    apply DeterminedAt.of_fails
    intro state hState
    rw [← scope_view hState] at hCurrent
    exact fails_declare site span type origin? hCurrent
  | none =>
    refine ⟨some ⟨(), [type], view.scope.bind name (type, origin?)⟩, fun state hState => ?_⟩
    rw [← scope_view hState] at hCurrent ⊢
    exact comesTo_declare site span type origin? hCurrent

/- A name that is bound can get a value. -/
theorem comesTo_markInitialized (span : Span) (h : (start.scope.view.lookup? name).isSome = true) :
    ComesTo start (markInitialized site span name start) (some ⟨(), [], start.scope.view⟩) := by
  rcases (start.scope.exists_markInitialized_iff name).mpr h with ⟨_, hAfter⟩
  simp only [markInitialized, Bind.bind, EStateM.bind, get_run, hAfter]
  refine .ok ⟨(), [], _⟩ rfl ?_
  exact ScopeChain.view_eq_of_moved (ScopeChain.moved_markInitialized hAfter)

theorem determined_markInitialized (span : Span) (name : Text) :
    Determined (markInitialized site span name) := by
  intro view
  by_cases hBound : (view.scope.lookup? name).isSome = true
  · refine ⟨some ⟨(), [], view.scope⟩, fun state hState => ?_⟩
    rw [← scope_view hState] at hBound ⊢
    exact comesTo_markInitialized site span hBound
  · apply DeterminedAt.of_fails
    intro state hState
    rw [← scope_view hState, ← state.scope.exists_markInitialized_iff name] at hBound
    cases hAfter : state.scope.markInitialized name with
    | ok after => exact absurd ⟨after, hAfter⟩ hBound
    | error error =>
      refine ⟨site.error span (.scope error), state, ?_⟩
      simp only [markInitialized, Bind.bind, EStateM.bind, get_run, hAfter]
      rfl

end Actions

end ScriptLowering
