import Mathlib.Data.List.Forall2
import Mathlib.Order.Defs.Unbundled
import ScriptLowering.Proofs.LoweringActions

/-
  What lowering does to the scopes. An expression keeps all
  names with their types and origins, and at most gives some
  of them a value. A statement may also add names, but only
  to the current frame, and what is lowered in a frame of its
  own adds none. All this holds however lowering ends.

  Key theorems include:
    * `moves_inFrame`
    * `moves_declare`
-/

namespace ScriptLowering

open LowerM List

-----
-- Frames That Change
-----

/- The same binding, which may have got a value. -/
structure Binding.KeptAs (before after : Binding) : Prop where
  type_eq : after.type = before.type
  origin_eq : after.origin? = before.origin?
  stays : before.initialized = true → after.initialized = true

/- The same name with the same binding. -/
def EntryKept (before after : Text × Binding) : Prop :=
  after.1 = before.1 ∧ before.2.KeptAs after.2

instance : IsPreorder (Text × Binding) EntryKept where
  refl _ := ⟨rfl, rfl, rfl, id⟩
  trans _ _ _ hFirst hSecond :=
    ⟨hSecond.1.trans hFirst.1, hSecond.2.type_eq.trans hFirst.2.type_eq,
      hSecond.2.origin_eq.trans hFirst.2.origin_eq,
      fun h => hSecond.2.stays (hFirst.2.stays h)⟩

/- A frame with the same names as before. -/
def FrameKept : Frame → Frame → Prop :=
  List.Forall₂ EntryKept

/- The names that a frame binds. -/
def Frame.names (frame : Frame) : List Text :=
  frame.map Prod.fst

/- A frame that may have got new names in front of the old ones. -/
def FrameGrown (before after : Frame) : Prop :=
  ∃ added kept,
    after = added ++ kept ∧ FrameKept before kept ∧
      ∀ name ∈ Frame.names added, name ∉ Frame.names before

/- Related one by one, in two steps. -/
theorem forall₂_trans
    {α : Type} {R : α → α → Prop} [IsTrans α R] {first second third : List α}
    (hFirst : List.Forall₂ R first second) (hSecond : List.Forall₂ R second third) :
    List.Forall₂ R first third := by
  induction hFirst generalizing third with
  | nil => exact hSecond
  | cons hHead _ ih =>
    cases hSecond with
    | cons hNext hTail => exact .cons (trans_of R hHead hNext) (ih hTail)

instance : IsPreorder Frame FrameKept where
  refl frame := forall₂_refl frame
  trans _ _ _ := forall₂_trans

theorem FrameKept.names_eq {before after : Frame} (h : FrameKept before after) :
    Frame.names after = Frame.names before := by
  induction h with
  | nil => rfl
  | cons hEntry _ ih => exact congrArg₂ cons hEntry.1 ih

theorem FrameKept.grown {before after : Frame} (h : FrameKept before after) :
    FrameGrown before after :=
  ⟨[], after, rfl, h, fun _ hName => absurd hName not_mem_nil⟩

/- Both parts of a frame that is kept are kept. -/
theorem FrameKept.exists_append {front back after : Frame} (h : FrameKept (front ++ back) after) :
    ∃ first second, after = first ++ second ∧ FrameKept front first ∧ FrameKept back second := by
  refine ⟨after.take front.length, after.drop front.length, (take_append_drop _ _).symm, ?_, ?_⟩
  · have hTake := forall₂_take front.length h
    rwa [take_left] at hTake
  · have hDrop := forall₂_drop front.length h
    rwa [drop_left] at hDrop

instance : IsPreorder Frame FrameGrown where
  refl frame := FrameKept.grown (refl_of FrameKept frame)
  trans first second third hFirst hSecond := by
    rcases hFirst with ⟨added, old, rfl, hKept, hNew⟩
    rcases hSecond with ⟨more, middle, rfl, hMiddle, hMore⟩
    rcases hMiddle.exists_append with
      ⟨stillAdded, last, rfl, hAdded, hLast⟩
    refine ⟨more ++ stillAdded, last, (append_assoc _ _ _).symm, trans_of FrameKept hKept hLast, ?_⟩
    intro name hName
    unfold Frame.names at hName
    rw [map_append] at hName
    rcases mem_append.mp hName with hLater | hEarlier
    · intro hOld
      apply hMore name hLater
      rw [← hKept.names_eq] at hOld
      unfold Frame.names
      rw [map_append]
      exact mem_append_right _ hOld
    · apply hNew name
      rw [← hAdded.names_eq]
      exact hEarlier

theorem not_mem_names_of_lookup {frame : Frame} {name : Text} (h : frame.lookup name = none) :
    name ∉ Frame.names frame := by
  intro hName
  rcases mem_map.mp hName with ⟨entry, hEntry, rfl⟩
  have hOther := lookup_eq_none_iff.mp h entry hEntry
  simp at hOther

/- A new name in front of a frame. -/
theorem frameGrown_cons (entry : Text × Binding) {frame : Frame} (h : frame.lookup entry.1 = none) :
    FrameGrown frame (entry :: frame) := by
  refine ⟨[entry], frame, rfl, refl_of FrameKept frame, ?_⟩
  intro name hName
  rw [mem_singleton.mp hName]
  exact not_mem_names_of_lookup h

/- Setting a flag keeps the names of a frame. -/
theorem frameKept_initializeIn (name : Text) (frame : Frame) :
    FrameKept frame (initializeIn name frame) := by
  induction frame with
  | nil => exact .nil
  | cons entry rest ih =>
    unfold initializeIn
    split
    · refine .cons ?_ (refl_of FrameKept rest)
      exact ⟨rfl, rfl, rfl, fun _ => rfl⟩
    · exact .cons (refl_of EntryKept entry) ih

theorem framesKept_initializeNearest
    {name : Text} {frames after : List Frame} (h : initializeNearest name frames = some after) :
    List.Forall₂ FrameKept frames after := by
  induction frames generalizing after with
  | nil => cases h
  | cons frame outer ih =>
    unfold initializeNearest at h
    split at h
    · cases h
      exact .cons (frameKept_initializeIn name frame) (forall₂_refl outer)
    · rcases Option.map_eq_some_iff.mp h with ⟨_, hInner, rfl⟩
      exact .cons (refl_of FrameKept frame) (ih hInner)

-----
-- Chains That Change
-----

namespace ScopeChain

/- The frames around the current one. -/
def outer (scope : ScopeChain) : List Frame :=
  scope.frames.tail

theorem frames_eq_cons (scope : ScopeChain) :
    scope.frames = scope.current :: scope.outer := by
  rcases scope with ⟨nested, _⟩
  cases nested <;> rfl

theorem frames_pop {scope : ScopeChain} (h : scope.outer ≠ []) :
    scope.pop.frames = scope.outer := by
  rcases scope with ⟨nested, _⟩
  cases nested with
  | nil => exact absurd rfl h
  | cons => rfl

theorem current_bind (scope : ScopeChain) (name : Text) (binding : Binding) :
    (scope.bind name binding).current = (name, binding) :: scope.current := by
  rcases scope with ⟨nested, _⟩
  cases nested <;> rfl

theorem outer_bind (scope : ScopeChain) (name : Text) (binding : Binding) :
    (scope.bind name binding).outer = scope.outer := by
  rcases scope with ⟨nested, _⟩
  cases nested <;> rfl

/-
  The chain has the same frames as before, of which only the
  current one may differ by more than what has a value.
-/
structure Moved (R : Frame → Frame → Prop) (before after : ScopeChain) : Prop where
  current : R before.current after.current
  outer : List.Forall₂ FrameKept before.outer after.outer

theorem depth_eq (scope : ScopeChain) :
    scope.depth = scope.outer.length + 1 := by
  simp [depth, outer, frames]

theorem Moved.depth_eq
    {R : Frame → Frame → Prop} {before after : ScopeChain} (h : Moved R before after) :
    after.depth = before.depth := by
  rw [before.depth_eq, after.depth_eq, h.outer.length_eq]

instance {R : Frame → Frame → Prop} [IsPreorder Frame R] :
    IsPreorder ScopeChain (Moved R) where
  refl scope :=
    ⟨refl_of R scope.current, forall₂_refl scope.outer⟩
  trans _ _ _ hFirst hSecond :=
    ⟨trans_of R hFirst.current hSecond.current, forall₂_trans hFirst.outer hSecond.outer⟩

theorem Moved.of_frames
    {before after : ScopeChain} (h : List.Forall₂ FrameKept before.frames after.frames) :
    Moved FrameKept before after := by
  rw [frames_eq_cons before, frames_eq_cons after] at h
  cases h with
  | cons hCurrent hOuter => exact ⟨hCurrent, hOuter⟩

/- A frame that is entered and left again leaves no names. -/
theorem Moved.pop
    {before after : ScopeChain} {R : Frame → Frame → Prop} (h : Moved R before.push after) :
    Moved FrameKept before after.pop := by
  have hOuter : List.Forall₂ FrameKept before.frames after.outer := h.outer
  apply Moved.of_frames
  rw [frames_pop]
  · exact hOuter
  · intro hNil
    rw [hNil, frames_eq_cons before] at hOuter
    cases hOuter

theorem moved_markInitialized
    {scope after : ScopeChain} {name : Text} (h : scope.markInitialized name = .ok after) :
    Moved FrameKept scope after := by
  apply Moved.of_frames
  unfold markInitialized at h
  split at h
  · next nested hNested =>
    cases h
    exact rel_append (framesKept_initializeNearest hNested) (forall₂_refl _)
  · split at h
    · cases h
      refine rel_append (forall₂_refl _) ?_
      exact .cons (frameKept_initializeIn name scope.root) .nil
    · cases h

end ScopeChain

-----
-- Computations That Move The Scopes
-----

/-
  However a computation ends, the scopes that it leaves are
  related to those that it found.
-/
def Moves {α : Type} (R : Frame → Frame → Prop) (action : LowerM α) : Prop :=
  ∀ state : LowerState, state.scope.Moved R (stateLeft (action state)).scope

section Actions

variable {α β ε : Type} {R : Frame → Frame → Prop}

theorem Moves.grown {action : LowerM α} (h : Moves FrameKept action) :
    Moves FrameGrown action := by
  intro state
  exact ⟨(h state).current.grown, (h state).outer⟩

variable [IsPreorder Frame R]

theorem moves_of_scope_eq
    {action : LowerM α} (h : ∀ state, (stateLeft (action state)).scope = state.scope) :
    Moves R action := by
  intro state
  rw [h state]
  exact refl_of (ScopeChain.Moved R) state.scope

/- One computation after another. -/
theorem Moves.bind
    {first : LowerM β} {next : β → LowerM α} (hFirst : Moves R first)
    (hNext : ∀ value state last, first state = .ok value last → Moves R (next value)) :
    Moves R (first >>= next) := by
  intro state
  have hMiddle := hFirst state
  simp only [Bind.bind, EStateM.bind]
  cases hResult : first state with
  | error =>
    rw [hResult] at hMiddle
    exact hMiddle
  | ok value middle =>
    rw [hResult] at hMiddle
    exact trans_of (ScopeChain.Moved R) hMiddle (hNext value state middle hResult middle)

/- A computation on the types leaves the scopes as they are. -/
theorem moves_onTypes
    {site : Site} {span : Span} {fault : ε → Fault} (action : EStateM ε TypeTable α) :
    Moves R (onTypes site span fault action) := by
  apply moves_of_scope_eq
  intro state
  unfold onTypes
  cases action state.types <;> rfl

theorem moves_typed {site : Site} {span : Span} (action : TypeM α) :
    Moves R (typed site span action) :=
  moves_onTypes action

omit [IsPreorder Frame R] in
theorem moves_inFrame {action : LowerM α} (h : Moves R action) :
    Moves FrameKept (inFrame action) := by
  intro state
  have hRun := h (pushFrame state)
  unfold inFrame
  cases hResult : action (pushFrame state) with
  | ok | error =>
    rw [hResult] at hRun
    exact hRun.pop

theorem moves_markInitialized (site : Site) (span : Span) (name : Text) :
    Moves FrameKept (markInitialized site span name) := by
  intro state
  unfold markInitialized
  simp only [Bind.bind, EStateM.bind, get_run]
  cases hMark : state.scope.markInitialized name with
  | error => exact refl_of (ScopeChain.Moved FrameKept) state.scope
  | ok => exact ScopeChain.moved_markInitialized hMark

/- A declared name is added to the current frame. -/
theorem moves_declare
    (site : Site) (span : Span) (name : Text) (type : TypeName) (origin? : Option Text) :
    Moves FrameGrown (declare site span name type origin?) := by
  intro state
  unfold declare
  simp only [Bind.bind, EStateM.bind, get_run, ScopeChain.declare]
  cases hName : state.scope.current.lookup name with
  | some => exact refl_of (ScopeChain.Moved FrameGrown) state.scope
  | none =>
    constructor
    · show FrameGrown state.scope.current (state.scope.bind name ⟨type, false, origin?⟩).current
      rw [ScopeChain.current_bind]
      exact frameGrown_cons _ hName
    · show List.Forall₂ FrameKept state.scope.outer
        (state.scope.bind name ⟨type, false, origin?⟩).outer
      rw [ScopeChain.outer_bind]
      exact forall₂_refl _

end Actions

-----
-- Frames That May Grow
-----

/- A frame that may have got new names, if names may be added. -/
def FrameChanged : Bool → Frame → Frame → Prop
  | false => FrameKept
  | true => FrameGrown

instance (adds : Bool) :
    IsPreorder Frame (FrameChanged adds) := by
  cases adds with
  | false => exact inferInstanceAs (IsPreorder Frame FrameKept)
  | true => exact inferInstanceAs (IsPreorder Frame FrameGrown)

theorem Moves.changed {α : Type} {action : LowerM α} (h : Moves FrameKept action) (adds : Bool) :
    Moves (FrameChanged adds) action := by
  cases adds with
  | false => exact h
  | true => exact h.grown

end ScriptLowering
