import Mathlib.Logic.Function.Basic
import ScriptLowering.Proofs.ScopeDiscipline

/-
  Lexical scopes as a stack of maps: the plainest form of
  what scopes are. Steps can be performed on scopes of any
  form, and two forms are compared step by step. The chain
  of scopes, which keeps the bindings of a frame in a list,
  follows the stack of maps.

  Key theorems include:
    * `ScopeForm.Simulates.run`
    * `ScopeChain.simulates_maps`
-/

namespace ScriptLowering

open List

-----
-- Steps
-----

/- What can be done to scopes. -/
inductive ScopeStep where
  | push
  | pop
  | declare (name : Text) (type : TypeName) (origin? : Option Text)
  | markInitialized (name : Text)

/- How a step ended, and the type table that it left. -/
abbrev ScopeAnswer :=
  Except ScopeError Unit × TypeTable

/-
  A form of scopes: new scopes, and what a step does to them
  with the type table of that moment. A step that comes to no
  end, or that reaches for a frame which is not there, gives
  no answer.
-/
structure ScopeForm (σ : Type) where
  new : σ
  perform : TypeTable → ScopeStep → σ → Option (ScopeAnswer × σ)

namespace ScopeForm

variable {σ τ : Type}

/- Perform steps in order; one that fails does not end them. -/
def runFrom (form : ScopeForm σ) :
    List (TypeTable × ScopeStep) → σ → Option (List ScopeAnswer × σ)
  | [], scope => some ([], scope)
  | (table, step) :: rest, scope => do
      let (answer, next) ← form.perform table step scope
      let (answers, last) ← form.runFrom rest next
      return (answer :: answers, last)

def run (form : ScopeForm σ) (steps : List (TypeTable × ScopeStep)) :
    Option (List ScopeAnswer × σ) :=
  form.runFrom steps form.new

/- Related scopes answer a step alike and stay related. -/
structure Simulates (left : ScopeForm σ) (right : ScopeForm τ) (R : σ → τ → Prop) : Prop where
  new : R left.new right.new
  perform :
    ∀ {scope : σ} {other : τ},
      R scope other →
        ∀ (table : TypeTable) (step : ScopeStep),
          ∃ answer next otherNext,
            left.perform table step scope = some (answer, next) ∧
              right.perform table step other = some (answer, otherNext) ∧
              R next otherNext

theorem Simulates.runFrom
    {left : ScopeForm σ} {right : ScopeForm τ} {R : σ → τ → Prop} (h : left.Simulates right R)
    (steps : List (TypeTable × ScopeStep)) {scope : σ} {other : τ} (hRelated : R scope other) :
    ∃ answers last otherLast,
      left.runFrom steps scope = some (answers, last) ∧
        right.runFrom steps other = some (answers, otherLast) ∧
        R last otherLast := by
  induction steps generalizing scope other with
  | nil => exact ⟨[], scope, other, rfl, rfl, hRelated⟩
  | cons entry _ ih =>
    rcases entry with ⟨table, step⟩
    rcases h.perform hRelated table step with ⟨answer, _, _, hLeft, hRight, hNext⟩
    rcases ih hNext with ⟨answers, last, otherLast, hRest, hOtherRest, hLast⟩
    refine ⟨answer :: answers, last, otherLast, ?_, ?_, hLast⟩
    · simp [ScopeForm.runFrom, hLeft, hRest]
    · simp [ScopeForm.runFrom, hRight, hOtherRest]

theorem Simulates.run
    {left : ScopeForm σ} {right : ScopeForm τ} {R : σ → τ → Prop} (h : left.Simulates right R)
    (steps : List (TypeTable × ScopeStep)) :
    ∃ answers last otherLast,
      left.run steps = some (answers, last) ∧ right.run steps = some (answers, otherLast) ∧
        R last otherLast :=
  h.runFrom steps h.new

end ScopeForm

-----
-- A Stack of Maps
-----

/- The bindings of one frame as a map. -/
abbrev BindingMap :=
  Text → Option Binding

namespace BindingMap

def empty : BindingMap :=
  fun _ => none

def insert (map : BindingMap) (name : Text) (binding : Binding) : BindingMap :=
  Function.update map name (some binding)

/- Flag the binding of a name, if there is one. -/
def flag (map : BindingMap) (name : Text) : BindingMap :=
  Function.update map name
    ((map name).map fun binding =>
      { binding with initialized := true })

end BindingMap

/- Flag the binding of a name in the first map that has one. -/
def flagFirst (name : Text) : List BindingMap → Option (List BindingMap)
  | [] => none
  | map :: rest =>
      match map name with
      | some _ => some (map.flag name :: rest)
      | none => (flagFirst name rest).map (map :: ·)

/- The innermost map and the maps around it: there is always one. -/
structure MapStack where
  current : BindingMap
  outer : List BindingMap

namespace MapStack

/- All maps, the innermost first. -/
def maps (stack : MapStack) : List BindingMap :=
  stack.current :: stack.outer

theorem maps_ne_nil (stack : MapStack) :
    stack.maps ≠ [] :=
  cons_ne_nil _ _

def depth (stack : MapStack) : Nat :=
  stack.maps.length

def isRoot (stack : MapStack) : Bool :=
  stack.outer.isEmpty

def lookup? (stack : MapStack) (name : Text) : Option Binding :=
  stack.maps.findSome? fun map => map name

def lookupType? (stack : MapStack) (name : Text) : Option TypeName :=
  (stack.lookup? name).map Binding.type

def lookupRoot? (stack : MapStack) (name : Text) : Option Binding :=
  (stack.maps.getLast stack.maps_ne_nil) name

def push (stack : MapStack) : MapStack :=
  ⟨BindingMap.empty, stack.maps⟩

/- The last map stays. -/
def pop (stack : MapStack) : MapStack :=
  match stack.outer with
  | [] => stack
  | map :: rest => ⟨map, rest⟩

/- A name may be declared once in a map. -/
def declare
    (stack : MapStack) (table : TypeTable) (name : Text) (type : TypeName)
    (origin? : Option Text) : ScopeAnswer × MapStack :=
  match stack.current name with
  | some _ => ((.error (.doubleDeclaration name), table), stack)
  | none =>
      ((.ok (), table.markUsed type),
        { stack with
          current :=
            stack.current.insert name ⟨type, false, origin?⟩ })

/- The nearest binding gets its flag. -/
def markInitialized (stack : MapStack) (name : Text) : Except ScopeError Unit × MapStack :=
  match flagFirst name stack.maps with
  | some (map :: rest) => (.ok (), ⟨map, rest⟩)
  | _ => (.error (.unknownIdentifier name), stack)

/- Scopes as a stack of maps. -/
def form : ScopeForm MapStack where
  new := ⟨BindingMap.empty, []⟩
  perform table step stack :=
    match step with
    | .push => some ((.ok (), table), stack.push)
    | .pop => some ((.ok (), table), stack.pop)
    | .declare name type origin? =>
        some (stack.declare table name type origin?)
    | .markInitialized name =>
        let (outcome, after) := stack.markInitialized name
        some ((outcome, table), after)

end MapStack

/- Maps without a name do not hide it. -/
theorem flagFirst_append
    {name : Text} {inner : List BindingMap} (h : ∀ map ∈ inner, map name = none)
    (rest : List BindingMap) :
    flagFirst name (inner ++ rest) = (flagFirst name rest).map (inner ++ ·) := by
  induction inner with
  | nil => simp
  | cons map _ ih =>
    have hMap := h map mem_cons_self
    have hInner := ih fun other hOther => h other (mem_cons_of_mem _ hOther)
    rw [cons_append, flagFirst, hMap]
    simp [hInner, Function.comp_def]

-----
-- Chains
-----

/- The bindings of a frame as a map. -/
def Frame.toMap (frame : Frame) : BindingMap :=
  fun name => frame.lookup name

theorem Frame.toMap_cons (name : Text) (binding : Binding) (frame : Frame) :
    Frame.toMap ((name, binding) :: frame) = (Frame.toMap frame).insert name binding := by
  funext other
  unfold Frame.toMap BindingMap.insert Function.update
  rw [lookup_cons]
  by_cases hName : other = name
  · simp [hName]
  · simp [hName, beq_eq_false_iff_ne.mpr hName]

theorem Frame.toMap_initializeIn (name : Text) (frame : Frame) :
    Frame.toMap (initializeIn name frame) = (Frame.toMap frame).flag name := by
  induction frame with
  | nil => exact (Function.update_eq_self name (Frame.toMap [])).symm
  | cons entry _ ih =>
    rcases entry with ⟨_, _⟩
    unfold initializeIn
    split
    · next hBound =>
      subst hBound
      rw [Frame.toMap_cons, Frame.toMap_cons]
      simp [BindingMap.flag, BindingMap.insert]
    · next hBound =>
      rw [Frame.toMap_cons, Frame.toMap_cons, ih]
      unfold BindingMap.flag BindingMap.insert
      rw [Function.update_comm hBound, Function.update_of_ne (Ne.symm hBound)]

theorem flagFirst_map_frames (name : Text) (frames : List Frame) :
    flagFirst name (frames.map Frame.toMap) =
      (initializeNearest name frames).map (List.map Frame.toMap) := by
  induction frames with
  | nil => rfl
  | cons frame _ ih =>
    unfold initializeNearest
    rw [map_cons, flagFirst]
    show (match frame.lookup name with
      | some _ => _
      | none => _) = _
    cases frame.lookup name with
    | some => simp [Frame.toMap_initializeIn]
    | none => simp [ih, Function.comp_def]

namespace ScopeChain

/- All frames as maps, the current one first. -/
def maps (scope : ScopeChain) : List BindingMap :=
  scope.frames.map Frame.toMap

/- Scopes as a chain of lists. -/
def form : ScopeForm ScopeChain where
  new := empty
  perform table step scope :=
    match step with
    | .push => some ((.ok (), table), scope.push)
    | .pop => some ((.ok (), table), scope.pop)
    | .declare name type origin? =>
        match scope.declare table name type origin? with
        | .ok (after, used) => some ((.ok (), used), after)
        | .error error => some ((.error error, table), scope)
    | .markInitialized name =>
        match scope.markInitialized name with
        | .ok after => some ((.ok (), table), after)
        | .error error => some ((.error error, table), scope)

/- The nested frames and the root are searched as one list. -/
theorem frames_markInitialized (scope : ScopeChain) (name : Text) :
    (scope.markInitialized name).toOption.map frames = initializeNearest name scope.frames := by
  rcases scope with ⟨nested, root⟩
  have hNested :
      initializeNearest name (nested ++ [root]) =
        ((initializeNearest name nested).map (· ++ [root])).or
          ((initializeNearest name [root]).map (nested ++ ·)) := by
    induction nested with
    | nil => simp [initializeNearest]
    | cons frame outer ih =>
      rw [cons_append, initializeNearest, initializeNearest]
      cases frame.lookup name with
      | some => rfl
      | none =>
        rw [ih]
        cases initializeNearest name outer <;>
          simp [Function.comp_def]
  show _ = initializeNearest name (nested ++ [root])
  rw [hNested]
  unfold markInitialized
  cases initializeNearest name nested with
  | some => rfl
  | none =>
    unfold initializeNearest
    cases root.lookup name <;> rfl

variable {scope : ScopeChain} {stack : MapStack}

theorem markInitialized_eq_error
    {name : Text} {error : ScopeError} (h : scope.markInitialized name = .error error) :
    error = .unknownIdentifier name := by
  unfold markInitialized at h
  split at h
  · cases h
  · split at h <;> cases h
    rfl

/- A chain stands for the maps of its frames. -/
def Stands (scope : ScopeChain) (stack : MapStack) : Prop :=
  scope.maps = stack.maps

theorem Stands.current (h : scope.Stands stack) :
    Frame.toMap scope.current = stack.current := by
  unfold Stands maps MapStack.maps at h
  rw [frames_eq_cons, map_cons] at h
  exact (cons.inj h).1

theorem Stands.outer (h : scope.Stands stack) :
    scope.outer.map Frame.toMap = stack.outer := by
  unfold Stands maps MapStack.maps at h
  rw [frames_eq_cons, map_cons] at h
  exact (cons.inj h).2

theorem Stands.push (h : scope.Stands stack) :
    scope.push.Stands stack.push :=
  congrArg (BindingMap.empty :: ·) h

theorem Stands.pop (h : scope.Stands stack) :
    scope.pop.Stands stack.pop := by
  have hOuter := h.outer
  rcases scope with ⟨nested, _⟩
  rcases stack with ⟨_, outer⟩
  cases nested with
  | nil =>
    cases hOuter
    exact h
  | cons =>
    cases outer with
    | nil => simp [ScopeChain.outer, frames] at hOuter
    | cons => exact hOuter

theorem Stands.bind
    {scope : ScopeChain} {stack : MapStack} (h : scope.Stands stack) (name : Text)
    (binding : Binding) :
    (scope.bind name binding).Stands
      { stack with current := stack.current.insert name binding } := by
  unfold Stands maps MapStack.maps
  rw [frames_eq_cons, current_bind, outer_bind, map_cons, Frame.toMap_cons, h.current, h.outer]

/- The chain follows the stack of maps step by step. -/
theorem simulates_maps :
    form.Simulates MapStack.form Stands where
  new := rfl
  perform := by
    intro scope stack h table step
    cases step with
    | push => exact ⟨_, _, _, rfl, rfl, h.push⟩
    | pop => exact ⟨_, _, _, rfl, rfl, h.pop⟩
    | declare name =>
      have hLookup : scope.current.lookup name = stack.current name := congrFun h.current name
      simp only [form, MapStack.form, declare, MapStack.declare, hLookup]
      cases stack.current name with
      | some => exact ⟨_, _, _, rfl, rfl, h⟩
      | none => exact ⟨_, _, _, rfl, rfl, h.bind name _⟩
    | markInitialized name =>
      have hFlag : flagFirst name stack.maps = (scope.markInitialized name).toOption.map maps := by
        rw [← h, maps, flagFirst_map_frames, ← frames_markInitialized, Option.map_map]
        rfl
      simp only [form, MapStack.form, MapStack.markInitialized, hFlag]
      cases hRun : scope.markInitialized name with
      | error =>
        rw [markInitialized_eq_error hRun]
        exact ⟨_, _, _, rfl, rfl, h⟩
      | ok after =>
        have hMaps : after.maps = Frame.toMap after.current ::
              after.outer.map Frame.toMap := by
          rw [maps, frames_eq_cons, map_cons]
        simp only [Except.toOption, Option.map_some, hMaps]
        exact ⟨_, _, _, rfl, rfl, hMaps⟩

/- What can be seen of a chain is what can be seen of the maps. -/
structure Agrees (scope : ScopeChain) (stack : MapStack) : Prop where
  maps_eq : scope.maps = stack.maps
  depth_eq : scope.depth = stack.depth
  isRoot_eq : scope.isRoot = stack.isRoot
  lookup_eq : ∀ name, scope.lookup? name = stack.lookup? name
  lookupType_eq :
    ∀ name, scope.lookupType? name = stack.lookupType? name
  lookupRoot_eq :
    ∀ name, scope.lookupRoot? name = stack.lookupRoot? name

theorem Stands.lookup? (h : scope.Stands stack) (name : Text) :
    scope.lookup? name = stack.lookup? name := by
  unfold MapStack.lookup?
  rw [← h, maps, findSome?_map]
  rfl

theorem Stands.lookupRoot? (h : scope.Stands stack) (name : Text) :
    scope.lookupRoot? name = stack.lookupRoot? name := by
  have hLast : stack.maps.getLast stack.maps_ne_nil = Frame.toMap scope.root := by
    apply Option.some.inj
    rw [← getLast?_eq_some_getLast, ← h]
    simp [maps, frames]
  unfold MapStack.lookupRoot?
  rw [hLast]
  rfl

theorem Stands.agrees (h : scope.Stands stack) :
    scope.Agrees stack where
  maps_eq := h
  depth_eq := by
    rw [MapStack.depth, ← h, maps, frames, depth]
    simp
  isRoot_eq := by
    rw [MapStack.isRoot, ← h.outer, isEmpty_map]
    rcases scope with ⟨nested, _⟩
    cases nested <;> simp [isRoot, ScopeChain.outer, frames]
  lookup_eq := h.lookup?
  lookupType_eq name := congrArg (Option.map Binding.type) (h.lookup? name)
  lookupRoot_eq := h.lookupRoot?

end ScopeChain

end ScriptLowering
