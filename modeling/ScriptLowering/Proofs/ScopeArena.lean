import ScriptLowering.Proofs.ScopeMaps

/-
  Lexical scopes as an arena: all frames stand in one row,
  each frame points at the frame around it, and a name is
  searched by following these pointers. Whatever is done to
  new scopes, the frames stay in order, so that every search
  comes to an end, and the arena and the chain of scopes
  answer as the stack of maps does.

  Key theorems include:
    * `ScopeArena.simulates_maps`
    * `scopes_agree_with_maps`
-/

namespace ScriptLowering

open List

-----
-- Arenas
-----

/- A frame, and the number of the frame around it. -/
structure ArenaFrame where
  parent? : Option Nat
  bindings : BindingMap

/-
  All frames in the order in which they were entered, and
  the number of the current one. Frames are found by their
  numbers only.
-/
structure ScopeArena where
  frames : List ArenaFrame
  current : Nat

namespace ScopeArena

def new : ScopeArena :=
  ⟨[⟨none, BindingMap.empty⟩], 0⟩

def depth (arena : ScopeArena) : Nat :=
  arena.frames.length

def isRoot (arena : ScopeArena) : Bool :=
  arena.current == 0

/- Enter a frame inside the current one. -/
def push (arena : ScopeArena) : ScopeArena :=
  ⟨arena.frames ++ [⟨some arena.current, BindingMap.empty⟩], arena.frames.length⟩

/- Leave the current frame; one without a parent is never left. -/
def pop (arena : ScopeArena) : Option ScopeArena := do
  let frame ← arena.frames[arena.current]?
  match frame.parent? with
  | none => return arena
  | some parent =>
      return ⟨arena.frames.take arena.current, parent⟩

/- Change the bindings of one frame. -/
def update (arena : ScopeArena) (index : Nat) (change : BindingMap → BindingMap) : ScopeArena :=
  { arena with
    frames :=
      arena.frames.modify index fun frame =>
        { frame with bindings := change frame.bindings } }

def declare
    (arena : ScopeArena) (table : TypeTable) (name : Text) (type : TypeName)
    (origin? : Option Text) :
    Option (ScopeAnswer × ScopeArena) := do
  let frame ← arena.frames[arena.current]?
  if (frame.bindings name).isSome then
    return ((.error (.doubleDeclaration name), table), arena)
  else
    return ((.ok (), table.markUsed type),
      arena.update arena.current fun map =>
        map.insert name ⟨type, false, origin?⟩)

/-
  The nearest frame that binds a name, from a frame outwards
  along the pointers. A search that takes more than the given
  number of rounds has no answer.
-/
def frameWithin (arena : ScopeArena) (name : Text) : Nat → Nat → Option (Option Nat)
  | 0, _ => none
  | rounds + 1, index => do
      let frame ← arena.frames[index]?
      if (frame.bindings name).isSome then
        return some index
      else
        match frame.parent? with
        | none => return none
        | some parent => arena.frameWithin name rounds parent

/- A search that meets no frame twice takes a round for each. -/
def frameOf (arena : ScopeArena) (name : Text) : Option (Option Nat) :=
  arena.frameWithin name arena.frames.length arena.current

def markInitialized (arena : ScopeArena) (name : Text) :
    Option (Except ScopeError Unit × ScopeArena) := do
  match ← arena.frameOf name with
  | none => return (.error (.unknownIdentifier name), arena)
  | some index =>
      return (.ok (), arena.update index fun map => map.flag name)

def lookup (arena : ScopeArena) (name : Text) : Option (Option Binding) := do
  match ← arena.frameOf name with
  | none => return none
  | some index =>
      let frame ← arena.frames[index]?
      return frame.bindings name

def lookupType (arena : ScopeArena) (name : Text) : Option (Option TypeName) := do
  let binding? ← arena.lookup name
  return binding?.map Binding.type

def lookupRoot (arena : ScopeArena) (name : Text) : Option (Option Binding) := do
  let frame ← arena.frames[0]?
  return frame.bindings name

/- Scopes as an arena. -/
def form : ScopeForm ScopeArena where
  new := new
  perform table step arena :=
    match step with
    | .push => some ((.ok (), table), arena.push)
    | .pop => arena.pop.map fun after => ((.ok (), table), after)
    | .declare name type origin? =>
        arena.declare table name type origin?
    | .markInitialized name =>
        (arena.markInitialized name).map fun (outcome, after) =>
          ((outcome, table), after)

/-
  The current frame is the last one, and the frame around
  each frame is the one before it.
-/
structure InOrder (arena : ScopeArena) : Prop where
  current_last : arena.current + 1 = arena.frames.length
  parent_before :
    ∀ (index : Nat) (frame : ArenaFrame),
      arena.frames[index]? = some frame →
        frame.parent? = if index = 0 then none else some (index - 1)

/- All frames as maps, the last one first. -/
def maps (arena : ScopeArena) : List BindingMap :=
  (arena.frames.map ArenaFrame.bindings).reverse

-----
-- Following the Pointers
-----

variable {arena : ScopeArena} {stack : MapStack} {found : ArenaFrame}

/- An arena in order is its frames around the current one, and that. -/
theorem InOrder.exists_current (h : arena.InOrder) :
    ∃ around frame, arena.frames = around ++ [frame] ∧ arena.current = around.length := by
  have hLast := h.current_last
  rcases eq_nil_or_concat' arena.frames with hNil | ⟨around, frame, hFrames⟩
  · simp [hNil] at hLast
  · simp [hFrames] at hLast
    exact ⟨around, frame, hFrames, hLast⟩

theorem getElem?_current
    {around : List ArenaFrame} {frame : ArenaFrame} (hFrames : arena.frames = around ++ [frame])
    (hCurrent : arena.current = around.length) :
    arena.frames[arena.current]? = some frame := by
  rw [hFrames, hCurrent, getElem?_concat_length]

/- The last frame that binds a name is found, or no frame binds it. -/
def FindsLast (arena : ScopeArena) (name : Text) (answer : Option (Option Nat)) : Prop :=
  (answer = some none ∧ ∀ other ∈ arena.frames, other.bindings name = none) ∨
    ∃ front found back binding,
      arena.frames = front ++ found :: back ∧ found.bindings name = some binding ∧
        (∀ other ∈ back, other.bindings name = none) ∧ answer = some (some front.length)

/- The search from the last of some frames, if none behind them binds the name. -/
theorem findsLast_frameWithin
    (h : arena.InOrder) {name : Text} (around : List ArenaFrame) (frame : ArenaFrame)
    (behind : List ArenaFrame) (hFrames : arena.frames = around ++ frame :: behind)
    (hBehind : ∀ other ∈ behind, other.bindings name = none) :
    arena.FindsLast name (arena.frameWithin name (around.length + 1) around.length) := by
  -- The pointers lead one frame back at a time, so the induction
  -- is on the frames around.
  induction around using reverseRecOn generalizing frame behind with
  | nil =>
    have hFrame : arena.frames[0]? = some frame := by
      rw [hFrames]
      rfl
    have hParent := h.parent_before 0 frame hFrame
    rw [frameWithin, length_nil, hFrame]
    cases hBinding : frame.bindings name with
    | none =>
      left
      refine ⟨by simp [hBinding, hParent], ?_⟩
      intro other hOther
      rw [hFrames, nil_append] at hOther
      rcases mem_cons.mp hOther with rfl | hOther
      · exact hBinding
      · exact hBehind other hOther
    | some binding =>
      right
      exact ⟨[], frame, behind, binding, hFrames, hBinding, hBehind, by simp [hBinding]⟩
  | append_singleton around next ih =>
    have hFrame : arena.frames[(around ++ [next]).length]? = some frame := by
      rw [hFrames, getElem?_append_right (le_refl _)]
      simp
    have hParent := h.parent_before _ frame hFrame
    rw [frameWithin, hFrame]
    cases hBinding : frame.bindings name with
    | none =>
      have hStep :=
        ih next (frame :: behind) (by simp [hFrames]) (forall_mem_cons.mpr ⟨hBinding, hBehind⟩)
      simpa [hBinding, hParent] using hStep
    | some binding =>
      right
      exact
        ⟨around ++ [next], frame, behind, binding, hFrames, hBinding, hBehind, by simp [hBinding]⟩

/- The search from the current frame comes to an end. -/
theorem InOrder.findsLast (h : arena.InOrder) (name : Text) :
    arena.FindsLast name (arena.frameOf name) := by
  rcases h.exists_current with ⟨around, frame, hFrames, hCurrent⟩
  have hRounds : arena.frames.length = around.length + 1 := by simp [hFrames]
  unfold frameOf
  rw [hCurrent, hRounds]
  exact findsLast_frameWithin h around frame [] hFrames (by simp)

/- Bindings may change in an arena in order. -/
theorem InOrder.update (h : arena.InOrder) (index : Nat) (change : BindingMap → BindingMap) :
    (arena.update index change).InOrder where
  current_last := by
    simpa [ScopeArena.update] using h.current_last
  parent_before := by
    intro other frame hFrame
    rw [ScopeArena.update, getElem?_modify] at hFrame
    rcases Option.map_eq_some_iff.mp hFrame with ⟨before, hBefore, rfl⟩
    have hParent := h.parent_before other before hBefore
    split <;> exact hParent

theorem maps_eq_of_split
    {front back : List ArenaFrame} (hFrames : arena.frames = front ++ found :: back) :
    arena.maps = (back.map ArenaFrame.bindings).reverse ++ found.bindings ::
          (front.map ArenaFrame.bindings).reverse := by
  simp [maps, hFrames]

theorem frames_update
    {front back : List ArenaFrame} (hFrames : arena.frames = front ++ found :: back)
    (change : BindingMap → BindingMap) :
    (arena.update front.length change).frames =
      front ++ ⟨found.parent?, change found.bindings⟩ :: back := by
  simp [ScopeArena.update, hFrames, modify_eq_take_drop]

theorem maps_update
    {front back : List ArenaFrame} (hFrames : arena.frames = front ++ found :: back)
    (change : BindingMap → BindingMap) :
    (arena.update front.length change).maps =
      (back.map ArenaFrame.bindings).reverse ++ change found.bindings ::
          (front.map ArenaFrame.bindings).reverse :=
  maps_eq_of_split (frames_update hFrames change)

theorem unbound_reverse
    {name : Text} {frames : List ArenaFrame} (h : ∀ frame ∈ frames, frame.bindings name = none) :
    ∀ map ∈ (frames.map ArenaFrame.bindings).reverse, map name = none := by
  intro map hMap
  rcases mem_map.mp (mem_reverse.mp hMap) with ⟨frame, hFrame, rfl⟩
  exact h frame hFrame

-----
-- Arenas and Maps
-----

/- An arena in order stands for the maps of its frames. -/
structure Stands (arena : ScopeArena) (stack : MapStack) : Prop where
  inOrder : arena.InOrder
  maps_eq : arena.maps = stack.maps

theorem inOrder_new : new.InOrder where
  current_last := rfl
  parent_before := by
    intro index frame hFrame
    rcases index with _ | index
    · cases hFrame
      rfl
    · cases hFrame

theorem InOrder.push (h : arena.InOrder) :
    arena.push.InOrder where
  current_last := by simp [ScopeArena.push]
  parent_before := by
    intro index frame hFrame
    have hLast := h.current_last
    unfold ScopeArena.push at hFrame
    dsimp only at hFrame
    by_cases hIndex : index < arena.frames.length
    · rw [getElem?_append_left hIndex] at hFrame
      exact h.parent_before index frame hFrame
    · rw [getElem?_append_right (by omega)] at hFrame
      rcases List.getElem?_eq_some_iff.mp hFrame with ⟨hZero, rfl⟩
      simp at hZero
      have hNew : index = arena.current + 1 := by omega
      simp [hNew]

theorem Stands.push (h : arena.Stands stack) :
    arena.push.Stands stack.push where
  inOrder := h.inOrder.push
  maps_eq := by
    have hMaps := h.maps_eq
    unfold maps at hMaps
    simp [maps, ScopeArena.push, hMaps, MapStack.maps, MapStack.push]

/- The current frame has the innermost map. -/
theorem Stands.exists_current (h : arena.Stands stack) :
    ∃ around frame,
      arena.frames = around ++ [frame] ∧ arena.current = around.length ∧
        frame.bindings = stack.current ∧
        (around.map ArenaFrame.bindings).reverse = stack.outer := by
  rcases h.inOrder.exists_current with ⟨around, frame, hFrames, hCurrent⟩
  have hMaps := h.maps_eq
  rw [maps_eq_of_split hFrames] at hMaps
  rcases cons.inj hMaps with ⟨hFrame, hAround⟩
  exact ⟨around, frame, hFrames, hCurrent, hFrame, hAround⟩

theorem pop_eq {frame : ArenaFrame} (hFrame : arena.frames[arena.current]? = some frame) :
    arena.pop =
      match frame.parent? with
      | none => some arena
      | some parent =>
        some ⟨arena.frames.take arena.current, parent⟩ := by
  unfold ScopeArena.pop
  rw [hFrame]
  rfl

theorem Stands.pop (h : arena.Stands stack) :
    ∃ after, arena.pop = some after ∧ after.Stands stack.pop := by
  rcases h.exists_current with ⟨around, frame, hFrames, hCurrent, -, hOuter⟩
  have hFrame := getElem?_current hFrames hCurrent
  have hParent := h.inOrder.parent_before _ frame hFrame
  unfold MapStack.pop
  rw [pop_eq hFrame, hParent, hCurrent]
  rcases eq_nil_or_concat' around with rfl | ⟨front, last, rfl⟩
  · -- The root is the only frame.
    rw [← hOuter]
    exact ⟨arena, rfl, h⟩
  · rw [← hOuter]
    refine ⟨⟨front ++ [last], front.length⟩, ?_, ?_, ?_⟩
    · rw [hFrames, take_left]
      simp
    · refine ⟨by simp, ?_⟩
      intro index other hOther
      have hIndex := (List.getElem?_eq_some_iff.mp hOther).1
      apply h.inOrder.parent_before index other
      rw [hFrames, getElem?_append_left hIndex]
      exact hOther
    · simp [maps, MapStack.maps]

theorem Stands.declare
    {arena : ScopeArena} {stack : MapStack} (h : arena.Stands stack) (table : TypeTable)
    (name : Text) (type : TypeName) (origin? : Option Text) :
    ∃ after,
      arena.declare table name type origin? =
          some ((stack.declare table name type origin?).1, after) ∧
        after.Stands (stack.declare table name type origin?).2 := by
  rcases h.exists_current with ⟨_, frame, hFrames, hCurrent, hMap, hOuter⟩
  unfold ScopeArena.declare MapStack.declare
  rw [getElem?_current hFrames hCurrent, ← hMap]
  cases hBinding : frame.bindings name with
  | some => exact ⟨arena, by simp [hBinding], h⟩
  | none =>
    refine ⟨_, by simp [hBinding]; rfl, h.inOrder.update _ _, ?_⟩
    rw [hCurrent, maps_update hFrames, hOuter]
    rfl

theorem Stands.markInitialized
    {arena : ScopeArena} {stack : MapStack} (h : arena.Stands stack) (name : Text) :
    ∃ after,
      arena.markInitialized name = some ((stack.markInitialized name).1, after) ∧
        after.Stands (stack.markInitialized name).2 := by
  unfold ScopeArena.markInitialized MapStack.markInitialized
  rw [← h.maps_eq]
  rcases h.inOrder.findsLast name with
    ⟨hSearch, hUnbound⟩ | ⟨front, found, back, binding, hFrames, hBinding, hBack, hSearch⟩
  · have hFlag : flagFirst name arena.maps = none := by
      have hAll := flagFirst_append (unbound_reverse hUnbound) []
      simpa [flagFirst, maps] using hAll
    rw [hSearch, hFlag]
    exact ⟨arena, rfl, h⟩
  · have hFlag :
        flagFirst name arena.maps =
          some (arena.update front.length fun map => map.flag name).maps := by
      rw [maps_eq_of_split hFrames, maps_update hFrames,
        flagFirst_append (unbound_reverse hBack), flagFirst, hBinding]
      rfl
    have hOrder := h.inOrder.update front.length fun map => map.flag name
    rcases hOrder.exists_current with ⟨_, _, hLast, -⟩
    rw [maps_eq_of_split hLast] at hFlag
    rw [hSearch, hFlag]
    exact ⟨_, rfl, hOrder, maps_eq_of_split hLast⟩

/- The arena follows the stack of maps step by step. -/
theorem simulates_maps :
    form.Simulates MapStack.form Stands where
  new := ⟨inOrder_new, rfl⟩
  perform := by
    intro arena stack h table step
    cases step with
    | push => exact ⟨_, _, _, rfl, rfl, h.push⟩
    | pop =>
      rcases h.pop with ⟨after, hPop, hAfter⟩
      refine ⟨_, after, _, ?_, rfl, hAfter⟩
      simp [form, hPop]
    | declare name type origin? =>
      rcases h.declare table name type origin? with ⟨after, hDeclare, hAfter⟩
      exact ⟨_, after, _, hDeclare, rfl, hAfter⟩
    | markInitialized name =>
      rcases h.markInitialized name with ⟨after, hMark, hAfter⟩
      refine ⟨_, after, _, ?_, rfl, hAfter⟩
      unfold form
      dsimp only
      rw [hMark]
      rfl

theorem Stands.lookup (h : arena.Stands stack) (name : Text) :
    arena.lookup name = some (stack.lookup? name) := by
  unfold ScopeArena.lookup MapStack.lookup?
  rw [← h.maps_eq]
  rcases h.inOrder.findsLast name with
    ⟨hSearch, hUnbound⟩ | ⟨front, found, back, binding, hFrames, hBinding, hBack, hSearch⟩
  · have hNone : arena.maps.findSome? (fun map => map name) = none :=
      findSome?_eq_none_iff.mpr (unbound_reverse hUnbound)
    rw [hSearch, hNone]
    rfl
  · have hFound : arena.frames[front.length]? = some found := by
      rw [hFrames]
      simp
    rw [hSearch, maps_eq_of_split hFrames, findSome?_append,
      findSome?_eq_none_iff.mpr (unbound_reverse hBack), Option.none_or]
    simp [hFound, hBinding]

theorem Stands.lookupRoot (h : arena.Stands stack) (name : Text) :
    arena.lookupRoot name = some (stack.lookupRoot? name) := by
  have hLast :
      some (stack.maps.getLast stack.maps_ne_nil) = arena.frames[0]?.map ArenaFrame.bindings := by
    rw [← getLast?_eq_some_getLast, ← h.maps_eq, maps,
      getLast?_reverse, head?_map, head?_eq_getElem?]
  rcases Option.map_eq_some_iff.mp hLast.symm with ⟨_, hFrame, hMap⟩
  unfold ScopeArena.lookupRoot MapStack.lookupRoot?
  rw [hFrame, ← hMap]
  rfl

/-
  What can be seen of an arena is what can be seen of the
  maps, and every search comes to an end.
-/
structure Agrees (arena : ScopeArena) (stack : MapStack) : Prop where
  maps_eq : arena.maps = stack.maps
  depth_eq : arena.depth = stack.depth
  isRoot_eq : arena.isRoot = stack.isRoot
  lookup_eq : ∀ name, arena.lookup name = some (stack.lookup? name)
  lookupType_eq :
    ∀ name, arena.lookupType name = some (stack.lookupType? name)
  lookupRoot_eq :
    ∀ name, arena.lookupRoot name = some (stack.lookupRoot? name)

theorem Stands.agrees (h : arena.Stands stack) :
    arena.Agrees stack where
  maps_eq := h.maps_eq
  depth_eq := by
    rw [MapStack.depth, ← h.maps_eq, maps, depth]
    simp
  isRoot_eq := by
    rcases h.exists_current with ⟨around, _, -, hCurrent, -, hOuter⟩
    rw [MapStack.isRoot, ← hOuter, isRoot, hCurrent]
    cases around <;> simp
  lookup_eq := h.lookup
  lookupType_eq name := by
    rw [lookupType, h.lookup name]
    rfl
  lookupRoot_eq := h.lookupRoot

-----
-- Steps That Fail or Change Little
-----

/- A step that fails changes nothing. -/
theorem eq_of_perform_eq_error
    {after : ScopeArena} {table left : TypeTable} {step : ScopeStep} {error : ScopeError}
    (h : form.perform table step arena = some ((.error error, left), after)) :
    left = table ∧ after = arena := by
  cases step with
  | push => cases h
  | pop =>
    rcases Option.map_eq_some_iff.mp h with ⟨_, -, hPopped⟩
    cases hPopped
  | declare =>
    rcases Option.bind_eq_some_iff.mp h with ⟨frame, -, hFrame⟩
    split at hFrame <;> cases hFrame
    exact ⟨rfl, rfl⟩
  | markInitialized =>
    rcases Option.map_eq_some_iff.mp h with ⟨_, hMark, hMarked⟩
    rcases Option.bind_eq_some_iff.mp hMark with ⟨index?, -, hIndex⟩
    cases index? with
    | none =>
      cases hIndex
      cases hMarked
      exact ⟨rfl, rfl⟩
    | some =>
      cases hIndex
      cases hMarked

/-
  Flagging a name finds it nowhere, or changes the flag of
  the last frame with a binding for it and nothing else.
-/
def FlagsNearest (arena : ScopeArena) (name : Text) : Prop :=
  (arena.markInitialized name = some (.error (.unknownIdentifier name), arena) ∧
      ∀ frame ∈ arena.frames, frame.bindings name = none) ∨
    ∃ front found back binding,
      arena.frames = front ++ found :: back ∧ found.bindings name = some binding ∧
        (∀ frame ∈ back, frame.bindings name = none) ∧
        arena.markInitialized name =
          some (.ok (),
            { arena with
              frames :=
                front ++
                  ⟨found.parent?,
                      found.bindings.insert name { binding with initialized := true }⟩ ::
                    back })

theorem InOrder.flagsNearest (h : arena.InOrder) (name : Text) :
    arena.FlagsNearest name := by
  rcases h.findsLast name with
    ⟨hSearch, hUnbound⟩ | ⟨front, found, back, binding, hFrames, hBinding, hBack, hSearch⟩
  · left
    refine ⟨?_, hUnbound⟩
    rw [markInitialized, hSearch]
    rfl
  · right
    have hFlag :
        found.bindings.flag name =
          found.bindings.insert name { binding with initialized := true } := by
      rw [BindingMap.flag, hBinding]
      rfl
    have hUpdate := frames_update hFrames fun map => map.flag name
    refine ⟨front, found, back, binding, hFrames, hBinding, hBack, ?_⟩
    rw [markInitialized, hSearch, ← hFlag, ← hUpdate]
    rfl

end ScopeArena

/-
  Whatever steps are performed on new scopes, with whatever
  type tables, every step of the arena comes to an end, and
  the arena and the chain answer as the stack of maps does.
-/
theorem scopes_agree_with_maps (steps : List (TypeTable × ScopeStep)) :
    ∃ answers arena stack chain,
      ScopeArena.form.run steps = some (answers, arena) ∧
        MapStack.form.run steps = some (answers, stack) ∧
        ScopeChain.form.run steps = some (answers, chain) ∧
        arena.InOrder ∧
        arena.Agrees stack ∧
        chain.Agrees stack ∧
        (arena.isRoot = true → arena.pop = some arena) ∧
        (∀ table step error left after,
          ScopeArena.form.perform table step arena = some ((.error error, left), after) →
            left = table ∧ after = arena) ∧
        ∀ name, arena.FlagsNearest name := by
  rcases ScopeArena.simulates_maps.run steps with ⟨answers, arena, stack, hArena, hMaps, hStands⟩
  rcases ScopeChain.simulates_maps.run steps with
    ⟨others, chain, other, hChain, hOther, hChainStands⟩
  rw [hMaps] at hOther
  cases hOther
  refine
    ⟨answers, arena, stack, chain, hArena, hMaps, hChain,
      hStands.inOrder, hStands.agrees, hChainStands.agrees, ?_, ?_,
      hStands.inOrder.flagsNearest⟩
  · intro hRoot
    rcases hStands.inOrder.exists_current with ⟨around, frame, hFrames, hCurrent⟩
    have hFrame := ScopeArena.getElem?_current hFrames hCurrent
    have hParent := hStands.inOrder.parent_before _ frame hFrame
    rw [ScopeArena.pop_eq hFrame, hParent, beq_iff_eq.mp hRoot]
    rfl
  · intro table step error left after hError
    exact ScopeArena.eq_of_perform_eq_error hError

/-
  A name that is bound in two frames and gets its flag in
  the inner one. The root frame stays when it is left too
  often, and still binds the name.
-/
def shadowingSteps : List ScopeStep :=
  [.declare "x" ⟨"i32"⟩ none, .push, .declare "x" ⟨"u8"⟩ none,
    .markInitialized "x", .pop, .pop, .declare "x" ⟨"u8"⟩ none,
    .markInitialized "y"]

theorem shadowingSteps_agree_with_maps :
    ∃ answers arena,
      ScopeArena.form.run (shadowingSteps.map fun step => (TypeTable.empty, step)) =
        some (answers, arena) ∧
      answers.map Prod.fst =
        [.ok (), .ok (), .ok (), .ok (), .ok (), .ok (), .error (.doubleDeclaration "x"),
          .error (.unknownIdentifier "y")] ∧
      arena.InOrder ∧
      arena.depth = 1 ∧
      arena.lookup "x" = some (some ⟨⟨"i32"⟩, false, none⟩) := by
  rcases scopes_agree_with_maps (shadowingSteps.map fun step => (TypeTable.empty, step)) with
    ⟨answers, arena, stack, chain, hArena, -, hChain, hOrder, hAgrees, hChainAgrees, -⟩
  refine ⟨answers, arena, hArena, ?_, hOrder, ?_, ?_⟩
  · cases hChain
    rfl
  · rw [hAgrees.depth_eq, ← hChainAgrees.depth_eq]
    cases hChain
    rfl
  · rw [hAgrees.lookup_eq, ← hChainAgrees.lookup_eq]
    cases hChain
    rfl

end ScriptLowering
