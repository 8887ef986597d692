import ScriptLowering.Proofs.ForwardDeclarations

/-
  The emission order as a whole. The walk that it is read
  from ends by itself, with each used struct listed once. A
  struct stands before one that its fields name only where
  field types lead back, so without such circles the order is
  topological and nothing is declared in front. Structs that
  only look back are emitted in the order of registration.

  Key theorems include:
    * `Registry.placedOf_ascending`
    * `Registry.emissionOrder_complete_and_topological`
-/

namespace ScriptLowering

open List

namespace Registry

variable {registry : Registry} {index other : Nat}

-----
-- The Walk Ends
-----

/-
  The walk over the structs of a registry, without a bound on
  its length, ends with the structs placed in this order.
-/
def WalksTo (registry : Registry) (order : List Struct) : Prop :=
  ∃ trace,
    registry.emissionExpansion.Expands [] ((List.range registry.structs.length).map .visit) trace ∧
      order =
        (placedOf trace.emitted).filterMap fun index =>
          registry.structs[index]?

/- The walk ends in exactly one way. -/
theorem walksTo_iff {order : List Struct} :
    registry.WalksTo order ↔ order = registry.emissionOrder := by
  constructor
  · intro h
    rcases h with ⟨_, hTrace, hOrder⟩
    rw [hOrder, hTrace.unique registry.expands_emission]
    rfl
  · intro h
    exact ⟨registry.emissionTrace, registry.expands_emission, h⟩

theorem emissionOrder_perm (hNames : registry.NamesDistinct) :
    registry.emissionOrder.Perm (registry.structs.filter Struct.used) := by
  have hStructs : registry.structs.Nodup := hNames.of_map
  apply (perm_ext_iff_of_nodup (emissionOrder_nodup hNames) (hStructs.filter _)).mpr
  intro struct
  rw [mem_emissionOrder_iff, mem_filter]
  rfl

-----
-- Structs That Reach Each Other
-----

/- Field types lead from one used struct to another. -/
def Reaches (registry : Registry) : Struct → Struct → Prop :=
  Relation.TransGen fun user part =>
    registry.IsUsed user ∧ registry.IsUsed part ∧ user.Mentions part

/- Two different used structs reach each other. -/
def Circular (registry : Registry) : Prop :=
  ∃ user part, user ≠ part ∧ registry.Reaches user part ∧ registry.Reaches part user

theorem LeadsBack.reaches
    {part user : Struct} (h : registry.LeadsBack part user) (hPart : registry.IsUsed part)
    (hNe : part ≠ user) :
    registry.Reaches part user := by
  -- Every struct on the way is used, the first one included.
  have hChain :
      registry.IsUsed user ∧
        Relation.ReflTransGen
          (fun struct next => registry.IsUsed struct ∧ registry.IsUsed next ∧ struct.Mentions next)
          part user := by
    clear hNe
    induction h with
    | refl => exact ⟨hPart, .refl⟩
    | tail _ hStep ih =>
      rcases hStep with ⟨hMentions, hNext, _⟩
      exact ⟨hNext, ih.2.tail ⟨ih.1, hNext, hMentions⟩⟩
  rcases Relation.reflTransGen_iff_eq_or_transGen.mp hChain.2 with hEq | hReaches
  · exact absurd hEq.symm hNe
  · exact hReaches

/-
  Where a struct stands before one that its fields name, the
  latter reaches it.
-/
theorem reaches_of_precedes
    (hNames : registry.NamesDistinct) {user part : Struct}
    (hBefore : Precedes registry.emissionOrder user part) (hNe : user ≠ part)
    (hMentions : user.Mentions part) :
    registry.Reaches part user := by
  have hUser := mem_emissionOrder_iff.mp hBefore.mem_left
  have hPart := 
    mem_emissionOrder_iff.mp (hBefore.subset (mem_cons_of_mem _ mem_cons_self))
  rcases exists_index_of_isUsed hUser with ⟨index, hIndex, hIndexUsed⟩
  rcases exists_index_of_isUsed hPart with ⟨place, hPlace, hPlaceUsed⟩
  have hIndexNe : index ≠ place := by
    intro hEq
    rw [hEq, hPlace] at hIndex
    exact hNe (Option.some.inj hIndex).symm
  have hEdge : place ∈ registry.usedDependencies index :=
    (mem_usedDependencies_iff hNames hIndex).mpr ⟨part, hPlace, hMentions, hPart⟩
  have hIndices :=
    (precedes_emissionOrder_iff hNames hIndex hPlace hIndexUsed hPlaceUsed hIndexNe).mp hBefore
  have hPath :
      Expansion.PathAvoiding registry.usedDependencies (registry.metBefore place) place index := by
    by_contra hNone
    have hBehind :=
      (precedes_index_iff hIndexUsed hPlaceUsed hIndexNe (mem_filter.mp hEdge).1).mpr hNone
    exact hIndices.asymm registry.emissionIndices_nodup hBehind
  have hLeads := (leadsBack_iff hNames hPlace hIndex).mpr hPath
  exact hLeads.reaches hPart hNe.symm

theorem precedes_of_not_circular
    (hNames : registry.NamesDistinct) (hCircular : ¬ registry.Circular) {user part : Struct}
    (hUser : registry.IsUsed user) (hPart : registry.IsUsed part) (hNe : user ≠ part)
    (hMentions : user.Mentions part) :
    Precedes registry.emissionOrder part user := by
  have hTotal :=
    Precedes.total (mem_emissionOrder_iff.mpr hUser) (mem_emissionOrder_iff.mpr hPart) hNe
  rcases hTotal with hBefore | hBehind
  · exfalso
    apply hCircular
    refine ⟨user, part, hNe, ?_, ?_⟩
    · exact Relation.TransGen.single ⟨hUser, hPart, hMentions⟩
    · exact reaches_of_precedes hNames hBefore hNe hMentions
  · exact hBehind

theorem forwardDeclarations_of_not_circular
    (hNames : registry.NamesDistinct) (hCircular : ¬ registry.Circular) :
    forwardDeclarations registry.emissionOrder = [] := by
  apply eq_nil_iff_forall_not_mem.mpr
  intro name hName
  rcases exists_of_mem_forwardDeclarations hName with ⟨part, hPart, rfl⟩
  rcases (mem_forwardDeclarations_iff (emissionOrder_names_nodup hNames) hPart).mp hName with
    ⟨user, hBefore, hPointer⟩
  have hNotBehind := hBefore.asymm (emissionOrder_nodup hNames)
  have hNe : user ≠ part := by
    intro hEq
    rw [hEq] at hBefore hNotBehind
    exact hNotBehind hBefore
  apply hNotBehind
  exact
    precedes_of_not_circular hNames hCircular (mem_emissionOrder_iff.mp hBefore.mem_left)
      (mem_emissionOrder_iff.mp hPart) hNe
      (user.pointerNames_subset_fieldNames hPointer)

-----
-- Structs That Look Back
-----

/-
  The fields of used structs name no used structs but the
  struct itself and those registered before it.
-/
def LooksBack (registry : Registry) : Prop :=
  ∀ user part, registry.IsUsed user → registry.IsUsed part →
    user.Mentions part → part = user ∨ Precedes registry.structs part user

instance (registry : Registry) :
    Decidable registry.LooksBack :=
  decidable_of_iff
    (∀ user ∈ registry.structs, ∀ part ∈ registry.structs,
      user.used = true → part.used = true →
        user.fieldNames.contains part.name = true →
          part = user ∨ Precedes registry.structs part user)
    ⟨fun h user part hUser hPart hMentions =>
        h user hUser.1 part hPart.1 hUser.2 hPart.2 (contains_iff_mem.mpr hMentions),
      fun h user hUser part hPart hUsed hPartUsed hMentions =>
        h user part ⟨hUser, hUsed⟩ ⟨hPart, hPartUsed⟩ (contains_iff_mem.mp hMentions)⟩

theorem lt_of_precedes
    (hNames : registry.NamesDistinct) {struct next : Struct}
    (hIndex : registry.structs[index]? = some struct)
    (hOther : registry.structs[other]? = some next) (h : Precedes registry.structs struct next) :
    index < other := by
  rcases Precedes.iff_exists_place.mp h with ⟨_, hPlace, hFront⟩
  rw [index_unique hNames hOther hPlace]
  rcases mem_iff_getElem?.mp hFront with ⟨_, hFirst⟩
  rw [getElem?_take] at hFirst
  split at hFirst
  · next hLt =>
    rw [index_unique hNames hIndex hFirst]
    exact hLt
  · cases hFirst

theorem LooksBack.dependency_le
    (h : registry.LooksBack) (hNames : registry.NamesDistinct)
    (hUsed : registry.isUsedAt index = true) (hEdge : other ∈ registry.usedDependencies index) :
    other ≤ index := by
  rcases isUsedAt_iff.mp hUsed with ⟨user, hIndex, hUserUsed⟩
  rcases (mem_usedDependencies_iff hNames hIndex).mp hEdge with ⟨part, hOther, hMentions, hPart⟩
  have hUser : registry.IsUsed user := ⟨mem_of_getElem? hIndex, hUserUsed⟩
  rcases h user part hUser hPart hMentions with rfl | hBefore
  · exact (index_unique hNames hOther hIndex).le
  · exact (lt_of_precedes hNames hOther hIndex hBefore).le

theorem LooksBack.le_of_reaches
    (h : registry.LooksBack) (hNames : registry.NamesDistinct) {user part : Struct}
    (hIndex : registry.structs[index]? = some user) (hOther : registry.structs[other]? = some part)
    (hReaches : registry.Reaches user part) :
    other ≤ index := by
  have hStep :
      ∀ {first second : Nat} {struct next : Struct},
        registry.structs[first]? = some struct →
          registry.structs[second]? = some next →
            registry.IsUsed struct ∧ registry.IsUsed next ∧ struct.Mentions next →
              second ≤ first := by
    intro first second struct next hFirst hSecond hEdge
    rcases hEdge with ⟨hStruct, hNext, hMentions⟩
    apply h.dependency_le hNames
    · exact isUsedAt_iff.mpr ⟨struct, hFirst, hStruct.2⟩
    · exact (mem_usedDependencies_iff hNames hFirst).mpr ⟨next, hSecond, hMentions, hNext⟩
  induction hReaches generalizing other with
  | single hEdge => exact hStep hIndex hOther hEdge
  | tail _ hEdge ih =>
    rcases exists_index_of_isUsed hEdge.1 with ⟨_, hMiddle, _⟩
    exact (hStep hMiddle hOther hEdge).trans (ih hMiddle)

/- Structs that only look back do not reach each other. -/
theorem LooksBack.not_circular (h : registry.LooksBack) (hNames : registry.NamesDistinct) :
    ¬ registry.Circular := by
  intro hCircular
  rcases hCircular with ⟨_, _, hNe, hForth, hBack⟩
  rcases Relation.TransGen.head'_iff.mp hForth with ⟨_, hFirst, _⟩
  rcases Relation.TransGen.head'_iff.mp hBack with ⟨_, hSecond, _⟩
  rcases exists_index_of_isUsed hFirst.1 with ⟨index, hIndex, _⟩
  rcases exists_index_of_isUsed hSecond.1 with ⟨other, hOther, _⟩
  have hSame : index = other :=
    Nat.le_antisymm (h.le_of_reaches hNames hOther hIndex hBack)
      (h.le_of_reaches hNames hIndex hOther hForth)
  rw [hSame, hOther] at hIndex
  exact hNe (Option.some.inj hIndex).symm

/-
  Opening a struct whose dependencies were all opened before
  places it and opens nothing else.
-/
theorem placedOf_opened
    {opened : List Nat} {inner : Expansion.Trace EmissionTask}
    (hOpened : ∀ other ∈ registry.usedDependencies index, other ∈ index :: opened)
    (h :
      registry.emissionExpansion.Expands (index :: opened)
        (registry.emissionExpansion.tasksOf index (.visit index))
        inner) :
    inner.opened = index :: opened ∧ placedOf inner.emitted = [index] := by
  have hNone :
      ∀ task ∈ registry.emissionExpansion.tasksOf index (.visit index),
        registry.emissionExpansion.opening? (index :: opened) task =
          none := by
    intro task hTask
    cases hOpening :
        registry.emissionExpansion.opening? (index :: opened) task with
    | none => rfl
    | some node =>
      rcases Expansion.opening?_eq_some.mp hOpening with ⟨hAsks, hClosed⟩
      exact absurd (hOpened node (registry.follows_emission.mem_next hTask hAsks)) hClosed
  rw [h.unique (Expansion.expands_of_no_opening hNone)]
  exact ⟨rfl, by simp [emissionExpansion]⟩

/- The used structs below an index are opened, and no others. -/
def OpenedBelow (registry : Registry) (bound : Nat) (opened : List Nat) : Prop :=
  ∀ index, index ∈ opened ↔ registry.isUsedAt index = true ∧ index < bound

namespace OpenedBelow

variable {start : Nat} {opened : List Nat}

theorem skip (h : registry.OpenedBelow start opened) (hUnused : registry.isUsedAt start = false) :
    registry.OpenedBelow (start + 1) opened := by
  intro index
  rw [h index]
  apply and_congr_right
  intro hUsed
  have hNe : index ≠ start := by
    intro hEq
    rw [hEq, hUnused] at hUsed
    cases hUsed
  omega

theorem enter (h : registry.OpenedBelow start opened) (hUsed : registry.isUsedAt start = true) :
    registry.OpenedBelow (start + 1) (start :: opened) := by
  intro index
  rw [mem_cons, h index]
  by_cases hEq : index = start
  · simp [hEq, hUsed]
  · simp only [hEq, false_or]
    apply and_congr_right
    intro _
    omega

/- Dependencies that look back are opened with the struct itself. -/
theorem mem_of_dependency
    (h : registry.OpenedBelow start opened) {other : Nat}
    (hOther : other ∈ registry.usedDependencies start) (hLe : other ≤ start) :
    other ∈ start :: opened := by
  by_cases hEq : other = start
  · rw [hEq]
    exact mem_cons_self
  · apply mem_cons_of_mem
    apply (h other).mpr
    exact ⟨(mem_filter.mp hOther).2, by omega⟩

end OpenedBelow

/-
  Visits in ascending order place the used structs in that
  order, if all earlier used structs were opened before.
-/
theorem placedOf_ascending
    (hBack :
      ∀ index, registry.isUsedAt index = true →
        ∀ other ∈ registry.usedDependencies index, other ≤ index)
    (count start : Nat) {opened : List Nat} {trace : Expansion.Trace EmissionTask}
    (hOpened : registry.OpenedBelow start opened)
    (h : registry.emissionExpansion.Expands opened ((range' start count).map .visit) trace) :
    placedOf trace.emitted = (range' start count).filter registry.isUsedAt := by
  induction count generalizing start opened trace with
  | zero =>
    cases h
    rfl
  | succ _ ih =>
    rw [range'_succ] at h ⊢
    cases h with
    | @emit _ _ _ _ hTask hRest =>
      have hUnused : registry.isUsedAt start = false := by
        by_contra hNot
        have hUsed := (Bool.not_eq_false _).mp hNot
        have hMem :=
          Expansion.mem_of_opening?_eq_none hTask (emission_asks_eq_some.mpr ⟨rfl, hUsed⟩)
        have hLt := ((hOpened start).mp hMem).2
        omega
      have hLater := ih (start + 1) (hOpened.skip hUnused) hRest
      rw [filter_cons_of_neg (by simp [hUnused])]
      exact hLater
    | @enter _ _ _ _ _ _ hTask hInner hRest =>
      have hAsks := (Expansion.opening?_eq_some.mp hTask).1
      rcases emission_asks_eq_some.mp hAsks with ⟨hVisit, hUsed⟩
      cases hVisit
      have hDone : ∀ other ∈ registry.usedDependencies start, other ∈ start :: opened := by
        intro other hOther
        exact hOpened.mem_of_dependency hOther (hBack start hUsed other hOther)
      rcases placedOf_opened hDone hInner with ⟨hInnerOpened, hPlaced⟩
      rw [hInnerOpened] at hRest
      have hLater := ih (start + 1) (hOpened.enter hUsed) hRest
      rw [filter_cons_of_pos hUsed, placedOf_append, hPlaced]
      exact congrArg (start :: ·) hLater

theorem filterMap_filter_range (structs : List Struct) :
    ((range structs.length).filter fun index =>
        structs[index]?.any Struct.used).filterMap
        (fun index => structs[index]?) =
      structs.filter Struct.used := by
  induction structs with
  | nil => rfl
  | cons _ _ ih =>
    simp only [length_cons, range_succ_eq_map, filter_cons, getElem?_cons_zero, Option.any_some,
      filter_map, Function.comp_def,
      getElem?_cons_succ]
    split
    · simp only [filterMap_cons, getElem?_cons_zero, filterMap_map, Function.comp_def,
        getElem?_cons_succ, ih]
    · simp only [filterMap_map, Function.comp_def, getElem?_cons_succ, ih]

theorem emissionOrder_of_looksBack (hNames : registry.NamesDistinct) (hBack : registry.LooksBack) :
    registry.emissionOrder = registry.structs.filter Struct.used := by
  have hTrace := registry.expands_emission
  rw [range_eq_range'] at hTrace
  have hNothing : registry.OpenedBelow 0 [] := by
    intro index
    simp
  have hPlaced :=
    placedOf_ascending (fun _ hUsed _ hEdge => hBack.dependency_le hNames hUsed hEdge)
      registry.structs.length 0 hNothing hTrace
  unfold emissionOrder
  rw [emissionIndices_eq, hPlaced, ← range_eq_range']
  exact filterMap_filter_range registry.structs

-----
-- The Whole Order
-----

/-
  The walk ends and lists the used structs, each once. A
  struct before one that its fields name is reached from it.
  Without circles the order is topological and needs no
  declarations in front, and where all structs look back it
  is the order of registration.
-/
theorem emissionOrder_complete_and_topological (hNames : registry.NamesDistinct) :
    (∀ order, registry.WalksTo order ↔ order = registry.emissionOrder) ∧
      registry.emissionOrder.Nodup ∧
      registry.emissionOrder.Perm (registry.structs.filter Struct.used) ∧
      (∀ user part,
        Precedes registry.emissionOrder user part →
          user ≠ part → user.Mentions part → registry.Reaches part user) ∧
      (¬ registry.Circular →
        (∀ user part,
          registry.IsUsed user → registry.IsUsed part →
            user ≠ part → user.Mentions part → Precedes registry.emissionOrder part user) ∧
          forwardDeclarations registry.emissionOrder = []) ∧
      (registry.LooksBack → registry.emissionOrder = registry.structs.filter Struct.used) := by
  refine
    ⟨fun _ => walksTo_iff, emissionOrder_nodup hNames, emissionOrder_perm hNames, ?_, ?_,
      emissionOrder_of_looksBack hNames⟩
  · intro user part hBefore hNe hMentions
    exact reaches_of_precedes hNames hBefore hNe hMentions
  · intro hCircular
    refine ⟨?_, forwardDeclarations_of_not_circular hNames hCircular⟩
    intro user part hUser hPart hNe hMentions
    exact precedes_of_not_circular hNames hCircular hUser hPart hNe hMentions

/- A point refers to no other struct. -/
def point : Struct :=
  ⟨"Point", [("x", ⟨"f64"⟩)], .declared, true⟩

/- A segment has two points and may have a successor. -/
def segment : Struct :=
  ⟨"Segment", [("ends", ⟨"Array<Point>"⟩), ("next", ⟨"Pointer<Segment>"⟩)], .declared, true⟩

/- A label is never used. -/
def label : Struct :=
  ⟨"Label", [("at", ⟨"Point"⟩)], .declared, false⟩

/- The used structs are emitted as they were registered. -/
theorem segment_emitted_behind_point :
    LooksBack ⟨[point, label, segment]⟩ ∧ ¬ Circular ⟨[point, label, segment]⟩ ∧
      emissionOrder ⟨[point, label, segment]⟩ = [point, segment] ∧
      Precedes (emissionOrder ⟨[point, label, segment]⟩) point segment ∧
      forwardDeclarations (emissionOrder ⟨[point, label, segment]⟩) = [] := by
  have hNames : NamesDistinct ⟨[point, label, segment]⟩ := by decide
  have hBack : LooksBack ⟨[point, label, segment]⟩ := by decide
  have hCircular := hBack.not_circular hNames
  rcases emissionOrder_complete_and_topological hNames with ⟨_, _, _, _, hTopological, hRegistered⟩
  rcases hTopological hCircular with ⟨hBehind, hForward⟩
  refine ⟨hBack, hCircular, hRegistered hBack, ?_, hForward⟩
  have hMentions : point.name ∈ segment.fieldNames := by decide
  exact hBehind segment point ⟨by simp, rfl⟩ ⟨by simp, rfl⟩ (by decide) hMentions

end Registry

end ScriptLowering
