import ScriptLowering.Proofs.Registry
import ScriptLowering.Types.Emission

/-
  Which struct stands before which in the emission order. A
  struct whose fields name another one stands behind it,
  unless the visit of the other one leads to it: then it is
  finished first. Both kinds of fields count alike, so a
  pointer may turn the order of a struct and its part around.

  Key theorems include:
    * `Registry.precedes_index_iff`
    * `Registry.embedded_precedes_iff`
-/

namespace ScriptLowering

open List

-----
-- Order In A List
-----

/- One element stands before another in a list. -/
def Precedes {α : Type} (order : List α) (first second : α) : Prop :=
  [first, second].Sublist order

instance {α : Type} [DecidableEq α] (order : List α) (first second : α) :
    Decidable (Precedes order first second) :=
  inferInstanceAs (Decidable (List.Sublist _ _))

namespace Precedes

variable {α : Type} {order front back : List α} {first second : α}

theorem of_append (hFirst : first ∈ front) (hSecond : second ∈ back) :
    Precedes (front ++ back) first second :=
  (singleton_sublist.mpr hFirst).append (singleton_sublist.mpr hSecond)

theorem append_left (front : List α) (h : Precedes back first second) :
    Precedes (front ++ back) first second :=
  h.trans (sublist_append_right front back)

/- Without repetition, the order of two elements is one-way. -/
theorem asymm (hNodup : order.Nodup) (h : Precedes order first second) :
    ¬ Precedes order second first := by
  intro hBack
  rcases cons_sublist_iff.mp h with ⟨_, back, rfl, hFirst, hSecond⟩
  have hDisjoint := disjoint_of_nodup_append hNodup
  have hSecondBack := singleton_sublist.mp hSecond
  -- The pair the other way round starts behind the cut.
  rcases sublist_append_iff.mp hBack with ⟨left, _, hPair, hLeft, hRight⟩
  cases left with
  | nil =>
    have hFirstBack : first ∈ back := by
      apply hRight.subset
      simp only [nil_append] at hPair
      simp [← hPair]
    exact hDisjoint hFirst hFirstBack
  | cons head =>
    have hHead : head = second := by
      simp only [cons_append, cons.injEq] at hPair
      exact hPair.1.symm
    subst hHead
    exact hDisjoint (hLeft.subset mem_cons_self) hSecondBack

theorem total (hFirst : first ∈ order) (hSecond : second ∈ order) (hNe : first ≠ second) :
    Precedes order first second ∨ Precedes order second first := by
  rcases append_of_mem hFirst with ⟨front, back, rfl⟩
  have hCases : second ∈ front ∨ second ∈ back := by simpa [hNe.symm] using hSecond
  rcases hCases with hFront | hBack
  · exact .inr (of_append hFront mem_cons_self)
  · left
    apply append_left
    exact of_append (mem_singleton_self first) hBack

theorem mem_left (h : Precedes order first second) :
    first ∈ order :=
  h.subset mem_cons_self

/- What stands before an element is in front of its place. -/
theorem iff_exists_place :
    Precedes order first second ↔
      ∃ place, order[place]? = some second ∧ first ∈ order.take place := by
  constructor
  · intro h
    rcases cons_sublist_iff.mp h with ⟨front, _, rfl, hFirst, hSecond⟩
    rcases mem_iff_getElem?.mp (singleton_sublist.mp hSecond) with ⟨offset, hAt⟩
    refine ⟨front.length + offset, ?_, ?_⟩
    · rw [getElem?_append_right (Nat.le_add_right _ _), Nat.add_sub_cancel_left]
      exact hAt
    · rw [take_length_add_append]
      exact mem_append_left _ hFirst
  · intro h
    rcases h with ⟨place, hAt, hFirst⟩
    have hSecond : second ∈ order.drop place := by
      rw [← Nat.add_zero place, ← getElem?_drop] at hAt
      exact mem_of_getElem? hAt
    rw [← take_append_drop place order]
    exact of_append hFirst hSecond

end Precedes

-----
-- The Trace Of The Emission Order
-----

namespace Registry

variable {registry : Registry}

/- The expansion that the emission order is read from. -/
def emissionTrace (registry : Registry) : Expansion.Trace EmissionTask :=
  registry.emissionExpansion.run registry.structs.length []
    ((List.range registry.structs.length).map .visit)

/- The placed structs among tasks. -/
def placedOf (tasks : List EmissionTask) : List Nat :=
  tasks.filterMap EmissionTask.placed?

theorem emissionIndices_eq (registry : Registry) :
    registry.emissionIndices = placedOf registry.emissionTrace.emitted :=
  rfl

@[simp] theorem placedOf_append (front back : List EmissionTask) :
    placedOf (front ++ back) = placedOf front ++ placedOf back :=
  filterMap_append

@[simp] theorem placedOf_visits (indices : List Nat) :
    placedOf (indices.map .visit) = [] := by
  simp [placedOf, filterMap_map, EmissionTask.placed?]

@[simp] theorem placedOf_place (index : Nat) :
    placedOf [.place index] = [index] :=
  rfl

/- The used structs that the fields of a struct name. -/
def usedDependencies (registry : Registry) (index : Nat) : List Nat :=
  (registry.dependencies index).filter registry.isUsedAt

theorem follows_emission (registry : Registry) :
    registry.emissionExpansion.Follows registry.usedDependencies := by
  intro index task
  have hVisits :
      ((registry.dependencies index).map EmissionTask.visit).filterMap
          registry.emissionExpansion.asks =
        registry.usedDependencies index := by
    rw [filterMap_map]
    unfold usedDependencies
    induction registry.dependencies index with
    | nil => rfl
    | cons dependency _ ih =>
      by_cases hUsed : registry.isUsedAt dependency
      · simp [emissionExpansion, hUsed, ← ih]
      · simp [emissionExpansion, hUsed, ← ih]
  simp only [emissionExpansion, filterMap_append] at hVisits ⊢
  rw [hVisits]
  simp

theorem isUsedAt_iff {index : Nat} :
    registry.isUsedAt index = true ↔
      ∃ struct, registry.structs[index]? = some struct ∧ struct.used = true :=
  Option.any_eq_true _ _

theorem isUsedAt_lt {index : Nat} (h : registry.isUsedAt index = true) :
    index < registry.structs.length := by
  rcases isUsedAt_iff.mp h with ⟨_, hAt, _⟩
  exact (List.getElem?_eq_some_iff.mp hAt).1

theorem emission_asks_eq_some {task : EmissionTask} {index : Nat} :
    registry.emissionExpansion.asks task = some index ↔
      task = .visit index ∧ registry.isUsedAt index = true := by
  cases task with
  | place => simp [emissionExpansion]
  | visit =>
    simp only [emissionExpansion, Option.ite_none_right_eq_some,
      Option.some.injEq, EmissionTask.visit.injEq]
    constructor
    · rintro ⟨hUsed, rfl⟩
      exact ⟨rfl, hUsed⟩
    · rintro ⟨rfl, hUsed⟩
      exact ⟨hUsed, rfl⟩

theorem expands_emission (registry : Registry) :
    registry.emissionExpansion.Expands [] ((range registry.structs.length).map .visit)
      registry.emissionTrace := by
  apply Expansion.expands_run registry.structs.length
  · intro task index hAsks
    exact isUsedAt_lt (emission_asks_eq_some.mp hAsks).2
  · exact Expansion.closedNodes_card_le _ _

/- Each struct that is opened is placed once. -/
theorem placedOf_perm
    {opened : List Nat} {tasks : List EmissionTask} {trace : Expansion.Trace EmissionTask}
    (h : registry.emissionExpansion.Expands opened tasks trace) :
    ∃ fresh, trace.opened = fresh ++ opened ∧
      (placedOf trace.emitted).Perm (fresh ++ placedOf tasks) := by
  induction h with
  | done => exact ⟨[], rfl, .refl _⟩
  | @emit _ task _ _ _ _ ih =>
    rcases ih with ⟨fresh, hOpened, hPerm⟩
    refine ⟨fresh, hOpened, ?_⟩
    cases task with
    | visit => exact hPerm
    | place index => exact (hPerm.cons index).trans perm_middle.symm
  | @enter _ _ rest node _ _ hTask _ _ ihInner ihRest =>
    rcases ihInner with ⟨freshInner, hInner, hPermInner⟩
    rcases ihRest with ⟨freshRest, hRest, hPermRest⟩
    refine ⟨freshRest ++ freshInner ++ [node], ?_, ?_⟩
    · rw [hRest, hInner]
      simp
    · have hVisit := (emission_asks_eq_some.mp (Expansion.opening?_eq_some.mp hTask).1).1
      subst hVisit
      have hTasks : placedOf (registry.emissionExpansion.tasksOf node (.visit node)) = [node] := by
        simp [emissionExpansion]
      rw [hTasks] at hPermInner
      rw [placedOf_append]
      apply (hPermInner.append hPermRest).trans
      apply perm_iff_count.mpr
      intro index
      have hRestPlaced : placedOf (.visit node :: rest) = placedOf rest := rfl
      simp only [hRestPlaced, count_append]
      omega

/- The emitted structs are those that were opened, each once. -/
theorem emissionIndices_perm (registry : Registry) :
    registry.emissionIndices.Perm registry.emissionTrace.opened := by
  rcases placedOf_perm registry.expands_emission with ⟨_, hOpened, hPerm⟩
  rw [emissionIndices_eq, hOpened]
  simpa using hPerm

theorem emissionTrace_opened_nodup (registry : Registry) :
    registry.emissionTrace.opened.Nodup :=
  registry.expands_emission.nodup nodup_nil

theorem emissionIndices_nodup (registry : Registry) :
    registry.emissionIndices.Nodup :=
  registry.emissionIndices_perm.nodup_iff.mpr registry.emissionTrace_opened_nodup

theorem mem_emissionTrace_opened_iff {index : Nat} :
    index ∈ registry.emissionTrace.opened ↔ registry.isUsedAt index = true := by
  constructor
  · intro hMem
    rcases registry.expands_emission.exists_visit hMem (by simp) with ⟨visit⟩
    exact (emission_asks_eq_some.mp visit.asks).2
  · intro hUsed
    apply registry.expands_emission.mem_opened_of_asks
    · exact mem_map_of_mem (mem_range.mpr (isUsedAt_lt hUsed))
    · exact emission_asks_eq_some.mpr ⟨rfl, hUsed⟩

/- Exactly the used structs are emitted. -/
theorem mem_emissionIndices_iff {index : Nat} :
    index ∈ registry.emissionIndices ↔ registry.isUsedAt index = true := by
  rw [registry.emissionIndices_perm.mem_iff, mem_emissionTrace_opened_iff]

-----
-- Visits Of Structs
-----

/- The structs that are met before a struct is. -/
def metBefore (registry : Registry) (index : Nat) : List Nat :=
  registry.emissionTrace.opened.reverse.takeWhile (· != index)

/- The visit of a used struct in the emission order. -/
abbrev EmissionVisit (registry : Registry) (index : Nat) : Type :=
  registry.emissionExpansion.Visit [] ((List.range registry.structs.length).map .visit)
    registry.emissionTrace index

namespace EmissionVisit

variable {index : Nat} {other : Nat}

theorem exists_of_used (hUsed : registry.isUsedAt index = true) :
    Nonempty (registry.EmissionVisit index) :=
  registry.expands_emission.exists_visit (mem_emissionTrace_opened_iff.mpr hUsed) (by simp)

/- A visit ends with the place of its struct. -/
theorem exists_front (visit : registry.EmissionVisit index) :
    ∃ fresh front,
      visit.inner.opened = fresh ++ index :: visit.earlier ∧
        placedOf visit.inner.emitted = front ++ [index] ∧
        front.Perm fresh := by
  have hExpands := visit.expands
  simp only [emissionExpansion] at hExpands
  rcases hExpands.of_append with ⟨first, _, hFirst, hSecond, hInner⟩
  rcases placedOf_perm hFirst with ⟨fresh, hOpened, hPerm⟩
  rw [hInner]
  cases hSecond with
  | enter hTask => cases hTask
  | emit _ hDone =>
    cases hDone
    exact ⟨fresh, placedOf first.emitted, hOpened, by simp, by simpa using hPerm⟩

theorem mem_metBefore_iff (visit : registry.EmissionVisit index) (other : Nat) :
    other ∈ registry.metBefore index ↔ other ∈ visit.earlier := by
  rcases visit.opened_suffix with ⟨later, hOpened⟩
  have hReverse :
      registry.emissionTrace.opened.reverse = visit.earlier.reverse ++ index :: later.reverse := by
    simp [← hOpened]
  have hEarlier : ∀ met ∈ visit.earlier.reverse, (met != index) = true := by
    intro met hMet
    simp only [bne_iff_ne, ne_eq]
    rintro rfl
    exact visit.closed (mem_reverse.mp hMet)
  rw [metBefore, hReverse, takeWhile_append_of_pos hEarlier]
  simp

/- What was placed before a visit was met before it. -/
theorem mem_earlier_of_mem_placedOf_before
    (visit : registry.EmissionVisit index) (h : other ∈ placedOf visit.before) :
    other ∈ visit.earlier := by
  rcases mem_filterMap.mp h with ⟨task, hTask, hPlaced⟩
  cases task with
  | visit => cases hPlaced
  | place place =>
    cases hPlaced
    rcases visit.before_supplied _ hTask with hGiven | ⟨_, _, _, _, _, hSupplied⟩
    · simp at hGiven
    · simp only [emissionExpansion, mem_append, mem_map,
        reduceCtorEq, and_false, exists_false, mem_singleton,
        EmissionTask.place.injEq, false_or] at hSupplied
      rwa [hSupplied]

theorem emissionIndices_split (visit : registry.EmissionVisit index) :
    registry.emissionIndices =
      placedOf visit.before ++ (placedOf visit.inner.emitted ++ placedOf visit.after) := by
  rw [emissionIndices_eq, visit.emitted_eq]
  simp

/- What is met during a visit stands before the visited struct. -/
theorem precedes_of_mem_inner
    (visit : registry.EmissionVisit index) (hNe : other ≠ index)
    (hInner : other ∈ visit.inner.opened) (hNew : other ∉ visit.earlier) :
    Precedes registry.emissionIndices other index := by
  rcases visit.exists_front with ⟨_, front, hOpened, hPlaced, hPerm⟩
  have hFront : other ∈ front := by
    rw [hOpened] at hInner
    apply hPerm.mem_iff.mpr
    simpa [hNe, hNew] using hInner
  rw [visit.emissionIndices_split, hPlaced]
  apply Precedes.append_left
  have hFirst := Precedes.of_append hFront (mem_singleton_self index)
  exact hFirst.trans (sublist_append_left _ _)

/- What is met after a visit stands behind the visited struct. -/
theorem precedes_of_not_mem_inner
    (visit : registry.EmissionVisit index) (hUsed : registry.isUsedAt other = true)
    (hLater : other ∉ visit.inner.opened) :
    Precedes registry.emissionIndices index other := by
  rcases visit.exists_front with ⟨_, _, hOpened, hPlaced, hPerm⟩
  have hEmitted := mem_emissionIndices_iff.mpr hUsed
  rw [visit.emissionIndices_split] at hEmitted ⊢
  apply Precedes.append_left
  apply Precedes.of_append
  · simp [hPlaced]
  · rcases mem_append.mp hEmitted with hBefore | hBehind
    · exfalso
      apply hLater
      rw [hOpened]
      have hEarlier := visit.mem_earlier_of_mem_placedOf_before hBefore
      simp [hEarlier]
    · rcases mem_append.mp hBehind with hDuring | hAfter
      · exfalso
        apply hLater
        rw [hPlaced, mem_append, hPerm.mem_iff, mem_singleton] at hDuring
        rw [hOpened]
        rcases hDuring with hFresh | rfl
        · simp [hFresh]
        · simp
      · exact hAfter

end EmissionVisit

-----
-- Dependencies In The Emission Order
-----

open Expansion in
/-
  A struct stands behind a struct that its fields name,
  unless the latter leads to it around all that was met
  before.
-/
theorem precedes_index_iff
    {user part : Nat} (hUser : registry.isUsedAt user = true)
    (hPart : registry.isUsedAt part = true) (hNe : user ≠ part)
    (hEdge : part ∈ registry.dependencies user) :
    Precedes registry.emissionIndices part user ↔
      ¬ PathAvoiding registry.usedDependencies (registry.metBefore part) part user := by
  rcases EmissionVisit.exists_of_used hPart with ⟨visit⟩
  have hAvoided :
      PathAvoiding registry.usedDependencies (registry.metBefore part) part user ↔
        user ∈ visit.inner.opened ∧ user ∉ visit.earlier := by
    rw [visit.mem_inner_iff registry.follows_emission user]
    constructor
    · apply PathAvoiding.of_subset
      intro met hMet
      exact (visit.mem_metBefore_iff met).mpr hMet
    · apply PathAvoiding.of_subset
      intro met hMet
      exact (visit.mem_metBefore_iff met).mp hMet
  rw [hAvoided]
  constructor
  · rintro hPrecedes ⟨hInner, hNew⟩
    exact Precedes.asymm registry.emissionIndices_nodup hPrecedes
      (visit.precedes_of_mem_inner hNe hInner hNew)
  · intro hNotDuring
    by_cases hInner : user ∈ visit.inner.opened
    · -- The user was met before its part, so it meets the part itself.
      have hEarlier : user ∈ visit.earlier := by
        by_contra hNew
        exact hNotDuring ⟨hInner, hNew⟩
      rcases EmissionVisit.exists_of_used hUser with ⟨userVisit⟩
      apply userVisit.precedes_of_mem_inner hNe.symm
      · have hNext : part ∈ registry.usedDependencies user := mem_filter.mpr ⟨hEdge, hPart⟩
        rcases registry.follows_emission.exists_task hNext userVisit.task with ⟨_, hAsking, hAsks⟩
        exact userVisit.expands.mem_opened_of_asks hAsking hAsks
      · intro hPartEarlier
        -- Neither of the two can be met before the other.
        have hNodup := registry.emissionTrace_opened_nodup
        have hForth : Precedes registry.emissionTrace.opened part user :=
          (Precedes.of_append (mem_singleton_self part) hEarlier).trans visit.opened_suffix.sublist
        have hBack : Precedes registry.emissionTrace.opened user part :=
          (Precedes.of_append (mem_singleton_self user)
            hPartEarlier).trans userVisit.opened_suffix.sublist
        exact Precedes.asymm hNodup hForth hBack
    · exact visit.precedes_of_not_mem_inner hUser hInner

end Registry

-----
-- Structs In The Emission Order
-----

namespace Struct

/- A field of one struct has the other struct itself as its type. -/
def Embeds (user part : Struct) : Prop :=
  ∃ field ∈ user.fields, field.2 = ⟨part.name⟩

/- A field type of one struct mentions the other. -/
def Mentions (user part : Struct) : Prop :=
  part.name ∈ user.fieldNames

theorem Embeds.mentions
    {user part : Struct} (h : user.Embeds part) (hWord : Text.IsWord part.name) :
    user.Mentions part := by
  rcases h with ⟨field, hField, hType⟩
  apply mem_flatMap.mpr
  refine ⟨field, hField, ?_⟩
  rw [hType, TypeName.referencedNames, Text.words_eq_singleton hWord]
  exact mem_singleton_self part.name

end Struct

namespace Registry

variable {registry : Registry} {struct part : Struct} {place : Nat}

def IsUsed (registry : Registry) (struct : Struct) : Prop :=
  struct ∈ registry.structs ∧ struct.used = true

/- The used structs in the order in which they are first met. -/
def meetingOrder (registry : Registry) : List Struct :=
  registry.emissionTrace.opened.reverse.filterMap fun index =>
    registry.structs[index]?

/-
  A struct leads back to another one when field types lead
  from the one to the other, through used structs that are
  met no earlier than the first.
-/
def LeadsBack (registry : Registry) (part user : Struct) : Prop :=
  Relation.ReflTransGen
    (fun struct next =>
      struct.Mentions next ∧ registry.IsUsed next ∧
        next ∉ registry.meetingOrder.takeWhile (· ≠ part))
    part user

theorem exists_index_of_isUsed (h : registry.IsUsed struct) :
    ∃ index, registry.structs[index]? = some struct ∧ registry.isUsedAt index = true := by
  rcases mem_iff_getElem?.mp h.1 with ⟨index, hAt⟩
  exact ⟨index, hAt, isUsedAt_iff.mpr ⟨struct, hAt, h.2⟩⟩

theorem index_unique
    (hNames : registry.NamesDistinct) {index other : Nat}
    (hIndex : registry.structs[index]? = some struct)
    (hOther : registry.structs[other]? = some struct) :
    index = other := by
  have hFound := index?_of_namesDistinct hNames hIndex
  rw [index?_of_namesDistinct hNames hOther] at hFound
  exact (Option.some.inj hFound).symm

theorem mem_usedDependencies_iff
    (hNames : registry.NamesDistinct) {index other : Nat}
    (hIndex : registry.structs[index]? = some struct) :
    other ∈ registry.usedDependencies index ↔
      ∃ next, registry.structs[other]? = some next ∧
        struct.Mentions next ∧ registry.IsUsed next := by
  unfold usedDependencies dependencies
  rw [hIndex, mem_filter, mem_filterMap]
  constructor
  · rintro ⟨⟨name, hName, hFound⟩, hUsed⟩
    rcases index?_eq_some hFound with ⟨next, hNext, rfl⟩
    rcases isUsedAt_iff.mp hUsed with ⟨_, hSame, hSameUsed⟩
    rw [hNext] at hSame
    cases hSame
    exact ⟨next, hNext, hName, mem_of_getElem? hNext, hSameUsed⟩
  · rintro ⟨next, hNext, hMentions, hUsed⟩
    refine ⟨⟨next.name, hMentions, ?_⟩, ?_⟩
    · exact index?_of_namesDistinct hNames hNext
    · exact isUsedAt_iff.mpr ⟨next, hNext, hUsed.2⟩

theorem takeWhile_congr
    {α : Type} {p q : α → Bool} {elements : List α}
    (h : ∀ element ∈ elements, p element = q element) :
    elements.takeWhile p = elements.takeWhile q := by
  induction elements with
  | nil => rfl
  | cons element _ ih =>
    have hRest := ih fun other hOther => h other (mem_cons_of_mem _ hOther)
    rw [takeWhile_cons, takeWhile_cons, hRest, h element mem_cons_self]

/- Structs are met in the order of their places. -/
theorem mem_takeWhile_meetingOrder_iff
    (hNames : registry.NamesDistinct) {index : Nat}
    (hIndex : registry.structs[index]? = some struct)
    (hPlace : registry.structs[place]? = some part) :
    struct ∈ registry.meetingOrder.takeWhile (· ≠ part) ↔ index ∈ registry.metBefore place := by
  have hSame :
      ∀ met ∈ registry.emissionTrace.opened.reverse,
        (registry.structs[met]?.all fun other => other ≠ part) = (met != place) := by
    intro met hMet
    have hUsed := mem_emissionTrace_opened_iff.mp (mem_reverse.mp hMet)
    rcases isUsedAt_iff.mp hUsed with ⟨other, hOther, _⟩
    rw [hOther]
    by_cases hEq : met = place
    · subst hEq
      rw [hPlace] at hOther
      cases hOther
      simp
    · have hNe : other ≠ part := by
        rintro rfl
        exact hEq (index_unique hNames hOther hPlace)
      simp [hNe, hEq]
  unfold meetingOrder metBefore
  rw [takeWhile_filterMap, takeWhile_congr hSame, mem_filterMap]
  constructor
  · rintro ⟨_, hMet, hAt⟩
    rwa [index_unique hNames hIndex hAt]
  · intro hMet
    exact ⟨index, hMet, hIndex⟩

theorem LeadsBack.exists_path
    (hNames : registry.NamesDistinct) (hPart : registry.structs[place]? = some part)
    (h : registry.LeadsBack part struct) :
    ∃ index, registry.structs[index]? = some struct ∧
      Expansion.PathAvoiding registry.usedDependencies (registry.metBefore place) place index := by
  induction h with
  | refl => exact ⟨place, hPart, .refl⟩
  | @tail _ next _ hStep ih =>
    rcases ih with ⟨_, hLast, hPath⟩
    rcases hStep with ⟨hMentions, hNext, _⟩
    rcases exists_index_of_isUsed hNext with ⟨other, hOther, _⟩
    refine ⟨other, hOther, hPath.tail ⟨?_, ?_⟩⟩
    · exact (mem_usedDependencies_iff hNames hLast).mpr ⟨next, hOther, hMentions, hNext⟩
    · rwa [← mem_takeWhile_meetingOrder_iff hNames hOther hPart]

theorem exists_leadsBack
    (hNames : registry.NamesDistinct) {index : Nat} (hPart : registry.structs[place]? = some part)
    (h : Expansion.PathAvoiding registry.usedDependencies (registry.metBefore place) place index) :
    ∃ struct, registry.structs[index]? = some struct ∧ registry.LeadsBack part struct := by
  induction h with
  | refl => exact ⟨part, hPart, .refl⟩
  | @tail _ _ _ hEdge ih =>
    rcases ih with ⟨_, hLast, hLeads⟩
    rcases (mem_usedDependencies_iff hNames hLast).mp hEdge.1 with ⟨other, hOther, hMentions, hUsed⟩
    refine ⟨other, hOther, hLeads.tail ⟨hMentions, hUsed, ?_⟩⟩
    rw [mem_takeWhile_meetingOrder_iff hNames hOther hPart]
    exact hEdge.2

/- Leading back is a chain of dependencies around earlier structs. -/
theorem leadsBack_iff
    (hNames : registry.NamesDistinct) {index : Nat} {user : Struct}
    (hPart : registry.structs[place]? = some part) (hUser : registry.structs[index]? = some user) :
    registry.LeadsBack part user ↔
      Expansion.PathAvoiding registry.usedDependencies (registry.metBefore place) place index := by
  constructor
  · intro hLeads
    rcases hLeads.exists_path hNames hPart with ⟨other, hOther, hPath⟩
    rwa [index_unique hNames hUser hOther]
  · intro hPath
    rcases exists_leadsBack hNames hPart hPath with ⟨_, hOther, hLeads⟩
    rw [hUser] at hOther
    cases hOther
    exact hLeads

theorem emissionOrder_nodup (hNames : registry.NamesDistinct) :
    registry.emissionOrder.Nodup := by
  apply registry.emissionIndices_nodup.filterMap
  intro index other struct hIndex hOther
  exact index_unique hNames hIndex hOther

/- The emitted structs are the used ones. -/
theorem mem_emissionOrder_iff {struct : Struct} :
    struct ∈ registry.emissionOrder ↔ registry.IsUsed struct := by
  unfold emissionOrder
  rw [mem_filterMap]
  constructor
  · intro h
    rcases h with ⟨index, hIndex, hAt⟩
    rcases isUsedAt_iff.mp (mem_emissionIndices_iff.mp hIndex) with ⟨_, hSame, hUsed⟩
    rw [hAt] at hSame
    cases hSame
    exact ⟨mem_of_getElem? hAt, hUsed⟩
  · intro h
    rcases exists_index_of_isUsed h with ⟨index, hAt, hUsed⟩
    exact ⟨index, mem_emissionIndices_iff.mpr hUsed, hAt⟩

theorem emissionOrder_names_nodup (hNames : registry.NamesDistinct) :
    (registry.emissionOrder.map Struct.name).Nodup := by
  refine (emissionOrder_nodup hNames).map_on ?_
  intro struct hStruct other hOther hEq
  exact
    eq_of_name_eq hNames (mem_emissionOrder_iff.mp hStruct).1
      (mem_emissionOrder_iff.mp hOther).1 hEq

theorem precedes_emissionOrder
    {first second : Nat} {next : Struct} (hFirst : registry.structs[first]? = some struct)
    (hSecond : registry.structs[second]? = some next)
    (h : Precedes registry.emissionIndices first second) :
    Precedes registry.emissionOrder struct next := by
  have hMapped := h.filterMap fun index => registry.structs[index]?
  simp only [filterMap_cons, hFirst, hSecond, filterMap_nil] at hMapped
  exact hMapped

/- Structs are emitted in the order of their places. -/
theorem precedes_emissionOrder_iff
    (hNames : registry.NamesDistinct) {first second : Nat} {next : Struct}
    (hFirst : registry.structs[first]? = some struct)
    (hSecond : registry.structs[second]? = some next) (hFirstUsed : registry.isUsedAt first = true)
    (hSecondUsed : registry.isUsedAt second = true) (hNe : first ≠ second) :
    Precedes registry.emissionOrder struct next ↔
      Precedes registry.emissionIndices first second := by
  constructor
  · intro hPrecedes
    rcases Precedes.total (mem_emissionIndices_iff.mpr hFirstUsed)
        (mem_emissionIndices_iff.mpr hSecondUsed) hNe with
      hForth | hBack
    · exact hForth
    · have hOther := precedes_emissionOrder hSecond hFirst hBack
      exact absurd hOther (hPrecedes.asymm (emissionOrder_nodup hNames))
  · exact precedes_emissionOrder hFirst hSecond

/-
  A struct that embeds another one is emitted behind it
  exactly if the embedded one does not lead back to it.
-/
theorem embedded_precedes_iff
    (hReachable : registry.Reachable) (hNames : registry.NamesDistinct) {user part : Struct}
    (hUser : registry.IsUsed user) (hPart : registry.IsUsed part) (hEmbeds : user.Embeds part)
    (hNe : user ≠ part) :
    Precedes registry.emissionOrder part user ↔ ¬ registry.LeadsBack part user := by
  rcases exists_index_of_isUsed hUser with ⟨index, hIndex, hIndexUsed⟩
  rcases exists_index_of_isUsed hPart with ⟨place, hPlace, hPlaceUsed⟩
  have hIndexNe : index ≠ place := by
    rintro rfl
    rw [hIndex] at hPlace
    exact hNe (Option.some.inj hPlace)
  have hMentions : user.Mentions part :=
    hEmbeds.mentions (isWord_name_of_used hReachable hPart.1 hPart.2)
  have hEdge : place ∈ registry.dependencies index := by
    have hUsedEdge := (mem_usedDependencies_iff hNames hIndex).mpr ⟨part, hPlace, hMentions, hPart⟩
    exact (List.mem_filter.mp hUsedEdge).1
  rw [precedes_emissionOrder_iff hNames hPlace hIndex hPlaceUsed hIndexUsed hIndexNe.symm,
    leadsBack_iff hNames hPlace hIndex]
  exact precedes_index_iff hIndexUsed hPlaceUsed hIndexNe hEdge

-----
-- A Pointer That Turns The Order Around
-----

/- No used struct embeds itself, directly or through others. -/
def EmbeddingAcyclic (registry : Registry) : Prop :=
  ∀ struct,
    ¬ Relation.TransGen
      (fun user part =>
        registry.IsUsed user ∧ registry.IsUsed part ∧ user.Embeds part)
      struct struct

/- A wheel points to its car and is declared first. -/
def wheel : Struct :=
  ⟨"Wheel", [("car", ⟨"Pointer<Car>"⟩)], .declared, true⟩

/- A car embeds its wheel. -/
def car : Struct :=
  ⟨"Car", [("wheel", ⟨"Wheel"⟩)], .declared, true⟩

def carRegistry : Registry :=
  ⟨[wheel, car]⟩

theorem carRegistry_reachable :
    carRegistry.Reachable := by
  have hWheel : empty.declare wheel.name wheel.fields = .ok ⟨[{ wheel with used := false }]⟩ := rfl
  have hCar :
      declare ⟨[{ wheel with used := false }]⟩ car.name car.fields =
        .ok ⟨[{ wheel with used := false }, { car with used := false }]⟩ :=
    rfl
  have hUse :
      carRegistry =
        markUsed ⟨[{ wheel with used := false }, { car with used := false }]⟩ ⟨"Car"⟩ := by
    decide +kernel
  rw [hUse]
  exact .markUsed _ (.declare (.declare .empty hWheel) hCar)

theorem carRegistry_isUsed_wheel :
    carRegistry.IsUsed wheel :=
  ⟨by simp [carRegistry], rfl⟩

theorem carRegistry_isUsed_car :
    carRegistry.IsUsed car :=
  ⟨by simp [carRegistry], rfl⟩

theorem car_embeds_wheel :
    car.Embeds wheel :=
  ⟨("wheel", ⟨"Wheel"⟩), by simp [car], rfl⟩

/- Embedding leads from the car to the wheel and no further. -/
theorem carRegistry_embeddingAcyclic :
    carRegistry.EmbeddingAcyclic := by
  have hEdge :
      ∀ user part,
        carRegistry.IsUsed user ∧ carRegistry.IsUsed part ∧ user.Embeds part →
          user = car ∧ part = wheel := by
    rintro user part ⟨hUser, hPart, field, hField, hType⟩
    have hUserCases : user = wheel ∨ user = car := by simpa [carRegistry] using hUser.1
    have hPartCases : part = wheel ∨ part = car := by simpa [carRegistry] using hPart.1
    rcases hUserCases with rfl | rfl <;> rcases hPartCases with rfl | rfl <;> simp_all [wheel, car]
  intro struct hCycle
  rcases Relation.TransGen.head'_iff.mp hCycle with ⟨_, hFirst, _⟩
  rcases Relation.TransGen.tail'_iff.mp hCycle with ⟨_, _, hLast⟩
  have hCar := (hEdge _ _ hFirst).1
  have hWheel := (hEdge _ _ hLast).2
  rw [hCar] at hWheel
  exact absurd hWheel (by decide)

/- The wheel leads back to the car through its pointer. -/
theorem wheel_leadsBack_car :
    carRegistry.LeadsBack wheel car := by
  by_contra hNot
  have hPrecedes :=
    (embedded_precedes_iff carRegistry_reachable (by decide)
      carRegistry_isUsed_car carRegistry_isUsed_wheel
      car_embeds_wheel (by decide)).mpr hNot
  revert hPrecedes
  decide +kernel

/-
  No struct embeds itself here, and still the car is emitted
  before the wheel that it embeds.
-/
theorem embedded_not_precedes :
    carRegistry.Reachable ∧ carRegistry.NamesDistinct ∧ carRegistry.EmbeddingAcyclic ∧
      carRegistry.IsUsed car ∧ carRegistry.IsUsed wheel ∧
      car.Embeds wheel ∧
      ¬ Precedes carRegistry.emissionOrder wheel car := by
  refine
    ⟨carRegistry_reachable, by decide, carRegistry_embeddingAcyclic, carRegistry_isUsed_car,
      carRegistry_isUsed_wheel, car_embeds_wheel, ?_⟩
  decide +kernel

end Registry

end ScriptLowering
