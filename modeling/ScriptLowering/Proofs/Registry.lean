import Mathlib.Data.List.Nodup
import ScriptLowering.Proofs.DepthFirst
import ScriptLowering.Proofs.Words
import ScriptLowering.Types.Registry

/-
  Lookup and use marks in a registry. A name stands for the
  last struct that has it. Marking a type opens the structs
  that its words lead to, so what is marked is told by the
  theory of depth-first expansion.

  Key theorems include:
    * `Registry.expands_use`
    * `Registry.isWord_name_of_used`
-/

namespace ScriptLowering

open List

-----
-- Lookup
-----

variable {structs : List Struct}

theorem lastIndex?_eq_some {name : Text} {index : Nat} (h : lastIndex? name structs = some index) :
    ∃ struct, structs[index]? = some struct ∧ struct.name = name := by
  induction structs generalizing index with
  | nil => cases h
  | cons struct _ ih =>
    unfold lastIndex? at h
    split at h
    · next later hLater =>
      cases h
      exact ih hLater
    · split at h
      · next hName =>
        cases h
        exact ⟨struct, rfl, hName⟩
      · cases h

theorem lastIndex?_eq_none {name : Text} :
    lastIndex? name structs = none ↔ ∀ struct ∈ structs, struct.name ≠ name := by
  induction structs with
  | nil => simp [lastIndex?]
  | cons struct rest ih =>
    cases hRest : lastIndex? name rest with
    | none =>
      have hNone := ih.mp hRest
      by_cases hName : struct.name = name
      · simp [lastIndex?, hRest, hName]
      · simpa [lastIndex?, hRest, hName] using hNone
    | some =>
      rcases lastIndex?_eq_some hRest with ⟨found, hFound, hName⟩
      have hMem := mem_of_getElem? hFound
      simp only [lastIndex?, hRest, mem_cons, reduceCtorEq, false_iff]
      intro hAll
      exact hAll found (.inr hMem) hName

/- Lookup depends on names only. -/
theorem lastIndex?_congr
    (name : Text) {others : List Struct} (h : structs.map Struct.name = others.map Struct.name) :
    lastIndex? name structs = lastIndex? name others := by
  induction structs generalizing others with
  | nil =>
    cases others with
    | nil => rfl
    | cons => simp at h
  | cons _ _ ih =>
    cases others with
    | nil => simp at h
    | cons =>
      simp only [map_cons, cons.injEq] at h
      simp [lastIndex?, ih h.2, h.1]

theorem lastIndex?_of_nodup
    (hNodup : (structs.map Struct.name).Nodup) {index : Nat} {struct : Struct}
    (hAt : structs[index]? = some struct) :
    lastIndex? struct.name structs = some index := by
  cases hFound : lastIndex? struct.name structs with
  | none =>
    have hMem := mem_of_getElem? hAt
    exact absurd rfl (lastIndex?_eq_none.mp hFound struct hMem)
  | some found =>
    rcases lastIndex?_eq_some hFound with ⟨_, hOther, hName⟩
    -- Both places hold the same name, so they are one place.
    have hPlaces : (structs.map Struct.name)[found]? = (structs.map Struct.name)[index]? := by
      simp [hOther, hAt, hName]
    have hLt : found < (structs.map Struct.name).length := by
      simpa using (List.getElem?_eq_some_iff.mp hOther).1
    rw [(getElem?_inj hLt hNodup).mp hPlaces]

namespace Registry

variable {registry : Registry}

/- No two structs of a registry have one name. -/
def NamesDistinct (registry : Registry) : Prop :=
  (registry.structs.map Struct.name).Nodup

instance (registry : Registry) :
    Decidable registry.NamesDistinct :=
  inferInstanceAs (Decidable (List.Nodup _))

variable {index : Nat} {name : Text} {struct : Struct}

theorem index?_eq_some (h : registry.index? name = some index) :
    ∃ struct, registry.structs[index]? = some struct ∧ struct.name = name :=
  lastIndex?_eq_some h

theorem index?_lt (h : registry.index? name = some index) :
    index < registry.structs.length := by
  rcases index?_eq_some h with ⟨_, hAt, _⟩
  exact (List.getElem?_eq_some_iff.mp hAt).1

theorem contains_iff {name : Text} :
    registry.contains name = true ↔ ∃ struct ∈ registry.structs, struct.name = name := by
  unfold contains index?
  cases hFound : lastIndex? name registry.structs with
  | none =>
    have hNone := lastIndex?_eq_none.mp hFound
    simpa using hNone
  | some =>
    rcases lastIndex?_eq_some hFound with ⟨struct, hAt, hName⟩
    simp only [Option.isSome_some, true_iff]
    exact ⟨struct, mem_of_getElem? hAt, hName⟩

theorem index?_of_namesDistinct
    (hNames : registry.NamesDistinct) (hAt : registry.structs[index]? = some struct) :
    registry.index? struct.name = some index :=
  lastIndex?_of_nodup hNames hAt

/- With distinct names, structs of one name are one struct. -/
theorem eq_of_name_eq
    (hNames : registry.NamesDistinct) {other : Struct} (hStruct : struct ∈ registry.structs)
    (hOther : other ∈ registry.structs) (hEq : struct.name = other.name) :
    struct = other :=
  inj_on_of_nodup_map hNames hStruct hOther hEq

-----
-- Use
-----

theorem mem_usedIndices_iff {index : Nat} :
    index ∈ registry.usedIndices ↔
      ∃ struct, registry.structs[index]? = some struct ∧ struct.used = true := by
  unfold usedIndices
  rw [mem_filter, mem_range, Option.any_eq_true]
  constructor
  · exact fun h => h.2
  · rintro ⟨struct, hAt, hUsed⟩
    exact ⟨(List.getElem?_eq_some_iff.mp hAt).1, struct, hAt, hUsed⟩

/- The places of the structs that the fields of a struct name. -/
def fieldIndices (registry : Registry) (index : Nat) : List Nat :=
  ((registry.structs[index]?.map Struct.fieldNames).getD []).filterMap registry.index?

theorem follows_use (registry : Registry) :
    registry.useExpansion.Follows registry.fieldIndices := by
  intro index name
  rfl

theorem mem_fieldIndices_iff {other : Nat} :
    other ∈ registry.fieldIndices index ↔
      ∃ struct, registry.structs[index]? = some struct ∧
        ∃ name ∈ struct.fieldNames, registry.index? name = some other := by
  unfold fieldIndices
  rw [mem_filterMap]
  cases hAt : registry.structs[index]? with
  | none | some => simp

/- Marking is a complete expansion of the names that it starts from. -/
theorem expands_use (registry : Registry) (names : List Text) :
    registry.useExpansion.Expands registry.usedIndices names
      (registry.useExpansion.run registry.structs.length registry.usedIndices names) := by
  apply Expansion.expands_run registry.structs.length
  · intro name index hAsks
    exact index?_lt hAsks
  · exact Expansion.closedNodes_card_le _ _

theorem markUsed_getElem? (registry : Registry) (type : TypeName) (index : Nat) :
    (registry.markUsed type).structs[index]? =
      registry.structs[index]?.map fun struct =>
        { struct with
          used :=
            (registry.usedWith type.referencedNames).contains index } := by
  simp [markUsed, getElem?_mapIdx]

@[simp] theorem markUsed_names (registry : Registry) (type : TypeName) :
    (registry.markUsed type).structs.map Struct.name = registry.structs.map Struct.name := by
  apply ext_getElem?
  intro index
  rw [getElem?_map, markUsed_getElem?, getElem?_map, Option.map_map]
  rfl

@[simp] theorem markUsed_index? (registry : Registry) (type : TypeName) (name : Text) :
    (registry.markUsed type).index? name = registry.index? name :=
  lastIndex?_congr name (markUsed_names registry type)

/- The structs that are used after a type was marked. -/
theorem mem_usedIndices_markUsed_iff {type : TypeName} :
    index ∈ (registry.markUsed type).usedIndices ↔
      index ∈ registry.usedWith type.referencedNames ∧ index < registry.structs.length := by
  rw [mem_usedIndices_iff, markUsed_getElem?]
  constructor
  · rintro ⟨_, hAt, hUsed⟩
    rcases Option.map_eq_some_iff.mp hAt with ⟨_, hOld, rfl⟩
    refine ⟨?_, (List.getElem?_eq_some_iff.mp hOld).1⟩
    simpa using hUsed
  · rintro ⟨hMem, hLt⟩
    rw [getElem?_eq_getElem hLt]
    exact ⟨_, rfl, by simpa using hMem⟩

theorem usedIndices_subset_usedWith (registry : Registry) (names : List Text) :
    registry.usedIndices ⊆ registry.usedWith names :=
  (registry.expands_use names).opened_suffix.subset

-----
-- Layouts
-----

/- What a struct is apart from its use. -/
def layouts (registry : Registry) : List Struct :=
  registry.structs.map fun struct => { struct with used := false }

@[simp] theorem layouts_push (registry : Registry) (struct : Struct) :
    (registry.push struct).layouts = registry.layouts ++ [{ struct with used := false }] := by
  simp [layouts, push]

/- Marking changes no layout. -/
@[simp] theorem layouts_markUsed (registry : Registry) (type : TypeName) :
    (registry.markUsed type).layouts = registry.layouts := by
  apply ext_getElem?
  intro index
  unfold layouts
  rw [getElem?_map, markUsed_getElem?, getElem?_map, Option.map_map]
  rfl

-----
-- Reachable Registries
-----

/-
  The registries that come about from the empty one. A
  declaration under a name that is taken changes nothing.
-/
inductive Reachable : Registry → Prop
  | empty :
      Reachable Registry.empty
  | declare
      {registry declared : Registry} {name : Text} {fields : List (Text × TypeName)}
      (hRegistry : Reachable registry) (hDeclare : registry.declare name fields = .ok declared) :
      Reachable declared
  | intern
      {registry : Registry} (fields : List (Text × TypeName)) (hRegistry : Reachable registry) :
      Reachable (registry.intern fields).2
  | markUsed {registry : Registry} (type : TypeName) (hRegistry : Reachable registry) :
      Reachable (registry.markUsed type)

/- A registry after one declaration has one more struct. -/
theorem declare_eq_ok
    {fields : List (Text × TypeName)} {declared : Registry}
    (h : registry.declare name fields = .ok declared) :
    registry.contains name = false ∧ declared = registry.push ⟨name, fields, .declared, false⟩ := by
  unfold declare at h
  split at h
  · cases h
  · next hFree =>
    cases h
    exact ⟨by simpa using hFree, rfl⟩

theorem intern_cases (registry : Registry) (fields : List (Text × TypeName)) :
    (∃ struct, registry.ofShape? fields = some struct ∧
        registry.intern fields = (⟨struct.name⟩, registry)) ∨
      registry.ofShape? fields = none ∧
        registry.intern fields =
          (⟨registry.nextName⟩,
            registry.push ⟨registry.nextName, fields, .synthesized, false⟩) := by
  unfold intern
  cases hFound : registry.ofShape? fields with
  | none => exact .inr ⟨rfl, rfl⟩
  | some struct => exact .inl ⟨struct, rfl, rfl⟩

/- All that marking newly marks stands for a word of some type. -/
theorem exists_word_of_mem_usedWith
    {type : TypeName} (hMem : index ∈ registry.usedWith type.referencedNames)
    (hNew : index ∉ registry.usedIndices) :
    ∃ name, Text.IsWord name ∧ registry.index? name = some index := by
  rcases (registry.expands_use _).exists_visit hMem hNew with ⟨visit⟩
  refine ⟨visit.task, ?_, visit.asks⟩
  rcases visit.task_supplied with hGiven | ⟨owner, _, _, _, _, hField⟩
  · exact Text.isWord_of_mem_words hGiven
  · cases hAt : registry.structs[owner]? with
    | none => simp [useExpansion, hAt] at hField
    | some =>
      simp only [useExpansion, hAt, Option.map_some, Option.getD_some, Struct.fieldNames] at hField
      rcases mem_flatMap.mp hField with ⟨_, _, hWord⟩
      exact Text.isWord_of_mem_words hWord

/- Only structs whose name is one word are ever used. -/
theorem isWord_name_of_used
    (h : registry.Reachable) (hStruct : struct ∈ registry.structs) (hUsed : struct.used = true) :
    Text.IsWord struct.name := by
  induction h generalizing struct with
  | empty => cases hStruct
  | declare _ hDeclare ih =>
    rcases declare_eq_ok hDeclare with ⟨_, rfl⟩
    rcases mem_append.mp hStruct with hOld | hNew
    · exact ih hOld hUsed
    · rw [mem_singleton.mp hNew] at hUsed
      cases hUsed
  | @intern registry fields _ ih =>
    rcases intern_cases registry fields with ⟨_, _, hIntern⟩ | ⟨_, hIntern⟩
    · rw [hIntern] at hStruct
      exact ih hStruct hUsed
    · rw [hIntern] at hStruct
      rcases mem_append.mp hStruct with hOld | hNew
      · exact ih hOld hUsed
      · rw [mem_singleton.mp hNew] at hUsed
        cases hUsed
  | @markUsed registry type _ ih =>
    rcases mem_iff_getElem?.mp hStruct with ⟨index, hAt⟩
    have hIndex : index ∈ (registry.markUsed type).usedIndices :=
      mem_usedIndices_iff.mpr ⟨struct, hAt, hUsed⟩
    rw [markUsed_getElem?] at hAt
    rcases Option.map_eq_some_iff.mp hAt with ⟨old, hOld, rfl⟩
    by_cases hBefore : index ∈ registry.usedIndices
    · rcases mem_usedIndices_iff.mp hBefore with ⟨same, hSame, hSameUsed⟩
      rw [hOld] at hSame
      cases hSame
      have hWord : Text.IsWord old.name := ih (mem_of_getElem? hOld) hSameUsed
      exact hWord
    · rcases exists_word_of_mem_usedWith (mem_usedIndices_markUsed_iff.mp hIndex).1 hBefore with
        ⟨_, hWord, hName⟩
      rcases index?_eq_some hName with ⟨_, hSame, hEq⟩
      rw [hOld] at hSame
      cases hSame
      simpa [hEq] using hWord

end Registry

end ScriptLowering
