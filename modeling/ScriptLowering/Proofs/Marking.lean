import ScriptLowering.Proofs.MarkOrder

/-
  Marking one struct at a time. A type is marked by a loop
  over words to look at and types to take up. Each unused
  struct that is met is marked at once, and its field types
  wait to be taken up. The loop comes to an end in every
  registry, however the structs name each other, and what it
  marks is the least set that is closed under the names in
  fields.

  Key theorems include:
    * `Marking.ends_markUsed`
    * `Registry.markUsed_marks_what_is_led_to`
-/

namespace ScriptLowering

open List Registry

namespace Registry

variable {registry : Registry} {names : List Text} {index : Nat}

-----
-- The Least Set Of Used Structs
-----

theorem mem_usedWith_of_name
    {name : Text} (hName : name ∈ names) (hIndex : registry.index? name = some index) :
    index ∈ registry.usedWith names :=
  (registry.expands_use names).mem_opened_of_asks hName hIndex

theorem mem_usedWith_of_field
    {other : Nat} (hIndex : index ∈ registry.usedWith names) (hNew : index ∉ registry.usedIndices)
    (hOther : other ∈ registry.fieldIndices index) :
    other ∈ registry.usedWith names :=
  (registry.expands_use names).mem_opened_of_edge registry.follows_use hIndex hNew hOther

/-
  What is used with some names is in every set with the used
  structs and those of the names that has with an unused
  struct also those that its fields name.
-/
theorem usedWith_least
    {Within : Nat → Prop} (hUsed : ∀ index ∈ registry.usedIndices, Within index)
    (hNames : ∀ name ∈ names, ∀ index, registry.index? name = some index → Within index)
    (hFields :
      ∀ index, index ∉ registry.usedIndices → Within index →
        ∀ other ∈ registry.fieldIndices index, Within other)
    (hIndex : index ∈ registry.usedWith names) :
    Within index := by
  rcases ((registry.expands_use names).mem_opened_iff registry.follows_use index).mp hIndex with
    hOld | ⟨name, hName, first, hAsks, hFirst, hPath⟩
  · exact hUsed index hOld
  · -- A chain from the first struct meets unused structs only.
    have hBoth : index ∉ registry.usedIndices ∧ Within index := by
      clear hIndex
      induction hPath with
      | refl => exact ⟨hFirst, hNames name hName first hAsks⟩
      | tail _ hEdge ih => exact ⟨hEdge.2, hFields _ ih.1 ih.2 _ hEdge.1⟩
    exact hBoth.2

-----
-- Marking One Struct
-----

/- Mark the struct at a place. -/
def use (registry : Registry) (index : Nat) : Registry :=
  ⟨registry.structs.modify index fun struct =>
    { struct with used := true }⟩

/- The unused struct that a word stands for, and its place. -/
def unused? (registry : Registry) (word : Text) : Option (Nat × Struct) :=
  (registry.index? word).bind fun index =>
    (registry.structs[index]?).bind fun struct =>
      if struct.used then none else some (index, struct)

variable {word : Text} {other : Registry}

theorem unused?_eq_some {struct : Struct} (h : registry.unused? word = some (index, struct)) :
    registry.index? word = some index ∧ registry.structs[index]? = some struct ∧
      index ∉ registry.usedIndices := by
  rcases Option.bind_eq_some_iff.mp h with ⟨_, hPlace, hRest⟩
  rcases Option.bind_eq_some_iff.mp hRest with ⟨_, hFound, hNew⟩
  split at hNew
  · cases hNew
  · next hUnused =>
    cases hNew
    refine ⟨hPlace, hFound, ?_⟩
    intro hUsed
    rcases mem_usedIndices_iff.mp hUsed with ⟨_, hSame, hFlag⟩
    rw [hFound] at hSame
    cases hSame
    exact hUnused hFlag

theorem mem_usedIndices_of_unused?_eq_none
    (h : registry.unused? word = none) (hIndex : registry.index? word = some index) :
    index ∈ registry.usedIndices := by
  rcases index?_eq_some hIndex with ⟨struct, hAt, _⟩
  simp only [unused?, hIndex, hAt, Option.bind_some] at h
  split at h
  · next hUsed => exact mem_usedIndices_iff.mpr ⟨struct, hAt, hUsed⟩
  · cases h

@[simp] theorem layouts_use (registry : Registry) (index : Nat) :
    (registry.use index).layouts = registry.layouts := by
  apply ext_getElem?
  intro place
  simp only [layouts, use, getElem?_map, getElem?_modify]
  split
  · cases registry.structs[place]? <;> rfl
  · rw [id_map']

/- Which struct a name stands for is told by the layouts. -/
theorem index?_of_layouts (h : registry.layouts = other.layouts) (name : Text) :
    registry.index? name = other.index? name := by
  have hNames := congrArg (List.map Struct.name) h
  simp only [layouts, map_map] at hNames
  exact lastIndex?_congr name hNames

theorem fieldIndices_of_layouts (h : registry.layouts = other.layouts) :
    registry.fieldIndices = other.fieldIndices := by
  have hLookup := funext (index?_of_layouts h)
  have hFields :
      ∀ registry : Registry, ∀ index : Nat,
        registry.structs[index]?.map Struct.fieldNames =
          registry.layouts[index]?.map Struct.fieldNames := by
    intro registry index
    rw [layouts, getElem?_map, Option.map_map]
    rfl
  funext index
  unfold fieldIndices
  rw [hLookup, hFields registry, hFields other, h]

theorem mem_usedIndices_use_iff {place : Nat} (hLt : index < registry.structs.length) :
    place ∈ (registry.use index).usedIndices ↔ place = index ∨ place ∈ registry.usedIndices := by
  rw [mem_usedIndices_iff, mem_usedIndices_iff, use, getElem?_modify]
  by_cases hPlace : index = place
  · subst hPlace
    simp [getElem?_eq_getElem hLt]
  · simp [hPlace, Ne.symm hPlace]

-----
-- One Word Less
-----

/-
  What is used with some names is used with others as well,
  if marks and names lead there, and if so do the fields of
  structs that are marked there only.
-/
theorem usedWith_subset
    {others : List Text} (hLayouts : registry.layouts = other.layouts)
    (hUsed : registry.usedIndices ⊆ other.usedWith others)
    (hNames :
      ∀ name ∈ names, ∀ index, registry.index? name = some index → index ∈ other.usedWith others)
    (hFields :
      ∀ index ∈ other.usedIndices, index ∉ registry.usedIndices →
        registry.fieldIndices index ⊆ other.usedWith others) :
    registry.usedWith names ⊆ other.usedWith others := by
  intro index hIndex
  refine usedWith_least (fun _ h => hUsed h) hNames ?_ hIndex
  intro user hNew hUser part hPart
  by_cases hOther : user ∈ other.usedIndices
  · exact hFields user hOther hNew hPart
  · rw [fieldIndices_of_layouts hLayouts] at hPart
    exact mem_usedWith_of_field hUser hOther hPart

/- A word without an unused struct adds nothing. -/
theorem mem_usedWith_of_unused?_eq_none (h : registry.unused? word = none) :
    index ∈ registry.usedWith names ↔ index ∈ registry.usedWith (word :: names) := by
  have hOld := usedIndices_subset_usedWith registry
  constructor
  · apply usedWith_subset rfl (hOld (word :: names))
    · intro name hName other hOther
      exact mem_usedWith_of_name (mem_cons_of_mem _ hName) hOther
    · exact fun other hUsed hNew => absurd hUsed hNew
  · apply usedWith_subset rfl (hOld names)
    · intro name hName other hOther
      rcases mem_cons.mp hName with rfl | hName
      · exact hOld names (mem_usedIndices_of_unused?_eq_none h hOther)
      · exact mem_usedWith_of_name hName hOther
    · exact fun other hUsed hNew => absurd hUsed hNew

/- An unused struct is marked, and its field names take over. -/
theorem mem_usedWith_of_unused?_eq_some
    {struct : Struct} {place : Nat} (h : registry.unused? word = some (index, struct))
    {later : List Text} (hLater : ∀ name, name ∈ later ↔ name ∈ names ∨ name ∈ struct.fieldNames) :
    place ∈ (registry.use index).usedWith later ↔ place ∈ registry.usedWith (word :: names) := by
  rcases unused?_eq_some h with ⟨hIndex, hAt, hNew⟩
  have hLayouts := layouts_use registry index
  have hLookup := index?_of_layouts hLayouts
  have hUse :
      ∀ place, place ∈ (registry.use index).usedIndices ↔
        place = index ∨ place ∈ registry.usedIndices :=
    fun _ => mem_usedIndices_use_iff (index?_lt hIndex)
  have hStart : index ∈ registry.usedWith (word :: names) :=
    mem_usedWith_of_name mem_cons_self hIndex
  constructor
  · apply usedWith_subset hLayouts
    · intro other hOther
      rcases (hUse other).mp hOther with rfl | hOld
      · exact hStart
      · exact usedIndices_subset_usedWith registry _ hOld
    · intro name hName other hOther
      rw [hLookup] at hOther
      rcases (hLater name).mp hName with hOld | hField
      · exact mem_usedWith_of_name (mem_cons_of_mem _ hOld) hOther
      · exact mem_usedWith_of_field hStart hNew
          (mem_fieldIndices_iff.mpr ⟨struct, hAt, name, hField, hOther⟩)
    · intro other hOld hOutside
      exact absurd ((hUse other).mpr (.inr hOld)) hOutside
  · have hMarks := usedIndices_subset_usedWith (registry.use index) later
    apply usedWith_subset hLayouts.symm
    · intro other hOther
      exact hMarks ((hUse other).mpr (.inr hOther))
    · intro name hName other hOther
      rcases mem_cons.mp hName with rfl | hOld
      · rw [hIndex] at hOther
        cases hOther
        exact hMarks ((hUse index).mpr (.inl rfl))
      · rw [← hLookup] at hOther
        exact mem_usedWith_of_name ((hLater name).mpr (.inl hOld)) hOther
    · -- Only the struct itself is marked later and not before.
      intro other hMarked hOutside part hPart
      rcases (hUse other).mp hMarked with rfl | hOld
      · rcases mem_fieldIndices_iff.mp hPart with ⟨_, hSame, name, hName, hFound⟩
        rw [hAt] at hSame
        cases hSame
        rw [← hLookup] at hFound
        exact mem_usedWith_of_name ((hLater name).mpr (.inr hName)) hFound
      · exact absurd hOld hOutside

end Registry

-----
-- The Loop
-----

/-
  Where marking stands: the words of the type at hand that
  are still to be looked at, and the types that wait, the
  next one first.
-/
structure Marking where
  registry : Registry
  words : List Text
  pending : List TypeName

namespace Marking

def start (registry : Registry) (type : TypeName) : Marking :=
  ⟨registry, [], [type]⟩

/-
  Look at one word, or take up the next type. The types of
  the fields of a newly marked struct go in front of those
  that wait, the last one first.
-/
def step : Marking → Option Marking
  | ⟨_, [], []⟩ => none
  | ⟨registry, [], type :: pending⟩ =>
      some ⟨registry, type.referencedNames, pending⟩
  | ⟨registry, word :: words, pending⟩ =>
      match registry.unused? word with
      | none => some ⟨registry, words, pending⟩
      | some (index, struct) =>
          some ⟨registry.use index, words, (struct.fields.map Prod.snd).reverse ++ pending⟩

/- The loop comes to an end, and it leaves a registry. -/
inductive Ends : Marking → Registry → Prop
  | done {marking : Marking} (hDone : marking.step = none) :
      Ends marking marking.registry
  | next
      {marking later : Marking} {last : Registry} (hStep : marking.step = some later)
      (hLater : Ends later last) :
      Ends marking last

/- All words that are still to be looked at. -/
def agenda (marking : Marking) : List Text :=
  marking.words ++ marking.pending.flatMap TypeName.referencedNames

/- How many structs are not marked yet. -/
def unusedCount (marking : Marking) : Nat :=
  (Expansion.closedNodes marking.registry.structs.length marking.registry.usedIndices).card

/- What the loop leaves when it comes to its end. -/
structure Leaves (marking : Marking) (last : Registry) : Prop where
  layouts : last.layouts = marking.registry.layouts
  used :
    ∀ index, index ∈ last.usedIndices ↔ index ∈ marking.registry.usedWith marking.agenda

variable {marking : Marking}

/- One word is looked at, or one type is taken up. -/
theorem step_cases {later : Marking} (h : marking.step = some later) :
    ∃ registry words pending,
      (∃ type : TypeName,
        marking = ⟨registry, [], type :: pending⟩ ∧
          later = ⟨registry, type.referencedNames, pending⟩) ∨
      (∃ word,
        marking = ⟨registry, word :: words, pending⟩ ∧ registry.unused? word = none ∧
          later = ⟨registry, words, pending⟩) ∨
      ∃ word index struct,
        marking = ⟨registry, word :: words, pending⟩ ∧
          registry.unused? word = some (index, struct) ∧
          later = ⟨registry.use index, words, (struct.fields.map Prod.snd).reverse ++ pending⟩ := by
  rcases marking with ⟨registry, _ | ⟨word, words⟩, pending⟩
  · rcases pending with _ | ⟨type, pending⟩
    · cases h
    · cases h
      exact ⟨registry, [], pending, .inl ⟨type, rfl, rfl⟩⟩
  · refine ⟨registry, words, pending, .inr ?_⟩
    cases hWord : registry.unused? word with
    | none =>
      simp only [step, hWord] at h
      cases h
      exact .inl ⟨word, rfl, hWord, rfl⟩
    | some found =>
      simp only [step, hWord] at h
      cases h
      exact .inr ⟨word, found.1, found.2, rfl, hWord, rfl⟩

/- At the end there is neither a word nor a type left. -/
theorem agenda_of_step_eq_none (h : marking.step = none) :
    marking.agenda = [] := by
  rcases marking with ⟨registry, _ | ⟨word, _⟩, pending⟩
  · rcases pending with _ | ⟨_, _⟩
    · rfl
    · cases h
  · cases hWord : registry.unused? word with
    | none | some => simp [step, hWord] at h

/- Nothing is added where nothing is left to look at. -/
theorem leaves_of_agenda_eq_nil (h : marking.agenda = []) :
    marking.Leaves marking.registry := by
  refine ⟨rfl, fun index => ?_⟩
  rw [h]
  constructor
  · exact fun hOld => usedIndices_subset_usedWith _ _ hOld
  · apply usedWith_least
    · exact fun _ hOld => hOld
    · exact fun name hName => absurd hName not_mem_nil
    · exact fun other hNew hOther => absurd hOther hNew

/- Each step leaves the rest to the steps that follow. -/
theorem Leaves.of_step
    {later : Marking} {last : Registry} (hStep : marking.step = some later)
    (h : later.Leaves last) :
    marking.Leaves last := by
  rcases step_cases hStep with
    ⟨registry, words, _, ⟨_, rfl, rfl⟩ | ⟨word, rfl, hNone, rfl⟩ |
      ⟨word, index, struct, rfl, hSome, rfl⟩⟩
  · exact ⟨h.layouts, h.used⟩
  · refine ⟨h.layouts, fun index => ?_⟩
    rw [h.used]
    exact mem_usedWith_of_unused?_eq_none hNone
  · refine ⟨h.layouts.trans (registry.layouts_use index), ?_⟩
    intro place
    rw [h.used]
    apply mem_usedWith_of_unused?_eq_some hSome
    intro name
    show _ ↔ name ∈ words ++ _ ∨ _
    simp only [agenda, Struct.fieldNames, mem_append, mem_flatMap, mem_reverse, mem_map]
    grind

/- Each step marks a struct or leaves less to look at. -/
theorem lex_of_step {later : Marking} (hStep : marking.step = some later) :
    later.unusedCount < marking.unusedCount ∨
      later.unusedCount = marking.unusedCount ∧
        later.agenda.length + later.pending.length <
          marking.agenda.length + marking.pending.length := by
  rcases step_cases hStep with
    ⟨registry, _, _, ⟨_, rfl, rfl⟩ | ⟨word, rfl, _, rfl⟩ | ⟨word, index, _, rfl, hSome, rfl⟩⟩
  · exact .inr ⟨rfl, by simp [agenda]⟩
  · exact .inr ⟨rfl, by simp [agenda]⟩
  · left
    rcases unused?_eq_some hSome with ⟨hIndex, _, hNew⟩
    have hLt := index?_lt hIndex
    have hSize : (registry.use index).structs.length = registry.structs.length := by simp [use]
    have hSame :
        Expansion.closedNodes registry.structs.length (registry.use index).usedIndices =
          Expansion.closedNodes registry.structs.length (index :: registry.usedIndices) := by
      ext place
      simp [Expansion.closedNodes, mem_usedIndices_use_iff hLt]
    unfold unusedCount
    rw [hSize, hSame]
    exact Expansion.closedNodes_cons_card_lt hLt hNew

/- The loop ends from everywhere, by the measure of its steps. -/
theorem exists_ends (marking : Marking) :
    ∃ last, marking.Ends last ∧ marking.Leaves last := by
  cases hStep : marking.step with
  | none => exact ⟨_, .done hStep, leaves_of_agenda_eq_nil (agenda_of_step_eq_none hStep)⟩
  | some later =>
    have hMeasure := lex_of_step hStep
    rcases exists_ends later with ⟨last, hEnds, hLeaves⟩
    exact ⟨last, .next hStep hEnds, hLeaves.of_step hStep⟩
termination_by
  (marking.unusedCount, marking.agenda.length + marking.pending.length)
decreasing_by
  rcases hMeasure with hLess | ⟨hSame, hLess⟩
  · exact Prod.Lex.left _ _ hLess
  · rw [hSame]
    exact Prod.Lex.right _ hLess

/- In every registry the loop marks a type. -/
theorem ends_markUsed (registry : Registry) (type : TypeName) :
    (start registry type).Ends (registry.markUsed type) := by
  rcases exists_ends (start registry type) with ⟨last, hEnds, hLeaves⟩
  have hAgenda : (start registry type).agenda = type.referencedNames := by simp [start, agenda]
  have hSize : last.structs.length = registry.structs.length := by
    simpa [layouts, start] using congrArg length hLeaves.layouts
  have hLast : last = registry.markUsed type := by
    apply eq_of_layouts_eq
    · exact hLeaves.layouts.trans (registry.layouts_markUsed type).symm
    · intro index
      have hUsed := hLeaves.used index
      rw [hAgenda] at hUsed
      rw [mem_usedIndices_markUsed_iff]
      constructor
      · intro hMem
        exact ⟨hUsed.mp hMem, hSize ▸ usedIndices_lt hMem⟩
      · exact fun hMem => hUsed.mpr hMem.1
  rw [← hLast]
  exact hEnds

end Marking

-----
-- Marked Types
-----

namespace Registry

/- The place that is found for the shape of a field list. -/
def shapeIndex? (registry : Registry) (fields : List (Text × TypeName)) : Option Nat :=
  registry.structs.findIdx? fun struct =>
    shapeKey struct.fields == shapeKey fields

theorem shapeIndex?_of_layouts
    {registry other : Registry} (h : registry.layouts = other.layouts)
    (fields : List (Text × TypeName)) :
    registry.shapeIndex? fields = other.shapeIndex? fields := by
  have hLayouts :
      ∀ registry : Registry,
        registry.shapeIndex? fields =
          registry.layouts.findIdx? fun struct =>
            shapeKey struct.fields == shapeKey fields := by
    intro registry
    rw [layouts, findIdx?_map]
    rfl
  rw [hLayouts registry, hLayouts other, h]

/-
  In a registry whose used structs name used structs only,
  also where structs name each other in a circle, the loop
  ends. Then the structs that were used or that the words of
  the type lead to are used, and no others. Nothing else is
  changed: neither the structs and their order nor what is
  found for a name or a shape. The used structs again name
  used structs only.
-/
theorem markUsed_marks_what_is_led_to
    {registry : Registry} (hClosed : registry.IsClosed) (type : TypeName) :
    (Marking.start registry type).Ends (registry.markUsed type) ∧
      (∀ index,
        index ∈ (registry.markUsed type).usedIndices ↔
          index ∈ registry.usedIndices ∨ registry.Leads type.referencedNames index) ∧
      (registry.markUsed type).layouts = registry.layouts ∧
      (∀ name, (registry.markUsed type).index? name = registry.index? name) ∧
      (∀ fields, (registry.markUsed type).shapeIndex? fields = registry.shapeIndex? fields) ∧
      (registry.markUsed type).IsClosed := by
  have hLayouts := layouts_markUsed registry type
  refine
    ⟨Marking.ends_markUsed registry type, ?_, hLayouts,
      index?_of_layouts hLayouts, shapeIndex?_of_layouts hLayouts,
      hClosed.markUsed type⟩
  intro index
  exact mem_usedIndices_markUsed_iff_leads hClosed

/- Two structs that name each other, one that is used, and one apart. -/
def ringRegistry : Registry :=
  ⟨[ ⟨"Node", [("next", ⟨"Pointer<Edge>"⟩)], .declared, false⟩,
     ⟨"Edge", [("node", ⟨"Pointer<Node>"⟩), ("tag", ⟨"Tag"⟩)], .declared, false⟩,
     ⟨"Tag", [("text", ⟨"string"⟩)], .declared, true⟩,
     ⟨"anon_struct_0", [("node", ⟨"Node"⟩)], .synthesized, false⟩ ]⟩

theorem ringRegistry_marks_both_structs :
    ringRegistry.IsClosed ∧
      (Marking.start ringRegistry ⟨"Array<Node>"⟩).Ends (ringRegistry.markUsed ⟨"Array<Node>"⟩) ∧
      (ringRegistry.markUsed ⟨"Array<Node>"⟩).usedIndices = [0, 1, 2] ∧
      (ringRegistry.markUsed ⟨"Array<Node>"⟩).IsClosed := by
  have hClosed : ringRegistry.IsClosed := by
    unfold IsClosed
    decide
  rcases markUsed_marks_what_is_led_to hClosed ⟨"Array<Node>"⟩ with ⟨hEnds, _, _, _, _, hAgain⟩
  exact ⟨hClosed, hEnds, by decide, hAgain⟩

end Registry

end ScriptLowering
