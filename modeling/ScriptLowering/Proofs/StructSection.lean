import ScriptLowering.Proofs.EmissionOrder
import ScriptLowering.Proofs.LoweringLog

/-
  The structs that a program defines. A struct is defined
  when some marking meets its name while the struct is
  registered: as a word of the marked type, or as a word of
  a field of a struct that the marking reaches first. A name
  that is only met before its struct is registered stays
  undefined, however often it is written.

  Key theorems include:
    * `History.metSince_of_writtenFrom`
    * `struct_defined_iff_met_when_registered`
-/

namespace ScriptLowering

open Registry List

open TypeTable (replay)

-----
-- One Marking
-----

namespace Registry

variable {registry : Registry}

/-
  The names that the marking of a type meets: the words of
  the type, and those of the fields of structs that become
  used by it.
-/
def Meets (registry : Registry) (type : TypeName) (name : Text) : Prop :=
  name ∈ type.referencedNames ∨
    ∃ index struct,
      index ∈ registry.usedWith type.referencedNames ∧ index ∉ registry.usedIndices ∧
        registry.structs[index]? = some struct ∧
        name ∈ struct.fieldNames

/- Some struct of a name is used. -/
def HasUsed (registry : Registry) (name : Text) : Prop :=
  ∃ struct ∈ registry.structs, struct.name = name ∧ struct.used = true

theorem hasUsed_iff {name : Text} :
    registry.HasUsed name ↔
      ∃ index ∈ registry.usedIndices,
        ∃ struct, registry.structs[index]? = some struct ∧ struct.name = name := by
  constructor
  · rintro ⟨struct, hStruct, hName, hUsed⟩
    rcases mem_iff_getElem?.mp hStruct with ⟨index, hAt⟩
    exact ⟨index, mem_usedIndices_iff.mpr ⟨struct, hAt, hUsed⟩, struct, hAt, hName⟩
  · rintro ⟨_, hIndex, struct, hAt, hName⟩
    rcases mem_usedIndices_iff.mp hIndex with ⟨_, hSame, hUsed⟩
    rw [hAt] at hSame
    cases hSame
    exact ⟨struct, mem_of_getElem? hAt, hName, hUsed⟩

variable {index : Nat} {name : Text} {type : TypeName} {struct : Struct}

/- What is newly marked was met under its name. -/
theorem meets_of_mem_usedWith
    (hMem : index ∈ registry.usedWith type.referencedNames) (hNew : index ∉ registry.usedIndices)
    (hAt : registry.structs[index]? = some struct) :
    registry.contains struct.name = true ∧ registry.Meets type struct.name := by
  rcases (registry.expands_use _).exists_visit hMem hNew with ⟨visit⟩
  rcases index?_eq_some visit.asks with ⟨_, hSame, hName⟩
  rw [hAt] at hSame
  cases hSame
  have hContains : registry.contains struct.name = true :=
    contains_iff.mpr ⟨struct, mem_of_getElem? hAt, rfl⟩
  refine ⟨hContains, ?_⟩
  rw [hName]
  rcases visit.task_supplied with hGiven | ⟨owner, hOwner, hOwnerNew, _, _, hField⟩
  · exact .inl hGiven
  · right
    cases hOwnerAt : registry.structs[owner]? with
    | none => simp [useExpansion, hOwnerAt] at hField
    | some holder =>
      simp only [useExpansion, hOwnerAt, Option.map_some, Option.getD_some] at hField
      refine ⟨owner, holder, ?_, hOwnerNew, hOwnerAt, hField⟩
      have hLater : visit.earlier ⊆ _ :=
        List.Subset.trans (subset_cons_self _ _) visit.opened_suffix.subset
      exact hLater hOwner

/- A name that is met while it is registered becomes used. -/
theorem mem_usedWith_of_meets
    (hIndex : registry.index? name = some index) (hMeets : registry.Meets type name) :
    index ∈ registry.usedWith type.referencedNames := by
  have hExpands := registry.expands_use type.referencedNames
  rcases hMeets with hWord | ⟨_, holder, hMem, hNew, hAt, hField⟩
  · exact hExpands.mem_opened_of_asks hWord hIndex
  · apply hExpands.mem_opened_of_edge registry.follows_use hMem hNew
    exact mem_fieldIndices_iff.mpr ⟨holder, hAt, name, hField, hIndex⟩

/- What one marking does to the use of a name. -/
theorem hasUsed_markUsed_iff :
    (registry.markUsed type).HasUsed name ↔
      registry.HasUsed name ∨ registry.contains name = true ∧ registry.Meets type name := by
  constructor
  · intro hUsed
    rcases hasUsed_iff.mp hUsed with ⟨index, hIndex, struct, hAt, rfl⟩
    rw [markUsed_getElem?] at hAt
    rcases Option.map_eq_some_iff.mp hAt with ⟨old, hOld, rfl⟩
    by_cases hBefore : index ∈ registry.usedIndices
    · left
      exact hasUsed_iff.mpr ⟨index, hBefore, old, hOld, rfl⟩
    · right
      have hMet := meets_of_mem_usedWith (mem_usedIndices_markUsed_iff.mp hIndex).1 hBefore hOld
      exact hMet
  · intro hCases
    have hStill :
        ∀ index struct, index ∈ registry.usedWith type.referencedNames →
          registry.structs[index]? = some struct →
          struct.name = name →
          (registry.markUsed type).HasUsed name := by
      intro index struct hMem hAt hName
      have hLt := (List.getElem?_eq_some_iff.mp hAt).1
      have hMarked := markUsed_getElem? registry type index
      rw [hAt, Option.map_some] at hMarked
      exact hasUsed_iff.mpr ⟨index, mem_usedIndices_markUsed_iff.mpr ⟨hMem, hLt⟩, _, hMarked, hName⟩
    rcases hCases with hUsed | ⟨hContains, hMeets⟩
    · rcases hasUsed_iff.mp hUsed with ⟨index, hIndex, struct, hAt, hName⟩
      exact hStill index struct (usedIndices_subset_usedWith registry _ hIndex) hAt hName
    · rcases Option.isSome_iff_exists.mp hContains with ⟨index, hIndex⟩
      rcases index?_eq_some hIndex with ⟨struct, hAt, hName⟩
      exact hStill index struct (mem_usedWith_of_meets hIndex hMeets) hAt hName

/- A struct is unused when it is registered. -/
theorem hasUsed_push_iff (hUnused : struct.used = false) :
    (registry.push struct).HasUsed name ↔ registry.HasUsed name := by
  unfold HasUsed push
  simp [or_and_right, exists_or, hUnused]

theorem mem_usedIndices_of_push
    (hUnused : struct.used = false) (h : index ∈ (registry.push struct).usedIndices) :
    index ∈ registry.usedIndices := by
  rcases mem_usedIndices_iff.mp h with ⟨found, hAt, hUsed⟩
  apply mem_usedIndices_iff.mpr
  by_cases hLt : index < registry.structs.length
  · rw [push, getElem?_append_left hLt] at hAt
    exact ⟨found, hAt, hUsed⟩
  · rw [push, getElem?_append_right (by omega)] at hAt
    have hMem := mem_of_getElem? hAt
    rw [mem_singleton.mp hMem, hUnused] at hUsed
    cases hUsed

theorem mem_usedIndices_of_intern
    {fields : List (Text × TypeName)} (h : index ∈ (registry.intern fields).2.usedIndices) :
    index ∈ registry.usedIndices := by
  rcases intern_cases registry fields with ⟨_, _, hIntern⟩ | ⟨_, hIntern⟩
  · rw [hIntern] at h
    exact h
  · rw [hIntern] at h
    exact mem_usedIndices_of_push rfl h

theorem hasUsed_intern_iff {fields : List (Text × TypeName)} :
    (registry.intern fields).2.HasUsed name ↔ registry.HasUsed name := by
  rcases intern_cases registry fields with ⟨_, _, hIntern⟩ | ⟨_, hIntern⟩
  · rw [hIntern]
  · rw [hIntern]
    exact hasUsed_push_iff rfl

/- The used structs are the ones that are emitted. -/
theorem exists_mem_emissionOrder_iff {name : Text} :
    (∃ struct ∈ registry.emissionOrder, struct.name = name) ↔ registry.HasUsed name := by
  rw [hasUsed_iff]
  unfold emissionOrder
  constructor
  · rintro ⟨struct, hStruct, hName⟩
    rcases mem_filterMap.mp hStruct with ⟨index, hIndex, hAt⟩
    have hUsed := mem_emissionIndices_iff.mp hIndex
    rcases isUsedAt_iff.mp hUsed with ⟨same, hSame, hSameUsed⟩
    exact ⟨index, mem_usedIndices_iff.mpr ⟨same, hSame, hSameUsed⟩, struct, hAt, hName⟩
  · rintro ⟨index, hIndex, struct, hAt, hName⟩
    have hUsed : registry.isUsedAt index = true := isUsedAt_iff.mpr (mem_usedIndices_iff.mp hIndex)
    exact ⟨struct, mem_filterMap.mpr ⟨index, mem_emissionIndices_iff.mpr hUsed, hAt⟩, hName⟩

end Registry

-----
-- All Markings
-----

/- Some marking since a time meets a name. -/
def MetSince (since log : List TableEvent) (name : Text) : Prop :=
  ∃ before type, since <+: before ∧ Occurs log before (.marked type) ∧
    (replay before).registry.Meets type name

/- Some marking meets a name while a struct has it. -/
def MetWhenRegistered (log : List TableEvent) (name : Text) : Prop :=
  ∃ before type, Occurs log before (.marked type) ∧ (replay before).registry.contains name = true ∧
    (replay before).registry.Meets type name

variable {name : Text} {log : List TableEvent} {index : Nat}
variable {program : Program} {since : List TableEvent}

theorem metWhenRegistered_concat_iff {event : TableEvent} :
    MetWhenRegistered (log ++ [event]) name ↔
      MetWhenRegistered log name ∨
        ∃ type, event = .marked type ∧ (replay log).registry.contains name = true ∧
          (replay log).registry.Meets type name := by
  unfold MetWhenRegistered
  constructor
  · rintro ⟨before, type, hOccurs, hMet⟩
    rcases Occurs.concat_iff.mp hOccurs with ⟨rfl, rfl⟩ | hOld
    · exact .inr ⟨type, rfl, hMet⟩
    · exact .inl ⟨before, type, hOld, hMet⟩
  · rintro (⟨before, type, hOccurs, hMet⟩ | ⟨type, rfl, hMet⟩)
    · exact ⟨before, type, hOccurs.mono (prefix_append _ _), hMet⟩
    · exact ⟨log, type, .last log _, hMet⟩

/- A name is in use exactly if it was met in time. -/
theorem hasUsed_replay_iff (log : List TableEvent) (name : Text) :
    (replay log).registry.HasUsed name ↔ MetWhenRegistered log name := by
  induction log using reverseRecOn with
  | nil =>
    constructor
    · rintro ⟨struct, hStruct, _⟩
      cases hStruct
    · rintro ⟨_, _, hOccurs, _⟩
      have hNil := prefix_nil.mp hOccurs
      simp at hNil
  | append_singleton _ event ih =>
    rw [metWhenRegistered_concat_iff, replay_concat, ← ih]
    cases event with
    | decided | aliased => simp [TableEvent.apply]
    | interned => simp [TableEvent.apply, hasUsed_intern_iff]
    | declared => simp [TableEvent.apply, hasUsed_push_iff]
    | marked =>
      simp only [TableEvent.apply, TypeTable.markUsed, hasUsed_markUsed_iff]
      simp

/-
  Some marking since a time made the struct at a place a
  used one.
-/
def NewlyMarked (since log : List TableEvent) (index : Nat) : Prop :=
  ∃ before type, since <+: before ∧ Occurs log before (.marked type) ∧
    index ∈ (replay before).registry.usedWith type.referencedNames ∧
    index ∉ (replay before).registry.usedIndices ∧
    index < (replay before).registry.structs.length

theorem NewlyMarked.mono
    {later : List TableEvent} (h : NewlyMarked since log index) (hLater : log <+: later) :
    NewlyMarked since later index := by
  rcases h with ⟨before, type, hSince, hOccurs, hRest⟩
  exact ⟨before, type, hSince, hOccurs.mono hLater, hRest⟩

/- Every struct that comes into use is marked at some time. -/
theorem newlyMarked_of_used
    (hSince : since <+: log) (hUsed : index ∈ (replay log).registry.usedIndices)
    (hUnused : index ∉ (replay since).registry.usedIndices) :
    NewlyMarked since log index := by
  rcases hSince with ⟨added, rfl⟩
  induction added using reverseRecOn with
  | nil =>
    rw [append_nil] at hUsed
    exact (hUnused hUsed).elim
  | append_singleton added event ih =>
    rw [← append_assoc] at hUsed ⊢
    have hEarlier :
        index ∈ (replay (since ++ added)).registry.usedIndices →
          NewlyMarked since (since ++ added ++ [event]) index := by
      intro hOld
      exact (ih hOld).mono (prefix_append _ _)
    rw [replay_concat] at hUsed
    cases event with
    | decided | aliased => exact hEarlier hUsed
    | interned => exact hEarlier (mem_usedIndices_of_intern hUsed)
    | declared => exact hEarlier (mem_usedIndices_of_push rfl hUsed)
    | marked type =>
      rcases mem_usedIndices_markUsed_iff.mp hUsed with ⟨hMem, hLt⟩
      by_cases hOld :
          index ∈ (replay (since ++ added)).registry.usedIndices
      · exact hEarlier hOld
      · exact ⟨since ++ added, type, prefix_append _ _, Occurs.last _ _, hMem, hOld, hLt⟩

/- A struct has had its fields since it was registered. -/
theorem exists_same_fields
    {before : List TableEvent} (hBefore : before <+: log)
    (hLt : index < (replay before).registry.structs.length) {struct : Struct}
    (hAt : (replay log).registry.structs[index]? = some struct) :
    ∃ old, (replay before).registry.structs[index]? = some old ∧ old.fields = struct.fields := by
  rcases layouts_mono hBefore with ⟨_, hLayouts⟩
  have hOld := getElem?_eq_getElem hLt
  refine ⟨_, hOld, ?_⟩
  have hSame :
      (replay before).registry.layouts[index]? = (replay log).registry.layouts[index]? := by
    rw [← hLayouts, getElem?_append_left]
    simpa [layouts] using hLt
  simp only [layouts, getElem?_map, hOld, hAt,
    Option.map_some, Option.some.injEq, Struct.mk.injEq] at hSame
  exact hSame.2.1

/- A name that a struct has stays the name of one. -/
theorem contains_mono
    {before : List TableEvent} (hBefore : before <+: log)
    (h : (replay before).registry.contains name = true) :
    (replay log).registry.contains name = true := by
  rcases contains_iff.mp h with ⟨struct, hStruct, rfl⟩
  have hLayout := (layouts_mono hBefore).subset (mem_map_of_mem hStruct)
  rcases mem_map.mp hLayout with ⟨later, hLater, hSame⟩
  apply contains_iff.mpr
  refine ⟨later, hLater, ?_⟩
  simp only [Struct.mk.injEq] at hSame
  exact hSame.1

/- A name in a field of a struct that comes into use is met. -/
theorem met_of_field
    (hSince : since <+: log) {struct : Struct} (hUsed : index ∈ (replay log).registry.usedIndices)
    (hUnused : index ∉ (replay since).registry.usedIndices)
    (hAt : (replay log).registry.structs[index]? = some struct) (hName : name ∈ struct.fieldNames) :
    MetSince since log name := by
  rcases newlyMarked_of_used hSince hUsed hUnused with
    ⟨before, type, hReached, hOccurs, hMem, hNew, hLt⟩
  rcases exists_same_fields hOccurs.prefix_before hLt hAt with ⟨old, hOld, hFields⟩
  have hOldName : name ∈ old.fieldNames := by
    unfold Struct.fieldNames
    rw [hFields]
    exact hName
  exact ⟨before, type, hReached, hOccurs, Or.inr ⟨index, old, hMem, hNew, hOld, hOldName⟩⟩

/- What is met since it is registered is met in time. -/
theorem MetSince.whenRegistered
    (h : MetSince since log name) (hContains : (replay since).registry.contains name = true) :
    MetWhenRegistered log name := by
  rcases h with ⟨before, type, hSince, hOccurs, hMeets⟩
  exact ⟨before, type, hOccurs, contains_mono hSince hContains, hMeets⟩

-----
-- Compiled Programs
-----

/-
  The types that the end of a run writes, from a state on:
  those of its items, and those of the fields of structs that
  come into use.
-/
def Compilation.WrittenFrom
    {program : Program} (run : Compilation program) (state : LowerState) (items : List Target.Item)
    (type : TypeName) : Prop :=
  type ∈ items.flatMap Target.Item.types ∨
    ∃ index struct,
      index ∈ run.state.types.registry.usedIndices ∧ index ∉ state.types.registry.usedIndices ∧
        run.state.types.registry.structs[index]? = some struct ∧
        type ∈ struct.fields.map Prod.snd

/- All types of a file are written from the start on. -/
theorem Compilation.writtenFrom_start_iff (run : Compilation program) {type : TypeName} :
    run.WrittenFrom LowerState.start run.items type ↔ type ∈ run.file.types := by
  have hFile :
      type ∈ run.file.types ↔
        type ∈ run.items.flatMap Target.Item.types ∨
          ∃ struct ∈ run.file.structs, type ∈ struct.fields.map Prod.snd := by
    unfold Target.CodeFile.types
    rw [mem_append, mem_flatMap (l := run.file.structs)]
    rfl
  rw [hFile]
  apply or_congr_right
  constructor
  · rintro ⟨index, struct, hUsed, _, hAt, hField⟩
    have hEmitted := mem_emissionIndices_iff.mpr (isUsedAt_iff.mpr (mem_usedIndices_iff.mp hUsed))
    exact ⟨struct, mem_filterMap.mpr ⟨index, hEmitted, hAt⟩, hField⟩
  · rintro ⟨struct, hStruct, hField⟩
    rcases mem_filterMap.mp hStruct with ⟨index, hIndex, hAt⟩
    have hUsed := isUsedAt_iff.mp (mem_emissionIndices_iff.mp hIndex)
    refine ⟨index, struct, mem_usedIndices_iff.mpr hUsed, ?_, hAt, hField⟩
    intro hStart
    rcases mem_usedIndices_iff.mp hStart with ⟨_, hNone, _⟩
    simp [LowerState.start, TypeTable.empty, empty] at hNone

/- What is written from a state on is met since then. -/
theorem History.metSince_of_writtenFrom
    {run : Compilation program} {reached : List TableEvent} (h : History run log)
    (hReached : reached <+: log) {state : LowerState} (hState : replay reached = state.types)
    {items : List Target.Item} (hItems : AllWritten reached log (items.flatMap Target.Item.types))
    {type : TypeName} (hType : run.WrittenFrom state items type)
    (hName : name ∈ type.referencedNames) :
    MetSince reached log name := by
  rcases hType with hItem | ⟨_, struct, hUsed, hUnused, hAt, hField⟩
  · rcases (hItems type hItem).1 with ⟨before, hSince, hOccurs⟩
    exact ⟨before, type, hSince, hOccurs, .inl hName⟩
  · rcases mem_map.mp hField with ⟨field, hMem, rfl⟩
    rw [← h.types_eq] at hUsed hAt
    rw [← hState] at hUnused
    apply met_of_field hReached hUsed hUnused hAt
    exact mem_flatMap.mpr ⟨field, hMem, hName⟩

/- A struct of a name is defined if the name was met in time. -/
theorem History.defined_iff {run : Compilation program} (h : History run log) :
    (∃ struct ∈ run.file.structs, struct.name = name) ↔ MetWhenRegistered log name := by
  have hUsed := hasUsed_replay_iff log name
  rw [h.types_eq] at hUsed
  exact exists_mem_emissionOrder_iff.trans hUsed

/-
  In a program that compiles, by every history of it, a name
  in a written type was met by a marking, and a struct of a
  name is defined exactly if some marking met the name while
  it was registered. So, however the steps are divided, what
  the last ones write has its structs defined as far as the
  first ones registered them.
-/
theorem struct_defined_iff_met_when_registered
    {program : Program} {config : LayoutConfig} {text : Text}
    (h : program.compile config = .ok text) :
    ∃ run : Compilation program,
      text = run.file.text config ∧ (∃ log, History run log) ∧
        (∀ log, History run log →
          ∀ name, ((∃ type ∈ run.file.types, name ∈ type.referencedNames) → MetSince [] log name) ∧
            ((∃ struct ∈ run.file.structs, struct.name = name) ↔ MetWhenRegistered log name)) ∧
        ∀ done rest, run.steps = done ++ rest →
          ∃ doneItems restItems state, lowerSteps done LowerState.start = .ok doneItems state ∧
            run.items = doneItems ++ restItems ∧
            ∀ type, run.WrittenFrom state restItems type →
              ∀ name ∈ type.referencedNames,
                state.types.registry.contains name = true →
                  ∃ struct ∈ run.file.structs, struct.name = name := by
  rcases compile_eq_ok_iff.mp h with ⟨run, hText⟩
  refine ⟨run, hText, exists_history run, ?_, ?_⟩
  · intro log hLog name
    refine ⟨?_, hLog.defined_iff⟩
    rintro ⟨type, hType, hName⟩
    exact
      hLog.metSince_of_writtenFrom List.nil_prefix rfl hLog.written
        (run.writtenFrom_start_iff.mpr hType) hName
  · intro done rest hSplit
    rcases exists_history run with ⟨log, hLog⟩
    rcases hLog.follows done rest hSplit with ⟨stage⟩
    refine ⟨stage.doneItems, stage.restItems, stage.state, stage.runs, stage.items_eq, ?_⟩
    intro type hType name hName hContains
    have hMet := hLog.metSince_of_writtenFrom stage.reaches stage.types_eq stage.written hType hName
    rw [← stage.types_eq] at hContains
    exact hLog.defined_iff.mpr (hMet.whenRegistered hContains)

-----
-- A Struct That Is Registered Too Late
-----

/- A unit that declares a struct. -/
def pointUnit : SourceUnit :=
  ⟨"lib.ts", [],
    [.interface plainNode
      ⟨"Point", [⟨"x", ⟨"number", Span.nowhere⟩, false, false, false, Span.nowhere⟩]⟩]⟩

def pointImport : Stmt :=
  .importFrom plainNode "./lib.ts" (.named [⟨plainNode, "Point", none⟩])

def pointVariable : Stmt :=
  .vars plainNode .letKind [.mk plainNode "p" (some ⟨"Point", Span.nowhere⟩) none]

/- A program with the unit of the struct and one other. -/
def pointProgram (statements : List Stmt) : Program :=
  ⟨[⟨"main.ts", [], statements⟩, pointUnit], some 0, NodeTypes.empty, [⟨0, "./lib.ts", .unit 1⟩]⟩

/- The struct is imported before it is used. -/
def importFirst : Program :=
  pointProgram [pointImport, pointVariable]

/- The struct is imported after it is used. -/
def importLast : Program :=
  pointProgram [pointVariable, pointImport]

/- The import in front lets the struct be met in time. -/
theorem importFirst_point_met :
    ∃ text, importFirst.compile LayoutConfig.standard = .ok text ∧
      ∃ (run : Compilation importFirst) (log : List TableEvent),
        History run log ∧ MetWhenRegistered log "Point" ∧
          ∃ struct ∈ run.file.structs, struct.name = "Point" := by
  have hPasses :
      Compilation.passes importFirst (fun _ items state =>
        decide
          (∃ struct ∈ (codeFile state.types items).structs, struct.name = "Point")) = true := by
    decide +kernel
  rcases Compilation.compiles_of_passes hPasses LayoutConfig.standard with ⟨_, hCompile⟩
  rcases struct_defined_iff_met_when_registered hCompile with ⟨run, _, ⟨log, hLog⟩, hAll, _⟩
  have hDefined := of_decide_eq_true (run.check_of_passes hPasses)
  exact ⟨_, hCompile, run, log, hLog, (hAll log hLog "Point").2.mp hDefined, hDefined⟩

/-
  With the import behind, the variable still has the type,
  the struct is registered in the end, and no struct is
  defined.
-/
theorem importLast_point_undefined :
    ∃ (text : Text) (run : Compilation importLast),
      importLast.compile LayoutConfig.standard = .ok text ∧
        text = run.file.text LayoutConfig.standard ∧
        run.state.types.registry.contains "Point" = true ∧
        ⟨"Point"⟩ ∈ run.file.types ∧
        run.file.structs = [] := by
  have hPasses :
      Compilation.passes importLast (fun _ items state =>
        decide
          (state.types.registry.contains "Point" = true ∧
            ⟨"Point"⟩ ∈ (codeFile state.types items).types ∧
            (codeFile state.types items).structs = [])) = true := by
    decide +kernel
  rcases Compilation.exists_of_passes hPasses with ⟨run⟩
  have hRun := of_decide_eq_true (run.check_of_passes hPasses)
  exact ⟨_, run, compile_eq_ok_iff.mpr ⟨run, rfl⟩, rfl, hRun⟩

end ScriptLowering
