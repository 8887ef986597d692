import Mathlib.Data.List.Perm.Basic
import ScriptLowering.Proofs.EventLog

/-
  The names of a type table. Structs get their names from
  declarations and from a counter, and aliases get theirs
  from declarations. Declared names never clash with one
  another, and neither do names of the counter; a declared
  name and a name of the counter may.

  Key theorems include:
    * `namesSeparate_iff`
    * `namesSeparate_and_shapes_distinct_iff`
-/

namespace ScriptLowering

open TypeTable List TableEvent TypeTerm

-----
-- Calls
-----

/- What a type table is asked to do. -/
inductive TypeCall where
  | declareInterface (decl : Interface)
  | declareAlias (decl : TypeAlias)
  | canonicalize (raw : Text)
  | markUsed (type : TypeName)

/- The table after a call, which may fail. -/
def TypeCall.run (table : TypeTable) : TypeCall → TypeTable
  | .declareInterface decl =>
      stateLeft (TypeTable.declareInterface decl table)
  | .declareAlias decl =>
      stateLeft (TypeTable.declareAlias decl table)
  | .canonicalize raw =>
      stateLeft (TypeTable.canonicalize raw table)
  | .markUsed type => table.markUsed type

/- The table after some calls on a fresh one. -/
def tableAfter (calls : List TypeCall) : TypeTable :=
  calls.foldl TypeCall.run empty

theorem tableAfter_append (before after : List TypeCall) :
    tableAfter (before ++ after) = after.foldl TypeCall.run (tableAfter before) :=
  foldl_append

variable {log : List TableEvent} {fields : List (Text × TypeName)}
variable {name : Text} {table : TypeTable}
variable {registry : Registry}

theorem TypeCall.settled_run (call : TypeCall) (h : Settled log table) :
    ∃ later, log <+: later ∧ Settled later (call.run table) := by
  cases call with
  | declareInterface decl =>
    rcases extends_declareInterface decl log table h with ⟨later, hLater, hLeft, _⟩
    exact ⟨later, hLater, hLeft⟩
  | declareAlias decl =>
    rcases extends_declareAlias decl log table h with ⟨later, hLater, hLeft, _⟩
    exact ⟨later, hLater, hLeft⟩
  | canonicalize raw =>
    rcases decisionRule_log.leads_eval (.ofText raw) log table h with ⟨later, hLater, hLeft, _⟩
    exact ⟨later, hLater.isPrefix, hLeft⟩
  | markUsed type => exact ⟨log ++ [.marked type], prefix_append _ _, h.markUsed type⟩

/- Calls extend a log. -/
theorem settled_foldl (calls : List TypeCall) (h : Settled log table) :
    ∃ later, log <+: later ∧ Settled later (calls.foldl TypeCall.run table) := by
  induction calls generalizing log table with
  | nil => exact ⟨log, prefix_refl _, h⟩
  | cons call _ ih =>
    rcases call.settled_run h with ⟨_, hMiddle, hRun⟩
    rcases ih hRun with ⟨later, hLater, hSettled⟩
    exact ⟨later, hMiddle.trans hLater, hSettled⟩

theorem exists_settled_tableAfter (calls : List TypeCall) :
    ∃ log, Settled log (tableAfter calls) := by
  rcases settled_foldl calls settled_empty with ⟨log, _, hSettled⟩
  exact ⟨log, hSettled⟩

-----
-- Names Of The Counter
-----

/- The name of the struct that is synthesized after `count` others. -/
def synthesizedName (count : Nat) : Text :=
  "anon_struct_" ++ Text.ofNat count

theorem synthesizedName_injective :
    Function.Injective synthesizedName := by
  intro first second hEq
  have hDigits : Nat.toDigits 10 first = Nat.toDigits 10 second := append_cancel_left hEq
  have hValue := congrArg (fun digits => Nat.ofDigitChars 10 digits 0) hDigits
  simpa using hValue

namespace Registry

/- The names of the structs that were synthesized. -/
def synthesizedNames (registry : Registry) : List Text :=
  (registry.structs.filter fun struct =>
    struct.origin == .synthesized).map Struct.name

/- The names of structs of one origin are told by the layouts. -/
theorem names_of_layouts (registry : Registry) (origin : StructOrigin) :
    (registry.structs.filter fun struct => struct.origin == origin).map Struct.name =
      (registry.layouts.filter fun struct =>
        struct.origin == origin).map Struct.name := by
  simp [layouts, filter_map, Function.comp_def]

theorem synthesizedCount_eq_length (registry : Registry) :
    registry.synthesizedCount = registry.synthesizedNames.length := by
  unfold synthesizedCount synthesizedNames
  rw [length_map, countP_eq_length_filter]

@[simp] theorem declaredNames_markUsed (registry : Registry) (type : TypeName) :
    (registry.markUsed type).declaredNames = registry.declaredNames := by
  unfold declaredNames
  rw [names_of_layouts, layouts_markUsed, ← names_of_layouts]

@[simp] theorem synthesizedNames_markUsed (registry : Registry) (type : TypeName) :
    (registry.markUsed type).synthesizedNames = registry.synthesizedNames := by
  unfold synthesizedNames
  rw [names_of_layouts, layouts_markUsed, ← names_of_layouts]

@[simp] theorem declaredNames_push (registry : Registry) (struct : Struct) :
    (registry.push struct).declaredNames =
      registry.declaredNames ++ if struct.origin = .declared then [struct.name] else [] := by
  by_cases hOrigin : struct.origin = .declared <;> simp [declaredNames, push, hOrigin]

@[simp] theorem synthesizedNames_push (registry : Registry) (struct : Struct) :
    (registry.push struct).synthesizedNames =
      registry.synthesizedNames ++
        if struct.origin = .synthesized then
          [struct.name]
        else
          [] := by
  by_cases hOrigin : struct.origin = .synthesized <;> simp [synthesizedNames, push, hOrigin]

/- Every struct was declared or synthesized. -/
theorem names_perm (registry : Registry) :
    (registry.declaredNames ++ registry.synthesizedNames).Perm
      (registry.structs.map Struct.name) := by
  have hOrigins :
      (fun struct : Struct => struct.origin == .synthesized) =
        fun struct => !(struct.origin == .declared) := by
    funext struct
    cases struct.origin <;> rfl
  unfold declaredNames synthesizedNames
  rw [hOrigins, ← map_append]
  exact (filter_append_perm _ registry.structs).map Struct.name

end Registry

/- The counter names synthesized structs one after another. -/
theorem Valid.synthesizedNames_eq (h : Valid log) :
    (replay log).registry.synthesizedNames =
      (range (replay log).registry.synthesizedCount).map
        synthesizedName := by
  induction h with
  | nil => rfl
  | @concat log event _ _ ih =>
    rw [replay_concat]
    cases event with
    | decided | aliased => exact ih
    | interned fields =>
      simp only [apply]
      rcases Registry.intern_cases (replay log).registry fields with ⟨_, _, hIntern⟩ | ⟨_, hIntern⟩
      · rw [hIntern]
        exact ih
      · rw [hIntern, Registry.synthesizedCount_eq_length,
          Registry.synthesizedNames_push, if_pos rfl,
          length_append, length_singleton,
          ← Registry.synthesizedCount_eq_length,
          range_succ, map_append, ← ih]
        rfl
    | declared =>
      rw [Registry.synthesizedCount_eq_length] at ih ⊢
      simpa [apply] using ih
    | marked =>
      rw [Registry.synthesizedCount_eq_length] at ih ⊢
      simpa [apply, markUsed] using ih

-----
-- Declared Names
-----

namespace TypeTable

/- The names that were declared, for structs and aliases. -/
def declaredNames (table : TypeTable) : List Text :=
  table.registry.declaredNames ++ table.aliases.map Prod.fst

theorem alias?_eq_none_iff {name : Text} :
    table.alias? name = none ↔ name ∉ table.aliases.map Prod.fst := by
  unfold alias?
  rw [lookup_eq_none_iff, mem_map]
  constructor
  · rintro hAll ⟨pair, hPair, rfl⟩
    simpa using hAll pair hPair
  · intro hNone pair hPair
    rw [bne_iff_ne]
    rintro rfl
    exact hNone ⟨pair, hPair, rfl⟩

theorem not_mem_declaredNames_of_isTypeName (h : table.isTypeName name = false) :
    name ∉ table.declaredNames := by
  unfold isTypeName at h
  rw [Bool.or_eq_false_iff] at h
  intro hMem
  rcases mem_append.mp hMem with hStruct | hAlias
  · rcases Registry.mem_declaredNames_iff.mp hStruct with ⟨struct, hMember, _, hName⟩
    have hContains : table.registry.contains name = true :=
      Registry.contains_iff.mpr ⟨struct, hMember, hName⟩
    rw [h.1] at hContains
    cases hContains
  · have hNone : table.alias? name = none := by simpa using h.2
    exact alias?_eq_none_iff.mp hNone hAlias

end TypeTable

/- No name is declared twice. -/
theorem Valid.declaredNames_nodup (h : Valid log) :
    (replay log).declaredNames.Nodup := by
  induction h with
  | nil => simp [declaredNames, empty,
      Registry.declaredNames, Registry.empty]
  | @concat log event _ hEvent ih =>
    rw [replay_concat]
    cases event with
    | decided => exact ih
    | interned fields =>
      simp only [apply, declaredNames]
      rcases Registry.intern_cases (replay log).registry fields with
        ⟨struct, _, hIntern⟩ | ⟨_, hIntern⟩
      · rw [hIntern]
        exact ih
      · rw [hIntern]
        simpa [declaredNames] using ih
    | declared name fields =>
      have hNew := not_mem_declaredNames_of_isTypeName hEvent.2
      have hPerm :
          (apply (replay log) (.declared name fields)).declaredNames.Perm
            (name :: (replay log).declaredNames) := by
        simp only [apply, declaredNames, Registry.declaredNames_push, if_true, append_assoc]
        exact perm_middle
      rw [hPerm.nodup_iff, nodup_cons]
      exact ⟨hNew, ih⟩
    | aliased name target =>
      have hNew : name ∉ (replay log).declaredNames := by
        intro hMem
        rcases mem_append.mp hMem with hStruct | hAlias
        · exact hEvent.2.2 hStruct
        · exact alias?_eq_none_iff.mp hEvent.2.1 hAlias
      have hPerm :
          (apply (replay log) (.aliased name target)).declaredNames.Perm
            (name :: (replay log).declaredNames) :=
        perm_middle
      rw [hPerm.nodup_iff, nodup_cons]
      exact ⟨hNew, ih⟩
    | marked => simpa [apply, markUsed, declaredNames] using ih

-----
-- Separate Names
-----

/-
  No two structs have one name, each name leads to its
  struct, and no struct has the name of an alias.
-/
structure TypeTable.NamesSeparate (table : TypeTable) : Prop where
  distinct : table.registry.NamesDistinct
  found :
    ∀ struct ∈ table.registry.structs, table.registry.get? struct.name = some struct
  unaliased :
    ∀ struct ∈ table.registry.structs, table.alias? struct.name = none

theorem Registry.get?_of_namesDistinct
    (hNames : registry.NamesDistinct) {struct : Struct} (hStruct : struct ∈ registry.structs) :
    registry.get? struct.name = some struct := by
  rcases mem_iff_getElem?.mp hStruct with ⟨_, hAt⟩
  unfold get?
  rw [index?_of_namesDistinct hNames hAt]
  exact hAt

theorem Registry.mem_names_iff {registry : Registry} :
    name ∈ registry.structs.map Struct.name ↔
      name ∈ registry.declaredNames ∨ name ∈ registry.synthesizedNames := by
  rw [← registry.names_perm.mem_iff, mem_append]

theorem Valid.mem_synthesizedNames_iff (h : Valid log) {name : Text} :
    name ∈ (replay log).registry.synthesizedNames ↔
      ∃ count < (replay log).registry.synthesizedCount, synthesizedName count = name := by
  rw [h.synthesizedNames_eq, mem_map]
  simp only [mem_range]

/- Only a declared struct can have a name of the counter too. -/
theorem Valid.namesDistinct_iff (h : Valid log) :
    (replay log).registry.NamesDistinct ↔
      ∀ count < (replay log).registry.synthesizedCount,
        synthesizedName count ∉ (replay log).registry.declaredNames := by
  have hNames :
      (replay log).registry.NamesDistinct ↔
        ((replay log).registry.declaredNames ++ (replay log).registry.synthesizedNames).Nodup :=
    (replay log).registry.names_perm.nodup_iff.symm
  rw [hNames]
  constructor
  · intro hNodup count hCount hDeclared
    exact disjoint_of_nodup_append hNodup hDeclared
      (h.mem_synthesizedNames_iff.mpr ⟨count, hCount, rfl⟩)
  · intro hFree
    have hCounter : (replay log).registry.synthesizedNames.Nodup := by
      rw [h.synthesizedNames_eq]
      exact nodup_range.map synthesizedName_injective
    rw [nodup_append]
    refine ⟨(nodup_append.mp h.declaredNames_nodup).1, hCounter, ?_⟩
    rintro name hDeclared other hOther rfl
    rcases h.mem_synthesizedNames_iff.mp hOther with ⟨count, hCount, rfl⟩
    exact hFree count hCount hDeclared

/- Only a synthesized struct can have the name of an alias. -/
theorem Valid.unaliased_iff (h : Valid log) :
    (∀ struct ∈ (replay log).registry.structs, (replay log).alias? struct.name = none) ↔
      ∀ count < (replay log).registry.synthesizedCount,
        synthesizedName count ∉ (replay log).aliases.map Prod.fst := by
  constructor
  · intro hAll count hCount
    have hName :=
      Registry.mem_names_iff.mpr (.inr (h.mem_synthesizedNames_iff.mpr ⟨count, hCount, rfl⟩))
    rcases mem_map.mp hName with ⟨struct, hStruct, hEq⟩
    rw [← hEq]
    exact alias?_eq_none_iff.mp (hAll struct hStruct)
  · intro hFree struct hStruct
    rw [alias?_eq_none_iff]
    rcases Registry.mem_names_iff.mp (mem_map_of_mem hStruct) with hDeclared | hSynthesized
    · exact disjoint_of_nodup_append h.declaredNames_nodup hDeclared
    · rcases h.mem_synthesizedNames_iff.mp hSynthesized with ⟨count, hCount, hEq⟩
      rw [← hEq]
      exact hFree count hCount

/-
  All names are separate exactly if the counter has not run
  into a declared name.
-/
theorem namesSeparate_iff (h : Valid log) :
    (replay log).NamesSeparate ↔
      ∀ count < (replay log).registry.synthesizedCount,
        synthesizedName count ∉ (replay log).declaredNames := by
  unfold declaredNames
  simp only [mem_append, not_or, forall_and]
  rw [← h.namesDistinct_iff, ← h.unaliased_iff]
  constructor
  · intro hSeparate
    exact ⟨hSeparate.distinct, hSeparate.unaliased⟩
  · rintro ⟨hDistinct, hUnaliased⟩
    exact ⟨hDistinct, fun struct => Registry.get?_of_namesDistinct hDistinct, hUnaliased⟩

-----
-- Shape Keys
-----

/- A text without the marks that shape keys are built with. -/
def Text.IsPlain (text : Text) : Prop :=
  ':' ∉ text ∧ ';' ∉ text

instance (text : Text) :
    Decidable text.IsPlain :=
  inferInstanceAs (Decidable (_ ∧ _))

def FieldsPlain (fields : List (Text × TypeName)) : Prop :=
  ∀ field ∈ fields, field.1.IsPlain ∧ field.2.text.IsPlain

instance (fields : List (Text × TypeName)) :
    Decidable (FieldsPlain fields) :=
  inferInstanceAs (Decidable (∀ field ∈ fields, _))

/- A text is cut in one way at the first place of a mark. -/
theorem Text.append_mark_inj
    {mark : Char} {left right leftRest rightRest : Text} (hLeft : mark ∉ left)
    (hRight : mark ∉ right) (hEq : left ++ mark :: leftRest = right ++ mark :: rightRest) :
    left = right ∧ leftRest = rightRest := by
  induction left generalizing right with
  | nil =>
    cases right with
    | nil => simpa using hEq
    | cons =>
      simp only [nil_append, cons_append, cons.injEq] at hEq
      simp [hEq.1] at hRight
  | cons _ _ ih =>
    cases right with
    | nil =>
      simp only [nil_append, cons_append, cons.injEq] at hEq
      simp [hEq.1] at hLeft
    | cons =>
      simp only [cons_append, cons.injEq] at hEq
      simp only [mem_cons, not_or] at hLeft hRight
      rcases ih hLeft.2 hRight.2 hEq.2 with ⟨hRest, hAfter⟩
      exact ⟨by rw [hEq.1, hRest], hAfter⟩

theorem shapeKey_cons (field : Text × TypeName) (fields : List (Text × TypeName)) :
    shapeKey (field :: fields) =
      field.1 ++ ':' :: (field.2.text ++ if fields = [] then [] else ';' :: shapeKey fields) := by
  cases fields with
  | nil | cons => simp [shapeKey, Text.joinWith]

/- Plain field lists with one key are equal. -/
theorem shapeKey_inj
    {others : List (Text × TypeName)} (hFields : FieldsPlain fields)
    (hOthers : FieldsPlain others) :
    shapeKey fields = shapeKey others ↔ fields = others := by
  refine ⟨?_, fun hEq => by rw [hEq]⟩
  intro hKey
  induction fields generalizing others with
  | nil =>
    cases others with
    | nil => rfl
    | cons =>
      rw [shapeKey_cons] at hKey
      simp [shapeKey, Text.joinWith] at hKey
  | cons field rest ih =>
    cases others with
    | nil =>
      rw [shapeKey_cons] at hKey
      simp [shapeKey, Text.joinWith] at hKey
    | cons other more =>
      have hField := hFields field mem_cons_self
      have hOther := hOthers other mem_cons_self
      rw [shapeKey_cons, shapeKey_cons] at hKey
      rcases Text.append_mark_inj hField.1.1 hOther.1.1 hKey with ⟨hName, hAfter⟩
      -- The type ends at the first semicolon or at the end.
      have hRest : field.2.text = other.2.text ∧ rest = more := by
        by_cases hEnd : rest = [] <;> by_cases hOtherEnd : more = []
        · simpa [hEnd, hOtherEnd] using hAfter
        · simp only [hEnd, hOtherEnd, if_true, if_false, append_nil] at hAfter
          exact absurd (hAfter ▸ by simp) hField.2.2
        · simp only [hEnd, hOtherEnd, if_true, if_false, append_nil] at hAfter
          exact absurd (hAfter ▸ by simp) hOther.2.2
        · simp only [hEnd, hOtherEnd, if_false] at hAfter
          rcases Text.append_mark_inj hField.2.2 hOther.2.2 hAfter with ⟨hType, hMore⟩
          refine ⟨hType, ih ?_ ?_ hMore⟩
          · intro f hf
            exact hFields f (mem_cons_of_mem _ hf)
          · intro f hf
            exact hOthers f (mem_cons_of_mem _ hf)
      rw [hRest.2, Prod.ext hName (congrArg TypeName.mk hRest.1)]

-----
-- Shapes And Their Structs
-----

namespace Registry

/- The name of the struct that stands for a shape. -/
def shapeName? (registry : Registry) (fields : List (Text × TypeName)) : Option Text :=
  (registry.ofShape? fields).map Struct.name

theorem shapeName?_of_layouts (registry : Registry) (fields : List (Text × TypeName)) :
    registry.shapeName? fields =
      (registry.layouts.find? fun struct =>
        shapeKey struct.fields == shapeKey fields).map Struct.name := by
  simp [shapeName?, ofShape?, layouts, find?_map, Function.comp_def]

theorem shapeName?_intern (registry : Registry) (fields : List (Text × TypeName)) :
    (registry.intern fields).2.shapeName? fields = some (registry.intern fields).1.text := by
  rcases intern_cases registry fields with ⟨_, hFound, hIntern⟩ | ⟨hNone, hIntern⟩
  · rw [hIntern]
    simp [shapeName?, hFound]
  · rw [hIntern]
    unfold ofShape? at hNone
    simp [shapeName?, ofShape?, push, find?_append, hNone]

theorem exists_of_shapeName?
    {fields : List (Text × TypeName)} (h : registry.shapeName? fields = some name) :
    ∃ struct ∈ registry.structs, struct.name = name ∧ shapeKey struct.fields = shapeKey fields := by
  rcases Option.map_eq_some_iff.mp h with ⟨struct, hFound, hName⟩
  have hKey := find?_some hFound
  exact ⟨struct, mem_of_find?_eq_some hFound, hName, by simpa using hKey⟩

/- Shapes have one struct exactly if they have one key. -/
theorem shapeName?_eq_iff
    (hNames : registry.NamesDistinct) {fields others : List (Text × TypeName)} {other : Text}
    (hFields : registry.shapeName? fields = some name)
    (hOthers : registry.shapeName? others = some other) :
    name = other ↔ shapeKey fields = shapeKey others := by
  constructor
  · rintro rfl
    rcases exists_of_shapeName? hFields with ⟨struct, hStruct, hName, hKey⟩
    rcases exists_of_shapeName? hOthers with ⟨same, hSame, hSameName, hSameKey⟩
    have hEq : struct = same := eq_of_name_eq hNames hStruct hSame (by rw [hName, hSameName])
    rw [← hKey, ← hSameKey, hEq]
  · intro hKey
    have hSame : registry.shapeName? fields = registry.shapeName? others := by
      unfold shapeName? ofShape?
      rw [hKey]
    rw [hFields, hOthers] at hSame
    exact Option.some.inj hSame

end Registry

theorem shapeName?_mono
    {later : List TableEvent} (h : log <+: later)
    (hName : (replay log).registry.shapeName? fields = some name) :
    (replay later).registry.shapeName? fields = some name := by
  rw [Registry.shapeName?_of_layouts] at hName ⊢
  rcases Option.map_eq_some_iff.mp hName with ⟨_, hFound, hEq⟩
  rw [(layouts_mono h).find?_eq_some hFound]
  exact congrArg some hEq

/-
  One of the calls resolved an object type, whose fields were
  decided to be the given ones, to a type.
-/
def ResolvedShape
    (calls : List TypeCall) (fields : List (Text × TypeName)) (type : TypeName) : Prop :=
  ∃ before raw members middle after,
    before ++ [.canonicalize raw] <+: calls ∧ TypeTerm.ofText raw = .shape members ∧
      TypeTerm.evalMembers members (tableAfter before) = .ok fields middle ∧
      canonicalize raw (tableAfter before) = .ok type after

/- A resolved shape keeps its struct. -/
theorem ResolvedShape.shapeName?
    {calls : List TypeCall} {type : TypeName} (h : ResolvedShape calls fields type) :
    (tableAfter calls).registry.shapeName? fields = some type.text := by
  rcases h with ⟨before, raw, _, middle, after, hCalls, hShape, hFields, hType⟩
  rcases hCalls with ⟨rest, rfl⟩
  have hAfter : tableAfter (before ++ [.canonicalize raw]) = after := by
    rw [tableAfter_append]
    simp [TypeCall.run, hType, stateLeft]
  have hIntern : after.registry.shapeName? fields = some type.text := by
    unfold canonicalize at hType
    rw [hShape, eval] at hType
    simp only [bind, EStateM.bind, hFields] at hType
    cases hType
    exact Registry.shapeName?_intern middle.registry fields
  rcases exists_settled_tableAfter (before ++ [.canonicalize raw]) with ⟨_, hLog⟩
  rcases settled_foldl rest hLog with ⟨_, hLater, hSettled⟩
  rw [← tableAfter_append] at hSettled
  rw [← hSettled.2]
  apply shapeName?_mono hLater
  rw [hLog.2, hAfter]
  exact hIntern

/-
  After any calls the names are separate exactly if no name
  of the counter was declared. While struct names are
  distinct, object types have one struct exactly if they have
  one key, and plain ones exactly if they have the same
  fields.
-/
theorem namesSeparate_and_shapes_distinct_iff (calls : List TypeCall) :
    ((tableAfter calls).NamesSeparate ↔
        ∀ count < (tableAfter calls).registry.synthesizedCount,
          synthesizedName count ∉ (tableAfter calls).declaredNames) ∧
      ((tableAfter calls).registry.NamesDistinct →
        ∀ fields others type other, ResolvedShape calls fields type →
          ResolvedShape calls others other →
          (type = other ↔ shapeKey fields = shapeKey others) ∧
            (FieldsPlain fields → FieldsPlain others → (type = other ↔ fields = others))) := by
  rcases exists_settled_tableAfter calls with ⟨log, hLog⟩
  constructor
  · rw [← hLog.2]
    exact namesSeparate_iff hLog.1
  · intro hNames fields others type other hType hOther
    have hKeys : type = other ↔ shapeKey fields = shapeKey others := by
      rw [← Registry.shapeName?_eq_iff hNames hType.shapeName? hOther.shapeName?]
      exact ⟨fun hEq => by rw [hEq], fun hEq => congrArg TypeName.mk hEq⟩
    refine ⟨hKeys, ?_⟩
    intro hFields hOthers
    rw [hKeys, shapeKey_inj hFields hOthers]

-----
-- A Declared Name Of The Counter
-----

/- An object type with one field of a type that is a plain name. -/
theorem resolvedShape_singleton
    {calls : List TypeCall} (before : List TypeCall) (raw : Text) {spelling : Text}
    {type : TypeName} (hCalls : before ++ [.canonicalize raw] <+: calls)
    (hForm : TypeForm.ofText raw = .shape [(name, spelling)])
    (hField : TypeForm.ofText spelling = .named spelling)
    (hAlias : (tableAfter before).alias? spelling = none) (hWord : spelling.isIdentifier = true)
    (hType : ((tableAfter before).registry.intern [(name, ⟨spelling⟩)]).1 = type) :
    ResolvedShape calls [(name, ⟨spelling⟩)] type := by
  have hShape : ofText raw = .shape [(name, .named spelling spelling)] := by
    rw [ofText_eq_term, hForm]
    simp [TypeForm.term, ofText_eq_term spelling, hField]
  have hFields :
      evalMembers [(name, .named spelling spelling)] (tableAfter before) =
        .ok [(name, ⟨spelling⟩)] (tableAfter before) := by
    have hGet : ∀ table, (get : TypeM TypeTable) table = .ok table table := fun _ => rfl
    simp [evalMembers, eval, namedType, bind, EStateM.bind, hGet, pure, EStateM.pure, hAlias, hWord]
  have hResolved :
      canonicalize raw (tableAfter before) =
        .ok type
          { tableAfter before with
            registry :=
              ((tableAfter before).registry.intern [(name, ⟨spelling⟩)]).2 } := by
    unfold canonicalize
    rw [hShape, eval, ← hType]
    simp only [bind, EStateM.bind, hFields]
    rfl
  exact ⟨before, raw, _, _, _, hCalls, hShape, hFields, hResolved⟩

/- An interface with one field. -/
def interfaceOf (name field spelling : Text) : Interface :=
  ⟨name, [⟨field, ⟨spelling, Span.nowhere⟩, false, false, false, Span.nowhere⟩]⟩

/- A declared struct and two object types of other shapes. -/
def pointCalls : List TypeCall :=
  [.declareInterface (interfaceOf "Point" "x" "u8"), .canonicalize "{ y: u16 }",
    .canonicalize "{ z: u32 }"]

/- The two object types get a struct each. -/
theorem pointCalls_namesSeparate :
    (tableAfter pointCalls).NamesSeparate ∧
      ResolvedShape pointCalls [("y", ⟨"u16"⟩)] ⟨"anon_struct_0"⟩ ∧
      ResolvedShape pointCalls [("z", ⟨"u32"⟩)] ⟨"anon_struct_1"⟩ ∧
      (⟨"anon_struct_0"⟩ : TypeName) ≠ ⟨"anon_struct_1"⟩ := by
  have hFirst : ResolvedShape pointCalls [("y", ⟨"u16"⟩)] ⟨"anon_struct_0"⟩ :=
    resolvedShape_singleton (pointCalls.take 1) "{ y: u16 }" ⟨pointCalls.drop 2, rfl⟩
      (by decide +kernel) (by decide +kernel) (by decide +kernel)
      (by decide) (by decide +kernel)
  have hSecond : ResolvedShape pointCalls [("z", ⟨"u32"⟩)] ⟨"anon_struct_1"⟩ :=
    resolvedShape_singleton (pointCalls.take 2) "{ z: u32 }" ⟨[], rfl⟩
      (by decide +kernel) (by decide +kernel) (by decide +kernel)
      (by decide) (by decide +kernel)
  have hSeparate : (tableAfter pointCalls).NamesSeparate :=
    (namesSeparate_and_shapes_distinct_iff pointCalls).1.mpr (by decide +kernel)
  refine ⟨hSeparate, hFirst, hSecond, ?_⟩
  intro hEq
  have hFields :=
    (((namesSeparate_and_shapes_distinct_iff pointCalls).2
      hSeparate.distinct _ _ _ _ hFirst hSecond).2 (by decide) (by decide)).mp hEq
  exact absurd hFields (by decide)

/- A struct is declared under the first name of the counter. -/
def counterNameCalls : List TypeCall :=
  [.declareInterface (interfaceOf "anon_struct_0" "x" "u8"), .canonicalize "{ x: u8 }",
    .canonicalize "{ y: u16 }"]

/-
  Here two structs have one name, and two object types with
  different fields have one type.
-/
theorem counterNameCalls_shapes_clash :
    ¬ (tableAfter counterNameCalls).registry.NamesDistinct ∧
      ResolvedShape counterNameCalls [("x", ⟨"u8"⟩)] ⟨"anon_struct_0"⟩ ∧
      ResolvedShape counterNameCalls [("y", ⟨"u16"⟩)] ⟨"anon_struct_0"⟩ := by
  refine ⟨by decide +kernel, ?_, ?_⟩
  · exact
      resolvedShape_singleton (counterNameCalls.take 1) "{ x: u8 }" ⟨counterNameCalls.drop 2, rfl⟩
        (by decide +kernel) (by decide +kernel)
        (by decide +kernel) (by decide) (by decide +kernel)
  · exact
      resolvedShape_singleton (counterNameCalls.take 2) "{ y: u16 }" ⟨[], rfl⟩
        (by decide +kernel) (by decide +kernel)
        (by decide +kernel) (by decide) (by decide +kernel)

end ScriptLowering
