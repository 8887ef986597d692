import ScriptLowering.Proofs.Marking
import ScriptLowering.Proofs.StructNames

/-
  One struct for one field list. Beside the structs stand a
  table of their names, a table of their keys and a counter,
  and each call changes what it has to. The tables and the
  counter always tell what the structs tell, so whatever was
  declared, interned and marked before, as long as keys tell
  field lists apart, a field list stands for the first struct
  that has it, and a struct is added only if there is none.

  Key theorems include:
    * `StructTables.isSound_tablesAfter`
    * `intern_gives_first_or_adds_one`
-/

namespace ScriptLowering

open List

-----
-- Calls
-----

/- What a registry is asked to do. -/
inductive RegistryCall where
  | declare (name : Text) (fields : List (Text × TypeName))
  | intern (fields : List (Text × TypeName))
  | markUsed (type : TypeName)

namespace RegistryCall

/- The field list that a call brings along. -/
def fields : RegistryCall → List (Text × TypeName)
  | .declare _ fields => fields
  | .intern fields => fields
  | .markUsed _ => []

/- The registry after a call. A failed declaration changes nothing. -/
def run (registry : Registry) : RegistryCall → Registry
  | .declare name fields =>
      match registry.declare name fields with
      | .ok declared => declared
      | .error _ => registry
  | .intern fields => (registry.intern fields).2
  | .markUsed type => registry.markUsed type

/- A call adds at most a struct with the fields that it brings. -/
theorem exists_layouts_run (registry : Registry) (call : RegistryCall) :
    ∃ added : List Struct,
      (call.run registry).layouts = registry.layouts ++ added ∧
        ∀ struct ∈ added, struct.fields = call.fields := by
  cases call with
  | declare name fields =>
    cases hDeclare : registry.declare name fields with
    | ok =>
      rcases Registry.declare_eq_ok hDeclare with ⟨_, hPush⟩
      simp only [run, hDeclare, hPush, Registry.layouts_push]
      exact ⟨_, rfl, forall_mem_singleton.mpr rfl⟩
    | error =>
      simp only [run, hDeclare]
      exact ⟨[], by simp, forall_mem_nil _⟩
  | intern fields =>
    rcases Registry.intern_cases registry fields with ⟨_, _, hIntern⟩ | ⟨_, hIntern⟩
    · simp only [run, hIntern]
      exact ⟨[], by simp, forall_mem_nil _⟩
    · simp only [run, hIntern, Registry.layouts_push]
      exact ⟨_, rfl, forall_mem_singleton.mpr rfl⟩
  | markUsed type =>
    refine ⟨[], ?_, forall_mem_nil _⟩
    rw [append_nil]
    exact registry.layouts_markUsed type

end RegistryCall

/- The registry after some calls on an empty one. -/
def registryAfter (calls : List RegistryCall) : Registry :=
  calls.foldl RegistryCall.run Registry.empty

namespace Registry

variable {registry : Registry} {fields : List (Text × TypeName)}

/- Several calls add structs with the fields of some of them. -/
theorem exists_layouts_foldl (calls : List RegistryCall) (registry : Registry) :
    ∃ added : List Struct,
      (calls.foldl RegistryCall.run registry).layouts = registry.layouts ++ added ∧
        ∀ struct ∈ added, ∃ call ∈ calls, struct.fields = call.fields := by
  induction calls generalizing registry with
  | nil => exact ⟨[], by simp, forall_mem_nil _⟩
  | cons call _ ih =>
    rcases call.exists_layouts_run registry with ⟨first, hFirst, hFields⟩
    rcases ih (call.run registry) with ⟨more, hMore, hRest⟩
    refine ⟨first ++ more, ?_, ?_⟩
    · rw [foldl_cons, hMore, hFirst, append_assoc]
    · intro struct hStruct
      rcases mem_append.mp hStruct with hNew | hLater
      · exact ⟨call, mem_cons_self, hFields struct hNew⟩
      · rcases hRest struct hLater with ⟨other, hOther, hEq⟩
        exact ⟨other, mem_cons_of_mem _ hOther, hEq⟩

-----
-- Structs With Plain Fields
-----

/- All structs have field lists that are told apart by their keys. -/
def HasPlainFields (registry : Registry) : Prop :=
  ∀ struct ∈ registry.structs, FieldsPlain struct.fields

theorem hasPlainFields_registryAfter
    {calls : List RegistryCall} (h : ∀ call ∈ calls, FieldsPlain call.fields) :
    (registryAfter calls).HasPlainFields := by
  rcases exists_layouts_foldl calls Registry.empty with ⟨_, hAdded, hFields⟩
  intro struct hStruct
  have hLayout : { struct with used := false } ∈ (registryAfter calls).layouts :=
    mem_map_of_mem hStruct
  rw [registryAfter, hAdded] at hLayout
  rcases hFields _ hLayout with ⟨call, hCall, hEq⟩
  exact hEq ▸ h call hCall

/- The first struct with a field list is the one of its shape. -/
theorem ofShape?_eq_some_of_plain
    (hPlain : registry.HasPlainFields) (hFields : FieldsPlain fields) {before after : List Struct}
    {struct : Struct} (hStructs : registry.structs = before ++ struct :: after)
    (hStruct : struct.fields = fields) (hBefore : ∀ earlier ∈ before, earlier.fields ≠ fields) :
    registry.ofShape? fields = some struct := by
  refine find?_eq_some_iff_append.mpr ⟨by simp [hStruct], before, after, hStructs, ?_⟩
  intro earlier hEarlier
  have hMem : earlier ∈ registry.structs := by
    rw [hStructs]
    exact mem_append_left _ hEarlier
  have hKey := shapeKey_inj (hPlain earlier hMem) hFields
  simpa [hKey] using hBefore earlier hEarlier

theorem ofShape?_eq_none_of_plain
    (hPlain : registry.HasPlainFields) (hFields : FieldsPlain fields)
    (h : ∀ struct ∈ registry.structs, struct.fields ≠ fields) :
    registry.ofShape? fields = none := by
  apply find?_eq_none.mpr
  intro struct hStruct
  have hKey := shapeKey_inj (hPlain struct hStruct) hFields
  simpa [hKey] using h struct hStruct

-----
-- Names That Stay
-----

/- The name for a shape stays while structs are added behind. -/
theorem shapeName?_of_layouts_append
    {later : Registry} {added : List Struct} (hLayouts : later.layouts = registry.layouts ++ added)
    {name : Text} (hName : registry.shapeName? fields = some name) :
    later.shapeName? fields = some name := by
  rw [shapeName?_of_layouts] at hName ⊢
  rcases Option.map_eq_some_iff.mp hName with ⟨_, hFound, rfl⟩
  rw [hLayouts, find?_append, hFound]
  rfl

theorem intern_of_shapeName? {name : Text} (h : registry.shapeName? fields = some name) :
    (registry.intern fields).1 = ⟨name⟩ := by
  rcases Option.map_eq_some_iff.mp h with ⟨_, hFound, rfl⟩
  simp [intern, hFound]

/- Once a field list was interned, its name is given again. -/
theorem intern_foldl_intern
    (registry : Registry) (fields : List (Text × TypeName)) (later : List RegistryCall) :
    ((later.foldl RegistryCall.run (registry.intern fields).2).intern fields).1 =
      (registry.intern fields).1 := by
  rcases exists_layouts_foldl later (registry.intern fields).2 with ⟨_, hAdded, _⟩
  exact intern_of_shapeName?
    (shapeName?_of_layouts_append hAdded (shapeName?_intern registry fields))

end Registry

-----
-- Tables
-----

/-
  Structs with what is kept beside them: the place of the
  struct that a name stands for, the place of the struct that
  a key stands for, and the number of the next struct that is
  synthesized.
-/
structure StructTables where
  structs : List Struct
  byName : Text → Option Nat
  byShape : Text → Option Nat
  nextNumber : Nat

theorem lastIndex?_concat (name : Text) (structs : List Struct) (struct : Struct) :
    lastIndex? name (structs ++ [struct]) =
      if struct.name = name then some structs.length else lastIndex? name structs := by
  induction structs with
  | nil => rfl
  | cons _ _ ih => by_cases hName : struct.name = name <;> simp [lastIndex?, ih, hName]

namespace StructTables

def empty : StructTables :=
  ⟨[], fun _ => none, fun _ => none, 0⟩

/- The structs alone. -/
def registry (tables : StructTables) : Registry :=
  ⟨tables.structs⟩

/- A struct behind the others takes over its name. -/
def push (tables : StructTables) (struct : Struct) : StructTables :=
  { tables with
    structs := tables.structs ++ [struct]
    byName :=
      Function.update tables.byName struct.name (some tables.structs.length) }

/- A key stays with the first struct that is declared for it. -/
def declare (tables : StructTables) (name : Text) (fields : List (Text × TypeName)) :
    Except TypeError StructTables :=
  match tables.byName name with
  | some _ => .error (.redeclared name)
  | none =>
      let index :=
        (tables.byShape (shapeKey fields)).getD tables.structs.length
      .ok
        { tables.push ⟨name, fields, .declared, false⟩ with
          byShape :=
            Function.update tables.byShape (shapeKey fields) (some index) }

/- The struct of a key, or a new one under the next number. -/
def intern (tables : StructTables) (fields : List (Text × TypeName)) : TypeName × StructTables :=
  let found? :=
    (tables.byShape (shapeKey fields)).bind fun index =>
      tables.structs[index]?
  match found? with
  | some struct => (⟨struct.name⟩, tables)
  | none =>
      let name := synthesizedName tables.nextNumber
      (⟨name⟩,
        { tables.push ⟨name, fields, .synthesized, false⟩ with
          byShape :=
            Function.update tables.byShape (shapeKey fields) (some tables.structs.length)
          nextNumber := tables.nextNumber + 1 })

/- Words find their structs in the table of names. -/
def markUsed (tables : StructTables) (type : TypeName) : StructTables :=
  let expansion :=
    { tables.registry.useExpansion with asks := tables.byName }
  let used :=
    (expansion.run tables.structs.length tables.registry.usedIndices type.referencedNames).opened
  { tables with
    structs := tables.structs.mapIdx fun index struct =>
      { struct with used := used.contains index } }

/- The tables after a call. A failed declaration changes nothing. -/
def perform (tables : StructTables) : RegistryCall → StructTables
  | .declare name fields =>
      match tables.declare name fields with
      | .ok declared => declared
      | .error _ => tables
  | .intern fields => (tables.intern fields).2
  | .markUsed type => tables.markUsed type

/-
  The tables tell what the structs tell: the last struct of a
  name, the first struct of a key, and how many structs were
  synthesized.
-/
structure IsSound (tables : StructTables) : Prop where
  byName : tables.byName = tables.registry.index?
  byShape :
    ∀ fields, tables.byShape (shapeKey fields) = tables.registry.shapeIndex? fields
  nextNumber :
    tables.nextNumber = tables.registry.synthesizedCount

variable {tables : StructTables}

theorem isSound_empty :
    empty.IsSound :=
  ⟨rfl, fun _ => rfl, rfl⟩

/- One more struct, which stands for its key if none did. -/
theorem IsSound.push
    (h : tables.IsSound) {struct : Struct} {index number : Nat}
    (hIndex : index = (tables.byShape (shapeKey struct.fields)).getD tables.structs.length)
    (hNumber : number = tables.nextNumber + if struct.origin = .synthesized then 1 else 0) :
    { tables.push struct with
      byShape := Function.update tables.byShape (shapeKey struct.fields) (some index)
      nextNumber := number }.IsSound := by
  constructor
  · funext name
    show Function.update tables.byName _ _ name = lastIndex? name (tables.structs ++ [struct])
    rw [lastIndex?_concat, h.byName, Function.update_apply]
    simp only [eq_comm]
    rfl
  · intro fields
    have hOld := h.byShape fields
    show Function.update tables.byShape _ _ _ = findIdx? _ (tables.structs ++ [struct])
    rw [findIdx?_append, Function.update_apply, hIndex]
    unfold Registry.shapeIndex? registry at hOld
    rw [← hOld]
    by_cases hKey : shapeKey struct.fields = shapeKey fields
    · rw [hKey, if_pos rfl]
      cases tables.byShape (shapeKey fields) <;> simp [hKey]
    · simp [hKey, Ne.symm hKey]
  · show number = countP _ (tables.structs ++ [struct])
    rw [hNumber, h.nextNumber, countP_append]
    cases hOrigin : struct.origin <;> simp [Registry.synthesizedCount, registry, hOrigin]

/- A declaration goes as it does with the structs alone. -/
theorem IsSound.declare (h : tables.IsSound) (name : Text) (fields : List (Text × TypeName)) :
    (tables.declare name fields).map registry = tables.registry.declare name fields ∧
      ∀ later, tables.declare name fields = .ok later → later.IsSound := by
  unfold StructTables.declare Registry.declare Registry.contains
  rw [h.byName]
  cases tables.registry.index? name with
  | some => exact ⟨rfl, nofun⟩
  | none =>
    refine ⟨rfl, ?_⟩
    rintro _ ⟨⟩
    exact h.push rfl rfl

/- A key that has a place has a struct there. -/
theorem IsSound.ofShape?_eq (h : tables.IsSound) (fields : List (Text × TypeName)) :
    ((tables.byShape (shapeKey fields)).bind fun index => tables.structs[index]?) =
      tables.registry.ofShape? fields := by
  rw [h.byShape]
  exact find?_eq_bind_findIdx?_getElem?.symm

theorem IsSound.intern (h : tables.IsSound) (fields : List (Text × TypeName)) :
    (tables.intern fields).map id registry = tables.registry.intern fields ∧
      (tables.intern fields).2.IsSound := by
  unfold StructTables.intern Registry.intern
  rw [h.ofShape?_eq]
  cases hFound : tables.registry.ofShape? fields with
  | some => exact ⟨rfl, h⟩
  | none =>
    have hName : synthesizedName tables.nextNumber = tables.registry.nextName := by
      rw [h.nextNumber]
      rfl
    have hNone : tables.byShape (shapeKey fields) = none := by
      rw [h.byShape]
      exact findIdx?_eq_none_iff.mpr (by simpa [Registry.ofShape?] using hFound)
    refine ⟨by rw [← hName]; rfl, h.push ?_ rfl⟩
    rw [hNone]
    rfl

theorem IsSound.markUsed (h : tables.IsSound) (type : TypeName) :
    (tables.markUsed type).registry = tables.registry.markUsed type ∧
      (tables.markUsed type).IsSound := by
  have hRegistry : (tables.markUsed type).registry = tables.registry.markUsed type := by
    unfold StructTables.markUsed
    rw [h.byName]
    rfl
  have hLayouts := tables.registry.layouts_markUsed type
  refine ⟨hRegistry, ?_, ?_, ?_⟩
  · rw [hRegistry]
    exact h.byName.trans (funext fun name => (Registry.index?_of_layouts hLayouts name).symm)
  · intro fields
    rw [hRegistry, Registry.shapeIndex?_of_layouts hLayouts]
    exact h.byShape fields
  · rw [hRegistry, Registry.synthesizedCount_eq_length, Registry.synthesizedNames_markUsed,
      ← Registry.synthesizedCount_eq_length]
    exact h.nextNumber

/- The structs go through a call as they do alone. -/
theorem IsSound.perform (h : tables.IsSound) (call : RegistryCall) :
    (tables.perform call).registry = call.run tables.registry ∧ (tables.perform call).IsSound := by
  cases call with
  | declare name fields =>
    rcases h.declare name fields with ⟨hSame, hSound⟩
    cases hDeclare : tables.declare name fields with
    | ok later =>
      rw [hDeclare] at hSame
      simp only [StructTables.perform, RegistryCall.run, hDeclare, ← hSame]
      exact ⟨rfl, hSound later hDeclare⟩
    | error =>
      rw [hDeclare] at hSame
      simp only [StructTables.perform, RegistryCall.run, hDeclare, ← hSame]
      exact ⟨rfl, h⟩
  | intern fields =>
    rcases h.intern fields with ⟨hSame, hSound⟩
    exact ⟨congrArg Prod.snd hSame, hSound⟩
  | markUsed type => exact h.markUsed type

end StructTables

/- The tables after some calls on empty ones. -/
def tablesAfter (calls : List RegistryCall) : StructTables :=
  calls.foldl StructTables.perform StructTables.empty

/- Through all calls the tables are sound, and go with the structs. -/
theorem StructTables.isSound_tablesAfter (calls : List RegistryCall) :
    (tablesAfter calls).registry = registryAfter calls ∧ (tablesAfter calls).IsSound := by
  induction calls using reverseRecOn with
  | nil => exact ⟨rfl, isSound_empty⟩
  | append_singleton calls call ih =>
    unfold tablesAfter registryAfter at ih ⊢
    rw [foldl_concat, foldl_concat, ← ih.1]
    exact ih.2.perform call

/-
  After any calls with plain field lists, a plain field list
  is interned as the first struct that has it, declared or
  synthesized, and no table changes. If no struct has it, one
  is synthesized behind all others, unused and numbered by how
  many were synthesized before; the name and the key get their
  entries, the counter goes on, and nothing else changes.
  Whatever is called later, with plain field lists or not, the
  same name is given again.
-/
theorem intern_gives_first_or_adds_one
    {calls : List RegistryCall} {fields : List (Text × TypeName)}
    (hCalls : ∀ call ∈ calls, FieldsPlain call.fields) (hFields : FieldsPlain fields) :
    (∀ before struct after,
      (tablesAfter calls).structs = before ++ struct :: after → struct.fields = fields →
        (∀ earlier ∈ before, earlier.fields ≠ fields) →
        (tablesAfter calls).intern fields = (⟨struct.name⟩, tablesAfter calls)) ∧
      ((∀ struct ∈ (tablesAfter calls).structs, struct.fields ≠ fields) →
        ∀ count,
          (tablesAfter calls).structs.countP (fun struct => struct.origin == .synthesized) = count →
          (tablesAfter calls).intern fields =
            (⟨synthesizedName count⟩,
              { structs :=
                  (tablesAfter calls).structs ++
                    [⟨synthesizedName count, fields, .synthesized, false⟩]
                byName :=
                  Function.update (tablesAfter calls).byName (synthesizedName count)
                    (some (tablesAfter calls).structs.length)
                byShape :=
                  Function.update (tablesAfter calls).byShape (shapeKey fields)
                    (some (tablesAfter calls).structs.length)
                nextNumber := count + 1 })) ∧
      ∀ later,
        ((tablesAfter (calls ++ .intern fields :: later)).intern fields).1 =
          ((tablesAfter calls).intern fields).1 := by
  rcases StructTables.isSound_tablesAfter calls with ⟨hSame, hSound⟩
  have hPlain := Registry.hasPlainFields_registryAfter hCalls
  rw [← hSame] at hPlain
  have hLookup := hSound.ofShape?_eq fields
  refine ⟨?_, ?_, ?_⟩
  · intro before struct after hStructs hStruct hBefore
    rw [Registry.ofShape?_eq_some_of_plain hPlain hFields hStructs hStruct hBefore] at hLookup
    simp [StructTables.intern, hLookup]
  · rintro hNone _ rfl
    rw [Registry.ofShape?_eq_none_of_plain hPlain hFields hNone] at hLookup
    have hCount := hSound.nextNumber
    simp only [StructTables.intern, hLookup, hCount]
    rfl
  · intro later
    -- The structs alone give the names, and they give them again.
    have hAnswer :
        ∀ calls, ((tablesAfter calls).intern fields).1 =
          ((registryAfter calls).intern fields).1 := by
      intro calls
      rcases StructTables.isSound_tablesAfter calls with ⟨hSame, hSound⟩
      rw [← hSame]
      exact congrArg Prod.fst (hSound.intern fields).1
    rw [hAnswer, hAnswer, registryAfter, List.foldl_append]
    exact Registry.intern_foldl_intern _ fields later

/- A declared struct, and another one with its fields turned round. -/
def turnedPointCalls : List RegistryCall :=
  [ .declare "Point" [("x", ⟨"i32"⟩), ("y", ⟨"i32"⟩)], .intern [("y", ⟨"i32"⟩), ("x", ⟨"i32"⟩)],
    .markUsed ⟨"Point"⟩ ]

theorem intern_gives_declared_point :
    (∀ call ∈ turnedPointCalls, FieldsPlain call.fields) ∧
      FieldsPlain [("x", ⟨"i32"⟩), ("y", ⟨"i32"⟩)] ∧
      (tablesAfter turnedPointCalls).intern [("x", ⟨"i32"⟩), ("y", ⟨"i32"⟩)] =
        (⟨"Point"⟩, tablesAfter turnedPointCalls) ∧
      FieldsPlain [("x", ⟨"u8"⟩)] ∧
      ((tablesAfter turnedPointCalls).intern [("x", ⟨"u8"⟩)]).1 = ⟨"anon_struct_1"⟩ := by
  have hCalls : ∀ call ∈ turnedPointCalls, FieldsPlain call.fields := by decide
  have hFields : FieldsPlain [("x", ⟨"i32"⟩), ("y", ⟨"i32"⟩)] := by decide
  have hOther : FieldsPlain [("x", ⟨"u8"⟩)] := by decide
  refine ⟨hCalls, hFields, ?_, hOther, ?_⟩
  · exact (intern_gives_first_or_adds_one hCalls hFields).1 []
      ⟨"Point", [("x", ⟨"i32"⟩), ("y", ⟨"i32"⟩)], .declared, true⟩
      [⟨"anon_struct_0", [("y", ⟨"i32"⟩), ("x", ⟨"i32"⟩)], .synthesized, false⟩]
      (by decide) rfl (List.forall_mem_nil _)
  · rw [(intern_gives_first_or_adds_one hCalls hOther).2.1 (by decide) 1 (by decide)]
    decide

end ScriptLowering
