import ScriptLowering.Proofs.Preservation

/-
  What a call leaves of a type table, whether it succeeds or
  not. Deciding types adds structs that are synthesized, and
  a declaration adds one more struct or an alias only after
  all that may fail, so a call that fails declares nothing.

  Key theorems include:
    * `TypeTable.KeptBy.bind`
    * `failed_calls_declare_nothing`
-/

namespace ScriptLowering

namespace TypeTable

-----
-- Interned Structs
-----

/- Nothing but synthesized structs without use was added to a table. -/
structure Interned (start table : TypeTable) : Prop where
  aliases_eq : table.aliases = start.aliases
  structs :
    ∃ added,
      table.registry.structs = start.registry.structs ++ added ∧
        ∀ struct ∈ added, struct.origin = .synthesized ∧ struct.used = false

variable {start table : TypeTable}

theorem Interned.refl (start : TypeTable) :
    start.Interned start :=
  ⟨rfl, [], (List.append_nil _).symm, List.forall_mem_nil _⟩

theorem keptByInterning_interned (start : TypeTable) :
    KeptByInterning start.Interned := by
  apply KeptByInterning.of_push
  rintro table fields ⟨hAliases, added, hStructs, hAdded⟩
  refine ⟨hAliases, added ++ [⟨table.registry.nextName, fields, .synthesized, false⟩], ?_, ?_⟩
  · rw [← List.append_assoc, ← hStructs]
    rfl
  · exact List.forall_mem_append.mpr ⟨hAdded, List.forall_mem_singleton.mpr ⟨rfl, rfl⟩⟩

-----
-- Kept Tables
-----

/-
  A call keeps the structs of a table in their places, and
  the aliases with their targets. What it adds is not used;
  if it fails, it adds synthesized structs only.
-/
structure Keeps
    (start : TypeTable) (result : EStateM.Result TypeError TypeTable TypeName) : Prop where
  structs :
    ∃ added,
      (stateLeft result).registry.structs = start.registry.structs ++ added ∧
        (∀ struct ∈ added, struct.used = false) ∧
        ∀ error last, result = .error error last → ∀ struct ∈ added, struct.origin = .synthesized
  targets :
    ∀ name target, start.alias? name = some target → (stateLeft result).alias? name = some target
  aliases :
    ∀ error last, result = .error error last → last.aliases = start.aliases

theorem Interned.alias?_eq (h : start.Interned table) (name : Text) :
    table.alias? name = start.alias? name := by
  rw [alias?, h.aliases_eq, alias?]

/- A call is kept to that from all that deciding types leads to. -/
def KeptBy (start : TypeTable) (call : TypeM TypeName) : Prop :=
  ∀ {table}, start.Interned table → start.Keeps (call table)

variable {call : TypeM TypeName}

/- Deciding types declares nothing. -/
theorem KeptBy.of_preserves (h : Preserves start.Interned call fun _ => True) :
    start.KeptBy call := by
  intro table hTable
  have hLeft := h.kept hTable
  refine ⟨?_, ?_, ?_⟩
  · rcases hLeft.structs with ⟨added, hStructs, hAdded⟩
    exact
      ⟨added, hStructs, fun struct hStruct => (hAdded struct hStruct).2,
        fun _ _ _ struct hStruct => (hAdded struct hStruct).1⟩
  · intro name target hTarget
    exact (hLeft.alias?_eq name).trans hTarget
  · intro error last hRun
    rw [hRun] at hLeft
    exact hLeft.aliases_eq

theorem KeptBy.throw {error : TypeError} :
    start.KeptBy (MonadExcept.throw error) :=
  KeptBy.of_preserves .throw

/- What comes first decides types only, and the rest may declare. -/
theorem KeptBy.bind
    {α : Type} {property : α → Prop} {first : TypeM α} {next : α → TypeM TypeName}
    (hFirst : Preserves start.Interned first property)
    (hNext : ∀ value, property value → start.KeptBy (next value)) :
    start.KeptBy (first >>= next) := by
  intro table hTable
  have hKept := hFirst.kept hTable
  show start.Keeps (EStateM.bind first next table)
  unfold EStateM.bind
  cases hRun : first table with
  | error =>
    rw [hRun] at hKept
    exact KeptBy.throw hKept
  | ok value =>
    rw [hRun] at hKept
    exact hNext value (hFirst.gives hTable hRun) hKept

-----
-- Declarations
-----

/- A struct is declared as the last thing, or not at all. -/
theorem keptBy_declareStruct (start : TypeTable) (name : Text) (fields : List (Text × TypeName)) :
    start.KeptBy (declareStruct name fields) := by
  apply KeptBy.bind Preserves.get
  intro table hTable
  split
  · exact KeptBy.throw
  · next registry hDeclare =>
    rcases Registry.declare_eq_ok hDeclare with ⟨_, rfl⟩
    rcases hTable.structs with ⟨added, hStructs, hAdded⟩
    intro middle _
    refine
      ⟨⟨added ++ [⟨name, fields, .declared, false⟩], ?_, ?_, nofun⟩,
        fun other target hTarget => (hTable.alias?_eq other).trans hTarget,
        nofun⟩
    · rw [← List.append_assoc, ← hStructs]
      rfl
    · exact List.forall_mem_append.mpr
        ⟨fun struct hStruct => (hAdded struct hStruct).2, List.forall_mem_singleton.mpr rfl⟩

/- An alias hides no other: its name had no target. -/
theorem keptBy_addAlias {name : Text} (hFree : start.alias? name = none) (target : TypeName) :
    start.KeptBy (addAlias name target) := by
  intro table hTable
  rcases hTable.structs with ⟨added, hStructs, hAdded⟩
  refine ⟨⟨added, hStructs, fun struct hStruct => (hAdded struct hStruct).2, nofun⟩, ?_, nofun⟩
  intro other found hFound
  have hOther : (other == name) = false := by
    apply beq_eq_false_iff_ne.mpr
    rintro rfl
    rw [hFree] at hFound
    cases hFound
  show ((name, target) :: table.aliases).lookup other = some found
  rw [List.lookup_cons, hOther]
  exact (hTable.alias?_eq other).trans hFound

theorem keptBy_declareInterface (start : TypeTable) (decl : Interface) :
    start.KeptBy (declareInterface decl) := by
  apply KeptBy.bind Preserves.get
  intro table _
  split
  · exact KeptBy.throw
  · apply KeptBy.bind (preserves_interfaceFields_of_intern (keptByInterning_interned start) _ _)
    intro fields _
    split
    · exact KeptBy.throw
    · exact start.keptBy_declareStruct _ _

theorem keptBy_declareAlias (start : TypeTable) (decl : TypeAlias) :
    start.KeptBy (declareAlias decl) := by
  have hKept := keptByInterning_interned start
  apply KeptBy.bind Preserves.get
  intro table hTable
  split
  · exact KeptBy.throw
  · next hTaken =>
    have hFree : start.alias? decl.name = none := by
      rw [← hTable.alias?_eq]
      simp_all [isTypeName]
    split
    · apply KeptBy.bind (preserves_evalMembers_of_intern hKept _)
      intro fields _
      exact start.keptBy_declareStruct _ _
    · apply KeptBy.bind (preserves_eval_of_intern hKept _)
      intro target _
      exact keptBy_addAlias hFree target

end TypeTable

/-
  Whatever is asked of a type table, and however it ends,
  what was there stays as it was, and what is added is not
  used. What fails declares nothing.
-/
theorem failed_calls_declare_nothing (table : TypeTable) :
    (∀ raw, table.Keeps (TypeTable.canonicalize raw table)) ∧
      (∀ decl, table.Keeps (TypeTable.declareInterface decl table)) ∧
      ∀ decl, table.Keeps (TypeTable.declareAlias decl table) := by
  refine ⟨?_, ?_, ?_⟩
  · intro raw
    have hDecided :=
      preserves_eval_of_intern (TypeTable.keptByInterning_interned table) (TypeTerm.ofText raw)
    exact TypeTable.KeptBy.of_preserves hDecided (.refl table)
  · intro decl
    exact table.keptBy_declareInterface decl (.refl table)
  · intro decl
    exact table.keptBy_declareAlias decl (.refl table)

end ScriptLowering
