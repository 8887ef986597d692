import ScriptLowering.Proofs.Registry

/-
  Marks in any order. In a registry whose used structs name
  used structs only, the marking of a type adds the structs
  that its words lead to, and nothing else. So what several
  markings add does not depend on their order.

  Key theorems include:
    * `Registry.mem_usedIndices_marked_iff`
    * `Registry.marked_perm`
-/

namespace ScriptLowering

namespace Registry

variable {registry : Registry}

-----
-- Closed Registries
-----

/- What the fields of used structs name is used. -/
def IsClosed (registry : Registry) : Prop :=
  ∀ index ∈ registry.usedIndices,
    ∀ other ∈ registry.fieldIndices index, other ∈ registry.usedIndices

/- A struct names another one in its fields. -/
def Names (registry : Registry) (index other : Nat) : Prop :=
  other ∈ registry.fieldIndices index

/- Names lead to their structs, and to what these name in turn. -/
def Leads (registry : Registry) (names : List Text) (index : Nat) : Prop :=
  ∃ name ∈ names, ∃ first,
    registry.index? name = some first ∧ Relation.ReflTransGen registry.Names first index

variable {index : Nat} {names : List Text} {type : TypeName}

theorem Leads.lt (h : registry.Leads names index) :
    index < registry.structs.length := by
  rcases h with ⟨_, _, _, hFirst, hPath⟩
  rcases hPath.cases_tail with rfl | ⟨_, _, hEdge⟩
  · exact index?_lt hFirst
  · rcases mem_fieldIndices_iff.mp hEdge with ⟨_, _, _, _, hIndex⟩
    exact index?_lt hIndex

theorem usedIndices_lt (h : index ∈ registry.usedIndices) :
    index < registry.structs.length := by
  rcases mem_usedIndices_iff.mp h with ⟨_, hAt, _⟩
  exact (List.getElem?_eq_some_iff.mp hAt).1

/- All that the names lead to is used with them. -/
theorem mem_usedWith_iff (hClosed : registry.IsClosed) :
    index ∈ registry.usedWith names ↔
      index ∈ registry.usedIndices ∨ registry.Leads names index := by
  have hExpands := registry.expands_use names
  have hFollows := registry.follows_use
  constructor
  · intro hMem
    rcases (hExpands.mem_opened_iff hFollows index).mp hMem with
      hOld | ⟨name, hName, first, hAsks, _, hPath⟩
    · exact .inl hOld
    · refine .inr ⟨name, hName, first, hAsks, ?_⟩
      exact .mono (fun _ _ h => h.1) _ _ hPath
  · rintro (hOld | ⟨_, hName, _, hAsks, hPath⟩)
    · exact usedIndices_subset_usedWith registry names hOld
    · induction hPath with
      | refl => exact hExpands.mem_opened_of_asks hName hAsks
      | @tail node neighbour _ hEdge ih =>
        -- The chain goes on from a used struct, or from a new one.
        by_cases hOld : node ∈ registry.usedIndices
        · exact usedIndices_subset_usedWith registry names (hClosed node hOld neighbour hEdge)
        · exact hExpands.mem_opened_of_edge hFollows ih hOld hEdge

-----
-- Markings Of A Closed Registry
-----

@[simp] theorem markUsed_fieldIndices (registry : Registry) (type : TypeName) :
    (registry.markUsed type).fieldIndices = registry.fieldIndices := by
  have hLookup : (registry.markUsed type).index? = registry.index? :=
    funext (markUsed_index? registry type)
  funext index
  unfold fieldIndices
  rw [markUsed_getElem?, hLookup, Option.map_map]
  rfl

theorem leads_markUsed_iff :
    (registry.markUsed type).Leads names index ↔ registry.Leads names index := by
  unfold Leads Names
  simp only [markUsed_index?, markUsed_fieldIndices]

/- One marking adds what the words of its type lead to. -/
theorem mem_usedIndices_markUsed_iff_leads (hClosed : registry.IsClosed) :
    index ∈ (registry.markUsed type).usedIndices ↔
      index ∈ registry.usedIndices ∨ registry.Leads type.referencedNames index := by
  rw [mem_usedIndices_markUsed_iff, mem_usedWith_iff hClosed]
  constructor
  · exact And.left
  · intro h
    exact ⟨h, h.elim usedIndices_lt Leads.lt⟩

theorem IsClosed.markUsed (hClosed : registry.IsClosed) (type : TypeName) :
    (registry.markUsed type).IsClosed := by
  intro index hIndex other hOther
  rw [markUsed_fieldIndices] at hOther
  rw [mem_usedIndices_markUsed_iff_leads hClosed] at hIndex ⊢
  rcases hIndex with hOld | ⟨name, hName, first, hFirst, hPath⟩
  · exact .inl (hClosed index hOld other hOther)
  · exact .inr ⟨name, hName, first, hFirst, hPath.tail hOther⟩

/- The registry after types were marked one after the other. -/
def marked (registry : Registry) (types : List TypeName) : Registry :=
  types.foldl markUsed registry

@[simp] theorem marked_nil (registry : Registry) :
    registry.marked [] = registry :=
  rfl

@[simp] theorem marked_cons (registry : Registry) (type : TypeName) (rest : List TypeName) :
    registry.marked (type :: rest) = (registry.markUsed type).marked rest :=
  rfl

@[simp] theorem layouts_marked (registry : Registry) (types : List TypeName) :
    (registry.marked types).layouts = registry.layouts := by
  induction types generalizing registry with
  | nil => rfl
  | cons _ _ ih => rw [marked_cons, ih, layouts_markUsed]

/- Several markings add what the words of some type lead to. -/
theorem mem_usedIndices_marked_iff (hClosed : registry.IsClosed) {types : List TypeName} :
    index ∈ (registry.marked types).usedIndices ↔
      index ∈ registry.usedIndices ∨ ∃ type ∈ types, registry.Leads type.referencedNames index := by
  induction types generalizing registry with
  | nil => simp
  | cons type _ ih =>
    rw [marked_cons, ih (hClosed.markUsed type), mem_usedIndices_markUsed_iff_leads hClosed]
    simp only [leads_markUsed_iff, List.exists_mem_cons_iff, or_assoc]

-----
-- Order Of Markings
-----

/- A registry is told by its layouts and its used structs. -/
theorem eq_of_layouts_eq
    {other : Registry} (hLayouts : registry.layouts = other.layouts)
    (hUsed : ∀ index, index ∈ registry.usedIndices ↔ index ∈ other.usedIndices) :
    registry = other := by
  rcases registry with ⟨structs⟩
  rcases other with ⟨_⟩
  congr 1
  apply List.ext_getElem?
  intro index
  have hAt := congrArg (·[index]?) hLayouts
  have hSame := hUsed index
  simp only [layouts, List.getElem?_map] at hAt
  simp only [mem_usedIndices_iff] at hSame
  cases hLeft : structs[index]? with
  | none =>
    rw [hLeft] at hAt
    exact (Option.map_eq_none_iff.mp hAt.symm).symm
  | some struct =>
    rw [hLeft] at hAt
    rcases Option.map_eq_some_iff.mp hAt.symm with ⟨twin, hRight, hTwin⟩
    simp only [hLeft, hRight, Option.some.injEq, exists_eq_left'] at hSame
    rw [hRight]
    rcases struct with ⟨_, _, _, used⟩
    rcases twin with ⟨_, _, _, twinUsed⟩
    simp only [Struct.mk.injEq] at hTwin
    rcases hTwin with ⟨rfl, rfl, rfl, _⟩
    have hFlags : used = twinUsed := Bool.eq_iff_iff.mpr hSame
    rw [hFlags]

theorem marked_perm
    (hClosed : registry.IsClosed) {types others : List TypeName} (h : types.Perm others) :
    registry.marked types = registry.marked others := by
  apply eq_of_layouts_eq
  · rw [layouts_marked, layouts_marked]
  · intro index
    rw [mem_usedIndices_marked_iff hClosed, mem_usedIndices_marked_iff hClosed]
    simp only [h.mem_iff]

-----
-- Registries Without Use
-----

/- No struct is used yet. -/
def IsUnused (registry : Registry) : Prop :=
  ∀ struct ∈ registry.structs, struct.used = false

theorem IsUnused.usedIndices_eq_nil (h : registry.IsUnused) :
    registry.usedIndices = [] := by
  apply List.eq_nil_iff_forall_not_mem.mpr
  intro index hIndex
  rcases mem_usedIndices_iff.mp hIndex with ⟨struct, hAt, hUsed⟩
  rw [h struct (List.mem_of_getElem? hAt)] at hUsed
  cases hUsed

theorem IsUnused.isClosed (h : registry.IsUnused) :
    registry.IsClosed := by
  intro index hIndex
  rw [h.usedIndices_eq_nil] at hIndex
  cases hIndex

/- Words that name no struct leave a registry as it is. -/
theorem markUsed_eq_self
    (hUnused : registry.IsUnused)
    (hWords : ∀ name ∈ type.referencedNames, registry.contains name = false) :
    registry.markUsed type = registry := by
  apply eq_of_layouts_eq (layouts_markUsed registry type)
  intro index
  rw [mem_usedIndices_markUsed_iff_leads hUnused.isClosed]
  apply or_iff_left
  rintro ⟨name, hName, _, hFirst, _⟩
  have hNone := hWords name hName
  unfold contains at hNone
  rw [hFirst] at hNone
  cases hNone

end Registry

end ScriptLowering
