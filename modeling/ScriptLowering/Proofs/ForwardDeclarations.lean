import ScriptLowering.Proofs.EmissionOrder
import ScriptLowering.Proofs.TypeWords

/-
  Structs that are declared in front of the struct section. A
  struct is declared there exactly if a struct that stands
  before it has a field whose type is itself a pointer type
  that names it. A pointer inside an array or another type
  does not count, so its target may be unknown where it is
  written.

  Key theorems include:
    * `mem_forwardDeclarations_iff`
    * `Registry.pointer_target_known_iff`
-/

namespace ScriptLowering

open List

-----
-- Names In Pointer Types
-----

/-
  A name stands in the argument of a pointer type. The pointer
  type may be an argument of another type.
-/
inductive TypeName.PointsTo (name : Text) : TypeName → Prop
  | target
      {type : TypeName} {application : Application} {arg : Text}
      (hType : Application.ofText? type.text = some application)
      (hHead : application.head = Spelling.pointer) (hArg : arg ∈ application.args)
      (hName : name ∈ Text.words arg) :
      PointsTo name type
  | inside
      {type : TypeName} {application : Application} {arg : Text}
      (hType : Application.ofText? type.text = some application) (hArg : arg ∈ application.args)
      (hInner : PointsTo name ⟨arg⟩) :
      PointsTo name type

/- What a type points to is one of its words. -/
theorem TypeName.PointsTo.mem_referencedNames
    {name : Text} {type : TypeName} (h : type.PointsTo name) :
    name ∈ type.referencedNames := by
  induction h with
  | target hType _ hArg hName | inside hType hArg _ hName =>
    unfold referencedNames
    rw [Application.words_of_ofText? hType]
    apply mem_append_right
    exact mem_flatMap.mpr ⟨_, hArg, hName⟩

namespace Struct

/- A field type of a struct points to a name. -/
def PointsTo (struct : Struct) (name : Text) : Prop :=
  ∃ field ∈ struct.fields, field.2.PointsTo name

theorem mem_pointerNames_iff {struct : Struct} {name : Text} :
    name ∈ struct.pointerNames ↔
      ∃ field ∈ struct.fields, field.2.isPointer = true ∧ name ∈ field.2.referencedNames := by
  simp only [pointerNames, mem_flatMap, mem_filter, and_assoc]

theorem pointerNames_subset_fieldNames (struct : Struct) :
    struct.pointerNames ⊆ struct.fieldNames := by
  intro name hName
  rcases mem_pointerNames_iff.mp hName with ⟨field, hField, _, hWord⟩
  exact mem_flatMap.mpr ⟨field, hField, hWord⟩

end Struct

-----
-- Declared Structs
-----

section Order

variable {order : List Struct}

theorem exists_of_mem_forwardDeclarations {name : Text} (h : name ∈ forwardDeclarations order) :
    ∃ part ∈ order, part.name = name := by
  rcases mem_filterMap.mp h with ⟨_, _, hAt⟩
  rcases Option.map_eq_some_iff.mp hAt with ⟨part, hPart, hName⟩
  exact ⟨part, mem_of_getElem? hPart, hName⟩

/-
  A struct is declared in front exactly if a struct before it
  has a pointer field that names it.
-/
theorem mem_forwardDeclarations_iff
    (hNames : (order.map Struct.name).Nodup) {part : Struct} (hPart : part ∈ order) :
    part.name ∈ forwardDeclarations order ↔
      ∃ user, Precedes order user part ∧ part.name ∈ user.pointerNames := by
  simp only [forwardDeclarations, mem_filterMap, mem_filter, mem_range,
    isPointedToBefore, any_eq_true, beq_iff_eq, Option.map_eq_some_iff]
  constructor
  · intro h
    rcases h with ⟨place, ⟨_, user, hUser, name, hName, hIndex⟩, found, hFound, hSame⟩
    have hEq : found = part := inj_on_of_nodup_map hNames (mem_of_getElem? hFound) hPart hSame
    subst hEq
    rcases lastIndex?_eq_some hIndex with ⟨_, hOther, rfl⟩
    rw [hFound] at hOther
    cases hOther
    exact ⟨user, Precedes.iff_exists_place.mpr ⟨place, hFound, hUser⟩, hName⟩
  · intro h
    rcases h with ⟨user, hPrecedes, hName⟩
    rcases Precedes.iff_exists_place.mp hPrecedes with ⟨place, hAt, hUser⟩
    refine ⟨place, ⟨?_, user, hUser, part.name, hName, ?_⟩, part, hAt, rfl⟩
    · exact (List.getElem?_eq_some_iff.mp hAt).1
    · exact lastIndex?_of_nodup hNames hAt

end Order

namespace Registry

variable {registry : Registry}

/-
  Where the fields of one struct are written, another one is
  declared or defined.
-/
def IsKnownIn (registry : Registry) (part user : Struct) : Prop :=
  part.name ∈ forwardDeclarations registry.emissionOrder ∨
    part = user ∨ Precedes registry.emissionOrder part user

instance (registry : Registry) (part user : Struct) :
    Decidable (registry.IsKnownIn part user) :=
  decidable_of_iff
    ((forwardDeclarations registry.emissionOrder).contains part.name = true ∨
      part = user ∨ Precedes registry.emissionOrder part user)
    (or_congr_left contains_iff_mem)

/-
  A struct behind another one is declared in front exactly if
  some struct before it has a pointer field that names it. So
  the target of a field type that is itself a pointer type is
  known where the field is written.
-/
theorem pointer_target_known_iff
    (hNames : registry.NamesDistinct) {user part : Struct} (hUser : registry.IsUsed user)
    (hPart : registry.IsUsed part) :
    (Precedes registry.emissionOrder user part →
        (registry.IsKnownIn part user ↔
          ∃ earlier,
            Precedes registry.emissionOrder earlier part ∧ part.name ∈ earlier.pointerNames)) ∧
      ∀ field ∈ user.fields,
        field.2.isPointer = true → field.2.PointsTo part.name → registry.IsKnownIn part user := by
  have hDeclared :=
    mem_forwardDeclarations_iff (emissionOrder_names_nodup hNames) (mem_emissionOrder_iff.mpr hPart)
  constructor
  · intro hBefore
    have hNotBehind := hBefore.asymm (emissionOrder_nodup hNames)
    constructor
    · intro hKnown
      rcases hKnown with hForward | rfl | hBehind
      · exact hDeclared.mp hForward
      · exact absurd hBefore hNotBehind
      · exact absurd hBehind hNotBehind
    · intro hEarlier
      exact Or.inl (hDeclared.mpr hEarlier)
  · intro field hField hPointer hPoints
    by_cases hEq : part = user
    · exact Or.inr (Or.inl hEq)
    · have hTotal :=
        Precedes.total (mem_emissionOrder_iff.mpr hPart) (mem_emissionOrder_iff.mpr hUser) hEq
      rcases hTotal with hBehind | hBefore
      · exact Or.inr (Or.inr hBehind)
      · left
        apply hDeclared.mpr
        refine ⟨user, hBefore, Struct.mem_pointerNames_iff.mpr ?_⟩
        exact ⟨field, hField, hPointer, hPoints.mem_referencedNames⟩

-----
-- Pointers Inside Other Types
-----

/- A shelf points to its first book. -/
def shelf : Struct :=
  ⟨"Shelf", [("first", ⟨"Pointer<Book>"⟩)], .declared, true⟩

/- A book points back to its shelf. -/
def book : Struct :=
  ⟨"Book", [("shelf", ⟨"Pointer<Shelf>"⟩)], .declared, true⟩

/- A book that lists all shelves it has stood on. -/
def listedBook : Struct :=
  ⟨"Book", [("shelves", ⟨"Array<Pointer<Shelf>>"⟩)], .declared, true⟩

theorem shelfPointer_pointsTo :
    TypeName.PointsTo shelf.name ⟨"Pointer<Shelf>"⟩ := by
  have hRead : Application.ofText? "Pointer<Shelf>" = some ⟨Spelling.pointer, [shelf.name]⟩ := rfl
  exact .target hRead rfl mem_cons_self mem_cons_self

/- The shelf is emitted behind the book and declared before it. -/
theorem shelf_known_in_book :
    Precedes (emissionOrder ⟨[shelf, book]⟩) book shelf ∧ IsKnownIn ⟨[shelf, book]⟩ shelf book := by
  have hShelf : IsUsed ⟨[shelf, book]⟩ shelf := ⟨List.mem_cons_self, rfl⟩
  have hBook : IsUsed ⟨[shelf, book]⟩ book := ⟨List.mem_cons_of_mem _ List.mem_cons_self, rfl⟩
  have hKnown :=
    (pointer_target_known_iff (by decide) hBook hShelf).2
      ("shelf", ⟨"Pointer<Shelf>"⟩) List.mem_cons_self
      (by decide) shelfPointer_pointsTo
  exact ⟨by decide +kernel, hKnown⟩

theorem listedBook_pointsTo_shelf :
    listedBook.PointsTo shelf.name := by
  have hRead :
      Application.ofText? "Array<Pointer<Shelf>>" = some ⟨Spelling.array, ["Pointer<Shelf>"]⟩ :=
    rfl
  exact ⟨_, mem_cons_self, .inside hRead mem_cons_self shelfPointer_pointsTo⟩

/-
  A listed book points to the shelf behind it, and the shelf
  is neither declared nor defined before it.
-/
theorem shelf_unknown_in_listedBook :
    NamesDistinct ⟨[shelf, listedBook]⟩ ∧
      Precedes (emissionOrder ⟨[shelf, listedBook]⟩) listedBook shelf ∧
      listedBook.PointsTo shelf.name ∧
      shelf.name ∉ forwardDeclarations (emissionOrder ⟨[shelf, listedBook]⟩) ∧
      ¬ IsKnownIn ⟨[shelf, listedBook]⟩ shelf listedBook := by
  refine ⟨by decide, ?_, listedBook_pointsTo_shelf, ?_, ?_⟩
  · decide +kernel
  · decide +kernel
  · decide +kernel

end Registry

end ScriptLowering
