import ScriptLowering.Proofs.ClosedSpellings
import ScriptLowering.Proofs.ForeignMarks
import ScriptLowering.Proofs.StructNames

/-
  The structs of wrapped shapes. A shape in an array or behind
  a pointer is the shape in native words, so its struct is the
  one of the shape itself if no name of a field is replaced.
  If a field of the shape is named by a host word, there are
  two structs, for they differ in the name of that field.

  Key theorems include:
    * `hostWord_of_fields_eq`
    * `wrapped_shape_denotes_struct_iff`
-/

namespace ScriptLowering

open List TypeTerm TypeTable Registry

-----
-- Wrapped Structs
-----

/- The fields of the struct that a type names. -/
def TypeTable.fields? (table : TypeTable) (type : TypeName) : Option (List (Text × TypeName)) :=
  (table.registry.get? type.text).map Struct.fields

/-
  Every wrapping of a shape is decided to be an array of a
  struct or a pointer to it, and the struct has the fields
  that it has in another table.
-/
def WrapsAlike (shape : Text) (table : TypeTable) (struct : TypeName) (after : TypeTable) : Prop :=
  ∀ wrapping : Wrapping, ∃ later,
    TypeTable.canonicalize (wrapping.spelling shape) table = .ok (wrapping.type struct) later ∧
      later.fields? struct = after.fields? struct

theorem TypeName.applied_singleton_inj
    {head : Text} {arg other : TypeName} (h : applied head [arg] = applied head [other]) :
    arg = other := by
  have hText := congrArg TypeName.text h
  simp only [applied, map_cons, map_nil, Text.joinWith] at hText
  have hArgs : arg.text = other.text := append_cancel_left (append_cancel_right hText)
  cases arg
  cases other
  exact congrArg TypeName.mk hArgs

theorem wrap?_array_eq_some_iff {type struct : TypeName} :
    wrap? Spelling.array type = some (TypeName.applied Spelling.array [struct]) ↔
      type = struct ∧ struct.isArray = false := by
  unfold wrap?
  rw [if_pos rfl]
  constructor
  · intro h
    split at h
    · cases h
    · next hArray =>
      have hSame := TypeName.applied_singleton_inj (Option.some.inj h)
      subst hSame
      exact ⟨rfl, (Bool.not_eq_true _).mp hArray⟩
  · rintro ⟨rfl, hArray⟩
    rw [hArray]
    rfl

theorem wrap?_of_not_isArray
    {head : Text} (hHead : head = Spelling.array ∨ head = Spelling.pointer) {struct : TypeName}
    (h : struct.isArray = false) :
    wrap? head struct = some (TypeName.applied head [struct]) := by
  rcases hHead with rfl | rfl
  · exact wrap?_array_eq_some_iff.mpr ⟨rfl, h⟩
  · have hElement : struct.arrayElement? = none :=
      Option.isNone_iff_eq_none.mp (by simpa [TypeName.isArray] using h)
    unfold wrap? TypeName.pointerTo
    rw [if_neg (by decide), hElement]
    rfl

section Wrapped

variable {shape : Text} {fields : List (Text × Text)}
variable {table after : TypeTable} {struct : TypeName}

theorem wrapsAlike_iff
    (hShape : TypeForm.ofText shape = .shape fields) (hAliases : table.aliases = []) :
    WrapsAlike shape table struct after ↔
      (∀ wrapping : Wrapping, wrapping.fits shape = true) ∧ struct.isArray = false ∧
        ∃ later,
          canonicalize (Spelling.nativeForm shape) table = .ok struct later ∧
            later.fields? struct = after.fields? struct := by
  have hOutcome := Wrapping.outcome_spelling hShape hAliases
  constructor
  · intro hAlike
    have hFits : ∀ wrapping : Wrapping, wrapping.fits shape = true := by
      intro wrapping
      rcases hAlike wrapping with ⟨later, hRun, _⟩
      by_contra hNot
      have hNone := hOutcome wrapping
      rw [if_neg hNot, outcome_eq_some_iff.mpr hRun] at hNone
      cases hNone
    rcases hAlike .suffix with ⟨later, hRun, hFields⟩
    have hSome := hOutcome .suffix
    rw [if_pos (hFits .suffix), outcome_eq_some_iff.mpr hRun] at hSome
    rcases Option.bind_eq_some_iff.mp hSome.symm with ⟨result, hNative, hWrapped⟩
    rcases Option.map_eq_some_iff.mp hWrapped with ⟨_, hType, hResult⟩
    rcases Prod.mk.inj hResult with ⟨rfl, rfl⟩
    rcases wrap?_array_eq_some_iff.mp hType with ⟨hSame, hArray⟩
    refine ⟨hFits, hArray, result.2, ?_, hFields⟩
    rw [← hSame]
    exact outcome_eq_some_iff.mp hNative
  · rintro ⟨hFits, hArray, later, hNative, hFields⟩ wrapping
    refine ⟨later, ?_, hFields⟩
    apply outcome_eq_some_iff.mp
    rw [hOutcome wrapping, if_pos (hFits wrapping),
      outcome_eq_some_iff.mpr hNative, Option.bind_some, wrapResult,
      wrap?_of_not_isArray wrapping.head_cases hArray]
    rfl

-----
-- Interned Shapes
-----

theorem names_of_evalMembers
    {members : List (Text × TypeTerm)} {decided : List (Text × TypeName)} {middle : TypeTable}
    (h : outcome (evalMembers members) table = some (decided, middle)) :
    decided.map Prod.fst = members.map Prod.fst := by
  induction members generalizing table decided middle with
  | nil =>
    cases h
    rfl
  | cons member _ ih =>
    rcases member with ⟨_, _⟩
    rw [outcome_evalMembers_cons] at h
    rcases Option.bind_eq_some_iff.mp h with ⟨_, _, hLater⟩
    rcases Option.map_eq_some_iff.mp hLater with ⟨_, hRun, hResult⟩
    cases hResult
    rw [map_cons, map_cons, ih hRun]

/- The struct of a shape is the one its decided fields stand for. -/
theorem exists_interned
    (hShape : TypeForm.ofText shape = .shape fields)
    (hRun : canonicalize shape table = .ok struct after) :
    ∃ decided middle,
      evalMembers (fields.map fun field => (field.1, ofText field.2)) table = .ok decided middle ∧
        decided.map Prod.fst = fields.map Prod.fst ∧
        after.registry.shapeName? decided = some struct.text := by
  have hOutcome := outcome_eq_some_iff.mpr hRun
  unfold canonicalize at hOutcome
  rw [ofText_eq_term, hShape] at hOutcome
  simp only [TypeForm.term, outcome_shape] at hOutcome
  rcases Option.bind_eq_some_iff.mp hOutcome with ⟨⟨decided, middle⟩, hDecided, hIntern⟩
  have hNames := names_of_evalMembers hDecided
  rw [map_map] at hNames
  refine ⟨decided, middle, outcome_eq_some_iff.mp hDecided, hNames, ?_⟩
  have hResult := outcome_eq_some_iff.mp hIntern
  cases hResult
  exact middle.registry.shapeName?_intern decided

/- Structs that are named by identifiers are no arrays. -/
theorem isArray_of_isIdentifier {type : TypeName} (h : type.text.isIdentifier = true) :
    type.isArray = false := by
  have hNone : Application.ofText? type.text = none := by
    apply Application.ofText?_eq_none
    intro c hMem
    exact (Text.IsWord.of_isIdentifier h).ne_of_mem hMem rfl
  unfold TypeName.isArray TypeName.arrayElement? TypeName.argumentOf?
  rw [hNone]
  rfl

theorem keptByInterning_isIdentifier :
    KeptByInterning fun table =>
      ∀ struct ∈ table.registry.structs, struct.name.isIdentifier = true := by
  refine .of_push ?_
  intro table decided hTable struct hStruct
  rcases mem_append.mp hStruct with hOld | hNew
  · exact hTable struct hOld
  · rw [mem_singleton.mp hNew]
    exact (isLeaf_nextName table.registry).identifier

theorem isArray_of_shape
    (hShape : TypeForm.ofText shape = .shape fields)
    (hRun : canonicalize shape table = .ok struct after)
    (hNames : ∀ known ∈ table.registry.structs, known.name.isIdentifier = true) :
    struct.isArray = false := by
  rcases exists_interned hShape hRun with ⟨_, _, _, _, hName⟩
  rcases exists_of_shapeName? hName with ⟨known, hKnown, hSame, _⟩
  have hKept := (preserves_eval_of_intern keptByInterning_isIdentifier (ofText shape)).kept hNames
  change eval _ table = _ at hRun
  rw [hRun] at hKept
  apply isArray_of_isIdentifier
  rw [← hSame]
  exact hKept known hKnown

-----
-- Orderly Tables
-----

/- Names and types without the marks of shape keys. -/
def plainLexicon : Lexicon :=
  .without [':', ';'] rfl

/-
  No struct has the name of another one or of one that is
  synthesized later, and shape keys tell fields apart.
-/
structure TypeTable.IsOrderly (table : TypeTable) : Prop where
  distinct : table.registry.NamesDistinct
  free :
    ∀ count, table.registry.synthesizedCount ≤ count →
      synthesizedName count ∉ table.registry.structs.map Struct.name
  plain : plainLexicon.HasTable table

theorem Text.isPlain_of_lacks {text : Text} (h : text.Lacks [':', ';']) :
    text.IsPlain :=
  ⟨fun hMem => h ':' hMem (by simp), fun hMem => h ';' hMem (by simp)⟩

theorem fieldsPlain_of_plainLexicon
    {decided : List (Text × TypeName)} (h : ∀ field ∈ decided, plainLexicon.Field field) :
    FieldsPlain decided :=
  fun field hField =>
    ⟨Text.isPlain_of_lacks (h field hField).1, Text.isPlain_of_lacks (h field hField).2⟩

/- A synthesized struct gets the next of the names that are free. -/
theorem keptByInterning_free :
    KeptByInterning fun table =>
      table.registry.NamesDistinct ∧
        ∀ count, table.registry.synthesizedCount ≤ count →
          synthesizedName count ∉ table.registry.structs.map Struct.name := by
  refine .of_push ?_
  rintro table _ ⟨hDistinct, hFree⟩
  have hNew := hFree _ (Nat.le_refl _)
  constructor
  · unfold Registry.NamesDistinct push
    rw [map_append, nodup_append]
    refine ⟨hDistinct, nodup_singleton _, ?_⟩
    rintro name hName other hOther rfl
    rw [mem_singleton.mp hOther] at hName
    exact hNew hName
  · intro count hCount hMem
    have hNext : table.registry.synthesizedCount + 1 ≤ count := by
      simpa [synthesizedCount, push] using hCount
    unfold push at hMem
    rw [map_append, mem_append] at hMem
    rcases hMem with hOld | hLast
    · exact hFree count (by omega) hOld
    · have hSame := synthesizedName_injective (mem_singleton.mp hLast)
      omega

/- In an orderly table the struct of a shape has its field names. -/
theorem exists_fields_of_shape
    (hTable : table.IsOrderly) (hShape : TypeForm.ofText shape = .shape fields)
    (hRun : canonicalize shape table = .ok struct after) :
    ∃ decided, after.fields? struct = some decided ∧
      decided.map Prod.fst = fields.map Prod.fst := by
  rcases exists_interned hShape hRun with ⟨decided, _, hDecided, hNames, hName⟩
  rcases exists_of_shapeName? hName with ⟨known, hKnown, hSame, hKey⟩
  have hTerm :
      ofText shape =
        .shape
          (fields.map fun field =>
            (field.1, ofText field.2)) := by
    rw [ofText_eq_term, hShape]
    rfl
  have hFields := (plainLexicon.preserves_shapeMembers hTerm).gives hTable.plain hDecided
  have hPlain := (plainLexicon.preserves_canonicalize shape).kept hTable.plain
  have hDistinct :=
    (preserves_eval_of_intern keptByInterning_free
      (ofText shape)).kept ⟨hTable.distinct, hTable.free⟩
  change eval _ table = _ at hRun
  unfold canonicalize at hPlain
  rw [hRun] at hPlain hDistinct
  have hEqual : known.fields = decided :=
    (shapeKey_inj (fieldsPlain_of_plainLexicon (hPlain.structs known hKnown).fields)
      (fieldsPlain_of_plainLexicon hFields)).mp hKey
  have hFound : after.registry.get? known.name = some known :=
    get?_of_namesDistinct hDistinct.1 hKnown
  refine ⟨decided, ?_, hNames⟩
  unfold fields?
  rw [← hSame, hFound, ← hEqual]
  rfl

/-
  A name that is replaced in native words is a name that the
  struct of the wrapped shape does not have.
-/
theorem hostWord_of_fields_eq
    (hTable : table.IsOrderly) (hShape : TypeForm.ofText shape = .shape fields)
    (hBare : canonicalize shape table = .ok struct after) {later : TypeTable}
    (hNative : canonicalize (Spelling.nativeForm shape) table = .ok struct later)
    (hFields : later.fields? struct = after.fields? struct) :
    ∀ field ∈ fields, Spelling.hostWord field.1 = none := by
  rcases exists_fields_of_shape hTable hShape hBare with ⟨_, hDecided, hNames⟩
  rcases exists_fields_of_shape hTable (TypeForm.ofText_nativeForm_of_shape hShape) hNative with
    ⟨_, hOther, hOtherNames⟩
  rw [hOther, hDecided] at hFields
  rw [Option.some.inj hFields, hNames, map_map] at hOtherNames
  intro field hField
  have hKept := map_inj_left.mp hOtherNames field hField
  exact nativeWord_eq_self_iff.mp hKept.symm

-----
-- Wrapped Shapes
-----

/-
  The wrappings of a shape denote its struct exactly if the
  shape can be seen in each of them, its struct is no array,
  and the shape in native words denotes the struct too. All
  of this holds of a shape without quoted literals and
  without exposed names that are host words, if structs are
  named by identifiers. In an orderly table none of the
  fields can be named by a host word.
-/
theorem wrapped_shape_denotes_struct_iff
    (hShape : TypeForm.ofText shape = .shape fields) (hAliases : table.aliases = [])
    (hBare : TypeTable.canonicalize shape table = .ok struct after) :
    (WrapsAlike shape table struct after ↔
        (∀ wrapping : Wrapping, wrapping.fits shape = true) ∧ struct.isArray = false ∧
          ∃ later,
            TypeTable.canonicalize (Spelling.nativeForm shape) table = .ok struct later ∧
              later.fields? struct = after.fields? struct) ∧
      (shape.Unquoted → (TypeTerm.ofText shape).KeepsNames →
        (∀ known ∈ table.registry.structs, known.name.isIdentifier = true) →
        WrapsAlike shape table struct after) ∧
      (table.IsOrderly → WrapsAlike shape table struct after →
        ∀ field ∈ fields, Spelling.hostWord field.1 = none) := by
  have hAlike : WrapsAlike shape table struct after ↔ _ := wrapsAlike_iff hShape hAliases
  have hOutcome := outcome_eq_some_iff.mpr hBare
  refine ⟨hAlike, ?_, ?_⟩
  · intro hQuotes hKeeps hNames
    have hFits := Wrapping.fits_of_unquoted hShape ⟨table, _, hAliases, hOutcome⟩ hQuotes
    have hNative := outcome_eq_some_iff.mp (outcome_canonicalize_nativeForm shape hKeeps hOutcome)
    exact hAlike.mpr ⟨hFits, isArray_of_shape hShape hBare hNames, after, hNative, rfl⟩
  · intro hTable hWraps
    rcases hAlike.mp hWraps with ⟨_, _, later, hNative, hFields⟩
    exact hostWord_of_fields_eq hTable hShape hBare hNative hFields

end Wrapped

/- A shape within a shape, in blanks and both separators. -/
def planShape : Text :=
  "\x7b name: string; size: \x7b wide: number, rows: u8[] \x7d \x7d"

def boxTable : TypeTable :=
  ⟨⟨[⟨"Box", [("side", ⟨"i32"⟩)], .declared, false⟩]⟩, []⟩

def planTable : TypeTable :=
  ⟨⟨[⟨"Box", [("side", ⟨"i32"⟩)], .declared, false⟩,
      ⟨"anon_struct_0", [("wide", ⟨"i32"⟩), ("rows", ⟨"Array<u8>"⟩)], .synthesized, false⟩,
      ⟨"anon_struct_1", [("name", ⟨"string"⟩), ("size", ⟨"anon_struct_0"⟩)],
        .synthesized, false⟩]⟩, []⟩

theorem planShape_wraps_alike :
    TypeTable.canonicalize planShape boxTable = .ok ⟨"anon_struct_1"⟩ planTable ∧
      WrapsAlike planShape boxTable ⟨"anon_struct_1"⟩ planTable := by
  have hShape :
      TypeForm.ofText planShape =
        .shape [("name", "string"), ("size", "\x7b wide: number, rows: u8[] \x7d")] := by
    decide +kernel
  have hBare : TypeTable.canonicalize planShape boxTable = .ok ⟨"anon_struct_1"⟩ planTable :=
    outcome_eq_some_iff.mp (by decide +kernel)
  have hKeeps : (TypeTerm.ofText planShape).KeepsNames := by
    unfold TypeTerm.KeepsNames
    decide +kernel
  exact
    ⟨hBare,
      (wrapped_shape_denotes_struct_iff hShape rfl hBare).2.1
        (by decide +kernel) hKeeps (by decide +kernel)⟩

/- A shape with a host word as the name of its field. -/
def numberShape : Text :=
  "\x7b number: u8 \x7d"

def fieldTable (name : Text) : TypeTable :=
  ⟨⟨[⟨"anon_struct_0", [(name, ⟨"u8"⟩)], .synthesized, false⟩]⟩, []⟩

theorem numberShape_wraps_another_field :
    TypeTable.canonicalize numberShape .empty = .ok ⟨"anon_struct_0"⟩ (fieldTable "number") ∧
      TypeTable.canonicalize (Wrapping.suffix.spelling numberShape) .empty =
        .ok ⟨"Array<anon_struct_0>"⟩ (fieldTable "i32") ∧
      ¬WrapsAlike numberShape .empty ⟨"anon_struct_0"⟩ (fieldTable "number") := by
  have hSuffix :
      TypeTable.canonicalize (Wrapping.suffix.spelling numberShape) .empty =
        .ok ⟨"Array<anon_struct_0>"⟩ (fieldTable "i32") :=
    outcome_eq_some_iff.mp (by decide +kernel)
  refine ⟨outcome_eq_some_iff.mp (by decide +kernel), hSuffix, ?_⟩
  intro hAlike
  rcases hAlike .suffix with ⟨later, hRun, hFields⟩
  rw [hSuffix] at hRun
  injection hRun with _ hLater
  subst hLater
  exact absurd hFields (by decide +kernel)

end ScriptLowering
