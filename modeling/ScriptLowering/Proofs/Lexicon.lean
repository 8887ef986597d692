import ScriptLowering.Proofs.RootNames
import ScriptLowering.Proofs.SpelledTypes
import ScriptLowering.Proofs.TypeWords

/-
  What types and names a program is made of. A lexicon is a
  class of texts and a class of types that lowering never
  leaves: all ways to build a type from a spelling and a name
  from a name stay inside. Deciding types from a table within
  a lexicon gives types and a table within it.

  Key theorems include:
    * `Lexicon.preserves_declareInterface`
    * `Lexicon.preserves_declareAlias`
-/

namespace ScriptLowering

open Text Spelling List TypeTable
open TypeTerm hiding array

variable {raw text : Text} {fields : List (Text × Text)}

-----
-- Words Of Decided Types
-----

/- A word that stands for itself as a type. -/
structure IsLeaf (name : Text) : Prop where
  identifier : name.isIdentifier = true
  native : hostWord name = none
  decided :
    (isBoolean name || isDisallowed name || isHostOnly name) = false

/- A word that is applied to types, other than the builtin heads. -/
structure IsHead (head : Text) : Prop where
  identifier : head.isIdentifier = true
  native : hostWord head = none
  ne_array : head ≠ array
  ne_pointer : head ≠ pointer

/- The native word for a word is a word that stays as it is. -/
theorem isWord_replaceWord {word : Text} (h : Text.IsWord word) :
    Text.IsWord (replaceWord hostWord word) ∧ hostWord (replaceWord hostWord word) = none := by
  have hNative :
      ∀ native ∈ [("i32" : Text), "i64", "Pointer"],
        isIdentifier native = true ∧ hostWord native = none := by
    decide
  unfold replaceWord
  rcases hostWord_cases word with hNone | ⟨native, hMem, hSome⟩
  · rw [hNone]
    exact ⟨h, hNone⟩
  · rw [hSome]
    rcases hNative native hMem with ⟨hIdentifier, hKept⟩
    exact ⟨.of_isIdentifier hIdentifier, hKept⟩

/- A spelling in native words has no host word. -/
theorem hostWord_of_mem_words (text : Text) :
    ∀ word ∈ words (nativeForm text), hostWord word = none := by
  unfold nativeForm
  induction text using words_induction with
  | nil => exact forall_mem_nil _
  | mark _ _ hMark ih =>
    rw [mapWords_cons_mark _ hMark, words_cons_mark hMark]
    exact ih
  | word _ _ hRun hRest ih =>
    rcases isWord_replaceWord hRun with ⟨hNative, hNone⟩
    rw [mapWords_append _ _ hRest, mapWords_word _ hRun,
      words_word_append hNative (hRest.mapWords _)]
    exact forall_mem_cons.mpr ⟨hNone, ih⟩

-----
-- Words Of Forms
-----

theorem Application.head_of_ofText?
    {application : Application} (h : ofText? text = some application) :
    application.head.isIdentifier = true ∧ application.args ≠ [] := by
  rcases exists_of_ofText? h with ⟨_, _, _, _, hHead, hArgs⟩
  refine ⟨hHead, ?_⟩
  simp [hArgs, splitTopLevel]

namespace Shape

/- A member is a field if an identifier stands before its colon. -/
theorem readMember_eq_ok_iff {member : Text} {field : Text × Text} :
    readMember member = .ok field ↔
      ∃ before type,
        cutTopLevel? ':' member = some (before, type) ∧ (trim before).isIdentifier = true ∧
          field = (trim before, trim type) := by
  unfold readMember
  constructor
  · intro h
    split at h
    · cases h
    · next before type hCut =>
      dsimp only at h
      split at h
      · cases h
      · split at h
        · cases h
        · split at h
          · next hName =>
            cases h
            exact ⟨before, type, hCut, hName, rfl⟩
          · cases h
  · rintro ⟨before, _, hCut, hName, rfl⟩
    have hWord := Text.IsWord.of_isIdentifier hName
    have hOther : ∀ {mark}, isWordChar mark = false → mark ∉ trim before :=
      fun hMark hMem => hWord.ne_of_mem hMem hMark rfl
    have hOptional : (trim before).getLast? ≠ some '?' :=
      fun hLast => hOther rfl (mem_of_getLast? hLast)
    have hParen : '(' ∉ trim before := hOther rfl
    have hMethod : (trim before).contains '(' = false := by simpa using hParen
    have hIndex : ((trim before).head? == some '[') = false :=
      beq_eq_false_iff_ne.mpr fun hHead => hOther rfl (mem_of_mem_head? hHead)
    rw [hCut]
    simp only [if_neg hOptional, hMethod, hIndex, hName, if_true,
      Bool.or_self, Bool.false_eq_true, if_false]

theorem isIdentifier_of_readMembers {pieces : List Text} (h : readMembers pieces = .ok fields) :
    ∀ field ∈ fields, field.1.isIdentifier = true := by
  induction pieces generalizing fields with
  | nil =>
    cases h
    simp
  | cons _ _ ih =>
    unfold readMembers at h
    dsimp only at h
    split at h
    · exact ih h
    · split at h
      · cases h
      · next first hFirst =>
        split at h
        · cases h
        · next later hLater =>
          cases h
          rcases readMember_eq_ok_iff.mp hFirst with ⟨_, _, _, hName, rfl⟩
          exact forall_mem_cons.mpr ⟨hName, ih hLater⟩

theorem inner?_eq_some_iff {text inner : Text} :
    inner? text = some inner ↔ text = '{' :: (inner ++ ['}']) := by
  constructor
  · intro h
    cases text with
    | nil => cases h
    | cons =>
      rw [inner?] at h
      split at h
      · next hBraces =>
        cases h
        rcases hBraces with ⟨rfl, hLast⟩
        rcases getLast?_eq_some_iff.mp hLast with ⟨_, rfl⟩
        simp
      · cases h
  · rintro rfl
    simp [inner?]

/- A shape stands in braces, and its members between separators. -/
theorem read_eq_ok_iff {fields : List (Text × Text)} :
    read text = .ok fields ↔
      fields ≠ [] ∧
        ∃ inner, trim text = '{' :: (inner ++ ['}']) ∧
          readMembers (splitTopLevel [';', ','] inner) = .ok fields := by
  unfold read
  constructor
  · intro h
    split at h
    · cases h
    · next inner hInner =>
      split at h
      · cases h
      · cases h
      · next found hSome hMembers =>
        cases h
        exact ⟨hSome, inner, inner?_eq_some_iff.mp hInner, hMembers⟩
  · rintro ⟨hSome, _, hText, hMembers⟩
    rw [inner?_eq_some_iff.mpr hText]
    dsimp only
    rw [hMembers]
    cases fields with
    | nil => exact absurd rfl hSome
    | cons => rfl

end Shape

namespace TypeForm

theorem isRead_of_ofText {form : TypeForm} (h : ofText raw = form) :
    IsRead (trim raw) form := by
  rw [← h]
  exact isRead_ofTrimmed (trim raw)

theorem isLeaf_of_named
    {name : Text} (h : ofText raw = .named name) (hIdentifier : name.isIdentifier = true) :
    IsLeaf name := by
  have hWords := hostWord_of_mem_words (trim raw)
  cases isRead_of_ofText h with
  | fixed hFixed => cases hFixed
  | named hBoolean hDisallowed hUndecidable =>
    rw [words_eq_singleton (.of_isIdentifier hIdentifier)] at hWords
    refine ⟨hIdentifier, hWords _ (mem_singleton_self _), ?_⟩
    simp only [isUndecidable, Bool.or_eq_false_iff] at hUndecidable
    simp [hBoolean, hDisallowed, hUndecidable.1]

theorem head_of_applied {head : Text} {args : List Text} (h : ofText raw = .applied head args) :
    head.isIdentifier = true ∧ hostWord head = none ∧ args ≠ [] := by
  have hWords := hostWord_of_mem_words (trim raw)
  cases isRead_of_ofText h with
  | fixed hFixed => cases hFixed
  | applied hApplied =>
    rcases Application.head_of_ofText? hApplied with ⟨hIdentifier, hSome⟩
    rw [Application.words_of_ofText? hApplied,
      words_eq_singleton (.of_isIdentifier hIdentifier)] at hWords
    exact ⟨hIdentifier, hWords _ (by simp), hSome⟩

/- The fields of an object type have identifiers as names. -/
theorem isIdentifier_of_shape (h : ofText raw = .shape fields) :
    ∀ field ∈ fields, field.1.isIdentifier = true := by
  cases isRead_of_ofText h with
  | fixed hFixed => cases hFixed
  | shape _ hShape =>
    rcases Shape.read_eq_ok_iff.mp hShape with ⟨_, _, _, hMembers⟩
    exact Shape.isIdentifier_of_readMembers hMembers

end TypeForm

-----
-- Lexicons
-----

/-
  Texts and types that lowering stays within. The laws say of
  each way to come by a text or a type that it leads to no
  other ones.
-/
structure Lexicon extends TextLaws where
  type : TypeName → Prop
  identifier :
    ∀ {name}, isIdentifier name = true → text name
  leaf :
    ∀ {name}, IsLeaf name → type ⟨name⟩
  applied :
    ∀ {head args}, IsHead head → args ≠ [] →
      (∀ arg ∈ args, type arg) → type (TypeName.applied head args)
  arrayOf :
    ∀ {element}, type element → element.isArray = false → type (TypeName.arrayOf element)
  pointerTo :
    ∀ {target}, type target → type (TypeName.pointerTo target)
  arrayElement :
    ∀ {array element}, type array → array.arrayElement? = some element → type element

theorem isLeaf_numeric (kind : NumericKind) :
    IsLeaf kind.name := by
  cases kind <;> exact ⟨rfl, rfl, rfl⟩

theorem all_isWordChar_ofNat (n : Nat) :
    (ofNat n).all isWordChar = true := by
  refine all_eq_true.mpr ?_
  intro c hMem
  have hDigit : c.isDigit = true := Nat.isDigit_of_mem_toDigits (by omega) (by omega) hMem
  simp [isWordChar, Char.isAlphanum, hDigit]

theorem isLeaf_numbered {digits : Text} (h : digits.all isWordChar = true) :
    IsLeaf ("anon_struct_" ++ digits) := by
  refine ⟨?_, rfl, rfl⟩
  show (isWordStart 'a' && (("non_struct_" : Text) ++ digits).all isWordChar) = true
  rw [all_append, h]
  rfl

/- The names of synthesized structs are types of their own. -/
theorem isLeaf_nextName (registry : Registry) :
    IsLeaf registry.nextName :=
  isLeaf_numbered (all_isWordChar_ofNat registry.synthesizedCount)

-----
-- Tables
-----

namespace Lexicon

variable {lexicon : Lexicon}

/- A field with its name and type within a lexicon. -/
def Field (lexicon : Lexicon) (field : Text × TypeName) : Prop :=
  lexicon.text field.1 ∧ lexicon.type field.2

/- A struct, which may also stand for a type by its name. -/
structure HasStruct (lexicon : Lexicon) (struct : Struct) : Prop where
  name : lexicon.text struct.name
  type : lexicon.type ⟨struct.name⟩
  fields : ∀ field ∈ struct.fields, lexicon.Field field

/- A table with all its structs and aliases within a lexicon. -/
structure HasTable (lexicon : Lexicon) (table : TypeTable) : Prop where
  structs :
    ∀ struct ∈ table.registry.structs, lexicon.HasStruct struct
  aliases :
    ∀ entry ∈ table.aliases, lexicon.type entry.2

theorem hasTable_empty :
    lexicon.HasTable empty :=
  ⟨by simp [empty, Registry.empty], by simp [empty]⟩

theorem HasTable.push
    {table : TypeTable} {struct : Struct} (h : lexicon.HasTable table)
    (hStruct : lexicon.HasStruct struct) :
    lexicon.HasTable { table with registry := table.registry.push struct } := by
  constructor
  · intro other hOther
    rcases mem_append.mp hOther with hOld | hNew
    · exact h.structs other hOld
    · rw [mem_singleton.mp hNew]
      exact hStruct
  · exact h.aliases

/- Marking structs as used keeps their names and fields. -/
theorem HasTable.markUsed {table : TypeTable} (h : lexicon.HasTable table) (type : TypeName) :
    lexicon.HasTable (table.markUsed type) := by
  constructor
  · intro struct hStruct
    rcases mem_mapIdx.mp hStruct with ⟨_, hIndex, rfl⟩
    have hOld := h.structs _ (getElem_mem hIndex)
    exact ⟨hOld.name, hOld.type, hOld.fields⟩
  · exact h.aliases

theorem preserves_intern
    {fields : List (Text × TypeName)} (hFields : ∀ field ∈ fields, lexicon.Field field) :
    Preserves lexicon.HasTable (intern fields) lexicon.type := by
  apply Preserves.intro
  · intro table hTable
    show lexicon.HasTable { table with registry := (table.registry.intern fields).2 }
    unfold Registry.intern
    cases hFound : table.registry.ofShape? fields with
    | some => exact hTable
    | none =>
      have hLeaf := isLeaf_nextName table.registry
      exact hTable.push ⟨lexicon.identifier hLeaf.identifier, lexicon.leaf hLeaf, hFields⟩
  · intro table type last hTable hRun
    have hType : type = (table.registry.intern fields).1 := by
      cases hRun
      rfl
    rw [hType]
    unfold Registry.intern
    cases hFound : table.registry.ofShape? fields with
    | some struct =>
      have hMem := mem_of_find?_eq_some hFound
      exact (hTable.structs struct hMem).type
    | none => exact lexicon.leaf (isLeaf_nextName table.registry)

/- A struct is declared under a name within the lexicon. -/
theorem preserves_declareStruct
    {name : Text} {fields : List (Text × TypeName)} (hName : lexicon.text name)
    (hType : lexicon.type ⟨name⟩) (hFields : ∀ field ∈ fields, lexicon.Field field) :
    Preserves lexicon.HasTable (declareStruct name fields) fun _ => True := by
  apply Preserves.bind Preserves.get
  intro table hTable
  by_cases hTaken : table.registry.contains name = true
  · simp only [Registry.declare, if_pos hTaken]
    exact .throw
  · simp only [Registry.declare, if_neg hTaken]
    apply Preserves.bind
    · exact .set (hTable.push ⟨hName, hType, hFields⟩)
    · intro _ _
      exact .pure trivial

-----
-- Decisions
-----

theorem preserves_arrayType {element : TypeName} (h : lexicon.type element) :
    Preserves lexicon.HasTable (arrayType raw element) lexicon.type := by
  unfold arrayType
  split
  · exact .throw
  · next hArray =>
    exact .pure (lexicon.arrayOf h (Bool.eq_false_of_not_eq_true hArray))

theorem preserves_namedType {name : Text} (h : TypeForm.ofText raw = .named name) :
    Preserves lexicon.HasTable (namedType raw name) lexicon.type := by
  apply Preserves.bind Preserves.get
  intro table hTable
  cases hAlias : table.alias? name with
  | some target =>
    rcases lookup_eq_some_iff.mp hAlias with ⟨_, _, hSplit, _⟩
    have hMem : (name, target) ∈ table.aliases := by simp [hSplit]
    exact .pure (hTable.aliases _ hMem)
  | none =>
    by_cases hIdentifier : name.isIdentifier = true
    · simp only [if_pos hIdentifier]
      exact .pure (lexicon.leaf (TypeForm.isLeaf_of_named h hIdentifier))
    · simp only [if_neg hIdentifier]
      exact .throw

theorem preserves_evalArgs
    {args : List TypeTerm} (h : ∀ arg ∈ args, Preserves lexicon.HasTable arg.eval lexicon.type) :
    Preserves lexicon.HasTable (evalArgs args)
      fun types =>
        types.length = args.length ∧ ∀ type ∈ types, lexicon.type type := by
  induction args with
  | nil => exact .pure ⟨rfl, by simp⟩
  | cons arg _ ih =>
    apply Preserves.bind (h arg mem_cons_self)
    intro first hFirst
    apply Preserves.bind (ih fun other hOther => h other (mem_cons_of_mem _ hOther))
    intro types hTypes
    refine .pure ⟨by simp [hTypes.1], ?_⟩
    exact forall_mem_cons.mpr ⟨hFirst, hTypes.2⟩

theorem preserves_evalMembers
    {fields : List (Text × Text)} (hNames : ∀ field ∈ fields, lexicon.text field.1)
    (hTypes : ∀ field ∈ fields, Preserves lexicon.HasTable (ofText field.2).eval lexicon.type) :
    Preserves lexicon.HasTable (evalMembers (fields.map fun field => (field.1, ofText field.2)))
      fun decided => ∀ field ∈ decided, lexicon.Field field := by
  induction fields with
  | nil => exact .pure (by simp)
  | cons field _ ih =>
    apply Preserves.bind (hTypes field mem_cons_self)
    intro first hFirst
    apply Preserves.bind
      (ih (fun other hOther => hNames other (mem_cons_of_mem _ hOther))
        fun other hOther => hTypes other (mem_cons_of_mem _ hOther))
    intro decided hDecided
    apply Leads.pure
    exact forall_mem_cons.mpr ⟨⟨hNames field mem_cons_self, hFirst⟩, hDecided⟩

/- Heads other than the builtin ones take any arguments. -/
theorem preserves_applied
    {head : Text} {args : List Text} (hForm : TypeForm.ofText raw = .applied head args)
    (hArgs : ∀ arg ∈ args, Preserves lexicon.HasTable (ofText arg).eval lexicon.type) :
    Preserves lexicon.HasTable (TypeTerm.applied raw head (args.map ofText)).eval lexicon.type := by
  rcases TypeForm.head_of_applied hForm with ⟨hIdentifier, hNative, hSome⟩
  unfold eval
  by_cases hArray : head = array
  · rw [if_pos hArray]
    match args with
    | [] => exact .throw
    | [arg] =>
      apply Preserves.bind (hArgs arg mem_cons_self)
      intro element hElement
      exact preserves_arrayType hElement
    | _ :: _ :: _ => exact .throw
  · rw [if_neg hArray]
    by_cases hPointer : head = pointer
    · rw [if_pos hPointer]
      match args with
      | [] => exact .throw
      | [arg] =>
        apply Preserves.bind (hArgs arg mem_cons_self)
        intro target hTarget
        exact .pure (lexicon.pointerTo hTarget)
      | _ :: _ :: _ => exact .throw
    · rw [if_neg hPointer]
      have hTerms :
          ∀ term ∈ args.map ofText, Preserves lexicon.HasTable term.eval lexicon.type := by
        intro term hTerm
        rcases mem_map.mp hTerm with ⟨arg, hArg, rfl⟩
        exact hArgs arg hArg
      apply Preserves.bind (preserves_evalArgs hTerms)
      intro types hTypes
      apply Leads.pure
      apply lexicon.applied ⟨hIdentifier, hNative, hArray, hPointer⟩ ?_ hTypes.2
      intro hNil
      apply hSome
      simpa [hNil] using hTypes.1.symm

/-
  A decision stays within the lexicon, by induction on the
  spelling: the parts of a form have fewer marks.
-/
theorem preserves_canonicalize (raw : Text) :
    Preserves lexicon.HasTable (canonicalize raw) lexicon.type := by
  induction hCount : raw.markCount using Nat.strong_induction_on generalizing raw with
  | _ _ ih =>
    have hParts :
        ∀ part ∈ (TypeForm.ofText raw).parts,
          Preserves lexicon.HasTable (ofText part).eval lexicon.type := by
      intro part hPart
      have hLt := TypeForm.markCount_lt_of_mem_parts hPart
      rw [hCount] at hLt
      exact ih part.markCount hLt part rfl
    unfold canonicalize
    rw [ofText_eq_term]
    cases hForm : TypeForm.ofText raw with
    | undecided | disallowed | malformed => exact .throw
    | string | bool => exact .pure (lexicon.leaf ⟨rfl, rfl, rfl⟩)
    | numeral => exact .pure (lexicon.leaf (isLeaf_numeric _))
    | shape =>
      rw [hForm] at hParts
      have hNames := TypeForm.isIdentifier_of_shape hForm
      apply Preserves.bind
      · apply preserves_evalMembers
        · intro field hField
          exact lexicon.identifier (hNames field hField)
        · intro field hField
          exact hParts field.2 (mem_map_of_mem hField)
      · intro decided hDecided
        exact preserves_intern hDecided
    | array element =>
      rw [hForm] at hParts
      apply Preserves.bind (hParts element (mem_singleton_self _))
      intro decided hDecided
      exact preserves_arrayType hDecided
    | applied =>
      rw [hForm] at hParts
      exact preserves_applied hForm hParts
    | named => exact preserves_namedType hForm

-----
-- Declarations
-----

theorem preserves_interfaceFields
    (interface : Text) {members : List InterfaceMember}
    (hNames : ∀ member ∈ members, lexicon.text member.name) :
    Preserves lexicon.HasTable (interfaceFields interface members)
      fun fields => ∀ field ∈ fields, lexicon.Field field := by
  induction members with
  | nil => exact .pure (by simp)
  | cons member _ ih =>
    rcases forall_mem_cons.mp hNames with ⟨hName, hRest⟩
    unfold interfaceFields
    split
    · exact .throw
    · split
      · exact .throw
      · apply Preserves.bind (preserves_canonicalize member.type.text)
        intro type hType
        apply Preserves.bind (ih hRest)
        intro fields hFields
        apply Leads.pure
        exact forall_mem_cons.mpr ⟨⟨hName, hType⟩, hFields⟩

/- An interface that has its names within the lexicon. -/
theorem preserves_declareInterface
    {decl : Interface} (hName : lexicon.text decl.name) (hType : lexicon.type ⟨decl.name⟩)
    (hMembers : ∀ member ∈ decl.members, lexicon.text member.name) :
    Preserves lexicon.HasTable (declareInterface decl) fun _ => True := by
  apply Preserves.bind Preserves.get
  intro table hTable
  split
  · exact .throw
  · apply Preserves.bind (preserves_interfaceFields decl.name hMembers)
    intro fields hFields
    split
    · exact .throw
    · exact preserves_declareStruct hName hType hFields

theorem preserves_addAlias (name : Text) {target : TypeName} (h : lexicon.type target) :
    Preserves lexicon.HasTable (addAlias name target) fun _ => True := by
  apply Preserves.intro
  · intro table hTable
    refine ⟨hTable.structs, ?_⟩
    exact forall_mem_cons.mpr ⟨h, hTable.aliases⟩
  · intro table other last _ _
    trivial

/- The members of an object type, decided one by one. -/
theorem preserves_shapeMembers
    {members : List (Text × TypeTerm)} (h : ofText raw = .shape members) :
    Preserves lexicon.HasTable (evalMembers members)
      fun fields => ∀ field ∈ fields, lexicon.Field field := by
  rw [ofText_eq_term] at h
  cases hForm : TypeForm.ofText raw with
  | shape =>
    rw [hForm] at h
    injection h with hMembers
    rw [← hMembers]
    apply preserves_evalMembers
    · intro field hField
      exact lexicon.identifier (TypeForm.isIdentifier_of_shape hForm field hField)
    · intro field _
      exact preserves_canonicalize field.2
  | _ =>
    rw [hForm] at h
    cases h

/- An alias of an object type is a struct under that name. -/
theorem preserves_declareAlias
    {decl : TypeAlias} (hName : lexicon.text decl.name) (hType : lexicon.type ⟨decl.name⟩) :
    Preserves lexicon.HasTable (declareAlias decl) fun _ => True := by
  apply Preserves.bind Preserves.get
  intro table hTable
  split
  · exact .throw
  · split
    · next members hTerm =>
      apply Preserves.bind (preserves_shapeMembers hTerm)
      intro fields hFields
      exact preserves_declareStruct hName hType hFields
    · apply Preserves.bind (preserves_canonicalize _)
      intro target hTarget
      exact preserves_addAlias decl.name hTarget

end Lexicon

end ScriptLowering
