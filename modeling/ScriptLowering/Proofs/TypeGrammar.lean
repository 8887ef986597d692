import ScriptLowering.Proofs.SpelledTypes
import ScriptLowering.Proofs.TypeWords
import ScriptLowering.Vocabulary.Native

/-
  The grammar of types. A type is a word, or a word applied to
  types. What a type is made of is read back from its text:
  the head and the arguments, the element of an array, what a
  pointer points to, and the words from left to right.

  Key theorems include:
    * `TypeName.ofText?_applied`
    * `types_read_back`
-/

namespace ScriptLowering

open Text Spelling List

-----
-- Arguments In A Text
-----

theorem joinWith_cons_cons (part next : Text) (rest : List Text) :
    joinWith ", " (part :: next :: rest) =
      part ++ ',' :: ([' '] ++ joinWith ", " (next :: rest)) := by
  simp [joinWith]

theorem Nested.joinWith {parts : List Text} (h : ∀ part ∈ parts, Nested false part) :
    Nested true (joinWith ", " parts) := by
  have hSeparator : Nested true [',', ' '] := by
    apply Nested.of_forall
    intro c hMem
    simp only [mem_cons, not_mem_nil, or_false] at hMem
    rcases hMem with rfl | rfl
    · exact .inr (.inr ⟨rfl, mem_cons_self⟩)
    · exact .inr (.inl rfl)
  induction parts with
  | nil => exact .nil
  | cons _ rest ih =>
    rcases forall_mem_cons.mp h with ⟨hPart, hRest⟩
    cases rest with
    | nil => exact hPart.within
    | cons => exact (hPart.within.append hSeparator).append (ih hRest)

/- Words are replaced in each part of a list. -/
theorem mapWords_joinWith (table : Text → Option Text) (parts : List Text) :
    mapWords table (joinWith ", " parts) = joinWith ", " (parts.map (mapWords table)) := by
  induction parts with
  | nil => rfl
  | cons _ rest ih =>
    cases rest with
    | nil => rfl
    | cons =>
      rw [joinWith_cons_cons, mapWords_append_mark table rfl, singleton_append,
        mapWords_cons_mark table rfl, ih]
      simp [joinWith]

namespace TypeName

/- A type whose text is told apart from what stands around it. -/
structure IsWhole (type : TypeName) : Prop where
  nested : Nested false type.text
  tight : type.text.Tight

/- Parts that are joined by commas can be told apart again. -/
theorem map_trim_splitTopLevel
    {args : List TypeName} (hSome : args ≠ []) (hArgs : ∀ arg ∈ args, IsWhole arg) {before : Text}
    (hBefore : ∀ c ∈ before, isBlank c = true) :
    (splitTopLevel [','] (before ++ joinWith ", " (args.map text))).map trim = args.map text := by
  have hComma : [','].all isDelimiter = true := rfl
  induction args generalizing before with
  | nil => exact absurd rfl hSome
  | cons arg rest ih =>
    rcases forall_mem_cons.mp hArgs with ⟨hArg, hRest⟩
    have hUncut := ((Nested.of_blanks hBefore).append hArg.nested).uncut hComma
    have hTrim : trim (before ++ arg.text) = arg.text := by
      simpa using trim_append_blanks hBefore hArg.tight (forall_mem_nil _)
    cases rest with
    | nil =>
      rw [show joinWith ", " ([arg].map text) = arg.text from rfl,
        splitTopLevel_eq_singleton hUncut, map_singleton, hTrim]
      rfl
    | cons =>
      have hBlank : ∀ c ∈ [' '], isBlank c = true := forall_mem_singleton.mpr rfl
      rw [map_cons, map_cons, joinWith_cons_cons, ← append_assoc,
        splitTopLevel_append hUncut rfl mem_cons_self, map_cons, hTrim, ← map_cons,
        ih (cons_ne_nil _ _) hRest hBlank]

variable {head : Text} {args : List TypeName}

/- The text of an application, bracket by bracket. -/
theorem text_applied (head : Text) (args : List TypeName) :
    (applied head args).text = head ++ '<' ::
        (joinWith ", " (args.map text) ++ ['>']) := by
  simp [applied]

namespace IsWhole

theorem word (hHead : head.isIdentifier = true) :
    IsWhole ⟨head⟩ :=
  ⟨.of_isWord (.of_isIdentifier hHead), (IsWord.of_isIdentifier hHead).tight⟩

theorem applied (hHead : head.isIdentifier = true) (hArgs : ∀ arg ∈ args, IsWhole arg) :
    IsWhole (applied head args) := by
  have hWord := word hHead
  constructor
  · rw [text_applied]
    apply hWord.nested.append
    apply Nested.bracket mem_cons_self
    exact .joinWith (forall_mem_map.mpr fun arg hArg => (hArgs arg hArg).nested)
  · rw [text_applied]
    rcases hWord.tight.1 with ⟨c, hFirst, hBlank⟩
    refine ⟨⟨c, ?_, hBlank⟩, '>', ?_, rfl⟩
    · rw [head?_append, hFirst]
      rfl
    · rw [← cons_append, ← append_assoc, getLast?_concat]

end IsWhole

/- An application is read as its head and its arguments. -/
theorem ofText?_applied
    (hHead : head.isIdentifier = true) (hSome : args ≠ []) (hArgs : ∀ arg ∈ args, IsWhole arg) :
    Application.ofText? (applied head args).text = some ⟨head, args.map text⟩ := by
  have hNested : ∀ part ∈ args.map text, Nested false part :=
    forall_mem_map.mpr fun arg hArg => (hArgs arg hArg).nested
  have hSplit := map_trim_splitTopLevel hSome hArgs (forall_mem_nil _)
  rw [nil_append] at hSplit
  rw [text_applied, Application.ofText?_applied hHead (Nested.joinWith hNested).balanced, hSplit]

theorem ne_bracket_of_isIdentifier (hHead : head.isIdentifier = true) :
    ∀ c ∈ head, c ≠ '<' := by
  intro c hMem
  exact (IsWord.of_isIdentifier hHead).ne_of_mem hMem rfl

theorem argumentOf?_word (hHead : head.isIdentifier = true) (other : Text) :
    argumentOf? other ⟨head⟩ = none := by
  simp [argumentOf?, Application.ofText?_eq_none (ne_bracket_of_isIdentifier hHead)]

/- The only argument of an application is read back. -/
theorem argumentOf?_applied_iff
    (hHead : head.isIdentifier = true) (hSome : args ≠ []) (hArgs : ∀ arg ∈ args, IsWhole arg)
    {other : Text} {arg : TypeName} :
    argumentOf? other (applied head args) = some arg ↔ head = other ∧ args = [arg] := by
  simp only [argumentOf?, ofText?_applied hHead hSome hArgs]
  rcases args with _ | ⟨_, _ | ⟨_, _⟩⟩
  · exact absurd rfl hSome
  · by_cases hOther : head = other
    · simp [hOther]
    · simp [hOther]
  · simp

theorem hasAccessorProperties_word_iff (hHead : head.isIdentifier = true) :
    Native.hasAccessorProperties head = true ↔ head = Spelling.string := by
  simp only [Native.hasAccessorProperties, Bool.or_eq_true, beq_iff_eq]
  refine or_iff_left fun hArray => ?_
  have hFront := isPrefixOf_iff_prefix.mp hArray
  have hMem : '<' ∈ head := hFront.subset (by decide)
  exact ne_bracket_of_isIdentifier hHead '<' hMem rfl

theorem hasAccessorProperties_applied_iff
    (hHead : head.isIdentifier = true) (args : List TypeName) :
    Native.hasAccessorProperties (applied head args).text = true ↔ head = array := by
  simp only [Native.hasAccessorProperties, Bool.or_eq_true, beq_iff_eq, text_applied]
  constructor
  · rintro (hString | hArray)
    · have hMem : '<' ∈ Spelling.string := by
        rw [← hString]
        simp
      exact absurd hMem (by decide)
    · rcases isPrefixOf_iff_prefix.mp hArray with ⟨_, hText⟩
      have hTake := congrArg (takeWhile (· != '<')) hText
      rw [(Application.takeWhile_head hHead _).1] at hTake
      exact hTake.symm
  · rintro rfl
    exact .inr rfl

/- Rendering goes through applications. -/
theorem render_applied (head : Text) (args : List TypeName) :
    (applied head args).render =
      (applied (mapWords targetWord head) (args.map fun arg => ⟨arg.render⟩)).text := by
  unfold render
  rw [text_applied, text_applied, mapWords_append_mark _ rfl, mapWords_append_mark _ rfl,
    mapWords_joinWith, map_map, map_map]
  rfl

end TypeName

-----
-- Trees
-----

/- A type of the grammar: a word, or one with arguments. -/
inductive TypeTree where
  | word (name : Identifier)
  | applied (head : Identifier) (first : TypeTree) (rest : List TypeTree)

namespace TypeTree

def arrayWord : Identifier :=
  ⟨array, rfl⟩

def pointerWord : Identifier :=
  ⟨pointer, rfl⟩

@[elab_as_elim]
theorem induction
    {motive : TypeTree → Prop} (word : ∀ name, motive (.word name))
    (applied :
      ∀ head first rest, (∀ arg ∈ first :: rest, motive arg) → motive (.applied head first rest))
    (tree : TypeTree) :
    motive tree :=
  @TypeTree.rec motive (fun trees => ∀ tree ∈ trees, motive tree) word
    (fun head first rest hFirst hRest =>
      applied head first rest (forall_mem_cons.mpr ⟨hFirst, hRest⟩))
    (forall_mem_nil _) (fun _ _ hFirst hRest => forall_mem_cons.mpr ⟨hFirst, hRest⟩) tree

/- The type of a tree, with its words in another spelling. -/
def spelled (spell : Text → Text) : TypeTree → TypeName
  | .word name => ⟨spell name⟩
  | .applied head first rest =>
      .applied (spell head) (first.spelled spell :: rest.map (spelled spell))

def type : TypeTree → TypeName :=
  spelled id

/- The words of a tree, from left to right. -/
def names : TypeTree → List Text
  | .word name => [name.val]
  | .applied head first rest =>
      head :: (first.names ++ rest.flatMap names)

/- The only argument of a tree with a given head. -/
def argument? (head : Text) : TypeTree → Option TypeTree
  | .applied found first [] =>
      if found.val = head then
        some first
      else
        none
  | _ => none

theorem eq_applied_of_argument?
    {head : Text} {tree arg : TypeTree} (h : tree.argument? head = some arg) :
    ∃ found : Identifier, found.val = head ∧ tree = .applied found arg [] := by
  unfold argument? at h
  split at h
  · split at h
    · next hHead =>
      cases h
      exact ⟨_, hHead, rfl⟩
    · cases h
  · cases h

theorem type_applied (head : Identifier) (first : TypeTree) (rest : List TypeTree) :
    (applied head first rest).type = .applied head ((first :: rest).map type) := by
  rw [type, spelled]
  rfl

theorem isWhole_type (tree : TypeTree) :
    tree.type.IsWhole := by
  induction tree using induction with
  | word name =>
    rw [type, spelled]
    exact .word name.property
  | applied head _ _ ih =>
    rw [type_applied]
    exact .applied head.property (forall_mem_map.mpr ih)

theorem ofText?_type_applied (head : Identifier) (first : TypeTree) (rest : List TypeTree) :
    Application.ofText? (applied head first rest).type.text =
      some ⟨head, (first :: rest).map fun arg => arg.type.text⟩ := by
  have hSome : (first :: rest).map type ≠ [] := cons_ne_nil _ _
  have hWhole : ∀ arg ∈ (first :: rest).map type, arg.IsWhole :=
    forall_mem_map.mpr fun tree _ => isWhole_type tree
  rw [type_applied, TypeName.ofText?_applied head.property hSome hWhole, map_map]
  rfl

theorem argumentOf?_type (head : Text) (tree : TypeTree) :
    tree.type.argumentOf? head = (tree.argument? head).map type := by
  cases tree with
  | word name =>
    rw [type, spelled]
    exact TypeName.argumentOf?_word name.property head
  | applied found _ rest =>
    rw [TypeName.argumentOf?, ofText?_type_applied]
    cases rest with
    | cons => rfl
    | nil =>
      by_cases hHead : found.val = head
      · simp [argument?, hHead]
      · simp [argument?, hHead]

theorem referencedNames_type (tree : TypeTree) :
    tree.type.referencedNames = tree.names := by
  induction tree using induction with
  | word name =>
    rw [type, spelled, names]
    exact words_eq_singleton (.of_isIdentifier name.property)
  | applied head _ _ ih =>
    rcases forall_mem_cons.mp ih with ⟨hFirst, hRest⟩
    rw [type_applied, TypeName.referencedNames_applied, names,
      words_eq_singleton (.of_isIdentifier head.property), map_cons, flatMap_cons, hFirst,
      flatMap_map, flatMap_def, map_congr_left hRest]
    rfl

/- The C++ word for a word of a type. -/
def targetName (name : Text) : Text :=
  if name = string then
    "String"
  else
    name

theorem mapWords_targetWord (name : Identifier) :
    mapWords targetWord name = targetName name := by
  rw [mapWords_word _ (.of_isIdentifier name.property)]
  unfold replaceWord targetWord targetName
  split
  · rfl
  · rfl

theorem render_type (tree : TypeTree) :
    tree.type.render = (tree.spelled targetName).text := by
  induction tree using induction with
  | word name =>
    rw [type, spelled, spelled]
    exact mapWords_targetWord name
  | applied _ first rest ih =>
    have hArgs :
        ((first :: rest).map type).map (fun arg => (⟨arg.render⟩ : TypeName)) =
          (first :: rest).map (spelled targetName) := by
      rw [map_map]
      exact map_congr_left fun arg hArg => congrArg TypeName.mk (ih arg hArg)
    rw [type_applied, spelled, TypeName.render_applied, mapWords_targetWord, hArgs, map_cons]

theorem arrayElement?_arrayOf_type (tree : TypeTree) :
    (TypeName.arrayOf tree.type).arrayElement? = some tree.type := by
  have hRead := argumentOf?_type array (.applied arrayWord tree [])
  rw [type_applied] at hRead
  exact hRead

theorem pointerTarget?_pointerTo_type (tree : TypeTree) :
    (TypeName.pointerTo tree.type).pointerTarget? =
      some ((tree.argument? array).getD tree).type := by
  have hRead :=
    argumentOf?_type pointer (.applied pointerWord ((tree.argument? array).getD tree) [])
  rw [type_applied] at hRead
  rw [TypeName.pointerTo, TypeName.arrayElement?, argumentOf?_type, Option.getD_map]
  exact hRead

theorem isArray_type (tree : TypeTree) :
    tree.type.isArray = (tree.argument? array).isSome := by
  rw [TypeName.isArray, TypeName.arrayElement?, argumentOf?_type, Option.isSome_map]

/- One head is not both that of arrays and that of pointers. -/
theorem not_isArray_and_isPointer (tree : TypeTree) :
    ¬(tree.type.isArray = true ∧ tree.type.isPointer = true) := by
  rw [TypeName.isPointer, TypeName.pointerTarget?, argumentOf?_type, Option.isSome_map,
    isArray_type]
  rintro ⟨hArray, hPointer⟩
  rcases Option.isSome_iff_exists.mp hArray with ⟨_, hElement⟩
  rcases Option.isSome_iff_exists.mp hPointer with ⟨_, hTarget⟩
  rcases eq_applied_of_argument? hElement with ⟨_, hFound, rfl⟩
  rcases eq_applied_of_argument? hTarget with ⟨_, hOther, hTree⟩
  cases hTree
  exact absurd (hFound.symm.trans hOther) (by decide)

theorem hasAccessorProperties_type_iff (tree : TypeTree) :
    Native.hasAccessorProperties tree.type.text = true ↔
      tree.type.isString = true ∨ tree.type.isArray = true ∨
        ∃ first second rest, tree = .applied arrayWord first (second :: rest) := by
  constructor
  · intro hAccessors
    cases tree with
    | word name =>
      rw [type, spelled] at hAccessors ⊢
      have hString := (TypeName.hasAccessorProperties_word_iff name.property).mp hAccessors
      exact .inl (beq_iff_eq.mpr hString)
    | applied head first rest =>
      rw [type_applied, TypeName.hasAccessorProperties_applied_iff head.property] at hAccessors
      have hHead : head = arrayWord := Subtype.ext hAccessors
      cases rest with
      | nil =>
        rw [isArray_type, hHead]
        exact .inr (.inl rfl)
      | cons second rest => exact .inr (.inr ⟨first, second, rest, by rw [hHead]⟩)
  · rintro (hString | hArray | ⟨_, _, _, rfl⟩)
    · exact Bool.or_eq_true_iff.mpr (.inl hString)
    · rw [isArray_type] at hArray
      rcases Option.isSome_iff_exists.mp hArray with ⟨_, hElement⟩
      rcases eq_applied_of_argument? hElement with ⟨found, hFound, rfl⟩
      rw [type_applied, TypeName.hasAccessorProperties_applied_iff found.property, hFound]
    · rw [type_applied]
      exact (TypeName.hasAccessorProperties_applied_iff arrayWord.property _).mpr rfl

end TypeTree

/-
  A type is read back from its text: the head and the arguments
  of an application, the element of an array, what a pointer
  points to, and the words from left to right. No array is a
  pointer. Properties are accessors for strings, for arrays,
  and where `Array` has two arguments or more. Only the word
  `string` is rendered as another.
-/
theorem types_read_back (tree : TypeTree) :
    (∀ head rest,
        Application.ofText? (TypeTree.applied head tree rest).type.text =
          some ⟨head, (tree :: rest).map fun arg => arg.type.text⟩) ∧
      (TypeName.arrayOf tree.type).arrayElement? = some tree.type ∧
      (TypeName.pointerTo tree.type).pointerTarget? = some ((tree.argument? array).getD tree).type ∧
      tree.type.isArray = (tree.argument? array).isSome ∧
      ¬(tree.type.isArray = true ∧ tree.type.isPointer = true) ∧
      (Native.hasAccessorProperties tree.type.text = true ↔
        tree.type.isString = true ∨ tree.type.isArray = true ∨
          ∃ first second rest, tree = .applied TypeTree.arrayWord first (second :: rest)) ∧
      tree.type.referencedNames = tree.names ∧
      tree.type.render = (tree.spelled TypeTree.targetName).text :=
  ⟨fun head => TypeTree.ofText?_type_applied head tree, tree.arrayElement?_arrayOf_type,
    tree.pointerTarget?_pointerTo_type, tree.isArray_type, tree.not_isArray_and_isPointer,
    tree.hasAccessorProperties_type_iff, tree.referencedNames_type, tree.render_type⟩

/- An array of two arguments has accessors, but it is no array. -/
theorem wide_array_has_accessors :
    ¬∀ tree : TypeTree,
        Native.hasAccessorProperties tree.type.text = true ↔
          tree.type.isString = true ∨ tree.type.isArray = true := by
  intro hAll
  have hWide := hAll (.applied TypeTree.arrayWord (.word ⟨"u8", rfl⟩) [.word ⟨"u8", rfl⟩])
  have hText : (TypeTree.word ⟨"u8", rfl⟩).type = ⟨"u8"⟩ := by
    rw [TypeTree.type, TypeTree.spelled]
    rfl
  rw [TypeTree.type_applied, map_cons, map_singleton, hText] at hWide
  exact absurd hWide (by decide)

end ScriptLowering
