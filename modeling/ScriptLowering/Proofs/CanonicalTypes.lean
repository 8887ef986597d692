import ScriptLowering.Proofs.LexiconCourse
import ScriptLowering.Proofs.TypeGrammar

/-
  Types have one spelling. Whatever the type spellings of a
  program look like, all types that compiling it comes by are
  words or applications of words in a plain grammar, without
  the words that are replaced or rejected and without arrays
  inside arrays or pointers.

  Key theorems include:
    * `Canonical.isArray_iff`
    * `types_canonical_throughout`
-/

namespace ScriptLowering

open Spelling List

-----
-- The Grammar
-----

/- Words that stand for a native word. -/
def replacedWords : List Text :=
  ["number", "bigint", "ptr"]

/- Words for booleans, rejected words and words of the host only. -/
def reservedWords : List Text :=
  ["boolean", "true", "false", "any", "const", "unknown",
    "undefined", "null", "never", "object", "symbol"]

/- All words with a meaning of their own in type spellings. -/
def spellingWords : List Text :=
  replacedWords ++ reservedWords ++ [array, pointer]

/-
  The canonical types: words, and applications of a word to
  canonical types. Arrays and pointers have one argument,
  which is no array.
-/
inductive Canonical : TypeName → Prop
  | word
      {name : Text} (hIdentifier : name.isIdentifier = true) (hReplaced : name ∉ replacedWords)
      (hReserved : name ∉ reservedWords) :
      Canonical ⟨name⟩
  | applied
      {head : Text} {args : List TypeName} (hIdentifier : head.isIdentifier = true)
      (hReplaced : head ∉ replacedWords) (hSome : args ≠ []) (hArgs : ∀ arg ∈ args, Canonical arg)
      (hBuiltin :
        head = array ∨ head = pointer →
          ∃ arg, args = [arg] ∧ ∀ inner, arg ≠ TypeName.applied array inner) :
      Canonical (TypeName.applied head args)

theorem hostWord_eq_none_iff {word : Text} :
    hostWord word = none ↔ word ∉ replacedWords := by
  simp only [hostWord, replacedWords, mem_cons, not_mem_nil, or_false, not_or]
  by_cases hNumber : word = "number"
  · simp [hNumber]
  · by_cases hBigint : word = "bigint"
    · simp [hBigint]
    · by_cases hPtr : word = "ptr"
      · simp [hPtr]
      · rw [if_neg hNumber, if_neg hBigint, if_neg hPtr]
        exact ⟨fun _ => ⟨hNumber, hBigint, hPtr⟩, fun _ => rfl⟩

theorem isLeaf_iff {name : Text} :
    IsLeaf name ↔ name.isIdentifier = true ∧ name ∉ replacedWords ∧ name ∉ reservedWords := by
  have hReserved :
      (isBoolean name || isDisallowed name || isHostOnly name) = false ↔ name ∉ reservedWords := by
    simp [isBoolean, isDisallowed, isHostOnly, reservedWords, and_assoc]
  constructor
  · intro h
    exact ⟨h.identifier, hostWord_eq_none_iff.mp h.native, hReserved.mp h.decided⟩
  · intro h
    exact ⟨h.1, hostWord_eq_none_iff.mpr h.2.1, hReserved.mpr h.2.2⟩

-----
-- Reading Canonical Types
-----

namespace Canonical

theorem isWhole {type : TypeName} (h : Canonical type) :
    type.IsWhole := by
  induction h with
  | word hIdentifier => exact .word hIdentifier
  | applied hIdentifier _ _ _ _ ih => exact .applied hIdentifier ih

/- Applications of different words are different types. -/
theorem head_eq_of_applied_eq
    {head other : Text} {args others : List TypeName} (hHead : head.isIdentifier = true)
    (hOther : other.isIdentifier = true)
    (h : TypeName.applied head args = TypeName.applied other others) :
    head = other := by
  have hText := congrArg TypeName.text h
  rw [TypeName.text_applied, TypeName.text_applied] at hText
  have hTake := congrArg (takeWhile (· != '<')) hText
  rwa [(Application.takeWhile_head hHead _).1, (Application.takeWhile_head hOther _).1] at hTake

/- An array type is an application of the array head. -/
theorem arrayElement?_eq_some
    {type element : TypeName} (h : Canonical type) (hElement : type.arrayElement? = some element) :
    Canonical element ∧ type = TypeName.arrayOf element ∧
      ∀ inner, element ≠ TypeName.applied array inner := by
  cases h with
  | word hIdentifier =>
    rw [TypeName.arrayElement?, TypeName.argumentOf?_word hIdentifier] at hElement
    cases hElement
  | applied hIdentifier _ hSome hArgs hBuiltin =>
    rw [TypeName.arrayElement?,
      TypeName.argumentOf?_applied_iff hIdentifier hSome fun arg hArg =>
        (hArgs arg hArg).isWhole] at hElement
    rcases hElement with ⟨rfl, rfl⟩
    rcases hBuiltin (.inl rfl) with ⟨_, hArg, hFlat⟩
    cases hArg
    exact ⟨hArgs element mem_cons_self, rfl, hFlat⟩

theorem isArray_iff {type : TypeName} (h : Canonical type) :
    type.isArray = true ↔ ∃ inner, type = TypeName.applied array inner := by
  constructor
  · intro hArray
    rcases Option.isSome_iff_exists.mp hArray with ⟨element, hElement⟩
    exact ⟨[element], (h.arrayElement?_eq_some hElement).2.1⟩
  · intro hApplied
    rcases hApplied with ⟨inner, hInner⟩
    cases h with
    | @word name hIdentifier =>
      have hText : name = (TypeName.applied array inner).text := congrArg TypeName.text hInner
      rw [TypeName.text_applied] at hText
      have hBracket : '<' ∈ name := by
        rw [hText]
        simp
      exact absurd rfl (TypeName.ne_bracket_of_isIdentifier hIdentifier '<' hBracket)
    | @applied _ _ hIdentifier _ hSome hArgs hBuiltin =>
      have hHead := head_eq_of_applied_eq hIdentifier rfl hInner
      subst hHead
      rcases hBuiltin (.inl rfl) with ⟨arg, rfl, _⟩
      refine Option.isSome_iff_exists.mpr ⟨arg, ?_⟩
      rw [TypeName.arrayElement?,
        TypeName.argumentOf?_applied_iff hIdentifier hSome fun arg hArg => (hArgs arg hArg).isWhole]
      exact ⟨rfl, rfl⟩

/- Where nothing is an array, nothing is an applied array. -/
theorem ne_applied_array
    {type : TypeName} (h : Canonical type) (hArray : type.isArray = false) (inner : List TypeName) :
    type ≠ TypeName.applied array inner := by
  intro hSame
  have hTrue := h.isArray_iff.mpr ⟨inner, hSame⟩
  rw [hArray] at hTrue
  cases hTrue

/- An application of one of the two builtin heads. -/
theorem builtin
    {head : Text} (hHead : head = array ∨ head = pointer) {arg : TypeName} (hArg : Canonical arg)
    (hFlat : ∀ inner, arg ≠ TypeName.applied array inner) :
    Canonical (TypeName.applied head [arg]) := by
  have hWord : head.isIdentifier = true ∧ hostWord head = none := by
    rcases hHead with rfl | rfl
    · exact ⟨rfl, rfl⟩
    · exact ⟨rfl, rfl⟩
  apply Canonical.applied hWord.1 (hostWord_eq_none_iff.mp hWord.2)
  · exact cons_ne_nil _ _
  · exact forall_mem_singleton.mpr hArg
  · intro _
    exact ⟨arg, rfl, hFlat⟩

/- A pointer to an array points to its elements instead. -/
theorem pointerTo {target : TypeName} (h : Canonical target) :
    Canonical (TypeName.pointerTo target) := by
  unfold TypeName.pointerTo
  cases hElement : target.arrayElement? with
  | some =>
    rcases h.arrayElement?_eq_some hElement with ⟨hCanonical, _, hFlat⟩
    exact builtin (.inr rfl) hCanonical hFlat
  | none =>
    apply builtin (.inr rfl) h
    apply h.ne_applied_array
    simp [TypeName.isArray, hElement]

end Canonical

-----
-- Canonical Throughout
-----

/- Canonical types are closed under all that lowering does. -/
def canonicalLexicon : Lexicon where
  toTextLaws := .all
  type := Canonical
  identifier _ := trivial
  leaf h := by
    rcases isLeaf_iff.mp h with ⟨hIdentifier, hReplaced, hReserved⟩
    exact .word hIdentifier hReplaced hReserved
  applied hHead hSome hArgs := by
    apply Canonical.applied hHead.identifier (hostWord_eq_none_iff.mp hHead.native) hSome hArgs
    intro hBuiltin
    rcases hBuiltin with hArray | hPointer
    · exact absurd hArray hHead.ne_array
    · exact absurd hPointer hHead.ne_pointer
  arrayOf hElement hArray :=
    .builtin (Or.inl rfl) hElement (hElement.ne_applied_array hArray)
  pointerTo hTarget := hTarget.pointerTo
  arrayElement hArray hElement :=
    (hArray.arrayElement?_eq_some hElement).1

/- All types of a state are canonical. -/
structure CanonicalState (state : LowerState) : Prop where
  bindings :
    ∀ frame ∈ state.scope.frames, ∀ entry ∈ frame, Canonical entry.2.type
  fields :
    ∀ struct ∈ state.types.registry.structs, ∀ field ∈ struct.fields, Canonical field.2
  aliases : ∀ entry ∈ state.types.aliases, Canonical entry.2

def Moment.IsCanonical : Moment → Prop
  | .reached state => CanonicalState state
  | .written type => Canonical type
  | .recorded signature => ∀ type ∈ signature.types, Canonical type

theorem isCanonical_of_hasMoment
    {moment : Moment} (h : canonicalLexicon.tracking.HasMoment () moment) :
    moment.IsCanonical := by
  cases moment with
  | reached =>
    constructor
    · exact h.scope
    · intro struct hStruct field hField
      exact ((h.types.structs struct hStruct).fields field hField).2
    · exact h.types.aliases
  | written => exact h.2
  | recorded =>
    intro type hType
    exact (h.has.types type hType).2

theorem hasProgram_canonicalLexicon
    {program : Program}
    (h : ∀ name ∈ program.typeNames, name.isIdentifier = true ∧ name ∉ spellingWords) :
    canonicalLexicon.HasProgram program := by
  constructor
  · intro part _ text _
    trivial
  · intro name hName
    rcases h name hName with ⟨hIdentifier, hWords⟩
    simp only [spellingWords, mem_append, not_or] at hWords
    exact .word hIdentifier hWords.1.1 hWords.1.2

theorem canonical_of_mem_file_types
    {program : Program} (h : canonicalLexicon.HasProgram program) (run : Compilation program) :
    ∀ type ∈ run.file.types, Canonical type := by
  intro type hType
  rcases mem_append.mp hType with hItems | hFields
  · rcases mem_flatMap.mp hItems with ⟨item, hItem, hOwn⟩
    exact (h.items run item hItem).types type hOwn
  · rcases mem_flatMap.mp hFields with ⟨struct, hStruct, hOwn⟩
    rcases mem_map.mp hOwn with ⟨field, hField, rfl⟩
    exact ((h.structs run struct hStruct).fields field hField).2

/-
  If the declared type names are identifiers and none of them
  is a word of the spellings, then all types that lowering
  comes by are canonical: those of each moment, among which
  are the states after each step, and those in the file.
-/
theorem types_canonical_throughout
    {program : Program}
    (hNames : ∀ name ∈ program.typeNames, name.isIdentifier = true ∧ name ∉ spellingWords) :
    (∀ moment ∈ program.moments, moment.IsCanonical) ∧
      (∀ site, program.startSite? = some site →
        ∀ done rest, program.steps site = done ++ rest →
          .reached (stateLeft (lowerSteps done LowerState.start)) ∈ program.moments) ∧
      ∀ run : Compilation program, ∀ type ∈ run.file.types, Canonical type := by
  have hProgram := hasProgram_canonicalLexicon hNames
  refine ⟨?_, ?_, ?_⟩
  · intro moment hMoment
    exact isCanonical_of_hasMoment (hProgram.moments moment hMoment)
  · intro site hStart done rest hSteps
    exact Program.reached_mem_moments hStart hSteps
  · exact canonical_of_mem_file_types hProgram

/- The type that is written at a moment. -/
def Moment.written? : Moment → Option TypeName
  | .written type => some type
  | _ => none

/-
  A unit with spellings of many forms: replaced words, an
  alias, an object type, and pointers to arrays.
-/
def spelledUnit : Program :=
  ⟨[⟨"main.ts", [],
        [.interface plainNode
            ⟨"Point",
              [⟨"x", ⟨"number", Span.nowhere⟩, false, false, false, Span.nowhere⟩,
                ⟨"row", ⟨"ptr< Array<bigint>>", Span.nowhere⟩, false, false, false, Span.nowhere⟩]⟩,
          .typeAlias plainNode ⟨"Row", ⟨"number[]", Span.nowhere⟩⟩,
          .function plainNode
            ⟨"f",
              [⟨plainNode, "p", some ⟨"Point", Span.nowhere⟩⟩,
                ⟨plainNode, "s", some ⟨"\x7bcells: Row\x7d", Span.nowhere⟩⟩],
              some ⟨"Row", Span.nowhere⟩⟩
            (some
              [.ret plainNode
                (some
                  (.array plainNode
                    [.assertion plainNode (.ident plainNode "p") ⟨"ptr<Row>", Span.nowhere⟩]))])]⟩],
    some 0, NodeTypes.ofList [], []⟩

theorem spelledUnit_types_canonical :
    (∀ name ∈ spelledUnit.typeNames, name.isIdentifier = true ∧ name ∉ spellingWords) ∧
      spelledUnit.moments.filterMap Moment.written? = [⟨"Array<i32>"⟩, ⟨"Pointer<i32>"⟩] ∧
      (∀ moment ∈ spelledUnit.moments, moment.IsCanonical) ∧
      ∃ run : Compilation spelledUnit,
        run.file.types =
            [⟨"Array<i32>"⟩, ⟨"Point"⟩, ⟨"anon_struct_0"⟩,
              ⟨"Array<i32>"⟩, ⟨"Pointer<i32>"⟩, ⟨"i32"⟩,
              ⟨"Pointer<i64>"⟩, ⟨"Array<i32>"⟩] ∧
          ∀ type ∈ run.file.types, Canonical type := by
  have hNames :
      ∀ name ∈ spelledUnit.typeNames, name.isIdentifier = true ∧ name ∉ spellingWords := by
    decide +kernel
  have hPasses :
      Compilation.passes spelledUnit (fun _ items state =>
        decide
          ((codeFile state.types items).types =
            [⟨"Array<i32>"⟩, ⟨"Point"⟩, ⟨"anon_struct_0"⟩,
              ⟨"Array<i32>"⟩, ⟨"Pointer<i32>"⟩, ⟨"i32"⟩,
              ⟨"Pointer<i64>"⟩, ⟨"Array<i32>"⟩])) =
        true := by
    decide +kernel
  rcases Compilation.exists_of_passes hPasses with ⟨run⟩
  have hTypes := of_decide_eq_true (run.check_of_passes hPasses)
  have hAll := types_canonical_throughout hNames
  refine ⟨hNames, ?_, hAll.1, run, hTypes, hAll.2.2 run⟩
  decide +kernel

end ScriptLowering
