import ScriptLowering.Proofs.LoweringLog
import ScriptLowering.Proofs.TypeWords

/-
  Aliases in written types. An alias is replaced by its
  target when a type that spells it is decided, and what was
  decided is kept. So a written type mentions the name of an
  alias exactly if a decision behind it found the name where
  nothing replaced it.

  Key theorems include:
    * `Valid.exists_bare_spelling`
    * `alias_in_type_iff_exposed`
-/

namespace ScriptLowering

open List TypeTable TableEvent TypeTerm

-----
-- Words Of Types
-----

variable {log : List TableEvent} {type target : TypeName} {name : Text}
variable {term : TypeTerm} {table : TypeTable}

/- Wrapping adds no word of its own but the builtin heads. -/
theorem WrapOf.mem_referencedNames_iff
    {base : TypeName} (h : WrapOf base type) (hArray : name ≠ Spelling.array)
    (hPointer : name ≠ Spelling.pointer) :
    name ∈ type.referencedNames ↔ name ∈ base.referencedNames := by
  induction h with
  | refl => rfl
  | pointerTo _ ih =>
    rw [TypeName.mem_referencedNames_pointerTo_iff hArray hPointer]
    exact ih
  | element _ hElement ih =>
    rw [TypeName.referencedNames_of_arrayElement? hElement, mem_cons, or_iff_right hArray] at ih
    exact ih

-----
-- Names That Nothing Else Has
-----

/- The words of types that are there without a declaration. -/
def builtinWords : List Text :=
  Spelling.array :: Spelling.pointer ::
    (TypeName.string :: TypeName.bool ::
      TypeName.numeric NumericKind.defaultFloat ::
      TypeName.numeric NumericKind.defaultInteger ::
      nativeTypes).flatMap TypeName.referencedNames

/- A name is neither a builtin word nor a word of a struct name. -/
structure TypeTable.Unclaimed (table : TypeTable) (name : Text) : Prop where
  builtin : name ∉ builtinWords
  structs :
    ∀ struct ∈ table.registry.structs, name ∉ Text.words struct.name

instance (table : TypeTable) (name : Text) :
    Decidable (table.Unclaimed name) :=
  decidable_of_iff
    (name ∉ builtinWords ∧ ∀ struct ∈ table.registry.structs, name ∉ Text.words struct.name)
    ⟨fun h => ⟨h.1, h.2⟩, fun h => ⟨h.builtin, h.structs⟩⟩

namespace TypeTable.Unclaimed

theorem ne_array (h : table.Unclaimed name) :
    name ≠ Spelling.array := by
  intro hEq
  exact h.builtin (by simp [builtinWords, hEq])

theorem ne_pointer (h : table.Unclaimed name) :
    name ≠ Spelling.pointer := by
  intro hEq
  exact h.builtin (by simp [builtinWords, hEq])

/- Structs are never taken back. -/
theorem of_later
    {log later : List TableEvent} (h : (replay later).Unclaimed name) (hLater : log <+: later) :
    (replay log).Unclaimed name := by
  refine ⟨h.builtin, ?_⟩
  intro struct hStruct
  have hLayout : { struct with used := false } ∈ (replay later).registry.layouts :=
    (layouts_mono hLater).subset (mem_map_of_mem hStruct)
  rcases mem_map.mp hLayout with ⟨same, hSame, hEq⟩
  have hName : same.name = struct.name := (Struct.mk.inj hEq).1
  rw [← hName]
  exact h.structs same hSame

end TypeTable.Unclaimed

theorem Registry.exists_intern_name (registry : Registry) (fields : List (Text × TypeName)) :
    ∃ struct ∈ (registry.intern fields).2.structs, (registry.intern fields).1 = ⟨struct.name⟩ := by
  rcases intern_cases registry fields with ⟨struct, hFound, hIntern⟩ | ⟨_, hIntern⟩
  · rw [hIntern]
    exact ⟨struct, mem_of_find?_eq_some hFound, rfl⟩
  · rw [hIntern]
    exact ⟨_, mem_append_right _ (mem_singleton_self _), rfl⟩

-----
-- Names In Terms
-----

mutual

/-
  A term has a name, or the head of an application, with a
  property. The members of an object type do not count: its
  type is the name of a struct.
-/
def TypeTerm.Mentions (leaf head : Text → Prop) : TypeTerm → Prop
  | .undecided _ => False
  | .disallowed _ => False
  | .malformed _ _ => False
  | .string => False
  | .bool => False
  | .numeral _ => False
  | .shape _ => False
  | .array _ element => element.Mentions leaf head
  | .applied _ outer args =>
      head outer ∨ TypeTerm.AnyMentions leaf head args
  | .named _ name => leaf name

def TypeTerm.AnyMentions (leaf head : Text → Prop) : List TypeTerm → Prop
  | [] => False
  | arg :: rest =>
      arg.Mentions leaf head ∨ TypeTerm.AnyMentions leaf head rest

end

/- What a spelled name stands for mentions a name. -/
def TypeTable.Yields (table : TypeTable) (name spelled : Text) : Prop :=
  match table.alias? spelled with
  | some target => name ∈ target.referencedNames
  | none => spelled = name

/- Deciding a term leaves a name in its type. -/
def TypeTerm.Exposes (table : TypeTable) (name : Text) (term : TypeTerm) : Prop :=
  term.Mentions (table.Yields name) fun head =>
    name ∈ Text.words head

/- The same for one of some arguments. -/
def TypeTerm.AnyExposes (table : TypeTable) (name : Text) (args : List TypeTerm) : Prop :=
  TypeTerm.AnyMentions (table.Yields name) (fun head => name ∈ Text.words head) args

theorem TypeTerm.exposes_congr
    {other : TypeTable} (h : table.aliases = other.aliases) (name : Text) (term : TypeTerm) :
    term.Exposes table name ↔ term.Exposes other name := by
  unfold Exposes TypeTable.Yields alias?
  rw [h]

-----
-- Decided Types And Their Terms
-----

/- The words of a type are told by the names of its term. -/
def WordsTold (log : List TableEvent) (term : TypeTerm) (type : TypeName) : Prop :=
  ∀ name, (replay log).Unclaimed name →
    (name ∈ type.referencedNames ↔ term.Exposes (replay log) name)

def ArgWordsTold (log : List TableEvent) (args : List TypeTerm) (types : List TypeName) : Prop :=
  ∀ name, (replay log).Unclaimed name →
    (name ∈ types.flatMap TypeName.referencedNames ↔ TypeTerm.AnyExposes (replay log) name args)

/- Later decisions do not change what a term exposes. -/
theorem WordsTold.mono
    {later : List TableEvent} (h : WordsTold log term type) (hLater : QuietlyLater log later) :
    WordsTold later term type := by
  intro name hName
  rw [h name (hName.of_later hLater.isPrefix)]
  exact exposes_congr hLater.names_eq.1.symm name term

/- A builtin type exposes no name. -/
theorem wordsTold_builtin
    (hType : ∀ name ∈ type.referencedNames, name ∈ builtinWords)
    (hTerm : ∀ name, ¬ term.Exposes (replay log) name) :
    WordsTold log term type := by
  intro name hName
  constructor
  · intro hMem
    exact absurd (hType name hMem) hName.builtin
  · intro hExposes
    exact absurd hExposes (hTerm name)

theorem extends_intern_words
    {fields : List (Text × TypeName)} (hFields : ∀ field ∈ fields, Decided log field.2)
    (members : List (Text × TypeTerm)) :
    ExtendsQuietly log (intern fields) fun later type => WordsTold later (.shape members) type := by
  intro table hTable
  have hAllowed : Allowed log (.interned fields) := hFields
  refine ⟨log ++ [.interned fields], .concat log rfl, hTable.concat hAllowed, ?_⟩
  rintro _ _ ⟨⟩ name hName
  rcases table.registry.exists_intern_name fields with ⟨struct, hStruct, hType⟩
  constructor
  · intro hMem
    have hWords : name ∈ Text.words struct.name := by
      have hText : (table.registry.intern fields).1.referencedNames = Text.words struct.name := by
        rw [hType]
        rfl
      rw [← hText]
      exact hMem
    refine absurd hWords (hName.structs struct ?_)
    rw [replay_concat, hTable.2]
    exact hStruct
  · intro hExposes
    exact hExposes.elim

theorem extends_arrayType_words
    (raw : Text) {element : TypeTerm}
    (hTerm :
      ∀ table name, table.Unclaimed name → (term.Exposes table name ↔ element.Exposes table name))
    (hType : WordsTold log element type) :
    ExtendsQuietly log (arrayType raw type) fun later array => WordsTold later term array := by
  unfold arrayType
  split
  · exact .throw
  · apply Leads.pure
    intro name hName
    rw [TypeName.referencedNames_arrayOf, mem_cons, or_iff_right hName.ne_array, hTerm _ _ hName]
    exact hType name hName

theorem extends_namedType_words (raw spelled : Text) :
    ExtendsQuietly log (namedType raw spelled)
      fun later type => WordsTold later (.named raw spelled) type := by
  apply Leads.get.bind
  rintro later _ _ ⟨rfl, hTable⟩
  split
  · next target hAlias =>
    apply Leads.pure
    intro name _
    simp only [TypeTerm.Exposes, TypeTerm.Mentions, TypeTable.Yields, hTable.2, hAlias]
  · next hAlias =>
    split
    · next hWord =>
      apply Leads.pure
      intro name _
      simp only [TypeTerm.Exposes, TypeTerm.Mentions, TypeTable.Yields, hTable.2, hAlias]
      unfold TypeName.referencedNames
      rw [Text.words_eq_singleton (.of_isIdentifier hWord), mem_singleton]
      exact eq_comm
    · exact .throw

theorem exposes_applied_iff {raw head : Text} {args : List TypeTerm} :
    (applied raw head args).Exposes table name ↔
      name ∈ Text.words head ∨ TypeTerm.AnyExposes table name args :=
  Iff.rfl

/- An application of a builtin head exposes what its argument does. -/
theorem exposes_builtin_applied_iff
    {raw head : Text} (hHead : name ∉ Text.words head) {arg : TypeTerm} :
    (applied raw head [arg]).Exposes table name ↔ arg.Exposes table name := by
  rw [exposes_applied_iff, or_iff_right hHead]
  simp [TypeTerm.AnyExposes, TypeTerm.AnyMentions, TypeTerm.Exposes]

mutual

/- Evaluation exposes the names that nothing replaces. -/
theorem extends_eval_words (term : TypeTerm) (log : List TableEvent) :
    ExtendsQuietly log term.eval fun later type => WordsTold later term type := by
  cases term with
  | undecided | disallowed | malformed => exact .throw
  | string | bool =>
    refine .pure (wordsTold_builtin ?_ fun _ => id)
    intro name hName
    simp [builtinWords, hName]
  | numeral fraction =>
    refine .pure (wordsTold_builtin ?_ fun _ => id)
    intro name hName
    cases fraction with
    | true | false => simp_all [builtinWords]
  | shape members =>
    apply (decisionRule_log.leads_evalMembers members log).bind
    intro later _ _ hFields
    exact extends_intern_words hFields members
  | array raw element =>
    apply (extends_eval_words element log).bind
    intro later type _ hType
    exact extends_arrayType_words raw (fun _ _ _ => .rfl) hType
  | applied raw head args =>
    unfold eval
    split
    · next hHead =>
      split
      · next arg =>
        apply (extends_eval_words arg log).bind
        intro later type _ hType
        have hTerm :
            ∀ table name, TypeTable.Unclaimed table name →
              ((applied raw head [arg]).Exposes table name ↔ arg.Exposes table name) := by
          intro table name hName
          apply exposes_builtin_applied_iff
          rw [hHead, Spelling.words_array, mem_singleton]
          exact hName.ne_array
        exact extends_arrayType_words raw hTerm hType
      · exact .throw
    · split
      · next hHead =>
        split
        · next arg =>
          apply (extends_eval_words arg log).bind
          intro later _ _ hType
          apply Leads.pure
          intro name hName
          rw [TypeName.mem_referencedNames_pointerTo_iff hName.ne_array hName.ne_pointer,
            exposes_builtin_applied_iff]
          · exact hType name hName
          · rw [hHead, Spelling.words_pointer, mem_singleton]
            exact hName.ne_pointer
        · exact .throw
      · apply (extends_evalArgs_words args log).bind
        intro _ _ _ hTypes
        apply Leads.pure
        intro name hName
        rw [TypeName.referencedNames_applied, mem_append, hTypes name hName, exposes_applied_iff]
  | named raw name => exact extends_namedType_words raw name

theorem extends_evalArgs_words (args : List TypeTerm) (log : List TableEvent) :
    ExtendsQuietly log (evalArgs args) fun later types => ArgWordsTold later args types := by
  cases args with
  | nil =>
    apply Leads.pure
    intro name _
    simp [TypeTerm.AnyExposes, TypeTerm.AnyMentions]
  | cons arg rest =>
    apply (extends_eval_words arg log).bind
    intro later _ _ hFirst
    apply (extends_evalArgs_words rest later).bind
    intro _ _ hLast hTypes
    apply Leads.pure
    intro name hName
    rw [flatMap_cons, mem_append, hTypes name hName, hFirst.mono hLast name hName]
    rfl

end

-----
-- Decisions In A Log
-----

/- A decided type has a name exactly if its term exposes it. -/
theorem Valid.mem_decided_iff
    {before : List TableEvent} (h : Valid log) (hOccurs : Occurs log before (.decided term type))
    (hName : (replay log).Unclaimed name) :
    name ∈ type.referencedNames ↔ term.Exposes (replay before) name := by
  rcases h.allowed hOccurs with ⟨hValid, start, hStart, hEval⟩
  have hSettled : Settled start (replay start) := ⟨hValid.of_earlier hStart, rfl⟩
  rcases extends_eval_words term start _ hSettled with ⟨later, _, ⟨_, hTable⟩, hWords⟩
  rw [hEval] at hTable
  have hTold : WordsTold later term type := hWords type _ hEval
  unfold WordsTold at hTold
  rw [hTable] at hTold
  exact hTold name (hName.of_later hOccurs.prefix_before)

/- The types of struct fields were decided. -/
theorem Valid.decided_field
    (h : Valid log) {struct : Struct} (hStruct : struct ∈ (replay log).registry.layouts)
    {field : Text × TypeName} (hField : field ∈ struct.fields) :
    Decided log field.2 := by
  induction h with
  | nil => cases hStruct
  | @concat log event _ hEvent ih =>
    have hOld : struct ∈ (replay log).registry.layouts → Decided (log ++ [event]) field.2 := by
      intro hMem
      exact (ih hMem).mono (prefix_append _ _)
    have hNew :
        ∀ fields : List (Text × TypeName), field ∈ fields →
          (∀ field ∈ fields, Decided log field.2) →
          Decided (log ++ [event]) field.2 := by
      intro fields hMem hFields
      exact (hFields field hMem).mono (prefix_append _ _)
    rw [replay_concat] at hStruct
    cases event with
    | decided | aliased => exact hOld hStruct
    | interned fields =>
      rcases Registry.intern_cases (replay log).registry fields with ⟨_, _, hIntern⟩ | ⟨_, hIntern⟩
      · simp only [apply, hIntern] at hStruct
        exact hOld hStruct
      · simp only [apply, hIntern, Registry.layouts_push] at hStruct
        rcases mem_append.mp hStruct with hMem | hMem
        · exact hOld hMem
        · rw [mem_singleton.mp hMem] at hField
          exact hNew fields hField hEvent
    | declared _ fields =>
      simp only [apply, Registry.layouts_push] at hStruct
      rcases mem_append.mp hStruct with hMem | hMem
      · exact hOld hMem
      · rw [mem_singleton.mp hMem] at hField
        exact hNew fields hField hEvent.1
    | marked =>
      simp only [apply, markUsed, Registry.layouts_markUsed] at hStruct
      exact hOld hStruct

/- Every alias of a table was declared. -/
theorem exists_aliased_of_alias? (h : (replay log).alias? name = some target) :
    ∃ before, Occurs log before (.aliased name target) := by
  induction log using reverseRecOn with
  | nil => cases h
  | append_singleton log event ih =>
    have hOld :
        (replay log).alias? name = some target →
          ∃ before, Occurs (log ++ [event]) before (.aliased name target) := by
      intro hAlias
      rcases ih hAlias with ⟨before, hOccurs⟩
      exact ⟨before, hOccurs.mono (prefix_append _ _)⟩
    rw [replay_concat] at h
    cases event with
    | aliased other found =>
      by_cases hEq : name = other
      · subst hEq
        have hFound : found = target := by simpa [apply, alias?] using h
        subst hFound
        exact ⟨log, .last log _⟩
      · apply hOld
        have hBeq : (name == other) = false := by simpa using hEq
        simpa [apply, alias?, lookup_cons, hBeq] using h
    | _ => exact hOld h

/- A declared alias stays one. -/
theorem alias?_isSome_of_aliased (h : Aliased log name) :
    ((replay log).alias? name).isSome = true := by
  induction log using reverseRecOn with
  | nil =>
    rcases h with ⟨before, target, hOccurs⟩
    have hNil := prefix_nil.mp hOccurs
    simp at hNil
  | append_singleton _ event ih =>
    rw [replay_concat]
    rcases h with ⟨before, target, hOccurs⟩
    rcases Occurs.concat_iff.mp hOccurs with ⟨rfl, rfl⟩ | hOld
    · simp [apply, alias?]
    · have hAlias := ih ⟨before, target, hOld⟩
      cases event with
      | aliased other =>
        by_cases hEq : name = other
        · simp [apply, alias?, hEq]
        · have hBeq : (name == other) = false := by simpa using hEq
          simpa [apply, alias?, lookup_cons, hBeq] using hAlias
      | _ => exact hAlias

/- While a name is no alias, it is not declared to be one yet. -/
theorem earlier_of_alias?_eq_none
    {before declared : List TableEvent} (hDeclared : Occurs log declared (.aliased name target))
    (hBefore : before <+: log) (hNone : (replay before).alias? name = none) :
    before <+: declared := by
  have hNot : ¬ Occurs before declared (.aliased name target) := by
    intro hOccurs
    have hSome := alias?_isSome_of_aliased ⟨declared, target, hOccurs⟩
    rw [hNone] at hSome
    cases hSome
  rcases prefix_or_prefix_of_prefix hBefore hDeclared with hEarlier | hLater
  · rcases prefix_concat_iff.mp hEarlier with rfl | hFirst
    · exact absurd (.last declared _) hNot
    · exact hFirst
  · exact absurd hLater hNot

-----
-- Where A Name Comes From
-----

mutual

/- A weaker property of names, where it fails for no name. -/
theorem TypeTerm.Mentions.imp_or
    {leaf weaker head : Text → Prop} {other : Prop}
    (hLeaf : ∀ name, leaf name → weaker name ∨ other) (term : TypeTerm)
    (h : term.Mentions leaf head) :
    term.Mentions weaker head ∨ other := by
  cases term with
  | array _ element => exact TypeTerm.Mentions.imp_or hLeaf element h
  | applied _ _ args =>
    rcases h with hHead | hArgs
    · exact .inl (.inl hHead)
    · exact (TypeTerm.AnyMentions.imp_or hLeaf args hArgs).imp_left Or.inr
  | named _ name => exact hLeaf name h
  | _ => exact h.elim

theorem TypeTerm.AnyMentions.imp_or
    {leaf weaker head : Text → Prop} {other : Prop}
    (hLeaf : ∀ name, leaf name → weaker name ∨ other) (args : List TypeTerm)
    (h : TypeTerm.AnyMentions leaf head args) :
    TypeTerm.AnyMentions weaker head args ∨ other := by
  cases args with
  | nil => exact h.elim
  | cons arg rest =>
    rcases h with hArg | hRest
    · exact (TypeTerm.Mentions.imp_or hLeaf arg hArg).imp_left Or.inl
    · exact (TypeTerm.AnyMentions.imp_or hLeaf rest hRest).imp_left Or.inr

end

/-
  Some decision read a term in which the name stands as
  itself, or as a head, before the name became an alias.
-/
def SpelledBefore (log declared : List TableEvent) (name : Text) : Prop :=
  ∃ before term type, Occurs log before (.decided term type) ∧
    term.Mentions (fun spelled => spelled = name ∧ before <+: declared)
      (fun head => name ∈ Text.words head)

/- A name in a decided type was once spelled without being replaced. -/
theorem Valid.exists_bare_spelling
    {declared : List TableEvent} (h : Valid log) (hName : (replay log).Unclaimed name)
    (hDeclared : Occurs log declared (.aliased name target)) {before : List TableEvent}
    (hOccurs : Occurs log before (.decided term type)) (hMem : name ∈ type.referencedNames) :
    SpelledBefore log declared name := by
  -- Going back from an alias to its target shortens the log.
  induction hLength : before.length using Nat.strongRecOn generalizing before term type with
  | ind length ih =>
    have hExposes := (h.mem_decided_iff hOccurs hName).mp hMem
    have hLeaf :
        ∀ spelled, (replay before).Yields name spelled →
          (spelled = name ∧ before <+: declared) ∨
            ∃ other found,
              (replay before).alias? other = some found ∧ name ∈ found.referencedNames := by
      intro spelled hYields
      unfold TypeTable.Yields at hYields
      split at hYields
      · next found hAlias =>
        exact .inr ⟨spelled, found, hAlias, hYields⟩
      · next hNone =>
        subst hYields
        exact .inl ⟨rfl, earlier_of_alias?_eq_none hDeclared hOccurs.prefix_before hNone⟩
    rcases TypeTerm.Mentions.imp_or hLeaf term hExposes with hBare | ⟨_, _, hAlias, hFound⟩
    · exact ⟨before, term, type, hOccurs, hBare⟩
    · rcases exists_aliased_of_alias? hAlias with ⟨_, hMade⟩
      have hMadeLog := hMade.mono hOccurs.prefix_before
      rcases (h.allowed hMadeLog).2.1 with ⟨earlier, behind, hEarlier⟩
      have hEarlierLog := hEarlier.mono hMadeLog.prefix_before
      refine ih earlier.length ?_ hEarlierLog hFound rfl
      have hFirst := hEarlier.length_le
      have hSecond := hMade.length_le
      simp only [length_append, length_singleton] at hFirst hSecond
      omega

-----
-- Compiled Programs
-----

/- A decision behind a type exposes a name. -/
def ExposedBehind (log : List TableEvent) (name : Text) (type : TypeName) : Prop :=
  ∃ before term base, Occurs log before (.decided term base) ∧
    WrapOf base type ∧ term.Exposes (replay before) name

/- All written types go back to decided or native ones. -/
theorem History.derived_of_written
    {program : Program} {run : Compilation program} (h : History run log)
    (hType : type ∈ run.file.types) :
    Derived log type := by
  rcases mem_append.mp hType with hItem | hField
  · exact (h.written type hItem).2
  · rcases mem_flatMap.mp hField with ⟨struct, hStruct, hMem⟩
    rcases mem_map.mp hMem with ⟨_, hFieldMem, rfl⟩
    rcases mem_filterMap.mp hStruct with ⟨_, _, hAt⟩
    have hLayout : { struct with used := false } ∈ (replay log).registry.layouts := by
      rw [h.types_eq]
      exact mem_map_of_mem (mem_of_getElem? hAt)
    exact Derived.of_decided (h.valid.decided_field hLayout hFieldMem)

/- A written type has a name exactly if it was exposed. -/
theorem History.mem_written_iff
    {program : Program} {run : Compilation program} (h : History run log)
    (hName : run.state.types.Unclaimed name) (hType : type ∈ run.file.types) :
    name ∈ type.referencedNames ↔ ExposedBehind log name type := by
  rw [← h.types_eq] at hName
  constructor
  · intro hMem
    rcases h.derived_of_written hType with ⟨base, hBase, hWrap⟩
    have hBaseMem := (hWrap.mem_referencedNames_iff hName.ne_array hName.ne_pointer).mp hMem
    rcases hBase with ⟨before, term, hOccurs⟩ | hNative
    · exact
        ⟨before, term, base, hOccurs, hWrap, (h.valid.mem_decided_iff hOccurs hName).mp hBaseMem⟩
    · refine absurd ?_ hName.builtin
      have hWord : name ∈ nativeTypes.flatMap TypeName.referencedNames :=
        mem_flatMap.mpr ⟨base, hNative, hBaseMem⟩
      simp only [builtinWords, flatMap_cons, mem_cons, mem_append]
      simp [hWord]
  · rintro ⟨before, _, _, hOccurs, hWrap, hExposes⟩
    apply (hWrap.mem_referencedNames_iff hName.ne_array hName.ne_pointer).mpr
    exact (h.valid.mem_decided_iff hOccurs hName).mpr hExposes

/-
  In a program that compiles, by every history of it, a
  written type mentions an alias that a unit declares exactly
  if a decision behind the type exposes the name. Then the
  name was spelled before it was declared, or as a head.
-/
theorem alias_in_type_iff_exposed
    {program : Program} {config : LayoutConfig} {text : Text}
    (h : program.compile config = .ok text) :
    ∃ run : Compilation program,
      text = run.file.text config ∧ (∃ log, History run log) ∧
        ∀ log, History run log →
          ∀ step ∈ run.steps, ∀ name ∈ step.aliasNames,
            run.state.types.Unclaimed name →
              ∃ declared target,
                Occurs log declared (.aliased name target) ∧
                  ∀ type ∈ run.file.types,
                    (name ∈ type.referencedNames ↔ ExposedBehind log name type) ∧
                    (name ∈ type.referencedNames → SpelledBefore log declared name) := by
  rcases compile_eq_ok_iff.mp h with ⟨run, hText⟩
  refine ⟨run, hText, exists_history run, ?_⟩
  intro log hLog step hStep name hAlias hName
  rcases hLog.aliased step hStep name hAlias with ⟨declared, target, hDeclared⟩
  refine ⟨declared, target, hDeclared, ?_⟩
  intro type hType
  have hIff := hLog.mem_written_iff hName hType
  refine ⟨hIff, ?_⟩
  intro hMem
  rcases hIff.mp hMem with ⟨before, term, base, hOccurs, hWrap, hExposes⟩
  rw [← hLog.types_eq] at hName
  exact hLog.valid.exists_bare_spelling hName hDeclared hOccurs
    ((hLog.valid.mem_decided_iff hOccurs hName).mpr hExposes)

-----
-- An Alias That Is Declared Too Late
-----

def idName : Text :=
  "Id"

/- A struct with a field whose type is an alias. -/
def itemInterface : Stmt :=
  .interface ⟨0, Span.nowhere⟩
    ⟨"Item", [⟨"id", ⟨idName, Span.nowhere⟩, false, false, false, Span.nowhere⟩]⟩

def idAlias : Stmt :=
  .typeAlias ⟨0, Span.nowhere⟩ ⟨idName, ⟨"u32", Span.nowhere⟩⟩

def itemVariable : Stmt :=
  .vars ⟨0, Span.nowhere⟩ .letKind [.mk ⟨0, Span.nowhere⟩ "item" (some ⟨"Item", Span.nowhere⟩) none]

/- A program of one unit. -/
def itemProgram (statements : List Stmt) : Program :=
  ⟨[⟨"main.ts", [], statements⟩], some 0, NodeTypes.empty, []⟩

def aliasFirst : Program :=
  itemProgram [idAlias, itemInterface, itemVariable]

def aliasLast : Program :=
  itemProgram [itemInterface, idAlias, itemVariable]

/- The alias is replaced where it is declared in front. -/
theorem aliasFirst_id_replaced :
    ∃ text, aliasFirst.compile LayoutConfig.standard = .ok text ∧
      ∃ (run : Compilation aliasFirst) (log : List TableEvent),
        History run log ∧ run.state.types.Unclaimed idName ∧
          (∃ step ∈ run.steps, idName ∈ step.aliasNames) ∧
          ⟨"u32"⟩ ∈ run.file.types ∧
          ∀ type ∈ run.file.types, ¬ ExposedBehind log idName type := by
  have hPasses :
      Compilation.passes aliasFirst (fun site items state =>
        decide
          (state.types.Unclaimed idName ∧
            (∃ step ∈ aliasFirst.steps site, idName ∈ step.aliasNames) ∧
            ⟨"u32"⟩ ∈ (codeFile state.types items).types ∧
            ∀ type ∈ (codeFile state.types items).types,
              idName ∉ type.referencedNames)) = true := by
    decide +kernel
  rcases Compilation.compiles_of_passes hPasses LayoutConfig.standard with ⟨_, hCompile⟩
  rcases alias_in_type_iff_exposed hCompile with ⟨run, _, ⟨log, hLog⟩, hAll⟩
  rcases of_decide_eq_true (run.check_of_passes hPasses) with
    ⟨hName, ⟨step, hStep, hAlias⟩, hTarget, hNone⟩
  rcases hAll log hLog step hStep idName hAlias hName with ⟨declared, target, _, hTypes⟩
  refine ⟨_, hCompile, run, log, hLog, hName, ⟨step, hStep, hAlias⟩, hTarget, ?_⟩
  intro type hType hExposed
  exact hNone type hType ((hTypes type hType).1.mpr hExposed)

/-
  Where it is declared behind the struct, a field of the
  struct still has the name of the alias as its type.
-/
theorem aliasLast_id_kept :
    ∃ (text : Text) (run : Compilation aliasLast),
      aliasLast.compile LayoutConfig.standard = .ok text ∧
        text = run.file.text LayoutConfig.standard ∧
        run.state.types.Unclaimed idName ∧
        (∃ step ∈ run.steps, idName ∈ step.aliasNames) ∧
        ∃ type ∈ run.file.types, idName ∈ type.referencedNames := by
  have hPasses :
      Compilation.passes aliasLast (fun site items state =>
        decide
          (state.types.Unclaimed idName ∧
            (∃ step ∈ aliasLast.steps site, idName ∈ step.aliasNames) ∧
            ∃ type ∈ (codeFile state.types items).types,
              idName ∈ type.referencedNames)) = true := by
    decide +kernel
  rcases Compilation.exists_of_passes hPasses with ⟨run⟩
  have hRun := of_decide_eq_true (run.check_of_passes hPasses)
  exact ⟨_, run, compile_eq_ok_iff.mpr ⟨run, rfl⟩, rfl, hRun⟩

end ScriptLowering
