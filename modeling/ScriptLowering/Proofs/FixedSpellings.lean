import ScriptLowering.Proofs.Canonicalization
import ScriptLowering.Proofs.CanonicalTypes
import ScriptLowering.Proofs.StructNames

/-
  Decided types are their own spellings. The text of a
  canonical type is one of its spellings, with a blank behind
  each comma, and where no aliases are in force it means the
  type itself and registers nothing. So whatever was decided
  before, deciding the text of a decided type gives the type
  again.

  Key theorems include:
    * `Canonical.canonicalize_text`
    * `canonicalize_text_of_decided`
-/

namespace ScriptLowering

-----
-- Spellings Of Canonical Types
-----

/- A spelling has the text of a type, and it means the type. -/
structure SpelledAs (type : TypeName) (spelled : SpelledType) : Prop where
  text : spelled.text = type.text
  meaning :
    ∀ registry, spelled.expr.meaning (fun _ => none) registry = some (type, registry)

def noBlanks : Blanks :=
  ⟨[], List.forall_mem_nil _⟩

def oneBlank : Blanks :=
  ⟨[' '], List.forall_mem_singleton.mpr rfl⟩

/- Arguments are spelled with a blank behind each comma. -/
theorem exists_spelledArgs
    {args : List TypeName} (hSome : args ≠ []) (h : ∀ arg ∈ args, ∃ spelled, SpelledAs arg spelled)
    (before : Blanks) :
    ∃ spelled : SpelledArgs,
      spelled.print id = before.val ++ Text.joinWith ", " (args.map TypeName.text) ∧
        ∀ registry, argsMeaning spelled.exprs (fun _ => none) registry = some (args, registry) := by
  induction args generalizing before with
  | nil => exact absurd rfl hSome
  | cons arg rest ih =>
    rcases List.forall_mem_cons.mp h with ⟨⟨spelled, hSpelled⟩, hRest⟩
    have hText : spelled.print id = arg.text := hSpelled.text
    cases rest with
    | nil =>
      refine ⟨.last before spelled noBlanks, ?_, ?_⟩
      · simp [SpelledArgs.print, hText, noBlanks, Text.joinWith]
      · intro registry
        have hRun :
            argsMeaning [spelled.expr] (fun _ => none) registry =
              (spelled.expr.meaning (fun _ => none) registry).bind
                fun first => some ([first.1], first.2) := rfl
        rw [SpelledArgs.exprs, hRun, hSpelled.meaning]
        rfl
    | cons _ more =>
      rcases ih (List.cons_ne_nil _ _) hRest oneBlank with ⟨others, hOthers, hMeaning⟩
      refine ⟨.more before spelled noBlanks others, ?_, ?_⟩
      · simp only [SpelledArgs.print, hText, hOthers, List.map_cons, joinWith_cons_cons]
        simp [noBlanks, oneBlank]
      · intro registry
        have hRun :
            argsMeaning (spelled.expr :: others.exprs) (fun _ => none) registry =
              (spelled.expr.meaning (fun _ => none) registry).bind
                fun first =>
                  (argsMeaning others.exprs (fun _ => none)
                    first.2).bind fun types => some (first.1 :: types.1, types.2) := rfl
        rw [SpelledArgs.exprs, hRun, hSpelled.meaning, Option.bind_some, hMeaning]
        rfl

theorem nativeWord_eq_self {word : Text} (h : word ∉ replacedWords) :
    nativeWord word = word := by
  simp [nativeWord, Text.replaceWord, hostWord_eq_none_iff.mpr h]

/- Words with no meaning of their own mean themselves. -/
theorem wordMeaning_of_isLeaf {name : Text} (h : IsLeaf name) (registry : Registry) :
    wordMeaning name (fun _ => none) registry = some (⟨name⟩, registry) := by
  have hDecided := h.decided
  simp only [Bool.or_eq_false_iff] at hDecided
  unfold wordMeaning
  simp only [hDecided.1.1, hDecided.1.2, hDecided.2]
  rfl

/- Heads of canonical types mean the application as it stands. -/
theorem appliedMeaning_of_canonical
    {head : Text} {args : List TypeName} (hArgs : ∀ arg ∈ args, Canonical arg)
    (hBuiltin :
      head = Spelling.array ∨ head = Spelling.pointer →
        ∃ arg, args = [arg] ∧ ∀ inner, arg ≠ TypeName.applied Spelling.array inner) :
    appliedMeaning head args = return TypeName.applied head args := by
  have hFlat :
      ∀ arg, args = [arg] → (∀ inner, arg ≠ TypeName.applied Spelling.array inner) →
        arg.isArray = false := by
    rintro arg rfl hNone
    apply Bool.eq_false_of_not_eq_true
    rw [(hArgs arg List.mem_cons_self).isArray_iff]
    exact fun ⟨inner, hInner⟩ => hNone inner hInner
  unfold appliedMeaning
  by_cases hArray : head = Spelling.array
  · rcases hBuiltin (.inl hArray) with ⟨arg, rfl, hNone⟩
    rw [if_pos hArray, hArray]
    simp only [arrayMeaning, hFlat arg rfl hNone]
    rfl
  · rw [if_neg hArray]
    by_cases hPointer : head = Spelling.pointer
    · rcases hBuiltin (.inr hPointer) with ⟨arg, rfl, hNone⟩
      have hElement : arg.arrayElement? = none := by
        simpa [TypeName.isArray] using hFlat arg rfl hNone
      rw [if_pos hPointer, hPointer]
      simp only [pointerMeaning, hElement]
      rfl
    · rw [if_neg hPointer]

/- Every canonical type is spelled by its text. -/
theorem Canonical.exists_spelled {type : TypeName} (h : Canonical type) :
    ∃ spelled, SpelledAs type spelled := by
  induction h with
  | @word name hIdentifier hReplaced hReserved =>
    have hLeaf := isLeaf_iff.mpr ⟨hIdentifier, hReplaced, hReserved⟩
    refine ⟨.word ⟨name, hIdentifier⟩, rfl, ?_⟩
    intro registry
    rw [SpelledType.expr, TypeExpr.meaning, nativeWord_eq_self hReplaced]
    exact wordMeaning_of_isLeaf hLeaf registry
  | @applied head _ hIdentifier hReplaced hSome hArgs hBuiltin ih =>
    rcases exists_spelledArgs hSome ih noBlanks with ⟨spelled, hPrint, hMeaning⟩
    refine ⟨.applied ⟨head, hIdentifier⟩ spelled, ?_, ?_⟩
    · rw [TypeName.text_applied, SpelledType.text, SpelledType.print, hPrint]
      rfl
    · intro registry
      have hRun :
          (argsMeaning spelled.exprs >>= appliedMeaning head) (fun _ => none) registry =
            (argsMeaning spelled.exprs (fun _ => none)
              registry).bind fun types => appliedMeaning head types.1 (fun _ => none) types.2 := rfl
      rw [SpelledType.expr, TypeExpr.meaning, nativeWord_eq_self hReplaced, hRun, hMeaning,
        Option.bind_some, appliedMeaning_of_canonical hArgs hBuiltin]
      rfl

-----
-- Deciding Again
-----

/- Without aliases, canonical types are decided as themselves. -/
theorem Canonical.canonicalize_text
    {type : TypeName} (h : Canonical type) {table : TypeTable} (hAliases : table.aliases = []) :
    TypeTable.canonicalize type.text table = .ok type table := by
  rcases h.exists_spelled with ⟨spelled, hSpelled⟩
  have hAlias : table.alias? = fun _ => none := by
    funext name
    simp [TypeTable.alias?, hAliases]
  have hText : spelled.print id = type.text := hSpelled.text
  have hOutcome := spelled.means_canonicalize renders_id noBlanks.property noBlanks.property table
  rw [hAlias, hSpelled.meaning, hText] at hOutcome
  simp only [noBlanks, List.nil_append, List.append_nil, Option.map_some] at hOutcome
  exact outcome_eq_some_iff.mp hOutcome

/- A table with canonical types only and without aliases. -/
structure IsFresh (table : TypeTable) : Prop where
  canonical : canonicalLexicon.HasTable table
  aliases : table.aliases = []

theorem IsFresh.canonicalize {table : TypeTable} (h : IsFresh table) (raw : Text) :
    IsFresh (stateLeft (TypeTable.canonicalize raw table)) :=
  ⟨(Lexicon.preserves_canonicalize raw).kept h.canonical,
    (preserves_eval_of_intern keptByInterning_aliases _).kept h.aliases⟩

theorem isFresh_tableAfter (raws : List Text) :
    IsFresh (tableAfter (raws.map TypeCall.canonicalize)) := by
  have hCalls :
      ∀ table, IsFresh table →
        IsFresh ((raws.map TypeCall.canonicalize).foldl TypeCall.run table) := by
    induction raws with
    | nil => exact fun _ h => h
    | cons raw _ ih => exact fun _ h => ih _ (h.canonicalize raw)
  exact hCalls _ ⟨Lexicon.hasTable_empty, rfl⟩

/-
  After any decisions, if another text is decided as a type,
  then the text of that type is decided as the type again, and
  this leaves the table as it is.
-/
theorem canonicalize_text_of_decided
    {raws : List Text} {raw : Text} {type : TypeName} {after : TypeTable}
    (h :
      TypeTable.canonicalize raw (tableAfter (raws.map TypeCall.canonicalize)) = .ok type after) :
    TypeTable.canonicalize type.text after = .ok type after := by
  have hFresh := isFresh_tableAfter raws
  have hCanonical : Canonical type := (Lexicon.preserves_canonicalize raw).gives hFresh.canonical h
  have hAfter := (hFresh.canonicalize raw).aliases
  rw [h] at hAfter
  exact hCanonical.canonicalize_text hAfter

/- A pointer to an array of shapes, after another shape. -/
theorem canonicalize_again_pointer_to_struct :
    ∃ after,
      TypeTable.canonicalize " ptr<{ x: number }[]>"
            (tableAfter (["{ y: bigint }[]"].map TypeCall.canonicalize)) =
          .ok ⟨"Pointer<anon_struct_1>"⟩ after ∧
        TypeTable.canonicalize "Pointer<anon_struct_1>" after =
          .ok ⟨"Pointer<anon_struct_1>"⟩ after := by
  have hRun :
      outcome (TypeTable.canonicalize " ptr<{ x: number }[]>")
          (tableAfter (["{ y: bigint }[]"].map TypeCall.canonicalize)) =
        some
          (⟨"Pointer<anon_struct_1>"⟩,
            ⟨⟨[ ⟨"anon_struct_0", [("y", ⟨"i64"⟩)], .synthesized, false⟩,
                ⟨"anon_struct_1", [("x", ⟨"i32"⟩)], .synthesized, false⟩ ]⟩, []⟩) := by
    decide +kernel
  have hFirst := outcome_eq_some_iff.mp hRun
  exact ⟨_, hFirst, canonicalize_text_of_decided hFirst⟩

end ScriptLowering
