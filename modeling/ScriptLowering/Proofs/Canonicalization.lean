import Mathlib.Data.List.Forall2
import ScriptLowering.Proofs.TypeForms
import ScriptLowering.Types.Table

/-
  The meaning of types, and their spellings. A type means a
  native type by its structure alone: what its words mean
  under the aliases in force, and what arrays, applications
  and shapes make of their parts. Deciding any spelling of a
  type gives that meaning, fails where the type means nothing,
  and registers the structs that the meaning registers.

  Key theorems include:
    * `SpelledType.means_canonicalize`
    * `canonicalize_text_eq_meaning`
-/

namespace ScriptLowering

open Spelling
open TypeTerm hiding array

-----
-- Meaning
-----

/-
  What is meant under some aliases, if anything is. Structs
  may be registered for it.
-/
abbrev Meaning :=
  ReaderT (Text → Option TypeName) (StateT Registry Option)

/- A native word means the type that it is an alias for, or itself. -/
def wordMeaning (native : Text) : Meaning TypeName := do
  let alias? ← read
  if isBoolean native then
    return TypeName.bool
  else if
      isDisallowed native || isHostOnly native then
    failure
  else
    return (alias? native).getD ⟨native⟩

/- There are no arrays of arrays. -/
def arrayMeaning (element : TypeName) : Meaning TypeName :=
  if element.isArray then
    failure
  else
    return TypeName.arrayOf element

/- A pointer to an array means a pointer to its elements. -/
def pointerMeaning (target : TypeName) : Meaning TypeName :=
  return TypeName.applied pointer [target.arrayElement?.getD target]

/- Arrays and pointers are of exactly one type. -/
def appliedMeaning (head : Text) (args : List TypeName) : Meaning TypeName :=
  if head = array then
    match args with
    | [element] => arrayMeaning element
    | _ => failure
  else if head = pointer then
    match args with
    | [target] => pointerMeaning target
    | _ => failure
  else
    return TypeName.applied head args

/- A shape means its struct, a new one if there is none yet. -/
def shapeMeaning (fields : List (Text × TypeName)) : Meaning TypeName :=
  modifyGet fun registry => registry.intern fields

mutual

/- The native type that is meant; parts come first, in order. -/
def TypeExpr.meaning : TypeExpr → Meaning TypeName
  | .word name => wordMeaning (nativeWord name)
  | .array element => do
      let element ← element.meaning
      arrayMeaning element
  | .applied head args => do
      let args ← argsMeaning args
      appliedMeaning (nativeWord head) args
  | .shape fields => do
      let fields ← fieldsMeaning fields
      shapeMeaning fields

def argsMeaning : List TypeExpr → Meaning (List TypeName)
  | [] => return []
  | arg :: rest => do
      let first ← arg.meaning
      let types ← argsMeaning rest
      return first :: types

def fieldsMeaning :
    List (Text × TypeExpr) → Meaning (List (Text × TypeName))
  | [] => return []
  | (name, type) :: rest => do
      let first ← type.meaning
      let fields ← fieldsMeaning rest
      return (name, first) :: fields

end

-----
-- Computations With A Meaning
-----

/- The value and the table of a computation that succeeds. -/
def outcome {α : Type} (action : TypeM α) (table : TypeTable) : Option (α × TypeTable) :=
  match action table with
  | .ok value after => some (value, after)
  | .error _ _ => none

theorem outcome_eq_some_iff {α : Type} {action : TypeM α} {table after : TypeTable} {value : α} :
    outcome action table = some (value, after) ↔ action table = .ok value after := by
  unfold outcome
  cases action table with
  | ok | error => simp

theorem outcome_bind {α β : Type} (action : TypeM α) (next : α → TypeM β) (table : TypeTable) :
    outcome (action >>= next) table =
      (outcome action table).bind fun result =>
        outcome (next result.1) result.2 := by
  unfold outcome
  simp only [Bind.bind, EStateM.bind]
  cases action table <;> rfl

/-
  A computation gives what is meant under the aliases of the
  table, and changes the registry of the table only.
-/
def Means {α : Type} (action : TypeM α) (meaning : Meaning α) : Prop :=
  ∀ table : TypeTable,
    outcome action table =
      (meaning table.alias? table.registry).map fun result =>
        (result.1, { table with registry := result.2 })

namespace Means

variable {α β : Type}

theorem pure (value : α) :
    Means (Pure.pure value) (Pure.pure value) :=
  fun _ => rfl

/- A computation that fails gives what means nothing. -/
theorem throw
    (error : TypeError) {meaning : Meaning α}
    (h : ∀ alias? registry, meaning alias? registry = none) :
    Means (MonadExcept.throw error) meaning := by
  intro table
  rw [h]
  rfl

theorem bind
    {action : TypeM α} {meaning : Meaning α} {next : α → TypeM β} {nextMeaning : α → Meaning β}
    (hAction : Means action meaning) (hNext : ∀ value, Means (next value) (nextMeaning value)) :
    Means (action >>= next) (meaning >>= nextMeaning) := by
  intro table
  have hMeaning :
      (meaning >>= nextMeaning) table.alias? table.registry =
        (meaning table.alias? table.registry).bind fun result =>
          nextMeaning result.1 table.alias? result.2 := rfl
  rw [outcome_bind, hAction table, hMeaning]
  cases meaning table.alias? table.registry with
  | none => rfl
  | some result =>
    -- The aliases of the table are still in force.
    exact hNext result.1 { table with registry := result.2 }

end Means

-----
-- Terms
-----

theorem means_arrayType (raw : Text) (element : TypeName) :
    Means (arrayType raw element) (arrayMeaning element) := by
  unfold arrayType arrayMeaning
  split
  · exact .throw _ fun _ _ => rfl
  · exact .pure _

theorem means_namedType (raw : Text) {native : Text} (hNative : native.isIdentifier = true) :
    Means (namedType raw native)
      (do
        let alias? ← read
        return (alias? native).getD ⟨native⟩) := by
  intro table
  have hGet : (get : TypeM TypeTable) table = .ok table table := rfl
  have hRun : namedType raw native table = .ok ((table.alias? native).getD ⟨native⟩) table := by
    simp only [namedType, Bind.bind, EStateM.bind, hGet, hNative]
    cases table.alias? native <;> rfl
  unfold outcome
  rw [hRun]
  rfl

theorem means_word (raw : Text) {native : Text} (hNative : native.isIdentifier = true) :
    Means ((wordForm native).term raw).eval (wordMeaning native) := by
  unfold wordForm wordMeaning
  by_cases hBoolean : isBoolean native = true
  · simp only [hBoolean, if_true]
    exact fun _ => rfl
  · by_cases hDisallowed : isDisallowed native = true
    · simp only [hBoolean, hDisallowed, if_true]
      exact .throw _ fun _ _ => rfl
    · by_cases hHost : isHostOnly native = true
      · simp only [hBoolean, hDisallowed, hHost, if_true]
        exact .throw _ fun _ _ => rfl
      · simp only [hBoolean, hDisallowed, hHost]
        exact means_namedType raw hNative

-----
-- Arguments And Members
-----

/- Texts of types, each of which is decided as what is meant. -/
abbrev MeansEach :=
  List.Forall₂ fun (text : Text) (expr : TypeExpr) =>
    Means (TypeTable.canonicalize text) expr.meaning

abbrev MeansEachField :=
  List.Forall₂ fun (field : Text × Text) (expr : Text × TypeExpr) =>
    field.1 = expr.1 ∧ Means (TypeTable.canonicalize field.2) expr.2.meaning

variable {exprs : List TypeExpr} {texts : List Text}

theorem means_evalArgs (h : MeansEach texts exprs) :
    Means (evalArgs (texts.map ofText)) (argsMeaning exprs) := by
  induction h with
  | nil => exact .pure []
  | cons hFirst _ ih =>
    refine hFirst.bind ?_
    intro first
    refine ih.bind ?_
    intro types
    exact .pure (first :: types)

theorem means_evalMembers
    {fields : List (Text × Text)} {exprs : List (Text × TypeExpr)}
    (h : MeansEachField fields exprs) :
    Means (evalMembers (fields.map fun field => (field.1, ofText field.2)))
      (fieldsMeaning exprs) := by
  induction h with
  | nil => exact .pure []
  | @cons field expr _ _ hFirst _ ih =>
    obtain ⟨name, _⟩ := field
    obtain ⟨_, _⟩ := expr
    obtain ⟨rfl, hType⟩ := hFirst
    refine hType.bind ?_
    intro first
    refine ih.bind ?_
    intro fields
    exact .pure ((name, first) :: fields)

/- Every argument has a meaning if all of them have. -/
theorem length_of_argsMeaning
    {alias? : Text → Option TypeName} {registry after : Registry} {types : List TypeName}
    (h : argsMeaning exprs alias? registry = some (types, after)) :
    types.length = exprs.length := by
  induction exprs generalizing registry after types with
  | nil =>
    cases h
    rfl
  | cons arg rest ih =>
    have hRun :
        argsMeaning (arg :: rest) alias? registry =
          (arg.meaning alias? registry).bind fun first =>
            (argsMeaning rest alias? first.2).bind fun others =>
              some (first.1 :: others.1, others.2) := rfl
    rw [hRun] at h
    obtain ⟨_, _, h⟩ := Option.bind_eq_some_iff.mp h
    obtain ⟨_, hRest, h⟩ := Option.bind_eq_some_iff.mp h
    cases h
    simp [ih hRest]

theorem appliedMeaning_eq_failure
    {head : Text} {args : List TypeName} (hHead : head = array ∨ head = pointer)
    (hArgs : args.length ≠ 1) :
    appliedMeaning head args = failure := by
  cases args with
  | nil => rcases hHead with rfl | rfl <;> rfl
  | cons _ rest =>
    cases rest with
    | nil => exact absurd rfl hArgs
    | cons => rcases hHead with rfl | rfl <;> rfl

theorem applied_means_nothing
    {head : Text} (hHead : head = array ∨ head = pointer) (hLength : exprs.length ≠ 1)
    (alias? : Text → Option TypeName) (registry : Registry) :
    (argsMeaning exprs >>= appliedMeaning head) alias? registry =
      none := by
  have hRun :
      (argsMeaning exprs >>= appliedMeaning head) alias? registry =
        (argsMeaning exprs alias? registry).bind fun args =>
          appliedMeaning head args.1 alias? args.2 := rfl
  rw [hRun, Option.bind_eq_none_iff]
  intro args hArgs
  rw [← length_of_argsMeaning hArgs] at hLength
  rw [appliedMeaning_eq_failure hHead hLength]
  rfl

/-
  Arrays and pointers of several types or of none fail before
  any of the types is decided.
-/
theorem means_applied_of_length_ne
    (raw head : Text) (h : MeansEach texts exprs) (hLength : exprs.length ≠ 1) :
    Means (applied raw head (texts.map ofText)).eval
      (argsMeaning exprs >>= appliedMeaning head) := by
  have hMany : ∀ arg, texts.map ofText = [arg] → False := by
    intro arg hArgs
    have hCount := congrArg List.length hArgs
    rw [List.length_map, h.length_eq] at hCount
    exact hLength hCount
  rw [eval]
  · by_cases hArray : head = array
    · rw [if_pos hArray]
      exact .throw _ (applied_means_nothing (.inl hArray) hLength)
    · rw [if_neg hArray]
      by_cases hPointer : head = pointer
      · rw [if_pos hPointer]
        exact .throw _ (applied_means_nothing (.inr hPointer) hLength)
      · rw [if_neg hPointer]
        refine (means_evalArgs h).bind ?_
        intro args
        unfold appliedMeaning
        rw [if_neg hArray, if_neg hPointer]
        exact .pure _
  · exact hMany

theorem means_applied_singleton
    (raw head : Text) {text : Text} {expr : TypeExpr}
    (h : Means (TypeTable.canonicalize text) expr.meaning) :
    Means (applied raw head [ofText text]).eval (argsMeaning [expr] >>= appliedMeaning head) := by
  have hMeaning :
      argsMeaning [expr] >>= appliedMeaning head =
        expr.meaning >>= fun arg => appliedMeaning head [arg] := by
    simp [argsMeaning]
  rw [hMeaning, eval]
  unfold appliedMeaning
  by_cases hArray : head = array
  · simp only [if_pos hArray]
    exact h.bind (means_arrayType raw)
  · by_cases hPointer : head = pointer
    · simp only [if_neg hArray, if_pos hPointer]
      exact h.bind fun target => .pure target.pointerTo
    · simp only [if_neg hArray, if_neg hPointer, evalArgs, bind_assoc, pure_bind]
      exact h.bind fun arg => .pure (TypeName.applied head [arg])

theorem means_applied (raw head : Text) (h : MeansEach texts exprs) :
    Means (applied raw head (texts.map ofText)).eval
      (argsMeaning exprs >>= appliedMeaning head) := by
  by_cases hLength : exprs.length = 1
  · obtain ⟨_, rfl⟩ := List.length_eq_one_iff.mp hLength
    obtain ⟨_, _, hText, hNil, rfl⟩ :=
      List.forall₂_cons_right_iff.mp h
    rw [List.forall₂_nil_right_iff.mp hNil]
    exact means_applied_singleton raw head hText
  · exact means_applied_of_length_ne raw head h hLength

-----
-- Spellings
-----

theorem forall_mem_nil_isBlank :
    ∀ c ∈ ([] : Text), Text.isBlank c = true :=
  List.forall_mem_nil _

/- A text with nothing around it is the text itself. -/
theorem Means.of_nil_around
    {text : Text} {meaning : Meaning TypeName}
    (h : Means (TypeTable.canonicalize ([] ++ (text ++ []))) meaning) :
    Means (TypeTable.canonicalize text) meaning := by
  simpa using h

mutual

/-
  By induction on the type: its outermost form is read off
  the text, and parts of the form are texts of its parts.
  Parts of a shape are spelled as the shape was; other parts
  are spelled in native words already.
-/
theorem SpelledType.means_canonicalize
    {render : Text → Text} (hRender : Renders render) {before after : Text}
    (hBefore : ∀ c ∈ before, Text.isBlank c = true) (spelled : SpelledType)
    (hAfter : ∀ c ∈ after, Text.isBlank c = true) :
    Means (TypeTable.canonicalize (before ++ (spelled.print render ++ after)))
      spelled.expr.meaning := by
  unfold TypeTable.canonicalize
  rw [ofText_eq_term, spelled.form_print hRender hBefore hAfter]
  cases spelled with
  | word name => exact means_word _ (renders_nativeWord.identifier name.val name.property)
  | array element gap =>
    have hElement :=
      element.means_canonicalize renders_nativeWord forall_mem_nil_isBlank gap.property
    exact hElement.bind (means_arrayType _)
  | applied _ args => exact means_applied _ _ (args.meansEach renders_nativeWord)
  | shape _ members =>
    exact (means_evalMembers (members.meansEachField hRender)).bind fun _ _ => rfl

theorem SpelledArgs.meansEach
    {render : Text → Text} (hRender : Renders render) (args : SpelledArgs) :
    MeansEach (args.texts render) args.exprs := by
  cases args with
  | last _ arg =>
    have hFirst :=
      Means.of_nil_around
        (arg.means_canonicalize hRender forall_mem_nil_isBlank forall_mem_nil_isBlank)
    exact .cons hFirst .nil
  | more _ arg _ rest =>
    have hFirst :=
      Means.of_nil_around
        (arg.means_canonicalize hRender forall_mem_nil_isBlank forall_mem_nil_isBlank)
    exact .cons hFirst (rest.meansEach hRender)

theorem SpelledMembers.meansEachField
    {render : Text → Text} (hRender : Renders render) (members : SpelledMembers) :
    MeansEachField (members.texts render) members.exprs := by
  cases members with
  | last _ type | closed _ type =>
    have hFirst :=
      Means.of_nil_around
        (type.means_canonicalize hRender forall_mem_nil_isBlank forall_mem_nil_isBlank)
    exact .cons ⟨rfl, hFirst⟩ .nil
  | more _ type _ rest =>
    have hFirst :=
      Means.of_nil_around
        (type.means_canonicalize hRender forall_mem_nil_isBlank forall_mem_nil_isBlank)
    exact .cons ⟨rfl, hFirst⟩ (rest.meansEachField hRender)

end

/-
  However a type is spelled, and whatever types are known,
  deciding the spelling succeeds exactly if the type has a
  meaning. The type it gives and the registry it leaves are
  the meant ones, and the aliases are kept.
-/
theorem canonicalize_text_eq_meaning
    (spelled : SpelledType) (before after : Blanks) (table : TypeTable) :
    outcome (TypeTable.canonicalize (before.val ++ (spelled.text ++ after.val))) table =
      (spelled.expr.meaning table.alias? table.registry).map
        fun result => (result.1, { table with registry := result.2 }) :=
  spelled.means_canonicalize renders_id before.property after.property table

/- A pointer to an array of integers, with blanks. -/
example :
    let space : Blanks := ⟨[' '], List.forall_mem_singleton.mpr rfl⟩
    let element : SpelledType := .word ⟨"number", by decide⟩
    let spelled : SpelledType :=
      .applied ⟨"ptr", by decide⟩ (.last space (.array element space) space)
    spelled.text = "ptr< number [] >" ∧
      spelled.expr.meaning (fun _ => none) Registry.empty =
        some (⟨"Pointer<i32>"⟩, Registry.empty) := by
  decide +kernel

end ScriptLowering
