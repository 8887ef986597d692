import ScriptLowering.Proofs.NativeSpellings

/-
  Deciding a spelling comes to an end. A spelling is decided
  from the parts of its form, and a part is a spelling again.
  It may be longer than the whole, since native words can be
  longer than host words. But in native words it is found in
  the whole, and there is a mark behind it.

  Key theorems include:
    * `TypeForm.native_shorter_of_mem_parts`
    * `deciding_parts_comes_to_an_end`
-/

namespace ScriptLowering

open Text Spelling TypeTable List TypeTerm

-----
-- Parts That Are Decided
-----

/- Decide one type after the other. -/
def inOrder {α : Type} : List (TypeM α) → TypeM (List α)
  | [] => return []
  | decision :: rest => do
      let first ← decision
      let later ← inOrder rest
      return first :: later

namespace TypeForm

/-
  Decide a spelling by its form, where a given function
  decides the parts. Other forms are decided by themselves.
-/
def decideWith (decidePart : Text → TypeM TypeName) (raw : Text) : TypeForm → TypeM TypeName
  | .shape fields => do
      let fields ←
        inOrder
          (fields.map fun field =>
            return (field.1, ← decidePart field.2))
      intern fields
  | .array element => do
      let element ← decidePart element
      TypeTerm.arrayType raw element
  | .applied head args =>
      if head = Spelling.array then
        match args with
        | [arg] => do
            let element ← decidePart arg
            TypeTerm.arrayType raw element
        | _ => throw (TypeError.undecidable raw)
      else if head = pointer then
        match args with
        | [arg] => do
            let target ← decidePart arg
            return TypeName.pointerTo target
        | _ => throw (TypeError.undecidable raw)
      else do
        let types ← inOrder (args.map decidePart)
        return TypeName.applied head types
  | form => (form.term raw).eval

/- Only the parts of the form are asked for. -/
theorem decideWith_congr
    {decidePart other : Text → TypeM TypeName} {form : TypeForm}
    (h : ∀ part ∈ form.parts, decidePart part = other part) (raw : Text) :
    form.decideWith decidePart raw = form.decideWith other raw := by
  cases form with
  | shape fields =>
    have hFields : ∀ field ∈ fields, decidePart field.2 = other field.2 := forall_mem_map.mp h
    exact congrArg (inOrder · >>= intern)
      (map_congr_left fun field hField => by rw [hFields field hField])
  | array element => simp only [decideWith, h element mem_cons_self]
  | applied _ args =>
    have hArgs : args.map decidePart = args.map other := map_congr_left h
    rcases args with _ | ⟨arg, _ | ⟨_, _⟩⟩
    · rfl
    · simp only [decideWith, hArgs, h arg mem_cons_self]
    · simp only [decideWith, hArgs]
  | _ => rfl

end TypeForm

theorem evalArgs_eq_inOrder (args : List Text) :
    evalArgs (args.map ofText) = inOrder (args.map canonicalize) := by
  induction args with
  | nil => rfl
  | cons _ _ ih =>
    rw [map_cons, evalArgs, ih]
    rfl

theorem evalMembers_eq_inOrder (fields : List (Text × Text)) :
    evalMembers (fields.map fun field => (field.1, ofText field.2)) =
      inOrder (fields.map fun field => return (field.1, ← canonicalize field.2)) := by
  induction fields with
  | nil => rfl
  | cons _ _ ih =>
    rw [map_cons, evalMembers, ih, map_cons, inOrder, bind_assoc]
    rfl

/- A spelling is decided by its form and the types of its parts. -/
theorem canonicalize_eq_decideWith (raw : Text) :
    canonicalize raw = (TypeForm.ofText raw).decideWith canonicalize raw := by
  conv =>
    lhs
    rw [canonicalize, ofText_eq_term]
  cases TypeForm.ofText raw with
  | shape =>
    unfold TypeForm.term eval
    rw [evalMembers_eq_inOrder]
    rfl
  | applied _ args =>
    unfold TypeForm.term eval TypeForm.decideWith
    rw [evalArgs_eq_inOrder]
    rcases args with _ | ⟨_, _ | ⟨_, _⟩⟩ <;> rfl
  | _ => rfl

-----
-- Parts Are Shorter
-----

/- Trimmed and in native words, a part is shorter than the whole. -/
theorem TypeForm.native_shorter_of_mem_parts {raw part : Text} (h : part ∈ (ofText raw).parts) :
    (nativeForm (trim part)).length < (nativeForm (trim raw)).length ∧
      (nativeForm (trim part)).byteSize < (nativeForm (trim raw)).byteSize := by
  rcases exists_sublist_of_mem_parts h with ⟨mark, hSub⟩
  have hTrim : (nativeForm (trim part)).Sublist (nativeForm part) := by
    rw [← trim_nativeForm]
    exact trim_sublist _
  have hWhole := (hTrim.append (.refl [mark])).trans hSub
  constructor
  · simpa [Nat.succ_le_iff] using hWhole.length_le
  · have hBytes := byteSize_le_of_sublist hWhole
    have hMark := mark.utf8Size_pos
    rw [byteSize_append, byteSize, byteSize] at hBytes
    omega

/-
  Native words are put in once and between marks. A spelling
  is decided from the types of its parts only, and these are
  shorter when they are trimmed and in native words, though
  not always as they stand. So there is one way to decide all
  spellings from their parts.
-/
theorem deciding_parts_comes_to_an_end :
    (∀ text, nativeForm (nativeForm text) = nativeForm text) ∧
      (∀ front mark back, isWordChar mark = false →
        nativeForm (front ++ mark :: back) = nativeForm front ++ mark :: nativeForm back) ∧
      (∀ raw, canonicalize raw = (TypeForm.ofText raw).decideWith canonicalize raw) ∧
      (∀ form raw decidePart other,
        (∀ part ∈ TypeForm.parts form, decidePart part = other part) →
          form.decideWith decidePart raw = form.decideWith other raw) ∧
      (∀ raw, ∀ part ∈ (TypeForm.ofText raw).parts,
        (nativeForm (trim part)).length < (nativeForm (trim raw)).length ∧
          (nativeForm (trim part)).byteSize < (nativeForm (trim raw)).byteSize) ∧
      (∃ raw, ∃ part ∈ (TypeForm.ofText raw).parts, raw.length < part.length) ∧
      ∀ decide : Text → TypeM TypeName,
        (∀ raw, decide raw = (TypeForm.ofText raw).decideWith decide raw) →
          decide = canonicalize := by
  refine ⟨nativeForm_nativeForm, fun front _ back hMark => nativeForm_append_mark hMark front back,
    canonicalize_eq_decideWith,
    fun _ raw _ _ h => TypeForm.decideWith_congr h raw,
    fun _ _ h => TypeForm.native_shorter_of_mem_parts h, ?_, ?_⟩
  · exact ⟨"ptr<u8>[]", "Pointer<u8>", by decide, by decide⟩
  · intro decide hDecide
    funext raw
    induction hLength : (nativeForm (trim raw)).length using Nat.strong_induction_on
      generalizing raw with
    | _ _ ih =>
      rw [hDecide, canonicalize_eq_decideWith]
      apply TypeForm.decideWith_congr
      intro part hPart
      have hShorter := (TypeForm.native_shorter_of_mem_parts hPart).1
      rw [hLength] at hShorter
      exact ih _ hShorter part rfl

end ScriptLowering
