import ScriptLowering.Proofs.TopLevelCuts
import ScriptLowering.Types.Name

/-
  The words of type spellings. Cutting a spelling at marks
  leaves no word out, so an application has the words of its
  head and of its arguments, in order.

  Key theorems include:
    * `TypeName.referencedNames_of_arrayElement?`
    * `TypeName.mem_text_applied`
-/

namespace ScriptLowering

open Text List Spelling

variable {text : Text} {application : Application}

-----
-- Words Of Pieces
-----

namespace Text

/- Cutting a text at marks leaves no word out. -/
theorem words_cuts {cuts : Cuts} (hMarks : ∀ cut ∈ cuts.later, isWordChar cut.1 = false) :
    words cuts.text = cuts.pieces.flatMap words := by
  rcases cuts with ⟨first, later⟩
  induction later generalizing first with
  | nil => simp [Cuts.text, Cuts.pieces]
  | cons cut _ ih =>
    rcases forall_mem_cons.mp hMarks with ⟨hMark, hRest⟩
    exact (words_append_mark hMark first _).trans (congrArg _ (ih cut.2 hRest))

/- Where no word is cut, the pieces have the words of the text. -/
theorem words_splitTopLevel
    {separators : List Char} (hMarks : ∀ c ∈ separators, isWordChar c = false) (text : Text) :
    (splitTopLevel separators text).flatMap words = words text := by
  have hWords := words_cuts fun cut hCut =>
    hMarks cut.1 (mem_of_mem_cutFrom separators 0 '\x00' text cut hCut)
  rw [splitTopLevel_eq_pieces, ← hWords, text_cutFrom]

theorem mem_joinWith
    {separator : Text} {parts : List Text} {c : Char} (h : c ∈ joinWith separator parts) :
    c ∈ separator ∨ ∃ part ∈ parts, c ∈ part := by
  induction parts with
  | nil => cases h
  | cons part rest ih =>
    cases rest with
    | nil => exact .inr ⟨part, mem_cons_self, h⟩
    | cons =>
      simp only [joinWith, mem_append] at h
      rcases h with (hPart | hSeparator) | hRest
      · exact .inr ⟨part, mem_cons_self, hPart⟩
      · exact .inl hSeparator
      · rcases ih hRest with hSeparator | ⟨other, hOther, hMem⟩
        · exact .inl hSeparator
        · exact .inr ⟨other, mem_cons_of_mem _ hOther, hMem⟩

end Text

-----
-- Words Of Applications
-----

namespace Application

/- An application is a head in front of closed brackets. -/
theorem exists_of_ofText? (h : ofText? text = some application) :
    ∃ front inner,
      text = front ++ '<' :: (inner ++ ['>']) ∧ application.head = trim front ∧
        application.head.isIdentifier = true ∧
        application.args = (splitTopLevel [','] inner).map trim := by
  unfold ofText? at h
  cases hInner : inner? text with
  | none =>
    rw [hInner] at h
    cases h
  | some inner =>
    rw [hInner] at h
    dsimp only at h
    split at h
    · next hParts =>
      cases h
      rw [Bool.and_eq_true] at hParts
      refine ⟨text.takeWhile (· != '<'), inner, ?_, rfl, hParts.1, rfl⟩
      unfold inner? at hInner
      split at hInner
      · cases hInner
      · next c after hDrop =>
        split at hInner
        · next hLast =>
          cases hInner
          rcases getLast?_eq_some_iff.mp hLast with ⟨_, rfl⟩
          have hText := takeWhile_append_dropWhile (p := (· != '<')) (l := text)
          have hOpen : c = '<' := by
            have hHead := head?_dropWhile_not (· != '<') text
            rw [hDrop] at hHead
            simpa using hHead
          rw [hDrop, hOpen] at hText
          rw [dropLast_concat, hText]
        · cases hInner
    · cases h

theorem sublist_of_mem_args
    {arg : Text} (h : ofText? text = some application) (hArg : arg ∈ application.args) :
    arg.Sublist text := by
  rcases exists_of_ofText? h with ⟨front, inner, hText, _, _, hArgs⟩
  rw [hArgs] at hArg
  rcases mem_map.mp hArg with ⟨piece, hPiece, rfl⟩
  have hInner : inner.Sublist text := by
    rw [hText]
    exact (sublist_append_left inner ['>']).trans
      ((sublist_cons_self '<' _).trans (sublist_append_right front _))
  exact ((trim_sublist piece).trans (sublist_of_mem_splitTopLevel hPiece)).trans hInner

/- An application has the words of its head and arguments. -/
theorem words_of_ofText? (h : ofText? text = some application) :
    words text = words application.head ++ application.args.flatMap words := by
  rcases exists_of_ofText? h with ⟨_, inner, hText, hHead, _, hArgs⟩
  have hComma : ∀ c ∈ [','], isWordChar c = false := forall_mem_singleton.mpr rfl
  rw [hText, hHead, hArgs, words_append_mark rfl, words_append_mark rfl,
    ← words_splitTopLevel hComma inner]
  simp [flatMap_map]

end Application

-----
-- Words Of Types
-----

theorem Spelling.words_array :
    words array = [array] :=
  rfl

theorem Spelling.words_pointer :
    words pointer = [pointer] :=
  rfl

namespace TypeName

theorem referencedNames_applied (head : Text) (args : List TypeName) :
    (applied head args).referencedNames = words head ++ args.flatMap referencedNames := by
  have hText :
      (applied head args).text = head ++ '<' ::
          (joinWith ", " (args.map TypeName.text) ++ '>' :: []) := by
    simp [applied]
  unfold referencedNames
  rw [hText, words_append_mark (by decide), words_append_mark (by decide), words_joinWith]
  simp [flatMap_map]

/- An application of one argument has its words and the head. -/
theorem referencedNames_of_argumentOf?
    {head : Text} {type arg : TypeName} (h : type.argumentOf? head = some arg) :
    type.referencedNames = words head ++ arg.referencedNames := by
  unfold argumentOf? at h
  split at h
  · next found piece hRead =>
    split at h
    · next hHead =>
      cases h
      subst hHead
      unfold referencedNames
      rw [Application.words_of_ofText? hRead]
      simp
    · cases h
  · cases h

theorem referencedNames_of_arrayElement?
    {type element : TypeName} (h : type.arrayElement? = some element) :
    type.referencedNames = array :: element.referencedNames := by
  rw [referencedNames_of_argumentOf? h, words_array]
  rfl

theorem referencedNames_arrayOf (element : TypeName) :
    (arrayOf element).referencedNames = array :: element.referencedNames := by
  unfold arrayOf
  rw [referencedNames_applied, words_array]
  simp

/- A pointer to an array has the words of the elements. -/
theorem mem_referencedNames_pointerTo_iff
    {type : TypeName} {name : Text} (hArray : name ≠ array) (hPointer : name ≠ pointer) :
    name ∈ (pointerTo type).referencedNames ↔ name ∈ type.referencedNames := by
  have hWords :
      (pointerTo type).referencedNames = pointer ::
          (type.arrayElement?.getD type).referencedNames := by
    unfold pointerTo
    rw [referencedNames_applied, words_pointer]
    simp
  rw [hWords, mem_cons, or_iff_right hPointer]
  cases hElement : type.arrayElement? with
  | none => rfl
  | some =>
    rw [referencedNames_of_arrayElement? hElement, mem_cons, or_iff_right hArray]
    rfl

-----
-- Characters Of Types
-----

theorem mem_text_applied
    {head : Text} {args : List TypeName} {c : Char} (h : c ∈ (applied head args).text) :
    c ∈ head ∨ c ∈ ['<', ',', ' ', '>'] ∨ ∃ arg ∈ args, c ∈ arg.text := by
  simp only [applied, mem_append] at h
  rcases h with ((hHead | hOpen) | hJoined) | hClose
  · exact .inl hHead
  · exact .inr (.inl (mem_append_left [',', ' ', '>'] hOpen))
  · rcases mem_joinWith hJoined with hSeparator | hPart
    · exact .inr (.inl (mem_cons_of_mem '<' (mem_append_left ['>'] hSeparator)))
    · rcases hPart with ⟨_, hPart, hMem⟩
      rcases mem_map.mp hPart with ⟨arg, hArg, rfl⟩
      exact .inr (.inr ⟨arg, hArg, hMem⟩)
  · exact .inr (.inl (mem_append_right ['<', ',', ' '] hClose))

theorem sublist_of_arrayElement?
    {array element : TypeName} (h : array.arrayElement? = some element) :
    element.text.Sublist array.text := by
  unfold arrayElement? argumentOf? at h
  split at h
  · next found arg hFound =>
    split at h
    · cases h
      exact Application.sublist_of_mem_args hFound mem_cons_self
    · cases h
  · cases h

end TypeName

end ScriptLowering
