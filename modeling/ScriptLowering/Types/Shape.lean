import ScriptLowering.Text.Blank
import ScriptLowering.Text.Bracket
import ScriptLowering.Types.Error

/-
  Object types such as `{ a: T; readonly b: U }` in type
  spellings. Members are separated by semicolons or commas.
  Optional members, methods and index signatures have no
  struct layout.

  Key definitions include:
    * `Shape.isBraced`
    * `Shape.readMember`
    * `Shape.read`

  Key theorems include:
    * `Shape.markCount_lt_of_mem_read`
-/

namespace ScriptLowering

namespace Shape

-----
-- Reading Shapes
-----

/- Whether a text starts and ends like an object type. -/
def isBraced (text : Text) : Bool :=
  text.head? == some '{' && text.getLast? == some '}'

/- What stands between the braces of a text. -/
def inner? : Text → Option Text
  | [] => none
  | c :: rest =>
      if c = '{' ∧ rest.getLast? = some '}' then
        some rest.dropLast
      else
        none

/- A member without the word `readonly` in front. -/
def dropReadonly (member : Text) : Text :=
  match member.dropStart? "readonly " with
  | some rest => Text.trimStart rest
  | none => member

/- The name and the type of a member. -/
def readMember (member : Text) : Except ShapeFault (Text × Text) :=
  match Text.cutTopLevel? ':' member with
  | none => .error (.untypedMember member)
  | some (before, type) =>
      let name := Text.trim before
      if name.getLast? = some '?' then
        .error (.optionalMember name)
      else if name.contains '(' || name.head? == some '[' then
        .error (.notAField name)
      else if name.isIdentifier then
        .ok (name, Text.trim type)
      else
        .error (.invalidName name)

/- Read members in order, up to the first one at fault. -/
def readMembers :
    List Text → Except ShapeFault (List (Text × Text))
  | [] => .ok []
  | piece :: rest =>
      let member := Text.trim piece
      if member.isEmpty then
        readMembers rest
      else
        match readMember (dropReadonly member) with
        | .error fault => .error fault
        | .ok field =>
            match readMembers rest with
            | .error fault => .error fault
            | .ok fields => .ok (field :: fields)

/- The field names and type spellings of an object type. -/
def read (text : Text) : Except ShapeFault (List (Text × Text)) :=
  match inner? (Text.trim text) with
  | none => .error .unbalancedBraces
  | some inner =>
      match readMembers (Text.splitTopLevel [';', ','] inner) with
      | .error fault => .error fault
      | .ok [] => .error .emptyShape
      | .ok fields => .ok fields

-----
-- Field Types Are Smaller
-----

theorem dropReadonly_sublist (member : Text) :
    (dropReadonly member).Sublist member := by
  unfold dropReadonly
  split
  · next rest h =>
    rw [Text.dropStart?_eq_some h]
    exact (Text.trimStart_sublist rest).trans (List.sublist_append_right _ _)
  · exact List.Sublist.refl _

theorem sublist_of_readMember
    {member : Text} {field : Text × Text} (h : readMember member = .ok field) :
    field.2.Sublist member := by
  unfold readMember at h
  split at h
  · cases h
  · next before type hCut =>
    have hType : type.Sublist member := by
      unfold Text.cutTopLevel? at hCut
      split at hCut
      · cases hCut
      · cases hCut
        exact List.drop_sublist _ _
    dsimp only at h
    split at h
    · cases h
    · split at h
      · cases h
      · split at h
        · cases h
          exact (Text.trim_sublist type).trans hType
        · cases h

theorem sublist_of_mem_readMembers
    {pieces : List Text} {fields : List (Text × Text)} {field : Text × Text}
    (h : readMembers pieces = .ok fields) (hField : field ∈ fields) :
    ∃ piece ∈ pieces, field.2.Sublist piece := by
  induction pieces generalizing fields with
  | nil =>
      cases h
      simp at hField
  | cons piece _ ih =>
      unfold readMembers at h
      dsimp only at h
      split at h
      · obtain ⟨found, hFound, hSub⟩ := ih h hField
        exact ⟨found, List.mem_cons_of_mem _ hFound, hSub⟩
      · split at h
        · cases h
        · next first hFirst =>
          split at h
          · cases h
          · next later hLater =>
            cases h
            rcases List.mem_cons.1 hField with hEq | hMem
            · subst hEq
              refine ⟨piece, List.mem_cons_self, ?_⟩
              exact ((sublist_of_readMember hFirst).trans (dropReadonly_sublist _)).trans
                (Text.trim_sublist piece)
            · obtain ⟨found, hFound, hSub⟩ := ih hLater hMem
              exact ⟨found, List.mem_cons_of_mem _ hFound, hSub⟩

theorem markCount_inner?_lt {text inner : Text} (h : inner? text = some inner) :
    inner.markCount < text.markCount := by
  cases text with
  | nil => cases h
  | cons c rest =>
      simp only [inner?] at h
      split at h
      · next hBraces =>
        cases h
        have hLe := Text.markCount_le_of_sublist (List.dropLast_sublist rest)
        have hOne : Text.isWordChar c = false := by
          rw [hBraces.1]
          decide
        have hCons := Text.markCount_cons c rest
        simp [hOne] at hCons
        omega
      · cases h

/- The type of a field has fewer marks than the whole shape. -/
theorem markCount_lt_of_mem_read
    {text : Text} {fields : List (Text × Text)} {field : Text × Text} (h : read text = .ok fields)
    (hField : field ∈ fields) :
    field.2.markCount < text.markCount := by
  unfold read at h
  split at h
  · cases h
  · next inner hInner =>
    split at h
    · cases h
    · cases h
    · next found hNonempty hFound =>
      cases h
      obtain ⟨piece, hPiece, hSub⟩ :=
        sublist_of_mem_readMembers hFound hField
      have hLe := Text.markCount_le_of_sublist
        (hSub.trans (Text.sublist_of_mem_splitTopLevel hPiece))
      have hLt := markCount_inner?_lt hInner
      have hTrim := Text.markCount_le_of_sublist (Text.trim_sublist text)
      omega

end Shape

end ScriptLowering
