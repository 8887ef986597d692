import ScriptLowering.Text.Blank
import ScriptLowering.Text.Bracket

/-
  Generic applications `Head<A, B>` in type spellings.

  Key definitions include:
    * `Application`
    * `Application.ofText?`

  Key theorems include:
    * `Application.markCount_lt_of_mem_args`
-/

namespace ScriptLowering

/- A head and its arguments, all trimmed. -/
structure Application where
  head : Text
  args : List Text
deriving DecidableEq, Repr

namespace Application

-----
-- Reading Applications
-----

/- Whether every `<` has its `>` and the other way round. -/
def isBalanced (depth : Nat) : Text → Bool
  | [] => depth == 0
  | c :: rest =>
      if c = '<' then
        isBalanced (depth + 1) rest
      else if c = '>' then
        match depth with
        | 0 => false
        | depth + 1 => isBalanced depth rest
      else
        isBalanced depth rest

/- What stands between the first `<` and a final `>`. -/
def inner? (text : Text) : Option Text :=
  match text.dropWhile (· != '<') with
  | [] => none
  | _ :: after =>
      if after.getLast? = some '>' then
        some after.dropLast
      else
        none

/-
  Read a text that is one application as a whole: the first
  bracket must be the one that the last one closes.
-/
def ofText? (text : Text) : Option Application :=
  match inner? text with
  | none => none
  | some inner =>
      let head := Text.trim (text.takeWhile (· != '<'))
      if head.isIdentifier && isBalanced 0 inner then
        some ⟨head, (Text.splitTopLevel [','] inner).map Text.trim⟩
      else
        none

-----
-- Arguments Are Smaller
-----

theorem markCount_dropLast_lt
    {text : Text} {c : Char} (hLast : text.getLast? = some c) (hMark : Text.isWordChar c = false) :
    Text.markCount text.dropLast < text.markCount := by
  obtain ⟨start, rfl⟩ := List.getLast?_eq_some_iff.1 hLast
  simp [Text.markCount_cons, hMark]

theorem markCount_inner?_lt {text inner : Text} (h : inner? text = some inner) :
    inner.markCount < text.markCount := by
  unfold inner? at h
  split at h
  · cases h
  · next c after hDrop =>
    split at h
    · next hLast =>
      cases h
      have hLt := markCount_dropLast_lt hLast (by decide)
      have hSub : (c :: after).Sublist text := hDrop ▸ List.dropWhile_sublist _
      have hLe := Text.markCount_le_of_sublist hSub
      have hTail := Text.markCount_le_of_sublist (List.sublist_cons_self c after)
      omega
    · cases h

/- An argument has fewer marks than the whole application. -/
theorem markCount_lt_of_mem_args
    {text arg : Text} {application : Application} (h : ofText? text = some application)
    (hArg : arg ∈ application.args) :
    arg.markCount < text.markCount := by
  unfold ofText? at h
  split at h
  · cases h
  · next inner hInner =>
    dsimp only at h
    split at h
    · cases h
      obtain ⟨piece, hPiece, rfl⟩ := List.mem_map.1 hArg
      have hSub := (Text.trim_sublist piece).trans (Text.sublist_of_mem_splitTopLevel hPiece)
      have hLe := Text.markCount_le_of_sublist hSub
      have hLt := markCount_inner?_lt hInner
      omega
    · cases h

end Application

end ScriptLowering
