import ScriptLowering.Proofs.Lexicon

/-
  Marks that lowering does not write by itself. Words, types
  and operators consist of a few characters. A mark that is
  not among them is in a text of the program only if a name
  or a number of the source has it.

  Key theorems include:
    * `lacks_of_isCodeChar`
    * `lacks_render`
-/

namespace ScriptLowering

open List

/- The characters of words, types, numbers and operators. -/
def isCodeChar (c : Char) : Bool :=
  Text.isWordChar c || ("<>, .'!=+-*/%&|^~?" : Text).contains c

def areForeign (marks : List Char) : Bool :=
  marks.all fun mark => !isCodeChar mark

/- A text without any of some marks. -/
def Text.Lacks (marks : List Char) (text : Text) : Prop :=
  ∀ c ∈ text, c ∉ marks

section Foreign

variable {marks : List Char}

theorem lacks_append {front back : Text} :
    Text.Lacks marks (front ++ back) ↔ front.Lacks marks ∧ back.Lacks marks :=
  forall_mem_append

variable (hForeign : areForeign marks = true)
include hForeign

theorem lacks_of_isCodeChar {text : Text} (h : text.all isCodeChar = true) :
    text.Lacks marks := by
  intro c hMem hMark
  have hCode := all_eq_true.mp h c hMem
  have hOther := all_eq_true.mp hForeign c hMark
  rw [hCode] at hOther
  cases hOther

theorem lacks_of_isWordChar {text : Text} (h : text.all Text.isWordChar = true) :
    text.Lacks marks := by
  apply lacks_of_isCodeChar hForeign
  refine all_eq_true.mpr ?_
  intro c hMem
  rw [isCodeChar, all_eq_true.mp h c hMem]
  rfl

theorem lacks_of_isIdentifier {name : Text} (h : name.isIdentifier = true) :
    name.Lacks marks :=
  lacks_of_isWordChar hForeign (Text.IsWord.of_isIdentifier h).2

theorem lacks_unitMark (origin? : Option Text) :
    (unitMark origin?).Lacks marks := by
  have hName : ∀ c, Text.isWordChar (nameChar c) = true := by
    intro c
    unfold nameChar
    split
    · next h =>
      rw [Text.isWordChar, h]
      rfl
    · rfl
  apply lacks_of_isWordChar hForeign
  cases origin? with
  | none => rfl
  | some origin =>
    show (mangleModule origin).all Text.isWordChar = true
    unfold mangleModule
    split
    · rfl
    · have hUnderscore : ("_" : Text).all Text.isWordChar = true := rfl
      simp only [all_append, all_map, hUnderscore, Bool.true_and, Bool.and_true]
      exact all_eq_true.mpr fun c _ => hName c

theorem lacks_number {digits : Text} (h : digits.Lacks marks) :
    (Literal.number digits).Lacks marks := by
  intro c hChar
  rcases mem_map.mp hChar with ⟨digit, hDigit, rfl⟩
  split
  · have hQuote : Text.Lacks marks ['\''] := lacks_of_isCodeChar hForeign rfl
    exact hQuote '\'' mem_cons_self
  · exact h digit hDigit

theorem lacks_float?
    {single : Bool} {digits literal : Text} (h : digits.Lacks marks)
    (hLiteral : Literal.float? single digits = some literal) :
    literal.Lacks marks := by
  unfold Literal.float? at hLiteral
  dsimp only at hLiteral
  split at hLiteral
  · cases hLiteral
  · cases hLiteral
    refine lacks_append.mpr ⟨lacks_append.mpr ⟨lacks_number hForeign h, ?_⟩, ?_⟩
    · split <;> exact lacks_of_isCodeChar hForeign rfl
    · split <;> exact lacks_of_isCodeChar hForeign rfl

theorem lacks_unaryOperator {op : UnaryOp} {target : Text} (h : op.target? = some target) :
    target.Lacks marks := by
  have hSpelling : op.spelling.all isCodeChar = true := by cases op <;> rfl
  unfold UnaryOp.target? at h
  split at h
  · cases h
  · cases h
  · cases h
  · injection h with hTarget
    rw [← hTarget]
    exact lacks_of_isCodeChar hForeign hSpelling

theorem lacks_binaryOperator {op : BinaryOp} {target : Text} (h : op.target? = some target) :
    target.Lacks marks := by
  have hSpelling : ∀ other : BinaryOp, other.spelling.Lacks marks := by
    intro other
    apply lacks_of_isCodeChar hForeign
    cases other <;> rfl
  unfold BinaryOp.target? at h
  split at h
  · cases h
  · cases h
  · cases h
  · cases h
  · injection h with hTarget
    rw [← hTarget]
    exact hSpelling _
  · injection h with hTarget
    rw [← hTarget]
    exact hSpelling _
  · injection h with hTarget
    rw [← hTarget]
    exact hSpelling _

theorem lacks_applied
    {head : Text} {args : List TypeName} (hHead : head.isIdentifier = true)
    (hArgs : ∀ arg ∈ args, arg.text.Lacks marks) :
    (TypeName.applied head args).text.Lacks marks := by
  have hMarks : Text.Lacks marks ['<', ',', ' ', '>'] := lacks_of_isCodeChar hForeign rfl
  intro c hMem
  rcases TypeName.mem_text_applied hMem with hWord | hBracket | ⟨arg, hArg, hInside⟩
  · exact lacks_of_isIdentifier hForeign hHead c hWord
  · exact hMarks c hBracket
  · exact hArgs arg hArg c hInside

/- Words may be replaced by words. -/
theorem lacks_render {type : TypeName} (h : type.text.Lacks marks) :
    type.render.Lacks marks := by
  intro c hChar
  rcases mem_flatMap.mp hChar with ⟨piece, hPiece, hMem⟩
  have hOwn : piece.text.Lacks marks := by
    intro d hOther
    apply h d
    rw [← Text.unpiece_pieces type.text]
    exact mem_flatMap.mpr ⟨piece, hPiece, hOther⟩
  cases piece with
  | mark => exact hOwn c hMem
  | word run =>
    have hRun : ((Spelling.targetWord run).getD run).Lacks marks := by
      unfold Spelling.targetWord
      split
      · exact lacks_of_isCodeChar hForeign rfl
      · exact hOwn
    exact hRun c hMem

end Foreign

/- Texts and types without some foreign marks. -/
def Lexicon.without (marks : List Char) (hForeign : areForeign marks = true) : Lexicon where
  text := Text.Lacks marks
  type type := type.text.Lacks marks
  identifier h := lacks_of_isIdentifier hForeign h
  emitted origin? h :=
    lacks_append.mpr ⟨lacks_unitMark hForeign origin?, h⟩
  number h := lacks_number hForeign h
  float h hLiteral := lacks_float? hForeign h hLiteral
  decimal n := lacks_of_isWordChar hForeign (all_isWordChar_ofNat n)
  unaryOperator h := lacks_unaryOperator hForeign h
  stepOperator op := by
    apply lacks_of_isCodeChar hForeign
    cases op <;> rfl
  binaryOperator h := lacks_binaryOperator hForeign h
  leaf h := lacks_of_isIdentifier hForeign h.identifier
  applied hHead _ hArgs :=
    lacks_applied hForeign hHead.identifier hArgs
  arrayOf hElement _ :=
    lacks_applied hForeign rfl (forall_mem_singleton.mpr hElement)
  pointerTo := by
    intro target hTarget
    apply lacks_applied hForeign rfl
    refine forall_mem_singleton.mpr ?_
    cases hElement : target.arrayElement? with
    | none => exact hTarget
    | some =>
        intro c hMem
        exact hTarget c ((TypeName.sublist_of_arrayElement? hElement).subset hMem)
  arrayElement hArray hElement c hMem :=
    hArray c ((TypeName.sublist_of_arrayElement? hElement).subset hMem)

end ScriptLowering
