import ScriptLowering.Proofs.SpelledTypes

/-
  Spelled types are read as what they are. The text of a type
  has the outermost form of the type, with the texts of its
  parts, whether host words were replaced in it before or
  not.

  Key theorems include:
    * `SpelledMembers.read_print`
    * `SpelledType.form_print`
-/

namespace ScriptLowering

open Text Spelling TypeForm Shape SpelledType List

variable {c : Char} {text : Text}

-----
-- Reading Arguments And Members
-----

section Reading

variable {render : Text → Text}

/- A type and its blanks are one piece of a list. -/
theorem SpelledType.uncut_between
    (hRender : Renders render) {separators : List Char}
    (hSeparators : separators.all isDelimiter = true) {before after : Text}
    (hBefore : ∀ c ∈ before, isBlank c = true) (spelled : SpelledType)
    (hAfter : ∀ c ∈ after, isBlank c = true) :
    Text.Uncut separators 0 (before ++ (spelled.print render ++ after)) := by
  have hNested : Nested false (before ++ (spelled.print render ++ after)) :=
    (Nested.of_blanks hBefore).append ((spelled.nested_print hRender).append (.of_blanks hAfter))
  exact hNested.uncut hSeparators

theorem SpelledArgs.split_print (hRender : Renders render) (args : SpelledArgs) :
    (splitTopLevel [','] (args.print render)).map trim = args.texts render := by
  have hComma : [','].all isDelimiter = true := rfl
  cases args with
  | last before arg after =>
    have hUncut := arg.uncut_between hRender hComma before.property after.property
    have hTrim := trim_append_blanks before.property (arg.tight_print hRender) after.property
    simp only [SpelledArgs.print, SpelledArgs.texts]
    rw [splitTopLevel_eq_singleton hUncut, map_singleton, hTrim]
  | more before arg after rest =>
    have hUncut := arg.uncut_between hRender hComma before.property after.property
    have hTrim := trim_append_blanks before.property (arg.tight_print hRender) after.property
    simp only [SpelledArgs.print, SpelledArgs.texts]
    rw [splitTopLevel_append hUncut rfl mem_cons_self, map_cons, hTrim, rest.split_print hRender]

/- The pieces of a member list that have nothing in them. -/
theorem readMembers_filler
    {filler : Text} (hFiller : ∀ c ∈ filler, isBlank c = true ∨ c ∈ memberSeparators)
    (rest : Text) :
    readMembers (splitTopLevel memberSeparators (filler ++ rest)) =
      readMembers (splitTopLevel memberSeparators rest) := by
  induction filler with
  | nil => rfl
  | cons c filler ih =>
    rcases forall_mem_cons.mp hFiller with ⟨hFirst, hRest⟩
    rw [← ih hRest]
    rcases hFirst with hBlank | hSeparator
    · have hPasses : c ∉ memberSeparators := by
        intro hMem
        rw [(class_of_mem_memberSeparators hMem).2.2] at hBlank
        cases hBlank
      have hUncut : Text.Uncut memberSeparators 0 [c] :=
        .singleton (isFlat_of_isBlank hBlank) (.inr hPasses)
      have hSplit := hUncut 0 '\x00' (filler ++ rest) (Nat.le_refl 0) (by decide)
      simp only [singleton_append] at hSplit
      simp only [splitTopLevel, cons_append, hSplit, readMembers, trim_cons_blank hBlank]
    · have hNil : Text.Uncut memberSeparators 0 [] := .nil
      have hSplit :=
        splitTopLevel_append hNil (class_of_mem_memberSeparators hSeparator).1
          hSeparator (filler ++ rest)
      simp only [nil_append] at hSplit
      rw [cons_append, hSplit]
      rfl

theorem FieldName.forall_isWordChar (name : FieldName) :
    ∀ c ∈ name.val, isWordChar c = true :=
  all_eq_true.mp (Text.IsWord.of_isIdentifier name.property.1).2

theorem FieldName.tight (name : FieldName) :
    Text.Tight name.val :=
  (Text.IsWord.of_isIdentifier name.property.1).tight

/- The name of a member does not look like a modifier. -/
theorem FieldName.dropStart?_eq_none (name : FieldName) (rest : Text) :
    dropStart? (name.val ++ ':' :: rest) "readonly " = none := by
  cases hDrop :
      dropStart? (name.val ++ ':' :: rest) "readonly " with
  | none => rfl
  | some after =>
    have hText := dropStart?_eq_some hDrop
    -- The first mark would be a colon and a space at once.
    have hName : (name.val ++ ':' :: rest).dropWhile isWordChar = ':' :: rest := by
      rw [dropWhile_append_of_pos name.forall_isWordChar]
      rfl
    have hReadonly : ("readonly ".toList ++ after).dropWhile isWordChar = ' ' :: after := by rfl
    rw [hText, hReadonly] at hName
    exact absurd (List.cons.inj hName).1 (by decide)

/- A member without its modifier. -/
theorem MemberHead.dropReadonly_text (head : MemberHead) (type : Text) :
    dropReadonly (head.text ++ type) = head.name.val ++ ':' :: (head.gap.val ++ type) := by
  have hText :
      head.text ++ type = head.modifier ++ (head.name.val ++ ':' :: (head.gap.val ++ type)) := by
    simp [MemberHead.text]
  rw [hText]
  unfold dropReadonly
  cases hModifier : head.modifier? with
  | none =>
    simp only [MemberHead.modifier, hModifier, nil_append]
    rw [head.name.dropStart?_eq_none]
  | some gap =>
    simp only [MemberHead.modifier, hModifier, append_assoc]
    rw [dropStart?_append]
    exact trimStart_blanks_append gap.property head.name.tight _

theorem MemberHead.readMember_text
    (hRender : Renders render) (head : MemberHead) (type : SpelledType) :
    readMember (dropReadonly (head.text ++ type.print render)) =
      .ok (head.name.val, type.print render) := by
  have hWord := Text.IsWord.of_isIdentifier head.name.property.1
  have hColon : [':'].all isDelimiter = true := rfl
  have hNested : Nested false head.name.val := .of_isWord hWord
  have hUncut : Text.Uncut [':'] 0 head.name.val := hNested.uncut hColon
  have hOther : ∀ c, isWordChar c = false → c ∉ head.name.val := by
    intro c hMark hMem
    rw [head.name.forall_isWordChar c hMem] at hMark
    cases hMark
  have hOptional : head.name.val.getLast? ≠ some '?' := by
    intro hLast
    exact hOther '?' rfl (mem_of_getLast? hLast)
  have hMethod : head.name.val.contains '(' = false := by simpa using hOther '(' rfl
  have hIndex : (head.name.val.head? == some '[') = false := by
    apply beq_eq_false_iff_ne.mpr
    intro hHead
    exact hOther '[' rfl (mem_of_mem_head? hHead)
  have hType : trim (head.gap.val ++ type.print render) = type.print render := by
    have hTrim := trim_append_blanks head.gap.property (type.tight_print hRender) (forall_mem_nil _)
    simpa using hTrim
  rw [head.dropReadonly_text]
  unfold readMember
  rw [cutTopLevel?_append hUncut rfl]
  simp only [trim_eq_self head.name.tight, hOptional, hMethod,
    hIndex, head.name.property.1, hType, if_false, if_true,
    Bool.or_self, Bool.false_eq_true]

theorem MemberHead.tight_text (hRender : Renders render) (head : MemberHead) (type : SpelledType) :
    Text.Tight (head.text ++ type.print render) := by
  rcases head.name.tight.1 with ⟨first, hFirst, hFirstBlank⟩
  rcases (type.tight_print hRender).2 with ⟨last, hLast, hBlank⟩
  constructor
  · cases hModifier : head.modifier? with
    | none =>
      refine ⟨first, ?_, hFirstBlank⟩
      simp [MemberHead.text, MemberHead.modifier, hModifier, List.head?_append, hFirst]
    | some =>
      refine ⟨'r', ?_, rfl⟩
      simp [MemberHead.text, MemberHead.modifier, hModifier]
  · refine ⟨last, ?_, hBlank⟩
    rw [List.getLast?_append, hLast]
    rfl

/- A piece that is a member, with blanks behind it. -/
theorem MemberHead.readMembers_cons
    (hRender : Renders render) (head : MemberHead) (type : SpelledType) (gap : Blanks)
    (pieces : List Text) {fields : List (Text × Text)} (hPieces : readMembers pieces = .ok fields) :
    readMembers ((head.text ++ (type.print render ++ gap.val)) :: pieces) =
      .ok ((head.name.val, type.print render) :: fields) := by
  have hTrim :
      trim (head.text ++ (type.print render ++ gap.val)) = head.text ++ type.print render := by
    have hBlanks :=
      trim_append_blanks (forall_mem_nil _) (head.tight_text hRender type) gap.property
    simpa using hBlanks
  have hNonempty : (head.text ++ type.print render).isEmpty = false := by
    simpa using (head.tight_text hRender type).ne_nil
  simp only [readMembers, hTrim, hNonempty, head.readMember_text hRender type, hPieces,
    Bool.false_eq_true, if_false]

theorem MemberHead.uncut_text
    (hRender : Renders render) (head : MemberHead) (type : SpelledType) (gap : Blanks) :
    Text.Uncut memberSeparators 0 (head.text ++ (type.print render ++ gap.val)) := by
  have hSeparators := all_isDelimiter_memberSeparators
  have hModifier : Nested false head.modifier := head.nested_modifier
  have hName : Nested false head.name.val := .of_isWord (.of_isIdentifier head.name.property.1)
  have hColon : Text.Uncut memberSeparators 0 [':'] := .singleton rfl (.inr (by decide))
  have hGap : Nested false head.gap.val := .of_blanks head.gap.property
  apply Text.Uncut.append
  · exact (hModifier.uncut hSeparators).append
      ((hName.uncut hSeparators).append (hColon.append (hGap.uncut hSeparators)))
  · exact type.uncut_between hRender hSeparators (forall_mem_nil _) gap.property

theorem SpelledMembers.read_print (hRender : Renders render) (members : SpelledMembers) :
    readMembers (splitTopLevel memberSeparators (members.print render)) =
      .ok (members.texts render) := by
  have hDivided :
      ∀ (head : MemberHead) (type : SpelledType) (divider : Divider) (rest : Text),
        head.text ++ (type.print render ++ (divider.text ++ rest)) =
          head.text ++ (type.print render ++ divider.gap.val) ++ divider.separator.val ::
              (divider.filler.val ++ rest) := by
    simp [Divider.text]
  have hFlat : ∀ c ∈ memberSeparators, isFlat c = true := by
    intro c hMem
    exact (class_of_mem_memberSeparators hMem).1
  cases members with
  | last head type gap =>
    simp only [SpelledMembers.print, SpelledMembers.texts]
    rw [splitTopLevel_eq_singleton (head.uncut_text hRender type gap)]
    exact head.readMembers_cons hRender type gap [] rfl
  | closed head type divider =>
    have hText := hDivided head type divider []
    simp only [append_nil] at hText
    have hFiller : readMembers (splitTopLevel memberSeparators divider.filler.val) = .ok [] := by
      have hNone := readMembers_filler divider.filler.property []
      rw [append_nil] at hNone
      rw [hNone]
      rfl
    simp only [SpelledMembers.print, SpelledMembers.texts]
    rw [hText,
      splitTopLevel_append (head.uncut_text hRender type divider.gap)
        (hFlat _ divider.separator.property)
        divider.separator.property]
    exact head.readMembers_cons hRender type divider.gap _ hFiller
  | more head type divider rest =>
    have hRest := rest.read_print hRender
    rw [← readMembers_filler divider.filler.property] at hRest
    simp only [SpelledMembers.print, SpelledMembers.texts]
    rw [hDivided,
      splitTopLevel_append (head.uncut_text hRender type divider.gap)
        (hFlat _ divider.separator.property)
        divider.separator.property]
    exact head.readMembers_cons hRender type divider.gap _ hRest

end Reading

-----
-- Forms
-----

/- The form of a native word on its own. -/
def wordForm (native : Text) : TypeForm :=
  if isBoolean native then
    .bool
  else if isDisallowed native then
    .disallowed native
  else if isHostOnly native then
    .undecided
  else
    .named native

/- The form of a spelled type whose words are rendered. -/
def SpelledType.form (render : Text → Text) : SpelledType → TypeForm
  | .word name => wordForm (nativeWord name.val)
  | .array element gap =>
      .array (element.print nativeWord ++ gap.val)
  | .applied head args =>
      .applied (nativeWord head.val) (args.texts nativeWord)
  | .shape _ members => .shape (members.texts render)

theorem isDigit_eq_false_of_isWordStart (h : isWordStart c = true) :
    c.isDigit = false := by
  by_contra hDigit
  rw [Bool.not_eq_false] at hDigit
  simp only [isWordStart] at h
  delta Char.isAlpha Char.isUpper Char.isLower at h
  simp only [Char.isDigit, Bool.or_eq_true, Bool.and_eq_true,
    decide_eq_true_eq, beq_iff_eq, ge_iff_le,
    UInt32.le_iff_toNat_le] at h hDigit
  have hNine : '9'.val.toNat = 57 := rfl
  rcases h with ((hUpper | hLower) | rfl) | rfl
  · have hLow : 'A'.val.toNat = 65 := rfl
    omega
  · have hLow : 'a'.val.toNat = 97 := rfl
    omega
  · exact absurd hDigit (by decide)
  · exact absurd hDigit (by decide)

/- What starts like a type is no literal. -/
theorem not_literal_of_first
    (hFirst : isWordStart c = true ∨ c = '{')
    (rest : Text) :
    isQuoted (c :: rest) = false ∧ isNumeral (c :: rest) = false ∧ c ≠ '(' := by
  have hOther : ∀ mark, (isWordChar mark || mark == '{') = false → c ≠ mark := by
    intro mark hMark
    rw [Bool.or_eq_false_iff, beq_eq_false_iff_ne] at hMark
    rcases hFirst with hStart | rfl
    · exact ne_of_class (isWordChar_of_isWordStart hStart) hMark.1
    · exact hMark.2.symm
  have hDigit : c.isDigit = false := by
    rcases hFirst with hStart | rfl
    · exact isDigit_eq_false_of_isWordStart hStart
    · rfl
  refine ⟨?_, ?_, hOther '(' rfl⟩
  · simp [Spelling.isQuoted, hOther '"' rfl, hOther '\'' rfl, hOther '`' rfl]
  · unfold isNumeral
    dsimp only
    split
    · next hText =>
      exact absurd (List.cons.inj hText).1 (hOther '-' rfl)
    · simp [hDigit]

/- A spelling that is neither literal nor shape is read in native words. -/
theorem ofTrimmed_eq_ofNative
    (hHead : text.head? = some c)
    (hFirst : isWordStart c = true ∨ c = '{')
    (hLast : text.getLast? ≠ some '}') :
    ofTrimmed text = ofNative (nativeForm text) := by
  have hBraced : isBraced text = false := by simp [isBraced, hLast]
  cases text with
  | nil => cases hHead
  | cons _ rest =>
    cases hHead
    rcases not_literal_of_first hFirst rest with ⟨hQuoted, hNumeral, _⟩
    simp [ofTrimmed, hQuoted, hBraced, hNumeral]

/- The words with a meaning of their own have no marks. -/
theorem not_reserved_of_mark
    (hMem : c ∈ text)
    (hMark : isWordChar c = false) :
    isBoolean text = false ∧ isDisallowed text = false ∧ isHostOnly text = false := by
  have hOther : ∀ word : Text, word.all isWordChar = true → (text == word) = false := by
    intro word hWord
    apply beq_eq_false_iff_ne.mpr
    intro hSame
    rw [hSame] at hMem
    have hChar := all_eq_true.mp hWord c hMem
    rw [hMark] at hChar
    cases hChar
  simp (disch := decide) only [isBoolean, isDisallowed, isHostOnly, hOther, Bool.or_false, and_self]

theorem containsText_arrow_eq_false
    (h : ∀ c ∈ text, c ≠ '=') :
    containsText "=>" text = false := by
  induction text with
  | nil => rfl
  | cons c rest ih =>
    rcases forall_mem_cons.mp h with ⟨hFirst, hRest⟩
    have hHere : List.isPrefixOf ['=', '>'] (c :: rest) = false := by
      simp [List.isPrefixOf, hFirst.symm]
    rw [containsText, ih hRest, Bool.or_false]
    exact hHere

/- Of a nested text only a reserved word is undecidable. -/
theorem isUndecidable_of_nested
    (hNested : Nested false text)
    (hHead : text.head? = some c)
    (hFirst : isWordStart c = true ∨ c = '{') :
    isUndecidable text = isHostOnly text := by
  have hUnion : containsTopLevel '|' text = false := containsTopLevel_eq_false (hNested.uncut rfl)
  have hBoth : containsTopLevel '&' text = false := containsTopLevel_eq_false (hNested.uncut rfl)
  have hArrow : containsText "=>" text = false :=
    containsText_arrow_eq_false (hNested.forall_ne (by decide))
  have hParen : (text.head? == some '(') = false := by
    rw [hHead]
    simpa using (not_literal_of_first hFirst []).2.2
  unfold isUndecidable
  rw [hUnion, hBoth, hArrow, hParen]
  simp only [Bool.or_false]

section Forms

variable {render : Text → Text}

/- A type other than a shape is read in native words. -/
theorem SpelledType.ofTrimmed_print
    (hRender : Renders render)
    (spelled : SpelledType)
    (hShape : ∀ filler members, spelled ≠ .shape filler members) :
    ofTrimmed (spelled.print render) = ofNative (spelled.print nativeWord) ∧
      isUndecidable (spelled.print nativeWord) = isHostOnly (spelled.print nativeWord) := by
  rcases spelled.head?_print hRender with ⟨_, hHead, hFirst⟩
  rcases spelled.getLast?_print hRender with ⟨_, hEnd, hLast⟩
  have hUnbraced : (spelled.print render).getLast? ≠ some '}' := by
    rw [hEnd, ne_eq, Option.some.injEq]
    rcases hLast with hWord | rfl | rfl | ⟨_, filler, members, hSame⟩
    · exact ne_of_class hWord rfl
    · decide
    · decide
    · exact absurd hSame (hShape filler members)
  rcases spelled.head?_print renders_nativeWord with ⟨_, hNativeHead, hNativeFirst⟩
  constructor
  · rw [ofTrimmed_eq_ofNative hHead hFirst hUnbraced, spelled.nativeForm_print hRender]
  · exact isUndecidable_of_nested (spelled.nested_print renders_nativeWord) hNativeHead hNativeFirst

theorem SpelledMembers.texts_ne_nil
    (members : SpelledMembers) :
    members.texts render ≠ [] := by
  cases members with
  | last | closed | more => simp [SpelledMembers.texts]

/- A shape is read as the names and types of its members. -/
theorem SpelledMembers.read_shape
    (hRender : Renders render)
    (filler : Filler)
    (members : SpelledMembers) :
    Shape.read ((SpelledType.shape filler members).print render) = .ok (members.texts render) := by
  have hInner :
      inner? ((SpelledType.shape filler members).print render) =
        some (filler.val ++ members.print render) := by
    simp [SpelledType.print, inner?]
  have hMembers :
      readMembers (splitTopLevel [';', ','] (filler.val ++ members.print render)) =
        .ok (members.texts render) := by
    have hFiller := readMembers_filler filler.property (members.print render)
    rw [members.read_print hRender] at hFiller
    exact hFiller
  have hTight := (SpelledType.shape filler members).tight_print hRender
  unfold Shape.read
  rw [trim_eq_self hTight, hInner]
  simp only [hMembers]
  cases hTexts : members.texts render with
  | nil => exact absurd hTexts members.texts_ne_nil
  | cons => rfl

theorem SpelledType.form_word
    (hRender : Renders render)
    (name : Identifier) :
    ofTrimmed ((word name).print render) = wordForm (nativeWord name.val) := by
  have hWord := Text.IsWord.of_isIdentifier (renders_nativeWord.identifier name.val name.property)
  have hChars := all_eq_true.mp hWord.2
  have hArray : dropEnd? (nativeWord name.val) "[]" = none := by
    apply dropEnd?_eq_none (List.getLast?_eq_some_getLast hWord.1) rfl
    exact ne_of_class (hChars _ (getLast_mem hWord.1)) rfl
  have hApplied : Application.ofText? (nativeWord name.val) = none := by
    apply Application.ofText?_eq_none
    intro c hMem
    exact ne_of_class (hChars c hMem) rfl
  rcases ofTrimmed_print hRender (.word name) (by simp) with ⟨hTrimmed, hUndecidable⟩
  rw [hTrimmed]
  simp only [print] at hUndecidable ⊢
  unfold ofNative wordForm
  rw [hUndecidable, hArray, hApplied]

theorem SpelledType.form_array
    (hRender : Renders render)
    (element : SpelledType)
    (gap : Blanks) :
    ofTrimmed ((array element gap).print render) =
      .array (element.print nativeWord ++ gap.val) := by
  have hText :
      (array element gap).print nativeWord = element.print nativeWord ++ gap.val ++ ['[', ']'] := by
    simp [print]
  have hBracket : '[' ∈ (array element gap).print nativeWord := by simp [hText]
  have hElement :
      dropEnd? ((SpelledType.array element gap).print nativeWord) "[]" =
        some (element.print nativeWord ++ gap.val) := by
    rw [hText]
    exact dropEnd?_append _ _
  rcases not_reserved_of_mark hBracket rfl with ⟨hBoolean, hDisallowed, hHostOnly⟩
  rcases ofTrimmed_print hRender (.array element gap) (by simp) with ⟨hTrimmed, hUndecidable⟩
  rw [hTrimmed]
  unfold ofNative
  rw [hBoolean, hDisallowed, hUndecidable, hHostOnly, hElement]
  rfl

theorem SpelledType.form_applied
    (hRender : Renders render)
    (head : Identifier)
    (args : SpelledArgs) :
    ofTrimmed ((applied head args).print render) =
      .applied (nativeWord head.val) (args.texts nativeWord) := by
  have hBracket : '<' ∈ (applied head args).print nativeWord := by simp [print]
  have hArray :
      dropEnd? ((SpelledType.applied head args).print nativeWord) "[]" =
        none := by
    have hLast : ((applied head args).print nativeWord).getLast? = some '>' := by
      simp [print, List.getLast?_cons]
    exact dropEnd?_eq_none hLast rfl (by decide)
  have hApplied :
      Application.ofText? ((applied head args).print nativeWord) =
        some ⟨nativeWord head.val, args.texts nativeWord⟩ := by
    rw [← args.split_print renders_nativeWord]
    exact Application.ofText?_applied (renders_nativeWord.identifier head.val head.property)
      (args.nested_print renders_nativeWord).balanced
  rcases not_reserved_of_mark hBracket rfl with ⟨hBoolean, hDisallowed, hHostOnly⟩
  rcases ofTrimmed_print hRender (.applied head args) (by simp) with ⟨hTrimmed, hUndecidable⟩
  rw [hTrimmed]
  unfold ofNative
  rw [hBoolean, hDisallowed, hUndecidable, hHostOnly, hArray, hApplied]
  rfl

theorem SpelledType.form_shape
    (hRender : Renders render)
    (filler : Filler)
    (members : SpelledMembers) :
    ofTrimmed ((shape filler members).print render) = .shape (members.texts render) := by
  have hBraced :
      isBraced ((shape filler members).print render) =
        true := by
    simp [print, isBraced, List.getLast?_cons]
  have hQuoted :
      isQuoted ((shape filler members).print render) =
        false :=
    (not_literal_of_first (.inr rfl) _).1
  have hNonempty :
      ((shape filler members).print render).isEmpty =
        false :=
    rfl
  unfold ofTrimmed
  rw [hNonempty, hQuoted, hBraced, members.read_shape hRender filler]
  rfl

/- A spelled type is read as its outermost form. -/
theorem SpelledType.form_print
    (hRender : Renders render)
    {before after : Text}
    (hBefore : ∀ c ∈ before, isBlank c = true)
    (spelled : SpelledType)
    (hAfter : ∀ c ∈ after, isBlank c = true) :
    ofText (before ++ (spelled.print render ++ after)) = spelled.form render := by
  unfold ofText
  rw [trim_append_blanks hBefore (spelled.tight_print hRender) hAfter]
  cases spelled with
  | word name => exact form_word hRender name
  | array element gap => exact form_array hRender element gap
  | applied head args => exact form_applied hRender head args
  | shape filler members => exact form_shape hRender filler members

end Forms

end ScriptLowering
