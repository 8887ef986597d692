import ScriptLowering.Proofs.Canonicalization
import ScriptLowering.Proofs.NativeSpellings

/-
  Shapes in the spellings of arrays and pointers. A shape on
  its own is read as it is spelled. In an array or behind a
  pointer it is read in native words, because all host words
  of the whole spelling are replaced first. The two come to
  the same unless a field name is among the host words, and
  unless the shape cannot be seen in its wrapping.

  Key theorems include:
    * `outcome_bracketed`
    * `Wrapping.outcome_spelling`
-/

namespace ScriptLowering

open Text Spelling TypeTable List
open TypeTerm hiding array

-----
-- Outcomes
-----

theorem outcome_arrayType (raw : Text) (element : TypeName) (table : TypeTable) :
    outcome (arrayType raw element) table =
      if element.isArray then
        none
      else
        some (TypeName.arrayOf element, table) := by
  unfold arrayType
  split <;> rfl

theorem outcome_namedType (raw name : Text) (table : TypeTable) :
    outcome (namedType raw name) table =
      ((table.alias? name).or
        (if name.isIdentifier then some ⟨name⟩ else none)).map fun type => (type, table) := by
  have hGet : (get : TypeM TypeTable) table = .ok table table := rfl
  unfold outcome namedType
  simp only [Bind.bind, EStateM.bind, hGet]
  cases table.alias? name with
  | some => rfl
  | none =>
    by_cases hName : name.isIdentifier = true
    · simp only [if_pos hName]
      rfl
    · simp only [if_neg hName]
      rfl

/- What a spelling is told by its form, errors aside. -/
theorem outcome_term_eval (raw other : Text) (form : TypeForm) (table : TypeTable) :
    outcome (form.term raw).eval table = outcome (form.term other).eval table := by
  cases form with
  | array => simp only [TypeForm.term, eval, outcome_bind, outcome_arrayType]
  | applied head args =>
    simp only [TypeForm.term]
    unfold eval
    by_cases hArray : head = array
    · rw [if_pos hArray, if_pos hArray]
      rcases args with _ | ⟨arg, _ | ⟨next, rest⟩⟩
      · rfl
      · simp only [map_cons, map_nil, outcome_bind, outcome_arrayType]
      · rfl
    · rw [if_neg hArray, if_neg hArray]
      by_cases hPointer : head = pointer
      · rw [if_pos hPointer, if_pos hPointer]
        rcases args with _ | ⟨_, _ | ⟨_, _⟩⟩
        · rfl
        · rfl
        · rfl
      · rw [if_neg hPointer, if_neg hPointer]
  | named => simp only [TypeForm.term, eval, outcome_namedType]
  | undecided | disallowed | malformed | string | bool | numeral | shape => rfl

/- Spellings of one form are decided alike. -/
theorem outcome_canonicalize_congr
    {text other : Text} (h : TypeForm.ofText text = TypeForm.ofText other) (table : TypeTable) :
    outcome (canonicalize text) table = outcome (canonicalize other) table := by
  unfold canonicalize
  rw [ofText_eq_term, ofText_eq_term, h]
  exact outcome_term_eval text other _ table

theorem outcome_evalMembers_cons
    (name : Text) (term : TypeTerm) (rest : List (Text × TypeTerm)) (table : TypeTable) :
    outcome (evalMembers ((name, term) :: rest)) table =
      (outcome term.eval table).bind fun first =>
        (outcome (evalMembers rest) first.2).map
          fun later => ((name, first.1) :: later.1, later.2) := by
  rw [evalMembers, outcome_bind]
  congr 1
  funext first
  rw [outcome_bind]
  cases outcome (evalMembers rest) first.2 <;> rfl

theorem outcome_shape (members : List (Text × TypeTerm)) (table : TypeTable) :
    outcome (shape members).eval table =
      (outcome (evalMembers members) table).bind
        fun fields =>
          outcome (intern fields.1) fields.2 := by
  rw [eval, outcome_bind]

-----
-- Exposed Names
-----

mutual

/-
  The field names of a shape and of the shapes that are types
  of its fields. Inside of arrays and applications the native
  words are read in any case.
-/
def TypeTerm.exposedNames : TypeTerm → List Text
  | .shape members => exposedMemberNames members
  | _ => []

def exposedMemberNames : List (Text × TypeTerm) → List Text
  | [] => []
  | (name, term) :: rest =>
      name :: (term.exposedNames ++ exposedMemberNames rest)

end

/- No exposed name is a word that is replaced. -/
def TypeTerm.KeepsNames (term : TypeTerm) : Prop :=
  ∀ name ∈ term.exposedNames, hostWord name = none

theorem keepsNames_shape_cons {name : Text} {term : TypeTerm} {rest : List (Text × TypeTerm)} :
    (shape ((name, term) :: rest)).KeepsNames ↔
      hostWord name = none ∧ term.KeepsNames ∧ (shape rest).KeepsNames := by
  simp only [TypeTerm.KeepsNames, exposedNames,
    exposedMemberNames, forall_mem_cons, forall_mem_append]

/- The members of a shape in native words are decided alike. -/
theorem outcome_evalMembers_native
    {fields : List (Text × Text)}
    (hFields :
      ∀ field ∈ fields, (ofText field.2).KeepsNames →
        ∀ {table result},
          outcome (canonicalize field.2) table = some result →
            outcome (canonicalize (nativeForm field.2)) table = some result)
    (hNames : (TypeTerm.shape (fields.map fun field => (field.1, ofText field.2))).KeepsNames)
    {table : TypeTable} {result : List (Text × TypeName) × TypeTable}
    (h :
      outcome (evalMembers (fields.map fun field => (field.1, ofText field.2))) table =
        some result) :
    outcome
        (evalMembers ((fields.map nativeField).map fun field => (field.1, ofText field.2))) table =
      some result := by
  induction fields generalizing table result with
  | nil => exact h
  | cons _ _ ih =>
    rcases forall_mem_cons.mp hFields with ⟨hField, hRest⟩
    rcases keepsNames_shape_cons.mp hNames with ⟨hName, hTerm, hLater⟩
    rw [map_cons, outcome_evalMembers_cons] at h
    rcases Option.bind_eq_some_iff.mp h with ⟨_, hFirst, hMembers⟩
    rcases Option.map_eq_some_iff.mp hMembers with ⟨_, hLaterRun, rfl⟩
    rw [map_cons, map_cons, outcome_evalMembers_cons]
    have hFirstNative := hField hTerm hFirst
    unfold canonicalize at hFirstNative
    simp only [nativeField, nativeWord_eq_self_iff.mpr hName, hFirstNative, Option.bind_some]
    rw [ih hRest hLater hLaterRun]
    rfl

/-
  If no exposed name is replaced, a spelling in native words
  is decided as the spelling is. By induction on the spelling:
  the parts of a form have fewer marks.
-/
theorem outcome_canonicalize_nativeForm
    (text : Text) (hNames : (ofText text).KeepsNames) {table : TypeTable}
    {result : TypeName × TypeTable} (h : outcome (canonicalize text) table = some result) :
    outcome (canonicalize (nativeForm text)) table = some result := by
  induction hCount : text.markCount using Nat.strong_induction_on
    generalizing text table result with
  | _ count ih =>
    by_cases hBraced : Shape.isBraced (trim text) = true
    · unfold canonicalize at h ⊢
      rw [ofText_eq_term] at h hNames ⊢
      rcases TypeForm.shape_or_malformed hBraced with ⟨fields, hForm⟩ | ⟨_, hForm⟩
      · have hFields : ∀ field ∈ fields, field.2.markCount < count := by
          intro field hField
          rw [← hCount]
          apply TypeForm.markCount_lt_of_mem_parts
          rw [hForm]
          exact mem_map_of_mem hField
        rw [hForm] at h hNames
        rw [TypeForm.ofText_nativeForm_of_shape hForm]
        simp only [TypeForm.term, outcome_shape] at h ⊢
        rcases Option.bind_eq_some_iff.mp h with ⟨_, hDecided, hIntern⟩
        rw [outcome_evalMembers_native _ hNames hDecided]
        · exact hIntern
        · intro field hField hKeeps table result hRun
          exact ih _ (hFields field hField) field.2 hKeeps hRun rfl
      · rw [hForm] at h
        cases h
    · rw [outcome_canonicalize_congr (TypeForm.ofText_nativeForm ((Bool.not_eq_true _).mp hBraced))]
      exact h

-----
-- Wrapped Spellings
-----

/- The spellings that put a type into an array or behind a pointer. -/
inductive Wrapping where
  | suffix
  | array
  | pointer
  | ptr
deriving DecidableEq, Repr

namespace Wrapping

/- The word in front of the angle brackets, where there are any. -/
def word? : Wrapping → Option Text
  | .suffix => none
  | .array => some "Array"
  | .pointer => some "Pointer"
  | .ptr => some "ptr"

def spelling (wrapping : Wrapping) (shape : Text) : Text :=
  match wrapping.word? with
  | none => shape ++ "[]"
  | some word => word ++ '<' :: (shape ++ ['>'])

/- The native word for arrays, or that for pointers. -/
def head : Wrapping → Text
  | .suffix => Spelling.array
  | .array => Spelling.array
  | .pointer => Spelling.pointer
  | .ptr => Spelling.pointer

def type (wrapping : Wrapping) (struct : TypeName) : TypeName :=
  TypeName.applied wrapping.head [struct]

/-
  Whether a shape can be seen in its wrapping. There must be
  no union, intersection or arrow, and in angle brackets the
  shape must be one argument.
-/
def fits (wrapping : Wrapping) (shape : Text) : Bool :=
  !isUndecidable (trim (wrapping.spelling shape)) &&
    (wrapping == .suffix || Application.isBalanced 0 shape && !containsTopLevel ',' shape)

end Wrapping

theorem isUndecidable_nativeForm
    {text : Text} {c : Char} (hMem : c ∈ text) (hMark : isWordChar c = false) :
    isUndecidable (nativeForm text) = isUndecidable text := by
  have hParen : ((nativeForm text).head? == some '(') = (text.head? == some '(') := by
    rw [Bool.eq_iff_iff, beq_iff_eq, beq_iff_eq]
    exact head?_nativeForm_eq_some_iff rfl text
  have hNative := (mem_nativeForm_iff hMark text).mpr hMem
  unfold isUndecidable
  rw [(not_reserved_of_mark hMem hMark).2.2, (not_reserved_of_mark hNative hMark).2.2,
    containsTopLevel_nativeForm rfl,
    containsTopLevel_nativeForm rfl,
    containsText_arrow_nativeForm, hParen]

section Forms

variable {native : Text}

/- The form of a native spelling that is no single word. -/
theorem TypeForm.ofNative_of_mark
    {c : Char} (hMem : c ∈ native) (hMark : isWordChar c = false)
    (hDecidable : isUndecidable native = false) :
    (∀ element, native.dropEnd? "[]" = some element → ofNative native = .array element) ∧
      (native.dropEnd? "[]" = none →
        (∀ application,
          Application.ofText? native = some application →
            ofNative native = .applied application.head application.args) ∧
          (Application.ofText? native = none → ofNative native = .named native)) := by
  rcases not_reserved_of_mark hMem hMark with ⟨hBoolean, hDisallowed, _⟩
  unfold ofNative
  rw [hBoolean, hDisallowed, hDecidable]
  refine ⟨?_, ?_⟩
  · intro element hElement
    rw [hElement]
    rfl
  · intro hNone
    rw [hNone]
    refine ⟨?_, ?_⟩
    · intro application hApplication
      rw [hApplication]
      rfl
    · intro hOther
      rw [hOther]
      rfl

theorem TypeForm.ofNative_of_isUndecidable
    {c : Char} (hMem : c ∈ native) (hMark : isWordChar c = false)
    (h : isUndecidable native = true) :
    ofNative native = .undecided := by
  rcases not_reserved_of_mark hMem hMark with ⟨hBoolean, hDisallowed, _⟩
  unfold ofNative
  rw [hBoolean, hDisallowed, h]
  rfl

end Forms

-----
-- Deciding Wrapped Spellings
-----

/- An array or a pointer of a type; arrays are not nested. -/
def wrap? (head : Text) (type : TypeName) : Option TypeName :=
  if head = array then
    if type.isArray then none else some (TypeName.arrayOf type)
  else
    some (TypeName.pointerTo type)

/- What is decided, put into an array or behind a pointer. -/
def wrapResult (head : Text) (result : TypeName × TypeTable) :
    Option (TypeName × TypeTable) :=
  (wrap? head result.1).map fun type => (type, result.2)

theorem wrapResult_array (result : TypeName × TypeTable) :
    wrapResult array result =
      if result.1.isArray then
        none
      else
        some (TypeName.arrayOf result.1, result.2) := by
  unfold wrapResult wrap?
  rw [if_pos rfl]
  split <;> rfl

section Deciding

variable {raw : Text} {table : TypeTable}

theorem outcome_canonicalize_of_array
    {element : Text} (hForm : TypeForm.ofText raw = .array element) :
    outcome (canonicalize raw) table =
      (outcome (canonicalize element) table).bind (wrapResult array) := by
  unfold canonicalize
  rw [ofText_eq_term, hForm]
  simp only [TypeForm.term, eval, outcome_bind, outcome_arrayType]
  congr 1
  funext result
  exact (wrapResult_array result).symm

theorem outcome_canonicalize_of_applied
    {head arg : Text} (hHead : head = array ∨ head = pointer)
    (hForm : TypeForm.ofText raw = .applied head [arg]) :
    outcome (canonicalize raw) table =
      (outcome (canonicalize arg) table).bind (wrapResult head) := by
  unfold canonicalize
  rw [ofText_eq_term, hForm]
  simp only [TypeForm.term, map_cons, map_nil]
  rcases hHead with rfl | rfl
  · simp only [eval, if_true, outcome_bind, outcome_arrayType]
    congr 1
    funext result
    exact (wrapResult_array result).symm
  · have hOther : pointer ≠ array := by decide
    simp only [eval, if_neg hOther, if_true, outcome_bind]
    rfl

/- Arrays and pointers are of exactly one type. -/
theorem outcome_canonicalize_of_length_ne
    {head : Text} {args : List Text} (hHead : head = array ∨ head = pointer)
    (hForm : TypeForm.ofText raw = .applied head args) (hArgs : args.length ≠ 1) :
    outcome (canonicalize raw) table = none := by
  unfold canonicalize
  rw [ofText_eq_term, hForm]
  rcases args with _ | ⟨_, _ | ⟨_, _⟩⟩
  · rcases hHead with rfl | rfl <;> rfl
  · exact absurd rfl hArgs
  · rcases hHead with rfl | rfl <;> rfl

theorem outcome_canonicalize_of_undecided (hForm : TypeForm.ofText raw = .undecided) :
    outcome (canonicalize raw) table = none := by
  unfold canonicalize
  rw [ofText_eq_term, hForm]
  rfl

/- A spelling with a mark is undecided, or decided by its native form. -/
theorem outcome_canonicalize_of_mark
    {text : Text} {c : Char} {found : Option (TypeName × TypeTable)}
    (hForm : TypeForm.ofText raw = TypeForm.ofNative (nativeForm text)) (hMem : c ∈ text)
    (hMark : isWordChar c = false)
    (hFound : isUndecidable (nativeForm text) = false → outcome (canonicalize raw) table = found) :
    outcome (canonicalize raw) table = if isUndecidable text then none else found := by
  have hNative := (mem_nativeForm_iff hMark text).mpr hMem
  rw [← isUndecidable_nativeForm hMem hMark]
  cases hUndecidable : isUndecidable (nativeForm text) with
  | true =>
    apply outcome_canonicalize_of_undecided
    rw [hForm]
    exact TypeForm.ofNative_of_isUndecidable hNative hMark hUndecidable
  | false => exact hFound hUndecidable

/- Without aliases only identifiers are names. -/
theorem outcome_canonicalize_of_named
    (hAliases : table.aliases = []) {name : Text} (hForm : TypeForm.ofText raw = .named name) :
    outcome (canonicalize raw) table =
      if name.isIdentifier then some (⟨name⟩, table) else none := by
  have hAlias : table.alias? name = none := by
    unfold alias?
    rw [hAliases]
    rfl
  unfold canonicalize
  rw [ofText_eq_term, hForm]
  simp only [TypeForm.term, eval, outcome_namedType, hAlias, Option.none_or]
  split <;> rfl

end Deciding

section Shapes

variable {shape : Text} {fields : List (Text × Text)}
variable {table : TypeTable}

theorem head?_trimStart_of_shape (hShape : TypeForm.ofText shape = .shape fields) :
    (trimStart shape).head? = some '{' := by
  rcases TypeForm.exists_of_shape hShape with ⟨inner, hTrim, _⟩
  rcases exists_trimEnd_append (trimStart shape) with ⟨_, _, hText⟩
  have hTrimEnd : trimEnd (trimStart shape) = '{' :: (inner ++ ['}']) := hTrim
  rw [hText, hTrimEnd]
  rfl

/- What is behind a shape is trimmed on its own. -/
theorem trim_shape_append
    (hShape : TypeForm.ofText shape = .shape fields) {rest : Text} {c : Char}
    (hLast : rest.getLast? = some c) (hFinal : isBlank c = false) :
    trim (shape ++ rest) = trimStart shape ++ rest := by
  have hSome : trimStart shape ≠ [] := by
    intro hNil
    have hHead := head?_trimStart_of_shape hShape
    rw [hNil] at hHead
    cases hHead
  have hStart : trimStart (shape ++ rest) = trimStart shape ++ rest := by
    unfold trimStart at hSome ⊢
    rw [dropWhile_append, if_neg]
    simpa using hSome
  have hEnd : trimEnd (trimStart shape ++ rest ++ []) = trimStart shape ++ rest := by
    apply trimEnd_append_of_getLast? _ (forall_mem_nil _)
    intro d hEnd
    rw [getLast?_append, hLast] at hEnd
    cases hEnd
    exact hFinal
  rw [append_nil] at hEnd
  rw [trim, hStart, hEnd]

theorem outcome_suffix (hShape : TypeForm.ofText shape = .shape fields) :
    outcome (canonicalize (shape ++ "[]")) table =
      if isUndecidable (trim (shape ++ "[]")) then
        none
      else
        (outcome (canonicalize (nativeForm shape)) table).bind (wrapResult array) := by
  have hTrim : trim (shape ++ "[]") = trimStart shape ++ ['[', ']'] :=
    trim_shape_append hShape (c := ']') rfl rfl
  have hBracket : '[' ∈ trim (shape ++ "[]") := by
    rw [hTrim]
    simp
  have hNative : nativeForm (trim (shape ++ "[]")) = nativeForm (trimStart shape) ++ "[]" := by
    rw [hTrim, nativeForm_append_mark rfl, nativeForm_cons_mark rfl]
    rfl
  have hForm :
      TypeForm.ofText (shape ++ "[]") = TypeForm.ofNative (nativeForm (trim (shape ++ "[]"))) := by
    have hHead : (trim (shape ++ "[]")).head? = some '{' := by
      rw [hTrim, head?_append, head?_trimStart_of_shape hShape]
      rfl
    apply ofTrimmed_eq_ofNative hHead (.inr rfl)
    rw [hTrim, getLast?_append]
    simp
  have hMark := (mem_nativeForm_iff (c := '[') rfl _).mpr hBracket
  refine outcome_canonicalize_of_mark hForm hBracket rfl fun hDecidable => ?_
  have hArray : TypeForm.ofText (shape ++ "[]") = .array (nativeForm (trimStart shape)) := by
    rw [hForm]
    apply (TypeForm.ofNative_of_mark hMark rfl hDecidable).1
    rw [hNative]
    exact dropEnd?_append _ _
  rw [outcome_canonicalize_of_array hArray]
  congr 1
  apply outcome_canonicalize_congr
  unfold TypeForm.ofText
  rw [trim_nativeForm, trim_trimStart, trim_nativeForm]

theorem length_splitTopLevel_eq_one_iff {c : Char} {text : Text} :
    (splitTopLevel [c] text).length = 1 ↔ containsTopLevel c text = false := by
  unfold containsTopLevel
  have hSome : 0 < (splitTopLevel [c] text).length := Nat.succ_pos _
  rw [decide_eq_false_iff_not]
  omega

theorem splitTopLevel_of_not_containsTopLevel
    {c : Char} {text : Text} (h : containsTopLevel c text = false) :
    splitTopLevel [c] text = [text] := by
  have hLength := length_splitTopLevel_eq_one_iff.mpr h
  have hText := text_cutFrom [c] 0 '\x00' text
  rw [splitTopLevel_eq_pieces] at hLength ⊢
  generalize cutFrom [c] 0 '\x00' text = cuts at hLength hText ⊢
  rcases cuts with ⟨_, _ | ⟨_, _⟩⟩
  · simpa [Cuts.pieces, Cuts.text] using hText
  · simp [Cuts.pieces] at hLength

theorem getLast?_bracketed (word shape : Text) :
    (word ++ '<' :: (shape ++ ['>'])).getLast? = some '>' := by
  simp [getLast?_append, getLast?_cons]

theorem trim_bracketed {word : Text} (hWord : word.isIdentifier = true) (shape : Text) :
    trim (word ++ '<' :: (shape ++ ['>'])) = word ++ '<' :: (shape ++ ['>']) := by
  have hIsWord := Text.IsWord.of_isIdentifier hWord
  apply trim_eq_self
  rcases hIsWord.tight.1 with ⟨c, hFirst, hBlank⟩
  refine ⟨⟨c, ?_, hBlank⟩, '>', getLast?_bracketed word shape, rfl⟩
  rw [head?_append_of_ne_nil _ hIsWord.1, hFirst]

theorem outcome_bracketed
    (hAliases : table.aliases = []) {word : Text} (hWord : word.isIdentifier = true)
    (hHead : nativeWord word = array ∨ nativeWord word = pointer) (shape : Text) :
    outcome (canonicalize (word ++ '<' :: (shape ++ ['>']))) table =
      if isUndecidable (word ++ '<' :: (shape ++ ['>'])) then
        none
      else if Application.isBalanced 0 shape &&
          !containsTopLevel ',' shape then
        (outcome (canonicalize (nativeForm shape)) table).bind (wrapResult (nativeWord word))
      else
        none := by
  have hNativeWord := renders_nativeWord.identifier _ hWord
  have hLast := getLast?_bracketed word shape
  have hNative :
      nativeForm (word ++ '<' :: (shape ++ ['>'])) =
        nativeWord word ++ '<' :: (nativeForm shape ++ ['>']) := by
    rw [nativeForm_append_mark rfl, nativeForm_append_mark rfl, nativeForm_word hWord]
    rfl
  have hBracket : '<' ∈ word ++ '<' :: (shape ++ ['>']) := by simp
  have hMark := (mem_nativeForm_iff (c := '<') rfl _).mpr hBracket
  have hForm :
      TypeForm.ofText (word ++ '<' :: (shape ++ ['>'])) =
        TypeForm.ofNative (nativeForm (word ++ '<' :: (shape ++ ['>']))) := by
    unfold TypeForm.ofText
    rw [trim_bracketed hWord]
    cases word with
    | nil => cases hWord
    | cons =>
      rw [isIdentifier, Bool.and_eq_true] at hWord
      apply ofTrimmed_eq_ofNative rfl (.inl hWord.1)
      rw [hLast]
      decide
  refine outcome_canonicalize_of_mark hForm hBracket rfl fun hDecidable => ?_
  have hNoArray :
      dropEnd? (nativeForm (word ++ '<' :: (shape ++ ['>']))) "[]" =
        none := by
    apply dropEnd?_eq_none (c := '>') (d := ']') _ rfl (by decide)
    rw [getLast?_nativeForm_eq_some_iff rfl, hLast]
  have hApplication := Application.ofText?_bracketed hNativeWord (nativeForm shape)
  rw [← hNative, isBalanced_nativeForm,
    splitTopLevel_nativeForm (forall_mem_singleton.mpr rfl)] at hApplication
  rcases (TypeForm.ofNative_of_mark hMark rfl hDecidable).2 hNoArray with ⟨hApplied, hNamed⟩
  rw [← hForm] at hApplied hNamed
  by_cases hBalanced : Application.isBalanced 0 shape = true
  · rw [if_pos hBalanced] at hApplication
    have hArgs := hApplied _ hApplication
    by_cases hComma : containsTopLevel ',' shape = true
    · simp only [hBalanced, hComma, Bool.not_true, Bool.and_false, Bool.false_eq_true, if_false]
      apply outcome_canonicalize_of_length_ne hHead hArgs
      simp only [length_map]
      rw [ne_eq, length_splitTopLevel_eq_one_iff, hComma]
      decide
    · have hWhole := (Bool.not_eq_true _).mp hComma
      simp only [hBalanced, hWhole, Bool.not_false, Bool.and_true, if_true]
      rw [splitTopLevel_of_not_containsTopLevel hWhole] at hArgs
      rw [outcome_canonicalize_of_applied hHead hArgs]
      congr 1
      apply outcome_canonicalize_congr
      unfold TypeForm.ofText
      rw [trim_trim]
  · rw [if_neg hBalanced] at hApplication
    simp only [(Bool.not_eq_true _).mp hBalanced, Bool.false_and, Bool.false_eq_true, if_false]
    rw [outcome_canonicalize_of_named hAliases (hNamed hApplication), if_neg]
    intro hIdentifier
    have hOther : '<' ≠ '<' := (Text.IsWord.of_isIdentifier hIdentifier).ne_of_mem hMark rfl
    exact hOther rfl

namespace Wrapping

theorem of_word? {wrapping : Wrapping} {word : Text} (h : wrapping.word? = some word) :
    wrapping ≠ .suffix ∧ word.isIdentifier = true ∧ nativeWord word = wrapping.head := by
  cases wrapping with
  | suffix => cases h
  | array | pointer | ptr =>
    cases h
    exact ⟨by decide, rfl, rfl⟩

theorem head_cases (wrapping : Wrapping) :
    wrapping.head = Spelling.array ∨ wrapping.head = Spelling.pointer := by
  cases wrapping with
  | suffix | array => exact .inl rfl
  | pointer | ptr => exact .inr rfl

/-
  A wrapped shape is decided as the shape in native words is,
  if it fits, and not at all otherwise.
-/
theorem outcome_spelling
    (hShape : TypeForm.ofText shape = .shape fields) (hAliases : table.aliases = [])
    (wrapping : Wrapping) :
    outcome (canonicalize (wrapping.spelling shape)) table =
      if wrapping.fits shape then
        (outcome (canonicalize (nativeForm shape)) table).bind (wrapResult wrapping.head)
      else
        none := by
  cases hWord : wrapping.word? with
  | none =>
    have hSuffix : wrapping = .suffix := by
      cases wrapping with
      | suffix => rfl
      | array | pointer | ptr => cases hWord
    subst hSuffix
    have hFits : fits .suffix shape = !isUndecidable (trim (shape ++ "[]")) := Bool.and_true _
    rw [hFits]
    show outcome (canonicalize (shape ++ "[]")) table = _
    rw [outcome_suffix hShape]
    cases isUndecidable (trim (shape ++ "[]")) <;> rfl
  | some word =>
    rcases of_word? hWord with ⟨hOther, hIdentifier, hHead⟩
    have hSpelling : wrapping.spelling shape = word ++ '<' :: (shape ++ ['>']) := by
      unfold spelling
      rw [hWord]
    have hBuiltin := wrapping.head_cases
    rw [← hHead] at hBuiltin
    unfold fits
    rw [hSpelling, trim_bracketed hIdentifier, beq_eq_false_iff_ne.mpr hOther, Bool.false_or,
      outcome_bracketed hAliases hIdentifier hBuiltin, hHead]
    cases isUndecidable (word ++ '<' :: (shape ++ ['>'])) <;>
      rfl

end Wrapping

end Shapes

end ScriptLowering
