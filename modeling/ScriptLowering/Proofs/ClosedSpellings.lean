import ScriptLowering.Proofs.Registration
import ScriptLowering.Proofs.WrappedSpellings

/-
  Brackets in spellings that are decided. A spelling of which
  a type can be decided closes its brackets, and it has no
  mark of a union, an intersection or an arrow, because all
  its parts down to single words are decided too. Quoted
  literals are the exception: anything may stand in them. So
  a shape without quotes can be seen in any wrapping.

  Key theorems include:
    * `IsTypeSpelling.closed`
    * `Wrapping.fits_of_unquoted`
-/

namespace ScriptLowering

open Text Spelling List Shape
open TypeForm hiding array

-----
-- Decided Spellings
-----

/- A type can be decided, without any alias. -/
def IsTypeSpelling (text : Text) : Prop :=
  ∃ table result, table.aliases = [] ∧ outcome (TypeTable.canonicalize text) table = some result

variable {text : Text} {table : TypeTable} {kept : TypeTable → Prop}

/- Deciding a type keeps what interning keeps. -/
theorem kept_of_outcome
    (hKept : KeptByInterning kept) {term : TypeTerm} {result : TypeName × TypeTable}
    (hTable : kept table) (h : outcome term.eval table = some result) :
    kept result.2 := by
  have hLeft := (preserves_eval_of_intern hKept term).kept hTable
  rw [outcome_eq_some_iff.mp h] at hLeft
  exact hLeft

/- All types of decided members are decided. -/
theorem exists_outcome_of_evalMembers
    (hKept : KeptByInterning kept) {fields : List (Text × Text)}
    {result : List (Text × TypeName) × TypeTable} (hTable : kept table)
    (h :
      outcome
          (TypeTerm.evalMembers
            (fields.map fun field => (field.1, TypeTerm.ofText field.2))) table =
        some result) :
    ∀ field ∈ fields, ∃ table result, kept table ∧
      outcome (TypeTable.canonicalize field.2) table = some result := by
  induction fields generalizing table result with
  | nil => exact forall_mem_nil _
  | cons _ _ ih =>
    rw [map_cons, outcome_evalMembers_cons] at h
    rcases Option.bind_eq_some_iff.mp h with ⟨first, hFirst, hMembers⟩
    rcases Option.map_eq_some_iff.mp hMembers with ⟨_, hLater, _⟩
    exact forall_mem_cons.mpr
      ⟨⟨table, first, hTable, hFirst⟩, ih (kept_of_outcome hKept hTable hFirst) hLater⟩

theorem exists_outcome_of_shape
    (hKept : KeptByInterning kept) {fields : List (Text × Text)}
    (hForm : ofText text = .shape fields) {result : TypeName × TypeTable} (hTable : kept table)
    (h : outcome (TypeTable.canonicalize text) table = some result) :
    ∀ field ∈ fields, ∃ table result, kept table ∧
      outcome (TypeTable.canonicalize field.2) table = some result := by
  unfold TypeTable.canonicalize at h
  rw [TypeTerm.ofText_eq_term, hForm] at h
  simp only [term, outcome_shape] at h
  rcases Option.bind_eq_some_iff.mp h with ⟨_, hDecided, _⟩
  exact exists_outcome_of_evalMembers hKept hTable hDecided

theorem isTypeSpelling_of_evalArgs
    {args : List Text} {result : List TypeName × TypeTable} (hAliases : table.aliases = [])
    (h : outcome (TypeTerm.evalArgs (args.map TypeTerm.ofText)) table = some result) :
    ∀ arg ∈ args, IsTypeSpelling arg := by
  induction args generalizing table result with
  | nil => exact forall_mem_nil _
  | cons _ _ ih =>
    rw [map_cons, TypeTerm.evalArgs, outcome_bind] at h
    rcases Option.bind_eq_some_iff.mp h with ⟨first, hFirst, hArgs⟩
    rw [outcome_bind] at hArgs
    rcases Option.bind_eq_some_iff.mp hArgs with ⟨_, hLater, _⟩
    exact forall_mem_cons.mpr
      ⟨⟨table, first, hAliases, hFirst⟩,
        ih (kept_of_outcome keptByInterning_aliases hAliases hFirst) hLater⟩

/- What a form leaves to be read is decided with the whole. -/
theorem IsTypeSpelling.of_mem_parts
    {part : Text} (h : IsTypeSpelling text) (hPart : part ∈ (ofText text).parts) :
    IsTypeSpelling part := by
  rcases h with ⟨table, _, hAliases, hRun⟩
  cases hForm : ofText text with
  | shape =>
    rw [hForm] at hPart
    rcases mem_map.mp hPart with ⟨field, hField, rfl⟩
    exact exists_outcome_of_shape keptByInterning_aliases hForm hAliases hRun field hField
  | array =>
    rw [outcome_canonicalize_of_array hForm] at hRun
    rcases Option.bind_eq_some_iff.mp hRun with ⟨first, hFirst, _⟩
    rw [hForm] at hPart
    rw [mem_singleton.mp hPart]
    exact ⟨table, first, hAliases, hFirst⟩
  | applied head args =>
    rw [hForm] at hPart
    change part ∈ args at hPart
    by_cases hHead :
        head = array ∨ head = pointer
    · by_cases hLength : args.length = 1
      · rcases length_eq_one_iff.mp hLength with ⟨_, rfl⟩
        rw [outcome_canonicalize_of_applied hHead hForm] at hRun
        rcases Option.bind_eq_some_iff.mp hRun with ⟨first, hFirst, _⟩
        rw [mem_singleton.mp hPart]
        exact ⟨table, first, hAliases, hFirst⟩
      · rw [outcome_canonicalize_of_length_ne hHead hForm hLength] at hRun
        cases hRun
    · rw [not_or] at hHead
      unfold TypeTable.canonicalize at hRun
      rw [TypeTerm.ofText_eq_term, hForm] at hRun
      simp only [term] at hRun
      unfold TypeTerm.eval at hRun
      rw [if_neg hHead.1, if_neg hHead.2, outcome_bind] at hRun
      rcases Option.bind_eq_some_iff.mp hRun with ⟨_, hTypes, _⟩
      exact isTypeSpelling_of_evalArgs hAliases hTypes part hPart
  | _ =>
    rw [hForm] at hPart
    cases hPart

-----
-- Classes Of Texts
-----

/-
  A property that plain characters have, and that texts have
  together if each of them has it.
-/
structure IsTextClass (Holds : Text → Prop) : Prop where
  nil : Holds []
  append :
    ∀ {front back}, Holds front → Holds back → Holds (front ++ back)
  flat :
    ∀ {c}, isFlat c = true → c ≠ '|' → c ≠ '&' → Holds [c]

namespace IsTextClass

variable {Holds : Text → Prop} (hClass : IsTextClass Holds)
include hClass

/- Characters without brackets and the marks of unions and arrows. -/
theorem of_all
    {p : Char → Bool}
    (hMarks :
      (['<', '{', '(', '[', '>', '}', ')', ']', '=', '|', '&'].all fun mark => !p mark) = true)
    (h : text.all p = true) :
    Holds text := by
  simp only [all_cons, all_nil, Bool.and_true, Bool.and_eq_true, Bool.not_eq_true'] at hMarks
  induction text with
  | nil => exact hClass.nil
  | cons c _ ih =>
    rw [all_cons, Bool.and_eq_true] at h
    have hFlat : isFlat c = true := isFlat_of_class (p := p) (by simp [hMarks]) h.1
    have hFirst : Holds [c] :=
      hClass.flat hFlat (ne_of_class h.1 (by simp [hMarks])) (ne_of_class h.1 (by simp [hMarks]))
    exact hClass.append hFirst (ih h.2)

theorem of_isWord (h : Text.IsWord text) :
    Holds text :=
  hClass.of_all rfl h.2

theorem of_blanks (h : ∀ c ∈ text, isBlank c = true) :
    Holds text :=
  hClass.of_all rfl (all_eq_true.mpr h)

/- A text is in the class if its pieces and separators are. -/
theorem of_cuts
    {cuts : Cuts} (hMarks : ∀ cut ∈ cuts.later, Holds [cut.1])
    (hPieces : ∀ piece ∈ cuts.pieces, Holds piece) :
    Holds cuts.text := by
  rcases cuts with ⟨first, later⟩
  rcases forall_mem_cons.mp hPieces with ⟨hFirst, hLater⟩
  induction later generalizing first with
  | nil => simpa [Cuts.text] using hFirst
  | cons cut _ ih =>
    rcases forall_mem_cons.mp hMarks with ⟨hMark, hRest⟩
    rcases forall_mem_cons.mp hLater with ⟨hPiece, hMore⟩
    have hText := ih cut.2 hRest hLater hPiece hMore
    show Holds (first ++ ([cut.1] ++ Cuts.text ⟨cut.2, _⟩))
    exact hClass.append hFirst (hClass.append hMark hText)

theorem nativeForm_of_trimStart (h : Holds (nativeForm (trimStart text))) :
    Holds (nativeForm text) := by
  rcases exists_nativeForm_trimStart text with ⟨_, hBlanks, hNative⟩
  rw [hNative]
  exact hClass.append (hClass.of_blanks hBlanks) h

/- Blanks around a text leave it in the class. -/
theorem nativeForm_of_trim (h : Holds (nativeForm (trim text))) :
    Holds (nativeForm text) := by
  rcases exists_nativeForm_trim text with ⟨_, _, hBefore, hAfter, hNative⟩
  rw [hNative]
  exact hClass.append (hClass.of_blanks hBefore) (hClass.append h (hClass.of_blanks hAfter))

theorem of_identifier (h : (trim text).isIdentifier = true) :
    Holds (nativeForm text) := by
  apply hClass.nativeForm_of_trim
  rw [nativeForm_word h]
  exact hClass.of_isWord (isWord_nativeWord (.of_isIdentifier h))

theorem of_mem_memberSeparators {c : Char} (h : c ∈ memberSeparators) :
    Holds [c] := by
  have hMarks :
      (memberSeparators.all fun mark => mark != '|' && mark != '&') =
        true := rfl
  have hOther := all_eq_true.mp hMarks c h
  simp only [Bool.and_eq_true, bne_iff_ne] at hOther
  exact hClass.flat (class_of_mem_memberSeparators h).1 hOther.1 hOther.2

/- The name of a member is a word, so its type is all that matters. -/
theorem of_readMember
    {member : Text} {field : Text × Text} (h : readMember member = .ok field)
    (hType : Holds (nativeForm field.2)) :
    Holds (nativeForm member) := by
  rcases readMember_eq_ok_iff.mp h with ⟨_, _, hCut, hName, rfl⟩
  have hColon : Holds [':'] := hClass.flat rfl (by decide) (by decide)
  rw [eq_of_cutTopLevel? hCut, nativeForm_append_mark rfl]
  exact hClass.append (hClass.of_identifier hName)
    (hClass.append hColon (hClass.nativeForm_of_trim hType))

theorem of_dropReadonly {member : Text} (h : Holds (nativeForm (dropReadonly member))) :
    Holds (nativeForm member) := by
  unfold dropReadonly at h
  split at h
  · next rest hDrop =>
    have hReadonly : Text.IsWord "readonly" := .of_isIdentifier rfl
    have hText : member = ("readonly" : Text) ++ ' ' :: rest := by
      rw [dropStart?_eq_some hDrop]
      rfl
    have hBlank : Holds [' '] := hClass.flat rfl (by decide) (by decide)
    rw [hText, nativeForm_append_mark rfl, nativeForm_word rfl]
    exact hClass.append (hClass.of_isWord (isWord_nativeWord hReadonly))
      (hClass.append hBlank (hClass.nativeForm_of_trimStart h))
  · exact h

theorem of_readMembers
    {pieces : List Text} {fields : List (Text × Text)} (h : readMembers pieces = .ok fields)
    (hTypes : ∀ field ∈ fields, Holds (nativeForm field.2)) :
    ∀ piece ∈ pieces, Holds (nativeForm piece) := by
  induction pieces generalizing fields with
  | nil => exact forall_mem_nil _
  | cons piece rest ih =>
    rw [readMembers] at h
    split at h
    · next hEmpty =>
      have hBlank : trim piece = [] := isEmpty_iff.mp hEmpty
      have hPiece : Holds (nativeForm piece) := by
        apply hClass.nativeForm_of_trim
        rw [hBlank]
        exact hClass.nil
      exact forall_mem_cons.mpr ⟨hPiece, ih h hTypes⟩
    · cases hFirst :
          readMember (dropReadonly (trim piece)) with
      | error =>
        rw [hFirst] at h
        cases h
      | ok =>
        rw [hFirst] at h
        cases hLater : readMembers rest with
        | error =>
          rw [hLater] at h
          cases h
        | ok =>
          rw [hLater] at h
          cases h
          rcases forall_mem_cons.mp hTypes with ⟨hField, hRest⟩
          have hMember := hClass.of_readMember hFirst hField
          exact forall_mem_cons.mpr
            ⟨hClass.nativeForm_of_trim (hClass.of_dropReadonly hMember), ih hLater hRest⟩

/- A list is in the class if what stands between its separators is. -/
theorem of_splitTopLevel
    {separators : List Char} (hMarks : ∀ c ∈ separators, isWordChar c = false)
    (hSeparators : ∀ c ∈ separators, Holds [c])
    (h : ∀ piece ∈ splitTopLevel separators text, Holds (nativeForm piece)) :
    Holds (nativeForm text) := by
  rw [← text_cutFrom separators 0 '\x00' (nativeForm text)]
  apply hClass.of_cuts
  · intro cut hCut
    exact hSeparators _ (mem_of_mem_cutFrom separators 0 '\x00' _ cut hCut)
  · rw [← splitTopLevel_eq_pieces, splitTopLevel_nativeForm hMarks]
    exact forall_mem_map.mpr h

/- What stands in the braces of a shape whose types are in the class. -/
theorem inner_of_shape
    {fields : List (Text × Text)} (hShape : ofText text = .shape fields)
    (hTypes : ∀ field ∈ fields, Holds (nativeForm field.2)) :
    ∃ inner, trim text = '{' :: (inner ++ ['}']) ∧ Holds (nativeForm inner) := by
  rcases exists_of_shape hShape with ⟨inner, hText, hMembers⟩
  refine ⟨inner, hText, ?_⟩
  apply hClass.of_splitTopLevel (fun c hMem => (class_of_mem_memberSeparators hMem).2.1)
    (fun c hMem => hClass.of_mem_memberSeparators hMem)
  exact hClass.of_readMembers hMembers hTypes

end IsTextClass

-----
-- Closed Texts
-----

/-
  A text that leaves no bracket open and has no mark of a
  union, an intersection or an arrow. Inside of brackets it
  is never cut at a comma.
-/
structure Closed (text : Text) : Prop where
  balanced : Application.Balanced text
  uncut : Text.Uncut [','] 1 text
  unmarked : ∀ c ∈ text, c ≠ '|' ∧ c ≠ '&' ∧ c ≠ '='

namespace Closed

theorem nil :
    Closed [] :=
  ⟨.nil, .nil, forall_mem_nil _⟩

theorem append {front back : Text} (hFront : Closed front) (hBack : Closed back) :
    Closed (front ++ back) :=
  ⟨hFront.balanced.append hBack.balanced, hFront.uncut.append hBack.uncut,
    forall_mem_append.mpr ⟨hFront.unmarked, hBack.unmarked⟩⟩

theorem flat {c : Char} (hFlat : isFlat c = true) (hUnion : c ≠ '|') (hBoth : c ≠ '&') :
    Closed [c] := by
  refine ⟨.singleton ?_ ?_, .singleton hFlat (.inl Nat.one_pos), ?_⟩
  · exact ne_of_class hFlat rfl
  · exact ne_of_class hFlat rfl
  · exact forall_mem_singleton.mpr ⟨hUnion, hBoth, ne_of_class hFlat rfl⟩

theorem isTextClass :
    IsTextClass Closed :=
  ⟨nil, append, flat⟩

theorem bracket
    {opening closing : Char} (hPair : (opening, closing) ∈ bracketPairs) {inner : Text}
    (hInner : Closed inner) :
    Closed (opening :: (inner ++ [closing])) := by
  rcases isOpening_of_bracketPairs hPair with ⟨hOpening, hClosing⟩
  refine ⟨hInner.balanced.pair hPair, ?_, ?_⟩
  · exact .bracket hOpening hClosing (hInner.uncut.mono (Nat.le_succ 1))
  · intro c hMem
    rcases mem_cons.mp hMem with rfl | hRest
    · exact ⟨ne_of_class hOpening rfl, ne_of_class hOpening rfl, ne_of_class hOpening rfl⟩
    · rcases mem_append.mp hRest with hInside | hLast
      · exact hInner.unmarked c hInside
      · rw [mem_singleton.mp hLast]
        exact ⟨ne_of_class hClosing rfl, ne_of_class hClosing rfl, ne_of_class hClosing rfl⟩

end Closed

-----
-- Spellings Without Quotes
-----

/- The marks that literals are quoted with. -/
def quoteMarks : List Char :=
  ['"', '\'', '\x60']

/- A text in which no literal is quoted. -/
def Text.Unquoted (text : Text) : Prop :=
  ∀ c ∈ quoteMarks, c ∉ text

instance (text : Text) :
    Decidable text.Unquoted :=
  decidable_of_iff (quoteMarks.all (fun c => !text.contains c) = true) (by simp [Text.Unquoted])

theorem isWordChar_of_mem_quoteMarks {c : Char} (h : c ∈ quoteMarks) :
    isWordChar c = false := by
  have hMarks : (quoteMarks.all fun mark => !isWordChar mark) = true := rfl
  simpa using all_eq_true.mp hMarks c h

namespace Text.Unquoted

theorem of_subset {text other : Text} (h : Unquoted text) (hSubset : ∀ c ∈ other, c ∈ text) :
    Unquoted other :=
  fun c hQuote hMem => h c hQuote (hSubset c hMem)

theorem isQuoted {text : Text} (h : Unquoted text) :
    isQuoted text = false := by
  rw [← Bool.not_eq_true]
  intro hQuoted
  simp only [Spelling.isQuoted, Bool.and_eq_true, any_eq_true, beq_iff_eq] at hQuoted
  rcases hQuoted with ⟨_, quote, hQuote, hHead, _⟩
  exact h quote hQuote (mem_of_mem_head? hHead)

end Text.Unquoted

-----
-- Parts Of Closed Texts
-----

theorem closed_suffix :
    Closed ['[', ']'] := by
  have hPair : ('[', ']') ∈ bracketPairs := by decide
  exact Closed.nil.bracket hPair

theorem isWord_of_isBoolean (h : isBoolean text = true) :
    Text.IsWord text := by
  simp only [isBoolean, Bool.or_eq_true, beq_iff_eq] at h
  rcases h with (rfl | rfl) | rfl
  · exact .of_isIdentifier rfl
  · exact .of_isIdentifier rfl
  · exact .of_isIdentifier rfl

theorem isWord_of_isDisallowed (h : isDisallowed text = true) :
    Text.IsWord text := by
  simp only [isDisallowed, Bool.or_eq_true, beq_iff_eq] at h
  rcases h with rfl | rfl
  · exact .of_isIdentifier rfl
  · exact .of_isIdentifier rfl

/- A native spelling is closed if its parts are. -/
theorem closed_of_ofNative
    {native : Text} (hNative : nativeForm native = native) (hDecided : ofNative native ≠ .undecided)
    (hNamed : ∀ name, ofNative native = .named name → name.isIdentifier = true)
    (hParts : ∀ part ∈ (ofNative native).parts, Closed (nativeForm part)) :
    Closed native := by
  by_cases hBoolean : isBoolean native = true
  · exact Closed.isTextClass.of_isWord (isWord_of_isBoolean hBoolean)
  · by_cases hDisallowed : isDisallowed native = true
    · exact Closed.isTextClass.of_isWord (isWord_of_isDisallowed hDisallowed)
    · unfold ofNative at hDecided hNamed hParts
      rw [if_neg hBoolean, if_neg hDisallowed] at hDecided hParts
      simp only [if_neg hBoolean, if_neg hDisallowed] at hNamed
      by_cases hUndecidable : isUndecidable native = true
      · rw [if_pos hUndecidable] at hDecided
        exact absurd rfl hDecided
      · rw [if_neg hUndecidable] at hParts
        simp only [if_neg hUndecidable] at hNamed
        cases hArray : native.dropEnd? "[]" with
        | some element =>
          rw [hArray] at hParts
          have hText : native = element ++ ['[', ']'] := dropEnd?_eq_some hArray
          rw [← hNative, hText, nativeForm_append_mark rfl, nativeForm_cons_mark rfl]
          exact (hParts element (mem_singleton_self _)).append closed_suffix
        | none =>
          rw [hArray] at hParts
          simp only [hArray] at hNamed
          cases hApplied : Application.ofText? native with
          | some application =>
            rw [hApplied] at hParts
            rcases Application.exists_of_ofText? hApplied with
              ⟨_, inner, hText, hFront, hHead, hArgs⟩
            have hInner : Closed (nativeForm inner) := by
              have hComma : Closed [','] := .flat rfl (by decide) (by decide)
              apply Closed.isTextClass.of_splitTopLevel (forall_mem_singleton.mpr rfl)
                (forall_mem_singleton.mpr hComma)
              intro piece hPiece
              apply Closed.isTextClass.nativeForm_of_trim
              apply hParts
              show trim piece ∈ application.args
              rw [hArgs]
              exact mem_map_of_mem hPiece
            rw [hFront] at hHead
            rw [← hNative, hText, nativeForm_append_mark rfl, nativeForm_append_mark rfl]
            exact (Closed.isTextClass.of_identifier hHead).append (hInner.bracket mem_cons_self)
          | none =>
            simp only [hApplied] at hNamed
            exact Closed.isTextClass.of_isWord (.of_isIdentifier (hNamed native rfl))

namespace TypeForm

/- The parts of a spelling have no other marks than the whole. -/
theorem mem_of_mem_parts
    {raw part : Text} (hPart : part ∈ (ofText raw).parts) {c : Char} (hMark : isWordChar c = false)
    (hMem : c ∈ part) :
    c ∈ raw := by
  rcases exists_sublist_of_mem_parts hPart with ⟨_, hSub⟩
  apply (trim_sublist raw).subset
  rw [← mem_nativeForm_iff hMark] at hMem ⊢
  exact hSub.subset (mem_append_left _ hMem)

end TypeForm

theorem Text.Unquoted.of_mem_parts
    {part : Text} (h : text.Unquoted) (hPart : part ∈ (ofText text).parts) :
    part.Unquoted :=
  fun c hQuote hMem =>
    h c hQuote (mem_of_mem_parts hPart (isWordChar_of_mem_quoteMarks hQuote) hMem)

theorem closed_of_isNumeral (h : isNumeral text = true) :
    Closed text := by
  have hDigits :
      ∀ {digits : Text},
        (digits.all fun c => c.isAlphanum || c == '.' || c == '_') = true → Closed digits :=
    fun hAll => Closed.isTextClass.of_all (by decide) hAll
  by_cases hMinus : text.head? = some '-'
  · rcases head?_eq_some_iff.mp hMinus with ⟨rest, rfl⟩
    have hSign : Closed ['-'] := .flat rfl (by decide) (by decide)
    have hRest : (rest.head?.any Char.isDigit && rest.all _) = true := h
    rw [Bool.and_eq_true] at hRest
    exact hSign.append (hDigits hRest.2)
  · rw [isNumeral_of_head? hMinus, Bool.and_eq_true] at h
    exact hDigits h.2

/- The spelling of a type is neither undecided nor any other text. -/
theorem IsTypeSpelling.form (h : IsTypeSpelling text) :
    ofText text ≠ .undecided ∧ (∀ shape fault, ofText text ≠ .malformed shape fault) ∧
      ∀ name, ofText text = .named name → name.isIdentifier = true := by
  rcases h with ⟨_, _, hAliases, hRun⟩
  refine ⟨?_, ?_, ?_⟩
  · intro hForm
    rw [outcome_canonicalize_of_undecided hForm] at hRun
    cases hRun
  · intro shape fault hForm
    unfold TypeTable.canonicalize at hRun
    rw [TypeTerm.ofText_eq_term, hForm] at hRun
    cases hRun
  · intro name hForm
    rw [outcome_canonicalize_of_named hAliases hForm] at hRun
    by_contra hName
    rw [if_neg hName] at hRun
    cases hRun

/-
  A decided spelling without quotes is closed. By induction
  on the spelling: the parts of a form have fewer marks.
-/
theorem IsTypeSpelling.closed (h : IsTypeSpelling text) (hQuotes : text.Unquoted) :
    Closed (nativeForm text) := by
  induction hCount : text.markCount using Nat.strong_induction_on generalizing text with
  | _ _ ih =>
    rcases h.form with ⟨hDecided, hFault, hNamed⟩
    have hParts : ∀ part ∈ (ofText text).parts, Closed (nativeForm part) := by
      intro part hPart
      have hLt := markCount_lt_of_mem_parts hPart
      rw [hCount] at hLt
      exact ih _ hLt (h.of_mem_parts hPart) (hQuotes.of_mem_parts hPart) rfl
    apply Closed.isTextClass.nativeForm_of_trim
    by_cases hBraced : isBraced (trim text) = true
    · rcases shape_or_malformed hBraced with ⟨_, hForm⟩ | ⟨fault, hForm⟩
      · rw [hForm] at hParts
        rcases Closed.isTextClass.inner_of_shape hForm
            (fun field hField =>
              hParts _ (mem_map_of_mem hField)) with
          ⟨_, hText, hInner⟩
        rw [hText, nativeForm_cons_mark rfl, nativeForm_append_mark rfl]
        exact hInner.bracket (by decide)
      · exact absurd hForm (hFault _ fault)
    · have hUnquoted : (trim text).Unquoted :=
        hQuotes.of_subset fun c hMem => (trim_sublist text).subset hMem
      by_cases hNumeral :
          isNumeral (trim text) = true
      · rw [← isNumeral_nativeForm] at hNumeral
        exact closed_of_isNumeral hNumeral
      · by_cases hEmpty : (trim text).isEmpty = true
        · rw [isEmpty_iff.mp hEmpty]
          exact .nil
        · have hForm : ofText text = ofNative (nativeForm (trim text)) := by
            unfold ofText ofTrimmed
            rw [if_neg hEmpty, hUnquoted.isQuoted, if_neg hBraced, if_neg hNumeral]
            rfl
          rw [hForm] at hDecided hParts
          simp only [hForm] at hNamed
          exact closed_of_ofNative (nativeForm_nativeForm _) hDecided hNamed hParts

-----
-- Shapes In Wrappings
-----

theorem Text.containsTopLevel_of_not_mem {c : Char} (h : c ∉ text) :
    containsTopLevel c text = false := by
  have hWhole : ∀ depth previous, (splitFrom [c] depth previous text).2 = [] := by
    induction text with
    | nil =>
      intro depth previous
      rfl
    | cons d _ ih =>
      intro depth previous
      rw [mem_cons, not_or] at h
      have hOther : isSeparator [c] d = false := by simp [isSeparator, Ne.symm h.1]
      simp only [splitFrom, hOther, Bool.and_false, Bool.false_eq_true, if_false]
      exact ih h.2 _ _
  apply length_splitTopLevel_eq_one_iff.mp
  show (splitFrom [c] 0 '\x00' text).2.length + 1 = 1
  rw [hWhole]
  rfl

namespace Wrapping

section Fitting

variable {shape : Text} {fields : List (Text × Text)}

/- What a wrapping adds to a shape. -/
theorem mem_spelling (wrapping : Wrapping) {c : Char} (h : c ∈ wrapping.spelling shape) :
    c ∈ shape ∨ isWordChar c = true ∨ c ∈ ['[', ']', '<', '>'] := by
  unfold spelling at h
  cases hWord : wrapping.word? with
  | none =>
    rw [hWord] at h
    rcases mem_append.mp h with hShape | hSuffix
    · exact .inl hShape
    · exact .inr (.inr (mem_append_left ['<', '>'] hSuffix))
  | some =>
    rw [hWord] at h
    have hIsWord := Text.IsWord.of_isIdentifier (of_word? hWord).2.1
    simp only [mem_append, mem_cons, not_mem_nil, or_false] at h
    rcases h with hHead | rfl | hShape | rfl
    · exact .inr (.inl (all_eq_true.mp hIsWord.2 c hHead))
    · exact .inr (.inr (by simp))
    · exact .inl hShape
    · exact .inr (.inr (by simp))

/- A wrapped shape starts with its word or with its brace. -/
theorem trim_spelling (hShape : ofText shape = .shape fields) (wrapping : Wrapping) :
    ∃ c mark,
      (trim (wrapping.spelling shape)).head? = some c ∧ (isWordStart c = true ∨ c = '{') ∧
        mark ∈ trim (wrapping.spelling shape) ∧
        isWordChar mark = false := by
  unfold spelling
  cases hWord : wrapping.word? with
  | none =>
    have hTrim : trim (shape ++ "[]") = _ := trim_shape_append hShape (c := ']') rfl rfl
    refine ⟨'{', '[', ?_, .inr rfl, ?_, rfl⟩
    · rw [hTrim, head?_append, head?_trimStart_of_shape hShape]
      rfl
    · rw [hTrim]
      simp
  | some word =>
    have hIdentifier := (of_word? hWord).2.1
    rw [trim_bracketed hIdentifier]
    cases word with
    | nil => cases hIdentifier
    | cons c =>
      rw [isIdentifier, Bool.and_eq_true] at hIdentifier
      exact ⟨c, '<', rfl, .inl hIdentifier.1, by simp, rfl⟩

/- No comma separates anything outside of the braces. -/
theorem containsTopLevel_comma_of_unquoted
    (hShape : ofText shape = .shape fields) (hDecided : IsTypeSpelling shape)
    (hQuotes : shape.Unquoted) :
    containsTopLevel ',' shape = false := by
  have hTypes : ∀ field ∈ fields, Closed (nativeForm field.2) := by
    intro field hField
    have hPart : field.2 ∈ (ofText shape).parts := by
      rw [hShape]
      exact mem_map_of_mem hField
    exact (hDecided.of_mem_parts hPart).closed (hQuotes.of_mem_parts hPart)
  rcases Closed.isTextClass.inner_of_shape hShape hTypes with ⟨_, hText, hInner⟩
  have hBlanks :
      ∀ {blanks : Text}, (∀ c ∈ blanks, isBlank c = true) → Text.Uncut [','] 0 blanks := by
    intro blanks hBlank
    have hNested : Nested false blanks := .of_blanks hBlank
    exact hNested.uncut rfl
  rcases exists_nativeForm_trim shape with ⟨_, _, hBefore, hAfter, hNative⟩
  rw [← containsTopLevel_nativeForm rfl, hNative, hText, nativeForm_cons_mark rfl,
    nativeForm_append_mark rfl]
  apply containsTopLevel_eq_false
  exact (hBlanks hBefore).append ((Text.Uncut.bracket rfl rfl hInner.uncut).append (hBlanks hAfter))

/- A decided shape without quotes can be seen in any wrapping. -/
theorem fits_of_unquoted
    (hShape : ofText shape = .shape fields) (hDecided : IsTypeSpelling shape)
    (hQuotes : shape.Unquoted) (wrapping : Wrapping) :
    wrapping.fits shape = true := by
  have hClosed := hDecided.closed hQuotes
  have hUnmarked : ∀ c ∈ ['|', '&', '='], c ∉ trim (wrapping.spelling shape) := by
    intro c hMark hMem
    have hMarks :
        (['|', '&', '='].all fun mark =>
          !isWordChar mark && !(['[', ']', '<', '>'].contains mark)) = true := rfl
    have hOther := all_eq_true.mp hMarks c hMark
    simp only [Bool.and_eq_true, Bool.not_eq_true'] at hOther
    rcases wrapping.mem_spelling ((trim_sublist _).subset hMem) with hInside | hWord | hBracket
    · have hKept := hClosed.unmarked c ((mem_nativeForm_iff hOther.1 _).mpr hInside)
      simp [hKept] at hMark
    · rw [hOther.1] at hWord
      cases hWord
    · rw [contains_iff_mem.mpr hBracket] at hOther
      cases hOther.2
  have hUndecidable :
      isUndecidable (trim (wrapping.spelling shape)) =
        false := by
    rcases trim_spelling hShape wrapping with ⟨c, _, hHead, hFirst, hMem, hMark⟩
    have hParen :
        ((trim (wrapping.spelling shape)).head? == some '(') =
          false := by
      rw [hHead]
      simpa using (not_literal_of_first hFirst []).2.2
    unfold isUndecidable
    rw [(not_reserved_of_mark hMem hMark).2.2,
      containsTopLevel_of_not_mem (hUnmarked '|' (by simp)),
      containsTopLevel_of_not_mem (hUnmarked '&' (by simp)),
      containsText_arrow_eq_false _, hParen]
    · rfl
    · rintro c hMember rfl
      exact hUnmarked '=' (by simp) hMember
  have hBalanced : Application.isBalanced 0 shape = true := by
    rw [← isBalanced_nativeForm]
    exact hClosed.balanced.isBalanced_eq_true
  unfold fits
  rw [hUndecidable, hBalanced, containsTopLevel_comma_of_unquoted hShape hDecided hQuotes]
  simp

end Fitting

end Wrapping

end ScriptLowering
