import ScriptLowering.Proofs.ClosedSpellings

/-
  Unions and intersections are rejected, unless literals mask
  them. A mark is exposed if it stands outside brackets and
  outside quoted literals. Spellings are told to be literals
  and shapes by their two ends alone, before marks are looked
  for, so an exposed mark can go unseen between two literals,
  or between the braces of two shapes. What masks it in the
  end is always a text that starts and ends with one quote.

  Key theorems include:
    * `masked_of_outcome`
    * `exposed_rejected_unless_masked`
-/

namespace ScriptLowering

open Text TypeForm Spelling

-----
-- Marks Outside Literals
-----

/- Where in a text a character stands, as far as quotes go. -/
inductive QuoteState where
  | outside
  | inside (quote : Char)
  | escaped (quote : Char)

namespace QuoteState

/- A literal ends with its quote, unless a backslash is before it. -/
def next : QuoteState → Char → QuoteState
  | .outside, c => if quoteMarks.contains c then .inside c else .outside
  | .inside quote, c =>
      if c = quote then
        .outside
      else if c = '\\' then
        .escaped quote
      else
        .inside quote
  | .escaped quote, _ => .inside quote

/- Whether a character belongs to a literal, quotes included. -/
def covers : QuoteState → Char → Bool
  | .outside, c => quoteMarks.contains c
  | _, _ => true

end QuoteState

namespace Text

/- The characters of the literals in a text. -/
def literalCharsFrom (state : QuoteState) : Text → Text
  | [] => []
  | c :: rest =>
      let later := literalCharsFrom (state.next c) rest
      if state.covers c then c :: later else later

/-
  Whether a mark stands outside brackets and literals. What
  literals are made of counts neither as mark nor as bracket.
-/
def exposesFrom (mark : Char) (state : QuoteState) (depth : Nat) (previous : Char) : Text → Bool
  | [] => false
  | c :: rest =>
      if state.covers c then
        exposesFrom mark (state.next c) depth c rest
      else
        depth == 0 && c == mark ||
          exposesFrom mark (state.next c) (depthAfter depth previous c) c rest

def literalChars (text : Text) : Text :=
  literalCharsFrom .outside text

def exposes (mark : Char) (text : Text) : Bool :=
  exposesFrom mark .outside 0 '\x00' text

-----
-- Marks Outside Brackets
-----

/- A mark stands outside brackets, wherever the text goes on from. -/
def ShownFrom (mark : Char) (depth : Nat) (previous : Char) : Text → Prop
  | [] => False
  | c :: rest =>
      depth = 0 ∧ c = mark ∨ ShownFrom mark (depthAfter depth previous c) c rest

variable {mark : Char} {depth : Nat} {previous : Char}

/- Where fewer brackets are open, no less is outside of them. -/
theorem ShownFrom.mono
    {other : Nat} {former : Char} {text : Text} (h : ShownFrom mark other former text)
    (hDepth : depth ≤ other) (hPrevious : previous = '=' → former = '=') :
    ShownFrom mark depth previous text := by
  induction text generalizing depth other previous former with
  | nil => exact h
  | cons c _ ih =>
    rcases h with ⟨rfl, hMark⟩ | hRest
    · exact .inl ⟨Nat.le_zero.mp hDepth, hMark⟩
    · refine .inr (ih hRest ?_ id)
      unfold depthAfter
      split
      · exact Nat.succ_le_succ hDepth
      · by_cases hArrow : (c == '>' && previous == '=') = true
        · have hFormer : (c == '>' && former == '=') = true := by
            simp only [Bool.and_eq_true, beq_iff_eq] at hArrow ⊢
            exact ⟨hArrow.1, hPrevious hArrow.2⟩
          rw [if_pos hArrow, if_pos hFormer]
          exact hDepth
        · rw [if_neg hArrow]
          split_ifs <;> omega

theorem ShownFrom.of_append
    {front back : Text} (h : ShownFrom mark depth previous (front ++ back)) :
    ShownFrom mark depth previous front ∨ ∃ later former, ShownFrom mark later former back := by
  induction front generalizing depth previous with
  | nil => exact .inr ⟨depth, previous, h⟩
  | cons _ _ ih =>
    rcases h with hHere | hRest
    · exact .inl (.inl hHere)
    · exact (ih hRest).imp_left Or.inr

/- Splitting finds exactly the marks outside brackets. -/
theorem splitFrom_ne_nil_iff
    (hMark : isFlat mark = true) (depth : Nat) (previous : Char) (text : Text) :
    (splitFrom [mark] depth previous text).2 ≠ [] ↔ ShownFrom mark depth previous text := by
  induction text generalizing depth previous with
  | nil => simp [splitFrom, ShownFrom]
  | cons c _ ih =>
    have hSeparator : isSeparator [mark] c = true ↔ c = mark := by
      simp only [isFlat, Bool.and_eq_true, Bool.not_eq_true'] at hMark
      simp only [isSeparator, Bool.and_eq_true, Bool.not_eq_true',
        List.contains_iff_mem, List.mem_singleton]
      exact ⟨And.right, fun h => ⟨h ▸ hMark.1, h⟩⟩
    rw [ShownFrom, ← ih, splitFrom]
    by_cases hHere : depth = 0 ∧ c = mark
    · rw [hSeparator.mpr hHere.2]
      simp [hHere]
    · have hPasses : ¬(depth == 0 && isSeparator [mark] c) = true := by
        rwa [Bool.and_eq_true, beq_iff_eq, hSeparator]
      rw [if_neg hPasses]
      exact (or_iff_right hHere).symm

theorem containsTopLevel_iff (hMark : isFlat mark = true) (text : Text) :
    containsTopLevel mark text = true ↔ ShownFrom mark 0 '\x00' text := by
  rw [← splitFrom_ne_nil_iff hMark, ← List.length_pos_iff]
  simp [containsTopLevel, splitTopLevel]

/- With no brackets in literals, brackets tell what is exposed. -/
theorem shownFrom_of_exposesFrom
    {state : QuoteState} {text : Text}
    (hLiterals : ∀ c ∈ literalCharsFrom state text, (isOpening c || isClosing c) = false)
    (h : exposesFrom mark state depth previous text = true) :
    ShownFrom mark depth previous text := by
  induction text generalizing state depth previous with
  | nil => cases h
  | cons c _ ih =>
    unfold exposesFrom at h
    unfold literalCharsFrom at hLiterals
    split at h
    · next hCovers =>
      simp only [hCovers, if_true, List.forall_mem_cons, Bool.or_eq_false_iff] at hLiterals
      have hDepth : depthAfter depth previous c = depth := by simp [depthAfter, hLiterals.1]
      refine .inr ?_
      rw [hDepth]
      exact ih (by simpa using hLiterals.2) h
    · next hOutside =>
      simp only [hOutside, Bool.false_eq_true, if_false] at hLiterals
      rw [Bool.or_eq_true, Bool.and_eq_true, beq_iff_eq, beq_iff_eq] at h
      exact h.imp_right (ih hLiterals)

end Text

-----
-- Hidden Marks
-----

/- A text shows a mark nowhere, whatever stands before it. -/
def Hidden (mark : Char) (text : Text) : Prop :=
  ∀ depth previous, ¬Text.ShownFrom mark depth previous text

section Marks

variable {mark : Char} (hMark : mark = '|' ∨ mark = '&') {raw : Text}

theorem hidden_singleton {c : Char} (h : c ≠ mark) :
    Hidden mark [c] := by
  rintro _ _ (⟨_, hSame⟩ | hNone)
  · exact h hSame
  · exact hNone

include hMark

theorem class_of_mark :
    isFlat mark = true ∧ isWordChar mark = false := by
  rcases hMark with rfl | rfl
  · exact ⟨rfl, rfl⟩
  · exact ⟨rfl, rfl⟩

theorem hidden_iff (text : Text) :
    Hidden mark text ↔ containsTopLevel mark text = false := by
  rw [← Bool.not_eq_true, containsTopLevel_iff (class_of_mark hMark).1]
  constructor
  · exact fun h => h 0 '\x00'
  · intro h depth previous hShown
    exact h (hShown.mono (Nat.zero_le _) (by simp))

theorem hidden_isTextClass :
    IsTextClass (Hidden mark) where
  nil := fun _ _ h => h
  append hFront hBack depth previous h := by
    rcases h.of_append with hShown | ⟨later, former, hShown⟩
    · exact hFront depth previous hShown
    · exact hBack later former hShown
  flat _ hUnion hBoth := by
    apply hidden_singleton
    rcases hMark with rfl | rfl
    · exact hUnion
    · exact hBoth

theorem hidden_nativeForm_iff (text : Text) :
    Hidden mark (nativeForm text) ↔ Hidden mark text := by
  rw [hidden_iff hMark, hidden_iff hMark, containsTopLevel_nativeForm (class_of_mark hMark).2]

theorem hidden_of_trim {text : Text} (h : Hidden mark (trim text)) :
    Hidden mark text := by
  rw [← hidden_nativeForm_iff hMark] at h ⊢
  exact (hidden_isTextClass hMark).nativeForm_of_trim h

/- A shape shows a mark only if one of its field types does. -/
theorem hidden_of_shape
    {fields : List (Text × Text)} (hShape : ofText raw = .shape fields)
    (h : ∀ field ∈ fields, Hidden mark field.2) :
    Hidden mark raw := by
  have hClass := hidden_isTextClass hMark
  rcases hClass.inner_of_shape hShape
      (fun field hField =>
        (hidden_nativeForm_iff hMark _).mpr (h field hField)) with
    ⟨inner, hText, hInner⟩
  have hBraces : Hidden mark ['{'] ∧ Hidden mark ['}'] := by
    rcases hMark with rfl | rfl
    · exact ⟨hidden_singleton (by decide), hidden_singleton (by decide)⟩
    · exact ⟨hidden_singleton (by decide), hidden_singleton (by decide)⟩
  apply hidden_of_trim hMark
  rw [hText]
  exact hClass.append hBraces.1
    (hClass.append ((hidden_nativeForm_iff hMark inner).mp hInner) hBraces.2)

theorem exists_shown_of_shape
    {fields : List (Text × Text)} (hShape : ofText raw = .shape fields)
    (hShown : containsTopLevel mark raw = true) :
    ∃ field ∈ fields, containsTopLevel mark field.2 = true := by
  by_contra hNone
  push Not at hNone
  have hHidden : Hidden mark raw := by
    apply hidden_of_shape hMark hShape
    intro field hField
    rw [hidden_iff hMark, ← Bool.not_eq_true]
    exact hNone field hField
  rw [hidden_iff hMark, hShown] at hHidden
  cases hHidden

-----
-- Masked Marks
-----

/- Unless it looks like a literal or a shape, nothing is decided. -/
theorem form_of_shown
    (hShown : containsTopLevel mark raw = true) (hQuoted : isQuoted (trim raw) = false)
    (hBraced : Shape.isBraced (trim raw) = false) :
    ofText raw = .undecided := by
  rcases class_of_mark hMark with ⟨_, hWord⟩
  have hTrim : containsTopLevel mark (trim raw) = true := by
    by_contra hNone
    rw [Bool.not_eq_true, ← hidden_iff hMark] at hNone
    have hHidden := hidden_of_trim hMark hNone
    rw [hidden_iff hMark, hShown] at hHidden
    cases hHidden
  have hMem : mark ∈ trim raw := by
    by_contra hNone
    rw [containsTopLevel_of_not_mem hNone] at hTrim
    cases hTrim
  have hNumeral : isNumeral (trim raw) = false := by
    rw [← Bool.not_eq_true]
    intro hNumeral
    have hOther := (closed_of_isNumeral hNumeral).unmarked mark hMem
    rcases hMark with rfl | rfl
    · exact hOther.1 rfl
    · exact hOther.2.1 rfl
  have hEmpty : (trim raw).isEmpty = false := by simpa using List.ne_nil_of_mem hMem
  have hUndecidable : isUndecidable (nativeForm (trim raw)) = true := by
    rw [isUndecidable_nativeForm hMem hWord]
    unfold isUndecidable
    rcases hMark with rfl | rfl
    · simp [hTrim]
    · simp [hTrim]
  unfold ofText ofTrimmed
  simp only [hEmpty, hQuoted, hBraced, hNumeral, Bool.false_eq_true, if_false]
  exact ofNative_of_isUndecidable ((mem_nativeForm_iff hWord _).mpr hMem) hWord hUndecidable

omit hMark in
variable (mark) in
/-
  A text that starts and ends with one quote, or a shape that
  shows a mark in such a text, the type of one of its fields.
-/
inductive Masked : Text → Prop
  | quoted {raw : Text} (hQuoted : Spelling.isQuoted (trim raw) = true) :
      Masked raw
  | member
      {raw : Text} {fields : List (Text × Text)} {field : Text × Text}
      (hShape : TypeForm.ofText raw = .shape fields) (hField : field ∈ fields)
      (hShown : containsTopLevel mark field.2 = true) (hMember : Masked field.2) :
      Masked raw

omit hMark in
theorem Masked.not_unquoted {raw : Text} (h : Masked mark raw) :
    ¬raw.Unquoted := by
  induction h with
  | quoted hQuoted =>
    intro hNone
    rw [(hNone.of_subset fun c hMem => (trim_sublist _).subset hMem).isQuoted] at hQuoted
    cases hQuoted
  | member hShape hField _ _ ih =>
    intro hNone
    apply ih
    apply hNone.of_mem_parts
    rw [hShape]
    exact List.mem_map_of_mem hField

/-
  If a text that shows a mark is decided, it is masked. By
  induction on the text: field types have fewer marks.
-/
theorem masked_of_outcome
    {raw : Text} {table : TypeTable} {result : TypeName × TypeTable}
    (hShown : containsTopLevel mark raw = true)
    (h : outcome (TypeTable.canonicalize raw) table = some result) :
    Masked mark raw := by
  induction hCount : raw.markCount using Nat.strong_induction_on generalizing raw table result with
  | _ count ih =>
    by_cases hQuoted : isQuoted (trim raw) = true
    · exact .quoted hQuoted
    by_cases hBraced : Shape.isBraced (trim raw) = true
    · rcases shape_or_malformed hBraced with ⟨_, hForm⟩ | ⟨_, hForm⟩
      · rcases exists_shown_of_shape hMark hForm hShown with ⟨field, hField, hFieldShown⟩
        have hAlways : KeptByInterning fun _ => True := .of_push fun _ h => h
        rcases exists_outcome_of_shape hAlways hForm trivial h field hField with ⟨_, _, _, hDecided⟩
        have hLt : field.2.markCount < count := by
          rw [← hCount]
          apply markCount_lt_of_mem_parts
          rw [hForm]
          exact List.mem_map_of_mem hField
        exact .member hForm hField hFieldShown (ih _ hLt hFieldShown hDecided rfl)
      · unfold TypeTable.canonicalize at h
        rw [TypeTerm.ofText_eq_term, hForm] at h
        cases h
    · have hForm :=
        form_of_shown hMark hShown (Bool.eq_false_of_not_eq_true hQuoted)
          (Bool.eq_false_of_not_eq_true hBraced)
      rw [outcome_canonicalize_of_undecided hForm] at h
      cases h

end Marks

/- Two quotes are enough, whatever stands between them. -/
theorem canonicalize_of_isQuoted
    {raw : Text} (hQuoted : isQuoted (trim raw) = true) (table : TypeTable) :
    TypeTable.canonicalize raw table = .ok TypeName.string table := by
  have hEmpty : (trim raw).isEmpty = false := by
    cases hText : trim raw with
    | nil =>
      rw [hText] at hQuoted
      cases hQuoted
    | cons => rfl
  have hForm : ofText raw = .string := by
    unfold ofText ofTrimmed
    simp only [hEmpty, hQuoted, Bool.false_eq_true, if_false, if_true]
  unfold TypeTable.canonicalize
  rw [TypeTerm.ofText_eq_term, hForm]
  rfl

/-
  With no brackets in its literals, a text that exposes a
  mark is rejected in all tables, unless it is masked. Texts
  without quotes never are. A text that starts and ends with
  one quote is a string, exposed marks or not.
-/
theorem exposed_rejected_unless_masked
    {mark : Char} {raw : Text} (hMark : mark = '|' ∨ mark = '&')
    (hExposed : raw.exposes mark = true)
    (hLiterals : ∀ c ∈ raw.literalChars, (Text.isOpening c || Text.isClosing c) = false)
    (table : TypeTable) :
    (Masked mark raw ∨ ∃ error after, TypeTable.canonicalize raw table = .error error after) ∧
      (raw.Unquoted → ¬Masked mark raw) ∧
      (Spelling.isQuoted (Text.trim raw) = true →
        TypeTable.canonicalize raw table = .ok TypeName.string table) := by
  have hShown : Text.containsTopLevel mark raw = true :=
    (Text.containsTopLevel_iff (class_of_mark hMark).1 raw).mpr
      (Text.shownFrom_of_exposesFrom hLiterals hExposed)
  refine ⟨?_, fun hNone hMasked => hMasked.not_unquoted hNone,
    fun hQuoted => canonicalize_of_isQuoted hQuoted table⟩
  cases hRun : TypeTable.canonicalize raw table with
  | error error after => exact Or.inr ⟨error, after, rfl⟩
  | ok =>
    have hDecided := outcome_eq_some_iff.mpr hRun
    exact Or.inl (masked_of_outcome hMark hShown hDecided)

/- A union of a shape and an array, without quotes. -/
theorem union_of_shape_and_array_rejected :
    ∃ error after,
      TypeTable.canonicalize "\x7b x: number \x7d | Array<i32>" TypeTable.empty =
        .error error after := by
  have hExposed : Text.exposes '|' "\x7b x: number \x7d | Array<i32>" = true := by decide +kernel
  have hLiterals : Text.literalChars "\x7b x: number \x7d | Array<i32>" = [] := by decide +kernel
  have hResult :=
    exposed_rejected_unless_masked (Or.inl rfl) hExposed
      (by rw [hLiterals]; exact List.forall_mem_nil _)
      TypeTable.empty
  exact hResult.1.resolve_left (hResult.2.1 (by decide +kernel))

/-
  Two literals mask the mark between them, the outer braces
  of two shapes make one shape of them, and brackets in
  literals hide a mark. All three unions are decided.
-/
theorem unions_of_literals_decided :
    Text.exposes '|' "'a' | 'b'" = true ∧
      TypeTable.canonicalize "'a' | 'b'" TypeTable.empty = .ok TypeName.string TypeTable.empty ∧
      Text.exposes '|' "\x7b x: 'a' \x7d | \x7b y: 'b' \x7d" = true ∧
      TypeTable.canonicalize "\x7b x: 'a' \x7d | \x7b y: 'b' \x7d" TypeTable.empty =
        .ok ⟨"anon_struct_0"⟩
          ⟨⟨[⟨"anon_struct_0", [("x", TypeName.string)], .synthesized, false⟩]⟩, []⟩ ∧
      Text.exposes '|' "Array<'<'> | Array<'>'>" = true ∧
      TypeTable.canonicalize "Array<'<'> | Array<'>'>" TypeTable.empty =
        .ok (TypeName.arrayOf TypeName.string) TypeTable.empty :=
  ⟨by decide +kernel, outcome_eq_some_iff.mp (by decide +kernel), by decide +kernel,
    outcome_eq_some_iff.mp (by decide +kernel),
    by decide +kernel,
    outcome_eq_some_iff.mp (by decide +kernel)⟩

end ScriptLowering
