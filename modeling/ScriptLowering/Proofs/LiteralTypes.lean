import ScriptLowering.Proofs.ClosedSpellings
import ScriptLowering.Proofs.NumericLiterals

/-
  The types of numeric literals. A literal type is known by
  its first digit and by the characters behind it, and it is
  an integer type unless there is a point. The sign of an
  exponent is not among these characters, so a literal with
  one is taken for a name, and only an alias can decide it.

  Key theorems include:
    * `NumericLiteral.form_text`
    * `literal_type_decided_unless_signed_exponent`
-/

namespace ScriptLowering

open List Spelling TypeForm

-----
-- Numeric Literals
-----

inductive Sign where
  | plus
  | minus
deriving DecidableEq, Repr

def Sign.char : Sign → Char
  | plus => '+'
  | minus => '-'

structure Exponent where
  upper : Bool
  sign? : Option Sign
  digits : Digits 10

def Exponent.text (exponent : Exponent) : Text :=
  inCase exponent.upper 'e' ::
    ((exponent.sign?.map Sign.char).toList ++ exponent.digits.text '_')

/- A point, with digits behind it or none. -/
def fractionText (digits? : Option (Digits 10)) : Text :=
  '.' :: (digits?.map (Digits.text '_')).getD []

/- A number without a sign in front. -/
inductive Numeral where
  | integer (literal : IntegerLiteral)
  | decimal (whole : Digits 10)
      (fraction? : Option (Option (Digits 10)))
      (exponent? : Option Exponent)

namespace Numeral

def text : Numeral → Text
  | integer literal => literal.text
  | decimal whole fraction? exponent? =>
      whole.text '_' ++ ((fraction?.map fractionText).getD [] ++
        (exponent?.map Exponent.text).getD [])

/- The sign of the exponent, if it has one. -/
def exponentSign? : Numeral → Option Sign
  | integer _ => none
  | decimal _ _ exponent? => exponent?.bind Exponent.sign?

end Numeral

structure NumericLiteral where
  negative : Bool
  numeral : Numeral

def NumericLiteral.text (literal : NumericLiteral) : Text :=
  if literal.negative then
    '-' :: literal.numeral.text
  else
    literal.numeral.text

-----
-- Characters Of Literals
-----

theorem Digits.forall_mem_text
    {radix : Nat} {separator : Char} {p : Char → Bool} (hSeparator : p separator = true)
    (hDigit : ∀ digit : Digit radix, p digit.char = true) (digits : Digits radix) :
    ∀ c ∈ digits.text separator, p c = true := by
  induction digits with
  | last digit => exact forall_mem_singleton.mpr (hDigit digit)
  | next digit separated _ ih =>
    cases separated with
    | false => exact forall_mem_cons.mpr ⟨hDigit digit, ih⟩
    | true => exact forall_mem_cons.mpr ⟨hDigit digit, forall_mem_cons.mpr ⟨hSeparator, ih⟩⟩

theorem isDigit_digit (digit : Digit 10) :
    digit.char.isDigit = true := by
  have hAll :
      ∀ (upper : Bool) (value : Fin 10), (inCase upper (Nat.digitChar value)).isDigit = true := by
    decide
  exact hAll digit.upper digit.value

/- The characters that are looked for in a literal type. -/
def isNumeralChar (c : Char) : Bool :=
  c.isAlphanum || c == '.' || c == '_'

/- The characters of decimal literals. -/
def isDecimalChar (c : Char) : Bool :=
  c.isDigit || ['_', 'e', 'E', '.', '+', '-'].contains c

namespace Numeral

theorem exists_first (numeral : Numeral) :
    ∃ c rest, numeral.text = c :: rest ∧ c.isDigit = true := by
  have hDigits (digits : Digits 10) (more : Text) :
      ∃ c rest, digits.text '_' ++ more = c :: rest ∧ c.isDigit = true := by
    rcases digits with digit | ⟨digit, _ | _, rest⟩ <;> exact ⟨_, _, rfl, isDigit_digit digit⟩
  cases numeral with
  | integer literal =>
    rcases literal with ⟨base, _, digits, _⟩
    cases base with
    | decimal =>
      rcases hDigits digits [] with ⟨c, rest, hText, hDigit⟩
      rw [append_nil] at hText
      exact ⟨c, rest, hText, hDigit⟩
    | _ => exact ⟨'0', _, rfl, rfl⟩
  | decimal whole => exact hDigits whole _

/- A decimal literal is made of digits, marks and the sign. -/
theorem forall_mem_decimal
    {p : Char → Bool} {whole : Digits 10} {fraction? : Option (Option (Digits 10))}
    {exponent? : Option Exponent} (hMarks : ['_', '.', 'e', 'E'].all p = true)
    (hDigit : ∀ digit : Digit 10, p digit.char = true)
    (hSign : ∀ sign ∈ exponent?.bind Exponent.sign?, p sign.char = true) :
    ∀ c ∈ (decimal whole fraction? exponent?).text, p c = true := by
  simp only [all_cons, all_nil, Bool.and_true, Bool.and_eq_true] at hMarks
  rcases hMarks with ⟨hSeparator, hPoint, _, _⟩
  have hDigits := Digits.forall_mem_text hSeparator hDigit
  refine forall_mem_append.mpr ⟨hDigits whole, forall_mem_append.mpr ⟨?_, ?_⟩⟩
  · rcases fraction? with _ | _ | digits
    · exact forall_mem_nil _
    · exact forall_mem_singleton.mpr hPoint
    · exact forall_mem_cons.mpr ⟨hPoint, hDigits digits⟩
  · rcases exponent? with _ | ⟨upper, sign?, digits⟩
    · exact forall_mem_nil _
    · refine forall_mem_cons.mpr ⟨by cases upper <;> assumption, ?_⟩
      cases sign? with
      | none => exact hDigits digits
      | some sign => exact forall_mem_cons.mpr ⟨hSign sign rfl, hDigits digits⟩

/- The same for literals of any base. -/
theorem forall_mem_text
    {p : Char → Bool} {numeral : Numeral}
    (hMarks : (['_', '.', 'e', 'E'] ++ ['0', 'x', 'X', 'o', 'O', 'b', 'B']).all p = true)
    (hDigit : ∀ (upper : Bool) (value : Fin 16), p (inCase upper (Nat.digitChar value)) = true)
    (hSign : ∀ sign ∈ numeral.exponentSign?, p sign.char = true) :
    ∀ c ∈ numeral.text, p c = true := by
  have hMarks := all_eq_true.mp hMarks
  have hAny {radix : Nat} (hRadix : radix ≤ 16) (digit : Digit radix) : p digit.char = true :=
    hDigit digit.upper (digit.value.castLE hRadix)
  cases numeral with
  | integer literal =>
    have hMark (base : Base) (upper : Bool) :
        base.mark upper ⊆ ['0', 'x', 'X', 'o', 'O', 'b', 'B'] := by
      cases base <;> cases upper <;> simp [Base.mark, inCase]
    exact forall_mem_append.mpr
      ⟨fun c hMem => hMarks c (mem_append_right _ (hMark _ _ hMem)),
        Digits.forall_mem_text (hMarks '_' (by decide)) (hAny literal.base.radix_le) literal.digits⟩
  | decimal =>
    refine forall_mem_decimal ?_ (hAny (by decide)) hSign
    exact all_eq_true.mpr fun c hMem => hMarks c (mem_append_left _ hMem)

theorem forall_isDecimalChar
    {numeral : Numeral} {sign : Sign} (h : numeral.exponentSign? = some sign) :
    sign.char ∈ numeral.text ∧ ∀ c ∈ numeral.text, isDecimalChar c = true := by
  cases numeral with
  | integer => cases h
  | decimal _ _ exponent? =>
    refine ⟨?_, forall_mem_decimal rfl ?_ ?_⟩
    · rcases exponent? with _ | ⟨_, sign?, _⟩
      · cases h
      · cases (show sign? = some sign from h)
        simp [text, Exponent.text]
    · intro digit
      rw [isDecimalChar, isDigit_digit]
      rfl
    · intro sign _
      cases sign <;> rfl

end Numeral

-----
-- Forms Of Literals
-----

section Forms

variable {text : Text}

/- No host word is made of the characters of decimals. -/
theorem nativeForm_of_decimal (h : ∀ c ∈ text, isDecimalChar c = true) :
    nativeForm text = text := by
  have hHost : ∀ pair ∈ hostPairs, pair.1.all isDecimalChar = false := by decide
  induction text using Text.words_induction with
  | nil => rfl
  | mark _ _ hMark ih => rw [nativeForm_cons_mark hMark, ih (forall_mem_cons.mp h).2]
  | word run _ hRun hRest ih =>
    rcases forall_mem_append.mp h with ⟨hWord, hLater⟩
    rw [nativeForm_word_append hRun hRest, ih hLater]
    rcases nativeWord_cases run with hSame | hPair
    · rw [hSame]
    · have hAll := hHost _ hPair
      rw [all_eq_true.mpr hWord] at hAll
      cases hAll

/- Decimal characters with a sign among them are taken for a name. -/
theorem ofNative_of_decimal
    {sign : Sign} (h : ∀ c ∈ text, isDecimalChar c = true) (hSign : sign.char ∈ text) :
    ofNative text = .named text := by
  have hOther : ∀ c, isDecimalChar c = false → c ∉ text := by
    intro c hChar hMem
    rw [h c hMem] at hChar
    cases hChar
  have hMark : Text.isWordChar sign.char = false := by cases sign <;> rfl
  have hParen : (text.head? == some '(') = false := by
    rw [beq_eq_false_iff_ne]
    exact fun hHead => hOther '(' rfl (mem_of_mem_head? hHead)
  have hDecidable : isUndecidable text = false := by
    unfold isUndecidable
    rw [(not_reserved_of_mark hSign hMark).2.2, Text.containsTopLevel_of_not_mem (hOther '|' rfl),
      Text.containsTopLevel_of_not_mem (hOther '&' rfl),
      containsText_arrow_eq_false _, hParen]
    · rfl
    · rintro c hMem rfl
      exact hOther '=' rfl hMem
  have hArray : text.dropEnd? "[]" = none := by
    cases hDrop : text.dropEnd? "[]" with
    | none => rfl
    | some =>
      refine absurd ?_ (hOther ']' rfl)
      rw [Text.dropEnd?_eq_some hDrop]
      exact mem_append_right _ (by decide)
  apply ((ofNative_of_mark hSign hMark hDecidable).2 hArray).2
  apply Application.ofText?_eq_none
  rintro c hMem rfl
  exact hOther '<' rfl hMem

end Forms

namespace NumericLiteral

variable (literal : NumericLiteral)

/- A literal is tight: all its characters can be seen. -/
theorem exists_first :
    ∃ c rest, literal.text = c :: rest ∧ (c.isDigit = true ∨ c = '-') := by
  rcases literal.numeral.exists_first with ⟨c, rest, hText, hDigit⟩
  rcases literal with ⟨negative, _⟩
  cases negative with
  | false => exact ⟨c, rest, hText, .inl hDigit⟩
  | true => exact ⟨'-', _, rfl, .inr rfl⟩

theorem isIdentifier_text :
    literal.text.isIdentifier = false := by
  rcases literal.exists_first with ⟨c, _, hText, hFirst⟩
  rw [hText, Text.isIdentifier]
  cases hStart : Text.isWordStart c with
  | false => rfl
  | true =>
    rcases hFirst with hDigit | rfl
    · rw [isDigit_eq_false_of_isWordStart hStart] at hDigit
      cases hDigit
    · cases hStart

theorem isNumeral_text :
    isNumeral literal.text = literal.numeral.text.all isNumeralChar := by
  rcases literal.numeral.exists_first with ⟨_, _, hText, hDigit⟩
  rcases literal with ⟨negative, numeral⟩
  have hMinus : numeral.text.head? ≠ some '-' := by
    rw [hText]
    rintro ⟨⟩
    cases hDigit
  have hNumeral := isNumeral_of_head? hMinus
  have hHead : numeral.text.head?.any Char.isDigit = true := by
    rw [hText]
    exact hDigit
  cases negative with
  | false => exact hNumeral.trans (by rw [hHead]; rfl)
  | true =>
    show (numeral.text.head?.any Char.isDigit && _) = _
    rw [hHead]
    rfl

theorem isBlank_of_mem_text {c : Char} (h : c ∈ literal.text) :
    Text.isBlank c = false := by
  have hNumeral : ∀ c ∈ literal.numeral.text, (!Text.isBlank c) = true := by
    apply Numeral.forall_mem_text rfl (by decide)
    intro sign _
    cases sign <;> rfl
  rcases literal with ⟨negative, _⟩
  cases negative with
  | false => exact Bool.not_eq_true' _ ▸ hNumeral c h
  | true =>
    rcases mem_cons.mp h with rfl | hMem
    · rfl
    · exact Bool.not_eq_true' _ ▸ hNumeral c hMem

/- Only the sign of an exponent keeps a literal from being one. -/
theorem form_text :
    ofText literal.text =
      if literal.numeral.exponentSign?.isSome then
        .named literal.text
      else
        .numeral (literal.text.contains '.') := by
  rcases literal.exists_first with ⟨c, rest, hText, hFirst⟩
  have hTight : Text.Tight literal.text := by
    have hSome : literal.text ≠ [] := hText ▸ cons_ne_nil c rest
    exact
      ⟨⟨_, head?_eq_some_head hSome, literal.isBlank_of_mem_text (head_mem hSome)⟩,
        ⟨_, getLast?_eq_some_getLast hSome, literal.isBlank_of_mem_text (getLast_mem hSome)⟩⟩
  have hOther (d : Char) (hDigit : d.isDigit = false) (hMinus : d ≠ '-') :
      c ≠ d := by
    rintro rfl
    rcases hFirst with hYes | hYes
    · rw [hDigit] at hYes
      cases hYes
    · exact hMinus hYes
  have hQuoted : isQuoted literal.text = false := by
    simp [isQuoted, hText, hOther '"', hOther '\'', hOther '`']
  have hBraced : Shape.isBraced literal.text = false := by simp [Shape.isBraced, hText, hOther '{']
  have hForm :
      ofText literal.text =
        if isNumeral literal.text then
          .numeral (literal.text.contains '.')
        else
          ofNative (nativeForm literal.text) := by
    unfold ofText ofTrimmed
    rw [Text.trim_eq_self hTight, hQuoted, hBraced]
    rw [hText]
    rfl
  rw [hForm, literal.isNumeral_text]
  cases hSign : literal.numeral.exponentSign? with
  | none =>
    have hAll : ∀ c ∈ literal.numeral.text, isNumeralChar c = true := by
      apply Numeral.forall_mem_text rfl (by decide)
      intro sign hSome
      rw [hSign] at hSome
      cases hSome
    exact if_pos (all_eq_true.mpr hAll)
  | some sign =>
    rcases Numeral.forall_isDecimalChar hSign with ⟨hMem, hAll⟩
    have hNone : literal.numeral.text.all isNumeralChar ≠ true := by
      intro hEvery
      have hChar := all_eq_true.mp hEvery _ hMem
      cases sign <;> cases hChar
    have hDecimal : sign.char ∈ literal.text ∧ ∀ c ∈ literal.text, isDecimalChar c = true := by
      rcases literal with ⟨negative, _⟩
      cases negative with
      | false => exact ⟨hMem, hAll⟩
      | true => exact ⟨mem_cons_of_mem _ hMem, forall_mem_cons.mpr ⟨rfl, hAll⟩⟩
    rw [if_neg hNone, nativeForm_of_decimal hDecimal.2]
    exact ofNative_of_decimal hDecimal.2 hDecimal.1

end NumericLiteral

/-
  In every table, a literal has the type of integers, or that
  of fractions if it has a point. With a signed exponent it
  has a type only if it is the name of an alias.
-/
theorem literal_type_decided_unless_signed_exponent (literal : NumericLiteral) (table : TypeTable) :
    TypeTable.canonicalize literal.text table =
      if literal.numeral.exponentSign?.isSome then
        (table.alias? literal.text).elim (.error (.undecidable literal.text) table)
          fun type => .ok type table
      else
        .ok (TypeName.numeric (if literal.text.contains '.' then .f64 else .i32))
          table := by
  unfold TypeTable.canonicalize
  rw [TypeTerm.ofText_eq_term, literal.form_text]
  cases literal.numeral.exponentSign? with
  | none => rfl
  | some =>
    have hGet : (get : TypeM TypeTable) table = .ok table table := rfl
    show TypeTerm.namedType literal.text literal.text table = (table.alias? literal.text).elim _ _
    simp only [TypeTerm.namedType, Bind.bind, EStateM.bind, hGet, literal.isIdentifier_text]
    cases table.alias? literal.text <;> rfl

/- A small fraction, as scripts print it. -/
def smallFraction : NumericLiteral :=
  ⟨false,
    .decimal (.last ⟨1, false⟩) (some (some (.last ⟨5, false⟩)))
      (some ⟨false, some .minus, .last ⟨7, false⟩⟩)⟩

theorem smallFraction_undecided :
    smallFraction.text = "1.5e-7" ∧
      TypeTable.canonicalize smallFraction.text TypeTable.empty =
        .error (.undecidable smallFraction.text) TypeTable.empty := by
  refine ⟨by decide, ?_⟩
  unfold TypeTable.canonicalize
  rw [TypeTerm.ofText_eq_term, smallFraction.form_text]
  rfl

end ScriptLowering
