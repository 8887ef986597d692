import ScriptLowering.Proofs.CastOperands

/-
  Integer literals: digits of a base behind its mark, with
  separators between digits. They are copied into C++ with
  other separators, and there they are read as the same
  number, except that C++ has no mark for base eight. The
  radix of a conversion goes by the value of its literal.

  Key theorems include:
    * `integer_literal_read_unless_octal`
    * `radix_judged_by_value`
-/

namespace ScriptLowering

-----
-- Digits
-----

/- A letter as it is, or its capital. -/
def inCase (upper : Bool) (c : Char) : Char :=
  if upper then c.toUpper else c

/- A digit of a base; the case of digits that are letters is free. -/
structure Digit (radix : Nat) where
  value : Fin radix
  upper : Bool
deriving DecidableEq, Repr

def Digit.char {radix : Nat} (digit : Digit radix) : Char :=
  inCase digit.upper (Nat.digitChar digit.value)

/- At least one digit, and where separators stand between digits. -/
inductive Digits (radix : Nat) where
  | last (digit : Digit radix)
  | next (digit : Digit radix) (separated : Bool)
      (rest : Digits radix)
deriving DecidableEq, Repr

namespace Digits

variable {radix : Nat}

def text (separator : Char) : Digits radix → Text
  | last digit => [digit.char]
  | next digit true rest =>
      digit.char :: separator :: rest.text separator
  | next digit false rest => digit.char :: rest.text separator

/- How many numbers can be written with as many digits. -/
def places : Digits radix → Nat
  | last _ => radix
  | next _ _ rest => radix * rest.places

/- A digit counts as often as there are numbers behind it. -/
def value : Digits radix → Nat
  | last digit => digit.value
  | next digit _ rest => digit.value * rest.places + rest.value

/- Whether a zero stands in front of other digits. -/
def hasLeadingZero : Digits radix → Bool
  | last _ => false
  | next digit _ _ => digit.value.val == 0

end Digits

-----
-- Integer Literals
-----

inductive Base where
  | decimal
  | hexadecimal
  | octal
  | binary
deriving DecidableEq, Repr

namespace Base

def radix : Base → Nat
  | decimal => 10
  | hexadecimal => 16
  | octal => 8
  | binary => 2

/- What stands in front of the digits, in either case. -/
def mark (upper : Bool) : Base → Text
  | decimal => []
  | hexadecimal => ['0', inCase upper 'x']
  | octal => ['0', inCase upper 'o']
  | binary => ['0', inCase upper 'b']

theorem radix_le (base : Base) :
    base.radix ≤ 16 := by
  cases base <;> decide

end Base

/-
  An integer literal of the script. Only behind the mark of a
  base may the digits start with a zero.
-/
structure IntegerLiteral where
  base : Base
  upper : Bool
  digits : Digits base.radix
  plain : base = .decimal → digits.hasLeadingZero = false

namespace IntegerLiteral

def text (literal : IntegerLiteral) : Text :=
  literal.base.mark literal.upper ++ literal.digits.text '_'

def value (literal : IntegerLiteral) : Nat :=
  literal.digits.value

end IntegerLiteral

-----
-- Integer Literals In C++
-----

namespace CInteger

/-
  Read digits of a base behind those read so far. A quote may
  stand between two digits only.
-/
def digits? (base value : Nat) (behindDigit : Bool) : Text → Option Nat
  | [] => if behindDigit then some value else none
  | c :: rest =>
      if c = '\'' then
        if behindDigit then digits? base value false rest else none
      else
        match Text.digitValue? c with
        | none => none
        | some digit =>
            if digit < base then
              digits? base (value * base + digit) true rest
            else
              none

/- A literal that starts with a zero is one of another base. -/
def read? : Text → Option Nat
  | '0' :: 'x' :: rest => digits? 16 0 false rest
  | '0' :: 'X' :: rest => digits? 16 0 false rest
  | '0' :: 'b' :: rest => digits? 2 0 false rest
  | '0' :: 'B' :: rest => digits? 2 0 false rest
  | '0' :: rest => digits? 8 0 true rest
  | text => digits? 10 0 false text

end CInteger

-----
-- Reading Digits
-----

namespace Digit

variable {radix : Nat}

/- A digit has its value in either case. -/
theorem digitValue?_char (hRadix : radix ≤ 16) (digit : Digit radix) :
    Text.digitValue? digit.char = some digit.value ∧
      Text.digitValue? digit.char.toLower = some digit.value := by
  have hAll :
      ∀ (upper : Bool) (value : Fin 16),
        Text.digitValue? (inCase upper (Nat.digitChar value)) = some value.val ∧
          Text.digitValue? (inCase upper (Nat.digitChar value)).toLower = some value.val := by
    decide
  exact hAll digit.upper (digit.value.castLE hRadix)

theorem char_ne
    (hRadix : radix ≤ 16) (digit : Digit radix) {c : Char} (h : Text.digitValue? c = none) :
    digit.char ≠ c := by
  rintro rfl
  rw [(digit.digitValue?_char hRadix).1] at h
  cases h

end Digit

namespace Digits

variable {radix : Nat}

/- The digits add their value to what was read before them. -/
theorem value_next (value : Nat) (digit : Digit radix) (separated : Bool) (rest : Digits radix) :
    (value * radix + digit.value) * rest.places + rest.value =
      value * (next digit separated rest).places + (next digit separated rest).value := by
  rw [places, Digits.value, Nat.add_mul, Nat.mul_assoc, Nat.add_assoc]

theorem digits?_text
    (hRadix : radix ≤ 16) (digits : Digits radix) (value : Nat) (behindDigit : Bool) :
    CInteger.digits? radix value behindDigit (digits.text '\'') =
      some (value * digits.places + digits.value) := by
  have hDigit (digit : Digit radix) (rest : Text) (value : Nat) (behindDigit : Bool) :
      CInteger.digits? radix value behindDigit (digit.char :: rest) =
        CInteger.digits? radix (value * radix + digit.value) true
          rest := by
    rw [CInteger.digits?, if_neg (digit.char_ne hRadix (by decide)),
      (digit.digitValue?_char hRadix).1]
    exact if_pos digit.value.isLt
  induction digits generalizing value behindDigit with
  | last digit => exact hDigit digit [] value behindDigit
  | next _ separated rest ih =>
    cases separated with
    | false => rw [text, hDigit, ih, value_next]
    | true =>
      have hQuote (value : Nat) (rest : Text) :
          CInteger.digits? radix value true ('\'' :: rest) =
            CInteger.digits? radix value false rest :=
        rfl
      rw [text, hDigit, hQuote, ih, value_next]

/- The digits without separators and in lower case. -/
def lower (digits : Digits radix) : Text :=
  ((digits.text '_').filter (· != '_')).map Char.toLower

theorem lower_next
    (hRadix : radix ≤ 16) (digit : Digit radix) (separated : Bool) (rest : Digits radix) :
    (next digit separated rest).lower = digit.char.toLower :: rest.lower := by
  have hDigit : (digit.char != '_') = true := bne_iff_ne.mpr (digit.char_ne hRadix (by decide))
  cases separated <;> simp [lower, text, hDigit]

theorem lower_last (hRadix : radix ≤ 16) (digit : Digit radix) :
    (last digit).lower = [digit.char.toLower] := by
  have hDigit : (digit.char != '_') = true := bne_iff_ne.mpr (digit.char_ne hRadix (by decide))
  simp [lower, text, hDigit]

theorem readDigits?_lower (hRadix : radix ≤ 16) (digits : Digits radix) (value : Nat) :
    Text.readDigits? radix value digits.lower = some (value * digits.places + digits.value) := by
  have hDigit (digit : Digit radix) (rest : Text) (value : Nat) :
      Text.readDigits? radix value (digit.char.toLower :: rest) =
        Text.readDigits? radix (value * radix + digit.value) rest := by
    rw [Text.readDigits?, (digit.digitValue?_char hRadix).2]
    exact if_pos digit.value.isLt
  induction digits generalizing value with
  | last digit =>
    rw [lower_last hRadix]
    exact hDigit digit [] value
  | next _ _ _ ih => rw [lower_next hRadix, hDigit, ih, value_next]

theorem exists_lower (hRadix : radix ≤ 16) (digits : Digits radix) :
    ∃ (digit : Digit radix) (rest : Text), digits.lower = digit.char.toLower :: rest := by
  cases digits with
  | last digit => exact ⟨digit, _, lower_last hRadix digit⟩
  | next digit separated rest => exact ⟨digit, _, lower_next hRadix digit separated rest⟩

end Digits

-----
-- Literals Written In C++
-----

/- Digits get other separators. -/
theorem number_text {radix : Nat} (hRadix : radix ≤ 16) (digits : Digits radix) :
    Literal.number (digits.text '_') = digits.text '\'' := by
  have hDigit (digit : Digit radix) (rest : Text) :
      Literal.number (digit.char :: rest) = digit.char :: Literal.number rest :=
    congrArg (· :: Literal.number rest) (if_neg (digit.char_ne hRadix (by decide)))
  induction digits with
  | last digit => exact hDigit digit []
  | next _ separated rest ih =>
    cases separated with
    | false => rw [Digits.text, hDigit, ih, Digits.text]
    | true =>
      have hSeparator (rest : Text) :
          Literal.number ('_' :: rest) = '\'' :: Literal.number rest :=
        rfl
      rw [Digits.text, hDigit, hSeparator, ih, Digits.text]

/- Decimal digits are read as such, unless a zero is in front. -/
theorem read?_decimal (digits : Digits 10) (hPlain : digits.hasLeadingZero = false) :
    CInteger.read? (digits.text '\'') = some digits.value := by
  have hRead := digits.digits?_text (by decide) 0 false
  rw [Nat.zero_mul, Nat.zero_add] at hRead
  have hZero :
      ∀ (upper : Bool) (value : Fin 10),
        inCase upper (Nat.digitChar value) = '0' → value.val = 0 := by
    decide
  have hOther (c : Char) (rest : Text) (h : c ≠ '0') :
      CInteger.read? (c :: rest) = CInteger.digits? 10 0 false (c :: rest) := by
    rw [CInteger.read?]
    all_goals
      intro _ hSame
      exact h (List.cons.inj hSame).1
  cases digits with
  | last digit =>
    rcases digit with ⟨value, upper⟩
    revert value upper
    decide
  | next digit separated =>
    have hFirst : digit.char ≠ '0' := by
      intro hSame
      have hValue := hZero digit.upper digit.value hSame
      simp [Digits.hasLeadingZero, hValue] at hPlain
    cases separated <;> exact (hOther _ _ hFirst).trans hRead

/-
  An integer literal is copied as it is. In C++ it is a
  literal of the same number, unless it is one of base eight,
  for then it is no literal.
-/
theorem integer_literal_read_unless_octal
    (literal : IntegerLiteral) (site : Site) (context : ValueContext) (node : Node)
    (state : LowerState) :
    ∃ lowered,
      lowerExpr site context (.number node literal.text) state = .ok lowered state ∧
        CInteger.read? lowered.text =
          if literal.base = .octal then
            none
          else
            some literal.value := by
  refine ⟨.number (Literal.number literal.text), rfl, ?_⟩
  rcases literal with ⟨base, upper, digits, hPlain⟩
  have hText := number_text base.radix_le digits
  have hRead := digits.digits?_text base.radix_le 0 false
  rw [Nat.zero_mul, Nat.zero_add] at hRead
  unfold IntegerLiteral.text IntegerLiteral.value Literal.number
  rw [List.map_append]
  change CInteger.read? (_ ++ Literal.number (digits.text '_')) = _
  rw [hText]
  cases base with
  | decimal => exact read?_decimal digits (hPlain rfl)
  | hexadecimal | binary => cases upper <;> exact hRead
  | octal => cases upper <;> rfl

/- Fifteen in base eight. -/
def octalFifteen : IntegerLiteral :=
  ⟨.octal, false, (.next ⟨1, false⟩ false (.last ⟨7, false⟩) : Digits 8), nofun⟩

theorem octalFifteen_not_read :
    octalFifteen.text = "0o17" ∧ octalFifteen.value = 15 ∧
      ∃ lowered,
        lowerExpr bareSite ValueContext.plain
            (.number plainNode octalFifteen.text) LowerState.start =
          .ok lowered LowerState.start ∧
        CInteger.read? lowered.text = none :=
  ⟨by decide, by decide, _, rfl, by decide⟩

-----
-- Radixes
-----

namespace IntegerLiteral

/- No decimal digit is the letter of a base. -/
theorem literalBase_lower (digits : Digits 10) :
    literalBase digits.lower = (10, digits.lower) := by
  have hRadix : 10 ≤ 16 := by decide
  have hLetter :
      ∀ (upper : Bool) (value : Fin 10),
        (inCase upper (Nat.digitChar value)).toLower ∉ ['x', 'o', 'b'] := by
    decide
  cases digits with
  | last =>
    rw [Digits.lower_last hRadix, literalBase]
    all_goals
      intro _ hSame
      cases (List.cons.inj hSame).2
  | next _ _ rest =>
    rcases rest.exists_lower hRadix with ⟨second, _, hRest⟩
    have hSecond := hLetter second.upper second.value
    rw [Digits.lower_next hRadix, hRest, literalBase]
    all_goals
      intro _ hSame
      apply hSecond
      rw [← Digit.char, (List.cons.inj (List.cons.inj hSame).2).1]
      decide

theorem literalBase_text (literal : IntegerLiteral) :
    literalBase ((literal.text.filter (· != '_')).map Char.toLower) =
      (literal.base.radix, literal.digits.lower) := by
  rcases literal with ⟨base, upper, digits, _⟩
  unfold text
  rw [List.filter_append, List.map_append]
  cases base with
  | decimal => exact literalBase_lower digits
  | _ => cases upper <;> rfl

/- The value of a literal is read if it has 32 bits at most. -/
theorem literalValue?_text (literal : IntegerLiteral) :
    literalValue? literal.text =
      if literal.value < UInt32.size then
        some literal.value
      else
        none := by
  have hRadix := literal.base.radix_le
  have hRead := literal.digits.readDigits?_lower hRadix 0
  rcases literal.digits.exists_lower hRadix with ⟨digit, _, hLower⟩
  have hPlus : digit.char.toLower ≠ '+' := by
    intro hSame
    have hValue := (digit.digitValue?_char hRadix).2
    rw [hSame] at hValue
    cases hValue
  unfold literalValue?
  simp only [literalBase_text]
  rw [Nat.zero_mul, Nat.zero_add, hLower] at hRead
  rw [hLower]
  unfold Text.readUnsigned?
  split
  · next hSame => exact absurd (List.cons.inj hSame).1 hPlus
  · show Option.filter _ (Text.readDigits? _ 0 _) = _
    rw [hRead]
    exact if_congr decide_eq_true_iff rfl rfl

end IntegerLiteral

/- An expression inside of parentheses. -/
def enclosed (nodes : List Node) (expr : Expr) : Expr :=
  nodes.foldr Expr.paren expr

theorem unparenthesized_enclosed (nodes : List Node) (expr : Expr) :
    (enclosed nodes expr).unparenthesized = expr.unparenthesized := by
  induction nodes with
  | nil => rfl
  | cons _ _ ih => exact ih

theorem radixOf_literal (literal : IntegerLiteral) (nodes : List Node) (node : Node) :
    radixOf [enclosed nodes (.number node literal.text)] =
      if literal.value ∈ [2, 8, 10, 16] then
        .ok (.literal literal.value)
      else
        .error (.unsupportedRadix literal.text) := by
  have hSupported : Native.isSupportedRadix literal.value = true ↔ literal.value ∈ [2, 8, 10, 16] :=
    List.contains_iff_mem
  have hSmall : ∀ radix ∈ [2, 8, 10, 16], radix < UInt32.size := by decide
  simp only [radixOf, unparenthesized_enclosed, Expr.unparenthesized, literal.literalValue?_text]
  by_cases hRadix : literal.value ∈ [2, 8, 10, 16]
  · rw [if_pos (hSmall _ hRadix), if_pos hRadix]
    exact if_pos (hSupported.mpr hRadix)
  · rw [if_neg hRadix]
    split
    · next hValue =>
      split at hValue
      · cases hValue
        exact if_neg (mt hSupported.mp hRadix)
      · cases hValue
    · rfl

/-
  The radix of a conversion is judged by the value of its
  literal, however this is spelled: a supported radix is
  taken, and all others are refused.
-/
theorem radix_judged_by_value
    (literal : IntegerLiteral) (parens : List Node) (number call access : Node)
    (typeArgs : List TypeText) {types : NodeTypes} {scope : ScopeChain} {table last : TypeTable}
    {receiver : Expr} {type : TypeName} (hType : receiver.type types scope table = .ok type last)
    (hNumeric : type.isNumeric = true) :
    (Expr.call call (.member access receiver "toString") typeArgs
        [enclosed parens (.number number literal.text)]).intrinsic?
        types scope table =
      if literal.value ∈ [2, 8, 10, 16] then
        .ok
          (some
            (.numberToString receiver (.literal literal.value)
              (some (enclosed parens (.number number literal.text)))))
          last
      else
        .error (.unsupportedRadix literal.text) last := by
  have hRadix := radixOf_literal literal parens number
  have hKind :
      callKind types scope (.member access receiver "toString")
          [enclosed parens (.number number literal.text)] table =
        conversionKind [enclosed parens (.number number literal.text)] type last := by
    show EStateM.bind (EStateM.adaptExcept _ _) _ table = _
    simp only [EStateM.bind, EStateM.adaptExcept, hType]
  show EStateM.bind (callKind _ _ _ _) _ table = _
  simp only [EStateM.bind, hKind, conversionKind, hNumeric, hRadix, if_true]
  by_cases hValue : literal.value ∈ [2, 8, 10, 16]
  · simp only [if_pos hValue]
    rfl
  · simp only [if_neg hValue]
    rfl

/- Sixteen with a capital mark, a leading zero and a separator. -/
def hexSixteen : IntegerLiteral :=
  ⟨.hexadecimal, true,
    (.next ⟨0, false⟩ true (.next ⟨1, false⟩ false (.last ⟨0, false⟩)) : Digits 16),
    nofun⟩

theorem hexSixteen_judged_by_value :
    hexSixteen.text = "0X0_10" ∧
      ∃ argument,
        (Expr.call plainNode (.member plainNode (.ident plainNode "x") "toString") []
            [argument]).intrinsic?
            NodeTypes.empty ⟨[], [("x", ⟨⟨"u16"⟩, true, none⟩)]⟩
            TypeTable.empty =
          .ok (some (.numberToString (.ident plainNode "x") (.literal 16) (some argument)))
            TypeTable.empty := by
  refine ⟨by decide, enclosed [plainNode, plainNode] (.number plainNode hexSixteen.text), ?_⟩
  exact (radix_judged_by_value hexSixteen _ _ _ _ [] rfl (by decide)).trans (if_pos (by decide))

end ScriptLowering
