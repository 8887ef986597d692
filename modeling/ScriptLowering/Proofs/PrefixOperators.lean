import ScriptLowering.Proofs.CastOperands
import ScriptLowering.Proofs.NativeSpellings

/-
  Signs that meet. An operator in front of another one is read
  as a longer operator if the two are written with one sign.
  The operand of an operator is put in parentheses if it is an
  operator with its operand. One that is asserted to be
  constant is not, though the assertion leaves no text.

  Key theorems include:
    * `front?_lowerExpr`
    * `prefix_operators_fuse_iff`
-/

namespace ScriptLowering

open Text

-----
-- Signs
-----

/- The character, if it is the sign of an operator. -/
def signOf (c : Char) : Option Char :=
  if c = '+' ∨ c = '-' then
    some c
  else
    none

/- What sign a text that is not empty starts with, if any. -/
def Text.front? (text : Text) : Option (Option Char) :=
  text.head?.map signOf

def Text.back? (text : Text) : Option (Option Char) :=
  text.getLast?.map signOf

def Text.isUnsigned (text : Text) : Bool :=
  text.front? == some none

/- The same sign on both sides of the place where two texts meet. -/
def Fuses (before behind : Text) : Prop :=
  ∃ sign, before.back? = some (some sign) ∧ behind.front? = some (some sign)

def UnaryOp.sign? : UnaryOp → Option Char
  | .plus => some '+'
  | .increment => some '+'
  | .minus => some '-'
  | .decrement => some '-'
  | _ => none

/- The sign that an expression is written with in front. -/
def Expr.frontSign? (expr : Expr) : Option Char :=
  match expr.unasserted with
  | .unary _ op _ => op.sign?
  | _ => none

-----
-- Unary Expressions
-----

/- What takes no suffix without parentheses. -/
def Expr.isPrefixed : Expr → Bool
  | .unary .. => true
  | .assertion .. => true
  | _ => false

/- Whether a number, in parentheses or not, has no sign. -/
def Expr.isUnsigned (expr : Expr) : Bool :=
  match expr.unparenthesized with
  | .number _ text => Text.isUnsigned text
  | _ => true

/- What an operator may be written in front of. -/
def Expr.isUnaryLevel : Expr → Bool
  | .ident _ name => Text.isUnsigned name
  | .number _ text => Text.isUnsigned text
  | .bool .. => true
  | .string .. => true
  | .template .. => true
  | .array .. => true
  | .object .. => true
  | .paren _ inner => inner.isUnsigned
  | .member _ inner _ => !inner.isPrefixed && inner.isUnaryLevel
  | .index _ inner _ => !inner.isPrefixed && inner.isUnaryLevel
  | .step _ _ inner => !inner.isPrefixed && inner.isUnaryLevel
  | .call _ callee _ _ => !callee.isPrefixed && callee.isUnaryLevel
  | .assertion _ inner _ => inner.isUnaryLevel
  | .unary _ _ operand => operand.isUnaryLevel
  | _ => false

-----
-- Fronts Of Texts
-----

variable {sign? : Option Char}

theorem Text.front?_append {text : Text} (h : text.front? = some sign?) (rest : Text) :
    front? (text ++ rest) = some sign? := by
  cases text with
  | nil => cases h
  | cons => exact h

theorem front?_number (text : Text) :
    front? (Literal.number text) = text.front? := by
  cases text with
  | nil => rfl
  | cons c =>
    show some (signOf (if c = '_' then '\'' else c)) = some (signOf c)
    split
    · next hSeparator =>
      rw [hSeparator]
      rfl
    · rfl

theorem front?_float?
    {single : Bool} {text literal : Text} (h : Literal.float? single text = some literal)
    (hText : text.front? = some sign?) :
    literal.front? = some sign? := by
  unfold Literal.float? at h
  dsimp only at h
  split at h
  · cases h
  · cases h
    exact front?_append (front?_append ((front?_number text).trans hText) _) _

theorem front?_qualifiedName?
    {scope : ScopeChain} {name emitted : Text} (h : scope.qualifiedName? name = some emitted)
    (hName : name.front? = some none) :
    emitted.front? = some none := by
  rcases Option.map_eq_some_iff.mp h with ⟨_, _, rfl⟩
  split
  · next origin _ =>
    unfold mangleModule
    split
    · exact hName
    · rfl
  · exact hName

theorem signOf_eq_none
    {test : Char → Bool} (hSigns : test '+' = false ∧ test '-' = false) {c : Char}
    (h : test c = true) :
    signOf c = none := by
  unfold signOf
  rw [if_neg]
  rintro (rfl | rfl)
  · exact Bool.false_ne_true (hSigns.1.symm.trans h)
  · exact Bool.false_ne_true (hSigns.2.symm.trans h)

theorem Text.IsWord.front?_eq {word : Text} (h : Text.IsWord word) :
    word.front? = some none := by
  cases word with
  | nil => exact absurd rfl h.1
  | cons =>
    rcases Bool.and_eq_true_iff.mp h.2 with ⟨hChar, _⟩
    exact congrArg some (signOf_eq_none ⟨rfl, rfl⟩ hChar)

/- Behind blanks, a name is not a sign either. -/
theorem front?_of_isIdentifier_trim {text : Text} (h : (trim text).isIdentifier = true) :
    text.front? = some none := by
  have hWord := (Text.IsWord.of_isIdentifier h).front?_eq
  cases text with
  | nil => cases h
  | cons c text =>
    by_cases hBlank : isBlank c = true
    · exact congrArg some (signOf_eq_none ⟨rfl, rfl⟩ hBlank)
    · have hStart : trimStart (c :: text) = c :: text := List.dropWhile_cons_of_neg hBlank
      rcases exists_trimEnd_append (c :: text) with ⟨blanks, _, hText⟩
      rw [trim, hStart] at hWord
      rw [hText]
      exact front?_append hWord blanks

theorem front?_render {type element : TypeName} (h : type.arrayElement? = some element) :
    type.render.front? = some none := by
  have hText : type.text.front? = some none := by
    unfold TypeName.arrayElement? TypeName.argumentOf? at h
    split at h
    · next found arg hRead =>
      rcases Application.exists_of_ofText? hRead with ⟨_, _, hText, hHead, hName, _⟩
      rw [hHead] at hName
      rw [hText]
      exact front?_append (front?_of_isIdentifier_trim hName) _
    · cases h
  unfold TypeName.render
  cases hWords : type.text using words_induction with
  | nil =>
    rw [hWords] at hText
    cases hText
  | mark _ _ hMark =>
    rw [hWords] at hText
    rw [mapWords_cons_mark _ hMark]
    exact hText
  | word _ _ hRun hRest =>
    rw [mapWords_append _ _ hRest, mapWords_word _ hRun]
    apply front?_append
    unfold replaceWord Spelling.targetWord
    split
    · rfl
    · exact hRun.front?_eq

-----
-- Fronts Of Expressions
-----

theorem frontSign?_of_not_isPrefixed {expr : Expr} (h : expr.isPrefixed = false) :
    expr.frontSign? = none := by
  cases expr with
  | unary | assertion => cases h
  | _ => rfl

theorem frontSign?_assertion (node : Node) (inner : Expr) (written : TypeText) :
    (Expr.assertion node inner written).frontSign? =
      if written.isConst then inner.frontSign? else none := by
  rw [Expr.frontSign?, Expr.unasserted]
  by_cases hConst : written.isConst = true
  · rw [if_pos hConst, if_pos hConst, Expr.frontSign?]
  · rw [if_neg hConst, if_neg hConst]

theorem isUnsigned_of_isUnaryLevel {expr : Expr} (h : expr.isUnaryLevel = true) :
    expr.isUnsigned = true := by
  cases expr with
  | number | paren => exact h
  | _ => rfl

theorem front?_floatLiteral?
    {type : TypeName} {inner : Expr} {literal : Text} (h : floatLiteral? type inner = some literal)
    (hUnsigned : inner.isUnsigned = true) :
    literal.front? = some none := by
  unfold floatLiteral? at h
  unfold Expr.isUnsigned at hUnsigned
  split at h
  · next node text kind hInner _ =>
    rw [hInner] at hUnsigned
    split at h
    · exact front?_float? h (eq_of_beq hUnsigned)
    · cases h
  · cases h

theorem UnaryOp.target?_sign {op : UnaryOp} {target : Text} (h : op.target? = some target) :
    target.front? = some op.sign? ∧ target.back? = some op.sign? := by
  cases op <;> cases h <;> exact ⟨rfl, rfl⟩

/- A name that is found is written without a sign. -/
theorem front?_qualified
    (site : Site) (span : Span) {name : Text} (hName : name.front? = some none) :
    Yields (LowerM.qualified site span name) fun emitted => emitted.front? = some none := by
  unfold LowerM.qualified
  refine .skip fun state => ?_
  split
  · next emitted hEmitted =>
    exact .pure (front?_qualifiedName? hEmitted hName)
  · exact .throw

theorem front?_memberAccess
    {object : Target.Expr} (h : object.text.front? = some none) (context : ValueContext)
    (type : TypeName) (property : Text) :
    (memberAccess context type object property).text.front? = some none := by
  unfold memberAccess
  split
  · split
    · rfl
    · split
      · rfl
      · exact front?_append (front?_append h _) _
  · split
    · exact front?_append (front?_append (front?_append h _) _) _
    · exact front?_append (front?_append h _) _

/- What a suffix is written behind starts with no sign. -/
theorem front?_object
    {action : LowerM Target.Expr} {object : Expr}
    (hObject : (!object.isPrefixed && object.isUnaryLevel) = true)
    (h :
      object.isUnaryLevel = true →
        Yields action fun lowered => lowered.text.front? = some object.frontSign?) :
    Yields action fun lowered => lowered.text.front? = some none := by
  rcases Bool.and_eq_true_iff.mp hObject with ⟨hPlain, hLevel⟩
  rw [← frontSign?_of_not_isPrefixed ((Bool.not_eq_true' _).mp hPlain)]
  exact h hLevel

/-
  The text of an expression starts with a sign exactly if the
  expression does, whatever it is built from.
-/
theorem front?_lowerExpr (site : Site) (context : ValueContext) :
    ∀ {expr : Expr}, expr.isUnaryLevel = true →
      Yields (lowerExpr site context expr)
        fun lowered => lowered.text.front? = some expr.frontSign? := by
  intro expr hLevel
  cases expr with
  | ident node =>
    unfold lowerExpr
    apply Preserves.bind (front?_qualified site node.span (eq_of_beq hLevel))
    intro emitted hEmitted
    exact .pure hEmitted
  | number _ text => exact .pure ((front?_number text).trans (eq_of_beq hLevel))
  | bool _ value => cases value <;> exact .pure rfl
  | string => exact .pure rfl
  | template | paren =>
    unfold lowerExpr
    exact .skip fun _ => .pure rfl
  | array =>
    unfold lowerExpr
    refine .skip fun type => ?_
    split
    · exact .throw
    · next element hElement =>
      refine .skip fun _ => .skip fun values => .pure ?_
      cases values with
      | nil => exact front?_append (front?_render hElement) _
      | cons =>
        iterate 6 apply front?_append
        exact front?_render hElement
  | object =>
    unfold lowerExpr
    refine .skip fun fields => .pure ?_
    cases fields <;> rfl
  | member _ _ property =>
    unfold lowerExpr
    refine .skip fun type => ?_
    apply Preserves.bind (front?_object hLevel (front?_lowerExpr site _))
    intro value hValue
    exact .pure (front?_memberAccess hValue context type property)
  | index =>
    unfold lowerExpr
    apply Preserves.bind (front?_object hLevel (front?_lowerExpr site _))
    intro value hValue
    refine .skip fun _ => .pure ?_
    exact front?_append (front?_append (front?_append hValue _) _) _
  | step =>
    unfold lowerExpr
    apply Preserves.bind (front?_object hLevel (front?_lowerExpr site _))
    intro value hValue
    exact .pure (front?_append hValue _)
  | call =>
    unfold lowerExpr
    refine .skip fun kind => ?_
    split
    · exact .skip fun _ => .skip fun _ => .skip fun _ => .pure rfl
    · exact .skip fun _ => .skip fun _ => .pure rfl
    · exact .skip fun _ => .pure rfl
    · exact .skip fun _ => .pure rfl
    · apply Preserves.bind (front?_object hLevel (front?_lowerExpr site _))
      intro value hValue
      refine .skip fun _ => .skip fun _ => .pure ?_
      iterate 4 apply front?_append
      exact hValue
  | assertion =>
    unfold lowerExpr
    rw [frontSign?_assertion]
    split
    · exact front?_lowerExpr site context hLevel
    · refine .skip fun type => ?_
      split
      · next literal hLiteral =>
        exact .pure (front?_floatLiteral? hLiteral (isUnsigned_of_isUnaryLevel hLevel))
      · exact .skip fun _ => .pure rfl
  | unary =>
    unfold lowerExpr
    split
    · exact .throw
    · next target hTarget =>
      exact .skip fun _ => .pure (front?_append (UnaryOp.target?_sign hTarget).1 _)
  | _ => cases hLevel

-----
-- Operators In A Row
-----

/- An operator is covered, unless it is asserted to be constant. -/
theorem front?_wrapIf_eq_some_iff
    {operand : Expr} {value : Target.Expr} {sign : Char}
    (h : value.text.front? = some operand.frontSign?) :
    (wrapIf operand.isUnary value).text.front? = some (some sign) ↔
      ∃ node inner written,
        operand = .assertion node inner written ∧ written.isConst = true ∧
          inner.frontSign? = some sign := by
  have hOther (hSign : operand.frontSign? = none) :
      value.text.front? ≠ some (some sign) := by
    rw [h, hSign]
    intro hSame
    cases hSame
  cases operand with
  | assertion node inner written =>
    show value.text.front? = some (some sign) ↔ _
    rw [h, frontSign?_assertion, Option.some.injEq]
    constructor
    · intro hSign
      split at hSign
      · next hConst => exact ⟨node, inner, written, rfl, hConst, hSign⟩
      · cases hSign
    · rintro ⟨_, _, _, hSame, hConst, hSign⟩
      cases hSame
      rw [if_pos hConst, hSign]
  | unary =>
    refine iff_of_false ?_ ?_
    · intro hSign
      cases hSign
    · rintro ⟨_, _, _, hSame, _⟩
      cases hSame
  | _ =>
    refine iff_of_false (hOther rfl) ?_
    rintro ⟨_, _, _, hSame, _⟩
    cases hSame

/-
  Two operators in a row are read as another one exactly if
  they have one sign and the second is asserted to be constant.
  In any other place the two are kept apart.
-/
theorem prefix_operators_fuse_iff
    {site : Site} {context : ValueContext} {state last : LowerState} {lowered : Target.Expr}
    {node : Node} {op : UnaryOp} {operand : Expr} (hLevel : operand.isUnaryLevel = true)
    (hLower : lowerExpr site context (.unary node op operand) state = .ok lowered last) :
    ∃ target value,
      op.target? = some target ∧ operand.ComesTo site value ∧
        lowered = .unary target (wrapIf operand.isUnary value) ∧
        (Fuses target (wrapIf operand.isUnary value).text ↔
          ∃ sign other inner written,
            op.sign? = some sign ∧ operand = .assertion other inner written ∧
              written.isConst = true ∧
              inner.frontSign? = some sign) := by
  rw [lowerExpr] at hLower
  cases hTarget : op.target? with
  | none =>
    rw [hTarget] at hLower
    cases hLower
  | some target =>
    rw [hTarget] at hLower
    rcases bind_eq_ok hLower with ⟨value, _, hValue, hReturn⟩
    cases hReturn
    refine ⟨target, value, rfl, ⟨state, last, hValue⟩, rfl, ?_⟩
    have hFront := (front?_lowerExpr site _ hLevel).of_ok hValue
    unfold Fuses
    simp only [(UnaryOp.target?_sign hTarget).2, Option.some.injEq,
      front?_wrapIf_eq_some_iff hFront, exists_and_left]

/- Two operators of one sign in a row. -/
def twiceNegated : Expr :=
  .unary plainNode .minus (.unary plainNode .minus (.number plainNode "1"))

/- The second one is put in parentheses. -/
theorem twiceNegated_kept_apart :
    ∃ lowered,
      lowerExpr bareSite ValueContext.plain twiceNegated LowerState.start =
        .ok lowered LowerState.start ∧
      lowered.text = "-(-1)" ∧
      ∃ target value, lowered = .unary target value ∧ ¬ Fuses target value.text := by
  refine ⟨_, rfl, rfl, ?_⟩
  rcases prefix_operators_fuse_iff rfl
      (Eq.refl (lowerExpr bareSite ValueContext.plain twiceNegated LowerState.start)) with
    ⟨target, value, _, _, hLowered, hFuses⟩
  refine ⟨target, _, hLowered, ?_⟩
  rw [hFuses]
  rintro ⟨_, _, _, _, _, hSame, _⟩
  cases hSame

/- The negative of a name, asserted to be constant. -/
def constantNegative : Expr :=
  .assertion plainNode (.unary plainNode .minus (.ident plainNode "a")) ⟨"const", Span.nowhere⟩

/- Behind an operator it is written as a decrement. -/
theorem negative_constant_fuses :
    ∃ text,
      (evaluatingUnit "i32" (.unary plainNode .minus constantNegative)).compile
          LayoutConfig.standard =
        .ok text ∧
      (evaluatingUnit "i32" (.unary plainNode .decrement (.ident plainNode "a"))).compile
          LayoutConfig.standard =
        .ok text ∧
      (Text.containsText "--a;" text && !Text.containsText "-(-a)" text) =
        true :=
  exists_of_sameText (by decide +kernel)

end ScriptLowering
