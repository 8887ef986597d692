import ScriptLowering.Proofs.SupportedConstructs

/-
  What a cast in front of an expression applies to. A cast
  binds closer than an operator with two operands, and less
  close than what is written behind an object. An asserted
  type is written in front of parentheses where these are
  needed; the cast of a pointer is not. Nor is an object that
  starts with a cast put in parentheses. In such places the
  text is that of another tree, in which the cast applies to
  the first operand alone, or to what is behind it as well.

  Key theorems include:
    * `cast_operand_grouped_iff`
    * `cast_receiver_takes_suffix`
-/

namespace ScriptLowering

-----
-- Casts And Suffixes
-----

namespace Target

/- What is written in front of the operand of a cast. -/
inductive Cast where
  | pointer (type : TypeName)
  | asserted (type : TypeName)
  | address

namespace Cast

def text : Cast → Text
  | .pointer type => "(" ++ type.render ++ ")&"
  | .asserted type => "(" ++ type.render ++ ")"
  | .address => "(void*)"

def apply : Cast → Expr → Expr
  | .pointer type => .addressOf type
  | .asserted type => .cast type
  | .address => .address

theorem text_apply (cast : Cast) (operand : Expr) :
    (cast.apply operand).text = cast.text ++ operand.text := by
  cases cast <;> rfl

end Cast

/- What is written behind an object. -/
inductive Suffix where
  | element (index : Expr)
  | field (access : Access) (property : Text)
  | accessor (property : Text)
  | step (op : Text)
  | call (access : Access) (property : Text)
      (typeArgs : List TypeName) (args : List Expr)

def Suffix.text : Suffix → Text
  | .element index => "[" ++ index.text ++ "]"
  | .field access property => access.text ++ property
  | .accessor property => "." ++ property ++ "()"
  | .step op => op
  | .call access property typeArgs args =>
      access.text ++ property ++ typeArgsText typeArgs ++ "(" ++ listText args ++ ")"

def Suffix.behind (object : Expr) : Suffix → Expr
  | .element index => .index object index
  | .field access property => .field object access property
  | .accessor property => .accessor object property
  | .step op => .step object op
  | .call access property typeArgs args =>
      .call (.field object access property) typeArgs args

theorem Suffix.text_behind (suffix : Suffix) (object : Expr) :
    (suffix.behind object).text = object.text ++ suffix.text := by
  cases suffix with
  | element | accessor =>
    show object.text ++ _ ++ _ ++ _ = _ ++ (_ ++ _ ++ _)
    simp only [List.append_assoc]
  | field => exact List.append_assoc _ _ _
  | step => rfl
  | call =>
    show
      object.text ++ _ ++ _ ++ _ ++ _ ++ _ ++ _ =
        _ ++ (_ ++ _ ++ _ ++ _ ++ _ ++ _)
    simp only [List.append_assoc]

/- Whether an operator stands between operands. -/
def Expr.isOperation : Expr → Bool
  | .binary _ _ _ => true
  | .conditional _ _ _ => true
  | _ => false

/- Apply a cast to the first operand only. -/
def Expr.castFirst (cast : Cast) : Expr → Expr
  | .binary left op right => .binary (left.castFirst cast) op right
  | .conditional condition thenExpr elseExpr =>
      .conditional (condition.castFirst cast) thenExpr elseExpr
  | expr => cast.apply expr

/- In front of an operation, a cast applies to its first operand. -/
theorem Expr.text_castFirst (cast : Cast) (expr : Expr) :
    (expr.castFirst cast).text = cast.text ++ expr.text := by
  fun_induction Expr.castFirst cast expr with
  | case1 left _ _ ih | case2 left _ _ ih =>
    show (left.castFirst cast).text ++ _ ++ _ ++ _ ++ _ = _
    rw [ih]
    show _ = _ ++ (left.text ++ _ ++ _ ++ _ ++ _)
    simp only [List.append_assoc]
  | case3 expr => exact cast.text_apply expr

end Target

-----
-- Operands
-----

/- An expression without assertions that state no type. -/
def Expr.unasserted : Expr → Expr
  | .assertion node inner written =>
      if written.isConst then
        inner.unasserted
      else
        .assertion node inner written
  | expr => expr

/- Binary expressions, assignments and conditionals. -/
def Expr.isOperation : Expr → Bool
  | .binary .. => true
  | .conditional .. => true
  | _ => false

/- The operand of a cast: of a pointer, or of an assertion. -/
def Expr.castOperand? : Expr → Option Expr
  | .assertion _ inner written =>
      if written.isConst then
        none
      else
        some inner
  | expr => expr.pointerOperand?

variable {site : Site} {context : ValueContext}
variable {state last : LowerState} {lowered : Target.Expr}

/- A value that an expression comes to in some state. -/
def Expr.ComesTo (site : Site) (expr : Expr) (value : Target.Expr) : Prop :=
  ∃ before after, lowerExpr site ValueContext.plain expr before = .ok value after

theorem Expr.comesTo_lowerExpr (site : Site) (expr : Expr) :
    Yields (lowerExpr site ValueContext.plain expr) (expr.ComesTo site) :=
  .intro fun h => ⟨_, _, h⟩

/- An operation stays one, and `const` goes without a trace. -/
theorem isOperation_of_lowerExpr (site : Site) (context : ValueContext) :
    ∀ {expr : Expr}, expr.unasserted.isOperation = true →
      Yields (lowerExpr site context expr) fun lowered => lowered.isOperation = true
  | .binary node op left right, _ => by
    unfold lowerExpr
    split
    · exact .throw
    · exact .skip fun _ => .skip fun _ => .skip fun _ => .skip fun _ => .pure rfl
  | .conditional node condition thenExpr elseExpr, _ => by
    unfold lowerExpr
    exact .skip fun _ => .skip fun _ => .skip fun _ => .pure rfl
  | .assertion node inner written, hOperation => by
    unfold lowerExpr
    rw [Expr.unasserted] at hOperation
    split
    · next hConst =>
      rw [if_pos hConst] at hOperation
      exact isOperation_of_lowerExpr site context hOperation
    · next hConst =>
      rw [if_neg hConst] at hOperation
      cases hOperation

theorem ne_parenthesized (text : Text) :
    text ≠ "(" ++ text ++ ")" := by
  intro h
  have hLength := congrArg List.length h
  simp only [List.length_append] at hLength
  have hOne : ("(" : Text).length = 1 := rfl
  omega

/- A pointer is lowered to a cast of what its operand comes to. -/
theorem comesTo_of_pointerOperand?
    (site : Site) (context : ValueContext) {expr operand : Expr}
    (h : expr.pointerOperand? = some operand) :
    Yields (lowerExpr site context expr)
      fun lowered =>
        ∃ type value,
          lowered = Target.Cast.apply (.pointer type) value ∧ operand.ComesTo site value := by
  unfold Expr.pointerOperand? at h
  split at h
  · next node callee typeArgs found =>
    have hCallee : callee.isPointerCallee = true := by
      by_contra hOther
      rw [if_neg hOther] at h
      cases h
    rw [if_pos hCallee] at h
    cases h
    unfold lowerExpr
    have hKind : Yields (LowerM.kindOfCall site node.span callee [operand]) (· = .pointer) := by
      apply Yields.intro
      intro state kind last hRun
      change LowerM.onTypes _ _ _ (callKind _ _ _ _) state = _ at hRun
      unfold callKind at hRun
      rw [if_pos hCallee] at hRun
      cases hRun
      rfl
    apply Preserves.bind hKind
    rintro _ rfl
    refine .skip fun type => .skip fun _ => ?_
    apply Preserves.bind (operand.comesTo_lowerExpr site)
    intro value hValue
    exact .pure ⟨type, value, rfl, hValue⟩
  · cases h

theorem castOperand?_cases {expr operand : Expr} (h : expr.castOperand? = some operand) :
    (∃ node written, expr = .assertion node operand written ∧ written.isConst = false) ∨
      expr.pointerOperand? = some operand := by
  unfold Expr.castOperand? at h
  split at h
  · next node inner written =>
    by_cases hConst : written.isConst = true
    · rw [if_pos hConst] at h
      cases h
    · rw [if_neg hConst] at h
      cases h
      exact .inl ⟨node, written, rfl, Bool.eq_false_iff.mpr hConst⟩
  · exact .inr h

theorem floatLiteral?_of_isOperation
    {type : TypeName} {inner : Expr} (h : inner.unasserted.isOperation = true) :
    floatLiteral? type inner = none ∧ inner.isCompound = true := by
  cases inner with
  | binary | conditional | assertion => exact ⟨rfl, rfl⟩
  | _ => cases h

/- An asserted operation is lowered to a cast of parentheses. -/
theorem comesTo_of_assertion
    (site : Site) (context : ValueContext) {node : Node} {inner : Expr} {written : TypeText}
    (hConst : written.isConst = false) (hOperation : inner.unasserted.isOperation = true) :
    Yields (lowerExpr site context (.assertion node inner written))
      fun lowered =>
        ∃ type value,
          lowered = Target.Cast.apply (.asserted type) (.paren value) ∧
            inner.ComesTo site value := by
  unfold lowerExpr
  rw [if_neg (Bool.eq_false_iff.mp hConst)]
  refine .skip fun type => ?_
  rcases @floatLiteral?_of_isOperation type inner hOperation with ⟨hFloat, hCompound⟩
  rw [hFloat, hCompound]
  apply Preserves.bind (inner.comesTo_lowerExpr site)
  intro value hValue
  exact .pure ⟨type, value, rfl, hValue⟩

/-
  An operation that a cast is written in front of is put in
  parentheses exactly if the cast is that of an assertion. In
  front of the operand of a pointer the cast is read as one
  of the first operand.
-/
theorem cast_operand_grouped_iff
    {expr operand : Expr} (hCast : expr.castOperand? = some operand)
    (hOperation : operand.unasserted.isOperation = true)
    (hLower : lowerExpr site context expr state = .ok lowered last) :
    ∃ (type : TypeName) (cast : Target.Cast) (value : Target.Expr),
      operand.ComesTo site value ∧ value.isOperation = true ∧
        cast =
          (if expr.pointerOperand?.isSome then
            .pointer type
          else
            .asserted type) ∧
        cast.text <+: lowered.text ∧
        (lowered.text = cast.text ++ ("(" ++ value.text ++ ")") ↔ expr.pointerOperand? = none) ∧
        (expr.pointerOperand? ≠ none → lowered.text = (value.castFirst cast).text) := by
  rcases castOperand?_cases hCast with ⟨node, written, rfl, hConst⟩ | hPointer
  · rcases (comesTo_of_assertion site context hConst hOperation).of_ok hLower with
      ⟨type, value, rfl, before, after, hValue⟩
    have hText := Target.Cast.text_apply (.asserted type) (.paren value)
    exact
      ⟨type, .asserted type, value, ⟨before, after, hValue⟩,
        (isOperation_of_lowerExpr site _ hOperation).of_ok hValue,
        rfl, hText ▸ List.prefix_append _ _,
        iff_of_true hText rfl, fun hSome => absurd rfl hSome⟩
  · rcases (comesTo_of_pointerOperand? site context hPointer).of_ok hLower with
      ⟨type, value, rfl, before, after, hValue⟩
    have hText := Target.Cast.text_apply (.pointer type) value
    refine
      ⟨type, .pointer type, value, ⟨before, after, hValue⟩,
        (isOperation_of_lowerExpr site _ hOperation).of_ok hValue,
        ?_, hText ▸ List.prefix_append _ _, iff_of_false ?_ ?_,
        fun _ => hText.trans (value.text_castFirst _).symm⟩
    · rw [hPointer]
      rfl
    · intro hGrouped
      exact ne_parenthesized _ (List.append_cancel_left (hText.symm.trans hGrouped))
    · rw [hPointer]
      exact Option.some_ne_none _

/- A unit without statements. -/
def bareSite : Site :=
  ⟨⟨[], none, NodeTypes.empty, []⟩, 0, ⟨"main.ts", [], []⟩, none⟩

/- `1 + 2`, asserted to be constant and to be of type `u8`. -/
def assertedSum : Expr :=
  .assertion plainNode
    (.assertion plainNode (.binary plainNode .plus (.number plainNode "1") (.number plainNode "2"))
      ⟨"const", Span.nowhere⟩)
    ⟨"u8", Span.nowhere⟩

theorem assertedSum_grouped :
    ∃ lowered last,
      lowerExpr bareSite ValueContext.plain assertedSum LowerState.start = .ok lowered last ∧
      lowered.text = "(u8)(1 + 2)" ∧
      ∃ (cast : Target.Cast) (value : Target.Expr),
        value.isOperation = true ∧ lowered.text = cast.text ++ ("(" ++ value.text ++ ")") := by
  have hText :
      ((lowerExpr bareSite ValueContext.plain assertedSum).run'
          LowerState.start).map Target.Expr.text =
        some "(u8)(1 + 2)" := by
    decide +kernel
  unfold EStateM.run' EStateM.run at hText
  cases hLower :
      lowerExpr bareSite ValueContext.plain assertedSum LowerState.start with
  | error error last =>
    rw [hLower] at hText
    cases hText
  | ok lowered last =>
    rw [hLower] at hText
    rcases cast_operand_grouped_iff rfl rfl hLower with
      ⟨_, cast, value, _, hValue, _, _, hGrouped, _⟩
    exact ⟨lowered, last, rfl, Option.some.inj hText, cast, value, hValue, hGrouped.mpr rfl⟩

/- The address of what an expression stands for. -/
def pointerTo (operand : Expr) : Expr :=
  .call plainNode (.ident plainNode Native.pointerConstructor) [] [operand]

/-
  A function with parameters of a type that evaluates an
  expression. What has the node number 1 is of type `u8`.
-/
def evaluatingUnit (type : Text) (value : Expr) : Program :=
  ⟨[⟨"main.ts", [],
      [.function plainNode
        ⟨"main",
          (["a", "b", "c"] : List Text).map fun name =>
            ⟨plainNode, name, some ⟨type, Span.nowhere⟩⟩,
          some ⟨"void", Span.nowhere⟩⟩
        (some [.expr plainNode value])]⟩],
    some 0, NodeTypes.ofList [(1, "u8")], []⟩

/- Two programs have one text, which passes a check. -/
def sameText (first second : Program) (check : Text → Bool) : Bool :=
  match first.compile LayoutConfig.standard,
      second.compile LayoutConfig.standard with
  | .ok text, .ok other => text == other && check text
  | _, _ => false

theorem exists_of_sameText
    {first second : Program} {check : Text → Bool} (h : sameText first second check = true) :
    ∃ text,
      first.compile LayoutConfig.standard = .ok text ∧
        second.compile LayoutConfig.standard = .ok text ∧
        check text = true := by
  unfold sameText at h
  split at h
  · next text other hFirst hSecond =>
    rcases Bool.and_eq_true_iff.mp h with ⟨hSame, hCheck⟩
    rw [← eq_of_beq hSame] at hSecond
    exact ⟨text, hFirst, hSecond, hCheck⟩
  · cases h

def choice (condition : Expr) : Expr :=
  .conditional ⟨1, Span.nowhere⟩ condition (.ident plainNode "a") (.ident plainNode "b")

theorem pointerTo_choice_not_grouped :
    ∃ text,
      (evaluatingUnit "u8" (pointerTo (choice (.ident plainNode "c")))).compile
          LayoutConfig.standard =
        .ok text ∧
      (evaluatingUnit "u8" (choice (pointerTo (.ident plainNode "c")))).compile
          LayoutConfig.standard =
        .ok text ∧
      (Text.containsText "(Pointer<u8>)&c ? a : b;" text &&
        !Text.containsText "(Pointer<u8>)&(c ? a : b)" text) =
        true :=
  exists_of_sameText (by decide +kernel)

-----
-- Objects
-----

/- The object that something is written behind. -/
def Expr.receiver? : Expr → Option Expr
  | .member _ receiver _ => some receiver
  | .index _ receiver _ => some receiver
  | .step _ _ receiver => some receiver
  | .call _ (.member _ receiver _) _ _ => some receiver
  | _ => none

/-
  A pointer construction, or the address that a pointer holds
  by its type in a state: what is lowered to a cast.
-/
def StartsWithCast (site : Site) (state : LowerState) (object : Expr) : Prop :=
  object.pointerOperand?.isSome = true ∨
    ∃ node pointer type types,
      object = .member node pointer Native.addressOf ∧
        pointer.type site.program.types state.scope state.types = .ok type types ∧
        type.isPointer = true

theorem exists_of_startsWithCast
    {object : Expr} (hCast : StartsWithCast site state object)
    (h : lowerExpr site context object state = .ok lowered last) :
    ∃ (cast : Target.Cast) (operand : Target.Expr), lowered = cast.apply operand := by
  rcases hCast with hPointer | ⟨_, _, type, _, rfl, hType, hIsPointer⟩
  · rcases Option.isSome_iff_exists.mp hPointer with ⟨_, hOperand⟩
    rcases (comesTo_of_pointerOperand? site context hOperand).of_ok h with ⟨type, value, hCast, _⟩
    exact ⟨_, _, hCast⟩
  · rw [lowerExpr] at h
    rcases bind_eq_ok h with ⟨found, _, hFound, hRest⟩
    rcases bind_eq_ok hRest with ⟨value, _, _, hReturn⟩
    have hSame : found = type := by
      change LowerM.onTypes _ _ _ _ _ = _ at hFound
      unfold LowerM.onTypes at hFound
      rw [hType] at hFound
      cases hFound
      rfl
    subst hSame
    cases hReturn
    refine ⟨.address, value, ?_⟩
    unfold memberAccess
    rw [if_pos hIsPointer, if_pos rfl]
    rfl

theorem eq_of_memberAccess
    {type : TypeName} {object receiver : Target.Expr} {property : Text} {suffix : Target.Suffix}
    (h : memberAccess context type object property = suffix.behind receiver) :
    receiver = object := by
  unfold memberAccess at h
  split at h
  · split at h
    · cases suffix <;> cases h
    · split at h
      · cases suffix <;> cases h
      · cases suffix <;> cases h
        rfl
  · split at h
    · cases suffix <;> cases h
      rfl
    · cases suffix <;> cases h
      rfl

/- What an expression says about the object of a suffix. -/
def ShowsReceiver (site : Site) (object : Expr) (lowered : Target.Expr) : Prop :=
  ∀ (suffix : Target.Suffix) (receiver : Target.Expr),
    lowered = suffix.behind receiver → object.ComesTo site receiver

theorem showsReceiver_member
    (site : Site) (context : ValueContext) (node : Node) (object : Expr) (property : Text) :
    Yields (lowerExpr site context (.member node object property)) (ShowsReceiver site object) := by
  unfold lowerExpr
  refine .skip fun type => ?_
  apply Preserves.bind (object.comesTo_lowerExpr site)
  intro value hValue
  apply Leads.pure
  intro suffix receiver h
  rw [eq_of_memberAccess h]
  exact hValue

theorem showsReceiver_lowerExpr
    (site : Site) (context : ValueContext) {expr object : Expr}
    (hObject : expr.receiver? = some object) :
    Yields (lowerExpr site context expr) (ShowsReceiver site object) := by
  -- nothing is written behind the object of a conversion
  have hConversion (number : Target.Expr) (radix? : Option Target.Expr) :
      ShowsReceiver site object (.numberText number radix?) := by
    intro suffix receiver h
    cases suffix <;> cases h
  unfold Expr.receiver? at hObject
  split at hObject
  · cases hObject
    exact showsReceiver_member site context _ object _
  · cases hObject
    unfold lowerExpr
    apply Preserves.bind (object.comesTo_lowerExpr site)
    intro value hValue
    refine .skip fun index => .pure ?_
    intro suffix receiver h
    cases suffix <;> cases h
    exact hValue
  · cases hObject
    unfold lowerExpr
    apply Preserves.bind (object.comesTo_lowerExpr site)
    intro value hValue
    apply Leads.pure
    intro suffix receiver h
    cases suffix <;> cases h
    exact hValue
  · next node inner property typeArgs args =>
    cases hObject
    unfold lowerExpr
    refine .skip fun kind => ?_
    split
    · refine .skip fun type => .skip fun _ => .skip fun value => .pure ?_
      intro suffix receiver h
      cases suffix <;> cases h
    · exact .skip fun _ => .skip fun _ => .pure (hConversion _ _)
    · exact .skip fun _ => .pure (hConversion _ _)
    · exact .skip fun _ => .pure (hConversion _ _)
    · apply Preserves.bind (showsReceiver_member site _ _ object property)
      intro callee hCallee
      refine .skip fun types => .skip fun values => .pure ?_
      intro suffix receiver h
      cases suffix <;> cases h
      next access name => exact hCallee (.field access name) receiver rfl
  · cases hObject

/-
  What is written behind an object is written directly behind
  its text. A cast that the object starts with is read as one
  of all that follows: the cast of a pointer, and that of the
  address that it holds. Only parentheses that the program
  itself has keep the two apart.
-/
theorem cast_receiver_takes_suffix
    {expr object : Expr} {receiver : Target.Expr} {suffix : Target.Suffix}
    (hObject : expr.receiver? = some object)
    (hLower : lowerExpr site context expr state = .ok (suffix.behind receiver) last) :
    ∃ before after,
      lowerExpr site ValueContext.plain object before = .ok receiver after ∧
        (StartsWithCast site before object →
          ∃ (cast : Target.Cast) (operand : Target.Expr), receiver = cast.apply operand) ∧
        (∀ (cast : Target.Cast) (operand : Target.Expr),
          receiver = cast.apply operand →
            (suffix.behind receiver).text = (cast.apply (suffix.behind operand)).text ∧
              (suffix.behind receiver).text ≠ "(" ++ receiver.text ++ ")" ++ suffix.text) ∧
        ∀ node inner, object = .paren node inner →
          ∃ value,
            inner.ComesTo site value ∧
              (suffix.behind receiver).text = "(" ++ value.text ++ ")" ++ suffix.text := by
  rcases (showsReceiver_lowerExpr site context hObject).of_ok hLower suffix receiver rfl with
    ⟨before, after, hReceiver⟩
  have hText := suffix.text_behind receiver
  refine ⟨before, after, hReceiver, fun hCast => exists_of_startsWithCast hCast hReceiver, ?_, ?_⟩
  · rintro cast operand rfl
    refine ⟨?_, ?_⟩
    · rw [hText, cast.text_apply, cast.text_apply, suffix.text_behind, List.append_assoc]
    · rw [hText]
      exact fun h => ne_parenthesized _ (List.append_cancel_right h)
  · rintro node inner rfl
    rw [lowerExpr] at hReceiver
    rcases bind_eq_ok hReceiver with ⟨value, last, hValue, hReturn⟩
    cases hReturn
    exact ⟨value, ⟨before, _, hValue⟩, hText⟩

/- The address that a pointer holds, with a step behind it. -/
def steppedAddress : Expr :=
  .step plainNode .increment (.member plainNode (.ident plainNode "p") Native.addressOf)

theorem steppedAddress_takes_suffix :
    ∃ (state : LowerState) (suffix : Target.Suffix) (receiver : Target.Expr),
      lowerExpr bareSite ValueContext.plain steppedAddress state =
        .ok (suffix.behind receiver) state ∧
      (suffix.behind receiver).text = "(void*)p++" ∧
      ∃ (cast : Target.Cast) (operand : Target.Expr),
        (suffix.behind receiver).text = (cast.apply (suffix.behind operand)).text ∧
          (suffix.behind receiver).text ≠ "(" ++ receiver.text ++ ")" ++ suffix.text := by
  let state : LowerState :=
    ⟨TypeTable.empty, ⟨[], [("p", ⟨⟨"Pointer<u8>"⟩, true, none⟩)]⟩⟩
  have hLower :
      lowerExpr bareSite ValueContext.plain steppedAddress state =
        .ok (Target.Suffix.behind (Target.Cast.apply .address (.name "p")) (.step "++"))
          state :=
    rfl
  rcases cast_receiver_takes_suffix rfl hLower with ⟨_, _, _, _, hTakes, _⟩
  exact ⟨state, .step "++", _, hLower, rfl, .address, .name "p", hTakes .address (.name "p") rfl⟩

def firstElement (object : Expr) : Expr :=
  .index ⟨1, Span.nowhere⟩ object (.number plainNode "0")

theorem firstElement_pointerTo_not_enclosed :
    ∃ text,
      (evaluatingUnit "u8[]" (firstElement (pointerTo (.ident plainNode "c")))).compile
          LayoutConfig.standard =
        .ok text ∧
      (evaluatingUnit "u8[]" (pointerTo (firstElement (.ident plainNode "c")))).compile
          LayoutConfig.standard =
        .ok text ∧
      (Text.containsText "(Pointer<u8>)&c[0];" text &&
        !Text.containsText "((Pointer<u8>)&c)[0]" text) =
        true :=
  exists_of_sameText (by decide +kernel)

end ScriptLowering
