import ScriptLowering.Lowering.Intrinsic
import ScriptLowering.Proofs.SourceParts

/-
  The type texts that a function uses, and what it means for
  them to have no object shape. The type of such a text is
  looked up and put together; nothing is registered for it,
  so it goes by the aliases alone.

  Key theorems include:
    * `consults_type`
    * `consults_callKind`
-/

namespace ScriptLowering

-----
-- Shapeless Terms
-----

namespace TypeTerm

mutual

/- No object shape at any depth. -/
def isShapeless : TypeTerm → Bool
  | .shape _ => false
  | .array _ element => element.isShapeless
  | .applied _ _ args => areShapeless args
  | _ => true

def areShapeless : List TypeTerm → Bool
  | [] => true
  | term :: rest => term.isShapeless && areShapeless rest

end

end TypeTerm

/- A type text that spells no object shape. -/
def Text.IsShapeless (text : Text) : Prop :=
  (TypeTerm.ofText text).isShapeless = true

-----
-- Texts
-----

/- The text that the checker inferred for a node, if any. -/
def NodeTypes.textsOf (types : NodeTypes) (id : NodeId) : List Text :=
  (types.get? id).toList

/- The text that a declared type goes by: the written one, if any. -/
def declaredTexts (types : NodeTypes) (id : NodeId) : Option TypeText → List Text
  | some written => [written.text]
  | none => types.textsOf id

/-
  The text that the type of an expression goes by. A name has
  the type that it was bound with.
-/
def Expr.typeTexts (types : NodeTypes) : Expr → List Text
  | .assertion _ inner written =>
      if written.isConst then
        inner.typeTexts types
      else
        [written.text]
  | .paren _ inner => inner.typeTexts types
  | .ident _ _ => []
  | .call node callee _ [operand] =>
      if callee.isPointerCallee then
        operand.typeTexts types
      else
        types.textsOf node.id
  | expr => types.textsOf expr.id

/-
  The texts that are used for a part of a function. The type
  of an expression is asked for if it is an array literal, if
  a property of it is taken, or if a pointer to it is made.
-/
def Part.typeTexts (types : NodeTypes) : Part → List Text
  | .expr (.array node _) => types.textsOf node.id
  | .expr (.member _ object _) => object.typeTexts types
  | .expr (.call node callee typeArgs args) =>
      let operand? :=
        (Expr.call node callee typeArgs args).pointerOperand?
      operand?.toList.flatMap (Expr.typeTexts types) ++ typeArgs.map TypeText.text
  | .expr (.assertion _ _ written) =>
      if written.isConst then
        []
      else
        [written.text]
  | .declarator entry =>
      declaredTexts types entry.node.id entry.type?
  | .stmt (.function node head _) =>
      declaredTexts types node.id head.returnType? ++
        head.params.flatMap fun param =>
          declaredTexts types param.node.id param.type?
  | _ => []

/- No text that is used for a part has an object shape. -/
def Part.IsShapeless (types : NodeTypes) (part : Part) : Prop :=
  ∀ text ∈ part.typeTexts types, text.IsShapeless

instance (types : NodeTypes) (parts : List Part) :
    Decidable (EveryPart (Part.IsShapeless types) parts) :=
  inferInstanceAs
    (Decidable
      (∀ part ∈ parts, ∀ text ∈ part.typeTexts types, (TypeTerm.ofText text).isShapeless = true))

-----
-- Consultations
-----

/-
  A computation that only consults the aliases: for tables
  with these aliases it gives one and the same value and
  leaves the table as it is, or it fails for all of them.
-/
def Consults
    {ε α : Type} (aliases : List (Text × TypeName)) (action : EStateM ε TypeTable α) : Prop :=
  (∃ value, ∀ table, table.aliases = aliases → action table = .ok value table) ∨
    ∀ table, table.aliases = aliases → ∃ error last, action table = .error error last

section Consults

variable {ε α β : Type} {aliases : List (Text × TypeName)}

theorem Consults.pure (value : α) :
    Consults aliases (Pure.pure value : EStateM ε TypeTable α) :=
  Or.inl ⟨value, fun _ _ => rfl⟩

theorem Consults.throw (error : ε) :
    Consults aliases (throw error : EStateM ε TypeTable α) :=
  Or.inr fun table _ => ⟨error, table, rfl⟩

/- What comes after a look at the table goes by its aliases. -/
theorem Consults.get
    {next : TypeTable → EStateM ε TypeTable α} (body : EStateM ε TypeTable α)
    (hNext : ∀ table, table.aliases = aliases → next table = body) (hBody : Consults aliases body) :
    Consults aliases (MonadState.get >>= next) := by
  have hRun :
      ∀ table : TypeTable, table.aliases = aliases →
        (MonadState.get >>= next : EStateM ε TypeTable α) table = body table := by
    intro table hTable
    rw [← hNext table hTable]
    rfl
  rcases hBody with ⟨value, hValue⟩ | hFails
  · refine .inl ⟨value, fun table hTable => ?_⟩
    rw [hRun table hTable, hValue table hTable]
  · refine .inr fun table hTable => ?_
    rw [hRun table hTable]
    exact hFails table hTable

theorem Consults.bind
    {first : EStateM ε TypeTable α} {next : α → EStateM ε TypeTable β}
    (hFirst : Consults aliases first) (hNext : ∀ value, Consults aliases (next value)) :
    Consults aliases (first >>= next) := by
  rcases hFirst with ⟨value, hValue⟩ | hFails
  · rcases hNext value with ⟨result, hResult⟩ | hLater
    · refine .inl ⟨result, fun table hTable => ?_⟩
      simp only [Bind.bind, EStateM.bind, hValue table hTable]
      exact hResult table hTable
    · refine .inr fun table hTable => ?_
      simp only [Bind.bind, EStateM.bind, hValue table hTable]
      exact hLater table hTable
  · refine .inr fun table hTable => ?_
    rcases hFails table hTable with ⟨error, last, hError⟩
    exact ⟨error, last, by simp only [Bind.bind, EStateM.bind, hError]⟩

theorem Consults.adaptExcept
    {δ : Type} {action : EStateM ε TypeTable α} (h : Consults aliases action) (convert : ε → δ) :
    Consults aliases (EStateM.adaptExcept convert action) := by
  rcases h with ⟨value, hValue⟩ | hFails
  · refine .inl ⟨value, fun table hTable => ?_⟩
    simp only [EStateM.adaptExcept, hValue table hTable]
  · refine .inr fun table hTable => ?_
    rcases hFails table hTable with ⟨error, last, hError⟩
    exact ⟨convert error, last, by simp only [EStateM.adaptExcept, hError]⟩

end Consults

section Terms

variable {aliases : List (Text × TypeName)}

theorem consults_namedType (raw name : Text) :
    Consults aliases (TypeTerm.namedType raw name) := by
  cases hTarget : aliases.lookup name with
  | some target =>
    apply Consults.get (Pure.pure target)
    · intro table hTable
      rw [TypeTable.alias?, hTable, hTarget]
    · exact .pure _
  | none =>
    apply Consults.get
      (if name.isIdentifier then
        Pure.pure ⟨name⟩
      else
        throw (.undecidable raw))
    · intro table hTable
      rw [TypeTable.alias?, hTable, hTarget]
    · split
      · exact .pure _
      · exact .throw _

theorem consults_arrayType (raw : Text) (element : TypeName) :
    Consults aliases (TypeTerm.arrayType raw element) := by
  unfold TypeTerm.arrayType
  split
  · exact .throw _
  · exact .pure _

mutual

/- A shapeless term is decided by the aliases. -/
theorem consults_eval (term : TypeTerm) (h : term.isShapeless = true) :
    Consults aliases term.eval := by
  cases term with
  | undecided | disallowed | malformed => exact .throw _
  | string | bool | numeral => exact .pure _
  | shape => cases h
  | array raw element =>
    apply Consults.bind (consults_eval element h)
    intro type
    exact consults_arrayType raw type
  | applied raw _ args =>
    unfold TypeTerm.eval
    split
    · split
      · next arg =>
        have hArg := (Bool.and_eq_true_iff.mp h).1
        apply Consults.bind (consults_eval arg hArg)
        intro type
        exact consults_arrayType raw type
      · exact .throw _
    · split
      · split
        · next arg =>
          have hArg := (Bool.and_eq_true_iff.mp h).1
          apply Consults.bind (consults_eval arg hArg)
          intro type
          exact .pure _
        · exact .throw _
      · apply Consults.bind (consults_evalArgs args h)
        intro types
        exact .pure _
  | named raw name => exact consults_namedType raw name

theorem consults_evalArgs (args : List TypeTerm) (h : TypeTerm.areShapeless args = true) :
    Consults aliases (TypeTerm.evalArgs args) := by
  cases args with
  | nil => exact .pure _
  | cons arg rest =>
    rcases Bool.and_eq_true_iff.mp h with ⟨hArg, hRest⟩
    apply Consults.bind (consults_eval arg hArg)
    intro first
    apply Consults.bind (consults_evalArgs rest hRest)
    intro types
    exact .pure _

end

theorem consults_canonicalize {raw : Text} (h : raw.IsShapeless) :
    Consults aliases (TypeTable.canonicalize raw) :=
  consults_eval (TypeTerm.ofText raw) h

theorem consults_inferredType
    {types : NodeTypes} {id : NodeId} (subject : Text)
    (h : ∀ text ∈ types.textsOf id, text.IsShapeless) :
    Consults aliases (inferredType types id subject) := by
  unfold inferredType
  unfold NodeTypes.textsOf at h
  split
  · next text hText =>
    apply consults_canonicalize
    apply h
    rw [hText]
    exact List.mem_cons_self
  · exact .throw _

end Terms

-----
-- Types Of Expressions
-----

/- The name that the type of an expression goes by, if any. -/
def Expr.subjectName? : Expr → Option Text
  | .assertion _ inner written =>
      if written.isConst then
        inner.subjectName?
      else
        none
  | .paren _ inner => inner.subjectName?
  | .ident _ name => some name
  | .call _ callee _ [operand] =>
      if callee.isPointerCallee then
        operand.subjectName?
      else
        none
  | _ => none

section Types

variable {aliases : List (Text × TypeName)} {types : NodeTypes}
variable {scope : ScopeChain}

theorem consults_type
    (expr : Expr) (hTexts : ∀ text ∈ expr.typeTexts types, text.IsShapeless)
    (hBound : ∀ name, expr.subjectName? = some name → (scope.lookupType? name).isSome = true) :
    Consults aliases (expr.type types scope) := by
  cases expr with
  | assertion _ inner written =>
    unfold Expr.type
    by_cases hConst : written.isConst = true
    · rw [if_pos hConst]
      apply consults_type inner
      · simpa only [Expr.typeTexts, if_pos hConst] using hTexts
      · simpa only [Expr.subjectName?, if_pos hConst] using hBound
    · rw [if_neg hConst]
      apply consults_canonicalize
      apply hTexts
      rw [Expr.typeTexts, if_neg hConst]
      exact List.mem_cons_self
  | paren _ inner => exact consults_type inner hTexts hBound
  | ident _ name =>
    unfold Expr.type
    have hSome := hBound name rfl
    split
    · exact .pure _
    · next hNone =>
      rw [hNone] at hSome
      cases hSome
  | call _ callee _ args =>
    match args with
    | [] => exact consults_inferredType _ hTexts
    | [operand] =>
      unfold Expr.type
      by_cases hPointer : callee.isPointerCallee = true
      · rw [if_pos hPointer]
        have hOperand : Consults aliases (operand.type types scope) := by
          apply consults_type operand
          · simpa only [Expr.typeTexts, if_pos hPointer] using hTexts
          · simpa only [Expr.subjectName?, if_pos hPointer] using hBound
        apply Consults.bind hOperand
        intro target
        exact .pure _
      · rw [if_neg hPointer]
        apply consults_inferredType
        simpa only [Expr.typeTexts, if_neg hPointer] using hTexts
    | _ :: _ :: _ => exact consults_inferredType _ hTexts
  | _ => exact consults_inferredType _ hTexts

theorem consults_conversionKind (args : List Expr) (receiver : TypeName) :
    Consults aliases (conversionKind args receiver) := by
  unfold conversionKind
  split
  · split
    · exact .pure _
    · exact .throw _
  · exact .pure _

/- The object that a called property is taken of. -/
def Expr.calledObject? : Expr → Option Expr
  | .member _ receiver _ => some receiver
  | _ => none

/- Of a call only the object of its callee has to be typed. -/
theorem consults_callKind
    {callee : Expr} (args : List Expr)
    (h :
      ∀ receiver, callee.calledObject? = some receiver →
        Consults aliases (receiver.type types scope)) :
    Consults aliases (callKind types scope callee args) := by
  unfold callKind
  split
  · split
    · exact .pure _
    · exact .throw _
  · split
    · next receiver _ _ =>
      split
      · apply Consults.bind ((h receiver rfl).adaptExcept _)
        intro type
        exact consults_conversionKind args type
      · exact .pure _
    · exact .pure _

end Types

end ScriptLowering
