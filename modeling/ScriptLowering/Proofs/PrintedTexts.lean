import ScriptLowering.Proofs.Brackets
import ScriptLowering.Proofs.LexiconCourse

/-
  What is written on one line. A script says which pieces of
  code lead from some open brackets to others. It knows the
  fixed pieces and the words without some marks, and pieces
  may follow each other. Then all expressions, declarations
  and signatures leave the brackets as they were, if their
  words and types are without the marks.

  Key theorems include:
    * `Target.Signature.keeps_text`
    * `Target.Stmt.leadsRows`
-/

namespace ScriptLowering

open Text List

-----
-- Scripts
-----

/-
  A way to follow brackets through pieces of code. The
  words and types of a program have none of the marks.
-/
structure Script where
  marks : List Char
  foreign : areForeign marks = true
  Leads : Text → List Char → List Char → Prop
  fixed :
    ∀ {text before after}, Reads text (.code before) (.code after) → Leads text before after
  word :
    ∀ {text} (pending : List Char), text.Lacks marks → Leads text pending pending
  append :
    ∀ {front back before middle after}, Leads front before middle →
      Leads back middle after → Leads (front ++ back) before after

namespace Script

/- The words that a script can take anywhere. -/
def lexicon (script : Script) : Lexicon :=
  .without script.marks script.foreign

/- A text that leaves all brackets as they were. -/
def Keeps (script : Script) (text : Text) : Prop :=
  ∀ pending, script.Leads text pending pending

variable {script : Script}

/- Fixed pieces are checked by reading them. -/
theorem Leads.fixed
    {text : Text} {before after : List Char} (h : Reads text (.code before) (.code after)) :
    script.Leads text before after :=
  script.fixed h

theorem Leads.append
    {front back : Text} {before middle after : List Char}
    (hFront : script.Leads front before middle) (hBack : script.Leads back middle after) :
    script.Leads (front ++ back) before after :=
  script.append hFront hBack

/- Pieces that keep the brackets do so one after the other. -/
theorem Keeps.append {front back : Text} (hFront : script.Keeps front) (hBack : script.Keeps back) :
    script.Keeps (front ++ back) :=
  fun pending => .append (hFront pending) (hBack pending)

theorem keeps_nil :
    script.Keeps [] :=
  fun _ => .fixed rfl

/- Words without the marks have no brackets at all. -/
theorem keeps_word {text : Text} (h : text.Lacks script.marks) :
    script.Keeps text :=
  fun pending => script.word pending h

/- Rendering a type brings in no marks. -/
theorem keeps_render {type : TypeName} (h : type.text.Lacks script.marks) :
    script.Keeps type.render :=
  keeps_word (lacks_render script.foreign h)

theorem keeps_decimal (n : Nat) :
    script.Keeps (ofNat n) :=
  keeps_word (lacks_of_isWordChar script.foreign (all_isWordChar_ofNat n))

/- By induction on the parts; the last has no separator. -/
theorem keeps_joinWith
    {separator : Text} (hSeparator : script.Keeps separator) {parts : List Text}
    (h : ∀ part ∈ parts, script.Keeps part) :
    script.Keeps (joinWith separator parts) := by
  induction parts with
  | nil => exact keeps_nil
  | cons _ rest ih =>
    rcases forall_mem_cons.mp h with ⟨hPart, hRest⟩
    cases rest with
    | nil => exact hPart
    | cons => exact (hPart.append hSeparator).append (ih hRest)

/- Rows lead from some open brackets to others. -/
def LeadsRows (script : Script) : List Row → List Char → List Char → Prop
  | [], before, after => before = after
  | row :: rest, before, after =>
      ∃ middle, script.Leads row.text before middle ∧ script.LeadsRows rest middle after

namespace LeadsRows

variable {level : Nat} {text : Text} {rows front back : List Row}
variable {before middle after : List Char}

theorem cons
    (hText : script.Leads text before middle) (hRows : script.LeadsRows rows middle after) :
    script.LeadsRows (⟨level, text⟩ :: rows) before after :=
  ⟨middle, hText, hRows⟩

/- One row leads as far as its text does. -/
theorem single (hText : script.Leads text before after) :
    script.LeadsRows [⟨level, text⟩] before after :=
  .cons hText rfl

/- The rows of two parts lead from one to the other. -/
theorem append
    (hFront : script.LeadsRows front before middle) (hBack : script.LeadsRows back middle after) :
    script.LeadsRows (front ++ back) before after := by
  induction front generalizing before with
  | nil =>
    cases hFront
    exact hBack
  | cons _ _ ih =>
    rcases hFront with ⟨next, hText, hRest⟩
    exact ⟨next, hText, ih hRest⟩

end LeadsRows

end Script

open Script

variable {script : Script}

-----
-- Expressions
-----

namespace Target

theorem keeps_commaList {texts : List Text} (h : ∀ text ∈ texts, script.Keeps text) :
    script.Keeps (commaList texts) := by
  have hComma : script.Keeps ", " := fun _ => .fixed rfl
  exact keeps_joinWith hComma h

/- Angle brackets are opened and closed around the types. -/
theorem keeps_typeArgsText
    {types : List TypeName} (h : ∀ type ∈ types, type.text.Lacks script.marks) :
    script.Keeps (typeArgsText types) := by
  have hRendered : script.Keeps (commaList (types.map TypeName.render)) :=
    keeps_commaList (forall_mem_map.mpr fun type hType => keeps_render (h type hType))
  cases types with
  | nil => exact keeps_nil
  | cons =>
    intro pending
    exact .append (.append (.fixed rfl) (hRendered _)) (.fixed rfl)

mutual

/- An expression leaves the brackets as they were. -/
theorem Expr.keeps_text (expr : Expr) (h : script.lexicon.HasExpr expr) :
    script.Keeps expr.text := by
  cases expr with
  | name | number => exact keeps_word h.of_text.1
  | bool value => cases value <;> exact fun _ => .fixed rfl
  | string value => exact fun _ => .fixed (Literal.balanced_string value _)
  | format quasis values =>
    have hText := Literal.staysQuoted_formatText quasis values.length
    have hValues := keeps_trailingTexts values h
    intro pending
    have hFormat :
        Reads (Native.stringFormat ++ "(\"" ++ Literal.formatText quasis values.length ++ "\"")
          (.code pending) (.code (')' :: pending)) :=
      .append (.append rfl (hText _)) rfl
    exact .append (.append (.fixed hFormat) (hValues _)) (.fixed rfl)
  | array _ elements =>
    rcases h.of_type with ⟨hType, hRest⟩
    have hRendered := keeps_render hType
    cases elements with
    | nil =>
      intro pending
      exact .append (hRendered _) (.fixed rfl)
    | cons first more =>
      rcases hRest.of_append with ⟨hFirst, hMore⟩
      have hFirst := first.keeps_text hFirst
      have hMore := keeps_trailingTexts more hMore
      have hCount : script.Keeps (ofNat (more.length + 1)) := keeps_decimal _
      intro pending
      exact
        .append
          (.append
            (.append (.append (.append (.append (hRendered _) (.fixed rfl)) (hFirst _)) (hMore _))
              (.fixed rfl))
            (hCount _))
          (.fixed rfl)
  | record fields =>
    cases fields with
    | nil => exact fun _ => .fixed rfl
    | cons field more =>
      rcases field with ⟨_, value⟩
      rcases Lexicon.Has.of_text h with ⟨hName, hBehind⟩
      rcases hBehind.of_append with ⟨hValue, hMore⟩
      have hName := keeps_word hName
      have hValue := value.keeps_text hValue
      have hMore := keeps_trailingFields more hMore
      intro pending
      exact
        .append
          (.append
            (.append (.fixed rfl)
              (.append (.append (.append (.fixed rfl) (hName _)) (.fixed rfl)) (hValue _)))
            (hMore _))
          (.fixed rfl)
  | paren inner =>
    have hInner := inner.keeps_text h
    intro pending
    exact .append (.append (.fixed rfl) (hInner _)) (.fixed rfl)
  | index object index =>
    rcases h.of_append with ⟨hObject, hIndex⟩
    have hFirst := object.keeps_text hObject
    have hSecond := index.keeps_text hIndex
    intro pending
    exact .append (.append (.append (hFirst _) (.fixed rfl)) (hSecond _)) (.fixed rfl)
  | address pointer =>
    have hPointer := pointer.keeps_text h
    intro pending
    exact .append (.fixed rfl) (hPointer _)
  | pointee pointer =>
    have hPointer := pointer.keeps_text h
    intro pending
    exact .append (.append (.fixed rfl) (hPointer _)) (.fixed rfl)
  | field object access =>
    rcases h.of_snoc with ⟨hObject, hProperty⟩
    have hFirst := object.keeps_text hObject
    have hAccess : script.Keeps access.text := by cases access <;> exact fun _ => .fixed rfl
    exact (hFirst.append hAccess).append (keeps_word hProperty)
  | accessor object =>
    rcases h.of_snoc with ⟨hObject, hProperty⟩
    have hFirst := object.keeps_text hObject
    have hName := keeps_word hProperty
    intro pending
    exact .append (.append (.append (hFirst _) (.fixed rfl)) (hName _)) (.fixed rfl)
  | addressOf _ operand | cast _ operand =>
    rcases h.of_type with ⟨hType, hRest⟩
    have hRendered := keeps_render hType
    have hOperand := operand.keeps_text hRest
    intro pending
    exact .append (.append (.append (.fixed rfl) (hRendered _)) (.fixed rfl)) (hOperand _)
  | numberText number radix? =>
    rcases h.of_append with ⟨hNumber, hRadix⟩
    have hFirst := number.keeps_text hNumber
    have hSecond := keeps_trailingText? radix? hRadix
    intro pending
    exact .append (.append (.append (.fixed rfl) (hFirst _)) (hSecond _)) (.fixed rfl)
  | call callee _ args =>
    rcases forall_mem_append.mp h.texts with ⟨hCallee, hArgs⟩
    rcases forall_mem_append.mp h.types with ⟨hCalleeTypes, hOthers⟩
    rcases forall_mem_append.mp hOthers with ⟨hBracketed, hArgsTypes⟩
    have hFirst := callee.keeps_text ⟨hCallee, hCalleeTypes⟩
    have hMiddle := keeps_typeArgsText hBracketed
    have hLast := keeps_listText args ⟨hArgs, hArgsTypes⟩
    intro pending
    exact
      .append (.append (.append (.append (hFirst _) (hMiddle _)) (.fixed rfl)) (hLast _))
        (.fixed rfl)
  | conditional condition thenExpr elseExpr =>
    rcases h.of_append with ⟨hCondition, hBranches⟩
    rcases hBranches.of_append with ⟨hThen, hElse⟩
    have hFirst := condition.keeps_text hCondition
    have hSecond := thenExpr.keeps_text hThen
    have hThird := elseExpr.keeps_text hElse
    intro pending
    exact
      .append (.append (.append (.append (hFirst _) (.fixed rfl)) (hSecond _)) (.fixed rfl))
        (hThird _)
  | unary _ operand =>
    rcases h.of_text with ⟨hOp, hRest⟩
    exact (keeps_word hOp).append (operand.keeps_text hRest)
  | step operand =>
    rcases h.of_snoc with ⟨hOperand, hOp⟩
    exact (operand.keeps_text hOperand).append (keeps_word hOp)
  | binary left _ right =>
    rcases forall_mem_append.mp h.texts with ⟨hLeft, hBehind⟩
    rcases forall_mem_cons.mp hBehind with ⟨hOp, hRight⟩
    rcases forall_mem_append.mp h.types with ⟨hLeftTypes, hRightTypes⟩
    have hOp := keeps_word hOp
    have hFirst := left.keeps_text ⟨hLeft, hLeftTypes⟩
    have hLast := right.keeps_text ⟨hRight, hRightTypes⟩
    intro pending
    exact
      .append (.append (.append (.append (hFirst _) (.fixed rfl)) (hOp _)) (.fixed rfl)) (hLast _)

/- By the lexicon, no argument leaves a bracket open. -/
theorem keeps_listText (exprs : List Expr) (h : script.lexicon.HasExprs exprs) :
    script.Keeps (listText exprs) := by
  cases exprs with
  | nil => exact keeps_nil
  | cons expr rest =>
    rcases h.of_append with ⟨hExpr, hRest⟩
    exact (expr.keeps_text hExpr).append (keeps_trailingTexts rest hRest)

/- Each of these stands behind a comma. -/
theorem keeps_trailingTexts (exprs : List Expr) (h : script.lexicon.HasExprs exprs) :
    script.Keeps (trailingTexts exprs) := by
  cases exprs with
  | nil => exact keeps_nil
  | cons expr rest =>
    rcases h.of_append with ⟨hExpr, hRest⟩
    have hFirst := expr.keeps_text hExpr
    have hLater := keeps_trailingTexts rest hRest
    intro pending
    exact .append (.append (.fixed rfl) (hFirst _)) (hLater _)

theorem keeps_trailingText? (expr? : Option Expr) (h : script.lexicon.HasExpr? expr?) :
    script.Keeps (trailingText? expr?) := by
  cases expr? with
  | none => exact keeps_nil
  | some expr =>
    have hExpr := expr.keeps_text h
    intro pending
    exact .append (.fixed rfl) (hExpr _)

/- A field is its name, a sign and its value. -/
theorem keeps_trailingFields (fields : List FieldInit) (h : script.lexicon.HasFields fields) :
    script.Keeps (trailingFields fields) := by
  cases fields with
  | nil => exact keeps_nil
  | cons field rest =>
    rcases field with ⟨_, value⟩
    rcases Lexicon.Has.of_text h with ⟨hName, hBehind⟩
    rcases hBehind.of_append with ⟨hValue, hRest⟩
    have hName := keeps_word hName
    have hValue := value.keeps_text hValue
    have hLater := keeps_trailingFields rest hRest
    intro pending
    exact
      .append
        (.append (.fixed rfl)
          (.append (.append (.append (.fixed rfl) (hName _)) (.fixed rfl)) (hValue _)))
        (hLater _)

end

-----
-- Declarations
-----

/- An initial value is written behind its name. -/
theorem Declarator.keeps_text
    {declarator : Declarator} (h : script.lexicon.HasDeclarator declarator) :
    script.Keeps declarator.text := by
  rcases declarator with ⟨_, init?⟩
  have hName := keeps_word (Lexicon.Has.of_text h).1
  cases init? with
  | none => exact hName
  | some init =>
    have hValue := init.keeps_text (Lexicon.Has.of_text h).2
    intro pending
    exact .append (.append (hName _) (.fixed rfl)) (hValue _)

theorem keeps_declarationText
    {type : TypeName} {declarator : Declarator} (hType : type.text.Lacks script.marks)
    (h : script.lexicon.HasDeclarator declarator) :
    script.Keeps (declarationText type declarator) := by
  have hRendered := keeps_render hType
  have hText := Declarator.keeps_text h
  intro pending
  exact .append (.append (.append (hRendered _) (.fixed rfl)) (hText _)) (.fixed rfl)

/- Names and types follow each other with a blank. -/
theorem keeps_typedName
    {type : TypeName} {name : Text} (hType : type.text.Lacks script.marks)
    (hName : name.Lacks script.marks) :
    script.Keeps (type.render ++ " " ++ name) := by
  have hRendered := keeps_render hType
  have hName := keeps_word hName
  intro pending
  exact .append (.append (hRendered _) (.fixed rfl)) (hName _)

/- The one bracket of a signature is around its parameters. -/
theorem Signature.keeps_text
    {signature : Signature} (h : script.lexicon.Has signature.texts signature.types) :
    script.Keeps signature.text := by
  rcases forall_mem_cons.mp h.texts with ⟨hName, hNames⟩
  rcases forall_mem_cons.mp h.types with ⟨hReturn, hTypes⟩
  have hHead := keeps_typedName hReturn hName
  have hParams :
      script.Keeps
        (commaList
          (signature.params.map fun param =>
            param.2.render ++ " " ++ param.1)) := by
    apply keeps_commaList
    refine forall_mem_map.mpr ?_
    intro param hParam
    exact
      keeps_typedName (forall_mem_map.mp hTypes param hParam)
        (forall_mem_map.mp hNames param hParam)
  intro pending
  exact .append (.append (.append (hHead _) (.fixed rfl)) (hParams _)) (.fixed rfl)

/- The header of a loop is on one line, inside its bracket. -/
theorem ForInit.keeps_text {init : ForInit} (h : script.lexicon.Has init.texts init.types) :
    script.Keeps init.text := by
  cases init with
  | none => exact keeps_nil
  | expr value => exact value.keeps_text h
  | declare _ declarators =>
    rcases h.of_type with ⟨hType, hAll⟩
    have hRendered := keeps_render hType
    have hNames : script.Keeps (commaList (declarators.map Declarator.text)) := by
      apply keeps_commaList
      refine forall_mem_map.mpr ?_
      intro declarator hMem
      apply Declarator.keeps_text
      constructor
      · intro text hText
        exact hAll.texts text (mem_flatMap.mpr ⟨declarator, hMem, hText⟩)
      · intro other hOther
        exact hAll.types other (mem_flatMap.mpr ⟨declarator, hMem, hOther⟩)
    intro pending
    exact .append (.append (hRendered _) (.fixed rfl)) (hNames _)

/- A part that is missing still has its semicolon. -/
theorem keeps_headerPart {expr? : Option Expr} (h : script.lexicon.HasExpr? expr?) :
    script.Keeps (headerPart expr?) := by
  cases expr? with
  | none => exact fun _ => .fixed rfl
  | some expr =>
    have hExpr := expr.keeps_text h
    intro pending
    exact .append (.fixed rfl) (hExpr _)

-----
-- Statements
-----

mutual

/- A statement leaves the brackets as they were. -/
theorem Stmt.leadsRows
    (level : Nat) (stmt : Stmt) (h : script.lexicon.Has stmt.texts stmt.types)
    (pending : List Char) :
    script.LeadsRows (stmt.rows level) pending pending := by
  cases stmt with
  | block body =>
    have hBody := leadsRows_stmts (level + 1) body h
    exact .append (.cons (.fixed rfl) (hBody _)) (.single (.fixed rfl))
  | branch condition body rest =>
    rcases h.of_append with ⟨hCondition, hBehind⟩
    rcases hBehind.of_append with ⟨hBody, hRest⟩
    have hText := condition.keeps_text hCondition
    have hBody := leadsRows_stmts (level + 1) body hBody
    have hRest := rest.leadsRows level hRest
    exact
      .append (.cons (.append (.append (.fixed rfl) (hText _)) (.fixed rfl)) (hBody _)) (hRest _)
  | whileLoop condition body =>
    rcases h.of_append with ⟨hCondition, hBody⟩
    have hText := condition.keeps_text hCondition
    have hBody := leadsRows_stmts (level + 1) body hBody
    exact
      .append (.cons (.append (.append (.fixed rfl) (hText _)) (.fixed rfl)) (hBody _))
        (.single (.fixed rfl))
  | doLoop body condition =>
    rcases h.of_append with ⟨hBody, hCondition⟩
    have hText := condition.keeps_text hCondition
    have hBody := leadsRows_stmts (level + 1) body hBody
    exact
      .append (.cons (.fixed rfl) (hBody _))
        (.single (.append (.append (.fixed rfl) (hText _)) (.fixed rfl)))
  | forLoop _ _ _ body =>
    rcases h.of_append with ⟨hInit, hBehind⟩
    rcases hBehind.of_append with ⟨hCondition, hLater⟩
    rcases hLater.of_append with ⟨hUpdate, hBody⟩
    have hFirst := ForInit.keeps_text hInit
    have hSecond := keeps_headerPart hCondition
    have hThird := keeps_headerPart hUpdate
    have hBody := leadsRows_stmts (level + 1) body hBody
    exact
      .append
        (.cons
          (.append (.append (.append (.append (.fixed rfl) (hFirst _)) (hSecond _)) (hThird _))
            (.fixed rfl))
          (hBody _))
        (.single (.fixed rfl))
  | ret value? =>
    cases value? with
    | none => exact .single (.fixed rfl)
    | some value =>
      have hText := value.keeps_text h
      exact .single (.append (.append (.fixed rfl) (hText _)) (.fixed rfl))
  | expr value =>
    have hText := value.keeps_text h
    exact .single (.append (hText _) (.fixed rfl))
  | declare =>
    rcases h.of_type with ⟨hType, hDeclarator⟩
    exact .single (keeps_declarationText hType hDeclarator pending)
  | breakLoop | continueLoop => exact .single (.fixed rfl)

/- Statements follow each other, row after row. -/
theorem leadsRows_stmts
    (level : Nat) (stmts : List Stmt) (h : script.lexicon.HasStmts stmts) (pending : List Char) :
    script.LeadsRows (stmtsRows level stmts) pending pending := by
  cases stmts with
  | nil => exact rfl
  | cons stmt rest =>
    rcases h.of_append with ⟨hStmt, hRest⟩
    exact .append (stmt.leadsRows level hStmt _) (leadsRows_stmts level rest hRest _)

/- What follows a branch begins by closing its brace. -/
theorem Else.leadsRows
    (level : Nat) (rest : Else) (h : script.lexicon.HasElse rest) (pending : List Char) :
    script.LeadsRows (rest.rows level) ('}' :: pending) pending := by
  cases rest with
  | none => exact .single (.fixed rfl)
  | body body =>
    have hBody := leadsRows_stmts (level + 1) body h
    exact .append (.cons (.fixed rfl) (hBody _)) (.single (.fixed rfl))
  | branch condition body rest =>
    rcases h.of_append with ⟨hCondition, hBehind⟩
    rcases hBehind.of_append with ⟨hBody, hRest⟩
    have hText := condition.keeps_text hCondition
    have hBody := leadsRows_stmts (level + 1) body hBody
    have hRest := rest.leadsRows level hRest
    exact
      .append (.cons (.append (.append (.fixed rfl) (hText _)) (.fixed rfl)) (hBody _)) (hRest _)

end

end Target

end ScriptLowering
