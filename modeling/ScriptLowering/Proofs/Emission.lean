import ScriptLowering.Proofs.AlikeLowering
import ScriptLowering.Proofs.EmissionRules

/-
  Emission in one pass and lowering followed by writing do
  the same. So a statement leaves the emitter as it was, apart
  from new names in the current frame, names that have got a
  value, and what is written: frames, indentation, targets,
  units and the return type are given back however emission
  ends.

  Key theorems include:
    * `emits_emitStmt`
    * `emission_restores_state`
-/

namespace ScriptLowering

open Target ValueContext List Page

-----
-- Expressions
-----

/- Emission writes the text of the lowered expression. -/
def EmitsExpr (place : EmitPlace) (emit : EmitM Unit) (lower : LowerM Target.Expr) : Prop :=
  ∀ page, Emits place page emit lower fun value _ last => last = page.write value.text

/- A separator and a text; commas before all others. -/
def separatedTexts (separator : Text) : List Target.Expr → Text
  | [] => []
  | first :: rest =>
      separator ++ first.text ++ trailingTexts rest

def separatedFields (separator : Text) : List Target.FieldInit → Text
  | [] => []
  | first :: rest =>
      separator ++ first.text ++ trailingFields rest

/- Emission writes the texts of some expressions. -/
def EmitsList
    (place : EmitPlace) (separator : Text) (count : Nat) (emit : EmitM Unit)
    (lower : LowerM (List Target.Expr)) : Prop :=
  ∀ page,
    Emits place page emit lower
      fun values _ last =>
        last = page.write (separatedTexts separator values) ∧ values.length = count

/- Emission writes the text of a radix, if there is one. -/
def EmitsRadix
    (place : EmitPlace) (emit : EmitM Unit) (lower : LowerM (Option Target.Expr)) : Prop :=
  ∀ page,
    Emits place page emit lower
      fun value? _ last =>
        last = page.write (trailingText? value?)

theorem separatedTexts_comma (values : List Target.Expr) :
    separatedTexts ", " values = Target.trailingTexts values := by
  cases values <;> rfl

theorem separatedFields_comma (fields : List Target.FieldInit) :
    separatedFields ", " fields = Target.trailingFields fields := by
  cases fields <;> rfl

theorem text_memberAccess
    (context : ValueContext) (type : TypeName) (object : Target.Expr) (property : Text) :
    (memberAccess context type object property).text =
      (memberAffixes context type property).1 ++ object.text ++
        (memberAffixes context type property).2 := by
  unfold memberAccess memberAffixes
  split
  · split
    · exact (append_nil _).symm
    · split
      · rfl
      · exact append_assoc _ _ _
  · split
    · show object.text ++ "." ++ property ++ "()" = _
      simp only [append_assoc, nil_append]
    · exact append_assoc _ _ _

section Expressions

variable {front : Program} {place : EmitPlace}

theorem EmitsExpr.wrapped
    {emit : EmitM Unit} {lower : LowerM Target.Expr} (h : EmitsExpr place emit lower) (wrap : Bool)
    (page : Page) :
    Emits place page (EmitM.wrapped wrap emit) lower
      fun value _ last =>
        last = page.write (wrapIf wrap value).text := by
  cases wrap with
  | false => exact h page
  | true =>
    apply Emits.write
    rw [← bind_pure lower]
    apply (h _).bind
    rintro value _ _ rfl
    apply emits_write
    simp only [write_write]
    rfl

/- A computed radix stands behind a comma. -/
theorem EmitsExpr.radix
    {emit : EmitM Unit} {lower : LowerM Target.Expr} (h : EmitsExpr place emit lower) :
    EmitsRadix place
      (do
        EmitM.write ", "
        emit)
      (do
        let value ← lower
        return some value) := by
  intro page
  apply Emits.write
  apply (h _).map
  rintro value _ _ rfl
  exact write_write _ _ _

theorem EmitsExpr.numberText
    {number radix : EmitM Unit} {lowerNumber : LowerM Target.Expr}
    {lowerRadix : LowerM (Option Target.Expr)} (hNumber : EmitsExpr place number lowerNumber)
    (hRadix : EmitsRadix place radix lowerRadix) :
    EmitsExpr place (EmitM.numberText number radix)
      (do
        let value ← lowerNumber
        let value? ← lowerRadix
        return .numberText value value?) := by
  intro page
  apply Emits.write
  apply (hNumber _).bind
  rintro value _ _ rfl
  apply (hRadix _).bind
  rintro value? _ _ rfl
  apply emits_write
  simp only [write_write]
  rfl

theorem EmitsExpr.ordinaryCall
    {callee args : EmitM Unit} {lowerCallee : LowerM Target.Expr}
    {lowerArgs : LowerM (List Target.Expr)} {count : Nat}
    (hCallee : EmitsExpr place callee lowerCallee) (hArgs : EmitsList place [] count args lowerArgs)
    (front : Program) (span : Span) (typeArgs : List TypeText) :
    EmitsExpr place (EmitM.ordinaryCall front span typeArgs callee args)
      (do
        let function ← lowerCallee
        let types ←
          LowerM.writtenTypes (topSite front place.units) span typeArgs
        let values ← lowerArgs
        return .call function types values) := by
  intro page
  apply (hCallee _).bind
  rintro function _ _ rfl
  apply Emits.lowered
  intro types
  apply Emits.write
  apply Emits.write
  apply (hArgs _).bind
  rintro values _ _ ⟨rfl, _⟩
  apply emits_write
  show _ = page.write
    (function.text ++ Target.typeArgsText types ++ "(" ++ Target.listText values ++ ")")
  cases values <;> simp only [write_write] <;> rfl

/- A call is emitted by its kind. -/
theorem emits_call
    {context : ValueContext} {node : Node} {callee : Expr} {typeArgs : List TypeText}
    {args : List Expr}
    (hReceiver :
      Option.Rel (EmitsExpr place) (emitReceiver? front callee)
        (lowerReceiver? (topSite front place.units) callee))
    (hFirst :
      Option.Rel (EmitsExpr place) (emitFirst? front args)
        (lowerFirst? (topSite front place.units) args))
    (hCallee :
      EmitsExpr place (emitExpr front ValueContext.callee callee)
        (lowerExpr (topSite front place.units) ValueContext.callee callee))
    (hArgs :
      EmitsList place [] args.length (emitExprs front plain [] args)
        (lowerExprs (topSite front place.units) plain args)) :
    EmitsExpr place (emitExpr front context (.call node callee typeArgs args))
      (lowerExpr (topSite front place.units) context (.call node callee typeArgs args)) := by
  intro page
  have hOrdinary := hCallee.ordinaryCall hArgs front node.span typeArgs page
  simp only [emitExpr, lowerExpr]
  generalize lowerReceiver? (topSite front place.units) callee = receiver? at hReceiver ⊢
  generalize emitReceiver? front callee = emitted? at hReceiver ⊢
  generalize lowerFirst? (topSite front place.units) args = first? at hFirst ⊢
  generalize emitFirst? front args = next? at hFirst ⊢
  apply Emits.lowered
  intro kind
  cases kind with
  | ordinary => exact hOrdinary
  | pointer =>
    cases hFirst with
    | none => exact hOrdinary
    | some hOperand =>
      apply Emits.lowered
      intro type
      apply Emits.lowered
      intro _
      apply Emits.write
      apply (hOperand _).map
      rintro value _ _ rfl
      exact write_write _ _ _
  | numberToString radix =>
    cases hReceiver with
    | none => cases radix <;> exact hOrdinary
    | some hNumber =>
      cases radix with
      | default =>
        have hRadix : EmitsRadix place (return ()) (return none) :=
          fun page => .pure page.write_nil.symm
        exact hNumber.numberText hRadix page
      | literal value =>
        have hRadix :
            EmitsRadix place (EmitM.write (", " ++ Text.ofNat value))
              (return some (.number (Text.ofNat value))) :=
          fun page => emits_write rfl
        exact hNumber.numberText hRadix page
      | dynamic =>
        cases hFirst with
        | none => exact hOrdinary
        | some hArgument =>
          have hDynamic := hNumber.numberText hArgument.radix page
          simp only [bind_assoc, pure_bind] at hDynamic
          exact hDynamic

/- The elements of an array literal go into its element type. -/
theorem emits_array
    {context : ValueContext} {node : Node} {elements : List Expr}
    (hElements : ∀ element,
      EmitsList place [] elements.length (emitExprs front (expecting element) [] elements)
        (lowerExprs (topSite front place.units) (expecting element) elements)) :
    EmitsExpr place (emitExpr front context (.array node elements))
      (lowerExpr (topSite front place.units) context (.array node elements)) := by
  intro page
  apply Emits.lowered
  intro type
  cases type.arrayElement? with
  | none => exact emits_fail
  | some element =>
    apply Emits.lowered
    intro _
    apply Emits.write
    have hList := hElements element
    cases elements with
    | nil =>
      show Emits place _ _ (Pure.pure (Target.Expr.array type [])) _
      exact emits_write (write_write _ _ _)
    | cons =>
      apply Emits.write
      apply (hList _).bind
      rintro values _ _ ⟨rfl, hLength⟩
      apply emits_write
      cases values with
      | nil => cases hLength
      | cons value values =>
        show _ = page.write
          (type.render ++ "(\x7b " ++ value.text ++ Target.trailingTexts values ++ " \x7d, " ++
            Text.ofNat (values.length + 1) ++ ")")
        rw [← hLength]
        simp only [write_write, separatedTexts, append_assoc, nil_append, length_cons]

mutual

theorem emits_emitExpr (context : ValueContext) (expr : Expr) :
    EmitsExpr place (emitExpr front context expr)
      (lowerExpr (topSite front place.units) context expr) := by
  intro page
  cases expr with
  | ident =>
    apply Emits.lowered
    intro emitted
    exact emits_write rfl
  | number | string => exact emits_write rfl
  | bool _ value => cases value <;> exact emits_write rfl
  | template _ quasis exprs =>
    apply Emits.write
    apply Emits.write
    apply (emits_emitExprs ValueContext.plain ", " exprs _).bind
    rintro values _ _ ⟨rfl, hLength⟩
    apply emits_write
    show _ = page.write
      (Native.stringFormat ++ "(\"" ++ Literal.formatText quasis values.length ++ "\"" ++
        Target.trailingTexts values ++ ")")
    simp only [write_write, separatedTexts_comma, hLength, append_assoc]
  | array _ elements =>
    have hElements := fun element => emits_emitExprs (expecting element) [] elements
    exact emits_array hElements page
  | object _ members =>
    cases members with
    | nil => exact emits_write rfl
    | cons first rest =>
      apply Emits.write
      apply (emits_emitMembers [] (first :: rest) _).bind
      rintro fields _ _ ⟨rfl, hLength⟩
      apply emits_write
      cases fields with
      | nil => cases hLength
      | cons field fields =>
        show _ = page.write ("\x7b " ++ field.text ++ Target.trailingFields fields ++ " \x7d")
        simp only [write_write, separatedFields, append_assoc, nil_append]
  | paren _ inner =>
    apply Emits.write
    apply (emits_emitExpr context.value inner _).bind
    rintro value _ _ rfl
    apply emits_write
    simp only [write_write]
    rfl
  | member _ object =>
    apply Emits.lowered
    intro type
    apply Emits.write
    apply (emits_emitExpr plain object _).bind
    rintro value _ _ rfl
    apply emits_write
    simp only [write_write, text_memberAccess]
  | index _ object index =>
    apply (emits_emitExpr plain object _).bind
    rintro first _ _ rfl
    apply Emits.write
    apply (emits_emitExpr plain index _).bind
    rintro second _ _ rfl
    apply emits_write
    simp only [write_write]
    rfl
  | call _ callee _ args =>
    have hReceiver := emits_emitReceiver? callee
    have hFirst := emits_emitFirst? args
    have hCallee := emits_emitExpr ValueContext.callee callee
    have hArgs := emits_emitExprs plain [] args
    exact emits_call hReceiver hFirst hCallee hArgs page
  | conditional _ condition thenExpr elseExpr =>
    apply (emits_emitExpr plain condition _).bind
    rintro first _ _ rfl
    apply Emits.write
    apply (emits_emitExpr context.value thenExpr _).bind
    rintro second _ _ rfl
    apply Emits.write
    apply (emits_emitExpr context.value elseExpr _).map
    rintro third _ _ rfl
    simp only [write_write]
    rfl
  | assertion _ inner =>
    simp only [emitExpr, lowerExpr]
    split
    · exact emits_emitExpr context inner page
    · apply Emits.lowered
      intro type
      cases floatLiteral? type inner with
      | some => exact emits_write rfl
      | none =>
        apply Emits.write
        have hInner := emits_emitExpr plain inner
        apply (hInner.wrapped inner.isCompound _).map
        rintro value _ _ rfl
        simp only [write_write]
        rfl
  | unary _ op operand =>
    simp only [emitExpr, lowerExpr]
    cases op.target? with
    | none => exact emits_fail
    | some =>
      apply Emits.write
      have hOperand := emits_emitExpr plain operand
      apply (hOperand.wrapped operand.isUnary _).map
      rintro value _ _ rfl
      exact write_write _ _ _
  | step _ _ operand =>
    apply (emits_emitExpr plain operand _).bind
    rintro value _ _ rfl
    apply emits_write
    simp only [write_write]
    rfl
  | binary _ op left right =>
    simp only [emitExpr, lowerExpr]
    cases op.target? with
    | none => exact emits_fail
    | some target =>
      apply (emits_emitExpr plain left _).bind
      rintro first _ _ rfl
      apply Emits.write
      apply Emits.lowered
      intro state
      apply (emits_emitExpr _ right _).bind
      rintro second _ _ rfl
      apply (emits_lowered front _).map
      rintro _ _ _ ⟨rfl, rfl⟩
      show _ = page.write (first.text ++ " " ++ target ++ " " ++ second.text)
      simp only [write_write, append_assoc]
  | null | this | new | arrow => exact emits_fail

theorem emits_emitReceiver? (expr : Expr) :
    Option.Rel (EmitsExpr place) (emitReceiver? front expr)
      (lowerReceiver? (topSite front place.units) expr) := by
  cases expr with
  | member _ object => exact .some (emits_emitExpr plain object)
  | _ => exact .none

theorem emits_emitFirst? (exprs : List Expr) :
    Option.Rel (EmitsExpr place) (emitFirst? front exprs)
      (lowerFirst? (topSite front place.units) exprs) := by
  cases exprs with
  | nil => exact .none
  | cons expr => exact .some (emits_emitExpr plain expr)

theorem emits_emitExprs (context : ValueContext) (separator : Text) (exprs : List Expr) :
    EmitsList place separator exprs.length (emitExprs front context separator exprs)
      (lowerExprs (topSite front place.units) context exprs) := by
  intro page
  cases exprs with
  | nil => exact .pure ⟨page.write_nil.symm, rfl⟩
  | cons expr rest =>
    apply Emits.write
    apply (emits_emitExpr context expr _).bind
    rintro first _ _ rfl
    apply (emits_emitExprs context ", " rest _).map
    rintro values _ _ ⟨rfl, hLength⟩
    refine ⟨?_, congrArg (· + 1) hLength⟩
    show _ = page.write (separator ++ first.text ++ trailingTexts values)
    simp only [write_write, separatedTexts_comma]

theorem emits_emitMembers (separator : Text) (members : List ObjectMember) (page : Page) :
    Emits place page (emitMembers front separator members)
      (lowerMembers (topSite front place.units) members)
      fun fields _ last =>
        last = page.write (separatedFields separator fields) ∧ fields.length = members.length := by
  cases members with
  | nil => exact .pure ⟨page.write_nil.symm, rfl⟩
  | cons member rest =>
    cases member with
    | property name value =>
      apply Emits.write
      apply Emits.write
      apply (emits_emitExpr plain value _).bind
      rintro first _ _ rfl
      apply (emits_emitMembers ", " rest _).map
      rintro fields _ _ ⟨rfl, hLength⟩
      refine ⟨?_, congrArg (· + 1) hLength⟩
      show _ = page.write
        (separator ++ ("." ++ name ++ " = " ++ first.text) ++ trailingFields fields)
      simp only [write_write, separatedFields_comma, append_assoc]
    | shorthand name =>
      apply Emits.write
      apply Emits.lowered
      intro emitted
      apply Emits.write
      apply (emits_emitMembers ", " rest _).map
      rintro fields _ _ ⟨rfl, hLength⟩
      refine ⟨?_, congrArg (· + 1) hLength⟩
      show _ = page.write (separator ++ ("." ++ name ++ " = " ++ emitted) ++ trailingFields fields)
      simp only [write_write, separatedFields_comma]
    | spread | method =>
      apply Emits.write
      exact emits_fail

end

end Expressions

-----
-- Declarators
-----

/- Declared names with a comma in front of each. -/
def trailingDeclarators : List Target.Declarator → Text
  | [] => []
  | declarator :: rest =>
      ", " ++ declarator.text ++ trailingDeclarators rest

theorem commaList_declarators (first : Target.Declarator) (rest : List Target.Declarator) :
    commaList ((first :: rest).map Target.Declarator.text) =
      first.text ++ trailingDeclarators rest := by
  induction rest generalizing first with
  | nil => exact (append_nil _).symm
  | cons next others ih =>
    show first.text ++ ", " ++ commaList ((next :: others).map Target.Declarator.text) =
      first.text ++ (", " ++ next.text ++ trailingDeclarators others)
    rw [ih]
    simp only [append_assoc]

/- The declarations of some names. -/
def declarations (vars : List (TypeName × Target.Declarator)) :
    List Target.Stmt :=
  vars.map fun entry => .declare entry.1 entry.2

section Statements

variable {front : Program} {place : EmitPlace}

theorem emits_emitDeclarator (type : TypeName) (declarator : Declarator) (page : Page) :
    Emits place page (emitDeclarator front type declarator)
      (lowerDeclarator (topSite front place.units) type declarator)
      fun value _ last => last = page.write value.text := by
  apply Emits.lowered
  intro name
  apply Emits.write
  cases declarator.init? with
  | none => exact .pure rfl
  | some init =>
    apply Emits.write
    apply (emits_emitExpr (expecting type) init _).bind
    rintro value _ _ rfl
    apply (emits_lowered front _).map
    rintro _ _ _ ⟨rfl, rfl⟩
    simp only [write_write]
    rfl

theorem emits_emitVars (declarators : List Declarator) (page : Page) :
    Emits place page (emitVars front declarators)
      (lowerVars (topSite front place.units) declarators)
      fun vars _ last =>
        last = writeStmts (declarations vars) page := by
  induction declarators generalizing page with
  | nil => exact .pure rfl
  | cons declarator _ ih =>
    apply Emits.lowered
    intro type
    apply Emits.write
    apply Emits.write
    apply (emits_emitDeclarator type declarator _).bind
    rintro lowered _ _ rfl
    apply Emits.write
    apply Emits.endLine
    apply (ih _).map
    rintro vars _ _ rfl
    show _ =
      writeStmts (declarations vars) (page.writeLine (type.render ++ " " ++ lowered.text ++ ";"))
    simp only [writeLine, write_write]

theorem emits_emitSameType (first : TypeName) (declarators : List Declarator) (page : Page) :
    Emits place page (emitSameType front first declarators)
      (lowerSameType (topSite front place.units) first declarators)
      fun vars _ last =>
        last = page.write (trailingDeclarators vars) := by
  induction declarators generalizing page with
  | nil => exact .pure page.write_nil.symm
  | cons declarator _ ih =>
    apply Emits.lowered
    intro type
    by_cases hType : type = first
    · rw [if_pos hType, if_pos hType]
      apply Emits.write
      apply (emits_emitDeclarator type declarator _).bind
      rintro lowered _ _ rfl
      apply (ih _).map
      rintro vars _ _ rfl
      simp only [write_write]
      rfl
    · rw [if_neg hType, if_neg hType]
      exact emits_fail

theorem emits_emitForInit (init? : Option ForInit) (page : Page) :
    Emits place page (emitForInit front init?) (lowerForInit (topSite front place.units) init?)
      fun init _ last => last = page.write init.text := by
  cases init? with
  | none => exact .pure page.write_nil.symm
  | some init =>
    cases init with
    | expr value =>
      apply (emits_emitExpr plain value _).map
      rintro lowered _ _ rfl
      rfl
    | vars _ declarators =>
      cases declarators with
      | nil => exact .pure page.write_nil.symm
      | cons declarator rest =>
        apply Emits.lowered
        intro type
        apply Emits.write
        apply Emits.write
        apply (emits_emitDeclarator type declarator _).bind
        rintro first _ _ rfl
        apply (emits_emitSameType type rest _).map
        rintro vars _ _ rfl
        show _ = page.write
          (type.render ++ " " ++ commaList ((first :: vars).map Target.Declarator.text))
        rw [commaList_declarators]
        simp only [write_write, append_assoc]

theorem emits_emitHeaderPart (expr? : Option Expr) (page : Page) :
    Emits place page (emitHeaderPart front expr?)
      (lowerExpr? (topSite front place.units) plain expr?)
      fun value? _ last =>
        last = page.write (headerPart value?) := by
  apply Emits.write
  cases expr? with
  | none => exact .pure rfl
  | some expr =>
    apply Emits.write
    apply (emits_emitExpr plain expr _).map
    rintro value _ _ rfl
    simp only [write_write]
    rfl

/- A returned value behind a blank, if there is one. -/
def returnedText : Option Target.Expr → Text
  | none => []
  | some value => " " ++ value.text

theorem emits_emitReturned (value? : Option Expr) (page : Page) :
    Emits place page (emitReturned front value?)
      (lowerExpr? (topSite front place.units) (returnContext place.returnType?) value?)
      fun lowered _ last =>
        last = page.write (returnedText lowered) := by
  cases value? with
  | none => exact .pure page.write_nil.symm
  | some value =>
    apply Emits.write
    apply Emits.returnType
    apply (emits_emitExpr (returnContext place.returnType?) value _).map
    rintro lowered _ _ rfl
    exact write_write _ _ _

-----
-- Statements
-----

theorem writeStmts_append (first second : List Target.Stmt) (page : Page) :
    writeStmts (first ++ second) page = writeStmts second (writeStmts first page) := by
  induction first generalizing page with
  | nil => rfl
  | cons stmt _ ih => exact ih (stmt.write page)

mutual

theorem emits_emitStmt (isBody : Bool) (stmt : Stmt) (page : Page) :
    Emits place page (emitStmt front isBody stmt)
      (lowerStmt (topSite front place.units) place.returnType? isBody stmt)
      fun stmts _ last => last = writeStmts stmts page := by
  cases stmt with
  | vars _ _ declarators =>
    apply (emits_emitVars declarators _).map
    rintro vars _ _ rfl
    rfl
  | block _ body =>
    have hBody := emits_emitStmts body
    cases isBody with
    | true => exact hBody page
    | false =>
      apply (Emits.braced hBody).inFrame.bind
      rintro lowered _ _ rfl
      exact emits_endLine rfl
  | ifElse _ condition thenStmt else? =>
    apply Emits.write
    apply (emits_emitExpr plain condition _).bind
    rintro first _ _ rfl
    apply Emits.write
    have hThen := emits_emitStmt true thenStmt
    apply (Emits.braced hThen).inFrame.bind
    rintro body _ _ rfl
    apply (emits_emitElse else? _).bind
    rintro rest _ _ rfl
    apply emits_endLine
    show _ =
      (rest.write
        (writeBraced (writeStmts body) (page.write ("if (" ++ first.text ++ ") ")))).endLine
    simp only [write_write]
  | whileLoop _ condition body =>
    apply Emits.write
    apply (emits_emitExpr plain condition _).bind
    rintro first _ _ rfl
    apply Emits.write
    have hBody := emits_emitStmt true body
    apply (Emits.braced hBody).inFrame.bind
    rintro lowered _ _ rfl
    apply emits_endLine
    show _ =
      (writeBraced (writeStmts lowered) (page.write ("while (" ++ first.text ++ ") "))).endLine
    simp only [write_write]
  | doLoop _ condition body =>
    apply Emits.write
    have hBody := emits_emitStmt true body
    apply (Emits.braced hBody).inFrame.bind
    rintro lowered _ _ rfl
    apply Emits.write
    apply (emits_emitExpr plain condition _).bind
    rintro first _ _ rfl
    apply Emits.write
    apply emits_endLine
    show _ =
      (writeBraced (writeStmts lowered)
        (page.write "do ")).writeLine (" while (" ++ first.text ++ ");")
    simp only [writeLine, write_write]
  | forLoop _ init? condition? update? body =>
    apply Emits.inFrame
    apply Emits.write
    apply (emits_emitForInit init? _).bind
    rintro init _ _ rfl
    apply (emits_emitHeaderPart condition? _).bind
    rintro condition _ _ rfl
    apply (emits_emitHeaderPart update? _).bind
    rintro update _ _ rfl
    apply Emits.write
    have hBody := emits_emitStmt true body
    apply (Emits.braced hBody).inFrame.bind
    rintro lowered _ _ rfl
    apply emits_endLine
    show _ =
      (writeBraced (writeStmts lowered)
        (page.write
          ("for (" ++ init.text ++ Target.headerPart condition ++
            Target.headerPart update ++ ") "))).endLine
    simp only [write_write]
  | ret _ value? =>
    apply Emits.write
    apply (emits_emitReturned value? _).bind
    rintro lowered _ _ rfl
    apply Emits.write
    apply emits_endLine
    simp only [write_write]
    cases lowered <;> rfl
  | expr _ value =>
    apply (emits_emitExpr plain value _).bind
    rintro lowered _ _ rfl
    apply Emits.write
    apply emits_endLine
    rw [write_write]
    rfl
  | breakLoop | continueLoop =>
    apply Emits.write
    exact emits_endLine rfl
  | empty => exact .pure rfl
  | _ => exact emits_fail

theorem emits_emitElse (else? : Option Stmt) (page : Page) :
    Emits place page (emitElse front else?)
      (lowerElse (topSite front place.units) place.returnType? else?)
      fun rest _ last => last = rest.write page := by
  cases else? with
  | none => exact .pure rfl
  | some stmt =>
    have hBranch := emits_emitStmt true stmt
    cases stmt with
    | ifElse _ condition thenStmt rest? =>
      apply Emits.write
      apply Emits.write
      apply (emits_emitExpr plain condition _).bind
      rintro first _ _ rfl
      apply Emits.write
      have hThen := emits_emitStmt true thenStmt
      apply (Emits.braced hThen).inFrame.bind
      rintro body _ _ rfl
      apply (emits_emitElse rest? _).map
      rintro rest _ _ rfl
      simp only [write_write]
      rfl
    | _ =>
      apply Emits.write
      apply (Emits.braced hBranch).inFrame.map
      rintro body _ _ rfl
      rfl

theorem emits_emitStmts (stmts : List Stmt) (page : Page) :
    Emits place page (emitStmts front stmts)
      (lowerStmts (topSite front place.units) place.returnType? stmts)
      fun lowered _ last =>
        last = writeStmts lowered page := by
  cases stmts with
  | nil => exact .pure rfl
  | cons stmt rest =>
    apply (emits_emitStmt false stmt _).bind
    rintro first _ _ rfl
    apply (emits_emitStmts rest _).map
    rintro lowered _ _ rfl
    exact (writeStmts_append first lowered page).symm

end

end Statements

-----
-- What a Statement Leaves
-----

/- A statement ends with its line. -/
theorem lineIsOpen_write (stmt : Target.Stmt) (page : Page) :
    (stmt.write page).lineIsOpen = false := by
  cases stmt with
  | ret value? => cases value? <;> exact lineIsOpen_endLine _
  | _ => exact lineIsOpen_endLine _

theorem lineIsOpen_writeStmts
    (stmts : List Target.Stmt) {page : Page} (h : page.lineIsOpen = false) :
    (writeStmts stmts page).lineIsOpen = false := by
  induction stmts generalizing page with
  | nil => exact h
  | cons stmt _ ih => exact ih (lineIsOpen_write stmt page)

/-
  What emission gives back, however it ends. The scopes have
  the same frames, and only the current one may have got new
  names; the page has the same targets and indentation.
-/
structure Emitter.Restored (before after : Emitter) : Prop where
  depth_eq :
    after.lowering.scope.depth = before.lowering.scope.depth
  current :
    FrameGrown before.lowering.scope.current after.lowering.scope.current
  outer :
    List.Forall₂ FrameKept before.lowering.scope.outer after.lowering.scope.outer
  targets_eq : after.page.targets = before.page.targets
  level_eq : after.page.current.level = before.page.current.level
  levels_eq : after.page.levels = before.page.levels
  units_eq : after.units = before.units
  returnType_eq : after.returnType? = before.returnType?

theorem Emitter.Restored.of_moved
    {before after : Emitter} (hScope : before.lowering.scope.Moved FrameGrown after.lowering.scope)
    (hPage : before.page.Kept after.page) (hUnits : after.units = before.units)
    (hReturn : after.returnType? = before.returnType?) :
    before.Restored after :=
  ⟨hScope.depth_eq, hScope.current, hScope.outer, hPage.targets_eq,
    hPage.level_eq, hPage.levels_eq, hUnits, hReturn⟩

/-
  Emitting a statement leaves the scopes, the indentation, the
  units and the return type as they were, also when it fails,
  and closes its lines. It writes what the statement is
  lowered to, and it fails where lowering fails, with the same
  error and the same state.
-/
theorem emission_restores_state (front : Program) (stmt : Stmt) (before : Emitter) :
    before.Restored (stateLeft (emitStatement front stmt before)) ∧
      (∀ after,
        emitStatement front stmt before = .ok () after →
          before.page.lineIsOpen = false → after.page.lineIsOpen = false) ∧
      (∀ stmts state,
        lowerStmt (topSite front before.units) before.returnType? false stmt before.lowering =
            .ok stmts state →
          emitStatement front stmt before =
            .ok ()
              { before with
                lowering := state
                page := Target.writeStmts stmts before.page }) ∧
      ∀ error state,
        lowerStmt (topSite front before.units) before.returnType? false stmt before.lowering =
            .error error state →
          ∃ page,
            emitStatement front stmt before =
              .error error { before with lowering := state, page := page } := by
  rcases before with ⟨place, state, page⟩
  have hMoves :=
    (@paired_lowerStmt (.anywhere (topSite front place.units) _) rfl place.returnType?
      false stmt (everyPart_anywhere rfl _)).moves state
  have hRun : EmitResult place page _ _ (emitStatement front stmt ⟨place, state, page⟩) :=
    emits_emitStmt false stmt page state
  dsimp only
  generalize
    lowerStmt (topSite front place.units) place.returnType? false stmt state =
      lowerRun at hMoves hRun ⊢
  generalize emitStatement front stmt ⟨place, state, page⟩ = emitRun at hRun ⊢
  cases hRun with
  | @ok stmts _ last finalPage hKept hLeft =>
      refine ⟨.of_moved hMoves hKept rfl rfl, ?_, ?_, ?_⟩
      · intro after hAfter hClosed
        cases hAfter
        rw [hLeft]
        exact lineIsOpen_writeStmts stmts hClosed
      · intro others final hLower
        cases hLower
        rw [hLeft]
      · intro error final hLower
        cases hLower
  | @error error last finalPage hKept =>
      refine ⟨.of_moved hMoves hKept rfl rfl, ?_, ?_, ?_⟩
      · intro after hAfter
        cases hAfter
      · intro stmts final hLower
        cases hLower
      · intro other final hLower
        cases hLower
        exact ⟨finalPage, rfl⟩

/-
  A loop that cannot be emitted to its end: the second name
  of a sum in its body is unknown.
-/
def tornLoop : Stmt :=
  .whileLoop ⟨1, ⟨0, 40⟩⟩ (.bool ⟨2, ⟨7, 11⟩⟩ true)
    (.block ⟨3, ⟨13, 40⟩⟩
      [.vars ⟨4, ⟨15, 25⟩⟩ .letKind
          [.mk ⟨5, ⟨19, 24⟩⟩ "x" (some ⟨"number", Span.nowhere⟩)
            (some (.number ⟨6, ⟨23, 24⟩⟩ "1"))],
        .expr ⟨7, ⟨27, 33⟩⟩
          (.binary ⟨8, ⟨27, 32⟩⟩ .plus (.ident ⟨9, ⟨27, 28⟩⟩ "x") (.ident ⟨10, ⟨31, 32⟩⟩ "y"))])

/- An emitter inside a function, which writes to a buffer. -/
def busyEmitter : Emitter :=
  ⟨⟨[⟨0, ⟨"main.ts", [], []⟩, none⟩], some TypeName.void, [], []⟩,
    LowerM.pushFrame LowerState.start,
    ((Page.empty 4).reserve.pushTarget 1).indent⟩

theorem busyEmitter_emission_restores_state :
    ∃ error after,
      emitStatement ⟨[], none, NodeTypes.empty, []⟩ tornLoop busyEmitter = .error error after ∧
      after.page.lineIsOpen = true ∧
      after.page.targets = [1] ∧
      after.page.current.level = 1 ∧
      busyEmitter.Restored after := by
  have hOpen :
      (stateLeft
        (emitStatement ⟨[], none, NodeTypes.empty, []⟩ tornLoop
          busyEmitter)).page.lineIsOpen = true := by
    decide +kernel
  have hClosed : busyEmitter.page.lineIsOpen = false := by decide +kernel
  rcases emission_restores_state ⟨[], none, NodeTypes.empty, []⟩ tornLoop busyEmitter with
    ⟨hRestored, hLine, _⟩
  cases hRun :
      emitStatement ⟨[], none, NodeTypes.empty, []⟩ tornLoop busyEmitter with
  | ok result after =>
      rw [hRun] at hOpen
      have hEnded := hLine after hRun hClosed
      exact absurd hOpen (by simp [stateLeft, hEnded])
  | error error after =>
      rw [hRun] at hOpen hRestored
      exact ⟨error, after, rfl, hOpen, hRestored.targets_eq, hRestored.level_eq, hRestored⟩

end ScriptLowering
