import ScriptLowering.Lowering.Compile
import ScriptLowering.Proofs.EventLog

/-
  Lowering with its course: the states that it comes by, the
  types that it writes and the signatures that it records, in
  order and also when it fails in the end. A course does the
  same as lowering, one action on the state at a time, and
  keeps a record of it. Deciding a type counts as one action,
  since it only adds to what is known.

  Key theorems include:
    * `result_stmtCourse`
    * `result_stepsCourse`
-/

namespace ScriptLowering

open ValueContext List

-----
-- Courses
-----

/- What lowering comes by. -/
inductive Moment where
  | reached (state : LowerState)
  | written (type : TypeName)
  | recorded (signature : Target.Signature)

/-
  A computation on the state, with what it comes by. It is in
  the state it started in until it reaches another one.
-/
structure Course (α : Type) where
  moments : LowerState → List Moment
  result : LowerM α
  reaches :
    ∀ state, stateLeft (result state) = state ∨ .reached (stateLeft (result state)) ∈ moments state

namespace Course

variable {α β : Type}

/- A value comes by nothing. -/
def pure (value : α) : Course α where
  moments _ := []
  result := Pure.pure value
  reaches _ := Or.inl rfl

/- The moments of what comes next, unless the first part fails. -/
def bindMoments (first : Course α) (next : α → Course β) (state : LowerState) : List Moment :=
  first.moments state ++
    match first.result state with
    | .ok value middle => (next value).moments middle
    | .error _ _ => []

/- The state left is that of the last part that moved. -/
theorem reaches_bind (first : Course α) (next : α → Course β) (state : LowerState) :
    stateLeft ((first.result >>= fun value => (next value).result) state) = state ∨
      .reached (stateLeft ((first.result >>= fun value => (next value).result) state)) ∈
        bindMoments first next state := by
  have hFirst := first.reaches state
  show
    stateLeft (EStateM.bind first.result (fun value => (next value).result) state) = state ∨
      .reached (stateLeft (EStateM.bind first.result (fun value => (next value).result) state)) ∈
        bindMoments first next state
  unfold EStateM.bind bindMoments
  cases hRun : first.result state with
  | error =>
    rw [hRun] at hFirst
    exact hFirst.imp_right (mem_append_left _)
  | ok value middle =>
    rw [hRun] at hFirst
    rcases (next value).reaches middle with hSame | hReached
    · simp only [hSame]
      exact hFirst.imp_right (mem_append_left _)
    · exact .inr (mem_append_right _ hReached)

/- One course after another. -/
def bind (first : Course α) (next : α → Course β) : Course β where
  moments := bindMoments first next
  result := first.result >>= fun value => (next value).result
  reaches := reaches_bind first next

instance : Monad Course where
  pure := pure
  bind := bind

/- An action, which reaches the state that it leaves. -/
def act (action : LowerM α) : Course α where
  moments state := [.reached (stateLeft (action state))]
  result := action
  reaches _ := Or.inr mem_cons_self

/- Take down a moment. -/
def note (moment : Moment) : Course Unit where
  moments _ := [moment]
  result := Pure.pure ()
  reaches _ := Or.inl rfl

/- A nested frame is entered before and left after all else. -/
def frameMoments (course : Course α) (state : LowerState) : List Moment :=
  let entered := LowerM.pushFrame state
  let last := stateLeft (course.result entered)
  .reached entered :: course.moments entered ++ [.reached (LowerM.popFrame last)]

/- The frame is left by success and by failure alike. -/
theorem stateLeft_inFrame (action : LowerM α) (state : LowerState) :
    stateLeft (LowerM.inFrame action state) =
      LowerM.popFrame (stateLeft (action (LowerM.pushFrame state))) := by
  unfold LowerM.inFrame
  cases action (LowerM.pushFrame state) with
  | ok | error => rfl

/- Run inside a new frame, which is left in any case. -/
def inFrame (course : Course α) : Course α where
  moments := frameMoments course
  result := LowerM.inFrame course.result
  reaches state := by
    rw [stateLeft_inFrame]
    exact Or.inr (mem_append_right _ mem_cons_self)

/- Forgetting the moments turns a course into lowering. -/
@[simp] theorem result_pure (value : α) :
    (Pure.pure value : Course α).result = Pure.pure value :=
  rfl

@[simp] theorem result_bind (first : Course α) (next : α → Course β) :
    (first >>= next).result = first.result >>= fun value => (next value).result :=
  rfl

@[simp] theorem result_act (action : LowerM α) :
    (act action).result = action :=
  rfl

@[simp] theorem result_note (moment : Moment) :
    (note moment).result = Pure.pure () :=
  rfl

@[simp] theorem result_inFrame (course : Course α) :
    (inFrame course).result = LowerM.inFrame course.result :=
  rfl

end Course

-----
-- Courses Of Expressions
-----

open Course LowerM

/- Decide a written type, mark its structs, and take it down. -/
def typeCourse (site : Site) (span : Span) (type : TypeText) : Course TypeName := do
  let type ← act (typed site span (TypeTable.canonicalize type.text))
  act (markUsed type)
  note (.written type)
  return type

/- Type arguments are decided from left to right. -/
def typesCourse (site : Site) (span : Span) : List TypeText → Course (List TypeName)
  | [] => return []
  | type :: rest => do
      let first ← typeCourse site span type
      let types ← typesCourse site span rest
      return first :: types

mutual

/-
  The course of an expression. Types are written for array
  literals, addresses and assertions; all other actions
  only look at the state or change it.
-/
def exprCourse (site : Site) (context : ValueContext) : Expr → Course Target.Expr
  | .ident node name => do
      let emitted ← act (qualified site node.span name)
      return .name emitted
  | .number _ text => return .number (Literal.number text)
  | .bool _ value => return .bool value
  | .string _ value => return .string value
  | .template _ quasis exprs => do
      let values ← exprsCourse site plain exprs
      return .format quasis values
  | .array node elements => do
      let type ←
        act (arrayType site context (.array node elements))
      match type.arrayElement? with
      | none => act (fail site node.span (.arrayLiteral type))
      | some element => do
          act (markUsed type)
          note (.written type)
          let elements ←
            exprsCourse site (expecting element) elements
          return .array type elements
  | .object _ members => do
      let fields ← membersCourse site members
      return .record fields
  | .paren _ inner => do
      let inner ← exprCourse site context.value inner
      return .paren inner
  | .member _ object property => do
      let type ← act (exprType site object.span object)
      let object ← exprCourse site plain object
      return memberAccess context type object property
  | .index _ object index => do
      let object ← exprCourse site plain object
      let index ← exprCourse site plain index
      return .index object index
  | .call node callee typeArgs args => do
      match ← act (kindOfCall site node.span callee args),
          receiverCourse? site callee, firstCourse? site args with
      | .pointer, _, some operand => do
          let type ←
            act (exprType site node.span (.call node callee typeArgs args))
          act (markUsed type)
          note (.written type)
          let operand ← operand
          return .addressOf type operand
      | .numberToString .dynamic, some receiver, some radix => do
          let number ← receiver
          let radix ← radix
          return .numberText number (some radix)
      | .numberToString (.literal value), some receiver, _ => do
          let number ← receiver
          return .numberText number (some (.number (Text.ofNat value)))
      | .numberToString .default, some receiver, _ => do
          let number ← receiver
          return .numberText number none
      | _, _, _ => do
          let callee ← exprCourse site ValueContext.callee callee
          let types ← typesCourse site node.span typeArgs
          let args ← exprsCourse site plain args
          return .call callee types args
  | .conditional _ condition thenExpr elseExpr => do
      let condition ← exprCourse site plain condition
      let thenExpr ← exprCourse site context.value thenExpr
      let elseExpr ← exprCourse site context.value elseExpr
      return .conditional condition thenExpr elseExpr
  | .assertion node inner written =>
      if written.isConst then
        exprCourse site context inner
      else do
        let type ← typeCourse site node.span written
        match floatLiteral? type inner with
        | some literal => return .number literal
        | none => do
            let operand ← exprCourse site plain inner
            return .cast type (wrapIf inner.isCompound operand)
  | .unary node op operand =>
      match op.target? with
      | none => act (fail site node.span (.unaryOperator op.spelling))
      | some target => do
          let lowered ← exprCourse site plain operand
          return .unary target (wrapIf operand.isUnary lowered)
  | .step _ op operand => do
      let operand ← exprCourse site plain operand
      return .step operand op.spelling
  | .binary node op left right =>
      match op.target? with
      | none =>
          act (fail site node.span (.binaryOperator op.spelling))
      | some target => do
          let lowered ← exprCourse site plain left
          let state ← act get
          let value ←
            exprCourse site (assignedContext op left state.scope) right
          act (markAssigned site op left)
          return .binary lowered target value
  | expr => act (fail site expr.span (.expression expr.kindName))

/- The receiver of a method call, if there is one. -/
def receiverCourse? (site : Site) : Expr → Option (Course Target.Expr)
  | .member _ object _ =>
      some (exprCourse site plain object)
  | _ => none

/- The argument that a special call takes. -/
def firstCourse? (site : Site) : List Expr → Option (Course Target.Expr)
  | [] => none
  | expr :: _ => some (exprCourse site plain expr)

def exprsCourse (site : Site) (context : ValueContext) :
    List Expr → Course (List Target.Expr)
  | [] => return []
  | expr :: rest => do
      let first ← exprCourse site context expr
      let exprs ← exprsCourse site context rest
      return first :: exprs

/- Fields are lowered in order, up to one that is refused. -/
def membersCourse (site : Site) :
    List ObjectMember → Course (List Target.FieldInit)
  | [] => return []
  | .property name value :: rest => do
      let value ← exprCourse site plain value
      let fields ← membersCourse site rest
      return .mk name value :: fields
  | .shorthand name :: rest => do
      let emitted ← act (qualified site Span.nowhere name)
      let fields ← membersCourse site rest
      return .mk name (.name emitted) :: fields
  | .spread value :: _ => act (fail site value.span .objectSpread)
  | .method name :: _ =>
      act (fail site Span.nowhere (.objectMethod name))

end

/- Parts that may be missing. -/
def exprCourse? (site : Site) (context : ValueContext) :
    Option Expr → Course (Option Target.Expr)
  | none => return none
  | some expr => do
      let lowered ← exprCourse site context expr
      return some lowered

-----
-- Courses Of Statements
-----

/-
  A variable is declared before its value is lowered. The
  root frame also knows the unit that it comes from.
-/
def bindingCourse (site : Site) (declarator : Declarator) : Course TypeName := do
  let type ←
    act
      (typed site declarator.node.span
        (declaredType site.program.types declarator.node.id declarator.type?))
  let state ← act get
  let origin? := if state.scope.isRoot then site.origin? else none
  act (declare site declarator.node.span declarator.name type origin?)
  return type

/- A variable is initialized once its value is lowered. -/
def declaratorCourse
    (site : Site) (type : TypeName) (declarator : Declarator) : Course Target.Declarator := do
  let name ←
    act (qualified site declarator.node.span declarator.name)
  match declarator.init? with
  | none => return ⟨name, none⟩
  | some init => do
      let value ← exprCourse site (expecting type) init
      act (markInitialized site declarator.node.span declarator.name)
      return ⟨name, some value⟩

/- A later variable may use the earlier ones. -/
def varsCourse (site : Site) :
    List Declarator → Course (List (TypeName × Target.Declarator))
  | [] => return []
  | declarator :: rest => do
      let type ← bindingCourse site declarator
      let lowered ← declaratorCourse site type declarator
      let vars ← varsCourse site rest
      return (type, lowered) :: vars

/- The variables of a loop have one type. -/
def sameTypeCourse (site : Site) (first : TypeName) :
    List Declarator → Course (List Target.Declarator)
  | [] => return []
  | declarator :: rest => do
      let type ← bindingCourse site declarator
      if type = first then do
        let lowered ← declaratorCourse site type declarator
        let vars ← sameTypeCourse site first rest
        return lowered :: vars
      else
        act (fail site declarator.node.span (.mixedLoopTypes first type))

/- An empty list of variables declares nothing. -/
def forInitCourse (site : Site) :
    Option ForInit → Course Target.ForInit
  | none => return .none
  | some (.expr value) => do
      let value ← exprCourse site plain value
      return .expr value
  | some (.vars _ []) => return .none
  | some (.vars _ (declarator :: rest)) => do
      let type ← bindingCourse site declarator
      let first ← declaratorCourse site type declarator
      let vars ← sameTypeCourse site type rest
      return .declare type (first :: vars)

mutual

/-
  The course of a statement. A block that is the body of
  another statement shares the frame of that statement.
-/
def stmtCourse (site : Site) (returnType? : Option TypeName) (isBody : Bool) :
    Stmt → Course (List Target.Stmt)
  | .vars _ _ declarators => do
      let vars ← varsCourse site declarators
      return vars.map fun entry => .declare entry.1 entry.2
  | .block _ body =>
      if isBody then
        stmtsCourse site returnType? body
      else do
        let body ←
          Course.inFrame (stmtsCourse site returnType? body)
        return [.block body]
  | .ifElse _ condition thenStmt else? => do
      let condition ← exprCourse site plain condition
      let body ←
        Course.inFrame (stmtCourse site returnType? true thenStmt)
      let rest ← elseCourse site returnType? else?
      return [.branch condition body rest]
  | .whileLoop _ condition body => do
      let condition ← exprCourse site plain condition
      let body ←
        Course.inFrame (stmtCourse site returnType? true body)
      return [.whileLoop condition body]
  | .doLoop _ condition body => do
      let body ←
        Course.inFrame (stmtCourse site returnType? true body)
      let condition ← exprCourse site plain condition
      return [.doLoop body condition]
  | .forLoop _ init? condition? update? body =>
      Course.inFrame do
        let init ← forInitCourse site init?
        let condition ←
          exprCourse? site plain condition?
        let update ← exprCourse? site plain update?
        let body ←
          Course.inFrame (stmtCourse site returnType? true body)
        return [.forLoop init condition update body]
  | .ret _ value? => do
      let value ← exprCourse? site (returnContext returnType?) value?
      return [.ret value]
  | .expr _ value => do
      let value ← exprCourse site plain value
      return [.expr value]
  | .breakLoop _ => return [.breakLoop]
  | .continueLoop _ => return [.continueLoop]
  | .empty _ => return []
  | stmt =>
      act (fail site stmt.span (.nestedStatement stmt.kindName))

/- A chain of branches opens one frame for each of them. -/
def elseCourse (site : Site) (returnType? : Option TypeName) :
    Option Stmt → Course Target.Else
  | none => return .none
  | some (.ifElse _ condition thenStmt else?) => do
      let condition ← exprCourse site plain condition
      let body ←
        Course.inFrame (stmtCourse site returnType? true thenStmt)
      let rest ← elseCourse site returnType? else?
      return .branch condition body rest
  | some stmt => do
      let body ←
        Course.inFrame (stmtCourse site returnType? true stmt)
      return .body body

/- One statement may become several, or none. -/
def stmtsCourse (site : Site) (returnType? : Option TypeName) :
    List Stmt → Course (List Target.Stmt)
  | [] => return []
  | stmt :: rest => do
      let first ← stmtCourse site returnType? false stmt
      let stmts ← stmtsCourse site returnType? rest
      return first ++ stmts

end

-----
-- Courses Of Units
-----

/-
  Functions and types are known before any statement. Only
  the first function of a name is declared.
-/
def registerCourse (site : Site) (bound : List Text) : List Stmt → Course Unit
  | [] => return ()
  | .function node head _ :: rest =>
      if bound.contains head.name then
        registerCourse site bound rest
      else do
        act (declareInitialized site node.span head.name TypeName.function site.origin?)
        registerCourse site (head.name :: bound) rest
  | .interface node decl :: rest => do
      let _ ← act (typed site node.span (TypeTable.declareInterface decl))
      registerCourse site bound rest
  | .typeAlias node decl :: rest => do
      let _ ← act (typed site node.span (TypeTable.declareAlias decl))
      registerCourse site bound rest
  | _ :: rest => registerCourse site bound rest

/- Parameters count as initialized. -/
def paramsCourse (site : Site) :
    List Param → Course (List (Text × TypeName))
  | [] => return []
  | param :: rest => do
      let type ←
        act (typed site param.node.span (declaredType site.program.types param.node.id param.type?))
      act (declareInitialized site param.node.span param.name type none)
      let params ← paramsCourse site rest
      return (param.name, type) :: params

/- A signature is recorded before the body is lowered. -/
def functionCourse
    (site : Site) (node : Node) (head : FunctionHead)
    (body? : Option (List Stmt)) : Course Target.Item := do
  let name ← act (qualified site node.span head.name)
  let type ← act (returnType site node head)
  act (markUsed type)
  Course.inFrame do
    let params ← paramsCourse site head.params
    note (.recorded ⟨name, params, type⟩)
    match body? with
    | none => return .function ⟨name, params, type⟩ none
    | some body => do
        let body ← stmtsCourse site (some type) body
        return .function ⟨name, params, type⟩ (some body)

/- A name that the root frame knows is not declared again. -/
def nativeCourse (site : Site) : List ImportName → Course Unit
  | [] => return ()
  | name :: rest => do
      let state ← act get
      if (state.scope.lookupRoot? name.name).isSome then
        nativeCourse site rest
      else do
        let type ←
          act (typed site name.node.span (declaredType site.program.types name.node.id none))
        act (declareInitialized site name.node.span name.name type none)
        nativeCourse site rest

/- Names of a unit are only checked to be provided. -/
def importCourse
    (site : Site) (node : Node) (specifier : Text) (clause : ImportClause) : Course Unit := do
  let names ← act (importNames site node.span clause)
  match site.program.resolveModule? site.unitId specifier with
  | none => act (fail site node.span (.unresolvedModule specifier))
  | some .native => nativeCourse site names
  | some (.unit id) =>
      if (site.program.unit? id).isSome then
        act (checkProvided site specifier names)
      else
        act (fail site node.span (.missingUnit specifier))

/- Types were registered when the unit was entered. -/
def topLevelCourse (site : Site) : Stmt → Course (List Target.Item)
  | .function node head body? => do
      let item ← functionCourse site node head body?
      return [item]
  | .importFrom node specifier clause => do
      importCourse site node specifier clause
      return []
  | .interface _ _ => return []
  | .typeAlias _ _ => return []
  | .vars _ _ declarators => do
      let vars ← varsCourse site declarators
      return vars.map fun entry => .global entry.1 entry.2
  | stmt =>
      act (fail site stmt.span (.topLevelStatement stmt.kindName))

/- A unit is entered once, before its statements. -/
def stepCourse : Step → Course (List Target.Item)
  | .enter site => do
      registerCourse site [] site.unit.statements
      return []
  | .statement site stmt => topLevelCourse site stmt

def stepsCourse : List Step → Course (List Target.Item)
  | [] => return []
  | step :: rest => do
      let first ← stepCourse step
      let items ← stepsCourse rest
      return first ++ items

-----
-- Courses And Lowering
-----

variable (site : Site)

/- Taking down a type does not change what is lowered. -/
@[simp] theorem result_typeCourse (span : Span) (type : TypeText) :
    (typeCourse site span type).result = writtenType site span type := by
  simp [typeCourse, writtenType]

@[simp] theorem result_typesCourse (span : Span) (types : List TypeText) :
    (typesCourse site span types).result = writtenTypes site span types := by
  induction types with
  | nil => rfl
  | cons _ _ ih => simp [typesCourse, writtenTypes, ih]

mutual

/-
  By induction on expressions. Most cases unfold both
  sides, a call is split by its kind.
-/
theorem result_exprCourse (site : Site) (context : ValueContext) (expr : Expr) :
    (exprCourse site context expr).result = lowerExpr site context expr := by
  cases expr with
  | ident => simp [exprCourse, lowerExpr]
  | number | bool | string | null | this | new | arrow => rfl
  | template _ _ exprs => simp [exprCourse, lowerExpr, result_exprsCourse site _ exprs]
  | array _ elements =>
    simp only [exprCourse, lowerExpr, Course.result_bind, Course.result_act]
    congr 1
    funext type
    cases type.arrayElement? with
    | none => rfl
    | some => simp [result_exprsCourse site _ elements]
  | object _ members => simp [exprCourse, lowerExpr, result_membersCourse site members]
  | paren _ inner | member _ inner | step _ _ inner =>
    simp [exprCourse, lowerExpr, result_exprCourse site _ inner]
  | index _ object index =>
    simp [exprCourse, lowerExpr, result_exprCourse site _ object, result_exprCourse site _ index]
  | call node callee typeArgs args =>
    simp only [exprCourse, lowerExpr, Course.result_bind, Course.result_act]
    congr 1
    funext kind
    rw [← result_receiverCourse? site callee, ← result_firstCourse? site args]
    have hOrdinary :
        (do
            let callee ← exprCourse site ValueContext.callee callee
            let types ← typesCourse site node.span typeArgs
            let args ← exprsCourse site plain args
            return Target.Expr.call callee types args :
              Course Target.Expr).result =
          (do
            let callee ← lowerExpr site ValueContext.callee callee
            let types ← writtenTypes site node.span typeArgs
            let args ← lowerExprs site plain args
            return Target.Expr.call callee types args) := by
      simp [result_exprCourse site _ callee, result_exprsCourse site _ args]
    cases kind with
    | ordinary => exact hOrdinary
    | pointer =>
      cases firstCourse? site args with
      | none => exact hOrdinary
      | some => simp
    | numberToString radix =>
      cases receiverCourse? site callee with
      | none => cases radix <;> exact hOrdinary
      | some =>
        cases radix with
        | default | literal => rfl
        | dynamic =>
          cases firstCourse? site args with
          | none => exact hOrdinary
          | some => rfl
  | conditional _ condition thenExpr elseExpr =>
    simp [exprCourse, lowerExpr, result_exprCourse site _ condition,
      result_exprCourse site _ thenExpr,
      result_exprCourse site _ elseExpr]
  | assertion _ inner =>
    unfold exprCourse lowerExpr
    split
    · exact result_exprCourse site context inner
    · simp only [Course.result_bind, result_typeCourse]
      congr 1
      funext type
      cases floatLiteral? type inner with
      | some => rfl
      | none => simp [result_exprCourse site _ inner]
  | unary _ op operand =>
    unfold exprCourse lowerExpr
    cases op.target? with
    | none => rfl
    | some => simp [result_exprCourse site _ operand]
  | binary _ op left right =>
    unfold exprCourse lowerExpr
    cases op.target? with
    | none => rfl
    | some => simp [result_exprCourse site _ left, result_exprCourse site _ right]

/- Both have a receiver or none. -/
theorem result_receiverCourse? (site : Site) (expr : Expr) :
    (receiverCourse? site expr).map Course.result = lowerReceiver? site expr := by
  cases expr with
  | member _ object => simp [receiverCourse?, lowerReceiver?, result_exprCourse site _ object]
  | _ => rfl

theorem result_firstCourse? (site : Site) (exprs : List Expr) :
    (firstCourse? site exprs).map Course.result = lowerFirst? site exprs := by
  cases exprs with
  | nil => rfl
  | cons expr => simp [firstCourse?, lowerFirst?, result_exprCourse site _ expr]

theorem result_exprsCourse (site : Site) (context : ValueContext) (exprs : List Expr) :
    (exprsCourse site context exprs).result = lowerExprs site context exprs := by
  cases exprs with
  | nil => rfl
  | cons expr rest =>
    simp [exprsCourse, lowerExprs, result_exprCourse site context expr,
      result_exprsCourse site context rest]

theorem result_membersCourse (site : Site) (members : List ObjectMember) :
    (membersCourse site members).result = lowerMembers site members := by
  cases members with
  | nil => rfl
  | cons member rest =>
    cases member with
    | property _ value =>
      simp [membersCourse, lowerMembers, result_exprCourse site _ value,
        result_membersCourse site rest]
    | shorthand => simp [membersCourse, lowerMembers, result_membersCourse site rest]
    | spread | method => rfl

end

@[simp] theorem result_exprCourse? (context : ValueContext) (expr? : Option Expr) :
    (exprCourse? site context expr?).result = lowerExpr? site context expr? := by
  cases expr? with
  | none => rfl
  | some expr => simp [exprCourse?, lowerExpr?, result_exprCourse site context expr]

@[simp] theorem result_bindingCourse (declarator : Declarator) :
    (bindingCourse site declarator).result = bindDeclarator site declarator :=
  rfl

/- A variable without a value is never marked. -/
@[simp] theorem result_declaratorCourse (type : TypeName) (declarator : Declarator) :
    (declaratorCourse site type declarator).result = lowerDeclarator site type declarator := by
  unfold declaratorCourse lowerDeclarator
  cases declarator.init? with
  | none => rfl
  | some init => simp [result_exprCourse site _ init]

@[simp] theorem result_varsCourse (declarators : List Declarator) :
    (varsCourse site declarators).result = lowerVars site declarators := by
  induction declarators with
  | nil => rfl
  | cons _ _ ih => simp [varsCourse, lowerVars, ih]

/- Both sides compare types before going on. -/
@[simp] theorem result_sameTypeCourse (first : TypeName) (declarators : List Declarator) :
    (sameTypeCourse site first declarators).result = lowerSameType site first declarators := by
  induction declarators with
  | nil => rfl
  | cons _ _ ih =>
    simp only [sameTypeCourse, lowerSameType, Course.result_bind, result_bindingCourse]
    congr 1
    funext type
    by_cases hType : type = first
    · simp [hType, ih]
    · simp [hType]

@[simp] theorem result_forInitCourse (init? : Option ForInit) :
    (forInitCourse site init?).result = lowerForInit site init? := by
  unfold forInitCourse lowerForInit
  split
  · rfl
  · simp [result_exprCourse]
  · rfl
  · simp

mutual

/- By induction on statements, which share their frames. -/
theorem result_stmtCourse
    (site : Site) (returnType? : Option TypeName) (isBody : Bool) (stmt : Stmt) :
    (stmtCourse site returnType? isBody stmt).result = lowerStmt site returnType? isBody stmt := by
  cases stmt with
  | vars | ret => simp [stmtCourse, lowerStmt]
  | block _ body =>
    have hBody := result_stmtsCourse site returnType? body
    cases isBody with
    | true => simpa [stmtCourse, lowerStmt] using hBody
    | false => simp [stmtCourse, lowerStmt, hBody]
  | ifElse _ _ thenStmt else? =>
    simp [stmtCourse, lowerStmt, result_exprCourse,
      result_stmtCourse site returnType? true thenStmt,
      result_elseCourse site returnType? else?]
  | whileLoop _ _ body | doLoop _ _ body =>
    simp [stmtCourse, lowerStmt, result_exprCourse, result_stmtCourse site returnType? true body]
  | forLoop _ _ _ _ body =>
    simp [stmtCourse, lowerStmt, result_stmtCourse site returnType? true body]
  | expr => simp [stmtCourse, lowerStmt, result_exprCourse]
  | _ => rfl

/- A chain of branches is followed to its end. -/
theorem result_elseCourse (site : Site) (returnType? : Option TypeName) (else? : Option Stmt) :
    (elseCourse site returnType? else?).result = lowerElse site returnType? else? := by
  cases else? with
  | none => rfl
  | some stmt =>
    have hBranch := result_stmtCourse site returnType? true stmt
    cases stmt with
    | ifElse _ _ thenStmt rest? =>
      simp [elseCourse, lowerElse, result_exprCourse,
        result_stmtCourse site returnType? true thenStmt,
        result_elseCourse site returnType? rest?]
    | _ => simp [elseCourse, lowerElse, hBranch]

theorem result_stmtsCourse (site : Site) (returnType? : Option TypeName) (stmts : List Stmt) :
    (stmtsCourse site returnType? stmts).result = lowerStmts site returnType? stmts := by
  cases stmts with
  | nil => rfl
  | cons stmt rest =>
    simp [stmtsCourse, lowerStmts, result_stmtCourse site returnType? false stmt,
      result_stmtsCourse site returnType? rest]

end

/- The functions bound so far are the same on both sides. -/
@[simp] theorem result_registerCourse (bound : List Text) (stmts : List Stmt) :
    (registerCourse site bound stmts).result = register site bound stmts := by
  fun_induction register site bound stmts with
  | case1 => rfl
  | case2 _ _ _ _ _ hBound ih =>
    rw [registerCourse, if_pos hBound]
    exact ih
  | case3 _ _ _ _ _ hBound ih =>
    rw [registerCourse, if_neg hBound]
    simp [ih]
  | case4 _ _ _ _ ih | case5 _ _ _ _ ih => simp [registerCourse, ih]
  | case6 _ _ _ hFunction hInterface hAlias ih =>
    rw [registerCourse]
    · exact ih
    · exact hFunction
    · exact hInterface
    · exact hAlias

@[simp] theorem result_paramsCourse (params : List Param) :
    (paramsCourse site params).result = lowerParams site params := by
  induction params with
  | nil => rfl
  | cons _ _ ih => simp [paramsCourse, lowerParams, ih]

/- Recording a signature leaves the state as it was. -/
@[simp] theorem result_functionCourse
    (node : Node) (head : FunctionHead) (body? : Option (List Stmt)) :
    (functionCourse site node head body?).result = lowerFunction site node head body? := by
  cases body? with
  | none => simp [functionCourse, lowerFunction]
  | some => simp [functionCourse, lowerFunction, result_stmtsCourse]

@[simp] theorem result_nativeCourse (names : List ImportName) :
    (nativeCourse site names).result = bindNative site names := by
  induction names with
  | nil => rfl
  | cons name _ ih =>
    simp only [nativeCourse, bindNative, Course.result_bind, Course.result_act]
    congr 1
    funext state
    by_cases hBound :
        (state.scope.lookupRoot? name.name).isSome = true
    · simp [hBound, ih]
    · simp [hBound, ih]

/- The same names are checked, or refused. -/
@[simp] theorem result_importCourse (node : Node) (specifier : Text) (clause : ImportClause) :
    (importCourse site node specifier clause).result = lowerImport site node specifier clause := by
  simp only [importCourse, lowerImport, Course.result_bind, Course.result_act]
  congr 1
  funext names
  cases site.program.resolveModule? site.unitId specifier with
  | none => rfl
  | some target =>
    cases target with
    | native => simp
    | unit id =>
      by_cases hUnit : (site.program.unit? id).isSome = true
      · simp [hUnit]
      · simp [hUnit]

/- A course of a statement of a unit has the result of lowering. -/
@[simp] theorem result_topLevelCourse (stmt : Stmt) :
    (topLevelCourse site stmt).result = lowerTopLevel site stmt := by
  cases stmt with
  | function | importFrom | vars => simp [topLevelCourse, lowerTopLevel]
  | _ => rfl

@[simp] theorem result_stepCourse (step : Step) :
    (stepCourse step).result = lowerStep step := by
  cases step with
  | enter | statement => simp [stepCourse, lowerStep]

/- Both run the same steps in the same order. -/
@[simp] theorem result_stepsCourse (steps : List Step) :
    (stepsCourse steps).result = lowerSteps steps := by
  induction steps with
  | nil => rfl
  | cons _ _ ih => simp [stepsCourse, lowerSteps, ih]

/- More steps add moments behind those of the first ones. -/
theorem moments_stepsCourse_subset (done rest : List Step) (state : LowerState) :
    (stepsCourse done).moments state ⊆ (stepsCourse (done ++ rest)).moments state := by
  induction done generalizing state with
  | nil => exact nil_subset _
  | cons step more ih =>
    intro moment hMoment
    rcases mem_append.mp hMoment with hFirst | hLater
    · exact mem_append_left _ hFirst
    · refine mem_append_right _ ?_
      cases hRun : (stepCourse step).result state with
      | error =>
        rw [hRun] at hLater
        cases hLater
      | ok _ middle =>
        rw [hRun] at hLater
        rcases mem_append.mp hLater with hMore | hEnd
        · exact mem_append_left _ (ih middle hMore)
        · cases hMany : (stepsCourse more).result middle with
          | error | ok =>
            rw [hMany] at hEnd
            cases hEnd

/- The site that compilation starts at. -/
def Program.startSite? (program : Program) : Option Site :=
  program.entryUnit?.bind program.entrySite?

/-
  All that compiling a program comes by, from the start of
  lowering to its end or to where it fails.
-/
def Program.moments (program : Program) : List Moment :=
  match program.startSite? with
  | none => []
  | some site =>
      .reached LowerState.start ::
        (stepsCourse (program.steps site)).moments LowerState.start

/- The state after any number of steps is one of the moments. -/
theorem Program.reached_mem_moments
    {program : Program} {site : Site} (hStart : program.startSite? = some site)
    {done rest : List Step} (hSteps : program.steps site = done ++ rest) :
    .reached (stateLeft (lowerSteps done LowerState.start)) ∈ program.moments := by
  simp only [Program.moments, hStart, hSteps]
  have hReached := (stepsCourse done).reaches LowerState.start
  rw [result_stepsCourse] at hReached
  rcases hReached with hSame | hMem
  · rw [hSame]
    exact mem_cons_self
  · exact mem_cons_of_mem _ (moments_stepsCourse_subset done rest _ hMem)

end ScriptLowering
