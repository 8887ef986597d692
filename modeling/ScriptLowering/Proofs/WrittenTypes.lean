import ScriptLowering.Lowering.Compile
import ScriptLowering.Proofs.EventLog

/-
  The types that a C++ program has written in it, and where
  they come from. A written type goes back to a decided or a
  native one by taking pointers and array elements. Lowering
  keeps this of all types in scope.

  Key theorems include:
    * `Derived.element`
    * `TypesInScope.bind`
-/

namespace ScriptLowering

open List ScopeChain

-----
-- Types In A C++ Program
-----

namespace Target

mutual

/- The types that are written in an expression, in order. -/
def Expr.types : Expr → List TypeName
  | .name _ => []
  | .number _ => []
  | .bool _ => []
  | .string _ => []
  | .format _ values => exprsTypes values
  | .array type elements => type :: exprsTypes elements
  | .record fields => fieldsTypes fields
  | .paren inner => inner.types
  | .index object index => object.types ++ index.types
  | .address pointer => pointer.types
  | .pointee pointer => pointer.types
  | .field object _ _ => object.types
  | .accessor object _ => object.types
  | .addressOf type operand => type :: operand.types
  | .numberText number radix? => number.types ++ exprTypes? radix?
  | .call callee typeArgs args =>
      callee.types ++ (typeArgs ++ exprsTypes args)
  | .conditional condition thenExpr elseExpr =>
      condition.types ++ (thenExpr.types ++ elseExpr.types)
  | .cast type operand => type :: operand.types
  | .unary _ operand => operand.types
  | .step operand _ => operand.types
  | .binary left _ right => left.types ++ right.types

def exprsTypes : List Expr → List TypeName
  | [] => []
  | expr :: rest => expr.types ++ exprsTypes rest

def exprTypes? : Option Expr → List TypeName
  | none => []
  | some expr => expr.types

def fieldsTypes : List FieldInit → List TypeName
  | [] => []
  | .mk _ value :: rest => value.types ++ fieldsTypes rest

end

def Declarator.types (declarator : Declarator) : List TypeName :=
  exprTypes? declarator.init?

def ForInit.types : ForInit → List TypeName
  | .none => []
  | .expr value => value.types
  | .declare type declarators =>
      type :: declarators.flatMap Declarator.types

mutual

/- The types that are written in a statement. -/
def Stmt.types : Stmt → List TypeName
  | .block body => stmtsTypes body
  | .branch condition body rest =>
      condition.types ++ (stmtsTypes body ++ rest.types)
  | .whileLoop condition body => condition.types ++ stmtsTypes body
  | .doLoop body condition => stmtsTypes body ++ condition.types
  | .forLoop init condition? update? body =>
      init.types ++ (exprTypes? condition? ++ (exprTypes? update? ++ stmtsTypes body))
  | .ret value? => exprTypes? value?
  | .expr value => value.types
  | .declare type declarator => type :: declarator.types
  | .breakLoop => []
  | .continueLoop => []

def stmtsTypes : List Stmt → List TypeName
  | [] => []
  | stmt :: rest => stmt.types ++ stmtsTypes rest

def Else.types : Else → List TypeName
  | .none => []
  | .body body => stmtsTypes body
  | .branch condition body rest =>
      condition.types ++ (stmtsTypes body ++ rest.types)

end

def Signature.types (signature : Signature) : List TypeName :=
  signature.returnType :: signature.params.map Prod.snd

/- The types that are written in a function or a variable. -/
def Item.types : Item → List TypeName
  | .function signature none => signature.types
  | .function signature (some body) =>
      signature.types ++ stmtsTypes body
  | .global type declarator => type :: declarator.types

/- All types of a program: of its items and struct fields. -/
def CodeFile.types (file : CodeFile) : List TypeName :=
  file.items.flatMap Item.types ++ file.structs.flatMap fun struct => struct.fields.map Prod.snd

theorem stmtsTypes_append (first rest : List Stmt) :
    stmtsTypes (first ++ rest) = stmtsTypes first ++ stmtsTypes rest := by
  induction first with
  | nil => rfl
  | cons _ _ ih => simp [stmtsTypes, ih]

-----
-- Texts In A C++ Program
-----

mutual

/-
  The names, numbers and operators that are written in an
  expression as they are, in order. Strings are not: they are
  written in quotes.
-/
def Expr.texts : Expr → List Text
  | .name text => [text]
  | .number text => [text]
  | .bool _ => []
  | .string _ => []
  | .format _ values => exprsTexts values
  | .array _ elements => exprsTexts elements
  | .record fields => fieldsTexts fields
  | .paren inner => inner.texts
  | .index object index => object.texts ++ index.texts
  | .address pointer => pointer.texts
  | .pointee pointer => pointer.texts
  | .field object _ property => object.texts ++ [property]
  | .accessor object property => object.texts ++ [property]
  | .addressOf _ operand => operand.texts
  | .numberText number radix? => number.texts ++ exprTexts? radix?
  | .call callee _ args => callee.texts ++ exprsTexts args
  | .conditional condition thenExpr elseExpr =>
      condition.texts ++ (thenExpr.texts ++ elseExpr.texts)
  | .cast _ operand => operand.texts
  | .unary op operand => op :: operand.texts
  | .step operand op => operand.texts ++ [op]
  | .binary left op right => left.texts ++ op :: right.texts

def exprsTexts : List Expr → List Text
  | [] => []
  | expr :: rest => expr.texts ++ exprsTexts rest

def exprTexts? : Option Expr → List Text
  | none => []
  | some expr => expr.texts

def fieldsTexts : List FieldInit → List Text
  | [] => []
  | .mk name value :: rest => name :: value.texts ++ fieldsTexts rest

end

def Declarator.texts (declarator : Declarator) : List Text :=
  declarator.name :: exprTexts? declarator.init?

def ForInit.texts : ForInit → List Text
  | .none => []
  | .expr value => value.texts
  | .declare _ declarators => declarators.flatMap Declarator.texts

mutual

/- The names, numbers and operators of a statement. -/
def Stmt.texts : Stmt → List Text
  | .block body => stmtsTexts body
  | .branch condition body rest =>
      condition.texts ++ (stmtsTexts body ++ rest.texts)
  | .whileLoop condition body => condition.texts ++ stmtsTexts body
  | .doLoop body condition => stmtsTexts body ++ condition.texts
  | .forLoop init condition? update? body =>
      init.texts ++ (exprTexts? condition? ++ (exprTexts? update? ++ stmtsTexts body))
  | .ret value? => exprTexts? value?
  | .expr value => value.texts
  | .declare _ declarator => declarator.texts
  | .breakLoop => []
  | .continueLoop => []

def stmtsTexts : List Stmt → List Text
  | [] => []
  | stmt :: rest => stmt.texts ++ stmtsTexts rest

def Else.texts : Else → List Text
  | .none => []
  | .body body => stmtsTexts body
  | .branch condition body rest =>
      condition.texts ++ (stmtsTexts body ++ rest.texts)

end

def Signature.texts (signature : Signature) : List Text :=
  signature.name :: signature.params.map Prod.fst

/- The names, numbers and operators of an item. -/
def Item.texts : Item → List Text
  | .function signature none => signature.texts
  | .function signature (some body) =>
      signature.texts ++ stmtsTexts body
  | .global _ declarator => declarator.texts

theorem stmtsTexts_append (first rest : List Stmt) :
    stmtsTexts (first ++ rest) = stmtsTexts first ++ stmtsTexts rest := by
  induction first with
  | nil => rfl
  | cons _ _ ih => simp [stmtsTexts, ih]

end Target

-----
-- Where Types Come From
-----

/- Types that a program has without deciding them. -/
def nativeTypes : List TypeName :=
  TypeName.void :: TypeName.function ::
    Native.globals.map fun global => ⟨global.2⟩

/- A type that is made by taking pointers and array elements. -/
inductive WrapOf (base : TypeName) : TypeName → Prop
  | refl :
      WrapOf base base
  | pointerTo {type : TypeName} (hType : WrapOf base type) :
      WrapOf base (TypeName.pointerTo type)
  | element
      {type element : TypeName} (hType : WrapOf base type)
      (hElement : type.arrayElement? = some element) :
      WrapOf base element

/- A type that goes back to a decided or native one. -/
def Derived (log : List TableEvent) (type : TypeName) : Prop :=
  ∃ base, (Decided log base ∨ base ∈ nativeTypes) ∧ WrapOf base type

namespace Derived

variable {log : List TableEvent} {type : TypeName}

theorem of_decided (h : Decided log type) :
    Derived log type :=
  ⟨type, .inl h, .refl⟩

theorem of_native (h : type ∈ nativeTypes) :
    Derived log type :=
  ⟨type, .inr h, .refl⟩

theorem pointerTo (h : Derived log type) :
    Derived log (TypeName.pointerTo type) := by
  rcases h with ⟨base, hBase, hWrap⟩
  exact ⟨base, hBase, hWrap.pointerTo⟩

theorem element
    (h : Derived log type) {element : TypeName} (hElement : type.arrayElement? = some element) :
    Derived log element := by
  rcases h with ⟨base, hBase, hWrap⟩
  exact ⟨base, hBase, hWrap.element hElement⟩

theorem mono {later : List TableEvent} (h : Derived log type) (hLater : log <+: later) :
    Derived later type := by
  rcases h with ⟨base, hBase, hWrap⟩
  exact ⟨base, hBase.imp_left fun h => h.mono hLater, hWrap⟩

end Derived

/- The structs of a type were marked as used since a time. -/
def MarkedSince (since log : List TableEvent) (type : TypeName) : Prop :=
  ∃ before, since <+: before ∧ Occurs log before (.marked type)

/- What is known of a type that is written. -/
def Written (since log : List TableEvent) (type : TypeName) : Prop :=
  MarkedSince since log type ∧ Derived log type

theorem MarkedSince.mono
    {since log later : List TableEvent} {type : TypeName} (h : MarkedSince since log type)
    (hLater : log <+: later) :
    MarkedSince since later type := by
  rcases h with ⟨before, hSince, hOccurs⟩
  exact ⟨before, hSince, hOccurs.mono hLater⟩

theorem Written.mono
    {since log later : List TableEvent} {type : TypeName} (h : Written since log type)
    (hLater : log <+: later) :
    Written since later type :=
  ⟨h.1.mono hLater, h.2.mono hLater⟩

def AllWritten (since log : List TableEvent) (types : List TypeName) : Prop :=
  ∀ type ∈ types, Written since log type

namespace AllWritten

variable {since log : List TableEvent} {types more : List TypeName}

theorem nil :
    AllWritten since log [] :=
  forall_mem_nil _

theorem append (hTypes : AllWritten since log types) (hMore : AllWritten since log more) :
    AllWritten since log (types ++ more) :=
  forall_mem_append.mpr ⟨hTypes, hMore⟩

theorem mono {later : List TableEvent} (h : AllWritten since log types) (hLater : log <+: later) :
    AllWritten since later types := by
  intro type hType
  exact (h type hType).mono hLater

theorem of_later
    {earlier : List TableEvent} (h : AllWritten since log types) (hEarlier : earlier <+: since) :
    AllWritten earlier log types := by
  intro type hType
  rcases h type hType with ⟨⟨before, hSince, hOccurs⟩, hDerived⟩
  exact ⟨⟨before, hEarlier.trans hSince, hOccurs⟩, hDerived⟩

end AllWritten

-----
-- Types In Scope
-----

/- Every type in scope has a property. -/
def TypesInScope (property : TypeName → Prop) (scope : ScopeChain) : Prop :=
  ∀ frame ∈ scope.frames, ∀ entry ∈ frame, property entry.2.type

/- Setting a flag keeps the types of a frame. -/
theorem types_initializeIn (name : Text) (frame : Frame) :
    (initializeIn name frame).map (fun entry => entry.2.type) =
      frame.map fun entry => entry.2.type := by
  induction frame with
  | nil => rfl
  | cons _ _ ih =>
    unfold initializeIn
    split
    · rfl
    · simp [ih]

theorem types_initializeNearest
    {name : Text} {frames after : List Frame} (h : initializeNearest name frames = some after) :
    after.map (List.map fun entry => entry.2.type) =
      frames.map (List.map fun entry => entry.2.type) := by
  induction frames generalizing after with
  | nil => cases h
  | cons _ _ ih =>
    unfold initializeNearest at h
    split at h
    · cases h
      simp [types_initializeIn]
    · rcases Option.map_eq_some_iff.mp h with ⟨_, hInner, rfl⟩
      simp [ih hInner]

namespace TypesInScope

variable {property : TypeName → Prop} {scope : ScopeChain}

theorem lookupType?
    (h : TypesInScope property scope) {name : Text} {type : TypeName}
    (hType : scope.lookupType? name = some type) :
    property type := by
  rcases Option.map_eq_some_iff.mp hType with ⟨binding, hBinding, rfl⟩
  rcases exists_of_findSome?_eq_some hBinding with ⟨_, hFrame, hFound⟩
  rcases lookup_eq_some_iff.mp hFound with ⟨_, _, rfl, _⟩
  exact h _ hFrame (name, binding) (by simp)

theorem push (h : TypesInScope property scope) :
    TypesInScope property scope.push := by
  intro frame hFrame entry hEntry
  rcases mem_cons.mp hFrame with rfl | hOuter
  · cases hEntry
  · exact h frame hOuter entry hEntry

theorem pop (h : TypesInScope property scope) :
    TypesInScope property scope.pop := by
  intro frame hFrame
  apply h frame
  rcases mem_append.mp hFrame with hNested | hRoot
  · exact mem_append_left _ (mem_of_mem_tail hNested)
  · exact mem_append_right _ hRoot

theorem bind
    (h : TypesInScope property scope) (name : Text) (binding : Binding)
    (hBinding : property binding.type) :
    TypesInScope property (scope.bind name binding) := by
  rcases scope with ⟨nested, root⟩
  cases nested with
  | nil =>
    intro frame hFrame entry hEntry
    have hRoot : frame = (name, binding) :: root := by simpa [ScopeChain.bind, frames] using hFrame
    subst hRoot
    rcases mem_cons.mp hEntry with rfl | hOld
    · exact hBinding
    · exact h root (by simp [frames]) entry hOld
  | cons current outer =>
    intro frame hFrame entry hEntry
    have hCases : frame = (name, binding) :: current ∨ frame ∈ outer ∨ frame = root := by
      simpa [ScopeChain.bind, frames] using hFrame
    rcases hCases with rfl | hOuter
    · rcases mem_cons.mp hEntry with rfl | hOld
      · exact hBinding
      · exact h current (by simp [frames]) entry hOld
    · exact h frame (by simp [frames, hOuter]) entry hEntry

theorem of_types_eq
    {after : ScopeChain} (h : TypesInScope property scope)
    (hTypes :
      after.frames.map (List.map fun entry => entry.2.type) =
        scope.frames.map (List.map fun entry => entry.2.type)) :
    TypesInScope property after := by
  intro frame hFrame entry hEntry
  have hMem :
      frame.map (fun entry => entry.2.type) ∈
        after.frames.map (List.map fun entry => entry.2.type) :=
    mem_map_of_mem hFrame
  rw [hTypes] at hMem
  rcases mem_map.mp hMem with ⟨old, hOld, hEq⟩
  have hType : entry.2.type ∈ frame.map fun entry => entry.2.type := mem_map_of_mem hEntry
  rw [← hEq] at hType
  rcases mem_map.mp hType with ⟨oldEntry, hOldEntry, hSame⟩
  rw [← hSame]
  exact h old hOld oldEntry hOldEntry

theorem markInitialized
    {after : ScopeChain} (h : TypesInScope property scope) {name : Text}
    (hMark : scope.markInitialized name = .ok after) :
    TypesInScope property after := by
  apply h.of_types_eq
  unfold ScopeChain.markInitialized at hMark
  split at hMark
  · next nested hNested =>
    cases hMark
    simp [frames, types_initializeNearest hNested]
  · split at hMark
    · cases hMark
      simp [frames, types_initializeIn]
    · cases hMark

end TypesInScope

-----
-- Emitted Names
-----

/- The mark of the names that a unit declares. -/
def unitMark : Option Text → Text
  | some origin => mangleModule origin
  | none => []

/- The name under which a name of a unit is emitted. -/
def emittedName (origin? : Option Text) (name : Text) : Text :=
  unitMark origin? ++ name

theorem qualifiedName?_eq (scope : ScopeChain) (name : Text) :
    scope.qualifiedName? name =
      (scope.lookup? name).map fun binding =>
        emittedName binding.origin? name := by
  unfold qualifiedName?
  congr 1
  funext binding
  cases binding.origin? <;> rfl

/-
  Texts that lowering stays within: of each way to come by a
  text, that it leads to no other ones.
-/
structure TextLaws where
  text : Text → Prop
  emitted :
    ∀ {name} (origin? : Option Text), text name → text (emittedName origin? name)
  number :
    ∀ {digits}, text digits → text (Literal.number digits)
  float :
    ∀ {single digits literal}, text digits →
      Literal.float? single digits = some literal → text literal
  decimal :
    ∀ n, text (Text.ofNat n)
  unaryOperator :
    ∀ {op : UnaryOp} {target}, op.target? = some target → text target
  stepOperator :
    ∀ op : StepOp, text op.spelling
  binaryOperator :
    ∀ {op : BinaryOp} {target}, op.target? = some target → text target

/- Any text at all. -/
def TextLaws.all : TextLaws :=
  ⟨fun _ => True, fun _ _ => trivial, fun _ => trivial, fun _ _ => trivial,
    fun _ => trivial, fun _ => trivial, fun _ => trivial, fun _ => trivial⟩

end ScriptLowering
