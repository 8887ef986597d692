import ScriptLowering.Proofs.LoweringActions
import ScriptLowering.Proofs.LoweringCourse
import ScriptLowering.Proofs.WrittenTypes

/-
  What is kept track of while a program is lowered. As time
  goes on, more types are known and more are marked as used;
  what is known once stays known. Every action on the state
  leads from a time to a later one, also where it fails, and
  gives types and names that are known then.

  Key theorems include:
    * `Tracking.Holds.bind`
    * `Tracking.Holds.inFrame`
-/

namespace ScriptLowering

open LowerM List

-----
-- Trackings
-----

/- All that is tracked while lowering goes on. -/
structure Tracking extends Clock, TextLaws where
  typeName : Text → Prop
  known : Time → TypeName → Prop
  marked : Time → TypeName → Prop
  aliased : Time → Text → Prop
  table : Time → TypeTable → Prop
  known_mono :
    ∀ {time later type}, known time type → le time later → known later type
  marked_mono :
    ∀ {time later type}, marked time type → le time later → marked later type
  aliased_mono :
    ∀ {time later name}, aliased time name → le time later → aliased later name
  native :
    ∀ {time type}, type ∈ nativeTypes → known time type
  pointerTo :
    ∀ {time target}, known time target → known time (TypeName.pointerTo target)
  arrayElement :
    ∀ {time array element}, known time array →
      array.arrayElement? = some element → known time element
  markUsed :
    ∀ {time types}, table time types → ∀ type,
      ∃ later, le time later ∧ table later (types.markUsed type) ∧ marked later type
  canonicalize :
    ∀ {time} raw, Leads toClock table time (TypeTable.canonicalize raw) known
  declareInterface :
    ∀ {time decl}, text decl.name → typeName decl.name →
      (∀ member ∈ decl.members, text member.name) →
      Leads toClock table time (TypeTable.declareInterface decl) fun _ _ => True
  declareAlias :
    ∀ {time decl}, text decl.name → typeName decl.name →
      Leads toClock table time (TypeTable.declareAlias decl)
        fun later _ => decl.isObject = false → aliased later decl.name

namespace Tracking

variable {tracking : Tracking} {time : tracking.Time}
variable {scope : ScopeChain} {later : tracking.Time}
variable {context : ValueContext}

-----
-- States
-----

/- All types in the state are known. -/
structure HasState (tracking : Tracking) (time : tracking.Time) (state : LowerState) : Prop where
  types : tracking.table time state.types
  scope : TypesInScope (tracking.known time) state.scope

theorem hasState_start (h : tracking.table time TypeTable.empty) :
    tracking.HasState time LowerState.start := by
  refine ⟨h, ?_⟩
  intro frame hFrame entry hEntry
  have hRoot : frame = LowerState.start.scope.root := by
    simpa [LowerState.start, ScopeChain.frames] using hFrame
  subst hRoot
  rcases mem_map.mp hEntry with ⟨_, hGlobal, rfl⟩
  apply tracking.native
  apply mem_cons_of_mem
  apply mem_cons_of_mem
  exact mem_map_of_mem hGlobal

theorem HasState.pushFrame {state : LowerState} (h : tracking.HasState time state) :
    tracking.HasState time (pushFrame state) :=
  ⟨h.types, h.scope.push⟩

theorem HasState.popFrame {state : LowerState} (h : tracking.HasState time state) :
    tracking.HasState time (popFrame state) :=
  ⟨h.types, h.scope.pop⟩

theorem scope_mono
    (h : TypesInScope (tracking.known time) scope) (hLater : tracking.le time later) :
    TypesInScope (tracking.known later) scope :=
  fun frame hFrame entry hEntry => tracking.known_mono (h frame hFrame entry hEntry) hLater

/- A type that is written is known, and its structs are marked. -/
def Writes (tracking : Tracking) (time : tracking.Time) (type : TypeName) : Prop :=
  tracking.marked time type ∧ tracking.known time type

theorem Writes.mono
    {type : TypeName} (h : tracking.Writes time type) (hLater : tracking.le time later) :
    tracking.Writes later type :=
  ⟨tracking.marked_mono h.1 hLater, tracking.known_mono h.2 hLater⟩

theorem subjectRule (tracking : Tracking) :
    SubjectRule tracking.toClock tracking.table tracking.known :=
  ⟨tracking.canonicalize, tracking.pointerTo⟩

-----
-- Actions On The State
-----

section Actions

variable {α ε : Type} {Post : tracking.Time → α → Prop} {site : Site}
variable {span : Span} {name : Text}

/- A computation on the types leaves the scope as it is. -/
theorem leads_onTypes
    {fault : ε → Fault} {action : EStateM ε TypeTable α}
    (h : Leads tracking.toClock tracking.table time action Post) :
    Leads tracking.toClock tracking.HasState time (onTypes site span fault action) Post :=
  h.onTypes HasState.types fun hState hLater hTypes => ⟨hTypes, scope_mono hState.scope hLater⟩

theorem leads_typed
    {action : TypeM α} (h : Leads tracking.toClock tracking.table time action Post) :
    Leads tracking.toClock tracking.HasState time (typed site span action) Post :=
  leads_onTypes h

theorem leads_exprType (site : Site) (span : Span) (expr : Expr) :
    Leads tracking.toClock tracking.HasState time (exprType site span expr) tracking.known := by
  apply Leads.get.bind
  rintro _ _ _ ⟨rfl, hState⟩
  exact leads_typed (tracking.subjectRule.leads_type _ hState.scope.lookupType? expr)

theorem leads_kindOfCall (site : Site) (span : Span) (callee : Expr) (args : List Expr) :
    Leads tracking.toClock tracking.HasState time (kindOfCall site span callee args)
      fun _ _ => True := by
  apply Leads.get.bind
  rintro _ _ _ ⟨rfl, hState⟩
  exact leads_onTypes (tracking.subjectRule.leads_callKind _ hState.scope.lookupType? callee args)

theorem leads_markUsed (type : TypeName) :
    Leads tracking.toClock tracking.HasState time (LowerM.markUsed type)
      fun later _ => tracking.marked later type := by
  intro state hState
  rcases tracking.markUsed hState.types type with ⟨later, hLater, hTypes, hMarked⟩
  exact ⟨later, hLater, ⟨hTypes, scope_mono hState.scope hLater⟩, fun _ _ _ => hMarked⟩

/- A declared name has a type that is marked. -/
theorem leads_declare {type : TypeName} {origin? : Option Text} (hType : tracking.known time type) :
    Leads tracking.toClock tracking.HasState time (declare site span name type origin?)
      fun later _ => tracking.marked later type := by
  apply Leads.get.bind
  rintro _ state _ ⟨rfl, hState⟩
  unfold ScopeChain.declare
  cases hFound : state.scope.current.lookup name with
  | some => exact .throw
  | none =>
    intro _ _
    rcases tracking.markUsed hState.types type with ⟨later, hLater, hTypes, hMarked⟩
    have hScope :=
      (scope_mono hState.scope hLater).bind name
        ⟨type, false, origin?⟩ (tracking.known_mono hType hLater)
    exact ⟨later, hLater, ⟨hTypes, hScope⟩, fun _ _ _ => hMarked⟩

theorem leads_markInitialized (site : Site) (span : Span) (name : Text) :
    Leads tracking.toClock tracking.HasState time
      (markInitialized site span name) fun _ _ => True := by
  apply Leads.get.bind
  rintro _ state _ ⟨rfl, hState⟩
  cases hMark : state.scope.markInitialized name with
  | error => exact .throw
  | ok scope =>
    intro _ _
    exact
      ⟨_, tracking.refl _, ⟨hState.types, hState.scope.markInitialized hMark⟩, fun _ _ _ => trivial⟩

theorem leads_declareInitialized
    {type : TypeName} {origin? : Option Text} (hType : tracking.known time type) :
    Leads tracking.toClock tracking.HasState time (declareInitialized site span name type origin?)
      fun later _ => tracking.marked later type := by
  apply Leads.bind (leads_declare hType)
  intro later _ _ hMarked
  apply Leads.imp (leads_markInitialized site span name)
  intro last _ hLast _
  exact tracking.marked_mono hMarked hLast

/- The mark of a unit is put before a name. -/
theorem leads_qualified (site : Site) (span : Span) (hName : tracking.text name) :
    Leads tracking.toClock tracking.HasState time (qualified site span name)
      fun _ emitted => tracking.text emitted := by
  apply Leads.get.bind
  rintro _ state _ ⟨rfl, _⟩
  rw [qualifiedName?_eq]
  cases state.scope.lookup? name with
  | none => exact .throw
  | some binding => exact .pure (tracking.emitted binding.origin? hName)

theorem leads_markAssigned (site : Site) (op : BinaryOp) (left : Expr) :
    Leads tracking.toClock tracking.HasState time (markAssigned site op left) fun _ _ => True := by
  unfold markAssigned
  split
  · exact leads_markInitialized site _ _
  · exact .pure trivial

theorem leads_returnType (site : Site) (node : Node) (head : FunctionHead) :
    Leads tracking.toClock tracking.HasState time (returnType site node head) tracking.known := by
  unfold returnType
  split
  · exact leads_typed (tracking.canonicalize _)
  · exact leads_typed (tracking.canonicalize _)
  · exact .pure (tracking.native mem_cons_self)

theorem leads_importNames (site : Site) (span : Span) (clause : ImportClause) :
    Leads tracking.toClock tracking.HasState time
      (importNames site span clause) fun _ _ => True := by
  unfold importNames
  split
  · split
    · exact .throw
    · exact .pure trivial
  · exact .throw
  · exact .throw
  · exact .throw

theorem leads_checkProvided (site : Site) (specifier : Text) (names : List ImportName) :
    Leads tracking.toClock tracking.HasState time
      (checkProvided site specifier names) fun _ _ => True := by
  induction names with
  | nil => exact .pure trivial
  | cons _ _ ih =>
    apply Leads.get.bind
    rintro _ _ _ ⟨rfl, _⟩
    split
    · exact ih
    · exact .throw

end Actions

-----
-- Contexts
-----

/- What is expected of a value is a known type. -/
def HasContext (tracking : Tracking) (time : tracking.Time) (context : ValueContext) : Prop :=
  ∀ type, context.expected? = some type → tracking.known time type

namespace HasContext

theorem of_none {called : Bool} :
    tracking.HasContext time ⟨called, none⟩ := by
  intro type hType
  cases hType

theorem expecting {type : TypeName} (h : tracking.known time type) :
    tracking.HasContext time (ValueContext.expecting type) := by
  intro other hOther
  cases hOther
  exact h

theorem value (h : tracking.HasContext time context) :
    tracking.HasContext time context.value :=
  h

theorem mono (h : tracking.HasContext time context) (hLater : tracking.le time later) :
    tracking.HasContext later context :=
  fun type hType => tracking.known_mono (h type hType) hLater

/- An assigned value goes into the type of the name. -/
theorem assigned (hScope : TypesInScope (tracking.known time) scope) (op : BinaryOp) (left : Expr) :
    tracking.HasContext time (assignedContext op left scope) := by
  unfold assignedContext
  split
  · intro type hType
    exact hScope.lookupType? hType
  · exact of_none

end HasContext

theorem leads_arrayType (hContext : tracking.HasContext time context) (site : Site) (expr : Expr) :
    Leads tracking.toClock tracking.HasState time (arrayType site context expr) tracking.known := by
  unfold arrayType
  split
  · next expected hExpected =>
    split
    · exact .pure (hContext expected hExpected)
    · exact leads_exprType site _ expr
  · exact leads_exprType site _ expr

-----
-- Courses
-----

structure HasSignature
    (tracking : Tracking) (time : tracking.Time) (signature : Target.Signature) : Prop where
  name : tracking.text signature.name
  params :
    ∀ param ∈ signature.params, tracking.text param.1 ∧ tracking.Writes time param.2
  returnType : tracking.Writes time signature.returnType

/- All types and names of a moment are known. -/
def HasMoment (tracking : Tracking) (time : tracking.Time) : Moment → Prop
  | .reached state => tracking.HasState time state
  | .written type => tracking.Writes time type
  | .recorded signature => tracking.HasSignature time signature

/-
  A course that starts at a time only comes by what is known
  some time later, and what it gives is known in the end.
-/
structure Holds
    {α : Type} (tracking : Tracking) (time : tracking.Time) (course : Course α)
    (Post : tracking.Time → α → Prop) : Prop where
  moments :
    ∀ {state}, tracking.HasState time state →
      ∀ moment ∈ course.moments state, ∃ later, tracking.HasMoment later moment
  result : Leads tracking.toClock tracking.HasState time course.result Post

namespace Holds

variable {α β : Type} {Post : tracking.Time → α → Prop}
variable {Result : tracking.Time → β → Prop}

theorem pure {value : α} (h : Post time value) :
    tracking.Holds time (Pure.pure value) Post := by
  refine ⟨?_, Leads.pure h⟩
  intro state _ moment hMoment
  cases hMoment

/- What an action leaves is a moment of its own. -/
theorem act {action : LowerM α} (h : Leads tracking.toClock tracking.HasState time action Post) :
    tracking.Holds time (Course.act action) Post := by
  refine ⟨?_, h⟩
  intro state hState moment hMoment
  rw [mem_singleton.mp hMoment]
  rcases h state hState with ⟨later, _, hLeft, _⟩
  exact ⟨later, hLeft⟩

theorem fail {site : Site} {span : Span} {fault : Fault} :
    tracking.Holds time (Course.act (fail site span fault))
      Post :=
  act Leads.throw

theorem note (moment : Moment) (h : tracking.HasMoment time moment) :
    tracking.Holds time (Course.note moment) fun later _ => later = time := by
  constructor
  · intro state _ other hOther
    rw [mem_singleton.mp hOther]
    exact ⟨time, h⟩
  · exact .pure rfl

theorem bind
    {first : Course α} {next : α → Course β} (hFirst : tracking.Holds time first Post)
    (hNext :
      ∀ later value, tracking.le time later → Post later value →
        tracking.Holds later (next value) Result) :
    tracking.Holds time (first >>= next) Result := by
  constructor
  · intro state hState moment hMoment
    rcases mem_append.mp hMoment with hEarly | hLate
    · exact hFirst.moments hState moment hEarly
    · rcases hFirst.result state hState with ⟨later, hLater, hLeft, hPost⟩
      cases hRun : first.result state with
      | error =>
        rw [hRun] at hLate
        cases hLate
      | ok value middle =>
        rw [hRun] at hLate hLeft
        have hValue := hPost value middle hRun
        exact (hNext later value hLater hValue).moments hLeft moment hLate
  · apply Leads.bind hFirst.result
    intro later value hLater hValue
    exact (hNext later value hLater hValue).result

theorem map
    {first : Course α} {make : α → β} (h : tracking.Holds time first Post)
    (hMake : ∀ later value, Post later value → Result later (make value)) :
    tracking.Holds time (first >>= fun value => Pure.pure (make value)) Result :=
  h.bind fun later value _ hValue => .pure (hMake later value hValue)

theorem imp
    {Weaker : tracking.Time → α → Prop} {course : Course α} (h : tracking.Holds time course Post)
    (hImp : ∀ later value, tracking.le time later → Post later value → Weaker later value) :
    tracking.Holds time course Weaker :=
  ⟨h.moments, Leads.imp h.result hImp⟩

/- A type that is known may be written once it is marked. -/
theorem mark
    {type : TypeName} {next : Course α} (hType : tracking.known time type)
    (hNext :
      ∀ later, tracking.le time later →
        tracking.Writes later type → tracking.Holds later next Post) :
    tracking.Holds time
      (do
        Course.act (LowerM.markUsed type)
        Course.note (.written type)
        next)
      Post := by
  apply bind (act (leads_markUsed type))
  intro later _ hLater hMarked
  have hWrites : tracking.Writes later type := ⟨hMarked, tracking.known_mono hType hLater⟩
  apply bind (note (.written type) hWrites)
  rintro _ _ _ rfl
  exact hNext _ hLater hWrites

/- A nested frame is entered and left with what is known. -/
theorem inFrame {course : Course α} (h : tracking.Holds time course Post) :
    tracking.Holds time (Course.inFrame course) Post := by
  constructor
  · intro state hState moment hMoment
    have hPushed := hState.pushFrame
    rcases mem_append.mp hMoment with hInside | hLeft
    · rcases mem_cons.mp hInside with rfl | hInner
      · exact ⟨time, hPushed⟩
      · exact h.moments hPushed moment hInner
    · rw [mem_singleton.mp hLeft]
      rcases h.result _ hPushed with ⟨later, _, hAfter, _⟩
      exact ⟨later, hAfter.popFrame⟩
  · exact h.result.inFrame HasState.pushFrame HasState.popFrame

end Holds

end Tracking

end ScriptLowering
