import ScriptLowering.Proofs.Registry
import ScriptLowering.Proofs.TimedActions

/-
  The history of a type table. Every computation on the table
  is a sequence of five kinds of events, and the table is
  what the events make of the empty one. A valid log tells
  for every event why it could happen when it did, so what
  holds of all tables follows by induction on their logs.

  Key theorems include:
    * `extends_declareInterface`
    * `extends_declareAlias`
-/

namespace ScriptLowering

open TypeTable List TypeTerm

-----
-- Events
-----

/-
  What happens to a table. Deciding a term leaves the table
  as it is; what the term registers are events of their own.
-/
inductive TableEvent where
  | decided (term : TypeTerm) (type : TypeName)
  | interned (fields : List (Text × TypeName))
  | declared (name : Text) (fields : List (Text × TypeName))
  | aliased (name : Text) (target : TypeName)
  | marked (type : TypeName)

namespace TableEvent

/- The table after an event. -/
def apply (table : TypeTable) : TableEvent → TypeTable
  | .decided _ _ => table
  | .interned fields =>
      { table with registry := (table.registry.intern fields).2 }
  | .declared name fields =>
      { table with
        registry :=
          table.registry.push ⟨name, fields, .declared, false⟩ }
  | .aliased name target =>
      { table with aliases := (name, target) :: table.aliases }
  | .marked type => table.markUsed type

/- Events that deciding a type consists of. -/
def isQuiet : TableEvent → Bool
  | .decided _ _ => true
  | .interned _ => true
  | _ => false

end TableEvent

/- The table that a sequence of events makes. -/
def TypeTable.replay (log : List TableEvent) : TypeTable :=
  log.foldl TableEvent.apply empty

@[simp] theorem replay_nil :
    replay [] = empty :=
  rfl

@[simp] theorem replay_concat (log : List TableEvent) (event : TableEvent) :
    replay (log ++ [event]) = event.apply (replay log) := by
  simp [replay]

/- An event happened when the log had come as far as `before`. -/
def Occurs (log before : List TableEvent) (event : TableEvent) : Prop :=
  before ++ [event] <+: log

namespace Occurs

variable {log before : List TableEvent} {event : TableEvent}

theorem mono {later : List TableEvent} (h : Occurs log before event) (hLater : log <+: later) :
    Occurs later before event :=
  h.trans hLater

theorem last (log : List TableEvent) (event : TableEvent) :
    Occurs (log ++ [event]) log event :=
  prefix_refl _

theorem prefix_before (h : Occurs log before event) :
    before <+: log :=
  (prefix_append _ _).trans h

/- Either an event is the last one, or it happened before. -/
theorem concat_iff {newest : TableEvent} :
    Occurs (log ++ [newest]) before event ↔
      before = log ∧ event = newest ∨ Occurs log before event := by
  unfold Occurs
  rw [prefix_concat_iff]
  apply or_congr_left
  constructor
  · intro hEq
    rcases append_inj' hEq rfl with ⟨hBefore, hEvent⟩
    exact ⟨hBefore, singleton_inj.mp hEvent⟩
  · rintro ⟨rfl, rfl⟩
    rfl

end Occurs

/- A type is the outcome of a decision. -/
def Decided (log : List TableEvent) (type : TypeName) : Prop :=
  ∃ before term, Occurs log before (.decided term type)

variable {log : List TableEvent} {name : Text}

theorem Decided.mono
    {later : List TableEvent} {type : TypeName} (h : Decided log type) (hLater : log <+: later) :
    Decided later type := by
  rcases h with ⟨before, term, hOccurs⟩
  exact ⟨before, term, hOccurs.mono hLater⟩

/- A name was declared to stand for a type. -/
def Aliased (log : List TableEvent) (name : Text) : Prop :=
  ∃ before target, Occurs log before (.aliased name target)

theorem Aliased.mono {later : List TableEvent} (h : Aliased log name) (hLater : log <+: later) :
    Aliased later name := by
  rcases h with ⟨before, target, hOccurs⟩
  exact ⟨before, target, hOccurs.mono hLater⟩

-----
-- Valid Logs
-----

/- The names of the structs that were declared under a name. -/
def Registry.declaredNames (registry : Registry) : List Text :=
  (registry.structs.filter fun struct =>
    struct.origin == .declared).map Struct.name

/-
  What must hold when an event happens. A decision has been
  made since some earlier point of the log. Stored types were
  decided before, and a declared name was not taken. An alias
  may take the name of a struct that was synthesized while
  its target was decided.
-/
def Allowed (log : List TableEvent) : TableEvent → Prop
  | .decided term type =>
      ∃ start, start <+: log ∧ term.eval (replay start) = .ok type (replay log)
  | .interned fields =>
      ∀ field ∈ fields, Decided log field.2
  | .declared name fields =>
      (∀ field ∈ fields, Decided log field.2) ∧ (replay log).isTypeName name = false
  | .aliased name target =>
      Decided log target ∧ (replay log).alias? name = none ∧
        name ∉ (replay log).registry.declaredNames
  | .marked _ => True

/- Every event of the log was allowed when it happened. -/
inductive Valid : List TableEvent → Prop
  | nil :
      Valid []
  | concat
      {log : List TableEvent} {event : TableEvent} (hLog : Valid log) (hEvent : Allowed log event) :
      Valid (log ++ [event])

theorem Valid.of_earlier {before : List TableEvent} (h : Valid log) (hBefore : before <+: log) :
    Valid before := by
  induction h with
  | nil =>
    rw [prefix_nil.mp hBefore]
    exact .nil
  | concat hLog hEvent ih =>
    rcases prefix_concat_iff.mp hBefore with rfl | hEarlier
    · exact hLog.concat hEvent
    · exact ih hEarlier

theorem Valid.allowed
    {before : List TableEvent} {event : TableEvent} (h : Valid log)
    (hOccurs : Occurs log before event) :
    Valid before ∧ Allowed before event := by
  induction h with
  | nil =>
    have hNil := prefix_nil.mp hOccurs
    simp at hNil
  | concat hLog hEvent ih =>
    rcases Occurs.concat_iff.mp hOccurs with ⟨rfl, rfl⟩ | hBefore
    · exact ⟨hLog, hEvent⟩
    · exact ih hBefore

/- What is registered stays where it is. -/
theorem layouts_mono {later : List TableEvent} (h : log <+: later) :
    (replay log).registry.layouts <+:
      (replay later).registry.layouts := by
  rcases h with ⟨added, rfl⟩
  induction added using reverseRecOn with
  | nil => simp
  | append_singleton added event ih =>
    rw [← append_assoc, replay_concat]
    refine ih.trans ?_
    cases event with
    | decided | aliased => exact prefix_refl _
    | interned fields =>
      simp only [TableEvent.apply]
      rcases Registry.intern_cases (replay (log ++ added)).registry fields with
        ⟨_, _, hIntern⟩ | ⟨_, hIntern⟩
      · rw [hIntern]
      · rw [hIntern]
        simp
    | declared => simp [TableEvent.apply]
    | marked => simp [TableEvent.apply, markUsed]

-----
-- Tables And Their Logs
-----

/- A table is what a valid log makes. -/
def Settled (log : List TableEvent) (table : TypeTable) : Prop :=
  Valid log ∧ replay log = table

theorem settled_empty :
    Settled [] empty :=
  ⟨.nil, rfl⟩

theorem Settled.concat
    {log : List TableEvent} {table : TypeTable} {event : TableEvent} (h : Settled log table)
    (hEvent : Allowed log event) :
    Settled (log ++ [event]) (event.apply table) := by
  refine ⟨h.1.concat hEvent, ?_⟩
  rw [replay_concat, h.2]

theorem Settled.markUsed
    {log : List TableEvent} {table : TypeTable} (h : Settled log table) (type : TypeName) :
    Settled (log ++ [.marked type]) (table.markUsed type) :=
  h.concat (show Allowed log (.marked type) from trivial)

/- A log continues by decisions and what they register. -/
def QuietlyLater (log later : List TableEvent) : Prop :=
  ∃ added, later = log ++ added ∧ added.all TableEvent.isQuiet = true

namespace QuietlyLater

variable {later : List TableEvent}

theorem refl (log : List TableEvent) :
    QuietlyLater log log :=
  ⟨[], by simp, rfl⟩

theorem trans
    {last : List TableEvent} (hLog : QuietlyLater log later) (hLater : QuietlyLater later last) :
    QuietlyLater log last := by
  rcases hLog with ⟨first, rfl, _⟩
  rcases hLater with ⟨second, rfl, _⟩
  exact ⟨first ++ second, by simp, by simp_all⟩

theorem concat (log : List TableEvent) {event : TableEvent} (hEvent : event.isQuiet = true) :
    QuietlyLater log (log ++ [event]) :=
  ⟨[event], rfl, by simpa using hEvent⟩

theorem isPrefix (h : QuietlyLater log later) :
    log <+: later := by
  rcases h with ⟨added, rfl, _⟩
  exact prefix_append _ _

/- Decisions declare nothing. -/
theorem names_eq (h : QuietlyLater log later) :
    (replay later).aliases = (replay log).aliases ∧
      (replay later).registry.declaredNames = (replay log).registry.declaredNames := by
  rcases h with ⟨added, rfl, hAdded⟩
  induction added using reverseRecOn with
  | nil => simp
  | append_singleton added event ih =>
    simp only [all_append, Bool.and_eq_true] at hAdded
    have hEvent : event.isQuiet = true := by simpa using hAdded.2
    rw [← append_assoc, replay_concat]
    cases event with
    | decided => exact ih hAdded.1
    | interned fields =>
      refine ⟨(ih hAdded.1).1, ?_⟩
      rw [← (ih hAdded.1).2]
      simp only [TableEvent.apply]
      rcases Registry.intern_cases (replay (log ++ added)).registry fields with
        ⟨_, _, hIntern⟩ | ⟨_, hIntern⟩
      · rw [hIntern]
      · rw [hIntern]
        simp [Registry.declaredNames, Registry.push]
    | declared | aliased | marked => cases hEvent

end QuietlyLater

/- Time as a log that grows. -/
abbrev logClock : Clock :=
  ⟨List TableEvent, (· <+: ·), prefix_refl, IsPrefix.trans⟩

/- Time as a log that grows by decisions only. -/
abbrev quietClock : Clock :=
  ⟨List TableEvent, QuietlyLater, .refl, .trans⟩

/- A computation that takes a table from one log to a longer one. -/
abbrev Extends
    {ε α : Type} (log : List TableEvent) (action : EStateM ε TypeTable α)
    (Post : List TableEvent → α → Prop) : Prop :=
  Leads logClock Settled log action Post

/- The same where nothing is declared and nothing is marked. -/
abbrev ExtendsQuietly
    {ε α : Type} (log : List TableEvent) (action : EStateM ε TypeTable α)
    (Post : List TableEvent → α → Prop) : Prop :=
  Leads quietClock Settled log action Post

theorem Leads.loud
    {ε α : Type} {action : EStateM ε TypeTable α} {Post : List TableEvent → α → Prop}
    (h : ExtendsQuietly log action Post) :
    Extends log action fun later value => QuietlyLater log later ∧ Post later value := by
  intro table hTable
  rcases h table hTable with ⟨later, hLater, hLeft, hPost⟩
  exact ⟨later, hLater.isPrefix, hLeft, fun value last hRun => ⟨hLater, hPost value last hRun⟩⟩

-----
-- Terms
-----

/- Decisions are logged when they are made. -/
theorem decisionRule_log :
    DecisionRule quietClock Settled Decided where
  mono h hLater := h.mono hLater.isPrefix
  intern {log fields} hFields := by
    intro table hTable
    have hAllowed : Allowed log (.interned fields) := hFields
    exact ⟨log ++ [.interned fields], .concat log rfl, hTable.concat hAllowed, fun _ _ _ => trivial⟩
  decided {log term} h := by
    intro table hTable
    rcases h table hTable with ⟨later, hLater, hLeft, _⟩
    cases hRun : term.eval table with
    | error =>
      rw [hRun] at hLeft
      exact ⟨later, hLater, hLeft, nofun⟩
    | ok type last =>
      rw [hRun] at hLeft
      have hAllowed : Allowed later (.decided term type) := by
        refine ⟨log, hLater.isPrefix, ?_⟩
        rw [hTable.2, hLeft.2, hRun]
        rfl
      refine
        ⟨later ++ [.decided term type], hLater.trans (.concat later rfl), hLeft.concat hAllowed, ?_⟩
      rintro _ _ ⟨⟩
      exact ⟨later, term, .last later _⟩

-----
-- Declarations
-----

/- A struct is declared under a name that nothing has. -/
theorem extends_declareStruct
    {fields : List (Text × TypeName)} (hFields : ∀ field ∈ fields, Decided log field.2)
    (hAlias : (replay log).alias? name = none) :
    Extends log (declareStruct name fields) (fun _ _ => True) := by
  apply Leads.get.bind
  rintro later _ _ ⟨rfl, hTable⟩
  split
  · exact .throw
  · next registry hDeclare =>
    rcases Registry.declare_eq_ok hDeclare with ⟨hFree, rfl⟩
    have hAllowed : Allowed later (.declared name fields) := by
      refine ⟨hFields, ?_⟩
      unfold isTypeName
      rw [hAlias, hTable.2, hFree]
      rfl
    intro state _
    exact
      ⟨later ++ [.declared name fields], prefix_append _ _,
        hTable.concat hAllowed, fun _ _ _ => trivial⟩

theorem extends_declareInterface (decl : Interface) (log : List TableEvent) :
    Extends log (declareInterface decl) (fun _ _ => True) := by
  apply Leads.get.bind
  rintro later _ _ ⟨rfl, hTable⟩
  split
  · exact .throw
  · next hFree =>
    apply (decisionRule_log.leads_interfaceFields _ _ later).loud.bind
    rintro last _ _ ⟨hQuiet, hFields⟩
    split
    · exact .throw
    · -- Deciding the field types has left the aliases alone.
      have hAlias : (replay last).alias? decl.name = none := by
        unfold alias?
        rw [hQuiet.names_eq.1, hTable.2]
        exact Option.not_isSome_iff_eq_none.mp hFree
      exact extends_declareStruct hFields hAlias

theorem extends_addAlias {target : TypeName} (hAllowed : Allowed log (.aliased name target)) :
    Extends log (addAlias name target) (fun later _ => Aliased later name) := by
  intro table hTable
  exact
    ⟨log ++ [.aliased name target], prefix_append _ _,
      hTable.concat hAllowed, fun _ _ _ => ⟨log, target, .last log _⟩⟩

theorem Registry.mem_declaredNames_iff {registry : Registry} :
    name ∈ registry.declaredNames ↔
      ∃ struct ∈ registry.structs, struct.origin = .declared ∧ struct.name = name := by
  simp [declaredNames, and_assoc]

/- Whether a type alias names an object type. -/
def TypeAlias.isObject (decl : TypeAlias) : Bool :=
  match TypeTerm.ofText (Text.trim decl.type.text) with
  | .shape _ => true
  | _ => false

theorem extends_declareAlias (decl : TypeAlias) (log : List TableEvent) :
    Extends log (declareAlias decl)
      (fun later _ =>
        decl.isObject = false → Aliased later decl.name) := by
  apply Leads.get.bind
  rintro later _ _ ⟨rfl, hTable⟩
  split
  · exact .throw
  · next hTaken =>
    have hFree : (replay later).isTypeName decl.name = false := by
      rw [hTable.2]
      simpa using hTaken
    unfold isTypeName at hFree
    rw [Bool.or_eq_false_iff] at hFree
    have hAlias : ∀ {last}, QuietlyLater later last → (replay last).alias? decl.name = none := by
      intro last hQuiet
      unfold alias?
      rw [hQuiet.names_eq.1]
      simpa [alias?] using hFree.2
    split
    · next members hShape =>
      have hObject : decl.isObject = true := by simp [TypeAlias.isObject, hShape]
      apply (decisionRule_log.leads_evalMembers members later).loud.bind
      rintro last _ _ ⟨hQuiet, hFields⟩
      apply (extends_declareStruct hFields (hAlias hQuiet)).imp
      intro _ _ _ _ hNot
      rw [hObject] at hNot
      cases hNot
    · apply (decisionRule_log.leads_eval _ later).loud.bind
      rintro last _ _ ⟨hQuiet, hTarget⟩
      have hName : decl.name ∉ (replay last).registry.declaredNames := by
        rw [hQuiet.names_eq.2, Registry.mem_declaredNames_iff]
        rintro ⟨struct, hStruct, _, hName⟩
        have hContains : (replay later).registry.contains decl.name = true :=
          Registry.contains_iff.mpr ⟨struct, hStruct, hName⟩
        rw [hFree.1] at hContains
        cases hContains
      apply (extends_addAlias ⟨hTarget, hAlias hQuiet, hName⟩).imp
      intro _ _ _ hAliased _
      exact hAliased

end ScriptLowering
