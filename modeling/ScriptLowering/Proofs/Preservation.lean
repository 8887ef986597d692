import ScriptLowering.Proofs.EventLog

/-
  What computations keep. A property of states may be kept by
  each step of a computation, and then it is kept by all of
  it, however it ends. The table of types is changed by the
  interning of fields only, whatever type is decided.

  Key theorems include:
    * `KeptByInterning.of_push`
    * `preserves_eval_of_intern`
-/

namespace ScriptLowering

-----
-- Computations That Keep An Invariant
-----

/- Time that stands still. -/
abbrev stillClock : Clock :=
  ⟨Unit, fun _ _ => True, fun _ => trivial, fun _ _ => trivial⟩

/-
  From states with the invariant a computation leads to such
  states, whether it succeeds or not, and its results have a
  property.
-/
abbrev Preserves
    {ε σ α : Type} (invariant : σ → Prop) (action : EStateM ε σ α) (property : α → Prop) : Prop :=
  Leads stillClock (fun _ => invariant) () action fun _ => property

namespace Preserves

variable {ε σ α β : Type} {invariant : σ → Prop} {property : α → Prop}
variable {outcome : β → Prop} {action : EStateM ε σ α}

theorem intro
    (hKept : ∀ {state}, invariant state → invariant (stateLeft (action state)))
    (hGives :
      ∀ {state value last}, invariant state → action state = .ok value last → property value) :
    Preserves invariant action property :=
  fun _ hState => ⟨(), trivial, hKept hState, fun _ _ hRun => hGives hState hRun⟩

theorem kept (h : Preserves invariant action property) {state : σ} (hState : invariant state) :
    invariant (stateLeft (action state)) := by
  rcases h state hState with ⟨_, _, hLeft, _⟩
  exact hLeft

theorem gives
    (h : Preserves invariant action property) {state last : σ} {value : α}
    (hState : invariant state) (hRun : action state = .ok value last) :
    property value := by
  rcases h state hState with ⟨_, _, _, hValue⟩
  exact hValue value last hRun

theorem get :
    Preserves invariant (MonadState.get : EStateM ε σ σ) invariant :=
  Leads.get.imp fun _ _ _ hState => hState.2

theorem set {state : σ} (h : invariant state) :
    Preserves invariant (MonadStateOf.set state : EStateM ε σ PUnit) fun _ => True :=
  .intro (fun _ => h) fun _ _ => trivial

theorem bind
    {next : α → EStateM ε σ β} (hFirst : Preserves invariant action property)
    (hNext : ∀ value, property value → Preserves invariant (next value) outcome) :
    Preserves invariant (action >>= next) outcome :=
  Leads.bind hFirst fun _ value _ hValue => hNext value hValue

end Preserves

/- A computation that has only results with a property. -/
abbrev Yields {ε σ α : Type} (action : EStateM ε σ α) (property : α → Prop) : Prop :=
  Preserves (fun _ => True) action property

namespace Yields

variable {ε σ α : Type} {action : EStateM ε σ α} {property : α → Prop}

theorem intro (h : ∀ {state value last}, action state = .ok value last → property value) :
    Yields action property :=
  Preserves.intro (fun _ => trivial) fun _ => h

theorem of_ok
    (h : Yields action property) {state last : σ} {value : α}
    (hRun : action state = .ok value last) :
    property value :=
  h.gives trivial hRun

end Yields

/- Where nothing is known about the first result. -/
theorem Preserves.skip
    {ε σ α β : Type} {outcome : β → Prop} {action : EStateM ε σ α} {next : α → EStateM ε σ β}
    (hNext : ∀ value, Yields (next value) outcome) :
    Yields (action >>= next) outcome :=
  .bind (.intro (fun _ => trivial) fun _ _ => trivial) fun value _ => hNext value

-----
-- Deciding Types
-----

/- What interning keeps. -/
def KeptByInterning (kept : TypeTable → Prop) : Prop :=
  ∀ fields, Preserves kept (TypeTable.intern fields) fun _ => True

/- Interning adds a synthesized struct, or it changes nothing. -/
theorem KeptByInterning.of_push
    {kept : TypeTable → Prop}
    (h :
      ∀ {table : TypeTable} fields, kept table →
        kept
          ⟨table.registry.push ⟨table.registry.nextName, fields, .synthesized, false⟩,
            table.aliases⟩) :
    KeptByInterning kept := by
  intro fields
  apply Preserves.intro
  · intro table hTable
    show kept ⟨(table.registry.intern fields).2, table.aliases⟩
    rcases Registry.intern_cases table.registry fields with ⟨_, _, hIntern⟩ | ⟨_, hIntern⟩
    · rw [hIntern]
      exact hTable
    · rw [hIntern]
      exact h fields hTable
  · intro _ _ _ _ _
    trivial

theorem keptByInterning_aliases :
    KeptByInterning fun table => table.aliases = [] :=
  .of_push fun _ hTable => hTable

section Deciding

variable {kept : TypeTable → Prop}

theorem KeptByInterning.decisionRule (h : KeptByInterning kept) :
    DecisionRule stillClock (fun _ => kept) fun _ _ => True :=
  ⟨fun _ _ => trivial, fun _ => h _, id⟩

theorem preserves_eval_of_intern (h : KeptByInterning kept) (term : TypeTerm) :
    Preserves kept term.eval fun _ => True :=
  h.decisionRule.leads_eval term ()

theorem preserves_evalMembers_of_intern
    (h : KeptByInterning kept) (members : List (Text × TypeTerm)) :
    Preserves kept (TypeTerm.evalMembers members) fun _ => True :=
  (h.decisionRule.leads_evalMembers members ()).imp fun _ _ _ _ => trivial

theorem preserves_interfaceFields_of_intern
    (h : KeptByInterning kept) (interface : Text) (members : List InterfaceMember) :
    Preserves kept (TypeTable.interfaceFields interface members) fun _ => True :=
  (h.decisionRule.leads_interfaceFields interface members ()).imp fun _ _ _ _ => trivial

end Deciding

end ScriptLowering
