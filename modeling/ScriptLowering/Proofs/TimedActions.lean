import ScriptLowering.Types.Table

/-
  Computations in time. While a computation runs, time goes
  on, and what holds of a state is told by the time. An action
  leads from a time to a later one, also where it fails. Time
  may be a log that grows, or it may stand still, and then
  what is told is an invariant.

  Key theorems include:
    * `Leads.bind`
    * `DecisionRule.leads_eval`
-/

namespace ScriptLowering

-----
-- Actions
-----

/- The state that a computation leaves, however it ends. -/
def stateLeft {ε σ α : Type} : EStateM.Result ε σ α → σ
  | .ok _ state => state
  | .error _ state => state

/- A run that succeeds is made of runs that succeed. -/
theorem bind_eq_ok
    {ε σ α β : Type} {first : EStateM ε σ α} {next : α → EStateM ε σ β} {state last : σ}
    {result : β} (h : (first >>= next) state = .ok result last) :
    ∃ value middle, first state = .ok value middle ∧
      next value middle = .ok result last := by
  simp only [bind, EStateM.bind] at h
  cases hFirst : first state with
  | error =>
    rw [hFirst] at h
    cases h
  | ok value middle =>
    rw [hFirst] at h
    exact ⟨value, middle, rfl, h⟩

/- Times, and when one of them is not before another. -/
structure Clock where
  Time : Type
  le : Time → Time → Prop
  refl :
    ∀ time, le time time
  trans :
    ∀ {first second third}, le first second → le second third → le first third

/-
  A computation that starts at a time leads to a later one,
  whether it succeeds or not. What is known of its value is
  known at the later time.
-/
def Leads
    {ε σ α : Type} (clock : Clock) (Holds : clock.Time → σ → Prop) (time : clock.Time)
    (action : EStateM ε σ α) (Post : clock.Time → α → Prop) : Prop :=
  ∀ state, Holds time state →
    ∃ later, clock.le time later ∧ Holds later (stateLeft (action state)) ∧
      ∀ value last, action state = .ok value last → Post later value

namespace Leads

variable {ε σ α β : Type} {clock : Clock} {time : clock.Time}
variable {Holds : clock.Time → σ → Prop}
variable {Post : clock.Time → α → Prop}

theorem pure {value : α} (h : Post time value) :
    Leads clock Holds time (Pure.pure value : EStateM ε σ α) Post := by
  intro state hState
  refine ⟨time, clock.refl time, hState, ?_⟩
  intro other last hRun
  cases hRun
  exact h

theorem throw {error : ε} :
    Leads clock Holds time (MonadExcept.throw error : EStateM ε σ α) Post := by
  intro state hState
  refine ⟨time, clock.refl time, hState, ?_⟩
  intro value last hRun
  cases hRun

theorem get :
    Leads clock Holds time (MonadState.get : EStateM ε σ σ)
      (fun later state => later = time ∧ Holds time state) := by
  intro state hState
  refine ⟨time, clock.refl time, hState, ?_⟩
  intro value last hRun
  cases hRun
  exact ⟨rfl, hState⟩

/- One computation after another. -/
theorem bind
    {Result : clock.Time → β → Prop} {first : EStateM ε σ α} {next : α → EStateM ε σ β}
    (hFirst : Leads clock Holds time first Post)
    (hNext :
      ∀ later value, clock.le time later → Post later value →
        Leads clock Holds later (next value) Result) :
    Leads clock Holds time (first >>= next) Result := by
  intro state hState
  rcases hFirst state hState with ⟨middle, hMiddle, hLeft, hValue⟩
  show
    ∃ later, _ ∧ Holds later (stateLeft (EStateM.bind first next state)) ∧
      ∀ value last, EStateM.bind first next state = .ok value last → _
  unfold EStateM.bind
  cases hRun : first state with
  | error =>
    rw [hRun] at hLeft
    refine ⟨middle, hMiddle, hLeft, ?_⟩
    intro value last hSame
    cases hSame
  | ok value after =>
    rw [hRun] at hLeft
    rcases hNext middle value hMiddle (hValue value after hRun) after hLeft with
      ⟨later, hLater, hLast, hResult⟩
    exact ⟨later, clock.trans hMiddle hLater, hLast, hResult⟩

theorem imp
    {Weaker : clock.Time → α → Prop} {action : EStateM ε σ α}
    (h : Leads clock Holds time action Post)
    (hImp : ∀ later value, clock.le time later → Post later value → Weaker later value) :
    Leads clock Holds time action Weaker := by
  intro state hState
  rcases h state hState with ⟨later, hLater, hLeft, hPost⟩
  refine ⟨later, hLater, hLeft, ?_⟩
  intro value last hRun
  exact hImp later value hLater (hPost value last hRun)

/- Other errors change nothing else. -/
theorem adaptExcept
    {δ : Type} {adapt : ε → δ} {action : EStateM ε σ α} (h : Leads clock Holds time action Post) :
    Leads clock Holds time (EStateM.adaptExcept adapt action) Post := by
  intro state hState
  rcases h state hState with ⟨later, hLater, hLeft, hPost⟩
  refine ⟨later, hLater, ?_⟩
  unfold EStateM.adaptExcept
  cases hRun : action state with
  | ok value last =>
    rw [hRun] at hLeft hPost
    refine ⟨hLeft, ?_⟩
    intro other final hSame
    cases hSame
    exact hPost value last rfl
  | error =>
    rw [hRun] at hLeft
    refine ⟨hLeft, ?_⟩
    intro value final hSame
    cases hSame

end Leads

-----
-- Deciding Types
-----

/-
  What is known of types once they are decided: it stays
  known, and it is all that interning asks of the fields.
-/
structure DecisionRule
    (clock : Clock) (Holds : clock.Time → TypeTable → Prop)
    (Known : clock.Time → TypeName → Prop) : Prop where
  mono :
    ∀ {time later type}, Known time type → clock.le time later → Known later type
  intern :
    ∀ {time fields}, (∀ field ∈ fields, Known time field.2) →
      Leads clock Holds time (TypeTable.intern fields) fun _ _ => True
  decided :
    ∀ {time} {term : TypeTerm},
      Leads clock Holds time term.eval (fun _ _ => True) → Leads clock Holds time term.eval Known

namespace DecisionRule

variable {clock : Clock} {time : clock.Time}
variable {Holds : clock.Time → TypeTable → Prop}
variable {Known : clock.Time → TypeName → Prop}

theorem leads_arrayType (raw : Text) (element : TypeName) :
    Leads clock Holds time (TypeTerm.arrayType raw element) fun _ _ => True := by
  unfold TypeTerm.arrayType
  split
  · exact .throw
  · exact .pure trivial

theorem leads_namedType (raw name : Text) :
    Leads clock Holds time (TypeTerm.namedType raw name) fun _ _ => True := by
  apply Leads.get.bind
  intro later table _ _
  split
  · exact .pure trivial
  · split
    · exact .pure trivial
    · exact .throw

mutual

/- Deciding a type changes the table by interning only. -/
theorem leads_eval (rule : DecisionRule clock Holds Known) (term : TypeTerm) (time : clock.Time) :
    Leads clock Holds time term.eval Known := by
  apply rule.decided
  cases term with
  | undecided | disallowed | malformed => exact .throw
  | string | bool | numeral => exact .pure trivial
  | shape members =>
    apply (leads_evalMembers rule members time).bind
    intro later fields _ hFields
    exact rule.intern hFields
  | array raw element =>
    apply (leads_eval rule element time).bind
    intro later type _ _
    exact leads_arrayType raw type
  | applied raw _ args =>
    unfold TypeTerm.eval
    split
    · split
      · next arg =>
        apply (leads_eval rule arg time).bind
        intro later type _ _
        exact leads_arrayType raw type
      · exact .throw
    · split
      · split
        · next arg =>
          apply (leads_eval rule arg time).bind
          intro later type _ _
          exact .pure trivial
        · exact .throw
      · apply (leads_evalArgs rule args time).bind
        intro later types _ _
        exact .pure trivial
  | named raw name => exact leads_namedType raw name

theorem leads_evalArgs
    (rule : DecisionRule clock Holds Known) (args : List TypeTerm) (time : clock.Time) :
    Leads clock Holds time (TypeTerm.evalArgs args)
      fun later types => ∀ type ∈ types, Known later type := by
  cases args with
  | nil => exact .pure nofun
  | cons arg rest =>
    apply (leads_eval rule arg time).bind
    intro later _ _ hFirst
    apply (leads_evalArgs rule rest later).bind
    intro last _ hLast hTypes
    exact .pure (List.forall_mem_cons.mpr ⟨rule.mono hFirst hLast, hTypes⟩)

theorem leads_evalMembers
    (rule : DecisionRule clock Holds Known) (members : List (Text × TypeTerm)) (time : clock.Time) :
    Leads clock Holds time (TypeTerm.evalMembers members)
      fun later fields => ∀ field ∈ fields, Known later field.2 := by
  cases members with
  | nil => exact .pure nofun
  | cons member rest =>
    rcases member with ⟨_, term⟩
    apply (leads_eval rule term time).bind
    intro later _ _ hFirst
    apply (leads_evalMembers rule rest later).bind
    intro last _ hLast hFields
    exact .pure (List.forall_mem_cons.mpr ⟨rule.mono hFirst hLast, hFields⟩)

end

theorem leads_interfaceFields
    (rule : DecisionRule clock Holds Known) (interface : Text) (members : List InterfaceMember)
    (time : clock.Time) :
    Leads clock Holds time (TypeTable.interfaceFields interface members)
      fun later fields => ∀ field ∈ fields, Known later field.2 := by
  induction members generalizing time with
  | nil => exact .pure nofun
  | cons _ _ ih =>
    unfold TypeTable.interfaceFields
    split
    · exact .throw
    · split
      · exact .throw
      · apply (leads_eval rule _ time).bind
        intro later _ _ hFirst
        apply (ih later).bind
        intro last _ hLast hFields
        exact .pure (List.forall_mem_cons.mpr ⟨rule.mono hFirst hLast, hFields⟩)

end DecisionRule

end ScriptLowering
