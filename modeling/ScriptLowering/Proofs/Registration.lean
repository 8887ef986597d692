import ScriptLowering.Proofs.Lexicon

/-
  Entering a unit. Types are declared in the order of their
  statements, and functions are bound by name. Neither has to
  do with the other as long as no struct has the name of the
  type that functions are bound with. So entering a unit
  declares its types as if they stood alone, and binds the
  functions as if their order did not matter.

  Key theorems include:
    * `preserves_declareTypes`
    * `enters_or_fails`
-/

namespace ScriptLowering

open LowerM List Spelling TypeTable

-----
-- Dormant Registries
-----

/-
  No struct is used, and none is found under the name of the
  type that functions are bound with.
-/
def Registry.IsDormant (registry : Registry) : Prop :=
  ∀ struct ∈ registry.structs, struct.used = false ∧ struct.name ≠ Spelling.function

def TypeTable.IsDormant (table : TypeTable) : Prop :=
  table.registry.IsDormant

namespace Registry

variable {registry : Registry}

theorem IsDormant.isUnused (h : registry.IsDormant) :
    registry.IsUnused :=
  fun struct hStruct => (h struct hStruct).1

theorem IsDormant.push
    (h : registry.IsDormant) {struct : Struct} (hUnused : struct.used = false)
    (hName : struct.name ≠ function) :
    (registry.push struct).IsDormant := by
  intro other hOther
  rcases mem_append.mp hOther with hOld | hNew
  · exact h other hOld
  · rw [mem_singleton.mp hNew]
    exact ⟨hUnused, hName⟩

theorem nextName_ne_function (registry : Registry) :
    registry.nextName ≠ function := by
  intro h
  have hHead : some 'a' = some 'f' := congrArg List.head? h
  cases hHead

/- Binding a function marks nothing in a dormant registry. -/
theorem IsDormant.markUsed_function (h : registry.IsDormant) :
    registry.markUsed TypeName.function = registry := by
  apply markUsed_eq_self h.isUnused
  intro name hName
  have hWord : name = Spelling.function := by
    have hWords : TypeName.function.referencedNames = [Spelling.function] := by decide
    rw [hWords] at hName
    exact mem_singleton.mp hName
  rw [← Bool.not_eq_true, contains_iff]
  rintro ⟨struct, hStruct, hSame⟩
  exact (h struct hStruct).2 (hSame.trans hWord)

end Registry

theorem isDormant_empty :
    empty.IsDormant := by
  intro struct hStruct
  cases hStruct

theorem keptByInterning_isDormant :
    KeptByInterning TypeTable.IsDormant :=
  .of_push fun {table} _ hTable =>
    Registry.IsDormant.push hTable rfl table.registry.nextName_ne_function

theorem preserves_declareStruct_isDormant
    {name : Text} (hName : name ≠ function) (fields : List (Text × TypeName)) :
    Preserves TypeTable.IsDormant (declareStruct name fields) fun _ => True := by
  apply Preserves.bind Preserves.get
  intro table hTable
  split
  · exact .throw
  · next registry hDeclare =>
    rcases Registry.declare_eq_ok hDeclare with ⟨_, rfl⟩
    apply Preserves.bind
    · apply Preserves.set
      exact Registry.IsDormant.push hTable rfl hName
    · intro _ _
      exact .pure trivial

-----
-- Declared Types
-----

/-
  The name of the struct that a statement declares. Of the
  aliases only one for an object type declares a struct.
-/
def Stmt.structName? : Stmt → Option Text
  | .interface _ decl => some decl.name
  | .typeAlias _ decl =>
      if decl.isObject then
        some decl.name
      else
        none
  | _ => none

/- Declare the types of a unit, and nothing else. -/
def declareTypes : List Stmt → TypeM Unit
  | [] => return ()
  | .interface _ decl :: rest => do
      let _ ← TypeTable.declareInterface decl
      declareTypes rest
  | .typeAlias _ decl :: rest => do
      let _ ← TypeTable.declareAlias decl
      declareTypes rest
  | _ :: rest => declareTypes rest

theorem preserves_declareInterface_isDormant {decl : Interface} (hName : decl.name ≠ function) :
    Preserves TypeTable.IsDormant (declareInterface decl) fun _ => True := by
  apply Preserves.bind Preserves.get
  intro table _
  split
  · exact .throw
  · apply Preserves.bind
      (preserves_interfaceFields_of_intern keptByInterning_isDormant decl.name decl.members)
    intro fields _
    split
    · exact .throw
    · exact preserves_declareStruct_isDormant hName fields

theorem preserves_declareAlias_isDormant
    {decl : TypeAlias} (hName : decl.isObject = true → decl.name ≠ function) :
    Preserves TypeTable.IsDormant (declareAlias decl) fun _ => True := by
  apply Preserves.bind Preserves.get
  intro table _
  split
  · exact .throw
  · split
    · next members hShape =>
      have hObject : decl.isObject = true := by simp [TypeAlias.isObject, hShape]
      apply Preserves.bind (preserves_evalMembers_of_intern keptByInterning_isDormant members)
      intro fields _
      exact preserves_declareStruct_isDormant (hName hObject) fields
    · apply Preserves.bind (preserves_eval_of_intern keptByInterning_isDormant _)
      intro target _
      apply Preserves.intro
      · intro last hLast
        exact hLast
      · intro _ _ _ _ _
        trivial

theorem ne_function_of_isObject
    {node : Node} {decl : TypeAlias}
    (hName : (Stmt.typeAlias node decl).structName? ≠ some function) :
    decl.isObject = true → decl.name ≠ function := by
  intro hObject hSame
  apply hName
  rw [Stmt.structName?, if_pos hObject, hSame]

/- No struct of a unit has the name of the type of functions. -/
theorem preserves_declareTypes
    {stmts : List Stmt} (hNames : ∀ stmt ∈ stmts, stmt.structName? ≠ some function) :
    Preserves TypeTable.IsDormant (declareTypes stmts) fun _ => True := by
  fun_induction declareTypes stmts with
  | case1 => exact .pure trivial
  | case2 _ _ _ ih =>
    rcases forall_mem_cons.mp hNames with ⟨hName, hRest⟩
    apply Preserves.bind
      (preserves_declareInterface_isDormant fun hSame => hName (congrArg some hSame))
    intro _ _
    exact ih hRest
  | case3 _ _ _ ih =>
    rcases forall_mem_cons.mp hNames with ⟨hName, hRest⟩
    apply Preserves.bind (preserves_declareAlias_isDormant (ne_function_of_isObject hName))
    intro _ _
    exact ih hRest
  | case4 _ _ _ _ ih => exact ih (forall_mem_cons.mp hNames).2

def Stmt.isFunction : Stmt → Bool
  | .function _ _ _ => true
  | _ => false

/- Functions do not take part in the declaration of types. -/
theorem declareTypes_filter (stmts : List Stmt) :
    declareTypes (stmts.filter fun stmt => !stmt.isFunction) = declareTypes stmts := by
  induction stmts with
  | nil => rfl
  | cons stmt _ ih =>
    cases stmt with
    | interface _ decl => exact congrArg (fun next => declareInterface decl >>= fun _ => next) ih
    | typeAlias _ decl => exact congrArg (fun next => declareAlias decl >>= fun _ => next) ih
    | _ => exact ih

-----
-- Entering A Unit
-----

/- The names of the functions of a unit. -/
def functionNames (stmts : List Stmt) : List Text :=
  stmts.filterMap Stmt.functionName?

/- Those of which no heading was met before. -/
def newNames (bound : List Text) (stmts : List Stmt) : List Text :=
  (functionNames stmts).filter fun name => !bound.contains name

/-
  What entering a unit comes to. Its types are declared, and
  the new names of its functions, which were free, are bound.
-/
structure Enters
    (site : Site) (bound : List Text) (stmts : List Stmt) (start last : LowerState) : Prop where
  types : declareTypes stmts start.types = .ok () last.types
  free :
    ∀ name ∈ newNames bound stmts, start.scope.view.root name = none
  nested : last.scope.view.nested = []
  root :
    ∀ name,
      last.scope.view.root name =
        if name ∈ newNames bound stmts then
          some (TypeName.function, site.origin?)
        else
          start.scope.view.root name

/- Why a unit is not entered. -/
def IsRefused (bound : List Text) (stmts : List Stmt) (start : LowerState) : Prop :=
  (∃ error last, declareTypes stmts start.types = .error error last) ∨
    ∃ name ∈ newNames bound stmts, start.scope.view.root name ≠ none

/- A unit is entered, or there is a reason why it is not. -/
def EntersOrFails
    (site : Site) (bound : List Text) (stmts : List Stmt) (action : LowerM Unit)
    (start : LowerState) : Prop :=
  (∃ last, action start = .ok () last ∧ Enters site bound stmts start last) ∨
    Fails action start ∧ IsRefused bound stmts start

section Entering

variable {site : Site} {span : Span} {bound : List Text}
variable {stmts rest : List Stmt} {start : LowerState}

theorem comesTo_declareInitialized
    {name : Text} {type : TypeName} {origin? : Option Text}
    (h : start.scope.view.current name = none) :
    ComesTo start (declareInitialized site span name type origin? start)
      (some ⟨(), [type], start.scope.view.bind name (type, origin?)⟩) := by
  let after := start.scope.view.bind name (type, origin?)
  show
    ComesTo start
      ((declare site span name type origin? >>= fun _ => markInitialized site span name) start)
      ((some ⟨(), [], after⟩).map (Yield.andThen ⟨(), [type], after⟩))
  apply (comesTo_declare site span type origin? h).bind
  intro middle hMiddle
  have hScope : middle.scope.view = after := LowerState.scope_view hMiddle
  rw [← hScope]
  apply comesTo_markInitialized
  rw [hScope, ScopeView.lookup?_bind]
  rfl

/-
  What is left to do after a part that binds nothing decides
  what all of it comes to.
-/
theorem EntersOrFails.of_rest
    {action next : LowerM Unit} {middle : LowerState}
    (h : EntersOrFails site bound rest next middle) (hRun : action start = next middle)
    (hTypes : declareTypes stmts start.types = declareTypes rest middle.types)
    (hNew : newNames bound stmts = newNames bound rest) (hScope : middle.scope = start.scope) :
    EntersOrFails site bound stmts action start := by
  rcases h with ⟨last, hLast, hEnters⟩ | ⟨⟨error, last, hError⟩, hWhy⟩
  · refine .inl ⟨last, hRun.trans hLast, ?_⟩
    constructor
    · exact hTypes.trans hEnters.types
    · rw [hNew, ← hScope]
      exact hEnters.free
    · exact hEnters.nested
    · rw [hNew, ← hScope]
      exact hEnters.root
  · refine .inr ⟨⟨error, last, hRun.trans hError⟩, ?_⟩
    unfold IsRefused
    rw [hTypes, hNew, ← hScope]
    exact hWhy

/- A type is declared in front of all that follows. -/
theorem EntersOrFails.typed
    {action : TypeM TypeName} (hTypes : declareTypes stmts = action >>= fun _ => declareTypes rest)
    (hNew : newNames bound stmts = newNames bound rest) (hDormant : start.types.IsDormant)
    (hKept : Preserves TypeTable.IsDormant action fun _ => True)
    (hNext :
      ∀ last : TypeTable, last.IsDormant →
        EntersOrFails site bound rest (register site bound rest) { start with types := last }) :
    EntersOrFails site bound stmts (typed site span action >>= fun _ => register site bound rest)
      start := by
  have hLast := hKept.kept hDormant
  cases hAction : action start.types with
  | error error last =>
    right
    constructor
    · apply Fails.bind_left
      exact ⟨_, _, by
        simp only [LowerM.typed, LowerM.onTypes, hAction]
        rfl⟩
    · refine .inl ⟨error, last, ?_⟩
      rw [hTypes]
      simp only [Bind.bind, EStateM.bind, hAction]
  | ok _ last =>
    rw [hAction] at hLast
    refine (hNext last hLast).of_rest ?_ ?_ hNew rfl
    · simp only [LowerM.typed, LowerM.onTypes, Bind.bind, EStateM.bind, hAction]
    · rw [hTypes]
      simp only [Bind.bind, EStateM.bind, hAction]

theorem mem_newNames {name : Text} :
    name ∈ newNames bound stmts ↔ name ∈ functionNames stmts ∧ name ∉ bound := by
  simp [newNames]

/- A new function gives its name, and the rest its other names. -/
theorem mem_newNames_function
    {name : Text} {node : Node} {head : FunctionHead} {body? : Option (List Stmt)}
    (hNew : head.name ∉ bound) :
    name ∈ newNames bound (.function node head body? :: rest) ↔
      name = head.name ∨ name ∈ newNames (head.name :: bound) rest := by
  simp only [mem_newNames, functionNames, filterMap_cons, Stmt.functionName?, mem_cons]
  by_cases hName : name = head.name
  · simp [hName, hNew]
  · simp [hName]

/- What binding a function at the root leaves. -/
structure BindsFunction (site : Site) (name : Text) (start last : LowerState) : Prop where
  types : last.types = start.types
  view :
    last.scope.view =
      ⟨[], Function.update start.scope.view.root name (some (TypeName.function, site.origin?))⟩

/- A function can be bound at the root if its name is free. -/
theorem bindsFunction_of_free
    (site : Site) (span : Span) {name : Text} (hRoot : start.scope.view.nested = [])
    (hDormant : start.types.IsDormant) (hFree : start.scope.view.root name = none) :
    ∃ last,
      declareInitialized site span name TypeName.function site.origin? start = .ok () last ∧
        BindsFunction site name start last := by
  have hCurrent : start.scope.view.current name = none := by
    simp only [ScopeView.current, hRoot, headD_nil, hFree]
  have hBind :
      ComesTo start (declareInitialized site span name TypeName.function site.origin? start) _ :=
    comesTo_declareInitialized hCurrent
  generalize
    declareInitialized site span name TypeName.function site.origin? start = result at hBind
  rcases hBind with @⟨_, last, hTypes, hScope⟩
  refine ⟨last, rfl, ?_, ?_⟩
  · rw [hTypes]
    simp [marked, Registry.marked, Registry.IsDormant.markUsed_function hDormant]
  · rw [hScope]
    simp only [ScopeView.bind, hRoot]

/- A function is bound in front of all that follows. -/
theorem EntersOrFails.function
    {node : Node} {head : FunctionHead} {body? : Option (List Stmt)}
    (hRoot : start.scope.view.nested = []) (hDormant : start.types.IsDormant)
    (hNew : head.name ∉ bound)
    (hNext :
      ∀ middle : LowerState,
        BindsFunction site head.name start middle →
          EntersOrFails site (head.name :: bound) rest
            (register site (head.name :: bound) rest) middle) :
    EntersOrFails site bound (.function node head body? :: rest)
      (declareInitialized site span head.name
          TypeName.function site.origin? >>= fun _ =>
        register site (head.name :: bound) rest)
      start := by
  cases hTaken : start.scope.view.root head.name with
  | some =>
    right
    constructor
    · apply Fails.bind_left
      apply Fails.bind_left
      apply fails_declare
      simp only [ScopeView.current, hRoot, headD_nil]
      exact hTaken
    · refine .inr ⟨head.name, ?_, ?_⟩
      · exact (mem_newNames_function hNew).mpr (.inl rfl)
      · simp [hTaken]
  | none =>
    rcases bindsFunction_of_free site span hRoot hDormant hTaken with ⟨middle, hDeclared, hBinds⟩
    have hRun :
        (declareInitialized site span head.name
            TypeName.function site.origin? >>= fun _ =>
          register site (head.name :: bound) rest) start =
          register site (head.name :: bound) rest middle := by
      simp only [Bind.bind, EStateM.bind, hDeclared]
    -- The name that was just bound is not a new one any more.
    have hRootOf :
        ∀ name ∈ newNames (head.name :: bound) rest,
          middle.scope.view.root name = start.scope.view.root name := by
      intro name hName
      have hOther : name ≠ head.name := by
        rintro rfl
        exact (mem_newNames.mp hName).2 mem_cons_self
      rw [hBinds.view]
      exact Function.update_of_ne hOther _ _
    rcases hNext middle hBinds with ⟨last, hLast, hEnters⟩ | ⟨⟨error, last, hError⟩, hRefused⟩
    · refine .inl ⟨last, hRun.trans hLast, ?_⟩
      constructor
      · rw [← hBinds.types]
        exact hEnters.types
      · intro name hName
        rcases (mem_newNames_function hNew).mp hName with rfl | hRest
        · exact hTaken
        · rw [← hRootOf name hRest]
          exact hEnters.free name hRest
      · exact hEnters.nested
      · intro name
        rw [hEnters.root name, hBinds.view]
        simp only [mem_newNames_function hNew]
        by_cases hName : name = head.name
        · subst hName
          simp
        · simp [hName]
    · refine .inr ⟨⟨error, last, hRun.trans hError⟩, ?_⟩
      rcases hRefused with hTypesFail | ⟨name, hName, hRefused⟩
      · left
        rw [hBinds.types] at hTypesFail
        exact hTypesFail
      · right
        rw [hRootOf name hName] at hRefused
        exact ⟨name, (mem_newNames_function hNew).mpr (.inr hName), hRefused⟩

end Entering

/-
  The types are declared one after the other, and a function
  is bound at its first heading. What has been bound on the
  way is not counted as taken.
-/
theorem enters_or_fails
    (site : Site) (bound : List Text) (stmts : List Stmt) {start : LowerState}
    (hRoot : start.scope.view.nested = []) (hDormant : start.types.IsDormant)
    (hNames : ∀ stmt ∈ stmts, stmt.structName? ≠ some Spelling.function) :
    EntersOrFails site bound stmts (register site bound stmts)
      start := by
  fun_induction register site bound stmts generalizing start with
  | case1 =>
    left
    exact ⟨start, rfl, rfl, by simp [newNames, functionNames],
      hRoot, by simp [newNames, functionNames]⟩
  | case2 _ _ _ _ _ hBound ih =>
    have hRest := ih hRoot hDormant (forall_mem_cons.mp hNames).2
    refine hRest.of_rest rfl rfl ?_ rfl
    simp [newNames, functionNames, Stmt.functionName?, contains_iff_mem.mp hBound]
  | case3 _ _ _ _ _ hBound ih =>
    apply EntersOrFails.function hRoot hDormant (mt contains_iff_mem.mpr hBound)
    intro middle hBinds
    apply ih
    · rw [hBinds.view]
    · rw [hBinds.types]
      exact hDormant
    · exact (forall_mem_cons.mp hNames).2
  | case4 _ _ _ _ ih =>
    rcases forall_mem_cons.mp hNames with ⟨hName, hRest⟩
    refine EntersOrFails.typed rfl rfl hDormant ?_ ?_
    · exact preserves_declareInterface_isDormant fun hSame => hName (congrArg some hSame)
    · intro last hLast
      refine ih ?_ hLast hRest
      exact hRoot
  | case5 _ _ _ _ ih =>
    rcases forall_mem_cons.mp hNames with ⟨hName, hRest⟩
    refine EntersOrFails.typed rfl rfl hDormant ?_ ?_
    · exact preserves_declareAlias_isDormant (ne_function_of_isObject hName)
    · intro last hLast
      refine ih ?_ hLast hRest
      exact hRoot
  | case6 _ stmt _ hFunction hInterface hAlias ih =>
    have hRest := ih hRoot hDormant (forall_mem_cons.mp hNames).2
    refine hRest.of_rest rfl ?_ ?_ rfl
    · cases stmt with
      | interface => exact (hInterface _ _ rfl).elim
      | typeAlias => exact (hAlias _ _ rfl).elim
      | _ => rfl
    · cases stmt with
      | function => exact (hFunction _ _ _ rfl).elim
      | _ => rfl

end ScriptLowering
