import ScriptLowering.Proofs.Canonicalization
import ScriptLowering.Proofs.Emission
import ScriptLowering.Proofs.KnownNames
import ScriptLowering.Proofs.PageReading
import ScriptLowering.Proofs.PrintedLines

/-
  Emission of a whole program in one pass. Behind the preamble
  two places are reserved, for structs and for prototypes. The
  units are walked and written behind them, an imported unit
  where it is first imported, and what is met is recorded. At
  the end writing is redirected into the two places. The text
  and the errors are those of lowering and printing.

  Key theorems include:
    * `writes_emitTopLevels`
    * `Program.emit_eq_compile`
-/

namespace ScriptLowering

open List Target

-----
-- Emitters
-----

namespace EmitM

variable {α : Type}

/- Run between two changes, of which the second is made in any case. -/
def between (enter leave : Emitter → Emitter) (action : EmitM α) : EmitM α :=
  fun emitter =>
    match action (enter emitter) with
    | .ok value last => .ok value (leave last)
    | .error error last => .error error (leave last)

/- Run while a unit is walked. -/
def withUnit (frame : UnitFrame) : EmitM α → EmitM α :=
  between (fun emitter => { emitter with units := frame :: emitter.units })
    fun emitter => { emitter with units := emitter.units.tail }

/- Run with all that is written going to another buffer. -/
def redirect (buffer : Nat) : EmitM α → EmitM α :=
  between (fun emitter => { emitter with page := emitter.page.pushTarget buffer })
    fun emitter => { emitter with page := emitter.page.popTarget }

/- Run while a function with a return type is emitted. -/
def returning (type : TypeName) (action : EmitM α) : EmitM α :=
  fun outer =>
    between (fun emitter => { emitter with returnType? := some type })
      (fun emitter => { emitter with returnType? := outer.returnType? }) action outer

/- Record a function without a body, and give its index. -/
def addFunction (signature : Signature) : EmitM Nat :=
  fun emitter =>
    .ok emitter.functions.length
      { emitter with functions := emitter.functions ++ [⟨signature, false⟩] }

def setBodyEmitted (index : Nat) : EmitM Unit :=
  fun emitter =>
    .ok ()
      { emitter with
        functions :=
          emitter.functions.modify index fun record =>
            { record with bodyEmitted := true } }

def takenIn (id : UnitId) : EmitM Unit :=
  fun emitter => .ok () { emitter with included := id :: emitter.included }

/- Reserve a place for a buffer, and give its number. -/
def reserve : EmitM Nat :=
  fun emitter =>
    .ok emitter.page.nextPlace { emitter with page := emitter.page.reserve }

end EmitM

open EmitM LowerM

-----
-- Units
-----

/- A signature and a body in braces. -/
def emitBody (front : Program) (signature : Signature) (body : List Stmt) : EmitM Unit := do
  write signature.text
  write " "
  braced (emitStmts front body)

/- A function is recorded before its body is emitted. -/
def emitFunction
    (front : Program) (node : Node) (head : FunctionHead)
    (body? : Option (List Stmt)) : EmitM Unit := do
  let name ← lowered front fun site => qualified site node.span head.name
  let type ← lowered front fun site => returnType site node head
  lowered front fun _ => markUsed type
  EmitM.inFrame do
    let params ← lowered front fun site => lowerParams site head.params
    let index ← addFunction ⟨name, params, type⟩
    match body? with
    | none => return ()
    | some body => do
        returning type (emitBody front ⟨name, params, type⟩ body)
        endLine
        endLine
        setBodyEmitted index

/- The unit that is walked. -/
def currentUnit? : EmitM (Option UnitId) :=
  fun emitter => .ok (emitter.units.head?.map UnitFrame.id) emitter

/- Take in a unit that was not taken in before. -/
def takeInOnce
    (front : Program) (takeIn : UnitFrame → EmitM Unit) (span : Span) (specifier : Text)
    (id : UnitId) : EmitM Unit :=
  fun emitter =>
    if id ∈ emitter.included then
      .ok () emitter
    else
      match front.unit? id with
      | none =>
          lowered front (fun site => fail site span (.missingUnit specifier)) emitter
      | some unit => takeIn ⟨id, unit, some specifier⟩ emitter

/- What an import does, by what its specifier resolves to. -/
def emitResolved
    (front : Program) (takeIn : UnitFrame → EmitM Unit) (span : Span) (specifier : Text)
    (names : List ImportName) : Option ModuleTarget → EmitM Unit
  | none => lowered front fun site => fail site span (.unresolvedModule specifier)
  | some .native => lowered front fun site => bindNative site names
  | some (.unit id) => do
      takeInOnce front takeIn span specifier id
      lowered front fun site => checkProvided site specifier names

def emitImport
    (front : Program) (takeIn : UnitFrame → EmitM Unit) (node : Node) (specifier : Text)
    (clause : ImportClause) : EmitM Unit := do
  let names ← lowered front fun site => importNames site node.span clause
  let importer? ← currentUnit?
  emitResolved front takeIn node.span specifier names
    (importer?.bind fun importer => front.resolveModule? importer specifier)

/- Emit a statement of a unit. -/
def emitTopLevel (front : Program) (takeIn : UnitFrame → EmitM Unit) : Stmt → EmitM Unit
  | .function node head body? => emitFunction front node head body?
  | .importFrom node specifier clause =>
      emitImport front takeIn node specifier clause
  | .interface _ _ => return ()
  | .typeAlias _ _ => return ()
  | .vars _ _ declarators => emitVars front declarators
  | stmt =>
      lowered front fun site =>
        fail site stmt.span (.topLevelStatement stmt.kindName)

def emitTopLevels (front : Program) (takeIn : UnitFrame → EmitM Unit) : List Stmt → EmitM Unit
  | [] => return ()
  | stmt :: rest => do
      emitTopLevel front takeIn stmt
      emitTopLevels front takeIn rest

/-
  Walk a unit: register what it declares, then emit its
  statements. There is room for so many units inside another.
-/
def emitUnit (front : Program) : Nat → UnitFrame → EmitM Unit
  | 0, _ => return ()
  | room + 1, frame => do
      takenIn frame.id
      withUnit frame do
        lowered front fun site => register site [] frame.unit.statements
        emitTopLevels front (emitUnit front room) frame.unit.statements

-----
-- Programs
-----

/- The label of a section is taken back if the section is empty. -/
def writeSection
    (config : LayoutConfig) (label : Text) (isEmpty : Bool) (content : Page → Page)
    (page : Page) : Page :=
  let labelled := writeLabel config label page
  if isEmpty then
    if config.sectionComments then labelled.removeLine else labelled
  else
    content labelled

/- The structs in the order of emission. -/
def writeStructs (config : LayoutConfig) (types : TypeTable) : Page → Page :=
  let order := types.registry.emissionOrder
  writeSection config "// Structs" order.isEmpty fun page =>
    order.foldl (fun page struct => writeStruct struct page)
      (writeForward (forwardDeclarations order) page)

/- The functions in the order in which they were met. -/
def writePrototypes (config : LayoutConfig) (functions : List FunctionRecord) : Page → Page :=
  let signatures := functions.map FunctionRecord.signature
  writeSection config "// Functions" signatures.isEmpty fun page =>
    (writeLines (signatures.map fun signature => signature.text ++ ";") page).endLine

/- Bind the names of the native library. -/
def bindGlobals (site : Site) : List (Text × Text) → LowerM Unit
  | [] => return ()
  | (name, type) :: rest => do
      let type ← typed site Span.nowhere (TypeTable.canonicalize type)
      declareInitialized site Span.nowhere name type none
      bindGlobals site rest

def emitAll (front : Program) (config : LayoutConfig) (entry : UnitFrame) : EmitM Unit := do
  onPage (writePreamble config)
  lowered front fun site => bindGlobals site Native.globals
  let structs ← reserve
  let prototypes ← reserve
  emitUnit front (front.units.length + 1) entry
  redirect structs fun emitter =>
    onPage (writeStructs config emitter.lowering.types) emitter
  redirect prototypes fun emitter =>
    onPage (writePrototypes config emitter.functions) emitter

def Emitter.start (config : LayoutConfig) : Emitter :=
  ⟨⟨[], none, [], []⟩, ⟨TypeTable.empty, ⟨[], []⟩⟩, Page.empty config.indentWidth⟩

/- The C++ text of a program that starts at a unit, in one pass. -/
def emitProgram
    (front : Program) (config : LayoutConfig) (entry : UnitId) : Except CompileError Text :=
  match front.unit? entry with
  | none => .error (CompileError.ofFault (.missingEntry entry))
  | some unit =>
      match emitAll front config ⟨entry, unit, none⟩ (Emitter.start config) with
      | .ok _ last => .ok last.page.finish
      | .error error _ => .error error

/- The C++ text of a program, which must have a unit. -/
def Program.emit (program : Program) (config : LayoutConfig) : Except CompileError Text :=
  match program.entryUnit? with
  | some entry => emitProgram program config entry
  | none => .error (CompileError.ofFault .noUnits)

-----
-- Emission And Lowering
-----

/- What is recorded of an item. -/
def Target.Item.record? : Item → Option FunctionRecord
  | .function signature body? => some ⟨signature, body?.isSome⟩
  | .global _ _ => none

/- Where emission stands after items, with some units taken in. -/
def EmitPlace.after (place : EmitPlace) (items : List Item) (included : List UnitId) : EmitPlace :=
  { place with
    functions := place.functions ++ items.filterMap Item.record?
    included := included }

/-
  How a run of the emitter ends, compared with lowering. After
  a success the items are written and recorded; a failure is
  the same one.
-/
inductive WriteResult (place : EmitPlace) (page : Page) (included : List UnitId) :
    EStateM.Result CompileError LowerState (List Item) →
      EStateM.Result CompileError Emitter Unit → Prop
  | ok {items : List Item} {state : LowerState} :
      WriteResult place page included (.ok items state)
        (.ok () ⟨place.after items included, state, writeItems items page⟩)
  | error {error : CompileError} {state : LowerState} {last : Emitter} :
      WriteResult place page included (.error error state) (.error error last)

/- Emission from a page writes the items that lowering gives. -/
def Writes
    (place : EmitPlace) (page : Page) (included : List UnitId) (emit : EmitM Unit)
    (lower : LowerM (List Item)) : Prop :=
  ∀ state, WriteResult place page included (lower state) (emit ⟨place, state, page⟩)

section Rules

variable {front : Program} {place : EmitPlace} {page : Page}
variable {included later : List UnitId} {emit : EmitM Unit} {lower : LowerM (List Item)}

theorem writes_nil :
    Writes place page place.included (pure ()) (pure []) := by
  intro state
  have hPlace : place.after [] place.included = place := by simp [EmitPlace.after]
  have hRun := @WriteResult.ok place page place.included [] state
  rwa [hPlace] at hRun

/- Statements are emitted one after the other. -/
theorem Writes.append
    {next : EmitM Unit} {nextLower : LowerM (List Item)}
    (hFirst : Writes place page included emit lower)
    (hNext :
      ∀ items, Writes (place.after items included) (writeItems items page) later next nextLower) :
    Writes place page later (do emit; next)
      (do
        let first ← lower
        let items ← nextLower
        return first ++ items) := by
  intro state
  have hRun := hFirst state
  simp only [Bind.bind, EStateM.bind]
  generalize lower state = lowerRun at hRun ⊢
  generalize emit ⟨place, state, page⟩ = emitRun at hRun ⊢
  cases hRun with
  | error => exact .error
  | @ok items middle =>
    have hLater := hNext items middle
    dsimp only
    generalize nextLower middle = lowerRun at hLater ⊢
    generalize next _ = emitRun at hLater ⊢
    cases hLater with
    | error => exact .error
    | @ok more last =>
      have hPlace :
          (place.after items included).after more later = place.after (items ++ more) later := by
        simp [EmitPlace.after]
      have hPage : writeItems more (writeItems items page) = writeItems (items ++ more) page :=
        foldl_append.symm
      rw [hPlace, hPage]
      exact .ok

/- Both go on with the value of a computation on types and scopes. -/
theorem Writes.lowered
    {α : Type} {action : Site → LowerM α} {next : α → EmitM Unit}
    {nextLower : α → LowerM (List Item)}
    (h : ∀ value, Writes place page included (next value) (nextLower value)) :
    Writes place page included (EmitM.lowered front action >>= next)
      (action (topSite front place.units) >>= nextLower) := by
  intro state
  simp only [Bind.bind, EStateM.bind, EmitM.lowered]
  cases action (topSite front place.units) state with
  | ok value => exact h value _
  | error => exact .error

theorem writes_lowered (action : Site → LowerM Unit) :
    Writes place page place.included (EmitM.lowered front action)
      (do
        action (topSite front place.units)
        return []) := by
  intro state
  simp only [Bind.bind, EStateM.bind, EmitM.lowered]
  cases action (topSite front place.units) state with
  | ok => exact writes_nil _
  | error => exact .error

theorem Writes.inFrame (h : Writes place page included emit lower) :
    Writes place page included (EmitM.inFrame emit) (LowerM.inFrame lower) := by
  intro state
  have hRun := h (pushFrame state)
  dsimp only [EmitM.inFrame, LowerM.inFrame]
  generalize lower (pushFrame state) = lowerRun at hRun ⊢
  generalize emit ⟨place, pushFrame state, page⟩ = emitRun at hRun ⊢
  cases hRun with
  | ok => exact .ok
  | error => exact .error

/- A unit is taken in and walked; it is left again. -/
theorem Writes.withUnit
    {frame : UnitFrame}
    (h :
      Writes
        { place with
          units := frame :: place.units
          included := frame.id :: place.included }
        page included emit lower) :
    Writes place page included
      (do
        takenIn frame.id
        EmitM.withUnit frame emit)
      lower := by
  intro state
  have hRun := h state
  dsimp only [Bind.bind, EStateM.bind, takenIn, EmitM.withUnit, between]
  generalize lower state = lowerRun at hRun ⊢
  generalize emit _ = emitRun at hRun ⊢
  cases hRun with
  | ok => exact .ok
  | error => exact .error

/- What writes items without a function records nothing. -/
theorem writes_of_emits
    {α : Type} {lower : LowerM α} {items : α → List Item}
    (h : Emits place page emit lower fun value _ last => last = writeItems (items value) page)
    (hItems : ∀ value, (items value).filterMap Item.record? = []) :
    Writes place page place.included emit (lower >>= fun value => pure (items value)) := by
  intro state
  have hRun := h state
  simp only [Bind.bind, EStateM.bind]
  generalize lower state = lowerRun at hRun ⊢
  generalize emit ⟨place, state, page⟩ = emitRun at hRun ⊢
  cases hRun with
  | error => exact .error
  | @ok value _ last _ _ hLeft =>
    have hPlace : place.after (items value) place.included = place := by
      simp [EmitPlace.after, hItems]
    have hDone := @WriteResult.ok place page place.included (items value) last
    rw [hPlace, ← hLeft] at hDone
    exact hDone

end Rules

-----
-- Statements Of Units
-----

section Statements

variable {front : Program} {place : EmitPlace} {page : Page}

theorem emits_emitBody (signature : Signature) (body : List Stmt) :
    Emits place page (emitBody front signature body)
      (lowerStmts (topSite front place.units) place.returnType? body)
      fun stmts _ last =>
        last = writeBraced (writeStmts stmts) (page.write (signature.text ++ " ")) := by
  apply Emits.write
  apply Emits.write
  rw [Page.write_write]
  exact Emits.braced fun page => emits_emitStmts body page

theorem modify_last
    (functions : List FunctionRecord) (record : FunctionRecord)
    (change : FunctionRecord → FunctionRecord) :
    (functions ++ [record]).modify functions.length change = functions ++ [change record] := by
  simp [modify_eq_take_drop]

/- What is made of a value can be made inside of the frame. -/
theorem inFrame_bind_pure {α β : Type} (action : LowerM α) (make : α → β) :
    (do
      let value ← LowerM.inFrame action
      return make value) =
      LowerM.inFrame (do
        let value ← action
        return make value) := by
  funext state
  simp only [Bind.bind, EStateM.bind, LowerM.inFrame]
  cases action (pushFrame state) <;> rfl

theorem writes_emitFunction (node : Node) (head : FunctionHead) (body? : Option (List Stmt)) :
    Writes place page place.included (emitFunction front node head body?)
      (do
        let item ← lowerFunction (topSite front place.units) node head body?
        return [item]) := by
  simp only [lowerFunction, bind_assoc, inFrame_bind_pure]
  refine .lowered fun name => .lowered fun type => .lowered fun _ => .inFrame ?_
  refine .lowered fun params => ?_
  cases body? with
  | none =>
    intro state
    exact .ok
  | some body =>
    intro state
    have hRun :=
      @emits_emitBody front
        { place with
          returnType? := some type
          functions := place.functions ++ [⟨⟨name, params, type⟩, false⟩] }
        page ⟨name, params, type⟩ body state
    simp only [Bind.bind, EStateM.bind, addFunction, returning, between]
    generalize lowerStmts _ _ body state = lowerRun at hRun ⊢
    generalize emitBody front _ body _ = emitRun at hRun ⊢
    cases hRun with
    | error => exact .error
    | @ok stmts _ last _ _ hLeft =>
      rw [hLeft]
      dsimp only [EmitM.endLine, onPage, setBodyEmitted]
      rw [modify_last]
      exact .ok

theorem writes_emitVars (declarators : List Declarator) :
    Writes place page place.included (emitVars front declarators)
      (do
        let vars ← lowerVars (topSite front place.units) declarators
        return vars.map fun entry => .global entry.1 entry.2) := by
  apply writes_of_emits
  · have hWritten :
        ∀ (vars : List (TypeName × Target.Declarator)) page,
          writeStmts (declarations vars) page =
            writeItems (vars.map fun entry => .global entry.1 entry.2) page := by
      intro vars
      induction vars with
      | nil => exact fun _ => rfl
      | cons _ _ ih => exact fun _ => ih _
    simp only [← hWritten]
    exact emits_emitVars declarators page
  · intro vars
    simp [filterMap_map, Function.comp_def, Item.record?]

end Statements

-----
-- Walks
-----

/- Units that were visited exist. -/
theorem Walks.isSome_unit?
    {visited later : List UnitId} {site : Site} {stmts : List Stmt} {reads steps : List Step}
    (h : Walks visited site stmts reads steps later)
    (hVisited : ∀ id ∈ visited, (site.program.unit? id).isSome) :
    ∀ id ∈ later, (site.program.unit? id).isSome := by
  induction h with
  | done => exact hVisited
  | pass _ _ ih => exact ih hVisited
  | takeIn hImport _ _ _ ihInner ihRest =>
    rcases Step.imported?_eq_some hImport with ⟨_, hProgram, hUnit⟩
    rw [hProgram] at ihInner
    refine ihRest (ihInner ?_)
    intro id hId
    rcases mem_cons.mp hId with rfl | hId
    · exact Option.isSome_of_mem hUnit
    · exact hVisited id hId

/- The frame of the unit that is walked. -/
def Site.frame (site : Site) : UnitFrame :=
  ⟨site.unitId, site.unit, site.origin?⟩

section Walking

variable {site : Site} {place : EmitPlace} {page : Page}
variable {units : List UnitFrame}

/- An import that takes in no unit. -/
theorem writes_emitImport
    (takeIn : UnitFrame → EmitM Unit) (node : Node) (specifier : Text) (clause : ImportClause)
    (hUnits : place.units = site.frame :: units)
    (hKnown : ∀ id ∈ place.included, (site.program.unit? id).isSome)
    (hVisited :
      ∀ inner, importedSite? site specifier clause = some inner → inner.unitId ∈ place.included) :
    Writes place page place.included (emitImport site.program takeIn node specifier clause)
      (do
        lowerImport site node specifier clause
        return []) := by
  rcases place with ⟨_, returnType?, functions, included⟩
  cases hUnits
  cases clause with
  | named names =>
    unfold lowerImport emitImport importNames
    cases hAlias : names.find? fun name => name.alias?.isSome with
    | some =>
      simp only [hAlias]
      exact fun _ => .error
    | none =>
      simp only [hAlias, pure_bind]
      show Writes _ _ _ (emitResolved site.program takeIn node.span specifier names
        (site.program.resolveModule? site.unitId specifier)) _
      cases hTarget : site.program.resolveModule? site.unitId specifier with
      | none => exact fun _ => .error
      | some target =>
        cases target with
        | native => exact writes_lowered fun site => bindNative site names
        | unit id =>
          cases hUnit : site.program.unit? id with
          | none =>
            have hNew : id ∉ included := by
              intro hOld
              have hSome := hKnown id hOld
              rw [hUnit] at hSome
              cases hSome
            intro state
            simp only [emitResolved, takeInOnce, Bind.bind, EStateM.bind, hUnit, if_neg hNew]
            exact .error
          | some unit =>
            have hPlain : (names.any fun name => name.alias?.isSome) = false := by
              simpa using hAlias
            have hOld : id ∈ included :=
              hVisited ⟨site.program, id, unit, some specifier⟩
                (by simp [importedSite?, hPlain, hTarget, hUnit])
            have hRun :=
              @writes_lowered site.program
                ⟨site.frame :: units, returnType?, functions, included⟩ page
                fun site => checkProvided site specifier names
            intro state
            simp only [emitResolved, takeInOnce, Bind.bind, EStateM.bind, hUnit, if_pos hOld]
            exact hRun state
  | _ => exact fun _ => .error

/- A statement that takes in no unit. -/
theorem writes_emitTopLevel
    (takeIn : UnitFrame → EmitM Unit) (stmt : Stmt) (hUnits : place.units = site.frame :: units)
    (hKnown : ∀ id ∈ place.included, (site.program.unit? id).isSome)
    (hVisited :
      ∀ inner, (Step.statement site stmt).imported? = some inner → inner.unitId ∈ place.included) :
    Writes place page place.included (emitTopLevel site.program takeIn stmt)
      (lowerStep (.statement site stmt)) := by
  rcases place with ⟨_, returnType?, functions, included⟩
  cases hUnits
  cases stmt with
  | function node head body? =>
    exact @writes_emitFunction site.program ⟨site.frame :: units, _, _, _⟩ page node head body?
  | importFrom node specifier clause =>
    exact writes_emitImport takeIn node specifier clause rfl hKnown hVisited
  | interface | typeAlias => exact writes_nil
  | vars _ _ declarators =>
    exact @writes_emitVars site.program ⟨site.frame :: units, _, _, _⟩ page declarators
  | _ => exact fun _ => .error

/- Walking a unit, by what walking its statements does. -/
theorem writes_emitUnit
    {room : Nat} {later : List UnitId} {steps : List Step}
    (h :
      Writes
        { place with
          units := site.frame :: place.units
          included := site.unitId :: place.included }
        page later (emitTopLevels site.program (emitUnit site.program room) site.unit.statements)
        (lowerSteps steps)) :
    Writes place page later (emitUnit site.program (room + 1) site.frame)
      (lowerSteps (.enter site :: steps)) := by
  have hLower :
      lowerSteps (.enter site :: steps) =
        (do
          register site [] site.unit.statements
          lowerSteps steps) := by
    simp [lowerSteps, lowerStep]
  rw [hLower]
  exact Writes.withUnit (Writes.lowered fun _ => h)

/- An import takes in its unit, and then its names are looked up. -/
theorem writes_takeIn
    {inner : Site} {stmt : Stmt} {room : Nat} {middle : List UnitId} {steps : List Step}
    (hUnits : place.units = site.frame :: units)
    (hImport : (Step.statement site stmt).imported? = some inner)
    (hNew : inner.unitId ∉ place.included)
    (hInner :
      Writes place page middle (emitUnit site.program room inner.frame)
        (lowerSteps (.enter inner :: steps))) :
    Writes place page middle (emitTopLevel site.program (emitUnit site.program room) stmt)
      (lowerSteps (.enter inner :: (steps ++ [.statement site stmt]))) := by
  rcases Step.exists_of_imported? hImport with
    ⟨_, node, specifier, names, id, unit, hStep, hAlias, hTarget, hUnit, rfl⟩
  cases hStep
  rcases place with ⟨_, returnType?, functions, included⟩
  cases hUnits
  have hLower :
      lowerSteps [.statement site (.importFrom node specifier (.named names))] =
        (do
          checkProvided site specifier names
          return []) := by
    rw [lowerSteps, lowerStep_import node hImport]
    simp [lowerSteps]
  have hCheck :
      ∀ items,
        Writes
          (EmitPlace.after ⟨site.frame :: units, returnType?, functions, included⟩ items middle)
          (writeItems items page) middle
          (EmitM.lowered site.program fun site => checkProvided site specifier names)
          (do
            checkProvided site specifier names
            return []) :=
    fun _ => writes_lowered fun site => checkProvided site specifier names
  rw [← cons_append, lowerSteps_append, hLower]
  intro state
  have hRun := hInner.append hCheck state
  simp only [Bind.bind, EStateM.bind] at hRun
  simp only [emitTopLevel, emitImport, importNames, hAlias]
  show
    WriteResult _ _ _ _
      (emitResolved site.program (emitUnit site.program room) node.span specifier names
        (site.program.resolveModule? site.unitId specifier) _)
  rw [hTarget]
  simp only [emitResolved, takeInOnce, Bind.bind, EStateM.bind, hUnit, if_neg hNew]
  exact hRun

/-
  Emission walks the units as lowering does. There is room
  for all units that are still to be visited.
-/
theorem writes_emitTopLevels
    {visited later : List UnitId} {stmts : List Stmt} {reads steps : List Step} {room : Nat}
    (h : Walks visited site stmts reads steps later)
    (hRoom : unvisitedCount site.program visited ≤ room)
    (hUnits : place.units = site.frame :: units) (hIncluded : place.included = visited)
    (hKnown : ∀ id ∈ visited, (site.program.unit? id).isSome) :
    Writes place page later (emitTopLevels site.program (emitUnit site.program room) stmts)
      (lowerSteps steps) := by
  induction h generalizing room place page units with
  | done =>
    rw [← hIncluded]
    exact writes_nil
  | pass hVisited _ ih =>
    rw [← hIncluded] at hVisited hKnown hRoom ih
    exact (writes_emitTopLevel _ _ hUnits hKnown hVisited).append fun _ =>
      ih hRoom hUnits rfl hKnown
  | @takeIn visited middle later site inner stmt rest innerReads reads innerSteps steps
      hImport hNew hInner _ ihInner ihRest =>
    have hProgram : inner.program = site.program := (Step.imported?_eq_some hImport).2.1
    have hUnit : site.program.unit? inner.unitId = some inner.unit :=
      (Step.imported?_eq_some hImport).2.2
    have hLt := unvisitedCount_takeIn_lt hImport hNew
    rcases Nat.exists_eq_add_one_of_ne_zero (Nat.ne_zero_of_lt (Nat.lt_of_lt_of_le hLt hRoom)) with
      ⟨room, rfl⟩
    have hOpened : ∀ id ∈ inner.unitId :: visited, (site.program.unit? id).isSome := by
      intro id hId
      rcases mem_cons.mp hId with rfl | hId
      · exact Option.isSome_of_mem hUnit
      · exact hKnown id hId
    have hWhole :
        Writes place page middle (emitUnit site.program (room + 1) inner.frame)
          (lowerSteps (.enter inner :: innerSteps)) := by
      rw [← hProgram] at hLt hRoom hOpened ⊢
      exact writes_emitUnit (ihInner (by omega) rfl (by rw [hIncluded]) hOpened)
    rw [← hIncluded] at hNew
    have hFirst := writes_takeIn hUnits hImport hNew hWhole
    have hSteps :
        Step.enter inner :: (innerSteps ++ .statement site stmt :: steps) =
          (.enter inner :: (innerSteps ++ [.statement site stmt])) ++ steps := by
      simp
    have hMiddle : ∀ id ∈ middle, (site.program.unit? id).isSome := by
      have hSome := hInner.isSome_unit?
      rw [hProgram] at hSome
      exact hSome hOpened
    have hLater : unvisitedCount site.program middle ≤ room + 1 := by
      have hMono := unvisitedCount_mono site.program hInner.visited_subset
      omega
    rw [hSteps, lowerSteps_append]
    exact hFirst.append fun _ => ihRest hLater hUnits rfl hMiddle

end Walking

-----
-- Sections
-----

/- A page with two places, whose buffers hold lines. -/
def placedPage (width : Nat) (before first second after : List Text) : Page :=
  ⟨[⟨(after.map .line).reverse ++ .place 2 :: .place 1 ::
        ((before.map .line).reverse ++ []), [], 0⟩,
      ⟨(first.map .line).reverse ++ [], [], 0⟩,
      ⟨(second.map .line).reverse ++ [], [], 0⟩],
    [], width⟩

/- Lines stand for themselves. -/
theorem expands_lines {page : Page} (opened : List Nat) (texts : List Text) :
    page.expansion.Expands opened (texts.map .line) ⟨opened, texts.map .line⟩ := by
  apply Expansion.expands_of_no_opening
  intro task hTask
  rcases mem_map.mp hTask with ⟨_, _, rfl⟩
  rfl

/- A place stands for what its buffer expands to. -/
theorem expands_place
    {page : Page} {opened : List Nat} {place : Nat} {tasks : List Segment}
    {trace : Expansion.Trace Segment} (hNew : place ∉ opened)
    (hTasks : page.expansion.tasksOf place (.place place) = tasks)
    (h : page.expansion.Expands (place :: opened) tasks trace) :
    page.expansion.Expands opened [.place place] ⟨trace.opened, trace.emitted ++ []⟩ := by
  rw [← hTasks] at h
  exact .enter (page.expansion.opening?_eq_some.mpr ⟨rfl, hNew⟩) h (.done trace.opened)

/- Such a page is read with the buffers at their places. -/
theorem lines_placedPage {width : Nat} {before first second after : List Text} :
    (placedPage width before first second after).lines = before ++ first ++ second ++ after := by
  generalize hPage : placedPage width before first second after = page
  have hRoot :
      page.expansion.tasksOf 0 (.place 0) =
        before.map .line ++ ([.place 1] ++ ([.place 2] ++ after.map .line)) := by
    simp [← hPage, placedPage, Page.expansion, Buffer.allSegments, Buffer.segments]
  have hFirst : page.expansion.tasksOf 1 (.place 1) = first.map .line := by
    simp [← hPage, placedPage, Page.expansion, Buffer.allSegments, Buffer.segments]
  have hSecond : page.expansion.tasksOf 2 (.place 2) = second.map .line := by
    simp [← hPage, placedPage, Page.expansion, Buffer.allSegments, Buffer.segments]
  have hPlaces : page.places = [1, 2] := by
    simp [← hPage, placedPage, Page.places, Buffer.places, Buffer.segments, filterMap_map,
      Function.comp_def, Segment.place?]
  have hSize : page.buffers.length = 3 := by
    rw [← hPage]
    rfl
  have hInner :=
    (@expands_lines page [0] before).append
      ((expands_place (by simp) hFirst (expands_lines [1, 0] first)).append
        ((expands_place (by simp) hSecond (expands_lines [2, 1, 0] second)).append
          (expands_lines [2, 1, 0] after)))
  rw [Page.lines_eq_of_expands (by omega) ?_ (expands_place not_mem_nil hRoot hInner)]
  · simp [Function.comp_def, Segment.line?]
  · rw [hPlaces, hSize]
    decide

section Sections

variable {config : LayoutConfig} {place : EmitPlace} {state : LowerState}
variable {before structs after : List Text} {items : List Item}

/- The label stays only over a section that is not empty. -/
theorem writeSection_sheet
    {label : Text} (hLabel : label ≠ []) (isEmpty : Bool) (content : Page → Page) (base : Page) :
    writeSection config label isEmpty content (sheet base [] [] 0) =
      if isEmpty then
        sheet base [] [] 0
      else
        content (writeLabel config label (sheet base [] [] 0)) := by
  have hRemoved : (sheet base [label] [] 0).removeLine = sheet base [] [] 0 := by
    simp [sheet, Page.removeLine, Page.update, Page.target, modify_modify_eq,
      Function.comp_def, Buffer.removeLine, Buffer.lastLine?, Segment.line?]
  unfold writeSection
  rw [writeLabel_sheet config hLabel]
  cases isEmpty with
  | false => rfl
  | true =>
    unfold labelLines
    by_cases hComments : config.sectionComments = true
    · simpa [hComments] using hRemoved
    · simp [hComments]

theorem writeItems_placedPage {width : Nat} :
    writeItems items (placedPage width before [] [] []) =
      placedPage width before [] [] (items.flatMap (Item.lines width)) :=
  @writeItems_sheet (placedPage width before [] [] []) [] items

theorem writeStructs_placedPage (types : TypeTable) :
    (writeStructs config types
        ((placedPage config.indentWidth before [] [] after).pushTarget 1)).popTarget =
      placedPage config.indentWidth before
        ((codeFile types items).structSection config) [] after := by
  let base := (placedPage config.indentWidth before [] [] after).pushTarget 1
  have hWritten :
      writeStructs config types (sheet base [] [] 0) =
        writeStructSection config (codeFile types items) (sheet base [] [] 0) := by
    unfold writeStructs
    exact writeSection_sheet (cons_ne_nil _ _) _ _ base
  rw [writeStructSection_sheet rfl] at hWritten
  exact congrArg Page.popTarget hWritten

theorem writePrototypes_placedPage (types : TypeTable) :
    (writePrototypes config (items.filterMap Item.record?)
        ((placedPage config.indentWidth before structs [] after).pushTarget 2)).popTarget =
      placedPage config.indentWidth before structs
        (prototypeSection config (codeFile types items).signatures) after := by
  let base := (placedPage config.indentWidth before structs [] after).pushTarget 2
  have hSignatures :
      (items.filterMap Item.record?).map FunctionRecord.signature =
        (codeFile types items).signatures := by
    rw [map_filterMap]
    exact filterMap_congr fun item _ => by cases item <;> rfl
  have hWritten :
      writePrototypes config (items.filterMap Item.record?) (sheet base [] [] 0) =
        writePrototypeSection config (codeFile types items) (sheet base [] [] 0) := by
    unfold writePrototypes
    rw [hSignatures]
    exact writeSection_sheet (cons_ne_nil _ _) _ _ base
  rw [writePrototypeSection_sheet] at hWritten
  exact congrArg Page.popTarget hWritten

end Sections

-----
-- Whole Programs
-----

theorem bindGlobals_start (site : Site) :
    bindGlobals site Native.globals ⟨TypeTable.empty, ⟨[], []⟩⟩ = .ok () LowerState.start := by
  have hType : TypeTable.canonicalize "Console" TypeTable.empty = .ok ⟨"Console"⟩ TypeTable.empty :=
    outcome_eq_some_iff.mp (by decide +kernel)
  simp only [Native.globals, bindGlobals, typed, onTypes, Bind.bind, EStateM.bind, hType]
  rfl

/- The lines of the preamble. -/
def preambleLines (config : LayoutConfig) : List Text :=
  ["#include <" ++ config.header ++ ">", "using namespace " ++ config.namespaceName ++ ";", []]

/- Where the walk through the units starts. -/
def Emitter.ready (config : LayoutConfig) : Emitter :=
  ⟨⟨[], none, [], []⟩, LowerState.start,
    placedPage config.indentWidth (preambleLines config) [] [] []⟩

theorem emitAll_start (front : Program) (config : LayoutConfig) (entry : UnitFrame) :
    emitAll front config entry (Emitter.start config) =
      (do
        emitUnit front (front.units.length + 1) entry
        redirect 1 fun emitter => onPage (writeStructs config emitter.lowering.types) emitter
        redirect 2 fun emitter => onPage (writePrototypes config emitter.functions) emitter)
        (Emitter.ready config) := by
  have hPreamble :
      writePreamble config (Page.empty config.indentWidth) =
        sheet (Page.empty config.indentWidth) (preambleLines config) [] 0 :=
    writePreamble_sheet (Page.empty config.indentWidth)
  simp only [emitAll, Bind.bind, EStateM.bind, onPage, Emitter.start, lowered,
    bindGlobals_start, hPreamble]
  rfl

/- The sections at their places are the sections in order. -/
theorem finish_placedPage {config : LayoutConfig} {unit : CodeFile} :
    (placedPage config.indentWidth (preambleLines config) (unit.structSection config)
        (prototypeSection config unit.signatures)
        (unit.items.flatMap (Item.lines config.indentWidth))).finish =
      unit.text config := by
  rw [CodeFile.text, unit.write_sheet, Page.finish, Page.finish, Page.rawText, Page.rawText,
    lines_placedPage, lines_sheet]
  simp [preambleLines, CodeFile.sections]

/-
  Emission in one pass gives the text that lowering and
  printing give, and fails with the same error.
-/
theorem emitProgram_eq (front : Program) (config : LayoutConfig) (entry : UnitId) :
    emitProgram front config entry = front.compileFrom config entry := by
  unfold emitProgram Program.compileFrom Program.lower Program.entrySite?
  cases hUnit : front.unit? entry with
  | none => rfl
  | some unit =>
    let site : Site := ⟨front, entry, unit, none⟩
    rcases exists_walks site [entry] unit.statements with ⟨_, steps, later, hWalk⟩
    have hSteps : front.steps site = .enter site :: steps := Program.steps_eq_of_walks rfl hWalk
    have hRoom : unvisitedCount front [entry] ≤ front.units.length :=
      Expansion.closedNodes_card_le _ _
    have hKnown : ∀ id ∈ [entry], (front.unit? id).isSome := by
      intro id hId
      rw [mem_singleton.mp hId, hUnit]
      rfl
    have hRun :
        WriteResult ⟨[], none, [], []⟩ _ later _
          (emitUnit front (front.units.length + 1) ⟨entry, unit, none⟩ (Emitter.ready config)) :=
      writes_emitUnit (writes_emitTopLevels hWalk hRoom rfl rfl hKnown) LowerState.start
    dsimp only [Option.map_some]
    rw [emitAll_start, hSteps]
    simp only [Bind.bind, EStateM.bind]
    generalize lowerSteps (.enter site :: steps) LowerState.start = lowerRun at hRun ⊢
    generalize emitUnit _ _ _ _ = emitRun at hRun ⊢
    cases hRun with
    | error => rfl
    | @ok items state =>
      dsimp only [redirect, between, onPage, EmitPlace.after, Emitter.ready, nil_append]
      rw [writeItems_placedPage, writeStructs_placedPage, writePrototypes_placedPage state.types]
      exact congrArg Except.ok finish_placedPage

theorem Program.emit_eq_compile (program : Program) (config : LayoutConfig) :
    program.emit config = program.compile config := by
  unfold Program.emit Program.compile
  cases program.entryUnit? with
  | none => rfl
  | some entry => exact emitProgram_eq program config entry

end ScriptLowering
