import ScriptLowering.Proofs.EmissionOrder
import ScriptLowering.Proofs.Lexicon
import ScriptLowering.Proofs.UnitTags

/-
  Lowering within a lexicon, for whole programs. If the names
  and numbers of a program are within a lexicon, and so are
  the types that it declares, then lowering comes by nothing
  else, and the C++ program has no other names and types in
  it.

  Key theorems include:
    * `Lexicon.HasProgram.items`
    * `Lexicon.HasProgram.structs`
-/

namespace ScriptLowering

open List

namespace Lexicon

variable {lexicon : Lexicon}

-----
-- Keeping Track Of A Lexicon
-----

theorem isLeaf_of_mem_nativeTypes {type : TypeName} (h : type ∈ nativeTypes) :
    IsLeaf type.text := by
  rcases mem_cons.mp h with rfl | hRest
  · exact ⟨rfl, rfl, rfl⟩
  · rcases mem_cons.mp hRest with rfl | hGlobal
    · exact ⟨rfl, rfl, rfl⟩
    · rw [mem_singleton.mp hGlobal]
      exact ⟨rfl, rfl, rfl⟩

/- What is within a lexicon is so at all times. -/
def tracking (lexicon : Lexicon) : Tracking where
  toClock := stillClock
  toTextLaws := lexicon.toTextLaws
  typeName name := lexicon.type ⟨name⟩
  known _ := lexicon.type
  marked _ _ := True
  aliased _ _ := True
  table _ := lexicon.HasTable
  known_mono hType _ := hType
  marked_mono _ _ := trivial
  aliased_mono _ _ := trivial
  native hType := lexicon.leaf (isLeaf_of_mem_nativeTypes hType)
  pointerTo := lexicon.pointerTo
  arrayElement := lexicon.arrayElement
  markUsed hTable type :=
    ⟨(), trivial, hTable.markUsed type, trivial⟩
  canonicalize raw := preserves_canonicalize raw
  declareInterface := preserves_declareInterface
  declareAlias hName hType :=
    (preserves_declareAlias hName hType).imp fun _ _ _ _ _ => trivial

theorem hasState_start :
    lexicon.tracking.HasState () LowerState.start :=
  Tracking.hasState_start hasTable_empty

-----
-- Trees Within A Lexicon
-----

/- The names and numbers of a part are within a lexicon. -/
def HasPart (lexicon : Lexicon) (part : Part) : Prop :=
  ∀ text ∈ part.texts, lexicon.text text

/- Texts and types that are all within a lexicon. -/
structure Has (lexicon : Lexicon) (texts : List Text) (types : List TypeName) : Prop where
  texts : ∀ text ∈ texts, lexicon.text text
  types : ∀ type ∈ types, lexicon.type type

namespace Has

variable {texts moreTexts : List Text} {types moreTypes : List TypeName}

theorem of_text {text : Text} (h : lexicon.Has (text :: texts) types) :
    lexicon.text text ∧ lexicon.Has texts types := by
  rcases forall_mem_cons.mp h.texts with ⟨hText, hTexts⟩
  exact ⟨hText, hTexts, h.types⟩

theorem of_type {type : TypeName} (h : lexicon.Has texts (type :: types)) :
    lexicon.type type ∧ lexicon.Has texts types := by
  rcases forall_mem_cons.mp h.types with ⟨hType, hTypes⟩
  exact ⟨hType, h.texts, hTypes⟩

theorem of_append (h : lexicon.Has (texts ++ moreTexts) (types ++ moreTypes)) :
    lexicon.Has texts types ∧ lexicon.Has moreTexts moreTypes := by
  rcases forall_mem_append.mp h.texts with ⟨hTexts, hMore⟩
  rcases forall_mem_append.mp h.types with ⟨hTypes, hMoreTypes⟩
  exact ⟨⟨hTexts, hTypes⟩, hMore, hMoreTypes⟩

theorem of_snoc {text : Text} (h : lexicon.Has (texts ++ [text]) types) :
    lexicon.Has texts types ∧ lexicon.text text := by
  rcases forall_mem_append.mp h.texts with ⟨hTexts, hText⟩
  exact ⟨⟨hTexts, h.types⟩, hText text mem_cons_self⟩

end Has

def HasExpr (lexicon : Lexicon) (expr : Target.Expr) : Prop :=
  lexicon.Has expr.texts expr.types

def HasExprs (lexicon : Lexicon) (exprs : List Target.Expr) : Prop :=
  lexicon.Has (Target.exprsTexts exprs) (Target.exprsTypes exprs)

def HasExpr? (lexicon : Lexicon) (expr? : Option Target.Expr) : Prop :=
  lexicon.Has (Target.exprTexts? expr?) (Target.exprTypes? expr?)

def HasFields (lexicon : Lexicon) (fields : List Target.FieldInit) : Prop :=
  lexicon.Has (Target.fieldsTexts fields) (Target.fieldsTypes fields)

def HasDeclarator (lexicon : Lexicon) (declarator : Target.Declarator) : Prop :=
  lexicon.Has declarator.texts declarator.types

def HasStmts (lexicon : Lexicon) (stmts : List Target.Stmt) : Prop :=
  lexicon.Has (Target.stmtsTexts stmts) (Target.stmtsTypes stmts)

def HasElse (lexicon : Lexicon) (rest : Target.Else) : Prop :=
  lexicon.Has rest.texts rest.types

def HasItem (lexicon : Lexicon) (item : Target.Item) : Prop :=
  lexicon.Has item.texts item.types

/- Step by step, a whole run stays in the lexicon. -/
theorem holds_stepsCourse {steps : List Step} (h : ∀ step ∈ steps, lexicon.tracking.HasStep step) :
    lexicon.tracking.Holds () (stepsCourse steps)
      fun _ items => ∀ item ∈ items, lexicon.HasItem item := by
  induction steps with
  | nil => exact .pure (forall_mem_nil _)
  | cons _ _ ih =>
    rcases forall_mem_cons.mp h with ⟨hStep, hRest⟩
    apply Tracking.Holds.bind (Tracking.holds_stepCourse hStep)
    rintro _ _ _ ⟨hFirst, _⟩
    apply Tracking.Holds.bind (ih hRest)
    intro _ items _ hItems
    refine .pure (forall_mem_append.mpr ⟨?_, hItems⟩)
    intro item hItem
    have hMade := hFirst item hItem
    exact ⟨hMade.texts, fun type hType => (hMade.types type hType).2⟩

end Lexicon

-----
-- Programs
-----

/- The names of the types that the units of a program declare. -/
def Program.typeNames (program : Program) : List Text :=
  program.units.flatMap fun unit =>
    unit.statements.filterMap Stmt.typeName?

/- A walk only leads to units of the program. -/
theorem Walks.unit_mem
    {visited later : List UnitId} {site : Site} {stmts : List Stmt} {reads steps : List Step}
    (h : Walks visited site stmts reads steps later) (hSite : site.unit ∈ site.program.units) :
    ∀ step ∈ steps, step.site.unit ∈ site.program.units := by
  induction h with
  | done =>
    intro step hStep
    cases hStep
  | pass _ _ ih => exact forall_mem_cons.mpr ⟨hSite, ih hSite⟩
  | @takeIn _ _ _ site inner _ _ _ _ _ _ hImport _ _ _ ihInner ih =>
    rcases Step.imported?_eq_some hImport with ⟨_, hProgram, hUnit⟩
    have hProgram : inner.program = site.program := hProgram
    have hMem : inner.unit ∈ site.program.units := mem_of_getElem? hUnit
    intro step hStep
    rcases mem_cons.mp hStep with rfl | hLater
    · exact hMem
    · rcases mem_append.mp hLater with hFirst | hLast
      · rw [← hProgram]
        rw [← hProgram] at hMem
        exact ihInner hMem step hFirst
      · rcases mem_cons.mp hLast with rfl | hBehind
        · exact hSite
        · exact ih hSite step hBehind

theorem Program.unit_mem_of_mem_steps
    {program : Program} {site : Site} (hStart : program.startSite? = some site) {step : Step}
    (hStep : step ∈ program.steps site) :
    step.site.unit ∈ program.units := by
  rcases Option.bind_eq_some_iff.mp hStart with ⟨_, _, hEntry⟩
  rcases Program.entrySite?_eq_some hEntry with ⟨rfl, rfl, _, hUnit⟩
  have hMem : site.unit ∈ site.program.units := mem_of_getElem? hUnit
  rcases exists_walks site [site.unitId] site.unit.statements with ⟨_, _, _, hWalk⟩
  rw [Program.steps_eq_of_walks rfl hWalk] at hStep
  rcases mem_cons.mp hStep with rfl | hLater
  · exact hMem
  · exact hWalk.unit_mem hMem step hLater

namespace Lexicon

variable {lexicon : Lexicon} {program : Program}

/- The names of a program, and the types it declares. -/
structure HasProgram (lexicon : Lexicon) (program : Program) : Prop where
  parts : EveryPart lexicon.HasPart program.parts
  types : ∀ name ∈ program.typeNames, lexicon.type ⟨name⟩

theorem HasProgram.hasStep
    (h : lexicon.HasProgram program) {site : Site} (hStart : program.startSite? = some site) :
    ∀ step ∈ program.steps site, lexicon.tracking.HasStep step := by
  intro step hStep
  have hUnit := Program.unit_mem_of_mem_steps hStart hStep
  constructor
  · intro part hPart
    exact h.parts part (mem_flatMap.mpr ⟨_, hUnit, hPart⟩)
  · intro stmt hStmt name hName
    apply h.types name
    refine mem_flatMap.mpr ⟨_, hUnit, ?_⟩
    exact mem_filterMap.mpr ⟨stmt, hStmt, hName⟩
  · intro other stmt hSame
    rcases Option.bind_eq_some_iff.mp hStart with ⟨_, _, hEntry⟩
    have hProgram := (Program.entrySite?_eq_some hEntry).1
    have hEntered := program.wellEntered_steps site hProgram
    rw [hSame] at hStep hUnit
    refine everyPart_of_mem_stmts ?_ (hEntered.mem_of_statement hStep).2
    intro part hPart
    exact h.parts part (mem_flatMap.mpr ⟨_, hUnit, hPart⟩)

theorem HasProgram.holds_steps
    (h : lexicon.HasProgram program) {site : Site} (hStart : program.startSite? = some site) :
    lexicon.tracking.Holds () (stepsCourse (program.steps site))
      fun _ items => ∀ item ∈ items, lexicon.HasItem item :=
  holds_stepsCourse (h.hasStep hStart)

/- Compiling a program comes by nothing outside of a lexicon. -/
theorem HasProgram.moments (h : lexicon.HasProgram program) :
    ∀ moment ∈ program.moments, lexicon.tracking.HasMoment () moment := by
  intro moment hMoment
  unfold Program.moments at hMoment
  split at hMoment
  · cases hMoment
  · next site hStart =>
    rcases mem_cons.mp hMoment with rfl | hLater
    · exact hasState_start
    · rcases (h.holds_steps hStart).moments hasState_start moment hLater with ⟨_, hMoment⟩
      exact hMoment

/- The items of a compiled program are within the lexicon. -/
theorem HasProgram.items (h : lexicon.HasProgram program) (run : Compilation program) :
    ∀ item ∈ run.items, lexicon.HasItem item := by
  have hRuns := run.runs
  rw [← result_stepsCourse] at hRuns
  rcases (h.holds_steps run.starts).result _ hasState_start with ⟨_, _, _, hItems⟩
  exact hItems _ _ hRuns

/- And so are its structs. -/
theorem HasProgram.structs (h : lexicon.HasProgram program) (run : Compilation program) :
    ∀ struct ∈ run.file.structs, lexicon.HasStruct struct := by
  rcases (h.holds_steps run.starts).result _ hasState_start with ⟨_, _, hKept, _⟩
  rw [result_stepsCourse, run.runs] at hKept
  intro struct hStruct
  exact hKept.types.structs struct (Registry.mem_emissionOrder_iff.mp hStruct).1

end Lexicon

end ScriptLowering
