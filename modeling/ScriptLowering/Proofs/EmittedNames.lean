import Mathlib.Data.List.Pairwise
import ScriptLowering.Proofs.RootNames

/-
  When two functions or variables of a program are emitted
  under one name. A name stands behind the mark of its unit
  with nothing in between. So two names are emitted as one
  exactly if one mark goes on where the other ends, and the
  name behind the shorter mark begins with what is missing.

  Key theorems include:
    * `Compilation.site_of_name_eq`
    * `emitted_eq_iff_same_or_spills`
-/

namespace ScriptLowering

-----
-- Marks That Run Into Names
-----

/-
  The other mark is longer, and the name behind the shorter
  one begins with the rest of it.
-/
def Spills (mark name other otherName : Text) : Prop :=
  ∃ part, part ≠ [] ∧ other = mark ++ part ∧ name = part ++ otherName

theorem spills_iff {mark name other otherName : Text} :
    Spills mark name other otherName ↔
      mark <+: other ∧ mark ≠ other ∧ name = other.drop mark.length ++ otherName := by
  constructor
  · intro h
    rcases h with ⟨part, hPart, rfl, rfl⟩
    refine ⟨List.prefix_append _ _, ?_, by simp⟩
    simpa using hPart
  · intro h
    rcases h with ⟨⟨part, rfl⟩, hOther, hName⟩
    refine ⟨part, ?_, rfl, by simpa using hName⟩
    simpa using hOther

instance {mark name other otherName : Text} :
    Decidable (Spills mark name other otherName) :=
  decidable_of_iff _ spills_iff.symm

theorem append_eq_append_iff_spills {mark name other otherName : Text} :
    mark ++ name = other ++ otherName ↔
      mark = other ∧ name = otherName ∨ Spills mark name other otherName ∨
        Spills other otherName mark name := by
  constructor
  · intro h
    rcases List.append_eq_append_iff.mp h with ⟨part, hOther, hName⟩ | ⟨part, hMark, hName⟩
    · by_cases hPart : part = []
      · subst hPart
        exact .inl ⟨by simpa using hOther.symm, by simpa using hName⟩
      · exact .inr (.inl ⟨part, hPart, hOther, hName⟩)
    · by_cases hPart : part = []
      · subst hPart
        exact .inl ⟨by simpa using hMark, by simpa using hName.symm⟩
      · exact .inr (.inr ⟨part, hPart, hMark, hName⟩)
  · intro h
    rcases h with ⟨rfl, rfl⟩ | ⟨part, _, rfl, rfl⟩ | ⟨part, _, rfl, rfl⟩
    · rfl
    · simp
    · simp

/- With different names only a mark that spills over remains. -/
theorem emittedName_eq_iff_spills
    {origin? otherOrigin? : Option Text} {name otherName : Text} (hNames : name ≠ otherName) :
    emittedName origin? name = emittedName otherOrigin? otherName ↔
      Spills (unitMark origin?) name (unitMark otherOrigin?) otherName ∨
        Spills (unitMark otherOrigin?) otherName (unitMark origin?) name := by
  unfold emittedName
  rw [append_eq_append_iff_spills]
  constructor
  · intro h
    rcases h with ⟨_, hSame⟩ | hSpills
    · exact absurd hSame hNames
    · exact hSpills
  · exact .inr

-----
-- Declarations
-----

/- A function or variable that a unit declares at its top. -/
structure Declaration where
  site : Site
  name : Text

namespace Declaration

def mark (declaration : Declaration) : Text :=
  unitMark declaration.site.origin?

/- The name in the C++ program. -/
def emitted (declaration : Declaration) : Text :=
  emittedName declaration.site.origin? declaration.name

def SpillsInto (first second : Declaration) : Prop :=
  Spills first.mark first.name second.mark second.name

instance (first second : Declaration) :
    Decidable (first.SpillsInto second) :=
  inferInstanceAs (Decidable (Spills _ _ _ _))

end Declaration

/- What the steps of a program declare, in their order. -/
def declarationsOf (steps : List Step) : List Declaration :=
  steps.flatMap fun step =>
    step.declared.map fun name => ⟨step.site, name⟩

theorem mem_declarationsOf {steps : List Step} {declaration : Declaration} :
    declaration ∈ declarationsOf steps ↔
      ∃ step ∈ steps, step.site = declaration.site ∧ declaration.name ∈ step.declared := by
  unfold declarationsOf
  rw [List.mem_flatMap]
  constructor
  · intro h
    rcases h with ⟨step, hStep, hMem⟩
    rcases List.mem_map.mp hMem with ⟨_, hName, rfl⟩
    exact ⟨step, hStep, rfl, hName⟩
  · intro h
    rcases h with ⟨step, hStep, hSite, hName⟩
    refine ⟨step, hStep, List.mem_map.mpr ⟨_, hName, ?_⟩⟩
    rw [hSite]

theorem WellEntered.prepared {steps : List Step} (h : WellEntered [] steps) :
    Prepared steps LowerState.start.scope :=
  ⟨⟨rfl, by decide⟩, [], h, List.forall_mem_nil _⟩

namespace Compilation

variable {program : Program}

def declarations (run : Compilation program) : List Declaration :=
  declarationsOf run.steps

theorem wellEntered (run : Compilation program) :
    WellEntered [] run.steps := by
  rcases Option.bind_eq_some_iff.mp run.starts with ⟨_, _, hSite⟩
  exact program.wellEntered_steps run.site (Program.program_of_entrySite? hSite).1

/- What a program is lowered to has the names of its root frame. -/
theorem root_names (run : Compilation program) :
    RootOnly run.state.scope ∧
      (∀ step ∈ run.steps, ∀ name ∈ step.bound,
        (name, step.site.origin?) ∈ originsOf run.state.scope.root) ∧
      run.steps.Pairwise Step.Apart ∧
      run.items.map Target.Item.name = run.declarations.map Declaration.emitted := by
  rcases rootGrows_lowerSteps run.wellEntered.prepared run.runs with
    ⟨_, hGrows, hBinds, _, _, hApart, hEmits⟩
  refine ⟨hGrows.only, ?_, hApart, ?_⟩
  · intro step hStep name hName
    rw [hGrows.origins_eq]
    exact List.mem_append_left _ (hBinds step hStep name hName)
  · rw [hEmits]
    simp [declarations, declarationsOf, steps, List.map_flatMap,
      Function.comp_def, Declaration.emitted]

/- A declared name was bound by a step of the same unit. -/
theorem exists_bound_of_declaration
    (run : Compilation program) {declaration : Declaration} (h : declaration ∈ run.declarations) :
    ∃ step ∈ run.steps, step.site = declaration.site ∧ declaration.name ∈ step.bound := by
  rcases mem_declarationsOf.mp h with ⟨step, hStep, hSite, hName⟩
  cases step with
  | enter => cases hName
  | statement site stmt =>
    rcases run.wellEntered.mem_of_statement hStep with ⟨hEntered, hStmt⟩
    have hEnter := hEntered.resolve_left List.not_mem_nil
    cases stmt with
    | function =>
      refine ⟨.enter site, hEnter, hSite, ?_⟩
      rw [List.mem_singleton.mp hName]
      exact List.mem_filterMap.mpr ⟨_, hStmt, rfl⟩
    | vars => exact ⟨_, hStep, hSite, hName⟩
    | _ => cases hName

/- No name is declared by two units. -/
theorem site_of_name_eq
    (run : Compilation program) {first second : Declaration} (hFirst : first ∈ run.declarations)
    (hSecond : second ∈ run.declarations) (hName : first.name = second.name) :
    first.site = second.site := by
  rcases run.exists_bound_of_declaration hFirst with ⟨step, hStep, hSite, hBound⟩
  rcases run.exists_bound_of_declaration hSecond with ⟨other, hOther, hOtherSite, hOtherBound⟩
  have hSame : step = other := by
    by_contra hDifferent
    have hApart := run.root_names.2.2.1.forall hStep hOther hDifferent
    rw [← hName] at hOtherBound
    exact hApart first.name hBound hOtherBound
  rw [← hSite, ← hOtherSite, hSame]

end Compilation

-----
-- Names That Are Emitted As One
-----

/-
  Two declarations are emitted under one name in two cases
  only: they are the same name of the same unit, or the part
  that marks the unit of one spills into the name of the
  other. The same holds of all names of the root frame. The
  items of the file stand under these names, in order.
-/
theorem emitted_eq_iff_same_or_spills
    {program : Program} {config : LayoutConfig} {text : Text}
    (h : program.compile config = .ok text) :
    ∃ run : Compilation program,
      text = run.file.text config ∧
        run.items.map Target.Item.name = run.declarations.map Declaration.emitted ∧
        (∀ first ∈ run.declarations, ∀ second ∈ run.declarations,
          (first.emitted = second.emitted ↔
            first.name = second.name ∧ first.site.unitId = second.site.unitId ∨
              first.SpillsInto second ∨
              second.SpillsInto first)) ∧
        ∀ first ∈ originsOf run.state.scope.root,
          ∀ second ∈ originsOf run.state.scope.root,
            first.1 ≠ second.1 →
              (run.state.scope.qualifiedName? first.1 = run.state.scope.qualifiedName? second.1 ↔
                Spills (unitMark first.2) first.1 (unitMark second.2) second.1 ∨
                  Spills (unitMark second.2) second.1 (unitMark first.2) first.1) := by
  rcases compile_eq_ok_iff.mp h with ⟨run, hText⟩
  rcases run.root_names with ⟨hRoot, _, _, hEmits⟩
  refine ⟨run, hText, hEmits, ?_, ?_⟩
  · intro first hFirst second hSecond
    by_cases hName : first.name = second.name
    · have hSite := run.site_of_name_eq hFirst hSecond hName
      simp [Declaration.emitted, hName, hSite]
    · have hClash :
          first.emitted = second.emitted ↔ first.SpillsInto second ∨ second.SpillsInto first :=
        emittedName_eq_iff_spills hName
      simpa [hName] using hClash
  · intro first hFirst second hSecond hName
    rw [hRoot.qualifiedName?_eq hFirst, hRoot.qualifiedName?_eq hSecond, Option.some.injEq]
    exact emittedName_eq_iff_spills hName

/- A unit with one function. -/
def functionUnit (path name : Text) : SourceUnit :=
  ⟨path, [], [.function plainNode ⟨name, [], some ⟨"void", Span.nowhere⟩⟩ (some [])]⟩

def nameImport (specifier name : Text) : Stmt :=
  .importFrom plainNode specifier (.named [⟨plainNode, name, none⟩])

/- A program that takes in one function from each of two units. -/
def twoUnits (first firstName second secondName : Text) : Program :=
  ⟨[⟨"main.ts", [], [nameImport first firstName, nameImport second secondName]⟩,
      functionUnit first firstName, functionUnit second secondName],
    some 0, NodeTypes.empty,
    [⟨0, first, .unit 1⟩, ⟨0, second, .unit 2⟩]⟩

/- Units whose marks do not begin with one another. -/
def clearNames : Program :=
  twoUnits "./a.ts" "f" "./b.ts" "g"

/- The mark of the second unit begins with that of the first. -/
def blurredNames : Program :=
  twoUnits "./a.ts" "b_f" "./a_b.ts" "f"

theorem clearNames_emitted_apart :
    ∃ text, clearNames.compile LayoutConfig.standard = .ok text ∧
      ∃ run : Compilation clearNames,
        ∃ first ∈ run.declarations, ∃ second ∈ run.declarations,
          first.name = "f" ∧ second.name = "g" ∧ first.emitted ≠ second.emitted := by
  have hPasses :
      Compilation.passes clearNames (fun site _ _ =>
        decide
          (∃ first ∈ declarationsOf (clearNames.steps site),
            ∃ second ∈ declarationsOf (clearNames.steps site),
              first.name = "f" ∧ second.name = "g" ∧
                ¬ (first.name = second.name ∧ first.site.unitId = second.site.unitId ∨
                    first.SpillsInto second ∨
                    second.SpillsInto first))) = true := by
    decide +kernel
  rcases Compilation.compiles_of_passes hPasses LayoutConfig.standard with ⟨_, hCompile⟩
  rcases emitted_eq_iff_same_or_spills hCompile with ⟨run, _, _, hClash, _⟩
  rcases of_decide_eq_true (run.check_of_passes hPasses) with
    ⟨first, hFirst, second, hSecond, hF, hG, hApart⟩
  refine ⟨_, hCompile, run, first, hFirst, second, hSecond, hF, hG, ?_⟩
  intro hEmitted
  exact hApart ((hClash first hFirst second hSecond).mp hEmitted)

/- Two functions of different units and names, emitted as one. -/
theorem blurredNames_emitted_as_one :
    ∃ (text : Text) (run : Compilation blurredNames),
      blurredNames.compile LayoutConfig.standard = .ok text ∧
        text = run.file.text LayoutConfig.standard ∧
        run.items.map Target.Item.name = ["_cd_a_b_f", "_cd_a_b_f"] ∧
        ∃ first ∈ run.declarations, ∃ second ∈ run.declarations,
          first.name ≠ second.name ∧ first.site.unitId ≠ second.site.unitId ∧
            first.emitted = second.emitted := by
  have hPasses :
      Compilation.passes blurredNames (fun site items _ =>
        decide
          (items.map Target.Item.name = ["_cd_a_b_f", "_cd_a_b_f"] ∧
            ∃ first ∈ declarationsOf (blurredNames.steps site),
              ∃ second ∈ declarationsOf (blurredNames.steps site),
                first.name ≠ second.name ∧ first.site.unitId ≠ second.site.unitId ∧
                  first.emitted = second.emitted)) = true := by
    decide +kernel
  rcases Compilation.exists_of_passes hPasses with ⟨run⟩
  have hRun := of_decide_eq_true (run.check_of_passes hPasses)
  exact ⟨_, run, compile_eq_ok_iff.mpr ⟨run, rfl⟩, rfl, hRun⟩

end ScriptLowering
