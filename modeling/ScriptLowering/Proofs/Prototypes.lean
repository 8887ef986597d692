import ScriptLowering.Proofs.LineBreaks

/-
  Functions are announced before any of them is defined. The
  functions of a program are those of its units in the order
  of reading, where a unit is read in place of its first
  import. The printed program has one prototype for each of
  them, in that order, and behind all prototypes one
  definition for each that has a body, with the same text in
  front of the brace.

  Key theorems include:
    * `lowersTo_lowerSteps`
    * `prototypes_precede_definitions`
-/

namespace ScriptLowering

open List

-----
-- Functions Of A Program
-----

/- A function as a unit states it, with or without a body. -/
structure FunctionStatement where
  site : Site
  node : Node
  head : FunctionHead
  body? : Option (List Stmt)

def Step.function? : Step → Option FunctionStatement
  | .statement site (.function node head body?) =>
      some ⟨site, node, head, body?⟩
  | _ => none

/- The functions among the statements that are read. -/
def functionStatements (reads : List Step) : List FunctionStatement :=
  reads.filterMap Step.function?

theorem Step.function?_of_imported? {step : Step} {inner : Site} (h : step.imported? = some inner) :
    step.function? = none := by
  cases step with
  | enter => rfl
  | statement _ stmt =>
    cases stmt with
    | function => cases h
    | _ => rfl

/- An import is no function, so it may be taken before or after. -/
theorem Walks.functionStatements_eq
    {visited later : List UnitId} {site : Site} {stmts : List Stmt} {reads steps : List Step}
    (h : Walks visited site stmts reads steps later) :
    functionStatements reads = functionStatements steps := by
  unfold functionStatements
  induction h with
  | done => rfl
  | pass _ _ ih => rw [filterMap_cons, filterMap_cons, ih]
  | @takeIn _ _ _ _ inner _ _ _ _ _ _ hImport _ _ _ ihInner ihRest =>
      have hStmt := Step.function?_of_imported? hImport
      have hEnter : (Step.enter inner).function? = none := rfl
      rw [filterMap_cons_none hStmt, filterMap_cons_none hEnter, filterMap_append,
        filterMap_append, filterMap_cons_none hStmt,
        ihInner, ihRest]

-----
-- Functions Of The C++ Program
-----

namespace Target

/- A function's signature, with its body if it has one. -/
structure Function where
  signature : Signature
  body? : Option (List Stmt)

def Item.function? : Item → Option Function
  | .function signature body? => some ⟨signature, body?⟩
  | .global _ _ => none

def functions (items : List Item) : List Function :=
  items.filterMap Item.function?

theorem functions_globals (vars : List (TypeName × Declarator)) :
    functions (vars.map fun entry => .global entry.1 entry.2) = [] := by
  unfold functions
  rw [filterMap_map]
  exact filterMap_eq_nil_iff.mpr fun _ _ => rfl

/- The functions that get a prototype are all of them. -/
theorem CodeFile.signatures_eq (unit : CodeFile) :
    unit.signatures = (functions unit.items).map Function.signature := by
  unfold signatures functions
  rw [map_filterMap]
  congr 1
  funext item
  cases item with
  | function | global => rfl

end Target

-----
-- Lowered Functions
-----

/-
  A function statement and what it is lowered to. The name is
  the one behind the mark of the unit, the parameters are
  those of the statement in order, and there is a body
  exactly if the statement has one.
-/
structure FunctionStatement.LowersTo
    (statement : FunctionStatement) (function : Target.Function) : Prop where
  lowered :
    ∃ before after,
      lowerFunction statement.site statement.node statement.head statement.body? before =
        .ok (.function function.signature function.body?) after
  name :
    function.signature.name = emittedName statement.site.origin? statement.head.name
  params :
    function.signature.params.map Prod.fst = statement.head.params.map Param.name
  body : function.body?.isSome = statement.body?.isSome

variable {site : Site} {items : List Target.Item} {state last : LowerState}

theorem names_of_lowerParams
    {params : List Param} {lowered : List (Text × TypeName)}
    (hRun : lowerParams site params state = .ok lowered last) :
    lowered.map Prod.fst = params.map Param.name := by
  induction params generalizing state lowered with
  | nil =>
    cases hRun
    rfl
  | cons _ _ ih =>
    rcases bind_eq_ok hRun with ⟨_, _, _, hDeclare⟩
    rcases bind_eq_ok hDeclare with ⟨_, _, _, hRest⟩
    rcases bind_eq_ok hRest with ⟨_, _, hOthers, hReturn⟩
    cases hReturn
    rw [map_cons, map_cons, ih hOthers]

theorem lowersTo_of_lowerFunction
    (statement : FunctionStatement) {item : Target.Item} (hRoot : RootOnly state.scope)
    (hName : (statement.head.name, statement.site.origin?) ∈ originsOf state.scope.root)
    (hRun :
      lowerFunction statement.site statement.node statement.head statement.body? state =
        .ok item last) :
    ∃ function, item.function? = some function ∧ statement.LowersTo function := by
  have hEmitted := name_of_lowerFunction hRoot hName hRun
  rcases exists_of_lowerFunction hRun with ⟨_, _, _, _, _, _, rfl, hBody, _, _, _, hParams⟩
  exact ⟨_, rfl, ⟨state, last, hRun⟩, hEmitted, names_of_lowerParams hParams, hBody⟩

/- A statement of a unit gives a function if it is one. -/
theorem lowersTo_lowerTopLevel
    {stmt : Stmt} (hRoot : RootOnly state.scope) (hBound : FunctionsBound state.scope site)
    (hStmt : stmt ∈ site.unit.statements) (hRun : lowerTopLevel site stmt state = .ok items last) :
    List.Forall₂ FunctionStatement.LowersTo (functionStatements [.statement site stmt])
      (Target.functions items) := by
  cases stmt with
  | function node head body? =>
    rcases bind_eq_ok hRun with ⟨item, _, hItem, hReturn⟩
    cases hReturn
    have hName : (head.name, site.origin?) ∈ originsOf state.scope.root :=
      hBound head.name (mem_filterMap.mpr ⟨_, hStmt, rfl⟩)
    rcases lowersTo_of_lowerFunction ⟨site, node, head, body?⟩ hRoot hName hItem with
      ⟨function, hFunction, hLowers⟩
    have hOnly : Target.functions [item] = [function] := filterMap_cons_some hFunction
    rw [hOnly]
    exact .cons hLowers .nil
  | importFrom =>
    rcases bind_eq_ok hRun with ⟨_, _, _, hReturn⟩
    cases hReturn
    exact .nil
  | vars =>
    rcases bind_eq_ok hRun with ⟨_, _, _, hReturn⟩
    cases hReturn
    rw [Target.functions_globals]
    exact .nil
  | interface | typeAlias =>
    cases hRun
    exact .nil
  | _ => cases hRun

/- One step, whose unit was entered before. -/
theorem lowersTo_lowerStep
    {step : Step} {rest : List Step} (h : Prepared (step :: rest) state.scope)
    (hRun : lowerStep step state = .ok items last) :
    List.Forall₂ FunctionStatement.LowersTo
      (functionStatements [step]) (Target.functions items) := by
  cases step with
  | enter =>
    rcases bind_eq_ok hRun with ⟨_, _, _, hReturn⟩
    cases hReturn
    exact .nil
  | statement site =>
    rcases h.entered with ⟨_, hEntered, hBound⟩
    exact lowersTo_lowerTopLevel h.root (hBound site hEntered.1.1) hEntered.1.2 hRun

/-
  A whole run, by induction on its steps: the units whose
  statements come are entered before, so that the functions
  are bound under their marks.
-/
theorem lowersTo_lowerSteps
    {steps : List Step} (h : Prepared steps state.scope)
    (hRun : lowerSteps steps state = .ok items last) :
    List.Forall₂ FunctionStatement.LowersTo
      (functionStatements steps) (Target.functions items) := by
  induction steps generalizing state items with
  | nil =>
    cases hRun
    exact .nil
  | cons _ _ ih =>
    rcases h.exists_first hRun with ⟨first, more, _, _, rfl, hStep, hMore, hNow, _⟩
    have hLater := ih hNow hMore
    have hFirst := lowersTo_lowerStep h hStep
    have hItems :
        Target.functions (first ++ more) = Target.functions first ++ Target.functions more :=
      filterMap_append
    rw [hItems, ← singleton_append, functionStatements, filterMap_append]
    exact rel_append hFirst hLater

-----
-- Prototypes And Definitions
-----

/-
  The functions that are read, in order, are the functions of
  the printed program, in order. Its lines are those of the
  preamble and the structs, one prototype for each function,
  and the lines of the items. There a function with a body
  has one definition that begins with its signature, and one
  without has no line.
-/
theorem prototypes_precede_definitions
    {program : Program} {config : LayoutConfig} {text : Text}
    (hNames : ∀ part ∈ program.parts, ∀ name ∈ part.texts, '\n' ∉ name)
    (hCompile : program.compile config = .ok text) :
    ∃ run : Compilation program,
      ∃ reads steps visited,
        Walks [run.site.unitId] run.site run.site.unit.statements reads steps visited ∧
          List.Forall₂ FunctionStatement.LowersTo (functionStatements reads)
            (Target.functions run.items) ∧
          text.lines =
            Text.withoutLastBlank
              (Target.openingLines config ++ run.file.structSection config ++
                Target.prototypeSection config
                  ((Target.functions run.items).map Target.Function.signature) ++
                run.items.flatMap (Target.Item.lines config.indentWidth)) := by
  rcases compile_eq_ok_iff.mp hCompile with ⟨run, rfl⟩
  rcases run.exists_walk with ⟨reads, steps, visited, hWalk, hSteps⟩
  refine ⟨run, reads, steps, visited, hWalk, ?_, ?_⟩
  · have hEnter : functionStatements run.steps = functionStatements steps := by
      rw [hSteps]
      rfl
    rw [hWalk.functionStatements_eq, ← hEnter]
    exact lowersTo_lowerSteps run.wellEntered.prepared run.runs
  · rw [run.lines_text hNames config, Target.CodeFile.sections, Target.CodeFile.signatures_eq]
    simp only [List.append_assoc]
    rfl

/-
  Three units that import one another in a ring. The first
  has a function twice, once without a body, and a variable.
-/
def nestedUnits : Program :=
  ⟨[⟨"main.ts", [],
        [.function plainNode ⟨"start", [], some ⟨"void", Span.nowhere⟩⟩ none,
          nameImport "./a.ts" "g",
          .function plainNode ⟨"start", [], some ⟨"void", Span.nowhere⟩⟩
            (some [.ret plainNode none]),
          .vars plainNode .letKind [.mk plainNode "total" (some ⟨"number", Span.nowhere⟩) none],
          .function plainNode
            ⟨"last", [⟨plainNode, "x", some ⟨"number", Span.nowhere⟩⟩],
              some ⟨"number", Span.nowhere⟩⟩
            (some [.ret plainNode (some (.ident plainNode "x"))])]⟩,
      ⟨"a.ts", [], nameImport "./b.ts" "h" ::
          (functionUnit [] "g").statements⟩,
      ⟨"b.ts", [], nameImport "./main.ts" "last" ::
          (functionUnit [] "h").statements⟩],
    some 0, NodeTypes.empty,
    [⟨0, "./a.ts", .unit 1⟩, ⟨1, "./b.ts", .unit 2⟩, ⟨2, "./main.ts", .unit 0⟩]⟩

/- The lines that the three units are printed to. -/
def nestedLines : List Text :=
  ["#include <TypeSlang/runtime.cpp>", "using namespace JS;", "",
    "// Functions", "void start();", "void _cd_b_h();",
    "void _cd_a_g();", "void start();", "i32 last(i32 x);", "",
    "void _cd_b_h() \x7b", "\x7d", "", "void _cd_a_g() \x7b", "\x7d",
    "", "void start() \x7b", "    return;", "\x7d", "", "i32 total;",
    "i32 last(i32 x) \x7b", "    return x;", "\x7d"]

theorem nestedUnits_prototypes_precede_definitions :
    (∀ part ∈ nestedUnits.parts, ∀ name ∈ part.texts, '\n' ∉ name) ∧
      ∃ text,
        nestedUnits.compile LayoutConfig.standard = .ok text ∧ text.lines = nestedLines ∧
          ∃ run : Compilation nestedUnits,
            ∃ reads steps visited,
              Walks [run.site.unitId] run.site run.site.unit.statements reads steps visited ∧
                List.Forall₂ FunctionStatement.LowersTo (functionStatements reads)
                  (Target.functions run.items) ∧
                (Target.functions run.items).length = 5 := by
  have hNames : ∀ part ∈ nestedUnits.parts, ∀ name ∈ part.texts, '\n' ∉ name := by decide +kernel
  have hPasses :
      Compilation.passes nestedUnits (fun _ items state =>
        decide
          ((Target.functions items).length = 5 ∧
            Text.withoutLastBlank
              (Target.openingLines LayoutConfig.standard ++
                (codeFile state.types items).structSection LayoutConfig.standard ++
                Target.prototypeSection LayoutConfig.standard
                  ((Target.functions items).map Target.Function.signature) ++
                items.flatMap (Target.Item.lines LayoutConfig.standard.indentWidth)) =
              nestedLines)) =
        true := by
    decide +kernel
  rcases Compilation.compiles_of_passes hPasses LayoutConfig.standard with ⟨_, hCompile⟩
  rcases prototypes_precede_definitions hNames hCompile with
    ⟨run, reads, steps, visited, hWalk, hLowers, hLines⟩
  rcases of_decide_eq_true (run.check_of_passes hPasses) with ⟨hCount, hPrinted⟩
  exact
    ⟨hNames, _, hCompile, hLines.trans hPrinted, run, reads, steps, visited, hWalk, hLowers, hCount⟩

end ScriptLowering
