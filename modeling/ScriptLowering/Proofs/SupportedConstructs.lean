import ScriptLowering.Proofs.UnitTags

/-
  What a program that compiles consists of. Every construct
  without a lowering makes compilation fail where it stands.
  Some rules of lowering look at a part but do not lower it:
  numbers that are asserted to be of a floating point type,
  literal radixes and the name that takes addresses. Such a
  part is a name or a number in parentheses, so nothing is
  dropped.

  Key theorems include:
    * `supported_of_lowerSteps`
    * `every_construct_supported`
-/

namespace ScriptLowering

-----
-- Lowered Programs
-----

/- The kind of each statement of a unit, and the parts inside. -/
theorem supported_of_lowerSteps
    {steps : List Step} {state last : LowerState} {items : List Target.Item}
    (hRun : lowerSteps steps state = .ok items last) :
    ∀ site stmt, Step.statement site stmt ∈ steps →
      stmt.isTopLevel = true ∧ EveryPart Part.Supported stmt.inner := by
  induction steps generalizing state items with
  | nil => exact fun _ _ => nofun
  | cons step _ ih =>
    rcases bind_eq_ok hRun with ⟨_, _, hStep, hRest⟩
    rcases bind_eq_ok hRest with ⟨_, _, hMore, hReturn⟩
    cases hReturn
    intro site stmt hMem
    rcases List.mem_cons.mp hMem with rfl | hLater
    · exact (paired_lowerTopLevel_self site stmt).told_of_ok hStep
    · exact ih hMore site stmt hLater

/-
  A program that compiles has no construct that the language
  has no lowering for: in each unit its walk enters, all
  statements may stand at the top level, and all their parts
  are supported.
-/
theorem every_construct_supported
    {program : Program} {config : LayoutConfig} {text : Text}
    (h : program.compile config = .ok text) :
    ∃ (run : Compilation program) (reads steps : List Step) (visited : List UnitId),
      text = run.file.text config ∧
        Walks [run.site.unitId] run.site run.site.unit.statements reads steps visited ∧
        run.steps = .enter run.site :: steps ∧
        ∀ site ∈ run.site :: enteredSites steps,
          ∀ stmt ∈ site.unit.statements,
            stmt.isTopLevel = true ∧ ∀ part ∈ stmt.inner, part.isSupported = true := by
  rcases compile_eq_ok_iff.mp h with ⟨run, hText⟩
  rcases run.exists_walk with ⟨reads, steps, visited, hWalk, hSteps⟩
  refine ⟨run, reads, steps, visited, hText, hWalk, hSteps, ?_⟩
  intro site hSite stmt hStmt
  have hEntered := run.wellEntered
  rw [hSteps] at hEntered
  have hMem : Step.statement site stmt ∈ run.steps := by
    rw [hSteps]
    exact List.mem_cons_of_mem _ (hWalk.walkedOnce.statement_mem hEntered hSite hStmt)
  exact supported_of_lowerSteps run.runs site stmt hMem

/-
  A unit whose parts are looked at but not all lowered: a
  number asserted to be of a floating point type, and a
  literal radix.
-/
def shortcutUnits : Program :=
  ⟨[⟨"main.ts", [],
        [nameImport "./a.ts" "f",
          .vars plainNode .constKind
            [.mk plainNode "x" none
              (some
                (.assertion plainNode (.paren plainNode (.number plainNode "1"))
                  ⟨"f64", Span.nowhere⟩))],
          .function plainNode ⟨"g", [], some ⟨"string", Span.nowhere⟩⟩
            (some
              [.expr plainNode (.call plainNode (.ident plainNode "f") [] []),
                .ret plainNode
                  (some
                    (.call plainNode
                      (.member plainNode (.ident plainNode "x") Native.toStringMethod)
                      [] [.number plainNode "16"]))])]⟩,
      functionUnit "a.ts" "f"],
    some 0, NodeTypes.ofList [(0, "f64")],
    [⟨0, "./a.ts", .unit 1⟩]⟩

theorem shortcutUnits_supported :
    ∃ text, shortcutUnits.compile LayoutConfig.standard = .ok text ∧
      ∃ (run : Compilation shortcutUnits) (steps : List Step),
        enteredUnits steps = [1] ∧
          ∀ site ∈ run.site :: enteredSites steps,
            ∀ stmt ∈ site.unit.statements,
              stmt.isTopLevel = true ∧ ∀ part ∈ stmt.inner, part.isSupported = true := by
  have hPasses :
      Compilation.passes shortcutUnits (fun site _ _ =>
        decide (enteredUnits (shortcutUnits.steps site) = [0, 1])) =
        true := by
    decide +kernel
  rcases Compilation.compiles_of_passes hPasses LayoutConfig.standard with ⟨_, hCompile⟩
  rcases every_construct_supported hCompile with
    ⟨run, reads, steps, visited, _, _, hSteps, hSupported⟩
  have hUnits : enteredUnits run.steps = [0, 1] := of_decide_eq_true (run.check_of_passes hPasses)
  rw [hSteps, enteredUnits_enter] at hUnits
  exact ⟨_, hCompile, run, steps, (List.cons.inj hUnits).2, hSupported⟩

end ScriptLowering
