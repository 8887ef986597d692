import ScriptLowering.Lowering.Monad

/-
  The order in which the statements of all units are lowered.
  An import of a unit that was not taken in before is preceded
  by the statements of that unit, so each unit is taken in at
  most once, where it is first imported.

  Key definitions include:
    * `Step`
    * `Step.imported?`
    * `inlining`
    * `Program.steps`
-/

namespace ScriptLowering

-----
-- Steps
-----

/- Enter a unit, or lower one of its statements. -/
inductive Step where
  | enter (site : Site)
  | statement (site : Site) (stmt : Stmt)

/-
  The unit that an import takes in. Imports that cannot be
  lowered take in nothing.
-/
def importedSite? (site : Site) (specifier : Text) (clause : ImportClause) : Option Site :=
  match clause with
  | .named names =>
      if names.any fun name => name.alias?.isSome then
        none
      else
        match site.program.resolveModule? site.unitId specifier with
        | some (.unit id) =>
            (site.program.unit? id).map fun unit =>
              ⟨site.program, id, unit, some specifier⟩
        | _ => none
  | _ => none

/- The unit that a step takes in. -/
def Step.imported? : Step → Option Site
  | .statement site (.importFrom _ specifier clause) =>
      importedSite? site specifier clause
  | _ => none

/- Enter a unit and lower its statements. -/
def Site.steps (site : Site) : List Step :=
  .enter site :: site.unit.statements.map (.statement site)

-----
-- Inlining
-----

/- A unit that is taken in stands before the import of it. -/
def inlining : Expansion Step where
  asks step := step.imported?.map fun site => site.unitId.toNat
  tasksOf _ step :=
    match step.imported? with
    | some site => site.steps ++ [step]
    | none => [step]

/- The steps of a program that starts at a unit. -/
def Program.steps (program : Program) (entry : Site) : List Step :=
  (inlining.run program.units.length [entry.unitId.toNat] entry.steps).emitted

end ScriptLowering
