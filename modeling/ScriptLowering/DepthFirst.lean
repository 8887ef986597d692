/-
  Depth-first expansion of a list of tasks. Some tasks ask
  for a node to be opened. The first task that asks for a
  node not opened before is replaced in place by the tasks
  of that node; every other task is emitted as it stands.
  Each node is opened at most once, so the number of nodes
  bounds the number of expansions.

  Key definitions include:
    * `Expansion`
    * `Expansion.opening?`
    * `Expansion.firstOpening?`
    * `Expansion.run`
-/

namespace ScriptLowering

-----
-- Expansions
-----

/-
  A task may ask for one node, and an opened node supplies
  the tasks that take the place of the asking task.
-/
structure Expansion (τ : Type) where
  asks : τ → Option Nat
  tasksOf : Nat → τ → List τ

namespace Expansion

variable {τ : Type}

/- The nodes that were opened, and the tasks that were not replaced. -/
structure Trace (τ : Type) where
  opened : List Nat
  emitted : List τ
deriving DecidableEq, Repr

/- A task list cut at the first task that opens a node. -/
structure Opening (τ : Type) where
  before : List τ
  node : Nat
  task : τ
  after : List τ

/- The node that a task opens, if that node is still closed. -/
def opening? (expansion : Expansion τ) (opened : List Nat) (task : τ) : Option Nat :=
  (expansion.asks task).filter fun node =>
    !opened.contains node

/- Cut a task list at its first opening task. -/
def firstOpening? (expansion : Expansion τ) (opened : List Nat) : List τ → Option (Opening τ)
  | [] => none
  | task :: rest =>
      match expansion.opening? opened task with
      | some node => some ⟨[], node, task, rest⟩
      | none =>
          (expansion.firstOpening? opened rest).map fun opening =>
            { opening with before := task :: opening.before }

/-
  Expand a task list. The bound limits how many nodes may
  still be opened; the number of nodes is always enough.
-/
def run (expansion : Expansion τ) (bound : Nat) (opened : List Nat) (tasks : List τ) : Trace τ :=
  match bound with
  | 0 => ⟨opened, tasks⟩
  | bound + 1 =>
      match expansion.firstOpening? opened tasks with
      | none => ⟨opened, tasks⟩
      | some opening =>
          let later :=
            expansion.run bound (opening.node :: opened)
              (expansion.tasksOf opening.node opening.task ++ opening.after)
          ⟨later.opened, opening.before ++ later.emitted⟩

end Expansion

end ScriptLowering
