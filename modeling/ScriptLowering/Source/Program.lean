import ScriptLowering.Source.Tree

/-
  A typed program: source units, the types that the checker
  inferred for nodes, and the units that imports lead to.

  Key definitions include:
    * `NodeTypes`
    * `NodeTypes.insert`
    * `NodeTypes.get?`
    * `SourceUnit`
-/

namespace ScriptLowering

-----
-- Inferred Types
-----

/- Add or replace the entry of a node in an ordered list. -/
def insertEntry (id : NodeId) (type : Text) :
    List (NodeId × Text) → List (NodeId × Text)
  | [] => [(id, type)]
  | (key, value) :: rest =>
      if id < key then
        (id, type) :: (key, value) :: rest
      else if id = key then
        (id, type) :: rest
      else
        (key, value) :: insertEntry id type rest

theorem mem_insertEntry
    {id : NodeId} {type : Text} {entries : List (NodeId × Text)} {entry : NodeId × Text}
    (h : entry ∈ insertEntry id type entries) :
    entry = (id, type) ∨ entry ∈ entries := by
  induction entries with
  | nil => simpa [insertEntry] using h
  | cons _ _ ih =>
      unfold insertEntry at h
      split at h
      · simpa using h
      · split at h
        · simp only [List.mem_cons] at h ⊢
          rcases h with h | h
          · exact Or.inl h
          · exact Or.inr (Or.inr h)
        · simp only [List.mem_cons] at h ⊢
          rcases h with h | h
          · exact Or.inr (Or.inl h)
          · rcases ih h with h | h
            · exact Or.inl h
            · exact Or.inr (Or.inr h)

theorem pairwise_insertEntry
    (id : NodeId) (type : Text) {entries : List (NodeId × Text)}
    (h : entries.Pairwise fun a b => a.1 < b.1) :
    (insertEntry id type entries).Pairwise fun a b => a.1 < b.1 := by
  induction entries with
  | nil => simp [insertEntry]
  | cons _ _ ih =>
      obtain ⟨hHead, hRest⟩ := List.pairwise_cons.1 h
      unfold insertEntry
      split
      case isTrue hLt =>
        refine List.pairwise_cons.2 ⟨?_, h⟩
        intro entry hEntry
        rcases List.mem_cons.1 hEntry with hEq | hMem
        · exact hEq ▸ hLt
        · exact UInt32.lt_trans hLt (hHead entry hMem)
      case isFalse hNotLt =>
        split
        case isTrue hEq =>
          refine List.pairwise_cons.2 ⟨?_, hRest⟩
          intro entry hEntry
          exact hEq ▸ hHead entry hEntry
        case isFalse hNe =>
          refine List.pairwise_cons.2 ⟨?_, ih hRest⟩
          intro entry hEntry
          rcases mem_insertEntry hEntry with hEq | hMem
          · rw [hEq]
            rcases UInt32.lt_or_lt_of_ne hNe with hLt | hGt
            · exact absurd hLt hNotLt
            · exact hGt
          · exact hHead entry hMem

/-
  The inferred types of nodes, ordered by node number, with
  one entry for a node.
-/
structure NodeTypes where
  entries : List (NodeId × Text)
  ordered : entries.Pairwise fun a b => a.1 < b.1

namespace NodeTypes

def empty : NodeTypes :=
  ⟨[], List.Pairwise.nil⟩

/- Give a node a type, in place of an earlier one. -/
def insert (types : NodeTypes) (id : NodeId) (type : Text) : NodeTypes :=
  ⟨insertEntry id type types.entries, pairwise_insertEntry id type types.ordered⟩

/- The type inferred for a node. -/
def get? (types : NodeTypes) (id : NodeId) : Option Text :=
  types.entries.lookup id

/- The table of a list of entries, later ones replacing earlier ones. -/
def ofList (entries : List (NodeId × Text)) : NodeTypes :=
  entries.foldl (fun types entry => types.insert entry.1 entry.2) empty

end NodeTypes

-----
-- Programs
-----

/- The number of a unit: its place in the program. -/
abbrev UnitId :=
  UInt32

structure SourceUnit where
  path : Text
  source : Text
  statements : List Stmt

/- The position of a byte offset in a unit's source. -/
def SourceUnit.position (unit : SourceUnit) (offset : Nat) : Position :=
  unit.source.positionAt offset

/-
  What an import leads to: another unit of the program, or
  the native library, of which nothing is emitted.
-/
inductive ModuleTarget where
  | unit (id : UnitId)
  | native
deriving DecidableEq, Repr

/- An import of one unit, with what it leads to. -/
structure ModuleLink where
  importer : UnitId
  specifier : Text
  target : ModuleTarget
deriving DecidableEq, Repr

structure Program where
  units : List SourceUnit
  entry? : Option UnitId
  types : NodeTypes
  links : List ModuleLink

namespace Program

def unit? (program : Program) (id : UnitId) : Option SourceUnit :=
  program.units[id.toNat]?

/- The unit to start from: the stated one, or else the first. -/
def entryUnit? (program : Program) : Option UnitId :=
  match program.entry? with
  | some id => some id
  | none =>
      if program.units.isEmpty then
        none
      else
        some 0

/- What a specifier leads to when a unit imports it. -/
def resolveModule?
    (program : Program) (importer : UnitId) (specifier : Text) : Option ModuleTarget :=
  (program.links.find? fun link =>
      link.importer == importer && link.specifier == specifier).map
    ModuleLink.target

end Program

end ScriptLowering
