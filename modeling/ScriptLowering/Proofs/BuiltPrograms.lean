import Mathlib.Data.List.Induction
import Mathlib.Data.List.Nodup
import ScriptLowering.Proofs.Unplaced
import ScriptLowering.Source.Draft

/-
  Programs that are built node by node, in any order. One
  counter numbers the nodes as they are made; a new node is put
  together from nodes that were made before and are not used
  yet, so it is numbered after all that is nested in it. The
  types that calls assign are found at the right nodes. A draft
  is one way to build a program, from the left to the right.

  Key theorems include:
    * `Builds.isSound`
    * `DraftProgram.exists_builds`
    * `built_program_numbered_and_typed`
-/

namespace ScriptLowering

open List NodeNumbering

-----
-- Built Nodes
-----

/- A node that was built, with all that is nested in it. -/
inductive Built where
  | expr (value : Expr)
  | declarator (value : Declarator)
  | param (value : Param)
  | importName (value : ImportName)
  | stmt (value : Stmt)

def ObjectMember.children : ObjectMember → List Built
  | .property _ value => [.expr value]
  | .shorthand _ => []
  | .spread value => [.expr value]
  | .method _ => []

/- The built nodes that an expression is put together from. -/
def Expr.children : Expr → List Built
  | .template _ _ exprs => exprs.map .expr
  | .array _ elements => elements.map .expr
  | .object _ members => members.flatMap ObjectMember.children
  | .paren _ inner => [.expr inner]
  | .member _ inner _ => [.expr inner]
  | .index _ left right => [.expr left, .expr right]
  | .call _ callee _ args => .expr callee :: args.map .expr
  | .conditional _ condition thenExpr elseExpr =>
      [.expr condition, .expr thenExpr, .expr elseExpr]
  | .assertion _ inner _ => [.expr inner]
  | .unary _ _ operand => [.expr operand]
  | .step _ _ operand => [.expr operand]
  | .binary _ _ left right => [.expr left, .expr right]
  | .new _ callee args => .expr callee :: args.map .expr
  | .arrow _ params body => params.map .param ++ body.map .stmt
  | _ => []

def ForInit.children : ForInit → List Built
  | .vars _ declarators => declarators.map .declarator
  | .expr value => [.expr value]

/- The built nodes that a statement is put together from. -/
def Stmt.children : Stmt → List Built
  | .function _ head body? =>
      head.params.map .param ++ (body?.getD []).map .stmt
  | .importFrom _ _ (.named names) => names.map .importName
  | .vars _ _ declarators => declarators.map .declarator
  | .block _ body => body.map .stmt
  | .ifElse _ condition thenBranch elseBranch? =>
      .expr condition :: .stmt thenBranch ::
        elseBranch?.toList.map .stmt
  | .whileLoop _ condition body => [.expr condition, .stmt body]
  | .doLoop _ condition body => [.expr condition, .stmt body]
  | .forLoop _ init? condition? update? body =>
      init?.toList.flatMap ForInit.children ++
        condition?.toList.map .expr ++ update?.toList.map .expr ++
        [.stmt body]
  | .ret _ value? => value?.toList.map .expr
  | .expr _ value => [.expr value]
  | .raise _ value => [.expr value]
  | _ => []

namespace Built

def node : Built → Node
  | expr value => value.node
  | declarator value => value.node
  | param value => value.node
  | importName value => value.node
  | stmt value => value.node

def children : Built → List Built
  | expr value => value.children
  | declarator value => value.init?.toList.map expr
  | param _ => []
  | importName _ => []
  | stmt value => value.children

/- All nodes of a built node, its own one first. -/
def nodes : Built → List Node
  | expr value => value.parts.flatMap Part.nodes
  | declarator value =>
      (.declarator value :: value.inner).flatMap Part.nodes
  | param value => [value.node]
  | importName value => [value.node]
  | stmt value => value.parts.flatMap Part.nodes

/- What is in a built node at any depth, and the node itself. -/
inductive Holds : Built → Built → Prop
  | self (built : Built) : Holds built built
  | child
      {built child inner : Built} (hChild : child ∈ built.children) (hInner : Holds child inner) :
      Holds built inner

end Built

@[simp] theorem nodes_exprsParts (exprs : List Expr) :
    (exprsParts exprs).flatMap Part.nodes = (exprs.map Built.expr).flatMap Built.nodes := by
  induction exprs with
  | nil => rfl
  | cons _ _ ih =>
    rw [exprsParts, flatMap_append, ih]
    rfl

@[simp] theorem nodes_stmtsParts (stmts : List Stmt) :
    (stmtsParts stmts).flatMap Part.nodes = (stmts.map Built.stmt).flatMap Built.nodes := by
  induction stmts with
  | nil => rfl
  | cons _ _ ih =>
    rw [stmtsParts, flatMap_append, ih]
    rfl

@[simp] theorem nodes_declaratorsParts (declarators : List Declarator) :
    (declaratorsParts declarators).flatMap Part.nodes =
      (declarators.map Built.declarator).flatMap Built.nodes := by
  induction declarators with
  | nil => rfl
  | cons _ _ ih =>
    rw [declaratorsParts, flatMap_append, ih]
    rfl

@[simp] theorem nodes_membersParts (members : List ObjectMember) :
    (membersParts members).flatMap Part.nodes =
      (members.flatMap ObjectMember.children).flatMap Built.nodes := by
  induction members with
  | nil => rfl
  | cons member _ ih =>
    rw [membersParts, flatMap_append, ih, flatMap_cons (f := ObjectMember.children), flatMap_append]
    cases member with
    | property | spread =>
      simp only [ObjectMember.children, flatMap_cons, flatMap_nil, append_nil]
      rfl
    | shorthand | method => rfl

@[simp] theorem nodes_exprParts? (expr? : Option Expr) :
    (exprParts? expr?).flatMap Part.nodes = (expr?.toList.map Built.expr).flatMap Built.nodes := by
  cases expr? with
  | none => rfl
  | some => exact (append_nil _).symm

@[simp] theorem nodes_stmtParts? (stmt? : Option Stmt) :
    (stmtParts? stmt?).flatMap Part.nodes = (stmt?.toList.map Built.stmt).flatMap Built.nodes := by
  cases stmt? with
  | none => rfl
  | some => exact (append_nil _).symm

@[simp] theorem nodes_forInitParts? (init? : Option ForInit) :
    (forInitParts? init?).flatMap Part.nodes =
      (init?.toList.flatMap ForInit.children).flatMap Built.nodes := by
  rcases init? with _ | ⟨_, declarators⟩ | value
  · rfl
  · simp [forInitParts?, ForInit.parts, ForInit.children]
  · simp [forInitParts?, ForInit.parts, ForInit.children, Built.nodes, Expr.parts]

theorem nodes_params (params : List Param) :
    (params.map Built.param).flatMap Built.nodes = params.map Param.node := by
  rw [flatMap_map]
  exact map_eq_flatMap.symm

namespace Built

theorem nodes_expr (value : Expr) :
    (expr value).nodes = (Part.expr value).nodes ++ value.inner.flatMap Part.nodes :=
  rfl

theorem nodes_stmt (value : Stmt) :
    (stmt value).nodes = (Part.stmt value).nodes ++ value.inner.flatMap Part.nodes :=
  rfl

/- The nodes of a built node are its own and those of its children. -/
theorem nodes_eq (built : Built) :
    built.nodes = built.node :: built.children.flatMap nodes := by
  cases built with
  | expr value =>
    cases value <;>
      simp only [nodes_expr, children, Expr.inner, Expr.children, flatMap_cons, flatMap_nil,
        flatMap_append, append_nil, cons_append, append_assoc, nodes_exprsParts,
        nodes_stmtsParts, nodes_membersParts, nodes_params] <;>
      rfl
  | declarator value =>
    rcases value with ⟨_, _, _, init?⟩
    exact congrArg (_ :: ·) (nodes_exprParts? init?)
  | param | importName => rfl
  | stmt value =>
    cases value with
    | function _ _ body? =>
      cases body? <;>
        simp only [nodes_stmt, children, Stmt.inner, bodyParts?, Stmt.children,
          flatMap_append, nodes_stmtsParts, nodes_params] <;>
        rfl
    | importFrom _ _ clause =>
      cases clause with
      | named names =>
        rw [children, Stmt.children, flatMap_map]
        exact (append_nil _).trans (congrArg (_ :: ·) map_eq_flatMap)
      | _ => rfl
    | _ =>
      simp only [nodes_expr, nodes_stmt, children, Stmt.inner, Stmt.children,
        flatMap_cons, flatMap_nil, flatMap_append, append_nil, cons_append, append_assoc,
        nodes_stmtsParts, nodes_declaratorsParts, nodes_exprParts?, nodes_stmtParts?,
        nodes_forInitParts?]
      rfl

end Built

-----
-- Building
-----

/- The type that a literal has by itself. -/
def Expr.literalType? : Expr → Option Text
  | .number _ text => some text
  | .bool _ value => some (boolType value)
  | .string _ value => some (quotedType value)
  | .template _ _ _ => some "string"
  | _ => none

/-
  What a builder is asked to do: make an expression, plainly
  or with the type that it has as a literal; give a type to an
  expression; make another node, whose type may be known; take
  up a unit or a link. All other ways to make nodes are put
  together from these.
-/
inductive BuildCall where
  | expr (value : Expr)
  | literal (value : Expr)
  | typed (value : Expr) (type : Text)
  | declarator (value : Declarator) (inferred? : Option Text)
  | param (value : Param)
  | importName (value : ImportName) (inferred? : Option Text)
  | stmt (value : Stmt)
  | unit (value : SourceUnit)
  | link (value : ModuleLink)

namespace BuildCall

/- The node that a call makes. -/
def built? : BuildCall → Option Built
  | expr value => some (.expr value)
  | literal value => some (.expr value)
  | declarator value _ => some (.declarator value)
  | param value => some (.param value)
  | importName value _ => some (.importName value)
  | stmt value => some (.stmt value)
  | _ => none

/- The type that is recorded for a node as it is made. -/
def type? : BuildCall → Option Text
  | literal value => value.literalType?
  | declarator _ inferred? => inferred?
  | importName _ inferred? => inferred?
  | _ => none

/- The type that a call assigns, with the number of its node. -/
def entry? : BuildCall → Option (NodeId × Text)
  | typed value type => some (value.id, type)
  | call =>
      call.built?.bind fun built =>
        call.type?.map fun type => (built.node.id, type)

theorem entry?_of_built? {call : BuildCall} {built : Built} (h : call.built? = some built) :
    call.entry? = call.type?.map fun type => (built.node.id, type) := by
  cases call <;> cases h <;> rfl

end BuildCall

/- The nodes that were made, in order. -/
def madeBy (calls : List BuildCall) : List Built :=
  calls.filterMap BuildCall.built?

/- The counter and the types, nodes not used yet, units and links. -/
structure Builder where
  numbering : NodeNumbering
  pool : List Built
  units : List SourceUnit
  links : List ModuleLink

namespace Builder

def finish (builder : Builder) (entry : UnitId) : Program :=
  ⟨builder.units, some entry, builder.numbering.types, builder.links⟩

/- What is not nested in another node: in the pool, or in a unit. -/
def tops (builder : Builder) : List Built :=
  builder.pool ++ builder.units.flatMap fun unit => unit.statements.map .stmt

end Builder

/-
  Calls in any order, and the builder after them. A new node
  takes its children out of the pool, in which it then lies
  itself, and a unit takes its statements out of there, so no
  node is used twice. How the pool is ordered is of no account.
-/
inductive Builds : List BuildCall → Builder → Prop
  | start : Builds [] ⟨NodeNumbering.start, [], [], []⟩
  | make
      {calls : List BuildCall} {built : Built} {rest : List Built} {numbering later : NodeNumbering}
      {units : List SourceUnit} {links : List ModuleLink}
      (hBefore : Builds calls ⟨numbering, built.children ++ rest, units, links⟩) (call : BuildCall)
      (span? : Option Span) (hBuilt : call.built? = some built)
      (hNode : freshInferred span? call.type? numbering = (built.node, later)) :
      Builds (calls ++ [call]) ⟨later, built :: rest, units, links⟩
  | typed
      {calls : List BuildCall} {builder : Builder} {value : Expr} (hBefore : Builds calls builder)
      (hPool : .expr value ∈ builder.pool) (type : Text) :
      Builds (calls ++ [.typed value type])
        { builder with
          numbering := (record value.id type builder.numbering).2 }
  | unit
      {calls : List BuildCall} {unit : SourceUnit} {rest : List Built} {numbering : NodeNumbering}
      {units : List SourceUnit} {links : List ModuleLink}
      (hBefore :
        Builds calls ⟨numbering, unit.statements.map .stmt ++ rest, units, links⟩) :
      Builds (calls ++ [.unit unit]) ⟨numbering, rest, units ++ [unit], links⟩
  | link
      {calls : List BuildCall} {builder : Builder} (hBefore : Builds calls builder)
      (link : ModuleLink) :
      Builds (calls ++ [.link link]) { builder with links := builder.links ++ [link] }
  | shuffle
      {calls : List BuildCall} {builder : Builder} {pool : List Built}
      (hBefore : Builds calls builder) (hPool : builder.pool.Perm pool) :
      Builds calls { builder with pool }

-----
-- Numbers And Types
-----

theorem lookup_insertEntry (id other : NodeId) (type : Text) (entries : List (NodeId × Text)) :
    (insertEntry id type entries).lookup other =
      if other = id then some type else entries.lookup other := by
  fun_induction insertEntry id type entries with grind

/- The type recorded last is the one that is found. -/
theorem NodeTypes.get?_ofList_concat
    (entries : List (NodeId × Text)) (entry : NodeId × Text) (id : NodeId) :
    (ofList (entries ++ [entry])).get? id =
      if id = entry.1 then some entry.2 else (ofList entries).get? id := by
  rw [ofList, foldl_concat]
  exact lookup_insertEntry entry.1 id entry.2 _

/- What is found for a number is among what was recorded for it. -/
theorem NodeTypes.get?_ofList_cases (entries : List (NodeId × Text)) (id : NodeId) :
    (∃ type, (id, type) ∈ entries ∧ (ofList entries).get? id = some type) ∨
      (∀ type, (id, type) ∉ entries) ∧ (ofList entries).get? id = none := by
  induction entries using reverseRecOn with
  | nil => exact .inr ⟨fun _ => not_mem_nil, rfl⟩
  | append_singleton entries entry ih =>
    rw [get?_ofList_concat]
    by_cases hId : id = entry.1
    · exact .inl ⟨entry.2, by simp [hId], if_pos hId⟩
    · rw [if_neg hId]
      rcases ih with ⟨type, hMem, hFound⟩ | ⟨hNone, hFound⟩
      · exact .inl ⟨type, mem_append_left _ hMem, hFound⟩
      · refine .inr ⟨fun type hMem => ?_, hFound⟩
        rcases mem_append.mp hMem with hOld | hNew
        · exact hNone type hOld
        · rw [← mem_singleton.mp hNew] at hId
          exact hId rfl

/- What taking a number does to the counter and the types. -/
theorem freshInferred_eq
    {span? : Option Span} {type? : Option Text} {numbering later : NodeNumbering} {node : Node}
    (h : freshInferred span? type? numbering = (node, later)) :
    node.id = numbering.next ∧ later.next = numbering.next + 1 ∧
      later.types =
        (type?.map fun type => (node.id, type)).toList.foldl
          (fun types entry => types.insert entry.1 entry.2) numbering.types := by
  cases type? <;> cases h <;> exact ⟨rfl, rfl, rfl⟩

/-
  What holds of a builder whatever was called: the counter
  stands behind the numbers of the nodes that were made, each
  of which is in one place, after those that are nested in it,
  and the table has what calls assigned.
-/
structure Builder.IsSound (builder : Builder) (calls : List BuildCall) : Prop where
  next : builder.numbering.next = UInt32.ofNat (madeBy calls).length
  ids :
    ((madeBy calls).map fun built => built.node.id) = (range (madeBy calls).length).map UInt32.ofNat
  nodes :
    (builder.tops.flatMap Built.nodes).Perm ((madeBy calls).map Built.node)
  tops : builder.tops ⊆ madeBy calls
  closed : ∀ built ∈ madeBy calls, built.children ⊆ madeBy calls
  nested :
    (madeBy calls).length ≤ UInt32.size →
      ∀ built ∈ madeBy calls, ∀ child ∈ built.children, child.node.id < built.node.id
  given : ∀ value type, .typed value type ∈ calls → .expr value ∈ madeBy calls
  types :
    builder.numbering.types = NodeTypes.ofList (calls.filterMap BuildCall.entry?)

namespace Builder.IsSound

variable {builder : Builder} {calls : List BuildCall} {call : BuildCall}

theorem numbers (h : builder.IsSound calls) (hCount : (madeBy calls).length ≤ UInt32.size) :
    ((madeBy calls).map fun built => built.node.id.toNat) = range (madeBy calls).length := by
  have hIds := congrArg (map UInt32.toNat) h.ids
  rw [map_map, map_map] at hIds
  refine hIds.trans ((map_congr_left fun number hNumber => ?_).trans (map_id _))
  exact UInt32.toNat_ofNat_of_lt' (Nat.lt_of_lt_of_le (mem_range.mp hNumber) hCount)

theorem types_concat
    {types : NodeTypes} (h : builder.IsSound calls)
    (hTypes :
      types =
        call.entry?.toList.foldl (fun types entry => types.insert entry.1 entry.2)
          builder.numbering.types) :
    types = NodeTypes.ofList ((calls ++ [call]).filterMap BuildCall.entry?) := by
  rw [hTypes, h.types, filterMap_append, NodeTypes.ofList, NodeTypes.ofList, foldl_append]
  cases hEntry : call.entry? <;> simp [hEntry]

/- A call that makes no node leaves all nodes where they are. -/
theorem keep
    {after : Builder} (h : builder.IsSound calls) (hBuilt : call.built? = none)
    (hGiven : ∀ value type, call = .typed value type → .expr value ∈ builder.pool)
    (hNext : after.numbering.next = builder.numbering.next) (hTops : after.tops.Perm builder.tops)
    (hTypes :
      after.numbering.types =
        call.entry?.toList.foldl (fun types entry => types.insert entry.1 entry.2)
          builder.numbering.types) :
    after.IsSound (calls ++ [call]) := by
  have hMade : madeBy (calls ++ [call]) = madeBy calls := by simp [madeBy, hBuilt]
  refine ⟨?_, ?_, ?_, ?_, ?_, ?_, ?_, h.types_concat hTypes⟩ <;> rw [hMade]
  · exact hNext.trans h.next
  · exact h.ids
  · exact (hTops.flatMap_right _).trans h.nodes
  · exact fun _ hTop => h.tops (hTops.mem_iff.mp hTop)
  · exact h.closed
  · exact h.nested
  · intro value type hMem
    rcases mem_append.mp hMem with hOld | hNew
    · exact h.given value type hOld
    · exact h.tops (mem_append_left _ (hGiven value type (mem_singleton.mp hNew).symm))

/- A new node has the next number, and its children were made before. -/
theorem make
    {built : Built} {rest : List Built} {span? : Option Span} {numbering later : NodeNumbering}
    {units : List SourceUnit} {links : List ModuleLink}
    (h : Builder.IsSound ⟨numbering, built.children ++ rest, units, links⟩ calls)
    (hBuilt : call.built? = some built)
    (hNode : freshInferred span? call.type? numbering = (built.node, later)) :
    Builder.IsSound ⟨later, built :: rest, units, links⟩ (calls ++ [call]) := by
  have hMade : madeBy (calls ++ [call]) = madeBy calls ++ [built] := by simp [madeBy, hBuilt]
  rcases freshInferred_eq hNode with ⟨hId, hNext, hTypes⟩
  have hNumber : built.node.id = UInt32.ofNat (madeBy calls).length := hId.trans h.next
  have hChildren : built.children ⊆ madeBy calls := fun _ hChild =>
    h.tops (mem_append_left _ (mem_append_left _ hChild))
  refine ⟨?_, ?_, ?_, ?_, ?_, ?_, ?_, ?_⟩
  · rw [hMade, length_append, length_singleton, UInt32.ofNat_add, ← h.next]
    exact hNext
  · rw [hMade, map_append, h.ids, length_append, length_singleton, range_succ, map_append,
      map_singleton, hNumber]
    rfl
  · have hNodes := h.nodes
    rw [Builder.tops, append_assoc, flatMap_append] at hNodes
    rw [hMade, map_append]
    show (built.nodes ++ _).Perm _
    rw [built.nodes_eq, cons_append]
    exact (hNodes.cons _).trans (perm_append_singleton _ _).symm
  · rw [hMade]
    intro top hTop
    rcases mem_cons.mp hTop with rfl | hTop
    · exact mem_append_right _ (mem_singleton_self _)
    · refine mem_append_left _ (h.tops ?_)
      rw [Builder.tops, append_assoc]
      exact mem_append_right _ hTop
  · rw [hMade]
    intro other hOther
    rcases mem_append.mp hOther with hOld | hNew
    · exact fun _ hChild => mem_append_left _ (h.closed other hOld hChild)
    · rw [mem_singleton.mp hNew]
      exact fun _ hChild => mem_append_left _ (hChildren hChild)
  · rw [hMade, length_append, length_singleton]
    intro hCount other hOther child hChild
    rcases mem_append.mp hOther with hOld | hNew
    · exact h.nested (by omega) other hOld child hChild
    · rw [mem_singleton.mp hNew] at hChild ⊢
      have hBelow : child.node.id.toNat ∈ range (madeBy calls).length := by
        rw [← h.numbers (by omega)]
        exact mem_map_of_mem (hChildren hChild)
      rw [hNumber, UInt32.lt_iff_toNat_lt, UInt32.toNat_ofNat_of_lt' hCount]
      exact mem_range.mp hBelow
  · rw [hMade]
    intro value type hMem
    rcases mem_append.mp hMem with hOld | hNew
    · exact mem_append_left _ (h.given value type hOld)
    · rw [← mem_singleton.mp hNew] at hBuilt
      cases hBuilt
  · apply h.types_concat
    rw [BuildCall.entry?_of_built? hBuilt]
    exact hTypes

theorem shuffle {pool : List Built} (h : builder.IsSound calls) (hPool : builder.pool.Perm pool) :
    { builder with pool }.IsSound calls := by
  have hTops : ({ builder with pool } : Builder).tops.Perm builder.tops := hPool.symm.append_right _
  exact
    ⟨h.next, h.ids, (hTops.flatMap_right _).trans h.nodes,
      fun _ hTop => h.tops (hTops.mem_iff.mp hTop), h.closed, h.nested, h.given, h.types⟩

end Builder.IsSound

/- The invariant holds after all calls, by what each call does. -/
theorem Builds.isSound {calls : List BuildCall} {builder : Builder} (h : Builds calls builder) :
    builder.IsSound calls := by
  induction h with
  | start => exact ⟨rfl, rfl, .nil, nofun, nofun, nofun, nofun, rfl⟩
  | make _ _ _ hBuilt hNode ih => exact ih.make hBuilt hNode
  | typed _ hPool _ ih =>
    refine ih.keep rfl ?_ rfl (.refl _) rfl
    rintro _ _ ⟨⟩
    exact hPool
  | unit _ ih =>
    refine ih.keep rfl nofun rfl ?_ rfl
    -- The statements go from the pool to the units.
    show (_ ++ flatMap _ (_ ++ [_])).Perm (_ ++ _ ++ _)
    rw [flatMap_append, ← append_assoc, flatMap_singleton, append_assoc _ _ (flatMap _ _)]
    exact perm_append_comm
  | link _ _ ih => exact ih.keep rfl nofun rfl (.refl _) rfl
  | shuffle _ hPool ih => exact ih.shuffle hPool

-----
-- Drafts
-----

/-
  From one state of the counter to another, nodes can be made
  that are then in front of the pool.
-/
def Makes (before after : NodeNumbering) (made : List Built) : Prop :=
  ∀ calls rest units links, Builds calls ⟨before, rest, units, links⟩ →
    ∃ more, Builds more ⟨after, made ++ rest, units, links⟩

namespace Makes

variable {before middle after last : NodeNumbering} {built : Built}
variable {made front back extra : List Built}

theorem nil :
    Makes before before [] :=
  fun calls _ _ _ hBuilds => ⟨calls, hBuilds⟩

theorem perm (h : Makes before after front) (hPerm : front.Perm back) :
    Makes before after back := by
  intro calls rest units links hBuilds
  rcases h calls rest units links hBuilds with ⟨more, hMore⟩
  exact ⟨more, hMore.shuffle (hPerm.append_right rest)⟩

theorem append (hFront : Makes before middle front) (hBack : Makes middle after back) :
    Makes before after (front ++ back) := by
  refine perm ?_ perm_append_comm
  intro calls rest units links hBuilds
  rcases hFront calls rest units links hBuilds with ⟨more, hMore⟩
  rw [append_assoc]
  exact hBack more (front ++ rest) units links hMore

/- A node that takes its children, with other nodes behind them. -/
theorem consume
    (h : Makes before after (built.children ++ extra)) (call : BuildCall) (span? : Option Span)
    (hBuilt : call.built? = some built)
    (hNode : freshInferred span? call.type? after = (built.node, last)) :
    Makes before last (built :: extra) := by
  intro calls rest units links hBuilds
  rcases h calls rest units links hBuilds with ⟨more, hMore⟩
  rw [append_assoc] at hMore
  exact ⟨more ++ [call], hMore.make call span? hBuilt hNode⟩

theorem make
    (h : Makes before after built.children) (call : BuildCall) (span? : Option Span)
    (hBuilt : call.built? = some built)
    (hNode : freshInferred span? call.type? after = (built.node, last)) :
    Makes before last [built] := by
  rw [← append_nil built.children] at h
  exact h.consume call span? hBuilt hNode

/- A type for an expression that was made last. -/
theorem record {value : Expr} (h : Makes before after [.expr value]) (type : Text) :
    Makes before (NodeNumbering.record value.id type after).2 [.expr value] := by
  intro calls rest units links hBuilds
  rcases h calls rest units links hBuilds with ⟨more, hMore⟩
  exact ⟨more ++ [.typed value type], hMore.typed mem_cons_self type⟩

end Makes

theorem makes_params (params : List DraftParam) (numbering : NodeNumbering) :
    Makes numbering (numberParams params numbering).2
      ((numberParams params numbering).1.map .param) := by
  induction params generalizing numbering with
  | nil => exact .nil
  | cons _ _ ih => exact (Makes.nil.make (.param _) none rfl rfl).append (ih _)

theorem makes_importNames (names : List (Text × Option Text)) (numbering : NodeNumbering) :
    Makes numbering (numberImportNames names numbering).2
      ((numberImportNames names numbering).1.map .importName) := by
  induction names generalizing numbering with
  | nil => exact .nil
  | cons name _ ih => exact (Makes.nil.make (.importName _ name.2) none rfl rfl).append (ih _)

mutual

/-
  Numbering a drafted expression makes it, one case for each
  constructor: what is nested is made in the order in which it
  is written.
-/
theorem DraftExpr.makes (expr : DraftExpr) (span? : Option Span) (numbering : NodeNumbering) :
    Makes numbering (expr.number span? numbering).2 [.expr (expr.number span? numbering).1] := by
  cases expr with
  | ident | null | this => exact Makes.nil.make (.expr _) span? rfl rfl
  | literal | bool | string => exact Makes.nil.make (.literal _) span? rfl rfl
  | template _ exprs => exact (makes_exprs exprs _).make (.literal _) span? rfl rfl
  | array elements => exact (makes_exprs elements _).make (.expr _) span? rfl rfl
  | object members => exact (makes_members members _).make (.expr _) span? rfl rfl
  | paren inner | member inner | assertion inner | unary _ inner
  | step _ inner => exact (inner.makes none _).make (.expr _) span? rfl rfl
  | index object index | binary _ object index =>
    have hInner := (object.makes none numbering).append (index.makes none _)
    exact hInner.make (.expr _) span? rfl rfl
  | call callee _ args | new callee args =>
    have hInner := (callee.makes none numbering).append (makes_exprs args _)
    exact hInner.make (.expr _) span? rfl rfl
  | methodCall receiver method args =>
    -- The callee is a node as well, made after the arguments.
    have hInner := (receiver.makes none numbering).append (makes_exprs args _)
    have hCallee := hInner.consume (.expr (.member _ _ method)) none rfl rfl
    exact hCallee.make (.expr _) span? rfl rfl
  | conditional condition thenExpr elseExpr =>
    have hInner :=
      ((condition.makes none numbering).append (thenExpr.makes none _)).append
        (elseExpr.makes none _)
    exact hInner.make (.expr _) span? rfl rfl
  | typed inner type => exact (inner.makes span? _).record type
  | spanned _ inner => exact inner.makes _ _
  | arrow params body =>
    have hInner := (makes_params params numbering).append (makes_stmts body _)
    exact hInner.make (.expr _) span? rfl rfl

theorem makes_exprs (exprs : List DraftExpr) (numbering : NodeNumbering) :
    Makes numbering (numberExprs exprs numbering).2
      ((numberExprs exprs numbering).1.map .expr) := by
  cases exprs with
  | nil => exact .nil
  | cons expr rest => exact (expr.makes none _).append (makes_exprs rest _)

theorem makes_expr? (expr? : Option DraftExpr) (numbering : NodeNumbering) :
    Makes numbering (numberExpr? expr? numbering).2
      ((numberExpr? expr? numbering).1.toList.map .expr) := by
  cases expr? with
  | none => exact .nil
  | some expr => exact expr.makes none _

theorem DraftMember.makes (member : DraftMember) (numbering : NodeNumbering) :
    Makes numbering (member.number numbering).2 (member.number numbering).1.children := by
  cases member with
  | property _ value | spread value => exact value.makes none _
  | shorthand | method => exact .nil

theorem makes_members (members : List DraftMember) (numbering : NodeNumbering) :
    Makes numbering (numberMembers members numbering).2
      ((numberMembers members numbering).1.flatMap ObjectMember.children) := by
  cases members with
  | nil => exact .nil
  | cons member rest => exact (member.makes _).append (makes_members rest _)

theorem DraftDeclarator.makes (declarator : DraftDeclarator) (numbering : NodeNumbering) :
    Makes numbering (declarator.number numbering).2
      [.declarator (declarator.number numbering).1] := by
  cases declarator with
  | mk _ _ inferred? init? =>
    exact (makes_expr? init? _).make (.declarator _ inferred?) none rfl rfl

theorem makes_declarators (declarators : List DraftDeclarator) (numbering : NodeNumbering) :
    Makes numbering (numberDeclarators declarators numbering).2
      ((numberDeclarators declarators numbering).1.map .declarator) := by
  cases declarators with
  | nil => exact .nil
  | cons declarator rest => exact (declarator.makes _).append (makes_declarators rest _)

theorem makes_forInit? (init? : Option DraftForInit) (numbering : NodeNumbering) :
    Makes numbering (numberForInit? init? numbering).2
      ((numberForInit? init? numbering).1.toList.flatMap ForInit.children) := by
  rcases init? with _ | ⟨_, declarators⟩ | value
  · exact .nil
  · exact (makes_declarators declarators _).append .nil
  · exact value.makes none _

theorem DraftStmt.makes (stmt : DraftStmt) (span? : Option Span) (numbering : NodeNumbering) :
    Makes numbering (stmt.number span? numbering).2 [.stmt (stmt.number span? numbering).1] := by
  cases stmt with
  | function _ params _ body? =>
    have hInner := (makes_params params numbering).append (makes_body? body? _)
    exact hInner.make (.stmt _) span? rfl rfl
  | importNamed _ names => exact (makes_importNames names _).make (.stmt _) span? rfl rfl
  | importDefault | importNamespace | importSideEffect | interface
  | typeAlias | breakLoop | continueLoop | empty | classDecl | enumDecl =>
    exact Makes.nil.make (.stmt _) span? rfl rfl
  | vars _ declarators => exact (makes_declarators declarators _).make (.stmt _) span? rfl rfl
  | block body => exact (makes_stmts body _).make (.stmt _) span? rfl rfl
  | ifElse condition thenBranch elseBranch? =>
    have hInner :=
      ((condition.makes none numbering).append (thenBranch.makes none _)).append
        (makes_stmt? elseBranch? _)
    exact hInner.make (.stmt _) span? rfl rfl
  | whileLoop condition body =>
    have hInner := (condition.makes none numbering).append (body.makes none _)
    exact hInner.make (.stmt _) span? rfl rfl
  | doLoop body condition =>
    -- The body is made first here.
    have hInner := (body.makes none numbering).append (condition.makes none _)
    exact (hInner.perm perm_append_comm).make (.stmt _) span? rfl rfl
  | forLoop init? condition? update? body =>
    have hHead :=
      ((makes_forInit? init? numbering).append (makes_expr? condition? _)).append
        (makes_expr? update? _)
    exact (hHead.append (body.makes none _)).make (.stmt _) span? rfl rfl
  | ret value? => exact (makes_expr? value? _).make (.stmt _) span? rfl rfl
  | expr value | raise value => exact (value.makes none _).make (.stmt _) span? rfl rfl
  | spanned _ inner => exact inner.makes _ _

theorem makes_stmts (stmts : List DraftStmt) (numbering : NodeNumbering) :
    Makes numbering (numberStmts stmts numbering).2
      ((numberStmts stmts numbering).1.map .stmt) := by
  cases stmts with
  | nil => exact .nil
  | cons stmt rest => exact (stmt.makes none _).append (makes_stmts rest _)

theorem makes_stmt? (stmt? : Option DraftStmt) (numbering : NodeNumbering) :
    Makes numbering (numberStmt? stmt? numbering).2
      ((numberStmt? stmt? numbering).1.toList.map .stmt) := by
  cases stmt? with
  | none => exact .nil
  | some stmt => exact stmt.makes none _

theorem makes_body? (body? : Option (List DraftStmt)) (numbering : NodeNumbering) :
    Makes numbering (numberBody? body? numbering).2
      (((numberBody? body? numbering).1.getD []).map .stmt) := by
  cases body? with
  | none => exact .nil
  | some body => exact makes_stmts body _

end

/- Links may be taken up one after the other. -/
theorem Builds.exists_links
    (links : List ModuleLink) {calls : List BuildCall} {builder : Builder}
    (h : Builds calls builder) :
    ∃ more, Builds more { builder with links := builder.links ++ links } := by
  induction links generalizing calls builder with
  | nil => exact ⟨calls, by rw [append_nil]; exact h⟩
  | cons link _ ih =>
    rcases ih (h.link link) with ⟨more, hMore⟩
    rw [append_assoc] at hMore
    exact ⟨more, hMore⟩

theorem exists_builds_units
    (drafts : List DraftUnit) {calls : List BuildCall} {numbering : NodeNumbering}
    {units : List SourceUnit} (h : Builds calls ⟨numbering, [], units, []⟩) :
    ∃ more, Builds more
      ⟨(numberUnits drafts numbering).2, [], units ++ (numberUnits drafts numbering).1, []⟩ := by
  induction drafts generalizing calls numbering units with
  | nil => exact ⟨calls, (append_nil units).symm ▸ h⟩
  | cons draft _ ih =>
    rcases makes_stmts draft.statements numbering _ _ _ _ h with ⟨_, hStmts⟩
    have hUnit : Builds _ ⟨_, [], units ++ [⟨draft.path, draft.source, _⟩], []⟩ := hStmts.unit
    rcases ih hUnit with ⟨more, hMore⟩
    rw [append_assoc] at hMore
    exact ⟨more, hMore⟩

/- A drafted program is built, from the left to the right. -/
theorem DraftProgram.exists_builds (draft : DraftProgram) :
    ∃ calls builder, Builds calls builder ∧ builder.pool = [] ∧
      builder.finish draft.entry = draft.build := by
  rcases exists_builds_units draft.units .start with ⟨calls, hUnits⟩
  rcases hUnits.exists_links draft.links with ⟨more, hMore⟩
  exact ⟨more, _, hMore, rfl, rfl⟩

-----
-- Finished Programs
-----

namespace Builder.IsSound

variable {builder : Builder} {calls : List BuildCall}

/- What a node holds was made, and numbered before it. -/
theorem mem_of_holds
    (h : builder.IsSound calls) (hCount : (madeBy calls).length ≤ UInt32.size) {built inner : Built}
    (hInner : built.Holds inner) (hBuilt : built ∈ madeBy calls) :
    inner ∈ madeBy calls ∧ inner.node.id ≤ built.node.id := by
  induction hInner with
  | self => exact ⟨hBuilt, UInt32.le_refl _⟩
  | child hChild _ ih =>
    rcases ih (h.closed _ hBuilt hChild) with ⟨hMade, hLe⟩
    have hLt := h.nested hCount _ hBuilt _ hChild
    exact ⟨hMade, UInt32.le_trans hLe (UInt32.le_of_lt hLt)⟩

theorem eq_of_id_eq
    (h : builder.IsSound calls) (hCount : (madeBy calls).length ≤ UInt32.size) {built other : Built}
    (hBuilt : built ∈ madeBy calls) (hOther : other ∈ madeBy calls)
    (hId : built.node.id = other.node.id) :
    built = other := by
  have hNodup : ((madeBy calls).map fun built => built.node.id.toNat).Nodup := by
    rw [h.numbers hCount]
    exact nodup_range
  exact inj_on_of_nodup_map hNodup hBuilt hOther (congrArg UInt32.toNat hId)

/- An expression has types from outside, and its own as a literal. -/
theorem cases_of_entry
    (h : builder.IsSound calls) (hCount : (madeBy calls).length ≤ UInt32.size) {value : Expr}
    (hMade : .expr value ∈ madeBy calls) {type : Text}
    (hEntry : (value.id, type) ∈ calls.filterMap BuildCall.entry?) :
    .typed value type ∈ calls ∨ .literal value ∈ calls ∧ value.literalType? = some type := by
  rcases mem_filterMap.mp hEntry with ⟨call, hCall, hAssigned⟩
  cases hBuilt : call.built? with
  | none =>
    cases call with
    | typed other given =>
      injection Option.some.inj hAssigned with hId hType
      cases h.eq_of_id_eq hCount (h.given other given hCall) hMade hId
      exact .inl (hType ▸ hCall)
    | unit | link => cases hAssigned
    | _ => cases hBuilt
  | some built =>
    rw [BuildCall.entry?_of_built? hBuilt] at hAssigned
    rcases Option.map_eq_some_iff.mp hAssigned with ⟨given, hGiven, hPair⟩
    injection hPair with hId hType
    have hOther : built ∈ madeBy calls := mem_filterMap.mpr ⟨call, hCall, hBuilt⟩
    cases h.eq_of_id_eq hCount hOther hMade hId
    cases hType
    cases call with
    | literal =>
      cases hBuilt
      exact .inr ⟨hCall, hGiven⟩
    | declarator | importName => cases hBuilt
    | _ => cases hGiven

end Builder.IsSound

/- What was not made as a literal was made plainly. -/
theorem expr_mem_of_made
    {calls : List BuildCall} {value : Expr} (hMade : .expr value ∈ madeBy calls)
    (hLiteral : .literal value ∉ calls) :
    .expr value ∈ calls := by
  rcases mem_filterMap.mp hMade with ⟨call, hCall, hBuilt⟩
  cases call with
  | expr =>
    cases hBuilt
    exact hCall
  | literal =>
    cases hBuilt
    exact absurd hCall hLiteral
  | _ => cases hBuilt

/- A literal without an entry has no type by itself. -/
theorem literalType?_eq_none
    {calls : List BuildCall} {value : Expr} (hLiteral : .literal value ∈ calls)
    (hNone : ∀ type, (value.id, type) ∉ calls.filterMap BuildCall.entry?) :
    value.literalType? = none := by
  refine Option.eq_none_iff_forall_not_mem.mpr fun type hType => hNone type ?_
  exact mem_filterMap.mpr ⟨_, hLiteral, Option.map_eq_some_iff.mpr ⟨type, hType, rfl⟩⟩

/- All nodes of a program, as its parts are listed. -/
def Program.nodes (program : Program) : List Node :=
  program.units.flatMap SourceUnit.nodes

/- What is in the units of a program, at any depth. -/
def Program.Holds (program : Program) (built : Built) : Prop :=
  ∃ unit ∈ program.units, ∃ stmt ∈ unit.statements, (Built.stmt stmt).Holds built

/-
  However a program was built, if all nodes that were made are
  used, their numbers are those from zero on, each once, and a
  node is numbered after those nested in it. An expression
  that is given no type from outside has its type as a literal
  if it was made as one, and else none. What no call assigned
  a type to has none.
-/
theorem built_program_numbered_and_typed
    {calls : List BuildCall} {builder : Builder} (entry : UnitId) (hBuilds : Builds calls builder)
    (hUsed : builder.pool = []) (hCount : (builder.finish entry).nodes.length < UInt32.size) :
    ((builder.finish entry).nodes.map fun node => node.id.toNat).Perm
        (range (builder.finish entry).nodes.length) ∧
      (∀ built, (builder.finish entry).Holds built →
        ∀ child ∈ built.children, ∀ inner, child.Holds inner → inner.node.id < built.node.id) ∧
      (∀ value, (builder.finish entry).Holds (.expr value) →
        (∀ type, .typed value type ∉ calls) →
          .literal value ∈ calls ∧ (builder.finish entry).types.get? value.id = value.literalType? ∨
            .expr value ∈ calls ∧ .literal value ∉ calls ∧
              (builder.finish entry).types.get? value.id = none) ∧
      ∀ id, (∀ call ∈ calls, ∀ type, call.entry? ≠ some (id, type)) →
        (builder.finish entry).types.get? id = none := by
  have hSound := hBuilds.isSound
  have hNodes : (builder.finish entry).nodes.Perm ((madeBy calls).map Built.node) := by
    have hTops := hSound.nodes
    rw [Builder.tops, hUsed, nil_append, flatMap_assoc] at hTops
    simp only [← nodes_stmtsParts] at hTops
    exact hTops
  have hLength : (builder.finish entry).nodes.length = (madeBy calls).length := by
    rw [hNodes.length_eq, length_map]
  have hBound : (madeBy calls).length ≤ UInt32.size := by omega
  have hMade : ∀ built, (builder.finish entry).Holds built → built ∈ madeBy calls := by
    rintro built ⟨unit, hUnit, stmt, hStmt, hHolds⟩
    refine (hSound.mem_of_holds hBound hHolds (hSound.tops ?_)).1
    exact mem_append_right _ (mem_flatMap.mpr ⟨unit, hUnit, mem_map_of_mem hStmt⟩)
  have hTypes : (builder.finish entry).types = _ := hSound.types
  refine ⟨?_, ?_, ?_, ?_⟩
  · rw [hLength, ← hSound.numbers hBound]
    have hNumbers := hNodes.map fun node => node.id.toNat
    rwa [map_map] at hNumbers
  · intro built hBuilt child hChild inner hInner
    have hParent := hMade built hBuilt
    have hLe := hSound.mem_of_holds hBound hInner (hSound.closed built hParent hChild)
    exact UInt32.lt_of_le_of_lt hLe.2 (hSound.nested hBound built hParent child hChild)
  · intro value hValue hOwn
    have hThis := hMade _ hValue
    rw [hTypes]
    rcases NodeTypes.get?_ofList_cases (calls.filterMap BuildCall.entry?) value.id with
      ⟨type, hMem, hFound⟩ | ⟨hNone, hFound⟩
    · rcases hSound.cases_of_entry hBound hThis hMem with hTyped | ⟨hLiteral, hType⟩
      · exact absurd hTyped (hOwn type)
      · exact .inl ⟨hLiteral, hFound.trans hType.symm⟩
    · by_cases hLiteral : .literal value ∈ calls
      · exact .inl ⟨hLiteral, hFound.trans (literalType?_eq_none hLiteral hNone).symm⟩
      · exact .inr ⟨expr_mem_of_made hThis hLiteral, hLiteral, hFound⟩
  · intro id hNone
    rw [hTypes]
    rcases NodeTypes.get?_ofList_cases (calls.filterMap BuildCall.entry?) id with
      ⟨type, hMem, _⟩ | ⟨_, hFound⟩
    · rcases mem_filterMap.mp hMem with ⟨call, hCall, hEntry⟩
      exact absurd hEntry (hNone call hCall type)
    · exact hFound

/- A sum: its right side is made first, and plainly. -/
def plainTwo : Expr :=
  .number ⟨0, Span.nowhere⟩ "2"

def literalOne : Expr :=
  .number ⟨1, Span.nowhere⟩ "1"

def builtSum : Stmt :=
  .expr ⟨3, Span.nowhere⟩ (.binary ⟨2, Span.nowhere⟩ .plus literalOne plainTwo)

def sumUnit : SourceUnit :=
  ⟨"main.ts", [], [builtSum]⟩

def sumCalls : List BuildCall :=
  [.expr plainTwo, .literal literalOne,
    .expr (.binary ⟨2, Span.nowhere⟩ .plus literalOne plainTwo), .stmt builtSum,
    .unit sumUnit]

def sumBuilder : Builder :=
  ⟨⟨4, NodeTypes.empty.insert 1 "1"⟩, [], [sumUnit], []⟩

theorem builds_sum :
    Builds sumCalls sumBuilder := by
  have hTwo := Builds.start.make (.expr plainTwo) none rfl rfl
  have hOne := hTwo.make (.literal literalOne) none rfl rfl
  have hSum := hOne.make (.expr (.binary _ .plus literalOne plainTwo)) none rfl rfl
  have hStmt : Builds _ ⟨_, sumUnit.statements.map .stmt ++ [], [], []⟩ :=
    hSum.make (.stmt builtSum) none rfl rfl
  exact hStmt.unit

theorem sum_holds {value : Expr} (h : value = literalOne ∨ value = plainTwo) :
    (sumBuilder.finish 0).Holds (.expr value) := by
  refine ⟨sumUnit, mem_singleton_self _, builtSum, mem_singleton_self _, ?_⟩
  refine .child mem_cons_self (.child ?_ (.self _))
  rcases h with rfl | rfl
  · exact mem_cons_self
  · exact mem_cons_of_mem _ mem_cons_self

theorem sum_numbered_and_typed :
    ((sumBuilder.finish 0).nodes.map fun node => node.id.toNat).Perm [0, 1, 2, 3] ∧
      (sumBuilder.finish 0).types.get? literalOne.id = literalOne.literalType? := by
  have hBuilt := built_program_numbered_and_typed 0 builds_sum rfl (by decide : 4 < UInt32.size)
  refine ⟨hBuilt.1, ?_⟩
  have hOwn : ∀ type, .typed literalOne type ∉ sumCalls := by
    intro type hMem
    simp [sumCalls] at hMem
  rcases hBuilt.2.2.1 literalOne (sum_holds (.inl rfl)) hOwn with ⟨_, hType⟩ | ⟨_, hPlain, _⟩
  · exact hType
  · exact absurd (mem_cons_of_mem _ mem_cons_self) hPlain

/- A literal that was made plainly has no type, though none is given to it. -/
theorem plain_literal_untyped :
    Builds sumCalls sumBuilder ∧ sumBuilder.pool = [] ∧
      (sumBuilder.finish 0).Holds (.expr plainTwo) ∧
      plainTwo.literalType? = some "2" ∧
      (∀ type, .typed plainTwo type ∉ sumCalls) ∧
      (sumBuilder.finish 0).types.get? plainTwo.id = none := by
  refine ⟨builds_sum, rfl, sum_holds (.inr rfl), rfl, ?_, by decide⟩
  intro type hMem
  simp [sumCalls] at hMem

end ScriptLowering
