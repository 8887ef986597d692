import ScriptLowering.Proofs.ForwardDeclarations
import ScriptLowering.Proofs.PrintedTexts

/-
  Line breaks in a printed C++ program. If no name and no
  number of a program has a line break in it, then no row of
  the printed program has one: strings are escaped, and types
  are decided from words. So the lines of the printed text
  are the rows that were written.

  Key theorems include:
    * `Target.isCode_stmtsRows`
    * `Compilation.lines_text`
-/

namespace ScriptLowering

open List

-----
-- Texts Without Line Breaks
-----

open Text Script

theorem lacks_break_iff {text : Text} :
    text.Lacks ['\n'] ↔ LineFree text := by
  constructor
  · intro h hBreak
    exact h '\n' hBreak mem_cons_self
  · intro h c hMem hMark
    rw [mem_singleton.mp hMark] at hMem
    exact h hMem

/- Lines that are read for line breaks only. -/
def lineScript : Script where
  marks := ['\n']
  foreign := rfl
  Leads text _ _ := LineFree text
  fixed h := h.lineFree
  word _ h := lacks_break_iff.mp h
  append hFront hBack := lineFree_append.mpr ⟨hFront, hBack⟩

/- Texts and types without line breaks. -/
def lineFreeLexicon : Lexicon :=
  lineScript.lexicon

theorem lineFree_of_keeps {text : Text} (h : lineScript.Keeps text) :
    LineFree text :=
  h []

-----
-- Rows
-----

/- A row with something on it, and without a line break. -/
structure Row.IsCode (row : Row) : Prop where
  nonblank : row.text ≠ []
  lineFree : LineFree row.text

theorem Row.IsCode.line {row : Row} (h : row.IsCode) (width : Nat) :
    row.line width ≠ [] ∧ LineFree (row.line width) := by
  have hBlanks : LineFree (replicate (row.level * width) ' ') := by
    intro hBreak
    cases eq_of_mem_replicate hBreak
  constructor
  · simp [Row.line, h.nonblank]
  · exact lineFree_append.mpr ⟨hBlanks, h.lineFree⟩

/- Statements and declarations end with these characters. -/
def Text.endsCode (text : Text) : Bool :=
  text.getLast?.any fun c => c == ';' || c == '{' || c == '}'

theorem Text.endsCode_append (front : Text) {back : Text} (h : back.endsCode = true) :
    (front ++ back).endsCode = true := by
  cases hLast : back.getLast? with
  | none => simp [endsCode, hLast] at h
  | some => simpa [endsCode, hLast] using h

/- Rows that are led through without a line break. -/
theorem isCode_of_leadsRows
    {rows : List Row} {before after : List Char} (hEnds : ∀ row ∈ rows, row.text.endsCode = true)
    (h : lineScript.LeadsRows rows before after) :
    ∀ row ∈ rows, row.IsCode := by
  induction rows generalizing before with
  | nil => exact forall_mem_nil _
  | cons row _ ih =>
    rcases h with ⟨_, hText, hRest⟩
    rcases forall_mem_cons.mp hEnds with ⟨hRow, hMore⟩
    have hSome : row.text ≠ [] := by
      intro hBlank
      rw [hBlank] at hRow
      cases hRow
    exact forall_mem_cons.mpr ⟨⟨hSome, hText⟩, ih hMore hRest⟩

namespace Target

theorem endsCode_braced
    {first last : Row} {inner : List Row} (hFirst : first.text.endsCode = true)
    (hInner : ∀ row ∈ inner, row.text.endsCode = true) (hLast : last.text.endsCode = true) :
    ∀ row ∈ first :: inner ++ [last], row.text.endsCode = true := by
  refine forall_mem_append.mpr ?_
  exact ⟨forall_mem_cons.mpr ⟨hFirst, hInner⟩, forall_mem_singleton.mpr hLast⟩

mutual

/- All rows of a statement end like code. -/
theorem Stmt.endsCode_rows (level : Nat) (stmt : Stmt) :
    ∀ row ∈ stmt.rows level, row.text.endsCode = true := by
  cases stmt with
  | block body => exact endsCode_braced rfl (endsCode_stmtsRows (level + 1) body) rfl
  | branch _ body rest =>
    refine forall_mem_append.mpr ⟨forall_mem_cons.mpr ⟨?_, ?_⟩, ?_⟩
    · exact endsCode_append _ rfl
    · exact endsCode_stmtsRows (level + 1) body
    · exact rest.endsCode_rows level
  | whileLoop _ body | forLoop _ _ _ body =>
    exact endsCode_braced (endsCode_append _ rfl) (endsCode_stmtsRows (level + 1) body) rfl
  | doLoop body =>
    exact endsCode_braced rfl (endsCode_stmtsRows (level + 1) body) (endsCode_append _ rfl)
  | ret value? =>
    cases value? with
    | none => exact forall_mem_singleton.mpr rfl
    | some => exact forall_mem_singleton.mpr (endsCode_append _ rfl)
  | expr | declare => exact forall_mem_singleton.mpr (endsCode_append _ rfl)
  | breakLoop | continueLoop => exact forall_mem_singleton.mpr rfl

theorem endsCode_stmtsRows (level : Nat) (stmts : List Stmt) :
    ∀ row ∈ stmtsRows level stmts, row.text.endsCode = true := by
  cases stmts with
  | nil => exact forall_mem_nil _
  | cons stmt rest =>
    exact forall_mem_append.mpr ⟨stmt.endsCode_rows level, endsCode_stmtsRows level rest⟩

theorem Else.endsCode_rows (level : Nat) (rest : Else) :
    ∀ row ∈ rest.rows level, row.text.endsCode = true := by
  cases rest with
  | none => exact forall_mem_singleton.mpr rfl
  | body body => exact endsCode_braced rfl (endsCode_stmtsRows (level + 1) body) rfl
  | branch _ body rest =>
    refine forall_mem_append.mpr ⟨forall_mem_cons.mpr ⟨?_, ?_⟩, ?_⟩
    · exact endsCode_append _ rfl
    · exact endsCode_stmtsRows (level + 1) body
    · exact rest.endsCode_rows level

end

/- All rows of statements are lines of code. -/
theorem isCode_stmtsRows (level : Nat) (stmts : List Stmt) (h : lineFreeLexicon.HasStmts stmts) :
    ∀ row ∈ stmtsRows level stmts, row.IsCode :=
  isCode_of_leadsRows (endsCode_stmtsRows level stmts) (leadsRows_stmts level stmts h [])

-----
-- Blocks
-----

/- Lines of code that a blank line stands behind at most. -/
structure IsBlock (texts : List Text) : Prop where
  paragraph : texts ≠ [] → IsParagraph texts
  lineFree : ∀ line ∈ texts, LineFree line

theorem isBlock_body {body : List Text} (h : ∀ line ∈ body, line ≠ [] ∧ LineFree line) :
    IsBlock body := by
  constructor
  · intro hSome
    exact ⟨body, hSome, fun line hLine => (h line hLine).1, .inl rfl⟩
  · intro line hLine
    exact (h line hLine).2

theorem isBlock_spaced
    {body : List Text} (hSome : body ≠ []) (h : ∀ line ∈ body, line ≠ [] ∧ LineFree line) :
    IsBlock (body ++ [[]]) := by
  constructor
  · intro _
    exact ⟨body, hSome, fun line hLine => (h line hLine).1, .inr rfl⟩
  · refine forall_mem_append.mpr ⟨?_, ?_⟩
    · intro line hLine
      exact (h line hLine).2
    · exact forall_mem_singleton.mpr lineFree_nil

/- Empty blocks leave nothing behind. -/
theorem lines_normalizeBlankLines_blocks
    (front : Text) {c : Char} (hChar : c ≠ '\n') {blocks : List (List Text)}
    (h : ∀ block ∈ blocks, IsBlock block) :
    lines (normalizeBlankLines (front ++ c :: '\n' :: '\n' :: unlines blocks.flatten)) =
      withoutLastBlank (lines (collapseBreaks 0 (front ++ [c, '\n', '\n'])) ++ blocks.flatten) := by
  rw [← flatten_filter_not_isEmpty]
  apply lines_normalizeBlankLines front hChar
  · intro texts hTexts
    rcases mem_filter.mp hTexts with ⟨hMem, hSome⟩
    exact (h texts hMem).paragraph (by simpa using hSome)
  · intro texts hTexts
    exact (h texts (mem_filter.mp hTexts).1).lineFree

variable (config : LayoutConfig)

theorem labelLines_code {label : Text} (hLabel : label ≠ [] ∧ LineFree label) :
    ∀ line ∈ labelLines config label, line ≠ [] ∧ LineFree line := by
  unfold labelLines
  split
  · exact forall_mem_singleton.mpr hLabel
  · exact forall_mem_nil _

theorem isBlock_forwardLines {names : List Text} (h : ∀ name ∈ names, LineFree name) :
    IsBlock (labelLines config "// Structs" ++ forwardLines names) := by
  have hLabel : ("// Structs" : Text) ≠ [] ∧ LineFree "// Structs" := by simp
  have hLines :
      ∀ line ∈ labelLines config "// Structs" ++ names.map forwardLine,
        line ≠ [] ∧ LineFree line := by
    refine forall_mem_append.mpr ⟨labelLines_code config hLabel, ?_⟩
    refine forall_mem_map.mpr ?_
    intro name hName
    have hFree := h name hName
    show ("struct " ++ name ++ ";" : Text) ≠ [] ∧ LineFree ("struct " ++ name ++ ";")
    simp [hFree]
  unfold forwardLines
  by_cases hNames : names = []
  · rw [hNames] at hLines
    simpa [hNames] using isBlock_body hLines
  · have hSome : labelLines config "// Structs" ++ names.map forwardLine ≠ [] := by simp [hNames]
    simpa [hNames] using isBlock_spaced hSome hLines

/- Rows between an opening line and a closing one. -/
theorem isBlock_braced
    (width : Nat) {first last : Text} {rows : List Row} (hFirst : first ≠ [] ∧ LineFree first)
    (hRows : ∀ row ∈ rows, row.IsCode) (hLast : last ≠ [] ∧ LineFree last) :
    IsBlock (first :: rows.map (Row.line width) ++ closedBy last) := by
  have hLines :
      ∀ line ∈ first :: rows.map (Row.line width) ++ [last], line ≠ [] ∧ LineFree line := by
    refine forall_mem_append.mpr ⟨forall_mem_cons.mpr ⟨hFirst, ?_⟩, forall_mem_singleton.mpr hLast⟩
    exact forall_mem_map.mpr fun row hRow => (hRows row hRow).line width
  have hSome : first :: rows.map (Row.line width) ++ [last] ≠ [] := by simp
  simpa [closedBy] using isBlock_spaced hSome hLines

theorem isBlock_structLines (width : Nat) {struct : Struct} (h : lineFreeLexicon.HasStruct struct) :
    IsBlock (structLines width struct) := by
  have hName := lacks_break_iff.mp h.name
  apply isBlock_braced width
  · simp [hName]
  · refine forall_mem_map.mpr ?_
    intro field hField
    rcases h.fields field hField with ⟨hFieldName, hFieldType⟩
    have hText := lineFree_of_keeps (keeps_typedName hFieldType hFieldName)
    exact ⟨by simp [fieldRow], lineFree_append.mpr ⟨hText, by simp⟩⟩
  · simp

theorem Item.isBlock_lines (width : Nat) {item : Item} (h : lineFreeLexicon.HasItem item) :
    IsBlock (item.lines width) := by
  cases item with
  | function _ body? =>
    cases body? with
    | none => exact isBlock_body (forall_mem_nil _)
    | some body =>
      rcases h.of_append with ⟨hSignature, hBody⟩
      have hText := lineFree_of_keeps (Signature.keeps_text hSignature)
      apply isBlock_braced width
      · simp [Signature.headLine, hText]
      · exact isCode_stmtsRows 1 body hBody
      · simp
  | global =>
    rcases h.of_type with ⟨hType, hDeclarator⟩
    apply isBlock_body
    refine forall_mem_singleton.mpr ⟨?_, ?_⟩
    · simp [declarationText]
    · exact lineFree_of_keeps (keeps_declarationText hType hDeclarator)

theorem Item.has_signature?
    {lexicon : Lexicon} {item : Item} (h : lexicon.HasItem item) {signature : Signature}
    (hSignature : item.signature? = some signature) :
    lexicon.Has signature.texts signature.types := by
  cases item with
  | function _ body? =>
    cases hSignature
    cases body? with
    | none => exact h
    | some => exact h.of_append.1
  | global => cases hSignature

theorem isBlock_prototypeSection
    {signatures : List Signature}
    (h : ∀ signature ∈ signatures, lineFreeLexicon.Has signature.texts signature.types) :
    IsBlock (prototypeSection config signatures) := by
  have hLabel : ("// Functions" : Text) ≠ [] ∧ LineFree "// Functions" := by simp
  have hLines :
      ∀ line ∈ labelLines config "// Functions" ++ signatures.map Signature.prototype,
        line ≠ [] ∧ LineFree line := by
    refine forall_mem_append.mpr ⟨labelLines_code config hLabel, ?_⟩
    refine forall_mem_map.mpr ?_
    intro signature hSignature
    have hText := lineFree_of_keeps (Signature.keeps_text (h signature hSignature))
    simp [Signature.prototype, hText]
  unfold prototypeSection
  by_cases hSignatures : signatures = []
  · simpa [hSignatures] using isBlock_body (forall_mem_nil _)
  · have hSome : labelLines config "// Functions" ++ signatures.map Signature.prototype ≠ [] := by
      simp [hSignatures]
    simpa [hSignatures] using isBlock_spaced hSome hLines

-----
-- Files
-----

/- The sections of a file, cut where blank lines may stand. -/
def CodeFile.blocks (config : LayoutConfig) (unit : CodeFile) : List (List Text) :=
  let heading :=
    if unit.structs.isEmpty then
      []
    else
      labelLines config "// Structs" ++ forwardLines unit.forward
  heading :: unit.structs.map (structLines config.indentWidth) ++
    prototypeSection config unit.signatures ::
      unit.items.map (Item.lines config.indentWidth)

theorem CodeFile.flatten_blocks (unit : CodeFile) :
    (unit.blocks config).flatten = unit.sections config := by
  by_cases hStructs : unit.structs = []
  · simp [blocks, sections, structSection, hStructs, flatMap_def]
  · simp [blocks, sections, structSection, hStructs, flatMap_def]

/- The lines of the preamble, up to the blank line behind it. -/
def openingLines (config : LayoutConfig) : List Text :=
  lines (collapseBreaks 0 (preamble config ++ [';', '\n', '\n']))

theorem CodeFile.lines_text
    {unit : CodeFile} (hItems : ∀ item ∈ unit.items, lineFreeLexicon.HasItem item)
    (hStructs : ∀ struct ∈ unit.structs, lineFreeLexicon.HasStruct struct)
    (hForward : ∀ name ∈ unit.forward, LineFree name) :
    (unit.text config).lines = withoutLastBlank (openingLines config ++ unit.sections config) := by
  have hBlocks : ∀ block ∈ unit.blocks config, IsBlock block := by
    refine forall_mem_append.mpr ⟨forall_mem_cons.mpr ⟨?_, ?_⟩, forall_mem_cons.mpr ⟨?_, ?_⟩⟩
    · split
      · exact isBlock_body (forall_mem_nil _)
      · exact isBlock_forwardLines config hForward
    · exact forall_mem_map.mpr fun struct hStruct =>
        isBlock_structLines config.indentWidth (hStructs struct hStruct)
    · apply isBlock_prototypeSection
      intro signature hSignature
      rcases mem_filterMap.mp hSignature with ⟨item, hItem, hFound⟩
      exact Item.has_signature? (hItems item hItem) hFound
    · exact forall_mem_map.mpr fun item hItem =>
        Item.isBlock_lines config.indentWidth (hItems item hItem)
  have hLast : ';' ≠ '\n' := by simp
  rw [unit.text_eq, ← unit.flatten_blocks]
  exact lines_normalizeBlankLines_blocks _ hLast hBlocks

end Target

-----
-- Programs
-----

/- The types that a program declares have names as well. -/
theorem Lexicon.hasProgram_of_names
    {lexicon : Lexicon} (hTypes : ∀ name, lexicon.text name → lexicon.type ⟨name⟩)
    {program : Program} (h : ∀ part ∈ program.parts, ∀ name ∈ part.texts, lexicon.text name) :
    lexicon.HasProgram program := by
  refine ⟨h, ?_⟩
  intro name hName
  apply hTypes
  rcases mem_flatMap.mp hName with ⟨unit, hUnit, hDeclared⟩
  rcases mem_filterMap.mp hDeclared with ⟨stmt, hStmt, hType⟩
  have hUnitParts : EveryPart lexicon.HasPart (stmtsParts unit.statements) := by
    intro part hPart
    exact h part (mem_flatMap.mpr ⟨unit, hUnit, hPart⟩)
  have hStmtParts := everyPart_of_mem_stmts hUnitParts hStmt
  have hSelf : lexicon.HasPart (.stmt stmt) := (everyPart_stmt_parts.mp hStmtParts).1
  apply hSelf
  cases stmt with
  | interface | typeAlias =>
    cases hType
    exact mem_cons_self
  | _ => cases hType

theorem hasProgram_lineFree
    {program : Program} (h : ∀ part ∈ program.parts, ∀ name ∈ part.texts, LineFree name) :
    lineFreeLexicon.HasProgram program :=
  Lexicon.hasProgram_of_names (fun _ hName => hName)
    fun part hPart name hName => lacks_break_iff.mpr (h part hPart name hName)

/-
  The printed lines of a program without line breaks in its
  names and numbers are the sections that were written.
-/
theorem Compilation.lines_text
    {program : Program} (h : ∀ part ∈ program.parts, ∀ name ∈ part.texts, LineFree name)
    (run : Compilation program) (config : LayoutConfig) :
    (run.file.text config).lines =
      withoutLastBlank (Target.openingLines config ++ run.file.sections config) := by
  have hProgram := hasProgram_lineFree h
  apply Target.CodeFile.lines_text config (hProgram.items run) (hProgram.structs run)
  intro name hName
  rcases exists_of_mem_forwardDeclarations hName with ⟨struct, hStruct, rfl⟩
  exact lacks_break_iff.mp (hProgram.structs run struct hStruct).name

end ScriptLowering
