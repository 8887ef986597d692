import ScriptLowering.Proofs.TextLines
import ScriptLowering.Target.Printer

/-
  The printed C++ program, line by line. What is written onto
  a page piece by piece comes out as rows of code: each
  statement has its rows, which depend on nothing but its
  level of indentation, and the program has its sections one
  behind the other.

  Key theorems include:
    * `Target.CodeFile.write_sheet`
    * `Target.CodeFile.text_eq`
-/

namespace ScriptLowering

open List Page

-----
-- Rows
-----

/- A line of code and its level of indentation. -/
structure Row where
  level : Nat
  text : Text

def Row.line (width : Nat) (row : Row) : Text :=
  List.replicate (row.level * width) ' ' ++ row.text

@[simp] theorem Row.line_zero (width : Nat) (text : Text) :
    Row.line width ⟨0, text⟩ = text := by
  simp [Row.line]

namespace Target

mutual

/- The rows of a statement at a level of indentation. -/
def Stmt.rows (level : Nat) : Stmt → List Row
  | .block body =>
      ⟨level, "\x7b"⟩ :: stmtsRows (level + 1) body ++ [⟨level, "\x7d"⟩]
  | .branch condition body rest =>
      ⟨level, "if (" ++ condition.text ++ ") \x7b"⟩ ::
        stmtsRows (level + 1) body ++ rest.rows level
  | .whileLoop condition body =>
      ⟨level, "while (" ++ condition.text ++ ") \x7b"⟩ ::
        stmtsRows (level + 1) body ++ [⟨level, "\x7d"⟩]
  | .doLoop body condition =>
      ⟨level, "do \x7b"⟩ :: stmtsRows (level + 1) body ++
        [⟨level, "\x7d while (" ++ condition.text ++ ");"⟩]
  | .forLoop init condition? update? body =>
      ⟨level, "for (" ++ init.text ++ headerPart condition? ++ headerPart update? ++ ") \x7b"⟩ ::
        stmtsRows (level + 1) body ++ [⟨level, "\x7d"⟩]
  | .ret none => [⟨level, "return;"⟩]
  | .ret (some value) =>
      [⟨level, "return " ++ value.text ++ ";"⟩]
  | .expr value => [⟨level, value.text ++ ";"⟩]
  | .declare type declarator =>
      [⟨level, declarationText type declarator⟩]
  | .breakLoop => [⟨level, "break;"⟩]
  | .continueLoop => [⟨level, "continue;"⟩]

def stmtsRows (level : Nat) : List Stmt → List Row
  | [] => []
  | stmt :: rest => stmt.rows level ++ stmtsRows level rest

/- The rows from the closing brace of an `if` on. -/
def Else.rows (level : Nat) : Else → List Row
  | .none => [⟨level, "\x7d"⟩]
  | .body body =>
      ⟨level, "\x7d else \x7b"⟩ :: stmtsRows (level + 1) body ++ [⟨level, "\x7d"⟩]
  | .branch condition body rest =>
      ⟨level, "\x7d else if (" ++ condition.text ++ ") \x7b"⟩ ::
        stmtsRows (level + 1) body ++ rest.rows level

end

-----
-- Sections
-----

/- A function as it is announced. -/
def Signature.prototype (signature : Signature) : Text :=
  signature.text ++ ";"

/- The first line of a function's definition. -/
def Signature.headLine (signature : Signature) : Text :=
  signature.text ++ " \x7b"

/- A line that closes what was opened, and a blank line. -/
def closedBy (line : Text) : List Text :=
  [line, []]

/-
  The lines of a function or a variable: a definition with a
  blank line behind it, a line for a variable, and nothing
  for a function without a body.
-/
def Item.lines (width : Nat) : Item → List Text
  | .function signature (some body) =>
      signature.headLine :: (stmtsRows 1 body).map (Row.line width) ++ closedBy "\x7d"
  | .function _ none => []
  | .global type declarator => [declarationText type declarator]

def labelLines (config : LayoutConfig) (label : Text) : List Text :=
  if config.sectionComments then
    [label]
  else
    []

/- One line for each function, and a blank line behind them. -/
def prototypeSection (config : LayoutConfig) (signatures : List Signature) : List Text :=
  if signatures.isEmpty then
    []
  else
    labelLines config "// Functions" ++ signatures.map Signature.prototype ++ [[]]

def fieldRow (field : Text × TypeName) : Row :=
  ⟨1, field.2.render ++ " " ++ field.1 ++ ";"⟩

def structLines (width : Nat) (struct : Struct) : List Text :=
  ("struct " ++ struct.name ++ " \x7b") ::
    (struct.fields.map fieldRow).map (Row.line width) ++ closedBy "\x7d;"

def forwardLine (name : Text) : Text :=
  "struct " ++ name ++ ";"

def forwardLines (names : List Text) : List Text :=
  if names.isEmpty then
    []
  else
    names.map forwardLine ++ [[]]

def CodeFile.structSection (config : LayoutConfig) (unit : CodeFile) : List Text :=
  if unit.structs.isEmpty then
    []
  else
    labelLines config "// Structs" ++ forwardLines unit.forward ++
      unit.structs.flatMap (structLines config.indentWidth)

/- The first lines, up to the line before the blank one. -/
def preamble (config : LayoutConfig) : Text :=
  "#include <" ++ config.header ++ ">\nusing namespace " ++ config.namespaceName

end Target

-----
-- Sheets
-----

/-
  Lines behind those that a page has where it is written to,
  and the line still open.
-/
def sheet (base : Page) (done : List Text) (openLine : Text) (level : Nat) : Page :=
  base.update fun buffer =>
    ⟨(done.map Segment.line).reverse ++ buffer.latest, openLine, level⟩

section Sheet

variable {base : Page} {level : Nat} {done : List Text} {openLine : Text}

theorem lines_sheet (width : Nat) :
    (sheet (empty width) done [] level).lines = done := by
  have hRun :
      (sheet (empty width) done [] level).lines =
        (((done.map Segment.line).reverse ++ []).reverse ++ []).filterMap Segment.line? :=
    rfl
  rw [hRun, append_nil, append_nil, reverse_reverse, filterMap_map]
  exact filterMap_some

theorem write_sheet_start {text : Text} (hText : text ≠ []) :
    (sheet base done [] level).write text =
      sheet base done (Row.line base.width ⟨level, text⟩) level := by
  simp [sheet, write, update, target, Function.comp_def, modify_modify_eq, Buffer.write,
    Row.line, hText]

theorem write_sheet_more (hOpen : openLine ≠ []) (text : Text) :
    (sheet base done openLine level).write text = sheet base done (openLine ++ text) level := by
  by_cases hText : text = []
  · simp [sheet, write, update, target, Function.comp_def, modify_modify_eq, Buffer.write, hText]
  · simp [sheet, write, update, target, Function.comp_def, modify_modify_eq, Buffer.write,
      hText, hOpen]

@[simp] theorem endLine_sheet :
    (sheet base done openLine level).endLine = sheet base (done ++ [openLine]) [] level := by
  simp [sheet, endLine, update, target, Function.comp_def, modify_modify_eq, Buffer.endLine]

@[simp] theorem indent_sheet :
    (sheet base done openLine level).indent = sheet base done openLine (level + 1) := by
  simp [sheet, indent, update, target, Function.comp_def, modify_modify_eq, Buffer.indent]

@[simp] theorem dedent_sheet :
    (sheet base done openLine (level + 1)).dedent = sheet base done openLine level := by
  simp [sheet, dedent, update, target, Function.comp_def, modify_modify_eq, Buffer.dedent]

theorem writeLine_sheet {text : Text} (hText : text ≠ []) :
    (sheet base done [] level).writeLine text =
      sheet base (done ++ [Row.line base.width ⟨level, text⟩]) []
        level := by
  rw [writeLine, write_sheet_start hText, endLine_sheet]

/- Whole lines of a level, one behind the other. -/
theorem writeLines_sheet {texts : List Text} (hTexts : ∀ text ∈ texts, text ≠ []) :
    Target.writeLines texts (sheet base done [] level) =
      sheet base (done ++ texts.map fun text => Row.line base.width ⟨level, text⟩) [] level := by
  induction texts generalizing done with
  | nil => simp [Target.writeLines]
  | cons text rest ih =>
    rcases forall_mem_cons.mp hTexts with ⟨hText, hRest⟩
    have hFold :
        Target.writeLines (text :: rest) (sheet base done [] level) =
          Target.writeLines rest ((sheet base done [] level).writeLine text) :=
      rfl
    rw [hFold, writeLine_sheet hText, ih hRest]
    simp

end Sheet

-----
-- Statements
-----

namespace Target

section Statements

variable {base : Page} {level : Nat} {done : List Text}

/- A body in braces, with its closing brace on the open line. -/
theorem writeBraced_sheet
    {page : Page} {first : Text} {body : List Stmt}
    (hOpen : page.writeLine "\x7b" = sheet base (done ++ [first]) [] level)
    (hBody :
      writeStmts body (sheet base (done ++ [first]) [] (level + 1)) =
        sheet base (done ++ [first] ++ (stmtsRows (level + 1) body).map (Row.line base.width))
          [] (level + 1)) :
    writeBraced (writeStmts body) page = sheet base (done ++ first ::
          (stmtsRows (level + 1) body).map (Row.line base.width))
        (Row.line base.width ⟨level, ['}']⟩) level := by
  have hClosing : ("\x7d" : Text) ≠ [] := cons_ne_nil _ _
  rw [writeBraced, hOpen, indent_sheet, hBody, dedent_sheet,
    write_sheet_start hClosing, append_assoc]
  rfl

/- A heading with an opening brace behind it. -/
theorem writeLine_heading {heading : Text} (hHeading : heading ≠ []) :
    ((sheet base done [] level).write heading).writeLine "\x7b" =
      sheet base (done ++ [Row.line base.width ⟨level, heading ++ "\x7b"⟩]) []
        level := by
  have hOpen : Row.line base.width ⟨level, heading⟩ ≠ [] := by simp [Row.line, hHeading]
  rw [write_sheet_start hHeading, writeLine, write_sheet_more hOpen, endLine_sheet]
  simp [Row.line]

theorem writeBraced_heading
    {heading : Text} (hHeading : heading ≠ []) {body : List Stmt}
    (hBody :
      ∀ done,
        writeStmts body (sheet base done [] (level + 1)) =
          sheet base (done ++ (stmtsRows (level + 1) body).map (Row.line base.width))
            [] (level + 1)) :
    writeBraced (writeStmts body) ((sheet base done [] level).write heading) =
      sheet base (done ++ Row.line base.width ⟨level, heading ++ "\x7b"⟩ ::
          (stmtsRows (level + 1) body).map (Row.line base.width))
        (Row.line base.width ⟨level, ['}']⟩) level :=
  writeBraced_sheet (writeLine_heading hHeading) (hBody _)

/- The closing brace may have more text behind it. -/
theorem write_closing (text : Text) :
    (sheet base done (Row.line base.width ⟨level, ['}']⟩) level).write text =
      sheet base done (Row.line base.width ⟨level, '}' :: text⟩)
        level := by
  have hOpen : Row.line base.width ⟨level, ['}']⟩ ≠ [] := by simp [Row.line]
  rw [write_sheet_more hOpen]
  simp [Row.line]

/- A further branch starts behind the closing brace. -/
theorem writeBraced_closing
    (text : Text) {body : List Stmt}
    (hBody :
      ∀ done,
        writeStmts body (sheet base done [] (level + 1)) =
          sheet base (done ++ (stmtsRows (level + 1) body).map (Row.line base.width))
            [] (level + 1)) :
    writeBraced (writeStmts body)
        ((sheet base done (Row.line base.width ⟨level, ['}']⟩) level).write text) =
      sheet base (done ++ Row.line base.width ⟨level, '}' :: (text ++ ['{'])⟩ ::
            (stmtsRows (level + 1) body).map (Row.line base.width))
        (Row.line base.width ⟨level, ['}']⟩) level := by
  rw [write_closing]
  refine writeBraced_sheet ?_ (hBody _)
  have hOpen : Row.line base.width ⟨level, '}' :: text⟩ ≠ [] := by simp [Row.line]
  rw [writeLine, write_sheet_more hOpen, endLine_sheet]
  simp [Row.line]

end Statements

mutual

/- A statement adds its rows to the lines of the page. -/
theorem Stmt.write_sheet {base : Page} {level : Nat} {done : List Text} (stmt : Stmt) :
    stmt.write (sheet base done [] level) =
      sheet base (done ++ (stmt.rows level).map (Row.line base.width)) []
        level := by
  cases stmt with
  | block body =>
    have hOpen :
        (sheet base done [] level).writeLine "\x7b" =
          sheet base (done ++ [Row.line base.width ⟨level, "\x7b"⟩]) [] level :=
      writeLine_sheet (cons_ne_nil _ _)
    have hBraced := writeBraced_sheet hOpen (writeStmts_sheet body)
    simp [Stmt.write, Stmt.rows, hBraced]
  | branch _ body rest =>
    simp [Stmt.write, Stmt.rows, writeBraced_heading, writeStmts_sheet body, rest.write_sheet]
  | whileLoop _ body | forLoop _ _ _ body =>
    simp [Stmt.write, Stmt.rows, writeBraced_heading, writeStmts_sheet body]
  | doLoop body =>
    simp [Stmt.write, Stmt.rows, writeBraced_heading,
      writeStmts_sheet body, writeLine, write_closing]
  | ret value? =>
    cases value? with
    | none | some => simp [Stmt.write, Stmt.rows, writeLine_sheet]
  | expr | breakLoop | continueLoop => simp [Stmt.write, Stmt.rows, writeLine_sheet]
  | declare => simp [Stmt.write, Stmt.rows, declarationText, writeLine_sheet]

theorem writeStmts_sheet {base : Page} {level : Nat} {done : List Text} (stmts : List Stmt) :
    writeStmts stmts (sheet base done [] level) =
      sheet base (done ++ (stmtsRows level stmts).map (Row.line base.width)) []
        level := by
  cases stmts with
  | nil => simp [writeStmts, stmtsRows]
  | cons stmt rest =>
    simp only [writeStmts, stmt.write_sheet, writeStmts_sheet rest]
    simp [stmtsRows]

/- What follows the body of an `if` ends the open line. -/
theorem Else.write_sheet {base : Page} {level : Nat} {done : List Text} (rest : Else) :
    (rest.write (sheet base done (Row.line base.width ⟨level, ['}']⟩) level)).endLine =
      sheet base (done ++ (rest.rows level).map (Row.line base.width)) []
        level := by
  cases rest with
  | none => simp [Else.write, Else.rows]
  | body body =>
    simp only [Else.write, writeBraced_closing _ fun _ => writeStmts_sheet body]
    simp [Else.rows]
  | branch _ body rest =>
    simp only [Else.write, writeBraced_closing _ fun _ => writeStmts_sheet body, rest.write_sheet]
    simp [Else.rows]

end

-----
-- Files
-----

section Files

variable {base : Page} {done : List Text} {config : LayoutConfig}

theorem Item.write_sheet (item : Item) :
    item.write (sheet base done [] 0) = sheet base (done ++ item.lines base.width) [] 0 := by
  cases item with
  | function _ body? =>
    cases body? with
    | none => simp [Item.write, Item.lines]
    | some body =>
      simp [Item.write, Item.lines, writeBraced_heading,
        writeStmts_sheet body, Signature.headLine, closedBy]
  | global => simp [Item.write, Item.lines, declarationText, writeLine_sheet]

theorem writeItems_sheet (items : List Item) :
    writeItems items (sheet base done [] 0) =
      sheet base (done ++ items.flatMap (Item.lines base.width)) [] 0 := by
  induction items generalizing done with
  | nil => simp [writeItems]
  | cons item rest ih =>
    have hFold :
        writeItems (item :: rest) (sheet base done [] 0) =
          writeItems rest (item.write (sheet base done [] 0)) :=
      rfl
    rw [hFold, item.write_sheet, ih]
    simp

theorem writeStruct_sheet (struct : Struct) :
    writeStruct struct (sheet base done [] 0) =
      sheet base (done ++ structLines base.width struct) [] 0 := by
  have hFields : ∀ text ∈ (struct.fields.map fieldRow).map Row.text, text ≠ [] := by
    intro text hText
    rcases mem_map.mp hText with ⟨_, hRow, rfl⟩
    rcases mem_map.mp hRow with ⟨field, _, rfl⟩
    simp [fieldRow]
  have hWritten :
      (struct.fields.map fun field => (field.2.render ++ " " ++ field.1 ++ ";" : Text)) =
        (struct.fields.map fieldRow).map Row.text := by
    simp [fieldRow, Function.comp_def]
  have hOpened :
      ((sheet base done [] 0).writeLine ("struct " ++ struct.name ++ " \x7b")).indent =
        sheet base (done ++ [("struct " ++ struct.name ++ " \x7b" : Text)]) []
          1 := by
    rw [writeLine_sheet (by simp), indent_sheet, Row.line_zero]
  have hClosing : ("\x7d;" : Text) ≠ [] := by simp
  simp only [writeStruct, hWritten, hOpened, writeLines_sheet hFields,
    dedent_sheet, writeLine_sheet hClosing, endLine_sheet]
  simp [structLines, closedBy, fieldRow, Function.comp_def]

theorem writeStructs_sheet (structs : List Struct) :
    structs.foldl (fun page struct => writeStruct struct page) (sheet base done [] 0) =
      sheet base (done ++ structs.flatMap (structLines base.width)) []
        0 := by
  induction structs generalizing done with
  | nil => simp
  | cons _ _ ih =>
    rw [foldl_cons, writeStruct_sheet, ih]
    simp

theorem writeLabel_sheet (config : LayoutConfig) {label : Text} (hLabel : label ≠ []) :
    writeLabel config label (sheet base done [] 0) =
      sheet base (done ++ labelLines config label) [] 0 := by
  unfold writeLabel labelLines
  by_cases hComments : config.sectionComments = true
  · simp [hComments, writeLine_sheet hLabel]
  · simp [hComments]

theorem writeForward_sheet (names : List Text) :
    writeForward names (sheet base done [] 0) = sheet base (done ++ forwardLines names) [] 0 := by
  have hLines : ∀ text ∈ names.map forwardLine, text ≠ [] := by
    intro text hText
    rcases mem_map.mp hText with ⟨name, _, rfl⟩
    show ("struct " ++ name ++ ";" : Text) ≠ []
    simp
  unfold writeForward forwardLines
  by_cases hNames : names.isEmpty = true
  · rw [if_pos hNames, if_pos hNames, append_nil]
  · rw [if_neg hNames, if_neg hNames]
    show (writeLines (names.map forwardLine) (sheet base done [] 0)).endLine = _
    rw [writeLines_sheet hLines, endLine_sheet]
    simp only [Row.line_zero, map_id', append_assoc]

theorem writeStructSection_sheet (hWidth : base.width = config.indentWidth) (unit : CodeFile) :
    writeStructSection config unit (sheet base done [] 0) =
      sheet base (done ++ unit.structSection config) []
        0 := by
  unfold writeStructSection CodeFile.structSection
  by_cases hStructs : unit.structs.isEmpty = true
  · rw [if_pos hStructs, if_pos hStructs, append_nil]
  · have hLabel : ("// Structs" : Text) ≠ [] := by simp
    rw [if_neg hStructs, if_neg hStructs, writeLabel_sheet config hLabel, writeForward_sheet,
      writeStructs_sheet, hWidth]
    simp only [append_assoc]

theorem writePrototypeSection_sheet (unit : CodeFile) :
    writePrototypeSection config unit (sheet base done [] 0) =
      sheet base (done ++ prototypeSection config unit.signatures) [] 0 := by
  have hLines : ∀ text ∈ unit.signatures.map Signature.prototype, text ≠ [] := by
    intro text hText
    rcases mem_map.mp hText with ⟨_, _, rfl⟩
    simp [Signature.prototype]
  unfold writePrototypeSection prototypeSection
  by_cases hSignatures : unit.signatures.isEmpty = true
  · rw [if_pos hSignatures, if_pos hSignatures, append_nil]
  · have hLabel : ("// Functions" : Text) ≠ [] := by simp
    rw [if_neg hSignatures, if_neg hSignatures, writeLabel_sheet config hLabel]
    show (writeLines (unit.signatures.map Signature.prototype) _).endLine = _
    rw [writeLines_sheet hLines, endLine_sheet]
    simp only [Row.line_zero, map_id', append_assoc]

end Files

/- All lines behind the preamble. -/
def CodeFile.sections (config : LayoutConfig) (unit : CodeFile) : List Text :=
  unit.structSection config ++ prototypeSection config unit.signatures ++
    unit.items.flatMap (Item.lines config.indentWidth)

theorem writePreamble_sheet (base : Page) :
    writePreamble config (sheet base [] [] 0) =
      sheet base
        [("#include <" ++ config.header ++ ">" : Text),
          "using namespace " ++ config.namespaceName ++ ";", []]
        [] 0 := by
  rw [writePreamble, writeLine_sheet (by simp), writeLine_sheet (by simp), endLine_sheet]
  simp

/- The sections stand behind the preamble and a blank line. -/
theorem CodeFile.write_sheet (config : LayoutConfig) (unit : CodeFile) :
    unit.write config (empty config.indentWidth) =
      sheet (empty config.indentWidth) (("#include <" ++ config.header ++ ">") ::
          ("using namespace " ++ config.namespaceName ++ ";") :: [] ::
            unit.sections config)
        [] 0 := by
  have hPreamble : writePreamble config (empty config.indentWidth) = _ :=
    writePreamble_sheet (empty config.indentWidth)
  rw [CodeFile.write, hPreamble, writeStructSection_sheet rfl,
    writePrototypeSection_sheet, writeItems_sheet]
  simp [CodeFile.sections, empty]

/- The text before blank lines are looked at. -/
theorem CodeFile.text_eq (config : LayoutConfig) (unit : CodeFile) :
    unit.text config = Text.normalizeBlankLines (preamble config ++ ';' :: '\n' :: '\n' ::
          Text.unlines (unit.sections config)) := by
  rw [CodeFile.text, unit.write_sheet, finish, rawText, lines_sheet]
  have hPreamble :
      preamble config =
        "#include <" ++ config.header ++ ">\nusing namespace " ++ config.namespaceName :=
    rfl
  congr 1
  simp [hPreamble, Text.unlines]

end Target

end ScriptLowering
