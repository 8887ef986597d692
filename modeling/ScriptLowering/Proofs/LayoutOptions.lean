import ScriptLowering.Proofs.LineBreaks

/-
  What the layout options change. The lines of a printed
  program are rows, and which rows there are depends on the
  labels only. The width of indentation goes into the blanks
  in front of a row and nowhere else. No other row reads like
  a label, so the labels can be taken out again.

  Key theorems include:
    * `Target.CodeFile.filter_sections`
    * `layout_options_change_layout_only`
-/

namespace ScriptLowering

open List

namespace Text

-----
-- Texts Without Indentation
-----

/- Leave out the spaces up to the first other character of a line. -/
def unindentFrom (atStart : Bool) : Text → Text
  | [] => []
  | c :: rest =>
      if c = '\n' then
        c :: unindentFrom true rest
      else if atStart && c == ' ' then
        unindentFrom true rest
      else
        c :: unindentFrom false rest

/- The text without the spaces that its lines start with. -/
def unindented (text : Text) : Text :=
  unindentFrom true text

/- The text without those of its lines that are in a list. -/
def withoutLines (dropped : List Text) (text : Text) : Text :=
  unlines (text.lines.filter fun line => !dropped.contains line)

/- A line without the spaces that it starts with. -/
def dropSpaces (line : Text) : Text :=
  line.dropWhile (· == ' ')

variable {line : Text}

/- Behind the start of a line all characters are kept. -/
theorem unindentFrom_false_line (h : LineFree line) (rest : Text) :
    unindentFrom false (line ++ '\n' :: rest) = line ++ '\n' :: unindentFrom true rest := by
  induction line with
  | nil => simp [unindentFrom]
  | cons _ _ ih =>
    rcases lineFree_cons.mp h with ⟨hChar, hMore⟩
    simp [unindentFrom, hChar, ih hMore]

theorem unindentFrom_true_line (h : LineFree line) (rest : Text) :
    unindentFrom true (line ++ '\n' :: rest) =
      line.dropSpaces ++ '\n' :: unindentFrom true rest := by
  induction line with
  | nil => simp [unindentFrom, dropSpaces]
  | cons c _ ih =>
    rcases lineFree_cons.mp h with ⟨hChar, hMore⟩
    by_cases hSpace : c = ' '
    · subst hSpace
      rw [cons_append, unindentFrom, if_neg hChar, if_pos (by simp), ih hMore]
      simp [dropSpaces]
    · have hKept := unindentFrom_false_line hMore rest
      simp [unindentFrom, dropSpaces, hChar, hSpace, hKept]

theorem unindented_unlines {texts : List Text} (h : ∀ line ∈ texts, LineFree line) :
    unindented (unlines texts) = unlines (texts.map dropSpaces) := by
  unfold unindented
  induction texts with
  | nil => rfl
  | cons _ _ ih =>
    rcases forall_mem_cons.mp h with ⟨hLine, hRest⟩
    rw [unlines_cons, unindentFrom_true_line hLine, ih hRest, map_cons, unlines_cons]

theorem lineFree_of_mem_lines {text : Text} (h : line ∈ lines text) :
    LineFree line := by
  induction text generalizing line with
  | nil => cases h
  | cons c rest ih =>
    by_cases hBreak : c = '\n'
    · rw [hBreak, lines_cons_break] at h
      rcases mem_cons.mp h with rfl | hRest
      · exact lineFree_nil
      · exact ih hRest
    · cases hLines : lines rest with
      | nil =>
        simp only [lines, if_neg hBreak, hLines, mem_singleton] at h
        rw [h]
        exact lineFree_cons.mpr ⟨hBreak, lineFree_nil⟩
      | cons =>
        rw [lines_cons_of_eq_cons hBreak hLines] at h
        rcases mem_cons.mp h with rfl | hMore
        · exact lineFree_cons.mpr ⟨hBreak, ih (hLines ▸ mem_cons_self)⟩
        · exact ih (hLines ▸ mem_cons_of_mem _ hMore)

/- A text that ends with a line break consists of its lines. -/
theorem unlines_lines (front : Text) :
    unlines (lines (front ++ ['\n'])) = front ++ ['\n'] := by
  induction front with
  | nil => rfl
  | cons c rest ih =>
    by_cases hBreak : c = '\n'
    · subst hBreak
      rw [cons_append, lines_cons_break, unlines_cons, ih]
      rfl
    · rcases exists_lines_append_break rest [] with ⟨line, _, hLines, _⟩
      rw [hLines, unlines_cons] at ih
      rw [cons_append, lines_cons_of_eq_cons hBreak hLines, unlines_cons, cons_append, ih]

-----
-- Lines That Are Taken Out
-----

/- The blank line at the end stays apart from what is taken out. -/
theorem filter_withoutLastBlank
    {keep : Text → Bool} {front : List Text} {last : Text} (hLast : keep last = true) :
    (withoutLastBlank (front ++ [last])).filter keep =
      withoutLastBlank ((front ++ [last]).filter keep) := by
  have hFilter : (front ++ [last]).filter keep = front.filter keep ++ [last] := by simp [hLast]
  rw [hFilter]
  by_cases hBlank : last = []
  · simp [withoutLastBlank, hBlank]
  · simp [withoutLastBlank, hBlank, hLast]

theorem count_withoutLastBlank (hLine : line ≠ []) (texts : List Text) :
    (withoutLastBlank texts).count line = texts.count line := by
  rcases eq_nil_or_concat texts with rfl | ⟨_, last, rfl⟩
  · simp [withoutLastBlank]
  · by_cases hBlank : last = []
    · subst hBlank
      simp [withoutLastBlank, count_append, hLine.symm]
    · simp [withoutLastBlank, hBlank]

end Text

open Text

-----
-- Rows
-----

/- A blank line, or one that ends like code. -/
def IsPlain (line : Text) : Prop :=
  line = [] ∨ line.endsCode = true

variable {row : Row}

theorem Row.dropSpaces_line (width : Nat) (row : Row) :
    (row.line width).dropSpaces = row.text.dropSpaces := by
  unfold Row.line dropSpaces
  apply dropWhile_append_of_pos
  intro c hChar
  simp [eq_of_mem_replicate hChar]

/- A blank row at the margin, or one that ends like code. -/
def Row.IsPlain (row : Row) : Prop :=
  row = ⟨0, []⟩ ∨ row.text.endsCode = true

theorem Row.IsPlain.line {row : Row} (h : row.IsPlain) (width : Nat) :
    ScriptLowering.IsPlain (row.line width) := by
  rcases h with rfl | hEnds
  · exact .inl (Row.line_zero width [])
  · exact .inr (endsCode_append _ hEnds)

/- A row at the margin, or one with code on it. -/
def Row.IsSteady (row : Row) : Prop :=
  row.level = 0 ∨ row.text ≠ []

theorem Row.IsPlain.isSteady (h : row.IsPlain) :
    row.IsSteady := by
  rcases h with rfl | hEnds
  · exact .inl rfl
  · refine .inr ?_
    intro hBlank
    rw [hBlank] at hEnds
    cases hEnds

theorem Row.IsSteady.line_eq_nil_iff (h : row.IsSteady) (width : Nat) :
    row.line width = [] ↔ row.text = [] := by
  rcases h with hLevel | hText
  · simp [Row.line, hLevel]
  · simp [Row.line, hText]

/- Which line is last does not depend on the width. -/
theorem withoutLastBlank_rows
    {rows : List Row} (h : ∀ row ∈ rows, row.IsSteady) (first second : Nat) :
    (withoutLastBlank (rows.map (Row.line first))).map dropSpaces =
      (withoutLastBlank (rows.map (Row.line second))).map
        dropSpaces := by
  rcases eq_nil_or_concat rows with rfl | ⟨_, last, rfl⟩
  · rfl
  · have hLast := h last (by simp)
    have hSame := Row.dropSpaces_line first last
    by_cases hBlank : last.text = []
    · have hFirst := (hLast.line_eq_nil_iff first).mpr hBlank
      have hSecond := (hLast.line_eq_nil_iff second).mpr hBlank
      simp [withoutLastBlank, hFirst, hSecond, Row.dropSpaces_line, Function.comp_def]
    · have hFirst := mt (hLast.line_eq_nil_iff first).mp hBlank
      have hSecond := mt (hLast.line_eq_nil_iff second).mp hBlank
      simp [withoutLastBlank, hFirst, hSecond, Row.dropSpaces_line, Function.comp_def]

-----
-- Rows Of A File
-----

namespace Target

/- Lines at the margin. -/
def marginRows (lines : List Text) : List Row :=
  lines.map (Row.mk 0)

theorem map_line_marginRows (width : Nat) (lines : List Text) :
    (marginRows lines).map (Row.line width) = lines := by
  simp [marginRows, Function.comp_def]

def structRows (struct : Struct) : List Row :=
  marginRows ["struct " ++ struct.name ++ " \x7b"] ++
    struct.fields.map fieldRow ++ marginRows (closedBy "\x7d;")

def Item.rows : Item → List Row
  | .function signature (some body) =>
      marginRows [signature.headLine] ++ stmtsRows 1 body ++ marginRows (closedBy "\x7d")
  | .function _ none => []
  | .global type declarator =>
      marginRows [declarationText type declarator]

/- The rows behind the preamble. -/
def CodeFile.sectionRows (config : LayoutConfig) (unit : CodeFile) : List Row :=
  let structs :=
    if unit.structs.isEmpty then
      []
    else
      marginRows (labelLines config "// Structs" ++ forwardLines unit.forward) ++
        unit.structs.flatMap structRows
  structs ++ marginRows (prototypeSection config unit.signatures) ++ unit.items.flatMap Item.rows

theorem structLines_eq_rows (width : Nat) (struct : Struct) :
    structLines width struct = (structRows struct).map (Row.line width) := by
  simp [structLines, structRows, map_line_marginRows]

theorem Item.lines_eq_rows (width : Nat) (item : Item) :
    item.lines width = item.rows.map (Row.line width) := by
  cases item with
  | function _ body? =>
    cases body? with
    | none => rfl
    | some => simp [Item.lines, Item.rows, map_line_marginRows]
  | global => simp [Item.lines, Item.rows, map_line_marginRows]

theorem CodeFile.sections_eq_rows (config : LayoutConfig) (unit : CodeFile) :
    unit.sections config = (unit.sectionRows config).map (Row.line config.indentWidth) := by
  have hStructs :
      unit.structs.flatMap (structLines config.indentWidth) =
        (unit.structs.flatMap structRows).map (Row.line config.indentWidth) := by
    rw [map_flatMap]
    exact congrArg unit.structs.flatMap (funext (structLines_eq_rows _))
  have hItems :
      unit.items.flatMap (Item.lines config.indentWidth) =
        (unit.items.flatMap Item.rows).map (Row.line config.indentWidth) := by
    rw [map_flatMap]
    exact congrArg unit.items.flatMap (funext (Item.lines_eq_rows _))
  unfold sections structSection sectionRows
  by_cases hEmpty : unit.structs.isEmpty = true
  · simp only [if_pos hEmpty, hItems, map_append, map_line_marginRows, map_nil]
  · simp only [if_neg hEmpty, hStructs, hItems, map_append, map_line_marginRows]

/- The labels are all that the rows depend on. -/
theorem CodeFile.sectionRows_congr
    {first second : LayoutConfig} (h : first.sectionComments = second.sectionComments)
    (unit : CodeFile) :
    unit.sectionRows first = unit.sectionRows second := by
  simp only [sectionRows, prototypeSection, labelLines, h]

theorem isSteady_marginRows (lines : List Text) :
    ∀ row ∈ marginRows lines, row.IsSteady :=
  forall_mem_map.mpr fun _ _ => .inl rfl

variable {config : LayoutConfig} {lines : List Text} {label : Text}

theorem isPlain_marginRows (h : ∀ line ∈ lines, IsPlain line) :
    ∀ row ∈ marginRows lines, row.IsPlain := by
  refine forall_mem_map.mpr ?_
  intro line hLine
  rcases h line hLine with rfl | hEnds
  · exact .inl rfl
  · exact .inr hEnds

/- Rows between an opening line and a closing one. -/
theorem isPlain_bracedRows
    {first last : Text} {rows : List Row} (hFirst : first.endsCode = true)
    (hRows : ∀ row ∈ rows, row.text.endsCode = true) (hLast : last.endsCode = true) :
    ∀ row ∈ marginRows [first] ++ rows ++ marginRows (closedBy last), row.IsPlain := by
  refine forall_mem_append.mpr ⟨forall_mem_append.mpr ⟨?_, ?_⟩, ?_⟩
  · exact isPlain_marginRows (forall_mem_singleton.mpr (.inr hFirst))
  · intro row hRow
    exact .inr (hRows row hRow)
  · exact isPlain_marginRows (forall_mem_cons.mpr ⟨.inr hLast, forall_mem_singleton.mpr (.inl rfl)⟩)

theorem isPlain_structRows (struct : Struct) :
    ∀ row ∈ structRows struct, row.IsPlain := by
  apply isPlain_bracedRows (endsCode_append _ rfl) _ rfl
  refine forall_mem_map.mpr ?_
  intro field _
  exact endsCode_append _ rfl

theorem Item.isPlain_rows (item : Item) :
    ∀ row ∈ item.rows, row.IsPlain := by
  cases item with
  | function _ body? =>
    cases body? with
    | none => exact forall_mem_nil _
    | some body => exact isPlain_bracedRows (endsCode_append _ rfl) (endsCode_stmtsRows 1 body) rfl
  | global => exact isPlain_marginRows (forall_mem_singleton.mpr (.inr (endsCode_append _ rfl)))

theorem CodeFile.isSteady_sectionRows (config : LayoutConfig) (unit : CodeFile) :
    ∀ row ∈ unit.sectionRows config, row.IsSteady := by
  refine forall_mem_append.mpr ⟨forall_mem_append.mpr ⟨?_, isSteady_marginRows _⟩, ?_⟩
  · split
    · exact forall_mem_nil _
    · refine forall_mem_append.mpr ⟨isSteady_marginRows _, ?_⟩
      exact forall_mem_flatMap.mpr fun struct _ row hRow =>
        (isPlain_structRows struct row hRow).isSteady
  · exact forall_mem_flatMap.mpr fun item _ row hRow => (item.isPlain_rows row hRow).isSteady

-----
-- Labels
-----

/- The lines that are written above the sections. -/
def sectionLabels : List Text :=
  ["// Structs", "// Functions"]

/- Whether a line is none of the labels. -/
def isUnlabelled (line : Text) : Bool :=
  !sectionLabels.contains line

theorem isUnlabelled_of_isPlain {line : Text} (h : IsPlain line) :
    isUnlabelled line = true := by
  have hLabels : ∀ label ∈ sectionLabels, label ≠ [] ∧ label.endsCode = false := by decide
  cases hKept : isUnlabelled line with
  | true => rfl
  | false =>
    have hMem : line ∈ sectionLabels := by simpa [isUnlabelled] using hKept
    rcases hLabels line hMem with ⟨hSome, hEnd⟩
    rcases h with hBlank | hEnds
    · exact absurd hBlank hSome
    · rw [hEnd] at hEnds
      cases hEnds

theorem filter_isPlain (h : ∀ line ∈ lines, IsPlain line) :
    lines.filter isUnlabelled = lines :=
  filter_eq_self.mpr fun line hLine => isUnlabelled_of_isPlain (h line hLine)

theorem isPlain_forwardLines (names : List Text) :
    ∀ line ∈ forwardLines names, IsPlain line := by
  unfold forwardLines
  split
  · exact forall_mem_nil _
  · refine forall_mem_append.mpr ⟨forall_mem_map.mpr ?_, forall_mem_singleton.mpr (.inl rfl)⟩
    intro name _
    exact Or.inr (endsCode_append ("struct " ++ name) rfl)

theorem isPlain_structLines (width : Nat) (struct : Struct) :
    ∀ line ∈ structLines width struct, IsPlain line := by
  rw [structLines_eq_rows]
  exact forall_mem_map.mpr fun row hRow => (isPlain_structRows struct row hRow).line width

theorem isPlain_prototypes (signatures : List Signature) :
    ∀ line ∈ signatures.map Signature.prototype ++ [[]], IsPlain line := by
  refine forall_mem_append.mpr ⟨forall_mem_map.mpr ?_, forall_mem_singleton.mpr (.inl rfl)⟩
  intro signature _
  exact .inr (endsCode_append _ rfl)

theorem Item.isPlain_lines (width : Nat) (item : Item) :
    ∀ line ∈ item.lines width, IsPlain line := by
  rw [item.lines_eq_rows]
  exact forall_mem_map.mpr fun row hRow => (item.isPlain_rows row hRow).line width

/- A label is in its own place only. -/
theorem filter_labelLines (config : LayoutConfig) (h : label ∈ sectionLabels) :
    (labelLines config label).filter isUnlabelled = [] := by
  unfold labelLines
  split
  · simp [isUnlabelled, h]
  · rfl

variable {α : Type} {entries : List α}

/- Some lines under their label, where there are any. -/
def underLabel
    (config : LayoutConfig) (label : Text) (entries : List α) (lines : List Text) : List Text :=
  if entries.isEmpty then [] else labelLines config label ++ lines

/- The structs and what is declared in front of them. -/
def CodeFile.structBlock (width : Nat) (unit : CodeFile) : List Text :=
  forwardLines unit.forward ++ unit.structs.flatMap (structLines width)

theorem CodeFile.structSection_eq (config : LayoutConfig) (unit : CodeFile) :
    unit.structSection config =
      underLabel config "// Structs" unit.structs (unit.structBlock config.indentWidth) := by
  rw [structSection, append_assoc]
  rfl

theorem prototypeSection_eq (config : LayoutConfig) (signatures : List Signature) :
    prototypeSection config signatures =
      underLabel config "// Functions" signatures (signatures.map Signature.prototype ++ [[]]) := by
  rw [prototypeSection, append_assoc]
  rfl

theorem CodeFile.isPlain_structBlock (width : Nat) (unit : CodeFile) :
    ∀ line ∈ unit.structBlock width, IsPlain line :=
  forall_mem_append.mpr
    ⟨isPlain_forwardLines _, forall_mem_flatMap.mpr fun struct _ =>
      isPlain_structLines width struct⟩

theorem filter_underLabel
    {plain labelled : LayoutConfig} (hPlain : plain.sectionComments = false)
    (hLabel : label ∈ sectionLabels) (hLines : ∀ line ∈ lines, IsPlain line) :
    (underLabel labelled label entries lines).filter isUnlabelled =
      underLabel plain label entries lines := by
  cases entries with
  | nil => rfl
  | cons =>
    show (labelLines labelled label ++ lines).filter isUnlabelled = labelLines plain label ++ lines
    rw [filter_append, filter_labelLines _ hLabel, filter_isPlain hLines]
    simp [labelLines, hPlain]

/- Without the labels the sections are those without labels. -/
theorem CodeFile.filter_sections
    {plain labelled : LayoutConfig} (hWidth : plain.indentWidth = labelled.indentWidth)
    (hPlain : plain.sectionComments = false) (unit : CodeFile) :
    (unit.sections labelled).filter isUnlabelled = unit.sections plain := by
  have hItems : ∀ line ∈ unit.items.flatMap (Item.lines labelled.indentWidth), IsPlain line :=
    forall_mem_flatMap.mpr fun item _ => item.isPlain_lines _
  simp only [sections, unit.structSection_eq, prototypeSection_eq]
  rw [filter_append, filter_append,
    filter_underLabel hPlain (by decide) (unit.isPlain_structBlock _),
    filter_underLabel hPlain (by decide) (isPlain_prototypes _),
    filter_isPlain hItems, hWidth]

-----
-- The Last Line
-----

/- Lines that do not end with a label. -/
def EndsPlain (lines : List Text) : Prop :=
  ∀ last, lines.getLast? = some last → IsPlain last

theorem EndsPlain.append
    {front back : List Text} (hFront : EndsPlain front) (hBack : EndsPlain back) :
    EndsPlain (front ++ back) := by
  intro last hLast
  rw [getLast?_append] at hLast
  rcases Option.or_eq_some_iff.mp hLast with hLate | ⟨_, hEarly⟩
  · exact hBack last hLate
  · exact hFront last hEarly

theorem endsPlain_of_isPlain (h : ∀ line ∈ lines, IsPlain line) :
    EndsPlain lines := fun last hLast =>
  h last (mem_of_getLast? hLast)

/- A label has other lines behind it. -/
theorem endsPlain_underLabel
    (hSome : entries ≠ [] → lines ≠ []) (hLines : ∀ line ∈ lines, IsPlain line) :
    EndsPlain (underLabel config label entries lines) := by
  cases entries with
  | nil => exact endsPlain_of_isPlain (forall_mem_nil _)
  | cons =>
    intro last hLast
    change (labelLines config label ++ lines).getLast? = some last at hLast
    rw [getLast?_append_of_ne_nil _ (hSome (cons_ne_nil _ _))] at hLast
    exact endsPlain_of_isPlain hLines last hLast

theorem CodeFile.endsPlain_sections (config : LayoutConfig) (unit : CodeFile) :
    EndsPlain (unit.sections config) := by
  rw [sections, unit.structSection_eq, prototypeSection_eq]
  refine EndsPlain.append (EndsPlain.append ?_ ?_) ?_
  · refine endsPlain_underLabel ?_ (unit.isPlain_structBlock _)
    intro hSome
    rcases exists_cons_of_ne_nil hSome with ⟨_, _, hStructs⟩
    simp [structBlock, hStructs, structLines]
  · exact endsPlain_underLabel (by simp) (isPlain_prototypes _)
  · exact endsPlain_of_isPlain (forall_mem_flatMap.mpr fun item _ => item.isPlain_lines _)

-----
-- Counted Labels
-----

theorem count_isPlain (hLabel : label ∈ sectionLabels) (h : ∀ line ∈ lines, IsPlain line) :
    lines.count label = 0 := by
  apply count_eq_zero_of_not_mem
  intro hMem
  have hKept := isUnlabelled_of_isPlain (h label hMem)
  simp [isUnlabelled, hLabel] at hKept

/- How often a section has a label as a line. -/
theorem count_underLabel
    (h : config.sectionComments = true) {other : Text} (hOther : other ∈ sectionLabels)
    (hLines : ∀ line ∈ lines, IsPlain line) :
    (underLabel config label entries lines).count other =
      if label = other ∧ entries ≠ [] then 1 else 0 := by
  cases entries with
  | nil => simp [underLabel]
  | cons => simp [underLabel, labelLines, h, count_cons, count_isPlain hOther hLines]

-----
-- Printed Files
-----

/- The preamble, where it has no more lines than it should. -/
theorem openingLines_eq
    (hHeader : LineFree config.header) (hNamespace : LineFree config.namespaceName) :
    openingLines config =
      ["#include <" ++ config.header ++ ">",
        "using namespace " ++ config.namespaceName ++ ";", []] := by
  generalize hOpening :
      (["#include <" ++ config.header ++ ">",
        "using namespace " ++ config.namespaceName ++ ";", []] : List Text) = opening
  have hText : preamble config ++ [';', '\n', '\n'] = unlines [opening].flatten := by
    have hPreamble :
        preamble config =
          "#include <" ++ config.header ++ ">\nusing namespace " ++ config.namespaceName :=
      rfl
    simp [hPreamble, ← hOpening]
  have hFree : ∀ line ∈ opening, LineFree line := by simp [← hOpening, hHeader, hNamespace]
  have hParagraph : IsParagraph opening := by
    rw [← hOpening]
    exact ⟨[_, _], cons_ne_nil _ _, by simp, .inr rfl⟩
  rw [openingLines, hText,
    collapseBreaks_paragraphs (forall_mem_singleton.mpr hParagraph)
      (forall_mem_singleton.mpr hFree),
    lines_unlines (by simpa using hFree)]
  simp

theorem filter_openingLines
    (hHeader : LineFree config.header) (hNamespace : LineFree config.namespaceName) :
    (openingLines config).filter isUnlabelled = openingLines config := by
  rw [openingLines_eq hHeader hNamespace]
  refine filter_eq_self.mpr ?_
  refine forall_mem_cons.mpr ⟨?_, forall_mem_cons.mpr ⟨?_, forall_mem_singleton.mpr rfl⟩⟩
  · simp [isUnlabelled, sectionLabels]
  · exact isUnlabelled_of_isPlain (.inr (endsCode_append _ rfl))

theorem CodeFile.unlines_lines_text (config : LayoutConfig) (unit : CodeFile) :
    unlines (unit.text config).lines = unit.text config := by
  rw [unit.text_eq]
  exact unlines_lines _

end Target

-----
-- Programs
-----

open Target

section Programs

variable {program : Program} {first second : LayoutConfig}

/- Whether a program compiles is decided before it is printed. -/
theorem compile_eq_error_iff {error : CompileError} :
    program.compile first = .error error ↔ program.compile second = .error error := by
  unfold Program.compile Program.compileFrom
  cases program.entryUnit? with
  | none => rfl
  | some entry =>
    cases hLower : program.lower entry with
    | ok | error => simp [hLower, Except.map]

theorem exists_compile_eq_ok
    (h : ∃ text, program.compile first = .ok text) (config : LayoutConfig) :
    ∃ text, program.compile config = .ok text := by
  rcases h with ⟨_, hText⟩
  rcases compile_eq_ok_iff.mp hText with ⟨run, _⟩
  exact ⟨_, compile_eq_ok_iff.mpr ⟨run, rfl⟩⟩

theorem openingLines_congr
    (hHeader : first.header = second.header)
    (hNamespace : first.namespaceName = second.namespaceName) :
    openingLines first = openingLines second := by
  have hPreamble : preamble first = preamble second := by
    delta preamble
    rw [hHeader, hNamespace]
  rw [openingLines, openingLines, hPreamble]

variable (run : Compilation program)
variable
  (hNames :
    ∀ part ∈ program.parts, ∀ name ∈ part.texts, LineFree name)

include hNames

/- The width of indentation goes into leading spaces only. -/
theorem Compilation.unindented_text
    (hHeader : first.header = second.header)
    (hNamespace : first.namespaceName = second.namespaceName)
    (hLabels : first.sectionComments = second.sectionComments) :
    (run.file.text first).unindented = (run.file.text second).unindented := by
  have hLines :
      ∀ config : LayoutConfig,
        (run.file.text config).unindented =
          unlines
            ((withoutLastBlank
              ((marginRows (openingLines config) ++ run.file.sectionRows config).map
                (Row.line config.indentWidth))).map
              dropSpaces) := by
    intro config
    rw [← run.file.unlines_lines_text config,
      unindented_unlines fun _ hLine => lineFree_of_mem_lines hLine,
      run.lines_text hNames config, run.file.sections_eq_rows,
      map_append, map_line_marginRows]
  have hSteady :
      ∀ row ∈ marginRows (openingLines second) ++ run.file.sectionRows second, row.IsSteady :=
    forall_mem_append.mpr ⟨isSteady_marginRows _, run.file.isSteady_sectionRows second⟩
  rw [hLines first, hLines second, openingLines_congr hHeader hNamespace,
    run.file.sectionRows_congr hLabels,
    withoutLastBlank_rows hSteady first.indentWidth second.indentWidth]

/- The labels are all that is there more. -/
theorem Compilation.text_eq_withoutLines
    (hHeader : first.header = second.header)
    (hNamespace : first.namespaceName = second.namespaceName) (hHeaderFree : LineFree second.header)
    (hNamespaceFree : LineFree second.namespaceName)
    (hWidth : first.indentWidth = second.indentWidth) (hPlain : first.sectionComments = false) :
    run.file.text first = (run.file.text second).withoutLines sectionLabels := by
  have hEnds : EndsPlain (openingLines second ++ run.file.sections second) := by
    refine EndsPlain.append ?_ (run.file.endsPlain_sections second)
    intro last hLast
    rw [openingLines_eq hHeaderFree hNamespaceFree] at hLast
    cases hLast
    exact .inl rfl
  have hKept : (run.file.text second).lines.filter isUnlabelled = (run.file.text first).lines := by
    rw [run.lines_text hNames first, run.lines_text hNames second,
      openingLines_congr hHeader hNamespace,
      ← run.file.filter_sections hWidth hPlain]
    rcases eq_nil_or_concat (openingLines second ++ run.file.sections second) with
      hNil | ⟨_, last, hConcat⟩
    · rw [openingLines_eq hHeaderFree hNamespaceFree] at hNil
      cases hNil
    · have hLast : isUnlabelled last = true :=
        isUnlabelled_of_isPlain (hEnds last (by simp [hConcat]))
      rw [hConcat, concat_eq_append, filter_withoutLastBlank hLast, ← concat_eq_append,
        ← hConcat, filter_append,
        filter_openingLines hHeaderFree hNamespaceFree]
  rw [withoutLines, ← run.file.unlines_lines_text first, ← hKept]
  rfl

/- A label stands above a section that has an entry. -/
theorem Compilation.count_label
    (hHeaderFree : LineFree second.header) (hNamespaceFree : LineFree second.namespaceName)
    (hLabelled : second.sectionComments = true) (label : Text) (hLabel : label ∈ sectionLabels) :
    (run.file.text second).lines.count label =
      (if "// Structs" = label ∧ run.file.structs ≠ [] then 1
        else 0) +
      (if "// Functions" = label ∧ run.file.signatures ≠ [] then 1
        else 0) := by
  have hSome : label ≠ [] := by
    rintro rfl
    revert hLabel
    decide
  have hOpening : (openingLines second).count label = 0 := by
    apply count_eq_zero_of_not_mem
    intro hMem
    rw [← filter_openingLines hHeaderFree hNamespaceFree] at hMem
    have hKept := (mem_filter.mp hMem).2
    simp [isUnlabelled, hLabel] at hKept
  have hItems : (run.file.items.flatMap (Item.lines second.indentWidth)).count label = 0 :=
    count_isPlain hLabel (forall_mem_flatMap.mpr fun item _ => item.isPlain_lines _)
  rw [run.lines_text hNames second, count_withoutLastBlank hSome,
    count_append, hOpening, CodeFile.sections, CodeFile.structSection_eq,
    prototypeSection_eq, count_append, count_append, hItems,
    count_underLabel hLabelled hLabel (run.file.isPlain_structBlock _),
    count_underLabel hLabelled hLabel (isPlain_prototypes _), Nat.zero_add,
    Nat.add_zero]

omit hNames in
/- A program is lowered in one way. -/
theorem Compilation.file_eq (other : Compilation program) :
    run.file = other.file := by
  have hSite : run.site = other.site := Option.some.inj (run.starts.symm.trans other.starts)
  have hRuns := run.runs
  rw [hSite, other.runs] at hRuns
  injection hRuns with hItems hState
  rw [Compilation.file, Compilation.file, hItems, hState]

end Programs

/-
  For names and numbers without line breaks, and a header and
  a namespace without line breaks that are the same for both:
  the layout options decide neither whether a program
  compiles nor how it fails. The width of indentation changes
  spaces at the start of lines only. The labels are lines
  that can be left out, and each stands above a section that
  has an entry.
-/
theorem layout_options_change_layout_only
    {program : Program} {first second : LayoutConfig}
    (hNames : ∀ part ∈ program.parts, ∀ name ∈ part.texts, '\n' ∉ name)
    (hHeader : first.header = second.header)
    (hNamespace : first.namespaceName = second.namespaceName) (hHeaderFree : '\n' ∉ second.header)
    (hNamespaceFree : '\n' ∉ second.namespaceName) :
    (∀ error, program.compile first = .error error ↔ program.compile second = .error error) ∧
      ((∃ text, program.compile first = .ok text) ↔ ∃ text, program.compile second = .ok text) ∧
      ∀ firstText secondText,
        program.compile first = .ok firstText →
          program.compile second = .ok secondText →
            (first.sectionComments = second.sectionComments →
              firstText.unindented = secondText.unindented) ∧
            (first.indentWidth = second.indentWidth →
              first.sectionComments = false → firstText = secondText.withoutLines sectionLabels) ∧
            (second.sectionComments = true →
              ∃ run : Compilation program,
                secondText = run.file.text second ∧
                  secondText.lines.count ("// Structs" : Text) =
                    (if run.file.structs.isEmpty then 0 else 1) ∧
                  secondText.lines.count ("// Functions" : Text) =
                    if run.file.signatures.isEmpty then 0
                    else 1) := by
  refine
    ⟨fun error => compile_eq_error_iff,
      ⟨fun h => exists_compile_eq_ok h second, fun h => exists_compile_eq_ok h first⟩, ?_⟩
  intro firstText secondText hFirst hSecond
  rcases compile_eq_ok_iff.mp hFirst with ⟨other, rfl⟩
  rcases compile_eq_ok_iff.mp hSecond with ⟨run, rfl⟩
  rw [other.file_eq run]
  refine ⟨?_, ?_, ?_⟩
  · exact run.unindented_text hNames hHeader hNamespace
  · exact run.text_eq_withoutLines hNames hHeader hNamespace hHeaderFree hNamespaceFree
  · intro hLabelled
    have hCount := run.count_label hNames hHeaderFree hNamespaceFree hLabelled
    refine ⟨run, rfl, ?_, ?_⟩
    · rw [hCount "// Structs" (by decide)]
      cases run.file.structs with
      | nil | cons => simp
    · rw [hCount "// Functions" (by decide)]
      cases run.file.signatures with
      | nil | cons => simp

/- A struct, and a function with a loop. -/
def drawnUnit : Program :=
  ⟨[⟨"main.ts", [],
        [.interface plainNode
            ⟨"Point", [⟨"x", ⟨"number", Span.nowhere⟩, false, false, false, Span.nowhere⟩]⟩,
          .function plainNode
            ⟨"f", [⟨plainNode, "p", some ⟨"Point", Span.nowhere⟩⟩], some ⟨"number", Span.nowhere⟩⟩
            (some
              [.whileLoop plainNode (.bool plainNode true)
                (.ret plainNode (some (.member plainNode (.ident plainNode "p") "x")))])]⟩],
    some 0, NodeTypes.empty, []⟩

def narrowLayout : LayoutConfig :=
  { LayoutConfig.standard with indentWidth := 1 }

def plainLayout : LayoutConfig :=
  { LayoutConfig.standard with sectionComments := false }

def drawnLines : List Text :=
  ["#include <TypeSlang/runtime.cpp>", "using namespace JS;", "",
    "// Structs", "struct Point \x7b", "    i32 x;", "\x7d;", "",
    "// Functions", "i32 f(Point p);", "", "i32 f(Point p) \x7b",
    "    while (true) \x7b", "        return p.x;", "    \x7d",
    "\x7d"]

theorem drawnUnit_layout_options_change_layout_only :
    (∀ part ∈ drawnUnit.parts, ∀ name ∈ part.texts, '\n' ∉ name) ∧
      ∃ standardText narrowText plainText,
        drawnUnit.compile LayoutConfig.standard = .ok standardText ∧
          drawnUnit.compile narrowLayout = .ok narrowText ∧
          drawnUnit.compile plainLayout = .ok plainText ∧
          standardText.lines = drawnLines ∧
          narrowText ≠ standardText ∧
          narrowText.unindented = standardText.unindented ∧
          plainText = standardText.withoutLines sectionLabels ∧
          ∃ run : Compilation drawnUnit,
            run.file.structs.isEmpty = false ∧ run.file.signatures.isEmpty = false := by
  have hNames : ∀ part ∈ drawnUnit.parts, ∀ name ∈ part.texts, '\n' ∉ name := by decide +kernel
  have hPrinted :
      (drawnUnit.compile LayoutConfig.standard).toOption.map lines = some drawnLines := by
    decide +kernel
  have hOther : (drawnUnit.compile narrowLayout).toOption.map lines ≠ some drawnLines := by
    decide +kernel
  have hHeader : '\n' ∉ LayoutConfig.standard.header := by decide
  have hNamespace : '\n' ∉ LayoutConfig.standard.namespaceName := by decide
  rcases Option.map_eq_some_iff.mp hPrinted with ⟨standardText, hFound, hLines⟩
  have hStandard : drawnUnit.compile LayoutConfig.standard = .ok standardText := by
    cases hRun : drawnUnit.compile LayoutConfig.standard with
    | error =>
        rw [hRun] at hFound
        cases hFound
    | ok =>
        rw [hRun] at hFound
        cases hFound
        rfl
  rcases @layout_options_change_layout_only drawnUnit narrowLayout
      LayoutConfig.standard hNames rfl rfl hHeader hNamespace with
    ⟨_, hNarrowRuns, hNarrow⟩
  rcases @layout_options_change_layout_only drawnUnit plainLayout
      LayoutConfig.standard hNames rfl rfl hHeader hNamespace with
    ⟨_, hPlainRuns, hPlain⟩
  rcases hNarrowRuns.mpr ⟨_, hStandard⟩ with ⟨narrowText, hNarrowText⟩
  rcases hPlainRuns.mpr ⟨_, hStandard⟩ with ⟨plainText, hPlainText⟩
  rcases (hNarrow _ _ hNarrowText hStandard).2.2 rfl with ⟨run, _, hStructs, hFunctions⟩
  refine
    ⟨hNames, standardText, narrowText, plainText, hStandard, hNarrowText, hPlainText, hLines, ?_,
      (hNarrow _ _ hNarrowText hStandard).1 rfl,
      (hPlain _ _ hPlainText hStandard).2.1 rfl rfl, run, ?_, ?_⟩
  · intro hSame
    apply hOther
    rw [hNarrowText, hSame]
    exact congrArg some hLines
  · have hCount : drawnLines.count ("// Structs" : Text) = 1 := by decide
    rw [hLines, hCount] at hStructs
    by_contra hEmpty
    rw [if_pos (by simpa using hEmpty)] at hStructs
    cases hStructs
  · have hCount : drawnLines.count ("// Functions" : Text) = 1 := by decide
    rw [hLines, hCount] at hFunctions
    by_contra hEmpty
    rw [if_pos (by simpa using hEmpty)] at hFunctions
    cases hFunctions

end ScriptLowering
