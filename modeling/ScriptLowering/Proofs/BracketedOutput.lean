import ScriptLowering.Proofs.LineBreaks

/-
  Brackets in a printed C++ program. If no name and no number
  of a program has a bracket, a quote or a line break in it,
  then everything that is printed closes what it opens:
  expressions on their line, statements in their rows, and
  functions between their braces. Strings are escaped, so
  what they say does not matter.

  Key theorems include:
    * `Target.CodeFile.wellBracketed_text`
    * `output_well_bracketed`
-/

namespace ScriptLowering

open Text List

-----
-- Balanced Texts
-----

/- How lines are read for their brackets. -/
def bracketScript : Script where
  marks := delimiters
  foreign := rfl
  Leads text before after := Reads text (.code before) (.code after)
  fixed h := h
  word pending h := balanced_of_isBare h pending
  append hFront hBack := hFront.append hBack

/- Texts and types without brackets, quotes and line breaks. -/
def bareLexicon : Lexicon :=
  bracketScript.lexicon

-----
-- Lines
-----

/- Lines lead from some open brackets to others. -/
def ReadsLines (texts : List Text) (before after : List Char) : Prop :=
  ReadsText (unlines texts) (.code before) (.code after)

namespace ReadsLines

theorem nil (pending : List Char) :
    ReadsLines [] pending pending :=
  rfl

theorem cons
    {line : Text} {rest : List Text} {before middle after : List Char}
    (hLine : Reads line (.code before) (.code middle)) (hRest : ReadsLines rest middle after) :
    ReadsLines (line :: rest) before after := by
  have hBreak : ReadsText ['\n'] (.code middle) (.code middle) := rfl
  unfold ReadsLines
  rw [unlines_cons]
  exact hLine.text.append (hBreak.append hRest)

theorem append
    {front back : List Text} {before middle after : List Char}
    (hFront : ReadsLines front before middle) (hBack : ReadsLines back middle after) :
    ReadsLines (front ++ back) before after := by
  unfold ReadsLines
  rw [unlines_append]
  exact ReadsText.append hFront hBack

end ReadsLines

/- Lines that close all that they open. -/
def BalancedLines (texts : List Text) : Prop :=
  ∀ pending, ReadsLines texts pending pending

theorem balancedLines_of_forall {texts : List Text} (h : ∀ text ∈ texts, Balanced text) :
    BalancedLines texts := by
  intro pending
  induction texts with
  | nil => exact .nil _
  | cons _ _ ih =>
    rcases forall_mem_cons.mp h with ⟨hText, hRest⟩
    exact .cons (hText _) (ih hRest)

theorem BalancedLines.append
    {front back : List Text} (hFront : BalancedLines front) (hBack : BalancedLines back) :
    BalancedLines (front ++ back) :=
  fun pending => (hFront pending).append (hBack pending)

theorem balancedLines_flatMap
    {α : Type} {parts : List α} {write : α → List Text}
    (h : ∀ part ∈ parts, BalancedLines (write part)) :
    BalancedLines (parts.flatMap write) := by
  induction parts with
  | nil => exact fun _ => .nil _
  | cons _ _ ih =>
    rcases forall_mem_cons.mp h with ⟨hPart, hRest⟩
    exact hPart.append (ih hRest)

/- Rows lead from some open brackets to others. -/
def ReadsRows (width : Nat) (rows : List Row) (before after : List Char) : Prop :=
  ReadsLines (rows.map (Row.line width)) before after

section Rows

variable {width level : Nat} {before middle after : List Char}

theorem reads_line {text : Text} (h : Reads text (.code before) (.code middle)) :
    Reads (Row.line width ⟨level, text⟩) (.code before) (.code middle) := by
  have hBlanks : Balanced (replicate (level * width) ' ') := by
    apply balanced_of_isBare
    intro c hChar
    rw [eq_of_mem_replicate hChar]
    simp [delimiters]
  exact (hBlanks before).append h

/- Rows are read one after the other, whatever their level. -/
theorem readsRows_of_leadsRows {rows : List Row} (h : bracketScript.LeadsRows rows before after) :
    ReadsRows width rows before after := by
  induction rows generalizing before with
  | nil =>
    cases h
    exact .nil _
  | cons _ _ ih =>
    rcases h with ⟨_, hText, hRest⟩
    exact .cons (reads_line hText) (ih hRest)

end Rows

namespace Target

-----
-- Files
-----

/- The lines of a function's definition. -/
def definitionLines (width : Nat) (signature : Signature) (body : List Stmt) : List Text :=
  signature.headLine :: (stmtsRows 1 body).map (Row.line width) ++ [("\x7d" : Text)]

theorem balancedLines_definition
    (width : Nat) {signature : Signature} {body : List Stmt}
    (hSignature : bareLexicon.Has signature.texts signature.types)
    (hBody : bareLexicon.HasStmts body) :
    BalancedLines (definitionLines width signature body) := by
  have hHead := Signature.keeps_text hSignature
  have hRows := leadsRows_stmts 1 body hBody
  intro pending
  exact
    .append (.cons (.append (hHead _) rfl) (readsRows_of_leadsRows (hRows _))) (.cons rfl (.nil _))

theorem Item.balancedLines (width : Nat) {item : Item} (h : bareLexicon.HasItem item) :
    BalancedLines (item.lines width) := by
  cases item with
  | function signature body? =>
    cases body? with
    | none => exact fun _ => .nil _
    | some body =>
      rcases h.of_append with ⟨hSignature, hBody⟩
      have hLines :
          (Item.function signature (some body)).lines width =
            definitionLines width signature body ++ [[]] := by
        simp [Item.lines, definitionLines, closedBy]
      rw [hLines]
      exact
        (balancedLines_definition width hSignature hBody).append
          (balancedLines_of_forall (forall_mem_singleton.mpr balanced_nil))
  | global =>
    rcases h.of_type with ⟨hType, hDeclarator⟩
    exact balancedLines_of_forall
      (forall_mem_singleton.mpr (keeps_declarationText hType hDeclarator))

theorem balancedLines_label (config : LayoutConfig) {label : Text} (hLabel : Balanced label) :
    BalancedLines (labelLines config label) := by
  unfold labelLines
  split
  · exact balancedLines_of_forall (forall_mem_singleton.mpr hLabel)
  · exact fun _ => .nil _

theorem balancedLines_prototypeSection
    (config : LayoutConfig) {signatures : List Signature}
    (h : ∀ signature ∈ signatures, bareLexicon.Has signature.texts signature.types) :
    BalancedLines (prototypeSection config signatures) := by
  unfold prototypeSection
  split
  · exact fun _ => .nil _
  · have hLabel : Balanced "// Functions" := fun _ => rfl
    refine
      ((balancedLines_label config hLabel).append ?_).append
        (balancedLines_of_forall (forall_mem_singleton.mpr balanced_nil))
    apply balancedLines_of_forall
    refine forall_mem_map.mpr ?_
    intro signature hSignature pending
    exact .append (Signature.keeps_text (h signature hSignature) _) rfl

theorem balancedLines_struct (width : Nat) {struct : Struct} (h : bareLexicon.HasStruct struct) :
    BalancedLines (structLines width struct) := by
  have hName := balanced_of_isBare h.name
  have hFields : BalancedLines ((struct.fields.map fieldRow).map (Row.line width)) := by
    apply balancedLines_of_forall
    refine forall_mem_map.mpr ?_
    refine forall_mem_map.mpr ?_
    intro field hField pending
    have hText := keeps_typedName (h.fields field hField).2 (h.fields field hField).1
    exact reads_line (.append (hText _) rfl)
  intro pending
  have hFirst :
      Reads ("struct " ++ struct.name ++ " \x7b") (.code pending) (.code ('}' :: pending)) :=
    .append (.append rfl (hName _)) rfl
  exact .append (.cons hFirst (hFields _)) (.cons rfl (.cons rfl (.nil _)))

theorem balancedLines_forward {names : List Text} (h : ∀ name ∈ names, name.IsBare) :
    BalancedLines (forwardLines names) := by
  unfold forwardLines
  split
  · exact fun _ => .nil _
  · refine BalancedLines.append ?_ (balancedLines_of_forall (forall_mem_singleton.mpr balanced_nil))
    apply balancedLines_of_forall
    refine forall_mem_map.mpr ?_
    intro name hName pending
    have hText := balanced_of_isBare (h name hName)
    exact .append (.append rfl (hText _)) rfl

theorem CodeFile.balancedLines_sections
    (config : LayoutConfig) {unit : CodeFile}
    (hItems : ∀ item ∈ unit.items, bareLexicon.HasItem item)
    (hStructs : ∀ struct ∈ unit.structs, bareLexicon.HasStruct struct)
    (hForward : ∀ name ∈ unit.forward, name.IsBare) :
    BalancedLines (unit.sections config) := by
  refine BalancedLines.append (.append ?_ ?_) ?_
  · unfold structSection
    split
    · exact fun _ => .nil _
    · have hLabel : Balanced "// Structs" := fun _ => rfl
      exact
        ((balancedLines_label config hLabel).append (balancedLines_forward hForward)).append
          (balancedLines_flatMap fun struct hStruct =>
            balancedLines_struct config.indentWidth (hStructs struct hStruct))
  · apply balancedLines_prototypeSection
    intro signature hSignature
    rcases mem_filterMap.mp hSignature with ⟨item, hItem, hFound⟩
    exact Item.has_signature? (hItems item hItem) hFound
  · exact balancedLines_flatMap fun item hItem =>
      Item.balancedLines config.indentWidth (hItems item hItem)

/- The whole text, with its blank lines in order. -/
theorem CodeFile.wellBracketed_text
    {config : LayoutConfig} (hHeader : config.header.IsBare)
    (hNamespace : config.namespaceName.IsBare) {unit : CodeFile}
    (hSections : BalancedLines (unit.sections config)) :
    WellBracketed (unit.text config) := by
  have hHeader := balanced_of_isBare hHeader
  have hNamespace := balanced_of_isBare hNamespace
  have hPreamble : ReadsText (preamble config) (.code []) (.code []) := by
    exact .append (.append (.append rfl (hHeader _).text) rfl) (hNamespace _).text
  have hBreaks : ReadsText [';', '\n', '\n'] (.code []) (.code []) := rfl
  rw [unit.text_eq]
  have hText := hPreamble.append (hBreaks.append (hSections []))
  exact (hText.collapseBreaks 0).dropLastBreaks.append rfl

end Target

-----
-- Programs
-----

/- Lines in front of another line stay where they are. -/
theorem Text.infix_withoutLastBlank (front inner back : List Text) (line : Text) :
    inner <:+: withoutLastBlank (front ++ inner ++ line :: back) := by
  unfold withoutLastBlank
  split
  · rw [dropLast_append_of_ne_nil (cons_ne_nil _ _)]
    exact ⟨front, _, rfl⟩
  · exact ⟨front, _, rfl⟩

/- The lines of a definition stand together in the program. -/
theorem Target.definitionLines_infix
    (config : LayoutConfig) {unit : Target.CodeFile} {signature : Target.Signature}
    {body : List Target.Stmt} (h : .function signature (some body) ∈ unit.items) :
    definitionLines config.indentWidth signature body <:+:
      withoutLastBlank (openingLines config ++ unit.sections config) := by
  rcases mem_iff_append.mp h with ⟨front, back, hItems⟩
  have hLines :
      (Item.function signature (some body)).lines config.indentWidth =
        definitionLines config.indentWidth signature body ++ [[]] := by
    simp [Item.lines, definitionLines, closedBy]
  have hSections :
      openingLines config ++ unit.sections config =
        (openingLines config ++ unit.structSection config ++
            prototypeSection config unit.signatures ++
            front.flatMap (Item.lines config.indentWidth)) ++
          definitionLines config.indentWidth signature body ++
          [] :: back.flatMap (Item.lines config.indentWidth) := by
    rw [CodeFile.sections, hItems]
    simp [hLines]
  rw [hSections]
  exact infix_withoutLastBlank _ _ _ _

/-
  A program without brackets, quotes and line breaks in its
  names and numbers is printed well bracketed as a whole, and
  so is each definition of a function by itself.
-/
theorem output_well_bracketed
    {program : Program} {config : LayoutConfig} {text : Text}
    (hNames : ∀ part ∈ program.parts, ∀ name ∈ part.texts, name.IsBare)
    (hHeader : config.header.IsBare) (hNamespace : config.namespaceName.IsBare)
    (hCompile : program.compile config = .ok text) :
    WellBracketed text ∧
      ∃ run : Compilation program,
        text = run.file.text config ∧
          ∀ signature body,
            .function signature (some body) ∈ run.items →
              Target.definitionLines config.indentWidth signature body <:+:
                  text.lines ∧
                WellBracketed
                  (unlines (Target.definitionLines config.indentWidth signature body)) := by
  rcases compile_eq_ok_iff.mp hCompile with ⟨run, rfl⟩
  have hProgram : bareLexicon.HasProgram program :=
    Lexicon.hasProgram_of_names (fun _ hName => hName) hNames
  have hForward : ∀ name ∈ run.file.forward, name.IsBare := by
    intro name hName
    rcases exists_of_mem_forwardDeclarations hName with ⟨struct, hStruct, rfl⟩
    exact (hProgram.structs run struct hStruct).name
  have hFree : ∀ part ∈ program.parts, ∀ name ∈ part.texts, LineFree name := by
    intro part hPart name hName hBreak
    exact hNames part hPart name hName '\n' hBreak (by decide)
  refine ⟨?_, run, rfl, ?_⟩
  · exact
      Target.CodeFile.wellBracketed_text hHeader hNamespace
        (Target.CodeFile.balancedLines_sections config
          (hProgram.items run) (hProgram.structs run) hForward)
  · intro signature body hItem
    rcases (hProgram.items run _ hItem).of_append with ⟨hSignature, hBody⟩
    constructor
    · rw [Compilation.lines_text hFree run config]
      exact Target.definitionLines_infix config hItem
    · exact Target.balancedLines_definition config.indentWidth hSignature hBody []

/-
  A function with brackets and quotes in its strings, nested
  statements, an array and a record.
-/
def quotingBody : List Stmt :=
  [.ifElse plainNode (.bool plainNode true)
      (.block plainNode
        [.expr plainNode
          (.call plainNode (.member plainNode (.ident plainNode "console") "log")
            [] [.string plainNode "a) \"b\\ \n\x7b\x07"])])
      (some (.whileLoop plainNode (.bool plainNode false) (.breakLoop plainNode))),
    .vars plainNode .letKind
      [.mk plainNode "xs" (some ⟨"number[]", Span.nowhere⟩)
        (some (.array plainNode [.number plainNode "1", .number plainNode "2_0"]))],
    .vars plainNode .letKind
      [.mk plainNode "p" (some ⟨"\x7b text: string \x7d", Span.nowhere⟩)
        (some
          (.object plainNode
            [.property "text"
              (.template plainNode ["(\x7b", "]"]
                [.index plainNode (.ident plainNode "xs") (.number plainNode "0")])]))]]

def quotingUnit : Program :=
  ⟨[⟨"main.ts", [],
      [.function plainNode ⟨"show", [], some ⟨"void", Span.nowhere⟩⟩ (some quotingBody)]⟩],
    some 0, NodeTypes.empty, []⟩

theorem quotingUnit_well_bracketed :
    (∀ part ∈ quotingUnit.parts, ∀ name ∈ part.texts, name.IsBare) ∧
      ∃ text,
        quotingUnit.compile LayoutConfig.standard = .ok text ∧ WellBracketed text ∧
          ∃ signature body,
            (Target.definitionLines 4 signature body).length = 11 ∧
              Target.definitionLines 4 signature body <:+:
                text.lines ∧
              WellBracketed (unlines (Target.definitionLines 4 signature body)) := by
  have hNames : ∀ part ∈ quotingUnit.parts, ∀ name ∈ part.texts, name.IsBare := by decide +kernel
  have hPasses :
      Compilation.passes quotingUnit (fun _ items _ =>
        items.any fun item => (item.lines 4).length == 12) =
        true := by
    decide +kernel
  rcases Compilation.compiles_of_passes hPasses LayoutConfig.standard with ⟨_, hCompile⟩
  rcases output_well_bracketed hNames (by decide) (by decide) hCompile with
    ⟨hWhole, run, hText, hDefinitions⟩
  rcases List.any_eq_true.mp (run.check_of_passes hPasses) with ⟨item, hItem, hLength⟩
  rcases item with ⟨signature, _ | body⟩ | _
  case function.none => cases hLength
  case global => cases hLength
  case function.some =>
    have hLines : (Target.definitionLines 4 signature body).length = 11 := by
      simpa [Target.Item.lines, Target.definitionLines, Target.closedBy] using hLength
    exact ⟨hNames, _, hCompile, hWhole, signature, body, hLines, hDefinitions signature body hItem⟩

end ScriptLowering
