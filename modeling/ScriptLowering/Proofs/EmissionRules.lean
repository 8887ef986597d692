import Mathlib.Data.List.Basic
import ScriptLowering.Proofs.Emitter

/-
  How emission is compared with lowering. Both are run from
  the same types and scopes; they end in the same way, and
  after a success the page of the emitter is the one that
  writing the lowered tree gives. The comparison has one rule
  for each way in which the emitter puts actions together.

  Key theorems include:
    * `Emits.inFrame`
    * `Emits.braced`
-/

namespace ScriptLowering

-----
-- Pages That Are Kept
-----

namespace Page

/- The depths of indentation of all buffers. -/
def levels (page : Page) : List Nat :=
  page.buffers.map Buffer.level

/- A page with the same targets and the same indentation. -/
structure Kept (before after : Page) : Prop where
  targets_eq : after.targets = before.targets
  levels_eq : after.levels = before.levels

section Pages

variable {page before after last : Page} {change : Buffer → Buffer}

theorem Kept.refl (page : Page) :
    page.Kept page :=
  ⟨rfl, rfl⟩

theorem Kept.trans (hFirst : before.Kept after) (hSecond : after.Kept last) :
    before.Kept last :=
  ⟨hSecond.targets_eq.trans hFirst.targets_eq, hSecond.levels_eq.trans hFirst.levels_eq⟩

theorem Kept.target_eq (h : before.Kept after) :
    after.target = before.target := by
  unfold target
  rw [h.targets_eq]

theorem level_current (page : Page) :
    page.current.level = page.levels[page.target]?.getD 0 := by
  unfold current levels
  rw [List.getElem?_map]
  cases page.buffers[page.target]? <;> rfl

theorem Kept.level_eq (h : before.Kept after) :
    after.current.level = before.current.level := by
  rw [level_current, level_current, h.levels_eq, h.target_eq]

theorem levels_update
    {onLevel : Nat → Nat} (h : ∀ buffer, (change buffer).level = onLevel buffer.level) :
    (page.update change).levels = page.levels.modify page.target onLevel := by
  apply List.ext_getElem?
  intro i
  simp only [levels, update, List.getElem?_map, List.getElem?_modify]
  cases page.buffers[i]? with
  | none => rfl
  | some =>
    by_cases hTarget : page.target = i
    · simp [hTarget, h]
    · simp [hTarget]

theorem kept_update (h : ∀ buffer, (change buffer).level = buffer.level) :
    page.Kept (page.update change) := by
  refine ⟨rfl, ?_⟩
  rw [@levels_update page change id h, List.modify_id]

theorem kept_write (page : Page) (text : Text) :
    page.Kept (page.write text) := by
  apply kept_update
  intro buffer
  unfold Buffer.write
  repeat' split
  all_goals rfl

theorem kept_endLine (page : Page) :
    page.Kept page.endLine :=
  kept_update fun _ => rfl

/- What is written one level deeper is kept. -/
theorem Kept.dedent (h : before.indent.Kept after) :
    before.Kept after.dedent := by
  refine ⟨h.targets_eq, ?_⟩
  have hIndent : before.indent.levels = before.levels.modify before.target (· + 1) :=
    levels_update fun _ => rfl
  have hDedent : after.dedent.levels = after.levels.modify after.target (· - 1) :=
    levels_update fun _ => rfl
  have hTarget : after.target = before.target := h.target_eq
  rw [hDedent, h.levels_eq, hIndent, hTarget, List.modify_modify_eq]
  exact List.modify_id _ _

theorem update_update (page : Page) (first second : Buffer → Buffer) :
    (page.update first).update second = page.update (second ∘ first) := by
  unfold update
  simp only [target, List.modify_modify_eq]

/- Texts that are written one after the other are one text. -/
theorem write_write (page : Page) (first second : Text) :
    (page.write first).write second = page.write (first ++ second) := by
  have hBuffer :
      Buffer.write page.width second ∘ Buffer.write page.width first =
        Buffer.write page.width (first ++ second) := by
    funext buffer
    cases first with
    | nil => rfl
    | cons =>
      cases second with
      | nil =>
        rw [List.append_nil]
        rfl
      | cons =>
        cases hOpen : buffer.openLine <;>
          simp [Buffer.write, hOpen]
  unfold write
  rw [← hBuffer, ← update_update]
  rfl

theorem write_nil (page : Page) :
    page.write [] = page := by
  have hBuffer : Buffer.write page.width [] = id := rfl
  unfold write update
  rw [hBuffer, List.modify_id]

/- After the end of a line no line is open. -/
theorem lineIsOpen_endLine (page : Page) :
    page.endLine.lineIsOpen = false := by
  have hOpen : page.endLine.current.openLine = [] := by
    show ((page.buffers.modify page.target
      Buffer.endLine)[page.target]?.getD Buffer.empty).openLine = []
    rw [List.getElem?_modify]
    cases page.buffers[page.target]? with
    | none => rfl
    | some => simp [Buffer.endLine]
  unfold lineIsOpen
  rw [hOpen]
  rfl

end Pages

end Page

-----
-- Emission And Lowering
-----

/-
  How a run of the emitter ends, compared with lowering. They
  end in the same way, with the same types and scopes, and
  emission stands where it stood. The page is kept; after a
  success it is as told.
-/
inductive EmitResult {α β : Type} (place : EmitPlace) (page : Page) (Left : β → α → Page → Prop) :
    EStateM.Result CompileError LowerState β → EStateM.Result CompileError Emitter α → Prop
  | ok
      {value : β} {result : α} {state : LowerState} {last : Page} (hKept : page.Kept last)
      (hLeft : Left value result last) :
      EmitResult place page Left (.ok value state) (.ok result ⟨place, state, last⟩)
  | error {error : CompileError} {state : LowerState} {last : Page} (hKept : page.Kept last) :
      EmitResult place page Left (.error error state) (.error error ⟨place, state, last⟩)

/- Emission from a page does what lowering does. -/
def Emits
    {α β : Type} (place : EmitPlace) (page : Page) (emit : EmitM α) (lower : LowerM β)
    (Left : β → α → Page → Prop) : Prop :=
  ∀ state, EmitResult place page Left (lower state) (emit ⟨place, state, page⟩)

section Rules

variable {α β γ δ : Type} {front : Program} {place : EmitPlace} {page : Page}

variable {Left : β → α → Page → Prop} {lower : LowerM β} {value : β}
variable {emit : EmitM α}

theorem EmitResult.mono
    {middle : Page} {lowerRun : EStateM.Result CompileError LowerState β}
    {emitRun : EStateM.Result CompileError Emitter α}
    (h : EmitResult place middle Left lowerRun emitRun) (hKept : page.Kept middle) :
    EmitResult place page Left lowerRun emitRun := by
  cases h with
  | ok hLater hLeft => exact .ok (hKept.trans hLater) hLeft
  | error hLater => exact .error (hKept.trans hLater)

theorem Emits.pure {result : α} (h : Left value result page) :
    Emits place page (Pure.pure result : EmitM α) (Pure.pure value : LowerM β) Left :=
  fun _ => .ok (Page.Kept.refl page) h

theorem Emits.bind
    {lower : LowerM β} {nextEmit : α → EmitM γ} {nextLower : β → LowerM δ}
    {Left : β → α → Page → Prop} {Finally : δ → γ → Page → Prop}
    (hFirst : Emits place page emit lower Left)
    (hNext : ∀ value result last, Left value result last →
      Emits place last (nextEmit result) (nextLower value) Finally) :
    Emits place page (emit >>= nextEmit) (lower >>= nextLower) Finally := by
  intro state
  have hRun := hFirst state
  simp only [Bind.bind, EStateM.bind]
  generalize lower state = lowerRun at hRun
  generalize emit ⟨place, state, page⟩ = emitRun at hRun
  cases hRun with
  | ok hKept hLeft => exact (hNext _ _ _ hLeft _).mono hKept
  | error hKept => exact .error hKept

/- Lowering may put the last value into a larger one. -/
theorem Emits.map
    {wrap : β → δ} {Finally : δ → α → Page → Prop} (h : Emits place page emit lower Left)
    (hWrap : ∀ value result last, Left value result last → Finally (wrap value) result last) :
    Emits place page emit (lower >>= fun value => Pure.pure (wrap value)) Finally := by
  intro state
  have hRun := h state
  simp only [Bind.bind, EStateM.bind]
  generalize lower state = lowerRun at hRun
  generalize emit ⟨place, state, page⟩ = emitRun at hRun ⊢
  cases hRun with
  | ok hKept hLeft => exact .ok hKept (hWrap _ _ _ hLeft)
  | error hKept => exact .error hKept

/- What concerns types and scopes only leaves the page alone. -/
theorem emits_lowered (front : Program) (action : Site → LowerM α) :
    Emits place page (EmitM.lowered front action) (action (topSite front place.units))
      fun value result last => result = value ∧ last = page := by
  intro state
  unfold EmitM.lowered
  cases action (topSite front place.units) state with
  | ok => exact .ok (Page.Kept.refl page) ⟨rfl, rfl⟩
  | error error => exact .error (Page.Kept.refl page)

/- Both go on with the value of such a computation. -/
theorem Emits.lowered
    {action : Site → LowerM α} {nextEmit : α → EmitM γ} {nextLower : α → LowerM δ}
    {Left : δ → γ → Page → Prop}
    (h : ∀ value, Emits place page (nextEmit value) (nextLower value) Left) :
    Emits place page (EmitM.lowered front action >>= nextEmit)
      (action (topSite front place.units) >>= nextLower) Left := by
  apply (emits_lowered front action).bind
  rintro _ _ _ ⟨rfl, rfl⟩
  exact h _

theorem emits_fail {span : Span} {fault : Fault} :
    Emits place page (EmitM.lowered front fun site => LowerM.fail site span fault)
      (LowerM.fail (topSite front place.units) span fault) Left :=
  fun _ => .error (Page.Kept.refl page)

/- Writing has no counterpart in lowering. -/
theorem Emits.write
    {text : Text} {next : Unit → EmitM α} (h : Emits place (page.write text) (next ()) lower Left) :
    Emits place page (EmitM.write text >>= next) lower
      Left :=
  fun state => (h state).mono (page.kept_write text)

theorem Emits.endLine {next : Unit → EmitM α} (h : Emits place page.endLine (next ()) lower Left) :
    Emits place page (EmitM.endLine >>= next) lower
      Left :=
  fun state => (h state).mono page.kept_endLine

theorem emits_write
    {text : Text} {Left : β → Unit → Page → Prop} (h : Left value () (page.write text)) :
    Emits place page (EmitM.write text) (Pure.pure value : LowerM β) Left :=
  fun _ => .ok (page.kept_write text) h

theorem emits_endLine {Left : β → Unit → Page → Prop} (h : Left value () page.endLine) :
    Emits place page EmitM.endLine (Pure.pure value : LowerM β) Left :=
  fun _ => .ok page.kept_endLine h

/- The return type is that of the start. -/
theorem Emits.returnType
    {next : Option TypeName → EmitM α} (h : Emits place page (next place.returnType?) lower Left) :
    Emits place page (EmitM.returnType? >>= next) lower
      Left :=
  h

/- The frame is left by both, however the body ends. -/
theorem Emits.inFrame
    {lower : LowerM β} {Left : β → α → Page → Prop} (h : Emits place page emit lower Left) :
    Emits place page (EmitM.inFrame emit) (LowerM.inFrame lower) Left := by
  intro state
  have hRun := h (LowerM.pushFrame state)
  dsimp only [EmitM.inFrame, LowerM.inFrame]
  generalize lower (LowerM.pushFrame state) = lowerRun at hRun ⊢
  generalize emit ⟨place, LowerM.pushFrame state, page⟩ = emitRun at hRun ⊢
  cases hRun with
  | ok hKept hLeft => exact .ok hKept hLeft
  | error hKept => exact .error hKept

/- The level is left again, however the body ends. -/
theorem Emits.indented (h : Emits place page.indent emit lower Left) :
    Emits place page (EmitM.indented emit) lower
      fun value result last =>
        ∃ inner, Left value result inner ∧ last = inner.dedent := by
  intro state
  have hRun := h state
  dsimp only [EmitM.indented]
  generalize lower state = lowerRun at hRun ⊢
  generalize emit ⟨place, state, page.indent⟩ = emitRun at hRun ⊢
  cases hRun with
  | ok hKept hLeft => exact .ok hKept.dedent ⟨_, hLeft, rfl⟩
  | error hKept => exact .error hKept.dedent

theorem Emits.braced
    {body : EmitM Unit} {writes : β → Page → Page}
    (h : ∀ page, Emits place page body lower fun value _ last => last = writes value page) :
    Emits place page (EmitM.braced body) lower
      fun value _ last =>
        last = Target.writeBraced (writes value) page := by
  apply Emits.write
  apply Emits.endLine
  rw [← bind_pure lower]
  apply (h _).indented.bind
  rintro _ _ _ ⟨_, rfl, rfl⟩
  exact emits_write rfl

end Rules

end ScriptLowering
