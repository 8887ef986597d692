import Mathlib.Data.List.Nodup
import Mathlib.Data.List.Perm.Basic
import Mathlib.Data.List.Range
import ScriptLowering.Layout.Page

/-
  The buffers of a page form a tree: every buffer but the
  root has one place, in a buffer that was reserved before
  it. Whatever is done to a new page, this stays so.

  Key theorems include:
    * `Desk.Sound.perform`
    * `Desk.sound_run`
-/

namespace ScriptLowering

open List

-----
-- Steps
-----

/- What can be done to a page. -/
inductive PageStep where
  | write (text : Text)
  | writeLine (text : Text)
  | endLine
  | indent
  | dedent
  | reserve
  | pushTarget (handle : Nat)
  | popTarget
  | removeLine
deriving DecidableEq, Repr

/- A page and the handles that reserving places gave out. -/
structure Desk where
  page : Page
  handles : List Nat

namespace Desk

def new (width : Nat) : Desk :=
  ⟨Page.empty width, []⟩

/- Perform a step. Only a handle that was given out can be used. -/
def perform (desk : Desk) : PageStep → Option Desk
  | .write text => some { desk with page := desk.page.write text }
  | .writeLine text =>
      some { desk with page := desk.page.writeLine text }
  | .endLine => some { desk with page := desk.page.endLine }
  | .indent => some { desk with page := desk.page.indent }
  | .dedent => some { desk with page := desk.page.dedent }
  | .reserve =>
      some ⟨desk.page.reserve, desk.page.nextPlace :: desk.handles⟩
  | .pushTarget handle =>
      if handle ∈ desk.handles then
        some { desk with page := desk.page.pushTarget handle }
      else
        none
  | .popTarget => some { desk with page := desk.page.popTarget }
  | .removeLine => some { desk with page := desk.page.removeLine }

def performAll (desk : Desk) : List PageStep → Option Desk
  | [] => some desk
  | step :: rest => do
      let next ← desk.perform step
      next.performAll rest

def run (width : Nat) (steps : List PageStep) : Option Desk :=
  (new width).performAll steps

end Desk

-----
-- The Tree of Places
-----

/- The buffers that have their place in a buffer. -/
def Buffer.places (buffer : Buffer) : List Nat :=
  buffer.segments.filterMap Segment.place?

namespace Page

/- All places of a page, buffer by buffer. -/
def places (page : Page) : List Nat :=
  page.buffers.flatMap Buffer.places

/-
  Every buffer but the root has exactly one place, the root
  has none, and a place stands in a buffer with a smaller
  number than its own.
-/
structure IsTree (page : Page) : Prop where
  count_places :
    ∀ number, page.places.count number = if 0 < number ∧ number < page.buffers.length then 1 else 0
  holder_lt :
    ∀ (holder : Nat) (buffer : Buffer),
      page.buffers[holder]? = some buffer → ∀ number ∈ buffer.places, holder < number

variable {page : Page}

theorem IsTree.place_lt
    (h : page.IsTree) {holder number : Nat} {buffer : Buffer}
    (hBuffer : page.buffers[holder]? = some buffer) (hPlace : number ∈ buffer.places) :
    number < page.buffers.length := by
  have hMem : number ∈ page.places := mem_flatMap.mpr ⟨buffer, mem_of_getElem? hBuffer, hPlace⟩
  have hCount := count_pos_iff.mpr hMem
  rw [h.count_places number] at hCount
  split at hCount
  · next hNumber => exact hNumber.2
  · exact absurd hCount (Nat.lt_irrefl 0)

/- All places are all numbers behind the root, in some order. -/
theorem IsTree.places_perm (h : page.IsTree) :
    page.places.Perm (range' 1 (page.buffers.length - 1)) := by
  apply perm_iff_count.mpr
  intro number
  rw [h.count_places, List.Nodup.count (nodup_range' 1)]
  simp only [mem_range'_1]
  congr 1
  apply propext
  constructor <;> intro hNumber <;> omega

-----
-- Steps Keep the Tree
-----

/- The buffers around the one that is written to. -/
theorem exists_split_target (h : page.target < page.buffers.length) :
    ∃ before buffer after,
      page.buffers = before ++ buffer :: after ∧ page.target = before.length := by
  refine
    ⟨page.buffers.take page.target, page.buffers[page.target],
      page.buffers.drop (page.target + 1), ?_, ?_⟩
  · simp
  · simp
    omega

theorem buffers_update
    {before after : List Buffer} {buffer : Buffer}
    (hBuffers : page.buffers = before ++ buffer :: after) (hTarget : page.target = before.length)
    (change : Buffer → Buffer) :
    (page.update change).buffers = before ++ change buffer :: after := by
  simp [update, hBuffers, hTarget, modify_eq_take_drop]

theorem getElem?_update
    {change : Buffer → Buffer} {number : Nat} {changed : Buffer}
    (h : (page.update change).buffers[number]? = some changed) :
    ∃ old,
      page.buffers[number]? = some old ∧
        changed = if page.target = number then change old else old := by
  unfold update at h
  rw [getElem?_modify] at h
  rcases Option.map_eq_some_iff.mp h with ⟨old, hOld, hChanged⟩
  exact ⟨old, hOld, hChanged.symm⟩

theorem length_update (page : Page) (change : Buffer → Buffer) :
    (page.update change).buffers.length = page.buffers.length :=
  length_modify _ _ _

/- A change that keeps the places of a buffer keeps the tree. -/
theorem IsTree.update
    (h : page.IsTree) (hTarget : page.target < page.buffers.length) {change : Buffer → Buffer}
    (hChange : ∀ buffer, (change buffer).places = buffer.places) :
    (page.update change).IsTree := by
  rcases exists_split_target hTarget with ⟨_, _, _, hBuffers, hLength⟩
  have hUpdated := buffers_update hBuffers hLength change
  constructor
  · intro number
    have hCount := h.count_places number
    simpa [places, hBuffers, hUpdated, hChange] using hCount
  · intro holder changed hChanged number hNumber
    rcases getElem?_update hChanged with ⟨old, hOld, rfl⟩
    apply h.holder_lt holder old hOld
    split at hNumber
    · rwa [hChange] at hNumber
    · exact hNumber

end Page

theorem Buffer.places_write (width : Nat) (text : Text) (buffer : Buffer) :
    (buffer.write width text).places = buffer.places := by
  unfold Buffer.write
  split
  · rfl
  · split <;> rfl

theorem Buffer.places_endLine (buffer : Buffer) :
    buffer.endLine.places = buffer.places := by
  simp [places, segments, endLine, Segment.place?]

theorem Buffer.places_removeLine (buffer : Buffer) :
    buffer.removeLine.places = buffer.places := by
  unfold removeLine lastLine?
  split
  · next line hLine =>
    split at hLine
    · rcases Option.bind_eq_some_iff.mp hLine with ⟨segment, hHead, hSegment⟩
      rcases head?_eq_some_iff.mp hHead with ⟨_, hLatest⟩
      cases segment with
      | place => cases hSegment
      | line => simp [places, segments, hLatest, Segment.place?]
    · cases hLine
  · rfl

theorem Buffer.places_reserve (number : Nat) (buffer : Buffer) :
    (buffer.reserve number).places = buffer.places ++ [number] := by
  have hPlaced :
      ∀ closed : Buffer,
        { closed with latest := .place number :: closed.latest }.places =
          closed.places ++ [number] := by
    intro closed
    simp [places, segments, Segment.place?]
  unfold reserve
  split
  · exact hPlaced buffer
  · exact (hPlaced buffer.endLine).trans (by rw [places_endLine])

namespace Page

theorem IsTree.reserve
    {page : Page} (h : page.IsTree) (hTarget : page.target < page.buffers.length) :
    page.reserve.IsTree := by
  rcases exists_split_target hTarget with ⟨before, buffer, after, hBuffers, hLength⟩
  have hReserved :
      page.reserve.buffers =
        before ++ buffer.reserve page.nextPlace :: after ++ [Buffer.empty] := by
    unfold Page.reserve
    dsimp only
    rw [buffers_update hBuffers hLength]
  have hNext : page.nextPlace = before.length + after.length + 1 := by
    simp [nextPlace, hBuffers]
    omega
  constructor
  · intro number
    have hCount := h.count_places number
    have hEmpty : Buffer.empty.places = [] := rfl
    simp only [places, hBuffers, hReserved, flatMap_append,
      flatMap_cons, flatMap_nil, Buffer.places_reserve,
      count_append, length_append, length_cons,
      length_nil, hEmpty, count_nil, count_singleton,
      beq_iff_eq] at hCount ⊢
    split_ifs at hCount ⊢ <;> omega
  · intro holder changed hChanged number hNumber
    by_cases hHolder : holder < page.buffers.length
    · have hOld :
          (page.update (Buffer.reserve page.nextPlace)).buffers[holder]? = some changed := by
        rw [← hChanged]
        exact (getElem?_append_left (by rwa [length_update])).symm
      rcases getElem?_update hOld with ⟨old, hBuffer, rfl⟩
      split at hNumber
      · rw [Buffer.places_reserve] at hNumber
        rcases mem_append.mp hNumber with hBefore | hNew
        · exact h.holder_lt holder old hBuffer number hBefore
        · rw [mem_singleton.mp hNew]
          exact hHolder
      · exact h.holder_lt holder old hBuffer number hNumber
    · have hNew : changed = Buffer.empty := by
        unfold Page.reserve at hChanged
        dsimp only at hChanged
        rw [getElem?_append_right (by rw [length_update]; omega)] at hChanged
        exact mem_singleton.mp (mem_of_getElem? hChanged)
      rw [hNew] at hNumber
      cases hNumber

theorem isTree_empty (width : Nat) :
    (empty width).IsTree := by
  constructor
  · intro number
    have hNone : ¬(0 < number ∧ number < (empty width).buffers.length) := by
      simp [empty]
      omega
    rw [if_neg hNone]
    rfl
  · intro holder buffer hBuffer number hNumber
    rw [mem_singleton.mp (mem_of_getElem? hBuffer)] at hNumber
    cases hNumber

end Page

/-
  The buffers form a tree, and all that is written to or can
  be written to is one of them.
-/
structure Desk.Sound (desk : Desk) : Prop where
  isTree : desk.page.IsTree
  root : 0 < desk.page.buffers.length
  targets :
    ∀ number ∈ desk.page.targets, number < desk.page.buffers.length
  handles :
    ∀ number ∈ desk.handles, number < desk.page.buffers.length

namespace Desk

variable {desk : Desk}

theorem Sound.target_lt (h : desk.Sound) :
    desk.page.target < desk.page.buffers.length := by
  unfold Page.target
  cases hTargets : desk.page.targets with
  | nil => exact h.root
  | cons number => exact h.targets number (hTargets ▸ mem_cons_self)

theorem sound_new (width : Nat) :
    (new width).Sound where
  isTree := Page.isTree_empty width
  root := Nat.one_pos
  targets _ hNumber := absurd hNumber not_mem_nil
  handles _ hNumber := absurd hNumber not_mem_nil

/- A change of the buffer that is written to. -/
theorem Sound.update
    (h : desk.Sound) {change : Buffer → Buffer}
    (hChange : ∀ buffer, (change buffer).places = buffer.places) :
    { desk with page := desk.page.update change }.Sound := by
  have hLength := desk.page.length_update change
  constructor
  · exact h.isTree.update h.target_lt hChange
  · rw [hLength]
    exact h.root
  · rw [hLength]
    exact h.targets
  · rw [hLength]
    exact h.handles

/- Another choice of what is written to. -/
theorem Sound.retarget
    (h : desk.Sound) {targets : List Nat}
    (hTargets : ∀ number ∈ targets, number < desk.page.buffers.length) :
    { desk with
      page := { desk.page with targets := targets } }.Sound :=
  ⟨⟨h.isTree.count_places, h.isTree.holder_lt⟩, h.root, hTargets, h.handles⟩

theorem Sound.perform
    {next : Desk} (h : desk.Sound) {step : PageStep} (hStep : desk.perform step = some next) :
    next.Sound := by
  cases step with
  | write text =>
    cases hStep
    exact h.update (Buffer.places_write _ text)
  | writeLine text =>
    cases hStep
    exact (h.update (Buffer.places_write _ text)).update Buffer.places_endLine
  | endLine =>
    cases hStep
    exact h.update Buffer.places_endLine
  | indent | dedent =>
    cases hStep
    exact h.update fun _ => rfl
  | reserve =>
    cases hStep
    have hLength : desk.page.reserve.buffers.length = desk.page.buffers.length + 1 := by
      simp [Page.reserve, Page.length_update]
    constructor
    · exact h.isTree.reserve h.target_lt
    · dsimp only
      omega
    · intro number hNumber
      have hOld := h.targets number hNumber
      dsimp only
      omega
    · intro number hNumber
      dsimp only
      rcases mem_cons.mp hNumber with rfl | hOld
      · unfold Page.nextPlace
        omega
      · have hBefore := h.handles number hOld
        omega
  | pushTarget =>
    rcases Option.ite_none_right_eq_some.mp hStep with ⟨hHandle, hNext⟩
    cases hNext
    apply h.retarget
    exact forall_mem_cons.mpr ⟨h.handles _ hHandle, h.targets⟩
  | popTarget =>
    cases hStep
    apply h.retarget
    intro number hNumber
    exact h.targets number (mem_of_mem_tail hNumber)
  | removeLine =>
    cases hStep
    exact h.update Buffer.places_removeLine

theorem Sound.performAll
    {last : Desk} (h : desk.Sound) {steps : List PageStep}
    (hSteps : desk.performAll steps = some last) :
    last.Sound := by
  induction steps generalizing desk with
  | nil =>
    cases hSteps
    exact h
  | cons _ _ ih =>
    rcases Option.bind_eq_some_iff.mp hSteps with ⟨_, hNext, hRest⟩
    exact ih (h.perform hNext) hRest

theorem sound_run {width : Nat} {steps : List PageStep} (h : run width steps = some desk) :
    desk.Sound :=
  (sound_new width).performAll h

end Desk

end ScriptLowering
