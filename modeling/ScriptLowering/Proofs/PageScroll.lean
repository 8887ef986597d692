import ScriptLowering.Proofs.PageReading

/-
  A page as one long row. A scroll has no buffers: every
  buffer has a pen, which stands in the row where the next
  line of the buffer will stand, and a step changes the row
  at one pen. Whatever is done to a new page, reading it in
  order gives the row of the scroll to which the same is
  done, so that every line is read where it was written.

  Key theorems include:
    * `Desk.Sound.follows_perform`
    * `page_reads_as_written`
-/

namespace ScriptLowering

open List

-----
-- Scrolls
-----

/- Put something else where the pen of a buffer stands. -/
def Entry.atPen (number : Nat) (change : Nat → Text → Nat → List Entry) : Entry → List Entry
  | .line spot text => [.line spot text]
  | .pen spot openLine level =>
      if spot.buffer = number then
        change spot.index openLine level
      else
        [.pen spot openLine level]

/-
  Take away the line of a buffer that stands right before
  its pen, if the line under the pen is empty.
-/
def dropLine (number : Nat) : List Entry → List Entry
  | .line spot text :: .pen behind openLine level :: rest =>
      if spot.buffer = number ∧ behind.buffer = number ∧
          openLine = [] then
        .pen spot openLine level :: dropLine number rest
      else
        .line spot text :: .pen behind openLine level ::
          dropLine number rest
  | entry :: rest => entry :: dropLine number rest
  | [] => []

/-
  A row of lines and pens, the pens in use, the latest first,
  the number of pens, and the blanks for one level.
-/
structure Scroll where
  entries : List Entry
  targets : List Nat
  pens : Nat
  width : Nat

namespace Scroll

def new (width : Nat) : Scroll :=
  ⟨[.pen ⟨0, 0⟩ [] 0], [], 1, width⟩

/- The pen in use. -/
def target (scroll : Scroll) : Nat :=
  scroll.targets.headD 0

def edit (scroll : Scroll) (change : Nat → Text → Nat → List Entry) : Scroll :=
  { scroll with
    entries :=
      scroll.entries.flatMap (Entry.atPen scroll.target change) }

/- The open line with more text, indented if it had none. -/
def lengthened (width level : Nat) (openLine text : Text) : Text :=
  if text = [] then
    openLine
  else if openLine = [] then
    List.replicate (level * width) ' ' ++ text
  else
    openLine ++ text

def write (scroll : Scroll) (text : Text) : Scroll :=
  scroll.edit fun index openLine level =>
    [.pen ⟨scroll.target, index⟩ (lengthened scroll.width level openLine text) level]

def endLine (scroll : Scroll) : Scroll :=
  scroll.edit fun index openLine level =>
    [.line ⟨scroll.target, index⟩ openLine, .pen ⟨scroll.target, index + 1⟩ [] level]

/- A new pen right before the pen in use, behind whole lines. -/
def reserve (scroll : Scroll) : Scroll :=
  let edited :=
    scroll.edit fun index openLine level =>
      if openLine = [] then
        [.pen ⟨scroll.pens, 0⟩ [] 0, .pen ⟨scroll.target, index + 1⟩ [] level]
      else
        [.line ⟨scroll.target, index⟩ openLine, .pen ⟨scroll.pens, 0⟩ [] 0,
          .pen ⟨scroll.target, index + 2⟩ [] level]
  { edited with pens := scroll.pens + 1 }

def perform (scroll : Scroll) : PageStep → Scroll
  | .write text => scroll.write text
  | .writeLine text => (scroll.write text).endLine
  | .endLine => scroll.endLine
  | .indent =>
      scroll.edit fun index openLine level =>
        [.pen ⟨scroll.target, index⟩ openLine (level + 1)]
  | .dedent =>
      scroll.edit fun index openLine level =>
        [.pen ⟨scroll.target, index⟩ openLine (level - 1)]
  | .reserve => scroll.reserve
  | .pushTarget handle =>
      { scroll with targets := handle :: scroll.targets }
  | .popTarget => { scroll with targets := scroll.targets.tail }
  | .removeLine =>
      { scroll with entries := dropLine scroll.target scroll.entries }

def run (width : Nat) (steps : List PageStep) : Scroll :=
  steps.foldl perform (new width)

end Scroll

-----
-- Changes at a Pen
-----

/-
  A buffer of a page that changed at its end: only there is
  the page read in another way.
-/
structure Page.EndsAs
    (page after : Page) (target : Nat) (change : Nat → Text → Nat → List Entry) where
  old : Buffer
  new : Buffer
  extra : List Segment
  old_eq : page.buffers[target]? = some old
  new_eq : after.buffers[target]? = some new
  others :
    ∀ number buffer, number ≠ target →
      page.buffers[number]? = some buffer → after.buffers[number]? = some buffer
  segments_eq : new.segments = old.segments ++ extra
  ending :
    after.Reads target new old.segments.length extra
      (change old.segments.length old.openLine old.level)

variable {page : Page} {entries : List Entry} {scroll : Scroll}
variable {buffer : Buffer} {segments : List Segment} {number : Nat}
variable {index : Nat} {after : Page}

theorem Page.Reads.atPen
    {target : Nat} {change : Nat → Text → Nat → List Entry}
    (hEnds : page.EndsAs after target change) (h : page.Reads number buffer index segments entries)
    (hBuffer : page.buffers[number]? = some buffer)
    (hIndex : index + segments.length = buffer.segments.length) :
    (number ≠ target →
        after.Reads number buffer index segments (entries.flatMap (Entry.atPen target change))) ∧
      (number = target →
        after.Reads number hEnds.new index (segments ++ hEnds.extra)
          (entries.flatMap (Entry.atPen target change))) := by
  induction h with
  | finish number buffer index =>
    constructor
    · intro hOther
      simp only [flatMap_singleton, Entry.atPen, if_neg hOther]
      exact .finish number buffer index
    · intro hSame
      subst hSame
      rw [hEnds.old_eq] at hBuffer
      cases hBuffer
      have hEnd : index = hEnds.old.segments.length := by simpa using hIndex
      subst hEnd
      simp only [flatMap_singleton, Entry.atPen]
      exact hEnds.ending
  | line _ ih =>
    have hRest := ih hBuffer (by simp at hIndex; omega)
    exact ⟨fun hOther => .line (hRest.1 hOther), fun hSame => .line (hRest.2 hSame)⟩
  | @place _ nested _ inside _ _ _ _ hInside _ _ ihInner ihLater =>
      have hRest := ihLater hBuffer (by simp at hIndex; omega)
      have hNested := ihInner hInside (Nat.zero_add _)
      rw [flatMap_append]
      by_cases hTarget : nested = target
      · have hRead := hNested.2 hTarget
        subst hTarget
        rw [hEnds.old_eq] at hInside
        cases hInside
        rw [← hEnds.segments_eq] at hRead
        exact
          ⟨fun hOther => .place hEnds.new_eq hRead (hRest.1 hOther),
            fun hSame => .place hEnds.new_eq hRead (hRest.2 hSame)⟩
      · have hRead := hNested.1 hTarget
        have hKept := hEnds.others nested inside hTarget hInside
        exact
          ⟨fun hOther => .place hKept hRead (hRest.1 hOther),
            fun hSame => .place hKept hRead (hRest.2 hSame)⟩

theorem Page.EndsAs.readsAs
    {target : Nat} {change : Nat → Text → Nat → List Entry}
    (hEnds : page.EndsAs after target change) (h : page.ReadsAs entries) :
    after.ReadsAs (entries.flatMap (Entry.atPen target change)) := by
  rcases h with ⟨root, hRoot, hReads⟩
  have hAfter := hReads.atPen hEnds hRoot (Nat.zero_add _)
  by_cases hTarget : 0 = target
  · have hRead := hAfter.2 hTarget
    subst hTarget
    rw [hEnds.old_eq] at hRoot
    cases hRoot
    rw [← hEnds.segments_eq] at hRead
    exact ⟨_, hEnds.new_eq, hRead⟩
  · exact ⟨root, hEnds.others 0 root hTarget hRoot, hAfter.1 hTarget⟩

theorem Page.getElem?_update_self
    {old : Buffer} (h : page.buffers[page.target]? = some old) (change : Buffer → Buffer) :
    (page.update change).buffers[page.target]? = some (change old) := by
  simp [update, h]

theorem Page.getElem?_update_ne
    (hNe : number ≠ page.target) (h : page.buffers[number]? = some buffer)
    (change : Buffer → Buffer) :
    (page.update change).buffers[number]? = some buffer := by
  simp [update, h, Ne.symm hNe]

/- A change of a buffer that only adds lines. -/
def Page.endsAs_update
    {page : Page} {old : Buffer} (hOld : page.buffers[page.target]? = some old)
    (change : Buffer → Buffer) (extra : List Segment) (edit : Nat → Text → Nat → List Entry)
    (hSegments : (change old).segments = old.segments ++ extra)
    (hEnding :
      (page.update change).Reads page.target (change old) old.segments.length extra
        (edit old.segments.length old.openLine old.level)) :
    page.EndsAs (page.update change) page.target edit where
  old := old
  new := change old
  extra := extra
  old_eq := hOld
  new_eq := getElem?_update_self hOld change
  others _ _ hNe hBuffer := getElem?_update_ne hNe hBuffer change
  segments_eq := hSegments
  ending := hEnding

-----
-- Steps at a Pen
-----

/- The scroll that a page is read as. -/
structure Page.Follows (page : Page) (scroll : Scroll) : Prop where
  readsAs : page.ReadsAs scroll.entries
  targets_eq : scroll.targets = page.targets
  pens_eq : scroll.pens = page.nextPlace
  width_eq : scroll.width = page.width

theorem Page.Follows.target_eq (h : page.Follows scroll) :
    scroll.target = page.target := by
  unfold Scroll.target Page.target
  rw [h.targets_eq]

theorem Page.follows_empty (width : Nat) :
    (Page.empty width).Follows (Scroll.new width) where
  readsAs := ⟨Buffer.empty, rfl, .finish 0 Buffer.empty 0⟩
  targets_eq := rfl
  pens_eq := rfl
  width_eq := rfl

/- A change of the target that the scroll makes at its pen. -/
theorem Page.Follows.update
    (h : page.Follows scroll) (hTarget : page.target < page.buffers.length)
    {change : Buffer → Buffer} {edit : Nat → Text → Nat → List Entry}
    (extra : Buffer → List Segment)
    (hSegments : ∀ old, (change old).segments = old.segments ++ extra old)
    (hEnding :
      ∀ old,
        (page.update change).Reads page.target (change old) old.segments.length (extra old)
          (edit old.segments.length old.openLine old.level)) :
    (page.update change).Follows (scroll.edit edit) := by
  have hOld := getElem?_eq_getElem hTarget
  constructor
  · unfold Scroll.edit
    dsimp only
    rw [h.target_eq]
    exact (endsAs_update hOld change _ edit (hSegments _) (hEnding _)).readsAs h.readsAs
  · exact h.targets_eq
  · exact h.pens_eq.trans (page.length_update change).symm
  · exact h.width_eq

theorem Buffer.write_eq (width : Nat) (text : Text) (buffer : Buffer) :
    buffer.write width text =
      { buffer with
        openLine :=
          Scroll.lengthened width buffer.level buffer.openLine text } := by
  unfold Buffer.write Scroll.lengthened
  simp only [List.isEmpty_iff]
  split
  · rfl
  · split <;> rfl

theorem Page.Follows.write
    (h : page.Follows scroll) (hTarget : page.target < page.buffers.length) (text : Text) :
    (page.write text).Follows (scroll.write text) := by
  unfold Scroll.write Page.write
  rw [h.target_eq, h.width_eq]
  apply h.update hTarget fun _ => []
  · intro old
    rw [Buffer.write_eq, append_nil]
    rfl
  · intro old
    rw [Buffer.write_eq]
    exact .finish _ _ _

theorem Page.Follows.endLine
    (h : page.Follows scroll) (hTarget : page.target < page.buffers.length) :
    page.endLine.Follows scroll.endLine := by
  unfold Scroll.endLine Page.endLine
  rw [h.target_eq]
  apply h.update hTarget fun old => [.line old.openLine]
  · intro old
    simp [Buffer.segments, Buffer.endLine]
  · intro old
    exact .line (.finish _ _ _)

/- The level alone changes. -/
theorem Page.Follows.relevel
    {page : Page} {scroll : Scroll} (h : page.Follows scroll)
    (hTarget : page.target < page.buffers.length) (relevel : Nat → Nat) :
    (page.update fun buffer => { buffer with level := relevel buffer.level }).Follows
      (scroll.edit fun index openLine level =>
        [.pen ⟨scroll.target, index⟩ openLine (relevel level)]) := by
  rw [h.target_eq]
  apply h.update hTarget fun _ => []
  · intro old
    exact (append_nil _).symm
  · intro old
    exact .finish _ _ _

theorem Page.getElem?_reserve
    (h : (page.update (Buffer.reserve page.nextPlace)).buffers[number]? = some buffer) :
    page.reserve.buffers[number]? = some buffer := by
  have hLt := (List.getElem?_eq_some_iff.mp h).1
  exact (getElem?_append_left hLt).trans h

theorem Page.getElem?_reserve_new (page : Page) :
    page.reserve.buffers[page.nextPlace]? = some Buffer.empty := by
  have hLength := page.length_update (Buffer.reserve page.nextPlace)
  unfold Page.reserve
  dsimp only
  rw [getElem?_append_right (by rw [hLength]; rfl), hLength]
  simp [nextPlace]

/- A place at the end of the target, with the lines before it. -/
def Page.endsAs_reserve
    {page : Page} {old : Buffer} (hOld : page.buffers[page.target]? = some old)
    (extra : List Segment) (edit : Nat → Text → Nat → List Entry)
    (hSegments :
      (old.reserve page.nextPlace).segments = old.segments ++ extra)
    (hEnding :
      page.reserve.Reads page.target (old.reserve page.nextPlace) old.segments.length extra
        (edit old.segments.length old.openLine old.level)) :
    page.EndsAs page.reserve page.target edit where
  old := old
  new := old.reserve page.nextPlace
  extra := extra
  old_eq := hOld
  new_eq := getElem?_reserve (getElem?_update_self hOld _)
  others _ _ hNe hBuffer :=
    getElem?_reserve (getElem?_update_ne hNe hBuffer _)
  segments_eq := hSegments
  ending := hEnding

theorem Page.Follows.reserve
    (h : page.Follows scroll) (hTarget : page.target < page.buffers.length) :
    page.reserve.Follows scroll.reserve := by
  have hOld := getElem?_eq_getElem hTarget
  generalize page.buffers[page.target] = old at hOld
  have hInner :
      page.reserve.Reads page.nextPlace Buffer.empty 0
        Buffer.empty.segments [.pen ⟨page.nextPlace, 0⟩ [] 0] :=
    .finish _ _ _
  constructor
  · unfold Scroll.reserve Scroll.edit
    dsimp only
    rw [h.target_eq, h.pens_eq]
    by_cases hOpen : old.openLine = []
    · refine (endsAs_reserve hOld [.place page.nextPlace] _ ?_ ?_).readsAs h.readsAs
      · simp [Buffer.segments, Buffer.reserve, hOpen]
      · have hReads :=
          Reads.place page.getElem?_reserve_new hInner
            (.finish page.target (old.reserve page.nextPlace) (old.segments.length + 1))
        simpa [Buffer.reserve, hOpen] using hReads
    · refine
        (endsAs_reserve hOld [.line old.openLine, .place page.nextPlace] _ ?_ ?_).readsAs h.readsAs
      · simp [Buffer.segments, Buffer.reserve, Buffer.endLine, hOpen]
      · have hReads :=
          Reads.place page.getElem?_reserve_new hInner
            (.finish page.target (old.reserve page.nextPlace) (old.segments.length + 2))
        have hLine :
            page.reserve.Reads page.target _ old.segments.length (.line old.openLine :: _) _ :=
          .line hReads
        simpa [Buffer.reserve, Buffer.endLine, hOpen] using hLine
  · exact h.targets_eq
  · simp [Page.reserve, length_update, Scroll.reserve, h.pens_eq, nextPlace]
  · exact h.width_eq

-----
-- Lines That Are Taken Away
-----

/- Nothing is taken away before the end of a buffer. -/
theorem dropLine_pen
    (number : Nat) (spot : Spot) (openLine : Text) (level : Nat) (rest : List Entry) :
    dropLine number (.pen spot openLine level :: rest) =
      .pen spot openLine level :: dropLine number rest := by
  simp [dropLine]

/- A line is kept before what is no free pen of its own buffer. -/
theorem dropLine_line
    {spot : Spot} {head : Entry}
    (hHead :
      spot.buffer = number → ∀ behind level, head = .pen behind [] level → behind.buffer ≠ number)
    (text : Text) (rest : List Entry) :
    dropLine number (.line spot text :: head :: rest) =
      .line spot text :: dropLine number (head :: rest) := by
  cases head with
  | line => simp [dropLine]
  | pen behind openLine level =>
    have hKept : ¬(spot.buffer = number ∧ behind.buffer = number ∧ openLine = []) := by
      rintro ⟨hSpot, hBehind, rfl⟩
      exact hHead hSpot behind level rfl hBehind
    rw [dropLine, if_neg hKept, dropLine_pen]

/-
  What is met first in the rest of a buffer: the end of the
  buffer only if nothing is left, and otherwise a line of it
  or something in a buffer with a larger number.
-/
theorem Page.Reads.exists_head
    (hTree : page.IsTree) (h : page.Reads number buffer index segments entries)
    (hBuffer : page.buffers[number]? = some buffer) (hSegments : segments ⊆ buffer.segments) :
    ∃ head rest,
      entries = head :: rest ∧ number ≤ head.spot.buffer ∧
        (segments ≠ [] → ∀ behind openLine level,
          head = .pen behind openLine level → number < behind.buffer) := by
  induction h with
  | finish => exact ⟨_, [], rfl, Nat.le_refl _, fun hSome => absurd rfl hSome⟩
  | line =>
    refine ⟨_, _, rfl, Nat.le_refl _, ?_⟩
    intro _ behind openLine level hPen
    cases hPen
  | @place number nested buffer _ _ _ _ later hInside _ _ ihInner =>
      have hPlace : nested ∈ buffer.places := mem_filterMap.mpr ⟨_, hSegments mem_cons_self, rfl⟩
      have hLarger := hTree.holder_lt number buffer hBuffer nested hPlace
      rcases ihInner hInside (.refl _) with ⟨head, tail, rfl, hHead, -⟩
      refine ⟨head, tail ++ later, rfl, by omega, ?_⟩
      intro _ behind openLine level hPen
      rw [hPen] at hHead
      exact Nat.lt_of_lt_of_le hLarger hHead

/- A line before each pen of a buffer, which moves on. -/
def addLine (number : Nat) (text : Text) (index : Nat) (_ : Text) (level : Nat) : List Entry :=
  [.line ⟨number, index⟩ text, .pen ⟨number, index + 1⟩ [] level]

/- Lines that were added at free pens can be taken away again. -/
theorem dropLine_flatMap_addLine
    {target : Nat} (text : Text)
    (hFree :
      ∀ spot openLine level, .pen spot openLine level ∈ entries →
        spot.buffer = target → openLine = []) :
    dropLine target (entries.flatMap (Entry.atPen target (addLine target text))) =
      entries := by
  induction entries with
  | nil => rfl
  | cons entry rest ih =>
    have hRest := ih fun spot openLine level hMem =>
      hFree spot openLine level (mem_cons_of_mem _ hMem)
    rw [flatMap_cons]
    cases entry with
    | pen spot openLine level =>
      by_cases hSpot : spot.buffer = target
      · have hOpen := hFree spot openLine level mem_cons_self hSpot
        subst hSpot hOpen
        simp [Entry.atPen, addLine, dropLine, hRest]
      · simp only [Entry.atPen, if_neg hSpot, singleton_append]
        rw [dropLine_pen, hRest]
    | line =>
      -- What comes next is a line again, or a pen of another buffer.
      cases rest with
      | nil => rfl
      | cons next =>
        rw [flatMap_cons] at hRest ⊢
        cases next with
        | line => simpa [Entry.atPen, dropLine] using hRest
        | pen behind =>
          by_cases hBehind : behind.buffer = target
          · simpa [Entry.atPen, addLine, hBehind, dropLine] using hRest
          · simpa [Entry.atPen, hBehind, dropLine] using hRest

/- Without a line right before its pen a buffer loses none. -/
theorem Page.Reads.dropLine_eq_self
    {target : Nat} (hTree : page.IsTree)
    (hKept :
      ∀ old, page.buffers[target]? = some old → old.openLine = [] →
        ∀ text, ¬[.line text] <:+ old.segments)
    (h : page.Reads number buffer index segments entries)
    (hBuffer : page.buffers[number]? = some buffer) (hSuffix : segments <:+ buffer.segments)
    (behind : List Entry) :
    ScriptLowering.dropLine target (entries ++ behind) =
      entries ++ ScriptLowering.dropLine target behind := by
  induction h generalizing behind with
  | finish => exact dropLine_pen _ _ _ _ _
  | @line number buffer _ text rest _ hLater ih =>
    have hRest : rest <:+ buffer.segments := (suffix_cons _ _).trans hSuffix
    have hDrop := ih hBuffer hRest behind
    rcases hLater.exists_head hTree hBuffer hRest.subset with ⟨head, _, rfl, -, hHead⟩
    have hNext :
        number = target → ∀ other level, head = .pen other [] level → other.buffer ≠ target := by
      intro hEq other level hPen hBack
      by_cases hNil : rest = []
      · -- The end of the buffer: its open line must have text.
        subst hEq hNil
        cases hLater
        injection hPen with _ hOpen
        exact hKept buffer hBuffer hOpen text hSuffix
      · have hLt := hHead hNil _ _ _ hPen
        omega
    rw [cons_append, cons_append, dropLine_line hNext, ← cons_append, hDrop]
    rfl
  | place hInside _ _ ihInner ihLater =>
    have hRest := (suffix_cons _ _).trans hSuffix
    rw [append_assoc, ihInner hInside (suffix_refl _), ihLater hBuffer hRest, append_assoc]

/- A buffer has a line to lose, or removing one changes nothing. -/
theorem Buffer.removeLine_cases (buffer : Buffer) :
    (∃ text,
        buffer.segments = buffer.removeLine.segments ++ [.line text] ∧ buffer.openLine = [] ∧
          buffer.removeLine.openLine = [] ∧
          buffer.removeLine.level = buffer.level) ∨
      (buffer.removeLine = buffer ∧
        (buffer.openLine = [] → ∀ text, ¬[.line text] <:+ buffer.segments)) := by
  rcases buffer with ⟨latest, openLine, _⟩
  unfold removeLine lastLine? segments
  dsimp only
  cases openLine with
  | cons => exact .inr ⟨rfl, fun hNil => nomatch hNil⟩
  | nil =>
    cases latest with
    | nil => exact .inr ⟨rfl, fun _ text hText => by simp at hText⟩
    | cons segment =>
      cases segment with
      | line text => exact .inl ⟨text, reverse_cons, rfl, rfl, rfl⟩
      | place =>
        refine .inr ⟨rfl, fun _ text hText => ?_⟩
        have hLast := hText.getLast (cons_ne_nil _ _)
        simp at hLast

/-
  A page that lost a line is read without it: the page was
  read with the line added at the pen.
-/
theorem Page.ReadsAs.removeLine
    {old : Buffer} {text : Text} (h : page.ReadsAs entries) (hTree : page.removeLine.IsTree)
    (hOld : page.buffers[page.target]? = some old)
    (hSegments : old.segments = old.removeLine.segments ++ [.line text]) (hOpen : old.openLine = [])
    (hNewOpen : old.removeLine.openLine = []) (hLevel : old.removeLine.level = old.level) :
    page.removeLine.ReadsAs (dropLine page.target entries) := by
  have hNew : page.removeLine.buffers[page.target]? = some old.removeLine :=
    getElem?_update_self hOld Buffer.removeLine
  have hRoot : 0 < page.removeLine.buffers.length :=
    Nat.zero_lt_of_lt (List.getElem?_eq_some_iff.mp hNew).1
  rcases hTree.exists_readsAs hRoot with ⟨_, hKept⟩
  have hEnding :
      page.Reads page.target old old.removeLine.segments.length [.line text]
        (addLine page.target text old.removeLine.segments.length
          old.removeLine.openLine old.removeLine.level) := by
    rw [hLevel, addLine, ← hOpen]
    exact .line (.finish _ _ _)
  have hEnds : page.removeLine.EndsAs page page.target (addLine page.target text) :=
    { old := old.removeLine
      new := old
      extra := [.line text]
      old_eq := hNew
      new_eq := hOld
      others := by
        intro number buffer hNe hBuffer
        rcases getElem?_update hBuffer with ⟨_, hSame, hEq⟩
        rw [hEq, if_neg (Ne.symm hNe)]
        exact hSame
      segments_eq := hSegments
      ending := hEnding }
  rw [h.unique (hEnds.readsAs hKept), dropLine_flatMap_addLine]
  · exact hKept
  · intro spot openLine level hMem hSpot
    rcases ((hTree.nodup_and_mem_iff_holds hKept).2 _).mp hMem with ⟨_, hFound, -, hLine, -⟩
    rw [Entry.spot, hSpot, hNew] at hFound
    cases hFound
    rw [hLine, hNewOpen]

theorem Page.ReadsAs.dropLine_eq_self
    {target : Nat} (h : page.ReadsAs entries) (hTree : page.IsTree)
    (hKept :
      ∀ old, page.buffers[target]? = some old → old.openLine = [] →
        ∀ text, ¬[.line text] <:+ old.segments) :
    dropLine target entries = entries := by
  rcases h with ⟨_, hRoot, hReads⟩
  have hEntries := hReads.dropLine_eq_self hTree hKept hRoot (suffix_refl _) []
  rw [dropLine, append_nil] at hEntries
  exact hEntries

theorem Page.update_eq_self
    {old : Buffer} (hOld : page.buffers[page.target]? = some old) {change : Buffer → Buffer}
    (h : change old = old) :
    page.update change = page := by
  have hBuffers : page.buffers.modify page.target change = page.buffers := by
    apply ext_getElem?
    intro number
    rw [getElem?_modify]
    by_cases hNumber : page.target = number
    · subst hNumber
      simp [hOld, h]
    · simp [hNumber]
  unfold update
  rw [hBuffers]

theorem Page.Follows.removeLine
    (h : page.Follows scroll) (hTree : page.IsTree) (hTarget : page.target < page.buffers.length) :
    page.removeLine.Follows
      { scroll with
        entries := dropLine scroll.target scroll.entries } := by
  have hOld := getElem?_eq_getElem hTarget
  generalize page.buffers[page.target] = old at hOld
  refine ⟨?_, h.targets_eq, h.pens_eq.trans (page.length_update _).symm, h.width_eq⟩
  dsimp only
  rw [h.target_eq]
  rcases old.removeLine_cases with ⟨_, hSegments, hOpen, hNewOpen, hLevel⟩ | ⟨hSame, hKept⟩
  · have hAfter := hTree.update hTarget Buffer.places_removeLine
    exact h.readsAs.removeLine hAfter hOld hSegments hOpen hNewOpen hLevel
  · have hPage : page.removeLine = page := update_eq_self hOld hSame
    rw [hPage, h.readsAs.dropLine_eq_self hTree]
    · exact h.readsAs
    · intro other hOther
      rw [hOld] at hOther
      cases hOther
      exact hKept

-----
-- Whole Runs
-----

/- Reading looks at the buffers only. -/
theorem Page.Reads.retarget
    (h : page.Reads number buffer index segments entries) (targets : List Nat) :
    { page with targets := targets }.Reads number buffer index segments
      entries := by
  induction h with
  | finish number buffer index => exact .finish number buffer index
  | line _ ih => exact .line ih
  | place hInside _ _ ihInner ihLater => exact .place hInside ihInner ihLater

/- The same choice of what is written to. -/
theorem Page.Follows.retarget (h : page.Follows scroll) (targets : List Nat) :
    { page with targets := targets }.Follows { scroll with targets := targets } := by
  rcases h.readsAs with ⟨root, hRoot, hReads⟩
  exact ⟨⟨root, hRoot, hReads.retarget targets⟩, rfl, h.pens_eq, h.width_eq⟩

/- A step of the desk is the same step of the scroll. -/
theorem Desk.Sound.follows_perform
    {desk next : Desk} (hSound : desk.Sound) (h : desk.page.Follows scroll) {step : PageStep}
    (hStep : desk.perform step = some next) :
    next.page.Follows (scroll.perform step) := by
  have hTarget := hSound.target_lt
  cases step with
  | write text =>
    cases hStep
    exact h.write hTarget text
  | writeLine text =>
    cases hStep
    have hLength := desk.page.length_update (Buffer.write desk.page.width text)
    exact (h.write hTarget text).endLine (hTarget.trans_eq hLength.symm)
  | endLine =>
    cases hStep
    exact h.endLine hTarget
  | indent =>
    cases hStep
    exact h.relevel hTarget (· + 1)
  | dedent =>
    cases hStep
    exact h.relevel hTarget (· - 1)
  | reserve =>
    cases hStep
    exact h.reserve hTarget
  | pushTarget handle =>
    rcases Option.ite_none_right_eq_some.mp hStep with ⟨-, hNext⟩
    cases hNext
    simp only [Scroll.perform, h.targets_eq]
    exact h.retarget (handle :: desk.page.targets)
  | popTarget =>
    cases hStep
    simp only [Scroll.perform, h.targets_eq]
    exact h.retarget desk.page.targets.tail
  | removeLine =>
    cases hStep
    exact h.removeLine hSound.isTree hTarget

theorem Desk.Sound.follows_performAll
    {desk last : Desk} (hSound : desk.Sound) (h : desk.page.Follows scroll) {steps : List PageStep}
    (hSteps : desk.performAll steps = some last) :
    last.page.Follows (steps.foldl Scroll.perform scroll) := by
  induction steps generalizing desk scroll with
  | nil =>
    cases hSteps
    exact h
  | cons _ _ ih =>
    rcases Option.bind_eq_some_iff.mp hSteps with ⟨_, hNext, hRest⟩
    exact ih (hSound.perform hNext) (hSound.follows_perform h hNext) hRest

/-
  Whatever is done to a new page, with handles that it gave
  out: its buffers form a tree, reading it in order meets
  each line and each open line once, where the scroll has
  it, and the loop over a stack of positions ends with the
  text that is read.
-/
theorem page_reads_as_written
    {width : Nat} {steps : List PageStep} {desk : Desk} (h : Desk.run width steps = some desk) :
    desk.page.IsTree ∧
      ∃ entries,
        desk.page.ReadsAs entries ∧ (∀ others, desk.page.ReadsAs others → others = entries) ∧
          entries = (Scroll.run width steps).entries ∧
          entries.Nodup ∧
          (∀ entry, entry ∈ entries ↔ desk.page.Holds entry) ∧
          desk.page.FlattensTo (entries.flatMap Entry.text) ∧
          desk.page.rawText = entries.flatMap Entry.text := by
  have hSound := Desk.sound_run h
  have hFollows := (Desk.sound_new width).follows_performAll (Page.follows_empty width) h
  have hReads := hFollows.readsAs
  rcases hSound.isTree.nodup_and_mem_iff_holds hReads with ⟨hNodup, hHolds⟩
  exact
    ⟨hSound.isTree, _, hReads, fun _ hOther => hOther.unique hReads, rfl,
      hNodup, hHolds, hReads.flattensTo,
      hSound.isTree.rawText_eq hReads⟩

/-
  A line that is closed by a place, a place inside a place, a
  label that is taken away again, and an open line.
-/
def nestedSteps : List PageStep :=
  [.write "a", .reserve, .writeLine "d", .pushTarget 1,
    .writeLine "b", .reserve, .writeLine "label", .removeLine,
    .pushTarget 2, .indent, .write "c", .popTarget, .popTarget,
    .popTarget, .writeLine "e"]

theorem nestedSteps_read_as_written :
    ∃ desk,
      Desk.run 4 nestedSteps = some desk ∧ desk.page.IsTree ∧
        desk.page.FlattensTo "a\nb\n    c\nd\ne\n" := by
  have hRun : Desk.run 4 nestedSteps = some _ := rfl
  rcases page_reads_as_written hRun with ⟨hTree, entries, -, -, hEntries, -, -, hFlatten, -⟩
  have hText : entries.flatMap Entry.text = "a\nb\n    c\nd\ne\n".toList := by
    rw [hEntries]
    decide +kernel
  refine ⟨_, hRun, hTree, ?_⟩
  rw [hText] at hFlatten
  exact hFlatten

end ScriptLowering
