import ScriptLowering.Proofs.DepthFirst
import ScriptLowering.Proofs.PageTree

/-
  A page whose buffers form a tree can be read in order. Each
  line is read once, a loop over a stack of positions comes
  to its end with the text that is read, and so do the lines
  of the page.

  Key theorems include:
    * `Page.ReadsAs.flattensTo`
    * `Page.IsTree.lines_eq`
-/

namespace ScriptLowering

open List

-----
-- Reading in Order
-----

/- A number of a buffer, and how much of the buffer stands before. -/
structure Spot where
  buffer : Nat
  index : Nat
deriving DecidableEq, Repr

/-
  What is met in reading: a closed line, or the end of a
  buffer, where its open line stands.
-/
inductive Entry where
  | line (spot : Spot) (text : Text)
  | pen (spot : Spot) (openLine : Text) (level : Nat)
deriving DecidableEq, Repr

namespace Entry

def spot : Entry → Spot
  | line spot _ => spot
  | pen spot _ _ => spot

/- The line that is read; an open line without text is none. -/
def line? : Entry → Option Text
  | line _ text => some text
  | pen _ openLine _ => if openLine.isEmpty then none else some openLine

/- The buffer that ends here. -/
def pen? : Entry → Option Nat
  | line _ _ => none
  | pen spot _ _ => some spot.buffer

/- The line with its line break. -/
def text (entry : Entry) : Text :=
  match entry.line? with
  | some content => content ++ "\n"
  | none => []

end Entry

namespace Page

/-
  Reading the rest of a buffer: a line is read where it
  stands, and a place by reading the buffer that it is for.
-/
inductive Reads (page : Page) :
    Nat → Buffer → Nat → List Segment → List Entry → Prop
  | finish (number : Nat) (buffer : Buffer) (index : Nat) :
      Reads page number buffer index [] [.pen ⟨number, index⟩ buffer.openLine buffer.level]
  | line
      {number : Nat} {buffer : Buffer} {index : Nat} {text : Text} {rest : List Segment}
      {later : List Entry} (hLater : Reads page number buffer (index + 1) rest later) :
      Reads page number buffer index (.line text :: rest) (.line ⟨number, index⟩ text :: later)
  | place
      {number nested : Nat} {buffer inside : Buffer} {index : Nat} {rest : List Segment}
      {inner later : List Entry} (hInside : page.buffers[nested]? = some inside)
      (hInner : Reads page nested inside 0 inside.segments inner)
      (hLater : Reads page number buffer (index + 1) rest later) :
      Reads page number buffer index (.place nested :: rest) (inner ++ later)

/- Reading the whole page. -/
def ReadsAs (page : Page) (entries : List Entry) : Prop :=
  ∃ root, page.buffers[0]? = some root ∧ page.Reads 0 root 0 root.segments entries

variable {page : Page} {entries : List Entry} {segments : List Segment}
variable {number index : Nat} {entry : Entry}

theorem Reads.unique
    {buffer : Buffer} {others : List Entry} (h : page.Reads number buffer index segments entries)
    (hOther : page.Reads number buffer index segments others) :
    entries = others := by
  induction h generalizing others with
  | finish =>
    cases hOther
    rfl
  | line _ ih =>
    cases hOther with
    | line hLater => rw [ih hLater]
  | place hInside _ _ ihInner ihLater =>
    cases hOther with
    | place hSame hInner hLater =>
      rw [hInside] at hSame
      cases hSame
      rw [ihInner hInner, ihLater hLater]

theorem ReadsAs.unique
    {others : List Entry} (h : page.ReadsAs entries) (hOther : page.ReadsAs others) :
    entries = others := by
  rcases h with ⟨_, hRoot, hReads⟩
  rcases hOther with ⟨_, hSame, hOther⟩
  rw [hRoot] at hSame
  cases hSame
  exact hReads.unique hOther

/- Places lead to larger numbers only, so reading comes to an end. -/
theorem IsTree.exists_reads
    (h : page.IsTree) (number : Nat) (buffer : Buffer)
    (hBuffer : page.buffers[number]? = some buffer) :
    ∃ entries, page.Reads number buffer 0 buffer.segments entries := by
  have hPlaces :
      ∀ segments : List Segment, segments ⊆ buffer.segments →
        ∀ index, ∃ entries, page.Reads number buffer index segments entries := by
    intro segments
    induction segments with
    | nil => exact fun _ index => ⟨_, .finish number buffer index⟩
    | cons segment _ ih =>
      intro hSegments index
      rcases cons_subset.mp hSegments with ⟨hSegment, hRest⟩
      rcases ih hRest (index + 1) with ⟨_, hLater⟩
      cases segment with
      | line => exact ⟨_, .line hLater⟩
      | place nested =>
        have hPlace : nested ∈ buffer.places := mem_filterMap.mpr ⟨_, hSegment, rfl⟩
        have hLarger := h.holder_lt number buffer hBuffer nested hPlace
        have hNested := h.place_lt hBuffer hPlace
        have hInside := getElem?_eq_getElem hNested
        rcases h.exists_reads nested _ hInside with ⟨_, hInner⟩
        exact ⟨_, .place hInside hInner hLater⟩
  exact hPlaces buffer.segments (.refl _) 0
termination_by page.buffers.length - number

theorem IsTree.exists_readsAs (h : page.IsTree) (hRoot : 0 < page.buffers.length) :
    ∃ entries, page.ReadsAs entries := by
  have hBuffer := getElem?_eq_getElem hRoot
  rcases h.exists_reads 0 _ hBuffer with ⟨entries, hReads⟩
  exact ⟨entries, _, hBuffer, hReads⟩

-----
-- Each Line Once
-----

/- What a buffer holds itself, from one of its segments on. -/
def own (number : Nat) (buffer : Buffer) : Nat → List Segment → List Entry
  | index, [] =>
      [.pen ⟨number, index⟩ buffer.openLine buffer.level]
  | index, .line text :: rest =>
      .line ⟨number, index⟩ text :: own number buffer (index + 1) rest
  | index, .place _ :: rest => own number buffer (index + 1) rest

def buffer (page : Page) (number : Nat) : Buffer :=
  page.buffers[number]?.getD Buffer.empty

/- What all buffers hold, buffer by buffer. -/
def holdings (page : Page) : List Entry :=
  (List.range page.buffers.length).flatMap fun number =>
    own number (page.buffer number) 0 (page.buffer number).segments

/- An entry is the closed line or the open line at its spot. -/
def Holds (page : Page) (entry : Entry) : Prop :=
  ∃ buffer,
    page.buffers[entry.spot.buffer]? = some buffer ∧
      match entry with
      | .line spot text =>
          buffer.segments[spot.index]? = some (.line text)
      | .pen spot openLine level =>
          spot.index = buffer.segments.length ∧ openLine = buffer.openLine ∧ level = buffer.level

/- Reading a buffer meets its own lines and what its places hold. -/
theorem Reads.perm_own
    {buffer : Buffer} (h : page.Reads number buffer index segments entries)
    {reading : Nat → List Entry}
    (hReading :
      ∀ nested inside inner,
        page.buffers[nested]? = some inside → page.Reads nested inside 0 inside.segments inner →
          reading nested = inner) :
    entries.Perm
      (own number buffer index segments ++
        (segments.filterMap Segment.place?).flatMap reading) := by
  induction h with
  | finish => exact .refl _
  | line _ ih => exact ih.cons _
  | @place _ nested _ _ _ rest inner later hInside hInner _ _ ihLater =>
    have hNested := hReading _ _ _ hInside hInner
    show (inner ++ later).Perm
      (_ ++ (reading nested ++ (rest.filterMap Segment.place?).flatMap reading))
    rw [hNested]
    exact (ihLater.append_left inner).trans (perm_append_comm_assoc _ _ _)

theorem buffers_eq_map (page : Page) :
    page.buffers = (range page.buffers.length).map page.buffer := by
  apply ext_getElem
  · simp
  · intro number hNumber _
    simp [buffer, getElem?_eq_getElem hNumber]

theorem places_eq (page : Page) :
    page.places =
      (range page.buffers.length).flatMap fun number =>
        (page.buffer number).places := by
  have hPlaces := congrArg (flatMap Buffer.places) page.buffers_eq_map
  rwa [flatMap_map] at hPlaces

/-
  The page is read as all that its buffers hold. Reading all
  buffers one by one meets what they hold, and what is read
  at all places. The places are all buffers but the root, so
  reading these cancels.
-/
theorem IsTree.perm_holdings (h : page.IsTree) (hEntries : page.ReadsAs entries) :
    entries.Perm page.holdings := by
  have hExists :
      ∀ number, ∃ inner, ∀ buffer,
        page.buffers[number]? = some buffer → page.Reads number buffer 0 buffer.segments inner := by
    intro number
    cases hBuffer : page.buffers[number]? with
    | none => exact ⟨[], fun _ hSome => nomatch hSome⟩
    | some buffer =>
      rcases h.exists_reads number buffer hBuffer with ⟨inner, hInner⟩
      refine ⟨inner, ?_⟩
      intro other hOther
      cases hOther
      exact hInner
  choose reading hReads using hExists
  have hReading :
      ∀ nested inside inner,
        page.buffers[nested]? = some inside → page.Reads nested inside 0 inside.segments inner →
          reading nested = inner := fun nested inside inner hInside hInner =>
    (hReads nested inside hInside).unique hInner
  rcases hEntries with ⟨root, hRoot, hRootReads⟩
  have hSize : 0 < page.buffers.length := (List.getElem?_eq_some_iff.mp hRoot).1
  let rest := range' 1 (page.buffers.length - 1)
  have hAll : range page.buffers.length = 0 :: rest := by
    rw [range_eq_range', ← Nat.succ_pred_eq_of_pos hSize]
    rfl
  have hPlaces :
      ((range page.buffers.length).flatMap fun number =>
          (page.buffer number).places.flatMap reading).Perm
        (rest.flatMap reading) := by
    rw [← flatMap_assoc]
    apply List.Perm.flatMap_right
    rw [← places_eq]
    exact h.places_perm
  have hBuffers :
      ((range page.buffers.length).flatMap reading).Perm
        ((range page.buffers.length).flatMap fun number =>
          own number (page.buffer number) 0 (page.buffer number).segments ++
            (page.buffer number).places.flatMap reading) := by
    apply List.Perm.flatMap_left
    intro number hNumber
    have hBuffer : page.buffers[number]? = some (page.buffer number) := by
      have hLt := mem_range.mp hNumber
      simp [buffer, getElem?_eq_getElem hLt]
    exact (hReads number _ hBuffer).perm_own hReading
  rw [← hReading 0 root entries hRoot hRootReads]
  apply (perm_append_right_iff (rest.flatMap reading)).mp
  calc
    reading 0 ++ rest.flatMap reading = (range page.buffers.length).flatMap reading := by
      rw [hAll]
      rfl
    List.Perm _ _ := hBuffers
    List.Perm _ (page.holdings ++ _) := (flatMap_append_perm _ _ _).symm
    List.Perm _ (page.holdings ++ rest.flatMap reading) :=
      hPlaces.append_left _

theorem mem_own {buffer : Buffer} :
    entry ∈ own number buffer index segments ↔
      (∃ offset text,
        segments[offset]? = some (.line text) ∧ entry = .line ⟨number, index + offset⟩ text) ∨
        entry = .pen ⟨number, index + segments.length⟩ buffer.openLine buffer.level := by
  induction segments generalizing index with
  | nil => simp [own]
  | cons segment _ ih =>
    have hLater : ∀ offset, index + 1 + offset = index + (offset + 1) := by
      intro offset
      omega
    cases segment with
    | line text =>
      simp only [own, mem_cons, ih, hLater, length_cons, or_assoc.symm]
      refine or_congr_left ?_
      constructor
      · rintro (rfl | ⟨offset, other, hOther, rfl⟩)
        · exact ⟨0, text, rfl, rfl⟩
        · exact ⟨offset + 1, other, hOther, rfl⟩
      · rintro ⟨offset, other, hOther, rfl⟩
        cases offset with
        | zero =>
          cases hOther
          exact .inl rfl
        | succ offset => exact .inr ⟨offset, other, hOther, rfl⟩
    | place =>
      simp only [own, ih, hLater, length_cons]
      refine or_congr_left ?_
      constructor
      · rintro ⟨offset, other, hOther, rfl⟩
        exact ⟨offset + 1, other, hOther, rfl⟩
      · rintro ⟨offset, other, hOther, rfl⟩
        cases offset with
        | zero => cases hOther
        | succ offset => exact ⟨offset, other, hOther, rfl⟩

theorem spot_of_mem_own {buffer : Buffer} (h : entry ∈ own number buffer index segments) :
    entry.spot.buffer = number ∧ index ≤ entry.spot.index := by
  rcases mem_own.mp h with ⟨_, _, -, rfl⟩ | rfl
  · exact ⟨rfl, Nat.le_add_right _ _⟩
  · exact ⟨rfl, Nat.le_add_right _ _⟩

theorem nodup_own (number : Nat) (buffer : Buffer) (index : Nat) (segments : List Segment) :
    (own number buffer index segments).Nodup := by
  induction segments generalizing index with
  | nil => exact nodup_singleton _
  | cons segment _ ih =>
    cases segment with
    | place => exact ih (index + 1)
    | line =>
      refine nodup_cons.mpr ⟨?_, ih (index + 1)⟩
      intro hAgain
      have hLater := (spot_of_mem_own hAgain).2
      exact absurd hLater (Nat.not_succ_le_self index)

theorem nodup_holdings (page : Page) :
    page.holdings.Nodup := by
  apply nodup_flatMap.mpr
  constructor
  · intro number _
    exact nodup_own _ _ _ _
  · apply nodup_range.imp
    intro first second hNe entry hFirst hSecond
    apply hNe
    rw [← (spot_of_mem_own hFirst).1, (spot_of_mem_own hSecond).1]

theorem mem_holdings :
    entry ∈ page.holdings ↔ page.Holds entry := by
  unfold holdings Holds
  rw [mem_flatMap]
  constructor
  · rintro ⟨number, hNumber, hOwn⟩
    have hLt := mem_range.mp hNumber
    have hBuffer : page.buffers[number]? = some (page.buffer number) := by
      simp [buffer, getElem?_eq_getElem hLt]
    refine ⟨page.buffer number, ?_, ?_⟩
    · rw [(spot_of_mem_own hOwn).1]
      exact hBuffer
    · rcases mem_own.mp hOwn with ⟨_, text, hText, rfl⟩ | rfl
      · simpa using hText
      · simp
  · rintro ⟨buffer, hBuffer, hEntry⟩
    have hLt := (List.getElem?_eq_some_iff.mp hBuffer).1
    have hSame : page.buffer entry.spot.buffer = buffer := by simp [Page.buffer, hBuffer]
    refine ⟨entry.spot.buffer, mem_range.mpr hLt, ?_⟩
    rw [hSame, mem_own]
    cases entry with
    | line spot text =>
      left
      exact ⟨spot.index, text, hEntry, by simp [Entry.spot]⟩
    | pen spot =>
      right
      rcases hEntry with ⟨hIndex, rfl, rfl⟩
      rw [← hIndex]
      simp [Entry.spot]

/- Reading the page meets each line once, and nothing else. -/
theorem IsTree.nodup_and_mem_iff_holds (h : page.IsTree) (hEntries : page.ReadsAs entries) :
    entries.Nodup ∧ ∀ entry, entry ∈ entries ↔ page.Holds entry := by
  have hPerm := h.perm_holdings hEntries
  refine ⟨hPerm.nodup_iff.mpr page.nodup_holdings, ?_⟩
  intro entry
  rw [hPerm.mem_iff, mem_holdings]

-----
-- The Loop
-----

/-
  Reading with a stack of positions, the latest first, and
  the text that was read so far. A loop that takes more than
  the given number of rounds has no text, and neither has one
  that comes to a position in a buffer that is not there.
-/
def flattenWithin (page : Page) : Nat → Text → List Spot → Option Text
  | _, raw, [] => some raw
  | 0, _, _ :: _ => none
  | rounds + 1, raw, position :: below => do
      let buffer ← page.buffers[position.buffer]?
      let next : Spot := ⟨position.buffer, position.index + 1⟩
      match buffer.segments[position.index]? with
      | some (.line text) =>
          page.flattenWithin rounds (raw ++ text ++ "\n") (next :: below)
      | some (.place nested) =>
          page.flattenWithin rounds raw (⟨nested, 0⟩ :: next :: below)
      | none =>
          if buffer.openLine.isEmpty then
            page.flattenWithin rounds raw below
          else
            page.flattenWithin rounds (raw ++ buffer.openLine ++ "\n") below

/- The loop comes to its end with a text. -/
def FlattensTo (page : Page) (text : Text) : Prop :=
  ∃ rounds, page.flattenWithin rounds [] [⟨0, 0⟩] = some text

/- The loop reads the rest of a buffer and goes on below it. -/
theorem Reads.exists_rounds
    {buffer : Buffer} (h : page.Reads number buffer index segments entries)
    (hBuffer : page.buffers[number]? = some buffer)
    (hSegments : buffer.segments.drop index = segments) :
    ∃ rounds, ∀ more raw below,
      page.flattenWithin (more + rounds) raw (⟨number, index⟩ :: below) =
        page.flattenWithin more (raw ++ entries.flatMap Entry.text)
          below := by
  induction h with
  | finish _ buffer index =>
    have hEnd : buffer.segments[index]? = none := getElem?_eq_none (drop_eq_nil_iff.mp hSegments)
    refine ⟨1, ?_⟩
    intro more raw below
    rw [flattenWithin]
    simp only [hBuffer, hEnd, Option.bind_eq_bind, Option.bind_some]
    cases hOpen : buffer.openLine.isEmpty with
    | true | false => simp [Entry.text, Entry.line?, hOpen]
  | @line _ buffer index text rest _ _ ih =>
    have hHead : buffer.segments[index]? = some (.line text) := by
      rw [← head?_drop, hSegments]
      rfl
    have hTail : buffer.segments.drop (index + 1) = rest := by
      rw [← tail_drop, hSegments]
      rfl
    rcases ih hBuffer hTail with ⟨rounds, hRounds⟩
    refine ⟨rounds + 1, ?_⟩
    intro more raw below
    rw [← Nat.add_assoc, flattenWithin]
    simp only [hBuffer, hHead, Option.bind_eq_bind, Option.bind_some]
    rw [hRounds]
    simp [Entry.text, Entry.line?]
  | @place _ nested buffer _ index rest _ _ hInside _ _ ihInner ihLater =>
    have hHead : buffer.segments[index]? = some (.place nested) := by
      rw [← head?_drop, hSegments]
      rfl
    have hTail : buffer.segments.drop (index + 1) = rest := by
      rw [← tail_drop, hSegments]
      rfl
    rcases ihInner hInside rfl with ⟨innerRounds, hInnerRounds⟩
    rcases ihLater hBuffer hTail with ⟨laterRounds, hLaterRounds⟩
    refine ⟨laterRounds + innerRounds + 1, ?_⟩
    intro more raw below
    rw [← Nat.add_assoc, ← Nat.add_assoc, flattenWithin]
    simp only [hBuffer, hHead, Option.bind_eq_bind, Option.bind_some]
    rw [hInnerRounds, hLaterRounds]
    simp

theorem ReadsAs.flattensTo (h : page.ReadsAs entries) :
    page.FlattensTo (entries.flatMap Entry.text) := by
  rcases h with ⟨_, hRoot, hReads⟩
  rcases hReads.exists_rounds hRoot rfl with ⟨rounds, hRounds⟩
  refine ⟨0 + rounds, ?_⟩
  rw [hRounds, flattenWithin]
  rfl

-----
-- Expanding the Places
-----

theorem filterMap_pen?_own
    (number : Nat) (buffer : Buffer) (index : Nat) (segments : List Segment) :
    (own number buffer index segments).filterMap Entry.pen? = [number] := by
  induction segments generalizing index with
  | nil => rfl
  | cons segment _ ih =>
    cases segment with
    | line | place => exact ih (index + 1)

/- Each buffer ends once. -/
theorem IsTree.nodup_pens (h : page.IsTree) (hEntries : page.ReadsAs entries) :
    (entries.filterMap Entry.pen?).Nodup := by
  have hPerm := (h.perm_holdings hEntries).filterMap Entry.pen?
  have hPens : page.holdings.filterMap Entry.pen? = range page.buffers.length := by
    unfold holdings
    rw [filterMap_flatMap]
    simp only [filterMap_pen?_own]
    exact flatMap_singleton' _
  rw [hPerm.nodup_iff, hPens]
  exact nodup_range

/- The open line of a buffer as a segment, if it has text. -/
def openSegments (buffer : Buffer) : List Segment :=
  if buffer.openLine.isEmpty then [] else [.line buffer.openLine]

theorem allSegments_eq (buffer : Buffer) :
    buffer.allSegments = buffer.segments ++ openSegments buffer := by
  unfold Buffer.allSegments openSegments
  split <;> simp

/- What takes the place of a buffer. -/
theorem tasksOf_eq {buffer : Buffer} (h : page.buffers[number]? = some buffer) :
    page.expansion.tasksOf number (.place number) = buffer.segments ++ openSegments buffer := by
  simp [expansion, h, allSegments_eq]

theorem Reads.mem_pens {buffer : Buffer} (h : page.Reads number buffer index segments entries) :
    number ∈ entries.filterMap Entry.pen? := by
  induction h with
  | finish => exact mem_singleton_self _
  | line _ ih => exact ih
  | place _ _ _ _ ih =>
    rw [filterMap_append]
    exact mem_append_right _ ih

/-
  Expanding the rest of a buffer reads it, if no buffer that
  ends in it was opened before, but for the buffer itself.
-/
theorem Reads.exists_expands
    {buffer : Buffer} (h : page.Reads number buffer index segments entries)
    (hNodup : (entries.filterMap Entry.pen?).Nodup) (opened : List Nat)
    (hFresh : ∀ other ∈ entries.filterMap Entry.pen?, other ≠ number → other ∉ opened) :
    ∃ trace,
      page.expansion.Expands opened (segments ++ openSegments buffer) trace ∧
        trace.emitted.filterMap Segment.line? = entries.filterMap Entry.line? ∧
        ∀ other ∈ trace.opened, other ∈ opened ∨ other ∈ entries.filterMap Entry.pen? := by
  induction h generalizing opened with
  | finish _ buffer =>
    refine ⟨⟨opened, openSegments buffer⟩, Expansion.expands_of_no_opening ?_, ?_, fun _ => .inl⟩
    · intro task hTask
      unfold openSegments at hTask
      split at hTask
      · cases hTask
      · rw [mem_singleton.mp hTask]
        rfl
    · unfold openSegments
      cases hOpen : buffer.openLine.isEmpty <;>
        simp [Entry.line?, Segment.line?, hOpen]
  | line _ ih =>
    rcases ih hNodup opened hFresh with ⟨_, hTrace, hLines, hOpened⟩
    refine ⟨_, .emit rfl hTrace, ?_, hOpened⟩
    exact congrArg (cons _) hLines
  | @place number nested _ _ _ _ _ _ hInside hInner hLater ihInner ihLater =>
      simp only [filterMap_append, mem_append] at hNodup hFresh ⊢
      rcases nodup_append.mp hNodup with ⟨hInnerNodup, hLaterNodup, hApart⟩
      have hNested := hInner.mem_pens
      have hNumber := hLater.mem_pens
      have hClosed : nested ∉ opened :=
        hFresh nested (.inl hNested) (hApart nested hNested number hNumber)
      rcases ihInner hInnerNodup (nested :: opened) (by
          intro other hOther hNe
          have hFar := hApart other hOther number hNumber
          simp [hNe, hFresh other (.inl hOther) hFar]) with
        ⟨first, hFirst, hFirstLines, hFirstOpened⟩
      rcases ihLater hLaterNodup first.opened (by
          intro other hOther hNe hOpened
          rcases hFirstOpened other hOpened with hBefore | hPen
          · rcases mem_cons.mp hBefore with rfl | hOld
            · exact hApart other hNested other hOther rfl
            · exact hFresh other (.inr hOther) hNe hOld
          · exact hApart other hPen other hOther rfl) with
        ⟨second, hSecond, hSecondLines, hSecondOpened⟩
      rw [← tasksOf_eq hInside] at hFirst
      have hOpening : page.expansion.opening? opened (.place nested) = some nested :=
        Expansion.opening?_eq_some.mpr ⟨rfl, hClosed⟩
      refine ⟨_, .enter hOpening hFirst hSecond, ?_, ?_⟩
      · simp [hFirstLines, hSecondLines]
      · intro other hOther
        rcases hSecondOpened other hOther with hFirstOne | hPen
        · rcases hFirstOpened other hFirstOne with hBefore | hPen
          · rcases mem_cons.mp hBefore with rfl | hOld
            · exact .inr (.inl hNested)
            · exact .inl hOld
          · exact .inr (.inl hPen)
        · exact .inr (.inr hPen)

/- The lines of a page are those of any way to expand its places. -/
theorem lines_eq_of_expands
    {trace : Expansion.Trace Segment} (hRoot : 0 < page.buffers.length)
    (hPlaces : ∀ nested ∈ page.places, nested < page.buffers.length)
    (h : page.expansion.Expands [] [.place 0] trace) :
    page.lines = trace.emitted.filterMap Segment.line? := by
  have hRun :
      page.expansion.Expands [] [.place 0]
        (page.expansion.run page.buffers.length [] [.place 0]) := by
    apply Expansion.expands_run_of_closed page.buffers.length
      (fun segment => ∀ nested, segment.place? = some nested → nested < page.buffers.length)
    · intro segment nested hGood hAsks
      have hNested := hGood nested hAsks
      have hInside := getElem?_eq_getElem hNested
      refine ⟨hNested, ?_⟩
      intro other hOther inner hInner
      have hOwn : other ∈ (page.buffers[nested]).segments := by
        simp only [expansion, hInside, Option.map_some, Option.getD_some, allSegments_eq] at hOther
        rcases mem_append.mp hOther with hOwn | hOpen
        · exact hOwn
        · unfold openSegments at hOpen
          split at hOpen
          · cases hOpen
          · rw [mem_singleton.mp hOpen] at hInner
            cases hInner
      exact hPlaces inner (mem_flatMap.mpr
        ⟨_, getElem_mem hNested, mem_filterMap.mpr ⟨other, hOwn, hInner⟩⟩)
    · intro segment hSegment nested hNested
      rw [mem_singleton.mp hSegment] at hNested
      cases hNested
      exact hRoot
    · exact Expansion.closedNodes_card_le _ _
  unfold Page.lines
  dsimp only
  rw [hRun.unique h]

/- The lines of the page are those that are read. -/
theorem IsTree.lines_eq (h : page.IsTree) (hEntries : page.ReadsAs entries) :
    page.lines = entries.filterMap Entry.line? := by
  have hNodup := h.nodup_pens hEntries
  rcases hEntries with ⟨_, hRoot, hReads⟩
  have hSize := (List.getElem?_eq_some_iff.mp hRoot).1
  rcases hReads.exists_expands hNodup [0] (by simp) with ⟨trace, hTrace, hLines, -⟩
  rw [← tasksOf_eq hRoot] at hTrace
  have hWhole : page.expansion.Expands [] [.place 0] ⟨trace.opened, trace.emitted ++ []⟩ :=
    .enter (Expansion.opening?_eq_some.mpr ⟨rfl, by simp⟩) hTrace (.done trace.opened)
  have hPlaces : ∀ nested ∈ page.places, nested < page.buffers.length := by
    intro nested hNested
    rcases mem_flatMap.mp hNested with ⟨_, hBuffer, hPlace⟩
    rcases mem_iff_getElem?.mp hBuffer with ⟨_, hInside⟩
    exact h.place_lt hInside hPlace
  rw [lines_eq_of_expands hSize hPlaces hWhole, append_nil, hLines]

theorem IsTree.rawText_eq (h : page.IsTree) (hEntries : page.ReadsAs entries) :
    page.rawText = entries.flatMap Entry.text := by
  unfold rawText
  rw [h.lines_eq hEntries]
  clear hEntries
  induction entries with
  | nil => rfl
  | cons entry _ ih =>
    rw [flatMap_cons, ← ih, filterMap_cons]
    unfold Entry.text
    cases entry.line? <;> rfl

end Page

end ScriptLowering
