import DemandPaging.Failure

/-!
# The frame map

One entry for every frame of physical memory, entry `i` for frame `i`.  A frame is
free, or fixed for good (the kernel image, the map itself, firmware holes), or in use.

**Entries.**  An entry records three things side by side: the state of its frame, whether
the frame is the first one of a block, and the size of that block.  Nothing in an entry
ties them to each other.  Handing out writes all three in every frame of a block, taking
back resets all three, and reserving touches the state alone, so it is the operations
together that keep a mark or a size from outliving its block.

**Blocks.**  Frames are handed out in blocks of consecutive frames and come back as
whole blocks.  What a block needs to come back is recorded in its own entries: every
frame of a block knows the size of the block, and the first one knows that it is the
head.  There is no list of blocks anywhere; `FrameMap.free` believes the entries.

**First fit.**  `firstFit` looks for the lowest run of free frames that is long enough,
in one pass that carries where the current run of free frames started and how long it is.

**The count of free frames** is kept beside the entries, so that a request for more
frames than there are is refused without a search.
-/

namespace DemandPaging

/-- **Frame states.** -/
inductive FrameState where
  | free
  /-- Never handed out. -/
  | fixed
  /-- Part of a block. -/
  | inUse
deriving DecidableEq

/-- The state, as a word. -/
def FrameState.name : FrameState → String
  | free => "Free"
  | fixed => "Fixed"
  | inUse => "InUse"

/-- **Entries** of the frame map. -/
structure FrameEntry where
  state : FrameState
  /-- Whether the frame is marked as the first one of a block. -/
  isBlockHead : Bool
  /-- The recorded size of the block the frame belongs to. -/
  blockSize : Nat
deriving DecidableEq

namespace FrameEntry

/-- The entry of a free frame without a trace of a block. -/
abbrev free : FrameEntry := ⟨.free, false, 0⟩

/-- The entry of a fixed frame without a trace of a block. -/
abbrev fixed : FrameEntry := ⟨.fixed, false, 0⟩

/-- The entry of a frame in a block. -/
abbrev inUse (isHead : Bool) (blockSize : Nat) : FrameEntry := ⟨.inUse, isHead, blockSize⟩

/-- Whether the frame can be handed out. -/
def isFree (e : FrameEntry) : Bool := e.state == .free

/-- Whether the frame belongs to a block. -/
def isInUse (e : FrameEntry) : Bool := e.state == .inUse

/-- The state of the frame, as a word. -/
def name (e : FrameEntry) : String := e.state.name

/-- **Reset entries**: a frame that is in no block carries neither mark nor size. -/
def IsReset (e : FrameEntry) : Prop :=
  e.state ≠ .inUse → e.isBlockHead = false ∧ e.blockSize = 0

theorem isReset_free : free.IsReset := fun _ => ⟨rfl, rfl⟩

theorem isReset_fixed : fixed.IsReset := fun _ => ⟨rfl, rfl⟩

theorem isReset_inUse (isHead : Bool) (n : Nat) : (inUse isHead n).IsReset :=
  fun h => absurd rfl h

@[simp] theorem isFree_iff (e : FrameEntry) : e.isFree = true ↔ e.state = .free := beq_iff_eq

@[simp] theorem isInUse_iff (e : FrameEntry) : e.isInUse = true ↔ e.state = .inUse := beq_iff_eq

theorem eq_inUse {e : FrameEntry} (h : e.state = .inUse) :
    e = inUse e.isBlockHead e.blockSize := by
  rw [inUse, ← h]

/-- Of a reset entry in no block the state tells everything. -/
theorem IsReset.eq {e e' : FrameEntry} (h : e.IsReset) (h' : e'.IsReset)
    (hidle : e.state ≠ .inUse) (hstate : e'.state = e.state) : e' = e := by
  obtain ⟨hmark, hsize⟩ := h hidle
  obtain ⟨hmark', hsize'⟩ := h' (hstate ▸ hidle)
  rw [FrameEntry.mk.injEq]
  exact ⟨hstate, hmark'.trans hmark.symm, hsize'.trans hsize.symm⟩

end FrameEntry

/-- **Frame maps.** -/
structure FrameMap where
  /-- Entry `i` is that of frame `i`. -/
  entries : List FrameEntry
  /-- How many frames are free. -/
  freeCount : Nat
  entriesInRange : entries.length ≤ 0x10000000000

namespace FrameMap

/-- Bytes of one entry of the map. -/
def entrySize : Nat := 24

/-- How many frames it takes to hold a map of `frameCount` entries. -/
def framesNeeded (frameCount : Nat) : Nat := blocksFor (frameCount * entrySize) pageSize

/-- How many frames the map describes. -/
def size (m : FrameMap) : Nat := m.entries.length

/-- The entry of a frame, if the map reaches that far. -/
def entry? (m : FrameMap) (f : Frame) : Option FrameEntry := m.entries[f.index]?

/-- The states of the frames. -/
def states (m : FrameMap) : List FrameState := m.entries.map FrameEntry.state

@[simp] theorem length_states (m : FrameMap) : m.states.length = m.size := List.length_map ..

theorem getElem?_states (m : FrameMap) (i : Nat) :
    m.states[i]? = m.entries[i]?.map FrameEntry.state := List.getElem?_map ..

/-- The map of `frameCount` frames in which all frames below `firstFree` and the
`held` frames from `base` on are fixed and all others are free. -/
def build (frameCount firstFree base held : Nat) (h : frameCount ≤ 0x10000000000) : FrameMap :=
  let entries := (List.range frameCount).map fun i =>
    if i < firstFree ∨ base ≤ i ∧ i < base + held then FrameEntry.fixed else .free
  { entries
    freeCount := entries.countP FrameEntry.isFree
    entriesInRange := by simpa [entries] using h }

/-- The entries of the frames `[first, first + count)`. -/
def slice (m : FrameMap) (first count : Nat) : List FrameEntry :=
  (m.entries.drop first).take count

/-- Changes the entries of the frames `[first, first + count)`. -/
def updateRange (m : FrameMap) (first count : Nat) (f : Nat → FrameEntry → FrameEntry)
    (freeCount : Nat) : FrameMap where
  entries :=
    m.entries.take first ++ (m.slice first count).mapIdx (fun j e => f (first + j) e) ++
      m.entries.drop (first + count)
  freeCount := freeCount
  entriesInRange := by
    have := m.entriesInRange
    simp only [slice, List.length_append, List.length_mapIdx, List.length_take,
      List.length_drop]
    omega

@[simp] theorem getElem?_updateRange (m : FrameMap) (first count : Nat)
    (f : Nat → FrameEntry → FrameEntry) (freeCount i : Nat) :
    (m.updateRange first count f freeCount).entries[i]? =
      m.entries[i]?.map fun e => if first ≤ i ∧ i < first + count then f i e else e := by
  simp only [updateRange, slice]
  by_cases h : i < m.entries.length
  · by_cases h₁ : i < first
    · rw [List.getElem?_append_left (by simp; omega), List.getElem?_append_left (by simp; omega),
        List.getElem?_take_of_lt h₁]
      simp [h, Nat.not_le.2 h₁]
    · by_cases h₂ : i < first + count
      · have e : first + (i - first) = i := by omega
        rw [List.getElem?_append_left (by simp; omega),
          List.getElem?_append_right (by simp; omega)]
        simp [Nat.min_eq_left (by omega : first ≤ m.entries.length), e, h,
          Nat.le_of_not_lt h₁, h₂, (by omega : i - first < count)]
      · rw [List.getElem?_append_right (by simp; omega), List.getElem?_drop]
        simp only [List.length_append, List.length_take, List.length_mapIdx, List.length_drop]
        have e : first + count +
            (i - (min first m.entries.length + min count (m.entries.length - first))) = i := by
          omega
        simp [e, h, h₂]
  · rw [List.getElem?_eq_none (by simp; omega), List.getElem?_eq_none (by omega)]
    rfl

@[simp] theorem size_updateRange (m : FrameMap) (first count : Nat)
    (f : Nat → FrameEntry → FrameEntry) (freeCount : Nat) :
    (m.updateRange first count f freeCount).size = m.size := by
  simp only [updateRange, size, slice, List.length_append, List.length_mapIdx, List.length_take,
    List.length_drop]
  omega

/-! ### Allocating -/

/-- Where the first run of `count` free frames starts.  `start` is where the current run
of free frames began and `run` how long it is, so the list begins at frame
`start + run`. -/
def firstFit (count : Nat) : List FrameEntry → (start run : Nat) → Option Nat
  | [], _, _ => none
  | e :: rest, start, run =>
    if e.isFree then
      if run + 1 = count then some start else firstFit count rest start (run + 1)
    else firstFit count rest (start + run + 1) 0

/-- The map with the frames `[first, first + count)` made one block. -/
def occupy (m : FrameMap) (first count : Nat) : FrameMap :=
  m.updateRange first count (fun i _ => .inUse (i == first) count) (m.freeCount - count)

/-- Hands out the lowest `count` consecutive free frames and answers the first, or `none`
if there are no such frames. -/
def allocate (m : FrameMap) (count : Nat) : Option Frame × FrameMap :=
  if count = 0 ∨ m.freeCount < count then (none, m)
  else
    match (firstFit count m.entries 0 0).bind Frame.ofIndex? with
    | none => (none, m)
    | some f => (some f, m.occupy f.index count)

@[simp] theorem allocate_zero (m : FrameMap) : m.allocate 0 = (none, m) := by
  simp [allocate]

/-! ### Giving back -/

/-- The map with the block of `count` frames from `first` on made free. -/
def vacate (m : FrameMap) (first count : Nat) : FrameMap :=
  m.updateRange first count (fun _ _ => .free) (m.freeCount + count)

/-- Takes the block back that starts at `f`.  Any other frame stops the kernel, and so does a
recorded size that reaches past the end of the map. -/
def free (m : FrameMap) (f : Frame) : Except Halt FrameMap :=
  match m.entry? f with
  | none => .error (.notBlockHead f)
  | some e =>
    if e.state = .inUse ∧ e.isBlockHead then
      if f.index + e.blockSize ≤ m.size then .ok (m.vacate f.index e.blockSize)
      else .error (.rangeBeyondEnd (f.index + e.blockSize) m.size)
    else .error (.notBlockHead f)

/-- Taking back makes frames free, as many from `f` on as its entry says. -/
theorem exists_vacate_of_free {m m' : FrameMap} {f : Frame} (h : m.free f = .ok m') :
    ∃ n, m' = m.vacate f.index n := by
  unfold free at h
  split at h
  · cases h
  · next e _ =>
      split at h
      · split at h
        · cases h
          exact ⟨e.blockSize, rfl⟩
        · cases h
      · cases h

/-! ### Reserving -/

/-- A free frame becomes fixed; any other stays what it is. -/
def fix (e : FrameEntry) : FrameEntry :=
  if e.isFree then { e with state := .fixed } else e

/-- Fixes every free frame that `[base, base + length)` touches, the frame of `base`
included.  A frame in use among them stops the kernel, naming the frame by its address
in the kernel's window on physical memory. -/
def reserve (m : FrameMap) (window : VirtAddr) (base : PhysAddr) (length : Nat) :
    Except Halt FrameMap :=
  match Word.add base.val length with
  | .error h => .error h
  | .ok top =>
    let first := base.val / pageSize
    let count := min (blocksFor top pageSize) m.size - first
    match (m.slice first count).findIdx? FrameEntry.isInUse with
    | some i => .error (.reservedInUse (window.val + (first + i) * pageSize))
    | none =>
      .ok (m.updateRange first count (fun _ => fix)
        (m.freeCount - (m.slice first count).countP FrameEntry.isFree))

/-! ### Summaries -/

/-- **Stretches** of consecutive frames with equal entries. -/
structure Stretch where
  first : Nat
  count : Nat
  state : FrameEntry
deriving DecidableEq

/-- Adds the entry of the next frame to stretches listed from the last to the first. -/
def addToStretches : List Stretch → FrameEntry → List Stretch
  | [], e => [⟨0, 1, e⟩]
  | s :: before, e =>
    if s.state = e then { s with count := s.count + 1 } :: before
    else ⟨s.first + s.count, 1, e⟩ :: s :: before

/-- The map as maximal stretches of frames with equal entries. -/
def stretches (m : FrameMap) : List Stretch := (m.entries.foldl addToStretches []).reverse

end FrameMap

end DemandPaging
