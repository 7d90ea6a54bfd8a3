import DemandPaging.Failure

/-!
# The layout of physical memory

The firmware describes memory as a list of ranges, some usable and some not.  Before
anything can be allocated that list is reduced to a `Layout`: the first free frame
above the kernel image, the top of usable memory, and the holes in between.

**The survey.**  `Layout.survey` reads the ranges in order and keeps how far memory is
`covered`.  Each usable range shrinks to whole frames.  One that reaches past what is
covered extends it, and if it starts further up, the gap becomes a hole, except at the
very beginning, where the first free frame moves up instead.  Only so many holes are
kept: the first gap that finds no room ends the survey, and all memory above it is
ignored.

**Runs.**  The usable memory of a layout is the alternation of its holes:
`Layout.runs?` reads off the runs `[first free, first hole)`, `[end of hole, next hole)`
and so on up to the top, and leaves out the empty ones.
-/

namespace DemandPaging

/-- **Memory ranges** as the firmware reports them. -/
structure MemoryRange where
  base : Nat
  length : Nat
  usable : Bool

/-- A range as the boot loader lists it: ranges of kind zero are usable. -/
def MemoryRange.ofKind (base length kind : Nat) : MemoryRange := ⟨base, length, kind == 0⟩

/-- The whole frames of a range, from the first address to one past the last. -/
def MemoryRange.frameSpan (r : MemoryRange) : Except Halt (Nat × Nat) :=
  match Word.roundUp? r.base pageSize with
  | none => .error .sumOverflow
  | some start =>
    match Word.add r.base r.length with
    | .error h => .error h
    | .ok top => .ok (start, top / pageSize * pageSize)

/-- **Holes**: ranges above the kernel image that must never be handed out. -/
structure Hole where
  base : PhysAddr
  length : Nat
deriving DecidableEq

/-- The first address above a hole. -/
def Hole.limit (h : Hole) : Except Halt PhysAddr := h.base.add h.length

/-- **Layouts** of physical memory. -/
structure Layout where
  /-- The first frame above the kernel image. -/
  firstFree : PhysAddr
  /-- The top of usable memory. -/
  totalSize : Nat
  /-- What is unusable in between, ascending. -/
  holes : List Hole
deriving DecidableEq

/-- **Runs**: usable memory without a gap. -/
structure Run where
  start : PhysAddr
  limit : PhysAddr
deriving DecidableEq

namespace Layout

/-- How many holes a layout can hold. -/
def maxHoles : Nat := 32

/-! ### The survey -/

/-- **Surveys**: what is known of memory after some of its ranges have been read. -/
structure Survey where
  firstFree : PhysAddr
  covered : Nat
  holes : List Hole
  /-- Whether any usable frame has been found. -/
  found : Bool

/-- What one usable range does to a survey. -/
inductive Survey.Step where
  /-- The survey goes on. -/
  | extended (survey : Survey)
  /-- There is no room for another hole. -/
  | exhausted

namespace Survey

/-- Nothing read yet: memory is covered up to the end of the kernel image. -/
def initial (firstFree : PhysAddr) : Survey := ⟨firstFree, firstFree.val, [], false⟩

/-- The first usable range moves the first free frame up to where the range starts. -/
def lift (s : Survey) (start : Nat) : Except Halt Survey :=
  if !s.found && decide (s.covered < start) then
    match PhysAddr.ofNat start with
    | .error h => .error h
    | .ok a => .ok { s with firstFree := a, covered := start }
  else .ok s

/-- Reads usable frames `[start, stop)` that reach past what is covered. -/
def cover (s : Survey) (start stop : Nat) : Except Halt Step :=
  if s.covered < start then
    match PhysAddr.ofNat s.covered with
    | .error h => .error h
    | .ok base =>
      if s.holes.length < maxHoles then
        .ok (.extended
          { s with
            holes := s.holes ++ [⟨base, start - s.covered⟩], covered := stop, found := true })
      else .ok .exhausted
  else .ok (.extended { s with covered := stop, found := true })

/-- Reads usable frames `[start, stop)`; those that add nothing are skipped. -/
def advance (s : Survey) (start stop : Nat) : Except Halt Step :=
  if stop ≤ s.covered ∨ stop ≤ start then .ok (.extended s)
  else
    match s.lift start with
    | .error h => .error h
    | .ok s => s.cover start stop

/-- Reads ranges in order.  Beside the survey this answers from where on memory is
ignored, if it is. -/
def scan (s : Survey) : List MemoryRange → Except Halt (Survey × Option Nat)
  | [] => .ok (s, none)
  | r :: rest =>
    if r.usable then
      match r.frameSpan with
      | .error h => .error h
      | .ok (start, stop) =>
        match s.advance start stop with
        | .error h => .error h
        | .ok (.extended s) => s.scan rest
        | .ok .exhausted => .ok (s, some s.covered)
    else s.scan rest

/-- The layout a finished survey describes, if it found any usable frame. -/
def layout? (s : Survey) : Option Layout :=
  if s.found then some ⟨s.firstFree, s.covered, s.holes⟩ else none

end Survey

/-- The layout of the memory described by `ranges` above a kernel image that ends at
`kernelEnd`, and from where on memory had to be ignored. -/
def survey (ranges : List MemoryRange) (kernelEnd : PhysAddr) :
    Except Halt (Option Layout × Option Nat) :=
  match kernelEnd.alignUp with
  | .error h => .error h
  | .ok firstFree =>
    match (Survey.initial firstFree).scan ranges with
    | .error h => .error h
    | .ok (s, ignored) => .ok (s.layout?, ignored)

/-- The layout of the memory described by `ranges`, if it has a usable frame. -/
def ofRanges (ranges : List MemoryRange) (kernelEnd : PhysAddr) :
    Except Halt (Option Layout) :=
  (survey ranges kernelEnd).map Prod.fst

/-! ### Reading a layout -/

/-- The top of memory, as an address. -/
def top (l : Layout) : Except Halt PhysAddr := PhysAddr.ofNat l.totalSize

/-- How many frames the layout spans. -/
def frameCount (l : Layout) : Nat := l.totalSize / pageSize

/-- Where the run that starts at the first free frame ends.  Frames that are handed out
before the frame map exists lie below. -/
def bootLimit (l : Layout) : Except Halt PhysAddr :=
  match l.top with
  | .error h => .error h
  | .ok top => .ok ((l.holes.head?.map Hole.base).getD top)

/-- Where runs start and where they end, in order; a start that cannot be computed stays
a halt of its own. -/
def boundaries (l : Layout) (top : PhysAddr) : List (Except Halt PhysAddr × PhysAddr) :=
  (.ok l.firstFree :: l.holes.map Hole.limit).zip (l.holes.map Hole.base ++ [top])

/-- The non-empty runs between boundaries. -/
def runsBetween : List (Except Halt PhysAddr × PhysAddr) → Except Halt (List Run)
  | [] => .ok []
  | (.error h, _) :: _ => .error h
  | (.ok start, limit) :: rest =>
    match runsBetween rest with
    | .error h => .error h
    | .ok runs => .ok (if start.val < limit.val then ⟨start, limit⟩ :: runs else runs)

/-- The first non-empty run between boundaries that is wanted.  Boundaries behind it are
not looked at. -/
def firstRunBetween (wanted : Run → Bool) :
    List (Except Halt PhysAddr × PhysAddr) → Except Halt (Option Run)
  | [] => .ok none
  | (.error h, _) :: _ => .error h
  | (.ok start, limit) :: rest =>
    if decide (start.val < limit.val) && wanted ⟨start, limit⟩ then .ok (some ⟨start, limit⟩)
    else firstRunBetween wanted rest

/-- The usable runs of memory, ascending. -/
def usableRuns (l : Layout) : Except Halt (List Run) :=
  match l.top with
  | .error h => .error h
  | .ok top => runsBetween (l.boundaries top)

/-- The first usable run that is wanted. -/
def findRun? (l : Layout) (wanted : Run → Bool) : Except Halt (Option Run) :=
  match l.top with
  | .error h => .error h
  | .ok top => firstRunBetween wanted (l.boundaries top)

/-- Among runs that can all be computed, the first wanted one is the first wanted one of
the list. -/
theorem firstRunBetween_eq_find? {wanted : Run → Bool} :
    ∀ {bs : List (Except Halt PhysAddr × PhysAddr)} {runs : List Run},
      runsBetween bs = .ok runs → firstRunBetween wanted bs = .ok (runs.find? wanted)
  | [], runs, h => by cases h; rfl
  | (.error e, _) :: _, runs, h => by cases h
  | (.ok start, limit) :: rest, runs, h => by
    unfold runsBetween at h
    split at h
    · cases h
    · next rs hrs =>
      have ih : firstRunBetween wanted rest = .ok (rs.find? wanted) := firstRunBetween_eq_find? hrs
      cases h
      by_cases hlt : start.val < limit.val
      · by_cases hw : wanted ⟨start, limit⟩ = true
        · simp [firstRunBetween, hlt, hw]
        · simp [firstRunBetween, hlt, hw, ih]
      · simp [firstRunBetween, hlt, ih]

end Layout

end DemandPaging
