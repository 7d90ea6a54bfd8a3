import DemandPaging.Journal
import DemandPaging.Physical.BootFrames
import DemandPaging.Physical.FrameMap
import DemandPaging.Physical.Layout

/-!
# The frame allocator

The allocator hands out physical frames for everyone: blocks for the kernel and single
frames for the pages of processes.  It goes through two phases, and each has its own
source of frames.

* **Booting**: frames are stolen and never come back (`BootFrames`).
* **Mapped**: the frame map accounts for every frame (`FrameMap`).

`Allocator.bootstrap` moves from the first to the second, once.  It puts the map at the
lowest place above everything stolen where a usable run has room for it, and afterwards
fixes the holes of the layout.  `Allocator.mapFrom` is the same step for memory
without holes.

**The window.**  The kernel sees all of physical memory through a window of its own
address space: physical address `p` at `window + p`.  Kernel blocks are named by such
addresses.  A frame map is only built if the window reaches all of its frames.
-/

namespace DemandPaging

/-- **Frame sources**: where frames come from in each phase. -/
inductive FrameSource where
  | booting (frames : BootFrames)
  | mapped (map : FrameMap)

/-- **The frame allocator.** -/
structure Allocator where
  /-- The kernel address of physical address zero. -/
  window : VirtAddr
  source : FrameSource

namespace Allocator

/-- The allocator of a machine that has just started: everything in the layout's first
run can be stolen. -/
def start (window : VirtAddr) (layout : Layout) : Except Halt Allocator :=
  match layout.bootLimit with
  | .error h => .error h
  | .ok limit =>
    match BootFrames.between layout.firstFree limit with
    | .error h => .error h
    | .ok frames => .ok ⟨window, .booting frames⟩

/-- Whether the frame map has been built. -/
def isInitialized (a : Allocator) : Bool :=
  match a.source with
  | .booting _ => false
  | .mapped _ => true

/-- How many frames can still be handed out. -/
def freeFrames (a : Allocator) : Nat :=
  match a.source with
  | .booting b => b.remaining
  | .mapped m => m.freeCount

/-- What the frame map says about a frame; nothing before there is a map, and nothing
beyond its end. -/
def entry? (a : Allocator) (f : Frame) : Option FrameEntry :=
  match a.source with
  | .booting _ => none
  | .mapped m => m.entry? f

/-- The state of a frame, as far as there is an entry for it. -/
def state? (a : Allocator) (f : Frame) : Option FrameState := (a.entry? f).map FrameEntry.state

/-- The frame map as stretches of equal entries; none before there is a map. -/
def stretches (a : Allocator) : List FrameMap.Stretch :=
  match a.source with
  | .booting _ => []
  | .mapped m => m.stretches

/-! ### Handing out and taking back -/

/-- Hands out `count` consecutive frames and answers the first, or `none` if there are no
such frames. -/
def allocate (a : Allocator) (count : Nat) : Except Halt (Option Frame × Allocator) :=
  match a.source with
  | .booting b =>
    match b.steal count with
    | .error h => .error h
    | .ok (f, b) => .ok (f, { a with source := .booting b })
  | .mapped m =>
    let (f, m) := m.allocate count
    .ok (f, { a with source := .mapped m })

/-- Takes back the block that starts at `f`. -/
def free (a : Allocator) (f : Frame) : Except Halt Allocator :=
  match a.source with
  | .booting b =>
    match b.free f with
    | .error h => .error h
    | .ok b => .ok { a with source := .booting b }
  | .mapped m =>
    match m.free f with
    | .error h => .error h
    | .ok m => .ok { a with source := .mapped m }

/-- Removes every free frame that `[base, base + length)` touches from those that can be
handed out. -/
def reserve (a : Allocator) (base : PhysAddr) (length : Nat) : Except Halt Allocator :=
  match a.source with
  | .booting _ => .error .reservedWhileBooting
  | .mapped m =>
    match m.reserve a.window base length with
    | .error h => .error h
    | .ok m => .ok { a with source := .mapped m }

/-- Reserves the holes of a layout one after another. -/
def reserveHoles (a : Allocator) : List Hole → Except Halt Allocator
  | [] => .ok a
  | hole :: rest =>
    match a.reserve hole.base hole.length with
    | .error h => .error h
    | .ok a => a.reserveHoles rest

/-! ### Kernel addresses -/

/-- Where the kernel sees a frame. -/
def kernelAddress (a : Allocator) (f : Frame) : Except Halt VirtAddr := a.window.add f.start.val

/-- Hands out `count` consecutive frames and answers where the kernel sees them. -/
def allocateKernelPages (a : Allocator) (count : Nat) :
    Except Halt (Option VirtAddr × Allocator) :=
  match a.allocate count with
  | .error h => .error h
  | .ok (none, a) => .ok (none, a)
  | .ok (some f, a) =>
    match a.kernelAddress f with
    | .error h => .error h
    | .ok address => .ok (some address, a)

/-- Takes back the block that the kernel sees at `address`. -/
def freeKernelPages (a : Allocator) (address : VirtAddr) : Except Halt Allocator :=
  match address.sub a.window with
  | .error h => .error h
  | .ok offset =>
    match PhysAddr.ofNat offset with
    | .error h => .error h
    | .ok physical =>
      if physical.offset = 0 then a.free physical.frame else .error .unalignedKernelPages

/-! ### Building the frame map -/

/-- Checks that the window reaches the last of `frameCount` frames. -/
def checkWindow (window : VirtAddr) (frameCount : Nat) : Except Halt Unit :=
  if frameCount = 0 then .ok ()
  else
    match window.add ((frameCount - 1) * pageSize) with
    | .error h => .error h
    | .ok _ => .ok ()

/-- The map of `frameCount` frames that is kept in memory at `base`, where everything
below `firstFree` is taken. -/
def buildMap (window : VirtAddr) (firstFree base : PhysAddr) (frameCount : Nat) :
    Except Halt FrameMap :=
  match firstFree.alignUp with
  | .error h => .error h
  | .ok firstFree =>
    let held := FrameMap.framesNeeded frameCount
    if base.frame.index + held ≤ frameCount then
      if h : frameCount ≤ 0x10000000000 then
        match checkWindow window frameCount with
        | .error h => .error h
        | .ok () => .ok (FrameMap.build frameCount firstFree.frame.index base.frame.index held h)
      else .error .beyondPhysical
    else .error (.mapOutOfRoom frameCount base)

/-- Ends the booting phase with a map of all memory below `totalSize`, kept at `base`.
Nothing that was stolen may lie at or above `firstFree`. -/
def install (a : Allocator) (firstFree base : PhysAddr) (totalSize : Nat) :
    Except Halt (Allocator × Event) :=
  match a.source with
  | .mapped _ => .error .alreadyInitialized
  | .booting b =>
    if b.next.val ≤ firstFree.val then
      match buildMap a.window firstFree base (totalSize / pageSize) with
      | .error h => .error h
      | .ok m =>
        .ok ({ a with source := .mapped m }, .frameMapReady base m.size m.freeCount)
    else .error .mapOverStolen

/-- Ends the booting phase over memory without holes, with the map at the first free
frame. -/
def mapFrom (a : Allocator) (firstFree : PhysAddr) (totalSize : Nat) :
    Except Halt (Allocator × Event) :=
  match firstFree.alignUp with
  | .error h => .error h
  | .ok base => a.install base base totalSize

/-- The lowest place at or above `firstFree` where a usable run of the layout has room for
the layout's frame map. -/
def placeMap (layout : Layout) (firstFree : PhysAddr) : Except Halt (Option PhysAddr) :=
  let bytes := FrameMap.framesNeeded layout.frameCount * pageSize
  let lowest (r : Run) : PhysAddr := if r.start.val < firstFree.val then firstFree else r.start
  match layout.findRun? fun r => (lowest r).val + bytes ≤ r.limit.val with
  | .error h => .error h
  | .ok run => .ok (run.map lowest)

/-- Ends the booting phase with a map of all memory of a layout, its holes included:
everything stolen stays taken, and the map goes to the lowest place that has room for
it. -/
def mapOver (a : Allocator) (layout : Layout) : Except Halt (Allocator × Event) :=
  match a.source with
  | .mapped _ => .error .alreadyInitialized
  | .booting b =>
    match placeMap layout b.next with
    | .error h => .error h
    | .ok none => .error (.mapWithoutRun layout.frameCount)
    | .ok (some base) => a.install b.next base layout.totalSize

/-- Ends the booting phase over a layout, whose holes are never handed out. -/
def bootstrap (a : Allocator) (layout : Layout) : Except Halt (Allocator × Event) :=
  match a.mapOver layout with
  | .error h => .error h
  | .ok (a, ready) =>
    match a.reserveHoles layout.holes with
    | .error h => .error h
    | .ok a => .ok (a, ready)

end Allocator

end DemandPaging
