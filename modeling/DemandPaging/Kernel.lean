import DemandPaging.Journal
import DemandPaging.Physical.Allocator
import DemandPaging.Physical.Memory
import DemandPaging.Mapping.Cache

/-!
# The kernel

The state that all address spaces share, and the operations that touch it: frames and
their bytes, the mapping cache, the numbers given to spaces and processes, and the
journal.  Address spaces and processes themselves are *not* in here.  They are values
that their owner holds, so an operation on one space cannot even mention another.

**The heap.**  Region lists and page tables live in the kernel's heap.  How the heap decides is
not modelled, only what it says: the kernel carries the answers that are still to come
(`Kernel.heap`), whatever they are, and each request for room uses one up.  A refusal may
have any reason, too large a request included.

**Effects.**  A kernel operation is a `KernelM`: it changes the kernel, and it may abort.
An abort keeps the state reached so far.  That is the point of the choice: a failed
request leaves behind whatever it did before it failed, and only explicit cleaning up
takes it back.

**Few primitives.**  All changes of kernel state go through the dozen definitions of
this module.  Everything above them is composed, so a property that the primitives have
and sequencing keeps is a property of every operation of the library.
-/

namespace DemandPaging

/-- **Kernel states.** -/
structure Kernel where
  allocator : Allocator
  memory : Memory
  cache : MappingCache
  /-- The number of the next address space. -/
  nextSpace : SpaceId
  /-- The number of the next process. -/
  nextPid : Nat
  /-- Whether the next requests for room in the heap are granted, the soonest first.  When
  there is no answer left, every further request is granted. -/
  heap : List Bool
  /-- What has been reported, the oldest first. -/
  journal : Array Event

/-- **Kernel operations.** -/
abbrev KernelM := EStateM Abort Kernel

namespace Kernel

/-- A kernel in which nothing has happened yet. -/
def initial (allocator : Allocator) (cacheSlots : Nat) : Kernel where
  allocator
  memory := .blank
  cache := .empty cacheSlots
  nextSpace := 1
  nextPid := 1
  heap := []
  journal := #[]

/-- The kernel with its journal emptied. -/
def forgetJournal (k : Kernel) : Kernel := { k with journal := #[] }

/-! ### Sequencing -/

/-- Stops the kernel with a halt. -/
def halt {α : Type} (h : Halt) : KernelM α := throw (.halted h)

/-- Ends the operation with an error. -/
def fail {α : Type} (e : MemoryError) : KernelM α := throw (.failed e)

/-- A computation that may stop the kernel. -/
def orHalt {α : Type} : Except Halt α → KernelM α
  | .ok a => pure a
  | .error h => halt h

/-- A computation that may fail. -/
def orFail {α : Type} : Except MemoryError α → KernelM α
  | .ok a => pure a
  | .error e => fail e

/-- A computation that may fail or stop the kernel. -/
def orAbort {α : Type} : Except Abort α → KernelM α
  | .ok a => pure a
  | .error abort => throw abort

/-- Reports an event. -/
def record (e : Event) : KernelM Unit :=
  modify fun k => { k with journal := k.journal.push e }

/-! ### Frames -/

/-- Hands out `count` consecutive frames. -/
def allocate (count : Nat) : KernelM (Option Frame) := do
  let (f, a) ← orHalt ((← get).allocator.allocate count)
  modify fun k => { k with allocator := a }
  return f

/-- Takes back the block that starts at a frame. -/
def free (f : Frame) : KernelM Unit := do
  let a ← orHalt ((← get).allocator.free f)
  modify fun k => { k with allocator := a }

/-- Hands out consecutive frames under their kernel address. -/
def allocateKernelPages (count : Nat) : KernelM (Option VirtAddr) := do
  let (address, a) ← orHalt ((← get).allocator.allocateKernelPages count)
  modify fun k => { k with allocator := a }
  return address

/-- Takes back the block at a kernel address. -/
def freeKernelPages (address : VirtAddr) : KernelM Unit := do
  let a ← orHalt ((← get).allocator.freeKernelPages address)
  modify fun k => { k with allocator := a }

/-- Removes the free frames of a range from those that can be handed out. -/
def reserve (base : PhysAddr) (length : Nat) : KernelM Unit := do
  let a ← orHalt ((← get).allocator.reserve base length)
  modify fun k => { k with allocator := a }

/-- Ends the booting phase over memory without holes. -/
def mapFrom (firstFree : PhysAddr) (totalSize : Nat) : KernelM Unit := do
  let (a, ready) ← orHalt ((← get).allocator.mapFrom firstFree totalSize)
  modify fun k => { k with allocator := a }
  record ready

/-- Reports from where on memory is ignored, if it is. -/
def reportIgnored : Option Nat → KernelM Unit
  | some limit => record (.holesExhausted limit)
  | none => pure ()

/-- Ends the booting phase over a layout.  The frame map is reported as soon as it stands,
before the holes are reserved in it. -/
def bootstrap (layout : Layout) : KernelM Unit := do
  let (a, ready) ← orHalt ((← get).allocator.mapOver layout)
  record ready
  let a ← orHalt (a.reserveHoles layout.holes)
  modify fun k => { k with allocator := a }

/-! ### The heap -/

/-- Whether the heap grants room for so many entries.  Room for none is granted. -/
def grants (k : Kernel) (room : Nat) : Bool := room == 0 || k.heap.headD true

/-- The kernel after the heap was asked for room for so many entries.  For none it is not
asked. -/
def asked (k : Kernel) (room : Nat) : Kernel :=
  { k with heap := if room = 0 then k.heap else k.heap.tail }

/-- Asks the heap for room for so many entries and answers whether it is granted. -/
def ask (room : Nat) : KernelM Bool := modifyGet fun k => (k.grants room, k.asked room)

/-- Takes room for so many entries from the heap, or fails. -/
def claim (room : Nat) : KernelM Unit := do
  unless ← ask room do fail .outOfMemory

/-! ### Bytes -/

/-- Fills a frame with zeroes. -/
def zeroFrame (f : Frame) : KernelM Unit :=
  modify fun k => { k with memory := k.memory.zero f }

/-- Copies the bytes of one frame over those of another. -/
def copyFrame (target source : Frame) : KernelM Unit :=
  modify fun k => { k with memory := k.memory.copy target source }

/-- Writes bytes into a frame, from an offset on. -/
def writeFrame (f : Frame) (offset : Nat) (bytes : List UInt8) : KernelM Unit :=
  modify fun k => { k with memory := k.memory.write f offset bytes }

/-! ### Mappings -/

/-- Caches a mapping and answers its slot. -/
def cacheMapping (e : CacheEntry) : KernelM Nat := do
  let (slot, c) ← orFail ((← get).cache.insert e)
  modify fun k => { k with cache := c }
  record (.cached slot e.page e.frame)
  return slot

/-- Drops every cached mapping of a space. -/
def invalidate (space : SpaceId) : KernelM Unit :=
  modify fun k => { k with cache := k.cache.invalidate space }

/-- Drops every cached mapping. -/
def invalidateAll : KernelM Unit :=
  modify fun k => { k with cache := k.cache.invalidateAll }

/-! ### Numbers -/

/-- The number of a new address space. -/
def freshSpace : KernelM SpaceId :=
  modifyGet fun k => (k.nextSpace, { k with nextSpace := k.nextSpace + 1 })

/-- The number of a new process. -/
def freshPid : KernelM Nat :=
  modifyGet fun k => (k.nextPid, { k with nextPid := k.nextPid + 1 })

end Kernel

end DemandPaging
