import DemandPaging.PageFault
import DemandPaging.Process.Fork
import DemandPaging.Process.Program

/-!
# Requests and replies

Everything that can be asked of a running machine, as data, and everything it can answer.
With requests as data a history of the machine is a list, and what holds at every point of
every history can be said by quantifying over lists.

Spaces, processes and stand-alone page tables are named by the order in which they came
to be.  A process's own space is named through the process (`SpaceName`).
-/

namespace DemandPaging

/-- **Names of address spaces.** -/
inductive SpaceName where
  /-- A space that belongs to no process. -/
  | space (number : Nat)
  /-- The space of a process. -/
  | process (number : Nat)
deriving DecidableEq

/-- **Who raises a fault.** -/
inductive Faulter where
  | nobody
  /-- A process without an address space. -/
  | bare
  /-- A process with this space. -/
  | owner (name : SpaceName)
deriving DecidableEq

/-- **Requests about frames.** -/
inductive FrameRequest where
  | allocate (count : Nat)
  | allocateKernelPages (count : Nat)
  | free (frame : Frame)
  | freeKernelPages (address : VirtAddr)
  | reserve (base : PhysAddr) (length : Nat)
  | kernelAddress (frame : Frame)
  | isInitialized
  | state (frame : Frame)
  | entry (frame : Frame)
  | stretches
  | mapFrom (firstFree : PhysAddr) (totalSize : Nat)
  /-- Ends the booting phase over a layout that ignores memory from an address on, or
  none. -/
  | bootstrap (layout : Layout) (ignored : Option Nat)
  | poke (address : PhysAddr) (bytes : List UInt8)
  | peek (address : PhysAddr) (count : Nat)
  | zero (frame : Frame)
  | copy (target source : Frame)

/-- **Requests about the mapping cache.** -/
inductive CacheRequest where
  | reserveSpaceId
  | insert (entry : CacheEntry)
  | lookup (space : SpaceId) (address : VirtAddr)
  | invalidate (space : SpaceId)
  | invalidateAll
  | entries

/-- **Requests about one stand-alone page table.** -/
inductive TableRequest where
  | insert (entry : PageEntry)
  | lookup (address : VirtAddr)
  | update (address : VirtAddr) (frame : Frame) (flags : EntryFlags)
  | setFlags (page : Page) (flags : EntryFlags)
  | inspect
  | release

/-- **Requests about one address space.** -/
inductive SpaceRequest where
  | declareRegion (address : VirtAddr) (size : Nat) (permission : Permission)
  | prepareLoad
  | completeLoad
  | stackPointer
  | load (segments : List Segment)
  | activate
  | deactivate
  | coverage (address : VirtAddr)
  | physical (address : VirtAddr)
  | lookup (address : VirtAddr)
  | inspect
  | read (address : VirtAddr) (count : Nat)
  | write (address : VirtAddr) (bytes : List UInt8)

/-- **Requests about one process.** -/
inductive ProcessRequest where
  | run
  | preempt
  | exit (status : Int)
  | setState (state : ProcessState)
  | inspect
  | killOnFault (error : MemoryError)

/-- **Requests.** -/
inductive Request where
  | frames (request : FrameRequest)
  | cache (request : CacheRequest)
  | createTable (capacity : Nat)
  | table (number : Nat) (request : TableRequest)
  | createSpace
  | duplicateSpace (name : SpaceName)
  | destroySpace (number : Nat)
  | space (name : SpaceName) (request : SpaceRequest)
  | fault (who : Faulter) (access : Access) (address : VirtAddr)
  | startProgram (segments : List Segment) (entryPoint : VirtAddr)
  /-- Moves a space into a new process. -/
  | createProcess (space : Nat) (entryPoint stackPointer : VirtAddr)
  /-- Moves a space into a new child of a process. -/
  | forkWith (process space : Nat)
  | fork (process : Nat)
  /-- Forks and answers as a system call does. -/
  | forkCall (process : Nat)
  | process (number : Nat) (request : ProcessRequest)

/-- **Replies.** -/
inductive Reply where
  | done
  | flag (value : Bool)
  | number (value : Int)
  | frame (frame : Option Frame)
  | address (address : Option VirtAddr)
  | physical (address : Option PhysAddr)
  | frameState (state : Option FrameState)
  /-- The entry of a frame and where the kernel sees it. -/
  | frameEntry (entry : Option (FrameEntry × VirtAddr))
  | stretches (stretches : List FrameMap.Stretch)
  | bytes (bytes : List UInt8)
  | cacheEntry (entry : Option CacheEntry)
  | cacheEntries (entries : List CacheEntry)
  | pageEntry (entry : Option PageEntry)
  | pageEntries (entries : List PageEntry)
  /-- How many things there are, and room for how many. -/
  | occupancy (size capacity : Nat)
  | tableCreated (number capacity : Nat)
  | table (table : PageTable)
  | spaceCreated (number : Nat) (id : SpaceId)
  | bounds (bounds : Bounds)
  | coverage (coverage : Option Coverage)
  | space (space : AddressSpace)
  | resolved (entry : Option PageEntry) (bounds : Bounds)
  | processCreated (number : Nat) (process : Process)
  | process (process : Process)
  | killed (killed : Bool) (process : Process)

end DemandPaging
