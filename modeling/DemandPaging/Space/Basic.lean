import DemandPaging.Kernel
import DemandPaging.Mapping.Table

/-!
# Address spaces

An address space is what a process sees of memory: the regions it declared, the
mappings of its pages, and the bounds of its stack and heap.

**Bounds are pages.**  Stack and heap are each described by their lowest and highest
page, both included.  Before an address space is prepared for load all four are page
zero, and `loaded` is false; coverage looks at the bounds only once it is true.

**Growth.**  The pages between the highest heap page and the lowest stack page belong to
nobody yet.  A touched page of that gap goes to whichever of the two is nearer, the stack
on a tie (`AddressSpace.coverage`), and only when the page has actually been mapped does
the bound move to it (`AddressSpace.grow`).

**Working on a space.**  A space is a value that is changed by `SpaceM` operations: they
see the kernel and one space, the `Workspace`.  Kernel operations lift to it, and
`SpaceM.attempt` runs one on a given space inside a kernel operation, turning failure
into an ordinary answer while letting a halt through.
-/

namespace DemandPaging

/-- **Bounds** of stack and heap: their lowest and highest pages. -/
structure Bounds where
  stackLow : Page
  stackHigh : Page
  heapLow : Page
  heapHigh : Page
deriving DecidableEq

/-- The bounds of a space that was never prepared for load. -/
def Bounds.unset : Bounds := ⟨.zero, .zero, .zero, .zero⟩

/-- **Address spaces.** -/
structure AddressSpace where
  id : SpaceId
  regions : RegionList
  table : PageTable
  bounds : Bounds
  /-- Whether preparing for load has begun. -/
  loaded : Bool

namespace AddressSpace

/-- A space without regions or pages. -/
def new (id : SpaceId) : AddressSpace :=
  ⟨id, .empty, .blank PageTable.initialCapacity, .unset, false⟩

/-- The mapping of the page an address lies in. -/
def lookup (s : AddressSpace) (a : VirtAddr) : Option PageEntry := s.table.lookup a

/-- The physical address behind an address. -/
def physical? (s : AddressSpace) (a : VirtAddr) : Option PhysAddr :=
  (s.lookup a).map fun e => e.frame.address a.offset a.offset_lt

/-- The initial stack pointer of a program in this space. -/
def stackPointer (_ : AddressSpace) : VirtAddr := userStackTop

/-- Stack or heap, whichever a page within their reach belongs to. -/
def growthCoverage (b : Bounds) (p : Page) : Option Coverage :=
  if b.stackLow.index ≤ p.index ∧ p.index ≤ b.stackHigh.index then some .stack
  else if b.heapLow.index ≤ p.index ∧ p.index ≤ b.heapHigh.index then some .heap
  else if b.heapHigh.index < p.index ∧ p.index < b.stackLow.index then
    if b.stackLow.index - p.index ≤ p.index - b.heapHigh.index then some .stack else some .heap
  else none

/-- Why an address may be touched, if it may.  Regions come first, then stack and heap. -/
def coverage (s : AddressSpace) (a : VirtAddr) : Option Coverage :=
  match s.regions.find? a with
  | some r => some (.region r)
  | none => if s.loaded then growthCoverage s.bounds a.page else none

/-- Moves the bound of stack or heap to a page that was mapped for it. -/
def grow (s : AddressSpace) (p : Page) (c : Coverage) : AddressSpace :=
  match c with
  | .region _ => s
  | .stack =>
    if p.index < s.bounds.stackLow.index then
      { s with bounds := { s.bounds with stackLow := p } }
    else s
  | .heap =>
    if s.bounds.heapHigh.index < p.index then
      { s with bounds := { s.bounds with heapHigh := p } }
    else s

end AddressSpace

/-- **Workspaces**: the kernel and the one space that is being worked on. -/
structure Workspace where
  kernel : Kernel
  space : AddressSpace

/-- **Operations on a space.** -/
abbrev SpaceM := EStateM Abort Workspace

namespace SpaceM

/-- A kernel operation, as one on a space that it does not touch. -/
def onKernel {α : Type} (x : KernelM α) : SpaceM α := fun w =>
  match x w.kernel with
  | .ok a k => .ok a { w with kernel := k }
  | .error e k => .error e { w with kernel := k }

instance : MonadLift KernelM SpaceM := ⟨onKernel⟩

/-- The space being worked on. -/
def space : SpaceM AddressSpace := fun w => .ok w.space w

/-- Changes the space being worked on. -/
def modifySpace (f : AddressSpace → AddressSpace) : SpaceM Unit :=
  modify fun w => { w with space := f w.space }

/-- Reports an event if the operation fails. -/
def reporting {α : Type} (x : SpaceM α) (e : Event) : SpaceM α := fun w =>
  match x w with
  | .ok a w => .ok a w
  | .error (.failed error) w =>
    .error (.failed error) { w with kernel := { w.kernel with journal := w.kernel.journal.push e } }
  | .error (.halted h) w => .error (.halted h) w

/-- Takes back what was done for the operation if it fails.  The failure stands. -/
def cleaningUp {α : Type} (x : SpaceM α) (undo : KernelM Unit) : SpaceM α := fun w =>
  match x w with
  | .ok a w => .ok a w
  | .error (.failed error) w =>
    match undo w.kernel with
    | .ok _ k => .error (.failed error) { w with kernel := k }
    | .error abort k => .error abort { w with kernel := k }
  | .error (.halted h) w => .error (.halted h) w

/-- Works on a given space and answers what became of it.  Failure is part of the answer;
a halt is not. -/
def attempt {α : Type} (x : SpaceM α) (s : AddressSpace) :
    KernelM (Except MemoryError α × AddressSpace) := fun k =>
  match x ⟨k, s⟩ with
  | .ok a w => .ok (.ok a, w.space) w.kernel
  | .error (.failed e) w => .ok (.error e, w.space) w.kernel
  | .error (.halted h) w => .error (.halted h) w.kernel

end SpaceM

/-- Frees the frames of mappings one after another. -/
def PageTable.freeEntries : List PageEntry → KernelM Unit
  | [] => pure ()
  | e :: rest => do
    Kernel.free e.frame
    PageTable.freeEntries rest

/-- Gives up a page table: every frame it maps goes back to the allocator. -/
def PageTable.release (t : PageTable) : KernelM Unit := do
  PageTable.freeEntries t.entries
  Kernel.record (.tableReleased t.size)

namespace AddressSpace

open SpaceM

/-! ### Life of a space -/

/-- A new space without regions or pages, if the heap has room for its list and its table. -/
def create : KernelM AddressSpace := do
  Kernel.claim RegionList.initialCapacity
  Kernel.claim PageTable.initialCapacity
  return new (← Kernel.freshSpace)

/-- Takes a space down. -/
def destroy (s : AddressSpace) : KernelM Unit := do
  Kernel.record (.destroying s.id)
  s.table.release

/-- Drops what is cached for a space, before it runs. -/
def activate (s : AddressSpace) : KernelM Unit := Kernel.invalidate s.id

/-- Drops what is cached for a space, after it ran. -/
def deactivate (s : AddressSpace) : KernelM Unit := Kernel.invalidate s.id

/-! ### Declaring and mapping -/

/-- Declares the region of all pages that `[a, a + size)` touches.  Once loading has begun
this stops the kernel.  A full list has to be granted the room it grows to. -/
def declareRegion (a : VirtAddr) (size : Nat) (permission : Permission) : SpaceM Unit := do
  if (← space).loaded then Kernel.halt .regionAfterLoad
  let r ← Kernel.orFail (Region.declare a size permission)
  Kernel.record (.regionDeclared r)
  Kernel.claim (← space).regions.wanted
  modifySpace fun s => { s with regions := s.regions.push r }

/-- Records a mapping in the space's page table.  A full table has to be granted the room it
grows to. -/
def addEntry (e : PageEntry) : SpaceM Unit := do
  let granted ← Kernel.ask ((← space).table.wanted e.page)
  let (t, grown) ← Kernel.orAbort ((← space).table.insert granted e)
  modifySpace fun s => { s with table := t }
  match grown with
  | some n => Kernel.record (.tableGrown n)
  | none => pure ()

/-- Maps a page to a frame of zeroes, taken from the allocator.  If the table cannot take the
mapping, the frame goes back. -/
def mapZeroed (p : Page) (flags : EntryFlags) : SpaceM Frame := do
  match ← Kernel.allocate 1 with
  | none => Kernel.fail .outOfMemory
  | some f =>
    Kernel.zeroFrame f
    (addEntry ⟨p, f, flags⟩).cleaningUp (Kernel.free f)
    return f

/-- Maps a page to a frame of zeroes unless it is mapped already. -/
def ensureMapped (p : Page) (flags : EntryFlags) : SpaceM Unit := do
  match (← space).table.find? p with
  | some _ => pure ()
  | none => discard (mapZeroed p flags)

/-- Maps a page because an address in it is covered, and moves the bound of stack or heap
along with it. -/
def mapCovered (p : Page) (c : Coverage) : SpaceM Frame := do
  let f ← mapZeroed p c.flags
  modifySpace fun s => s.grow p c
  return f

end AddressSpace

end DemandPaging
