import DemandPaging.Space.Basic

/-!
# Page faults

A fault arrives when the processor finds no usable mapping in the cache.  Resolving
it ends with a cached mapping, or with the error that says why there is none.

**Two reasons to fault.**  The page may have a mapping that the cache has lost; then
only the cache is filled again.  Or the page was never touched; then it is mapped to a
frame of zeroes first, with the flags of whatever covers the address, and stack or heap
grow to it.  Nothing is ever paged out.

**Who faults.**  A fault may come while no process runs, or from a process without an
address space.  Both are answered like any other error.  A write to a page that the
processor holds read-only is refused before any of that is looked at: there is no sharing
that writing could resolve.

**Order of refusals.**  Coverage is asked before permission, and permission before a
frame is taken, so that a forbidden access to an unmapped page takes nothing.  The cache
comes last: if it has no slot, the page stays mapped.
-/

namespace DemandPaging

/-- **Who is running** when a fault arrives. -/
inductive Current where
  /-- No process. -/
  | idle
  /-- A process without an address space. -/
  | bare
  /-- A process with this address space. -/
  | within (space : AddressSpace)

namespace PageFault

open SpaceM

/-- Whether a page with these flags permits the access. -/
def permits (flags : EntryFlags) (access : Access) : Bool :=
  flags.isPresent && (access != .write || flags.isWritable)

/-- Refuses an access that the flags of the page do not permit. -/
def checkAccess (access : Access) (flags : EntryFlags) (a : VirtAddr) : KernelM Unit := do
  unless permits flags access do
    Kernel.record (.forbidden access a)
    Kernel.fail (.protectionViolation a)

/-- Maps the page of a covered address. -/
def bringIn (access : Access) (a : VirtAddr) (c : Coverage) : SpaceM (Frame × EntryFlags) := do
  checkAccess access c.flags a
  let f ← (AddressSpace.mapCovered a.page c).reporting (.outOfFrames a)
  Kernel.record (.mapped a.page f c)
  return (f, c.flags)

/-- The frame and flags behind a covered address, mapping its page if need be. -/
def backing (access : Access) (a : VirtAddr) (c : Coverage) : SpaceM (Frame × EntryFlags) := do
  match (← space).lookup a with
  | some e =>
    Kernel.record (.alreadyMapped a.page)
    return (e.frame, e.flags)
  | none => bringIn access a c

/-- Caches the mapping of an address. -/
def fillCache (a : VirtAddr) (f : Frame) (flags : EntryFlags) : SpaceM Unit := do
  let e : CacheEntry := ⟨(← space).id, a.page, f, flags⟩
  discard ((onKernel (Kernel.cacheMapping e)).reporting (.cacheFull a))

/-- Resolves a fault at an address of the space at hand. -/
def resolve (access : Access) (a : VirtAddr) : SpaceM Unit := do
  match (← space).coverage a with
  | none =>
    Kernel.record (.uncovered a)
    Kernel.fail (.addressingFault a)
  | some c =>
    let (f, flags) ← backing access a c
    checkAccess access flags a
    fillCache a f flags

/-- Handles a fault of whoever is running, and answers what became of them. -/
def handle (access : Access) (a : VirtAddr) (current : Current) :
    KernelM (Except MemoryError Unit × Current) := do
  Kernel.record (.faulted access a)
  if access = .readOnlyWrite then
    Kernel.record (.readOnlyWrite a)
    return (.error (.protectionViolation a), current)
  match current with
  | .idle => return (.error .noProcess, .idle)
  | .bare => return (.error .noAddressSpace, .bare)
  | .within s =>
    let (r, s) ← (resolve access a).attempt s
    return (r, .within s)

end PageFault

end DemandPaging
