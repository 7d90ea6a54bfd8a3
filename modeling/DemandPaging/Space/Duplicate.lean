import DemandPaging.Space.Load

/-!
# Duplicating a space

A copy of a space has the same regions, the same pages with the same flags and the same
bytes, and the same bounds, but frames and a number of its own.  No frame is ever shared.

The copy is built the way its source was: if the source was loaded, the copy is prepared
for load first, which maps every region page and the first page of stack and heap.  Then
every page of the source is copied over, and pages that the source gained since, by growth
of its stack or heap, are mapped on the way.  If frames run out, or the room for the mappings,
what there is of the copy is destroyed again.
-/

namespace DemandPaging

namespace AddressSpace

open SpaceM

/-- The frame behind a page, mapping the page first if need be. -/
def frameFor (p : Page) (flags : EntryFlags) : SpaceM Frame := do
  match (← space).table.find? p with
  | some e => return e.frame
  | none => mapZeroed p flags

/-- Takes over one page of another space: its bytes and its flags. -/
def copyEntry (e : PageEntry) : SpaceM Unit := do
  let f ← frameFor e.page e.flags
  Kernel.copyFrame f e.frame
  modifySpace fun s => { s with table := (s.table.setFlags e.page e.flags).2 }

/-- Takes over pages one after another. -/
def copyEntries : List PageEntry → SpaceM Unit
  | [] => pure ()
  | e :: rest => do
    copyEntry e
    copyEntries rest

/-- Makes the space at hand, which has the regions of `source` and no pages, a copy of it. -/
def copyFrom (source : AddressSpace) : SpaceM Unit := do
  if source.loaded then prepareLoad
  copyEntries source.table.entries
  modifySpace fun s => { s with bounds := source.bounds, loaded := source.loaded }

/-- The empty space a copy of `source` starts from. -/
def shell (source : AddressSpace) (id : SpaceId) : AddressSpace :=
  { new id with regions := source.regions, table := .blank source.table.capacity }

/-- A copy of a space, in frames of its own.  If there are not enough of them, or the heap
refuses the room, everything taken for the copy is given back, except for its number. -/
def duplicate (source : AddressSpace) : KernelM AddressSpace := do
  Kernel.claim source.regions.capacity
  Kernel.claim source.table.capacity
  let id ← Kernel.freshSpace
  match ← (copyFrom source).attempt (source.shell id) with
  | (.ok (), copy) =>
    Kernel.record (.duplicated source.id copy.id)
    return copy
  | (.error e, remnant) =>
    Kernel.record (.duplicationFailed e)
    remnant.destroy
    Kernel.fail e

end AddressSpace

end DemandPaging
