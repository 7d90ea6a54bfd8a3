import DemandPaging.Space.Basic

/-!
# Loading

A program is loaded into a space in four steps: its regions are declared, all their pages
are backed by writable frames of zeroes, its bytes are written, and finally every page
gets the permission its region declares.  This module holds the second and the last.

**Preparing** backs pages that have no frame yet and leaves mapped pages alone.  Then it
sets up one stack page and one heap page.  The heap starts where the highest region ends,
and if that region ends at the very top of user space, at a fixed place instead.  When
frames run out, or the room for their mappings, pages mapped so far stay mapped: preparing
again goes on from there, and destroying the space gives them back.

**Completing** goes through the regions in the order of declaration and changes the
flags of all their mapped pages, so where regions share a page the later one wins.
-/

namespace DemandPaging

namespace AddressSpace

open SpaceM

/-- The page the heap of a space with these regions starts with. -/
def initialHeapPage (l : RegionList) : Page :=
  match l.highestEnd? with
  | some e =>
    if h : e < userSpaceEnd then .user (e / pageSize) (page_lt_userPageCount h)
    else .user (defaultHeapStart / pageSize) defaultHeapPage_lt_userPageCount
  | none => .user (defaultHeapStart / pageSize) defaultHeapPage_lt_userPageCount

/-- Backs `n` pages of a region from number `i` on. -/
def backPagesFrom (r : Region) : (i n : Nat) → i + n ≤ r.pageCount → SpaceM Unit
  | _, 0, _ => pure ()
  | i, n + 1, h => do
    ensureMapped (r.page i (Region.lt_pageCount h)) .loading
    backPagesFrom r (i + 1) n (Region.rest_le_pageCount h)

/-- Backs every page of every region. -/
def backRegions : List Region → SpaceM Unit
  | [] => pure ()
  | r :: rest => do
    backPagesFrom r 0 r.pageCount (by omega)
    backRegions rest

/-- Backs every region page with a writable frame, and sets up the first page of stack and
heap. -/
def prepareLoad : SpaceM Unit := do
  modifySpace fun s => { s with loaded := true }
  backRegions (← space).regions.regions
  ensureMapped initialStackPage .segment
  modifySpace fun s =>
    { s with bounds :=
        { s.bounds with stackLow := initialStackPage, stackHigh := initialStackPage } }
  let heap := initialHeapPage (← space).regions
  ensureMapped heap .segment
  modifySpace fun s => { s with bounds := { s.bounds with heapLow := heap, heapHigh := heap } }
  let s ← space
  Kernel.record (.prepared s.id s.table.size)

/-- Gives the mapped pages of each region, in the order of declaration, the region's
flags. -/
def applyPermissions (t : PageTable) (regions : List Region) : PageTable :=
  regions.foldl (fun t r => t.setFlagsWhere r.covers r.flags) t

/-- Replaces the flags that pages had during loading by those their regions declare. -/
def completeLoad (s : AddressSpace) : AddressSpace :=
  { s with table := applyPermissions s.table s.regions.regions }

/-- Backing pages one after another is mapping each of the region's pages. -/
theorem backPagesFrom_eq_forM (r : Region) :
    ∀ (i n : Nat) (h : i + n ≤ r.pageCount),
      backPagesFrom r i n h = (r.pagesFrom i n h).forM fun p => ensureMapped p .loading
  | _, 0, _ => rfl
  | i, n + 1, h => by
    simp only [backPagesFrom, Region.pagesFrom, backPagesFrom_eq_forM r (i + 1) n]
    rfl

end AddressSpace

end DemandPaging
