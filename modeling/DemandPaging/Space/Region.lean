import DemandPaging.Failure
import DemandPaging.Permission

/-!
# Regions

A region is what a program declares about a range of its memory: a first page, a
number of pages, and the permission it asks for.  A region is intent only.  Nothing
backs it until the address space is prepared for load, or until a fault touches it.

**A region lies in the user half.**  The bound is a field of the type, so every page
of a region exists and `Region.page?` cannot leave the canonical addresses.  It is
checked once, by `Region.declare`, from an address and a size that need not be
aligned: the offset of the address into its page is folded into the size, and the sum
is rounded up to whole pages.  Both steps are word arithmetic that may overflow; a
range that overflows certainly does not end in the user half, and it is refused for
the same reason.

**The limit of a region is a number.**  A region may end exactly where user space
ends, and that is not an address.

`RegionList` keeps regions in the order of declaration.  That order matters twice and
in opposite directions: the *first* region containing an address decides what a fault
on it may do, the *last* region containing a page decides the permission the page has
after loading.
-/

namespace DemandPaging

/-- **Regions**: `pageCount` pages from `base` on, with one permission. -/
structure Region where
  base : Page
  pageCount : Nat
  permission : Permission
  inUserHalf : base.index + pageCount ≤ 0x800000000
deriving DecidableEq

namespace Region

/-- The first address of a region. -/
def start (r : Region) : VirtAddr := r.base.start

/-- One past the last address of a region. -/
def limit (r : Region) : Nat := r.start.val + r.pageCount * pageSize

/-- Whether an address lies in the region. -/
def contains (r : Region) (a : VirtAddr) : Bool :=
  decide (r.start.val ≤ a.val ∧ a.val < r.limit)

/-- Whether a page is one of the region's pages. -/
def covers (r : Region) (p : Page) : Bool :=
  decide (r.base.index ≤ p.index ∧ p.index < r.base.index + r.pageCount)

/-- The flags of the region's pages. -/
def flags (r : Region) : EntryFlags := r.permission.flags

/-- Page number `i` of the region, counted from its base. -/
def page (r : Region) (i : Nat) (h : i < r.pageCount) : Page :=
  .user (r.base.index + i) (by have := r.inUserHalf; simp only [userPageCount]; omega)

/-- Page number `i` of the region, if it has that many. -/
def page? (r : Region) (i : Nat) : Option Page :=
  if h : i < r.pageCount then some (r.page i h) else none

/-- Where `n + 1` pages are left from number `i` on, there is a page number `i`. -/
theorem lt_pageCount {r : Region} {i n : Nat} (h : i + (n + 1) ≤ r.pageCount) :
    i < r.pageCount := by
  omega

/-- And the other `n` pages are left from the next number on. -/
theorem rest_le_pageCount {r : Region} {i n : Nat} (h : i + (n + 1) ≤ r.pageCount) :
    i + 1 + n ≤ r.pageCount := by
  omega

/-- The `n` pages of a region from number `i` on. -/
def pagesFrom (r : Region) : (i n : Nat) → i + n ≤ r.pageCount → List Page
  | _, 0, _ => []
  | i, _ + 1, h => r.page i (lt_pageCount h) :: r.pagesFrom (i + 1) _ (rest_le_pageCount h)

/-- The pages of a region in ascending order. -/
def pages (r : Region) : List Page := r.pagesFrom 0 r.pageCount (by omega)

/-- How many bytes the pages of `[a, a + size)` hold, while that is a machine word. -/
def span? (a : VirtAddr) (size : Nat) : Option Nat :=
  (Word.add? size a.offset).bind (Word.roundUp? · pageSize)

theorem span?_eq_some {a : VirtAddr} {size len : Nat} (h : span? a size = some len) :
    len = roundUp (size + a.offset) pageSize := by
  simp only [span?, Option.bind_eq_some_iff, Word.add?_eq_some_iff,
    Word.roundUp?_eq_some_iff] at h
  obtain ⟨n, ⟨-, rfl⟩, -, rfl⟩ := h
  rfl

/-- The region of all pages that `[a, a + size)` touches; refused if those pages do
not end in the user half. -/
def declare (a : VirtAddr) (size : Nat) (permission : Permission) :
    Except MemoryError Region :=
  match span? a size with
  | none => .error (.addressingFault a)
  | some len =>
    if h : a.page.start.val + len ≤ userSpaceEnd then
      .ok {
        base := a.page
        pageCount := len / pageSize
        permission
        inUserHalf := by
          simp only [Page.start_val, VirtAddr.page_index, userSpaceEnd] at h
          simp only [VirtAddr.page_index, pageSize]
          omega }
    else .error (.addressingFault a)

/-- An address lies in a region exactly when its page is one of the region's. -/
theorem contains_eq_covers (r : Region) (a : VirtAddr) : r.contains a = r.covers a.page := by
  rw [Bool.eq_iff_iff]
  simp only [contains, covers, decide_eq_true_eq]
  simp only [limit, start, Page.start_val, VirtAddr.page_index, pageSize]
  omega

end Region

/-- **Region lists**: the regions of an address space in the order of declaration, in a
list whose room is accounted for by hand and only ever doubles. -/
structure RegionList where
  regions : List Region
  capacity : Nat

namespace RegionList

/-- Room of a list that was not asked for any particular one. -/
def initialCapacity : Nat := 4

/-- Bytes of one list entry. -/
def entrySize : Nat := 24

/-- An empty list with room for `capacity` regions, if there can be that much room. -/
def withCapacity (capacity : Nat) : Except MemoryError RegionList :=
  if capacity * entrySize ≤ largestAllocation then .ok ⟨[], capacity⟩
  else .error .outOfMemory

/-- The list an address space starts with. -/
def empty : RegionList := ⟨[], initialCapacity⟩

/-- How many regions there are. -/
def size (l : RegionList) : Nat := l.regions.length

/-- Whether there is no region. -/
def isEmpty (l : RegionList) : Bool := l.regions.isEmpty

/-- The room after a full list has been enlarged. -/
def grownCapacity (capacity : Nat) : Nat := max (capacity * 2) initialCapacity

/-- How much room has to be asked for before a region can be appended: none if the list is not
full. -/
def wanted (l : RegionList) : Nat := if l.size = l.capacity then grownCapacity l.capacity else 0

/-- Appends a region, first doubling the room of a full list. -/
def push (l : RegionList) (r : Region) : RegionList where
  regions := l.regions ++ [r]
  capacity := if l.size = l.capacity then grownCapacity l.capacity else l.capacity

/-- The first declared region containing the address. -/
def find? (l : RegionList) (a : VirtAddr) : Option Region := l.regions.find? (·.contains a)

/-- The last declared region covering the page. -/
def lastCovering? (l : RegionList) (p : Page) : Option Region :=
  l.regions.reverse.find? (·.covers p)

/-- Where the highest region ends. -/
def highestEnd? (l : RegionList) : Option Nat := (l.regions.map Region.limit).max?

@[simp] theorem regions_push (l : RegionList) (r : Region) :
    (l.push r).regions = l.regions ++ [r] := rfl

@[simp] theorem size_push (l : RegionList) (r : Region) : (l.push r).size = l.size + 1 := by
  simp [size]

@[simp] theorem regions_empty : empty.regions = [] := rfl

/-! ### Room that has to be asked for

Room is taken from the kernel's heap, and the heap may be unwilling to give any.  A list that moves
into more room and a list that is copied ask for it in the same way (`relocate`).  `push`, and the
list itself for its copy, are what comes of it where the room is granted (`tryPush_eq`,
`duplicate_eq`).
-/

/-- Whether a heap grants room for `capacity` regions.  Even an unwilling one grants what takes no
room, and none grants more than there can be. -/
def Grants (willing : Bool) (capacity : Nat) : Prop :=
  (willing = true ∨ capacity = 0) ∧ capacity * entrySize ≤ largestAllocation

instance (willing : Bool) (capacity : Nat) : Decidable (Grants willing capacity) :=
  inferInstanceAs (Decidable (_ ∧ _))

/-- An empty list with room for `capacity` regions, if the heap grants it. -/
def allot (willing : Bool) (capacity : Nat) : Except MemoryError RegionList :=
  if willing = true ∨ capacity = 0 then withCapacity capacity else .error .outOfMemory

/-- The same regions in a list of their own with room for `capacity`, if the heap grants it. -/
def relocate (l : RegionList) (willing : Bool) (capacity : Nat) : Except MemoryError RegionList :=
  match allot willing capacity with
  | .error e => .error e
  | .ok fresh => .ok { fresh with regions := fresh.regions ++ l.regions }

/-- A copy of the list, if the heap grants as much room again. -/
def duplicate (l : RegionList) (willing : Bool) : Except MemoryError RegionList :=
  l.relocate willing l.capacity

/-- Appends a region, if the heap grants the room into which a full list has to move first. -/
def tryPush (l : RegionList) (willing : Bool) (r : Region) : Except MemoryError RegionList :=
  match if l.size = l.capacity then l.relocate willing (grownCapacity l.capacity) else .ok l with
  | .error e => .error e
  | .ok l => .ok { l with regions := l.regions ++ [r] }

theorem lt_grownCapacity (n : Nat) : n < grownCapacity n := by
  unfold grownCapacity initialCapacity
  omega

theorem withCapacity_eq_ok_iff {capacity : Nat} {l : RegionList} : withCapacity capacity = .ok l ↔
    capacity * entrySize ≤ largestAllocation ∧ l = ⟨[], capacity⟩ := by
  unfold withCapacity
  by_cases hsize : capacity * entrySize ≤ largestAllocation
  · simp [hsize, eq_comm]
  · simp [hsize]

/-- **Moving a list** keeps its regions, and is refused if the room is. -/
theorem relocate_eq (l : RegionList) (willing : Bool) (capacity : Nat) :
    l.relocate willing capacity =
      if Grants willing capacity then .ok ⟨l.regions, capacity⟩ else .error .outOfMemory := by
  unfold relocate allot withCapacity
  by_cases hheap : willing = true ∨ capacity = 0
  · by_cases hsize : capacity * entrySize ≤ largestAllocation
    · have hgrants : Grants willing capacity := ⟨hheap, hsize⟩
      simp only [if_pos hheap, if_pos hsize, if_pos hgrants, List.nil_append]
    · have hrefused : ¬ Grants willing capacity := fun h => hsize h.2
      simp only [if_pos hheap, if_neg hsize, if_neg hrefused]
  · have hrefused : ¬ Grants willing capacity := fun h => hheap h.1
    simp only [if_neg hheap, if_neg hrefused]

/-- **A copy** is the list again. -/
theorem duplicate_eq (l : RegionList) (willing : Bool) : l.duplicate willing =
    if Grants willing l.capacity then .ok l else .error .outOfMemory :=
  l.relocate_eq willing l.capacity

/-- **Appending is `push`**, unless a full list is refused the room to grow. -/
theorem tryPush_eq (l : RegionList) (willing : Bool) (r : Region) : l.tryPush willing r =
    if l.size ≠ l.capacity ∨ Grants willing (grownCapacity l.capacity) then .ok (l.push r)
    else .error .outOfMemory := by
  unfold tryPush push
  by_cases hfull : l.size = l.capacity
  · rw [if_pos hfull, if_pos hfull, relocate_eq]
    by_cases hgrants : Grants willing (grownCapacity l.capacity)
    · rw [if_pos hgrants, if_pos (Or.inr hgrants)]
    · rw [if_neg hgrants, if_neg (not_or.mpr ⟨not_not_intro hfull, hgrants⟩)]
  · rw [if_neg hfull, if_neg hfull, if_pos (Or.inl hfull)]

/-- Appending asks for the room that is wanted, and for none if none is. -/
theorem tryPush_eq_of_wanted (l : RegionList) (willing : Bool) (r : Region) :
    l.tryPush willing r = if Grants willing l.wanted then .ok (l.push r)
      else .error .outOfMemory := by
  rw [tryPush_eq, wanted]
  by_cases hfull : l.size = l.capacity
  · simp [hfull]
  · simp [hfull, Grants]

end RegionList

end DemandPaging
