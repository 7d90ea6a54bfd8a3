import DemandPaging.Word

/-!
# Addresses, pages and frames

There are two address spaces and two sizes of things in each.  A virtual address
lies in a `Page`, a physical address in a `Frame`, and a page and a frame hold the
same number of bytes.

**The range is part of the type.**  A virtual address is *canonical*: bits 48 to 63
repeat bit 47, so the addresses form a lower half (user space) and an upper half
(the kernel's), with a gap between them.  A physical address has 52 bits.  Pages and
frames are numbered by index and carry the same bounds divided by the page size, so
that every page has a canonical first address and every frame a physical one.
Nothing in the library has to ask again whether an address is one.
-/

namespace DemandPaging

/-- Bytes in a page, and in a frame. -/
def pageSize : Nat := 4096

/-- First address past the lower canonical half: user regions end at or below it. -/
def userSpaceEnd : Nat := 0x800000000000

/-- Pages in the lower canonical half. -/
def userPageCount : Nat := 0x800000000

/-- **Virtual addresses**: canonical 64-bit words. -/
structure VirtAddr where
  val : Nat
  canonical : val < 0x800000000000 ∨ 0xffff800000000000 ≤ val ∧ val < 0x10000000000000000
deriving DecidableEq

/-- **Physical addresses**: 52-bit words. -/
structure PhysAddr where
  val : Nat
  inRange : val < 0x10000000000000
deriving DecidableEq

/-- **Pages** of virtual memory, numbered by `address / pageSize`. -/
structure Page where
  index : Nat
  canonical : index < 0x800000000 ∨ 0xffff800000000 ≤ index ∧ index < 0x10000000000000
deriving DecidableEq

/-- **Frames** of physical memory, numbered by `address / pageSize`. -/
structure Frame where
  index : Nat
  inRange : index < 0x10000000000
deriving DecidableEq

namespace VirtAddr

/-- The virtual address with this value, if the value is canonical. -/
def ofNat? (n : Nat) : Option VirtAddr :=
  if h : n < 0x800000000000 ∨ 0xffff800000000000 ≤ n ∧ n < 0x10000000000000000 then
    some ⟨n, h⟩
  else none

/-- The page an address lies in. -/
def page (a : VirtAddr) : Page where
  index := a.val / 4096
  canonical := by have := a.canonical; omega

/-- How far into its page an address lies. -/
def offset (a : VirtAddr) : Nat := a.val % pageSize

theorem offset_lt (a : VirtAddr) : a.offset < pageSize :=
  Nat.mod_lt _ (by decide)

@[ext] theorem ext {a b : VirtAddr} (h : a.val = b.val) : a = b := by
  cases a; cases b; simp_all

end VirtAddr

namespace PhysAddr

/-- The physical address with this value, if the value has 52 bits. -/
def ofNat? (n : Nat) : Option PhysAddr :=
  if h : n < 0x10000000000000 then some ⟨n, h⟩ else none

/-- The frame an address lies in. -/
def frame (a : PhysAddr) : Frame where
  index := a.val / 4096
  inRange := by have := a.inRange; omega

/-- How far into its frame an address lies. -/
def offset (a : PhysAddr) : Nat := a.val % pageSize

@[ext] theorem ext {a b : PhysAddr} (h : a.val = b.val) : a = b := by
  cases a; cases b; simp_all

end PhysAddr

namespace Page

/-- Page number `i` of user space. -/
def user (i : Nat) (h : i < userPageCount) : Page := ⟨i, Or.inl h⟩

/-- Page zero. -/
def zero : Page := ⟨0, by decide⟩

/-- The first address of a page. -/
def start (p : Page) : VirtAddr where
  val := p.index * 4096
  canonical := by have := p.canonical; omega

@[ext] theorem ext {p q : Page} (h : p.index = q.index) : p = q := by
  cases p; cases q; simp_all

@[simp] theorem start_val (p : Page) : p.start.val = p.index * 4096 := rfl

@[simp] theorem page_start (p : Page) : p.start.page = p := by
  apply ext; simp [VirtAddr.page]

end Page

namespace Frame

/-- The frame with this number, if it is a frame number. -/
def ofIndex? (i : Nat) : Option Frame :=
  if h : i < 0x10000000000 then some ⟨i, h⟩ else none

/-- The first address of a frame. -/
def start (f : Frame) : PhysAddr where
  val := f.index * 4096
  inRange := by have := f.inRange; omega

/-- The address `offset` bytes into a frame. -/
def address (f : Frame) (offset : Nat) (h : offset < 4096) : PhysAddr where
  val := f.index * 4096 + offset
  inRange := by have := f.inRange; omega

@[ext] theorem ext {f g : Frame} (h : f.index = g.index) : f = g := by
  cases f; cases g; simp_all

@[simp] theorem start_val (f : Frame) : f.start.val = f.index * 4096 := rfl

@[simp] theorem frame_start (f : Frame) : f.start.frame = f := by
  apply ext; simp [PhysAddr.frame]

end Frame

theorem VirtAddr.page_index (a : VirtAddr) : a.page.index = a.val / 4096 := rfl

theorem VirtAddr.page_start_add_offset (a : VirtAddr) : a.page.start.val + a.offset = a.val := by
  simp only [Page.start_val, page_index, offset, pageSize]; omega

/-- Where the stack of every process starts: the initial stack pointer. -/
def userStackTop : VirtAddr := ⟨0x700000000000, by decide⟩

/-- The page just below the top of the stack, mapped before a process runs. -/
def initialStackPage : Page := ⟨0x6ffffffff, by decide⟩

/-- Where the heap starts when no region leaves room above itself. -/
def defaultHeapStart : Nat := 0x10000000

/-- Below the end of user space lie user pages. -/
theorem page_lt_userPageCount {n : Nat} (h : n < userSpaceEnd) : n / pageSize < userPageCount := by
  unfold userSpaceEnd at h
  unfold pageSize userPageCount
  omega

theorem defaultHeapPage_lt_userPageCount : defaultHeapStart / pageSize < userPageCount := by
  decide

end DemandPaging
