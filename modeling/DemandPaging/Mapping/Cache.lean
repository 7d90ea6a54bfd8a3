import DemandPaging.Failure
import DemandPaging.Permission
import DemandPaging.Mapping.Slots

/-!
# The mapping cache

The processor looks frames up in a small cache that the kernel fills.  Each cached
mapping carries the number of the address space it belongs to, so that the cache can
hold mappings of several spaces at once.

**Nothing is replaced.**  A mapping goes where the same page of the same space is
cached already, otherwise to the first free slot.  Once every slot is taken, further
mappings are refused until some are dropped; a resolved fault can therefore still
fail for want of a slot.
-/

namespace DemandPaging

/-- Address spaces are told apart by numbers that are never used again. -/
abbrev SpaceId := Nat

/-- **Cached mappings.** -/
structure CacheEntry where
  space : SpaceId
  page : Page
  frame : Frame
  flags : EntryFlags
deriving DecidableEq

namespace CacheEntry

/-- Whether the page may be written. -/
def isWritable (e : CacheEntry) : Bool := e.flags.isWritable

/-- Whether this is the mapping of a page of a space. -/
def isFor (e : CacheEntry) (space : SpaceId) (p : Page) : Bool := e.space == space && e.page == p

end CacheEntry

/-- **Mapping caches.** -/
structure MappingCache where
  slots : Slots CacheEntry

namespace MappingCache

/-- A cache of `n` empty slots. -/
def empty (n : Nat) : MappingCache := ⟨.empty n⟩

/-- How many slots the cache has. -/
def capacity (c : MappingCache) : Nat := c.slots.size

/-- The cached mappings, in slot order. -/
def entries (c : MappingCache) : List CacheEntry := c.slots.values

/-- How many mappings are cached. -/
def size (c : MappingCache) : Nat := c.entries.length

/-- Whether nothing is cached. -/
def isEmpty (c : MappingCache) : Bool := c.size == 0

/-- The cached mapping of a page of a space. -/
def find? (c : MappingCache) (space : SpaceId) (p : Page) : Option CacheEntry :=
  c.slots.find? (·.isFor space p)

/-- The cached mapping, for a space, of the page an address lies in. -/
def lookup (c : MappingCache) (space : SpaceId) (a : VirtAddr) : Option CacheEntry :=
  c.find? space a.page

/-- The slot a mapping goes to: the one it occupies already, or the first free one. -/
def slotFor? (c : MappingCache) (e : CacheEntry) : Option Nat :=
  (c.slots.index? (·.isFor e.space e.page)).or c.slots.firstFree?

/-- Caches a mapping and answers its slot, if there is one for it. -/
def insert (c : MappingCache) (e : CacheEntry) : Except MemoryError (Nat × MappingCache) :=
  match c.slotFor? e with
  | some i => .ok (i, ⟨c.slots.place i e⟩)
  | none => .error .cacheFull

/-- Drops every mapping of a space. -/
def invalidate (c : MappingCache) (space : SpaceId) : MappingCache :=
  ⟨c.slots.clear (·.space == space)⟩

/-- Drops every mapping. -/
def invalidateAll (c : MappingCache) : MappingCache := ⟨c.slots.clear fun _ => true⟩

/-- The cached mapping of a page is the first entry for it. -/
theorem find?_eq_entries_find? (c : MappingCache) (space : SpaceId) (p : Page) :
    c.find? space p = c.entries.find? (·.isFor space p) :=
  c.slots.find?_eq_values_find? _

@[simp] theorem entries_empty (n : Nat) : (empty n).entries = [] := by simp [empty, entries]

@[simp] theorem capacity_empty (n : Nat) : (empty n).capacity = n := by simp [empty, capacity]

@[simp] theorem entries_invalidate (c : MappingCache) (space : SpaceId) :
    (c.invalidate space).entries = c.entries.filter fun e => !(e.space == space) := by
  simp [invalidate, entries]

@[simp] theorem entries_invalidateAll (c : MappingCache) : c.invalidateAll.entries = [] := by
  simp [invalidateAll, entries]

@[simp] theorem capacity_invalidate (c : MappingCache) (space : SpaceId) :
    (c.invalidate space).capacity = c.capacity := by
  simp [invalidate, capacity]

/-- A mapping is refused exactly if it has no slot to go to. -/
theorem insert_eq_error_iff {c : MappingCache} {e : CacheEntry} {error : MemoryError} :
    c.insert e = .error error ↔ c.slotFor? e = none ∧ error = .cacheFull := by
  unfold insert
  cases c.slotFor? e <;> simp [eq_comm]

end MappingCache

end DemandPaging
