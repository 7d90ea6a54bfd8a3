import DemandPaging.Failure
import DemandPaging.Permission
import DemandPaging.Mapping.Slots

/-!
# Page tables

A page table holds the mappings of one address space, page to frame, in a row of
slots that is searched from the front.  The working sets of programs here are small;
a search that takes as long as there are entries is the ceiling of the design.

**A page has one mapping.**  Recording a second one stops the kernel
(`PageRow.insert`), so every entry found for a page is *the* entry.

**Room.**  A new mapping takes the first empty slot.  Only when there is none does
the row grow, to twice the number of slots that is noted, and entries keep their slots.
The room for that has to be granted; a full row that is refused it stays as it was.

**Two numbers.**  How many slots there are and how many of them are taken is noted
beside them.  The number noted is looked at, never the slots counted: a row that grows
takes it for the slot of the new mapping, before there is such a slot.  A `PageTable`
is a row with as many slots as it notes, and the operations on rows keep it one.
-/

namespace DemandPaging

/-- **Mappings** of one page. -/
structure PageEntry where
  page : Page
  frame : Frame
  flags : EntryFlags
deriving DecidableEq

/-- Whether the page may be written. -/
def PageEntry.isWritable (e : PageEntry) : Bool := e.flags.isWritable

/-- **Rows of mappings**, as a page table keeps them. -/
structure PageRow where
  slots : Slots PageEntry
  /-- How many slots are noted. -/
  capacity : Nat
  /-- How many slots are noted to be taken. -/
  inUse : Nat

namespace PageRow

/-- An empty row of `capacity` slots. -/
def blank (capacity : Nat) : PageRow := ⟨.empty capacity, capacity, 0⟩

/-- How many mappings there are. -/
def size (r : PageRow) : Nat := r.inUse

/-- Whether there is no mapping. -/
def isEmpty (r : PageRow) : Bool := r.inUse == 0

/-- The mappings, in slot order. -/
def entries (r : PageRow) : List PageEntry := r.slots.values

/-- The mapping of a page. -/
def find? (r : PageRow) (p : Page) : Option PageEntry := r.slots.find? (·.page == p)

/-- The mapping of the page an address lies in. -/
def lookup (r : PageRow) (a : VirtAddr) : Option PageEntry := r.find? a.page

/-- Slots of a row that was not asked for any particular number. -/
def initialCapacity : Nat := 64

/-- The number of slots after a full row has grown. -/
def grownCapacity (capacity : Nat) : Nat :=
  if capacity = 0 then initialCapacity else capacity * 2

/-- The row in the room it grows to; values keep their slots. -/
def grow (r : PageRow) : PageRow :=
  { r with
    slots := r.slots.resize (grownCapacity r.capacity)
    capacity := grownCapacity r.capacity }

/-- How many slots have to be asked for before a page can be recorded: none if there is an
empty one, and none for a page that is recorded already. -/
def wanted (r : PageRow) (p : Page) : Nat :=
  match r.find? p, r.slots.firstFree? with
  | none, none => grownCapacity r.capacity
  | _, _ => 0

/-- The row with a mapping put into slot `i`. -/
def place (r : PageRow) (i : Nat) (e : PageEntry) : PageRow :=
  { r with slots := r.slots.place i e, inUse := r.inUse + 1 }

/-- Puts a mapping into slot `i`, which there has to be, and answers `grown` with it. -/
def fill (r : PageRow) (i : Nat) (e : PageEntry) (grown : Option Nat) :
    Except Abort (PageRow × Option Nat) :=
  if i < r.slots.size then .ok (r.place i e, grown)
  else .error (.halted (.indexBeyondEnd i r.slots.size))

/-- Records a mapping, and answers the new number of slots if the row had to grow for it.
Growing fails unless the room is granted.  A page that is recorded already stops the
kernel. -/
def insert (r : PageRow) (granted : Bool) (e : PageEntry) :
    Except Abort (PageRow × Option Nat) :=
  match r.find? e.page with
  | some _ => .error (.halted (.alreadyMapped e.page))
  | none =>
    match r.slots.firstFree? with
    | some i => r.fill i e none
    | none =>
      if granted then r.grow.fill r.capacity e (some r.grow.capacity)
      else .error (.failed .outOfMemory)

/-- Changes the entry of a page, if it has one. -/
def update (r : PageRow) (p : Page) (f : PageEntry → PageEntry) : PageRow :=
  { r with slots := r.slots.map fun e => if e.page = p then f e else e }

/-- Changes the flags of a page, and answers whether it has a mapping. -/
def setFlags (r : PageRow) (p : Page) (flags : EntryFlags) : Bool × PageRow :=
  match r.find? p with
  | some _ => (true, r.update p fun e => { e with flags })
  | none => (false, r)

/-- Changes the flags of all pages with a property. -/
def setFlagsWhere (r : PageRow) (covered : Page → Bool) (flags : EntryFlags) : PageRow :=
  { r with slots := r.slots.map fun e => if covered e.page then { e with flags } else e }

@[simp] theorem entries_blank (n : Nat) : (blank n).entries = [] := by simp [blank, entries]

@[simp] theorem entries_update (r : PageRow) (p : Page) (f : PageEntry → PageEntry) :
    (r.update p f).entries = r.entries.map fun e => if e.page = p then f e else e := by
  simp [update, entries]

/-- The mapping of a page is the first entry for it. -/
theorem find?_eq_entries_find? (r : PageRow) (p : Page) :
    r.find? p = r.entries.find? (·.page == p) :=
  r.slots.find?_eq_values_find? _

theorem lookup_eq_find? (r : PageRow) (a : VirtAddr) : r.lookup a = r.find? a.page := rfl

theorem mem_of_find? {r : PageRow} {p : Page} {e : PageEntry} (h : r.find? p = some e) :
    e ∈ r.entries ∧ e.page = p := by
  rw [find?_eq_entries_find?] at h
  exact ⟨List.mem_of_find?_eq_some h, by simpa using List.find?_some h⟩

/-- The pages of the entries are those that have a mapping. -/
theorem mem_pages_iff {r : PageRow} {p : Page} :
    p ∈ r.entries.map PageEntry.page ↔ (r.find? p).isSome = true := by
  rw [find?_eq_entries_find?, List.find?_isSome, List.mem_map]
  simp only [beq_iff_eq]

theorem lt_grownCapacity (n : Nat) : n < grownCapacity n := by
  unfold grownCapacity initialCapacity
  split <;> omega

theorem grownCapacity_ne_zero (n : Nat) : grownCapacity n ≠ 0 :=
  Nat.ne_of_gt (Nat.lt_of_le_of_lt n.zero_le (lt_grownCapacity n))

/-- Changing the entry of a page, without moving it to another one, is seen at that page
only. -/
theorem find?_update (r : PageRow) (p q : Page) (f : PageEntry → PageEntry)
    (hf : ∀ e, (f e).page = e.page) :
    (r.update p f).find? q = if p = q then (r.find? q).map f else r.find? q := by
  rw [find?_eq_entries_find?, find?_eq_entries_find?, entries_update]
  generalize r.entries = l
  induction l with
  | nil => simp
  | cons e rest ih =>
    have hpage : (if e.page = p then f e else e).page = e.page := by
      split
      · exact hf e
      · rfl
    rw [List.map_cons, List.find?_cons, List.find?_cons, hpage, ih]
    by_cases hq : e.page = q
    · subst hq
      by_cases hp : p = e.page
      · subst hp
        simp
      · simp [hp, Ne.symm hp]
    · have hne : (e.page == q) = false := by simpa using hq
      simp [hne]

/-! ### Rows with as many slots as they note -/

section Sized

variable {r r' : PageRow} {e : PageEntry} {granted : Bool} {grown : Option Nat}

/-- A row that has the slots it notes is grown by empty ones behind them. -/
theorem slots_grow (h : r.slots.size = r.capacity) :
    r.grow.slots = r.slots.extend (grownCapacity r.capacity - r.capacity) := by
  have hle := Nat.le_of_lt (lt_grownCapacity r.capacity)
  unfold grow
  rw [Slots.resize_eq_extend (h ▸ hle), h]

theorem sized_grow (h : r.slots.size = r.capacity) : r.grow.slots.size = r.grow.capacity := by
  have hlt := lt_grownCapacity r.capacity
  rw [slots_grow h, Slots.size_extend, h]
  show r.capacity + (grownCapacity r.capacity - r.capacity) = grownCapacity r.capacity
  omega

@[simp] theorem entries_grow (h : r.slots.size = r.capacity) : r.grow.entries = r.entries := by
  unfold entries
  rw [slots_grow h, Slots.values_extend]

/-- The first slot past those that were noted is there after growing, and empty. -/
theorem getElem?_grow (h : r.slots.size = r.capacity) :
    r.grow.slots.cells[r.capacity]? = some none := by
  have hlt := lt_grownCapacity r.capacity
  have hsize : r.slots.cells.length = r.capacity := h
  rw [slots_grow h, Slots.extend, List.getElem?_append_right (Nat.le_of_eq hsize), hsize,
    Nat.sub_self, List.getElem?_replicate, if_pos (Nat.sub_pos_of_lt hlt)]

/-- **Recording a mapping** puts it into the first empty slot, and where there is none, if the
room is granted, into the first one by which the row grows. -/
theorem insert_eq (h : r.slots.size = r.capacity) (granted : Bool) (e : PageEntry) :
    r.insert granted e =
      match r.find? e.page, r.slots.firstFree? with
      | some _, _ => .error (.halted (.alreadyMapped e.page))
      | none, some i => .ok (r.place i e, none)
      | none, none =>
        if granted then .ok (r.grow.place r.capacity e, some r.grow.capacity)
        else .error (.failed .outOfMemory) := by
  unfold insert fill
  cases r.find? e.page with
  | some d => rfl
  | none =>
    cases hfree : r.slots.firstFree? with
    | some i =>
      have hcell := Slots.getElem?_of_firstFree? hfree
      exact if_pos (List.getElem?_eq_some_iff.mp hcell).1
    | none =>
      have hlt : r.capacity < r.grow.slots.size :=
        (List.getElem?_eq_some_iff.mp (getElem?_grow h)).1
      simp only [if_pos hlt]

/-- What an insertion leads to, by whether the row had to grow. -/
theorem insert_cases (h : r.slots.size = r.capacity)
    (hinsert : r.insert granted e = .ok (r', grown)) : r.find? e.page = none ∧
      ((∃ i, r.slots.firstFree? = some i ∧ r' = r.place i e ∧ grown = none) ∨
        (r.slots.firstFree? = none ∧ granted = true ∧ r' = r.grow.place r.capacity e ∧
          grown = some r.grow.capacity)) := by
  rw [insert_eq h] at hinsert
  cases hfind : r.find? e.page with
  | some d =>
    rw [hfind] at hinsert
    cases hinsert
  | none =>
    refine ⟨rfl, ?_⟩
    cases hfree : r.slots.firstFree? with
    | some i =>
      simp only [hfind, hfree] at hinsert
      cases hinsert
      exact .inl ⟨i, rfl, rfl, rfl⟩
    | none =>
      cases granted with
      | false =>
        simp only [hfind, hfree] at hinsert
        cases hinsert
      | true =>
        simp only [hfind, hfree] at hinsert
        cases hinsert
        exact .inr ⟨rfl, rfl, rfl, rfl⟩

theorem sized_place (h : r.slots.size = r.capacity) (i : Nat) (e : PageEntry) :
    (r.place i e).slots.size = (r.place i e).capacity :=
  (Slots.size_place ..).trans h

/-- **The number of slots noted stays right** when a mapping is recorded. -/
theorem sized_insert (h : r.slots.size = r.capacity)
    (hinsert : r.insert granted e = .ok (r', grown)) : r'.slots.size = r'.capacity := by
  obtain ⟨-, ⟨i, -, rfl, -⟩ | ⟨-, -, rfl, -⟩⟩ := insert_cases h hinsert
  · exact sized_place h i e
  · exact sized_place (sized_grow h) r.capacity e

theorem sized_setFlags (h : r.slots.size = r.capacity) (p : Page) (flags : EntryFlags) :
    (r.setFlags p flags).2.slots.size = (r.setFlags p flags).2.capacity := by
  unfold setFlags
  split
  · exact (Slots.size_map ..).trans h
  · exact h

end Sized

end PageRow

/-- **Page tables**: rows of mappings with as many slots as they note. -/
structure PageTable extends PageRow where
  sized : slots.size = capacity

namespace PageTable

@[ext] theorem ext {t t' : PageTable} (h : t.toPageRow = t'.toPageRow) : t = t' := by
  cases t
  cases t'
  cases h
  rfl

/-- Slots of a table that was not asked for any particular number. -/
def initialCapacity : Nat := PageRow.initialCapacity

/-- Bytes of one slot. -/
def slotSize : Nat := 32

/-- An empty table of `capacity` slots. -/
def blank (capacity : Nat) : PageTable := ⟨.blank capacity, Slots.size_empty capacity⟩

/-- An empty table of `capacity` slots, if there can be that many. -/
def withCapacity (capacity : Nat) : Except MemoryError PageTable :=
  if capacity * slotSize ≤ largestAllocation then .ok (blank capacity) else .error .outOfMemory

/-- Records a mapping as `PageRow.insert` does. -/
def insert (t : PageTable) (granted : Bool) (e : PageEntry) :
    Except Abort (PageTable × Option Nat) :=
  match h : t.toPageRow.insert granted e with
  | .ok (r, grown) => .ok (⟨r, PageRow.sized_insert t.sized h⟩, grown)
  | .error abort => .error abort

/-- Changes the entry of a page, if it has one. -/
def update (t : PageTable) (p : Page) (f : PageEntry → PageEntry) : PageTable :=
  ⟨t.toPageRow.update p f, (Slots.size_map ..).trans t.sized⟩

/-- Changes the flags of a page, and answers whether it has a mapping. -/
def setFlags (t : PageTable) (p : Page) (flags : EntryFlags) : Bool × PageTable :=
  ((t.toPageRow.setFlags p flags).1,
    ⟨(t.toPageRow.setFlags p flags).2, PageRow.sized_setFlags t.sized p flags⟩)

/-- Changes the flags of all pages with a property. -/
def setFlagsWhere (t : PageTable) (covered : Page → Bool) (flags : EntryFlags) : PageTable :=
  ⟨t.toPageRow.setFlagsWhere covered flags, (Slots.size_map ..).trans t.sized⟩

@[simp] theorem entries_blank (n : Nat) : (blank n).entries = [] := PageRow.entries_blank n

@[simp] theorem capacity_blank (n : Nat) : (blank n).capacity = n := rfl

@[simp] theorem entries_update (t : PageTable) (p : Page) (f : PageEntry → PageEntry) :
    (t.update p f).entries = t.entries.map fun e => if e.page = p then f e else e :=
  t.toPageRow.entries_update p f

@[simp] theorem entries_setFlagsWhere (t : PageTable) (covered : Page → Bool)
    (flags : EntryFlags) :
    (t.setFlagsWhere covered flags).entries =
      t.entries.map fun e => if covered e.page then { e with flags } else e :=
  Slots.values_map ..

theorem setFlags_eq_update {t : PageTable} {p : Page} {e : PageEntry} (h : t.find? p = some e)
    (flags : EntryFlags) :
    t.setFlags p flags = (true, t.update p fun e => { e with flags }) := by
  unfold setFlags update PageRow.setFlags
  simp only [h]

section Insert

variable {t t' : PageTable} {e : PageEntry} {granted : Bool} {grown : Option Nat}

theorem insert_eq_ok_iff : t.insert granted e = .ok (t', grown) ↔
    t.toPageRow.insert granted e = .ok (t'.toPageRow, grown) := by
  unfold insert
  split
  · next r g h =>
    constructor
    · intro heq
      cases heq
      exact h
    · intro heq
      cases h.symm.trans heq
      rfl
  · next abort h =>
    rw [h]
    simp

theorem insert_eq_error_iff_row {abort : Abort} :
    t.insert granted e = .error abort ↔ t.toPageRow.insert granted e = .error abort := by
  unfold insert
  split
  · next h => simp [h]
  · next h => simp [h]

/-- Recording a mapping adds one entry among the others and moves none of them. -/
theorem entries_insert (h : t.insert granted e = .ok (t', grown)) :
    ∃ before after, t.entries = before ++ after ∧ t'.entries = before ++ e :: after := by
  obtain ⟨-, ⟨i, hfree, hplace, -⟩ | ⟨-, -, hplace, -⟩⟩ :=
    PageRow.insert_cases t.sized (insert_eq_ok_iff.mp h)
  · rw [hplace]
    exact Slots.values_place (Slots.getElem?_of_firstFree? hfree) e
  · rw [hplace, ← PageRow.entries_grow t.sized]
    exact Slots.values_place (PageRow.getElem?_grow t.sized) e

/-- Which slot the mapping takes decides no more than the order of the entries. -/
theorem perm_entries_insert (h : t.insert granted e = .ok (t', grown)) :
    t'.entries.Perm (e :: t.entries) := by
  obtain ⟨before, after, hold, hnew⟩ := entries_insert h
  rw [hold, hnew]
  exact List.perm_middle

/-- Recording a mapping counts it. -/
theorem inUse_insert (h : t.insert granted e = .ok (t', grown)) : t'.inUse = t.inUse + 1 := by
  obtain ⟨-, ⟨i, -, hplace, -⟩ | ⟨-, -, hplace, -⟩⟩ :=
    PageRow.insert_cases t.sized (insert_eq_ok_iff.mp h)
  · rw [hplace]
    rfl
  · rw [hplace]
    rfl

/-- A page whose mapping is recorded had none before. -/
theorem find?_eq_none_of_insert (h : t.insert granted e = .ok (t', grown)) :
    t.find? e.page = none :=
  (PageRow.insert_cases t.sized (insert_eq_ok_iff.mp h)).1

/-- **No mapping is recorded** of a page that has one, and none for which there is no room and
none granted. -/
theorem insert_eq_error_iff {abort : Abort} : t.insert granted e = .error abort ↔
    ((t.find? e.page).isSome ∧ abort = .halted (.alreadyMapped e.page)) ∨
      (t.wanted e.page ≠ 0 ∧ granted = false ∧ abort = .failed .outOfMemory) := by
  rw [insert_eq_error_iff_row, PageRow.insert_eq t.sized]
  unfold PageRow.wanted
  cases t.find? e.page with
  | some d => simp [eq_comm]
  | none =>
    cases t.slots.firstFree? with
    | some i => simp
    | none => cases granted <;> simp [PageRow.grownCapacity_ne_zero, @eq_comm Abort]

/-- Granting more changes nothing about an insertion that goes through. -/
theorem insert_true_of_insert (h : t.insert granted e = .ok (t', grown)) :
    t.insert true e = .ok (t', grown) := by
  rw [insert_eq_ok_iff] at h ⊢
  rw [← h, PageRow.insert_eq t.sized, PageRow.insert_eq t.sized]
  obtain ⟨hnone, ⟨i, hfree, -⟩ | ⟨-, rfl, -⟩⟩ := PageRow.insert_cases t.sized h
  · simp only [hnone, hfree]
  · rfl

/-- After recording a mapping the page has it, and every other page has what it had. -/
theorem find?_insert (h : t.insert granted e = .ok (t', grown)) (p : Page) :
    t'.find? p = if e.page = p then some e else t.find? p := by
  obtain ⟨before, after, hb, ha⟩ := entries_insert h
  have hnone := find?_eq_none_of_insert h
  rw [PageRow.find?_eq_entries_find?, hb, List.find?_append, Option.or_eq_none_iff] at hnone
  rw [PageRow.find?_eq_entries_find?, PageRow.find?_eq_entries_find?, ha, hb, List.find?_append,
    List.find?_append, List.find?_cons]
  by_cases hp : e.page = p
  · subst hp
    simp [hnone.1]
  · have hne : (e.page == p) = false := by simpa using hp
    simp [hne, hp]

/-- No mapping is replaced. -/
theorem find?_insert_of_eq_some {d : PageEntry} {p : Page}
    (h : t.insert granted e = .ok (t', grown)) (hp : t.find? p = some d) :
    t'.find? p = some d := by
  rw [find?_insert h, if_neg, hp]
  rintro rfl
  rw [find?_eq_none_of_insert h] at hp
  cases hp

end Insert

end PageTable

end DemandPaging
