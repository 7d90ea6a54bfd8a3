import DemandPaging.Proofs.Coherence
import DemandPaging.Proofs.Isolation

/-!
# Outlooks

What can be seen of a space decides what its program is answered, as long as there are frames, room
in the heap and cache slots (`Proofs.Isolation`).  An outlook adds what decides whether there are:
the allocator, what the heap will answer and how full the page table is, and which slots of the
cache are taken by which pages of the space, and which by others.  With the outlook every answer is
decided, shortage included, and so is the next outlook (`Machine.step_outlook`).

**What an outlook leaves out.**  It does not say which frames the pages lie in, in which order the
page table holds them, or which number the space has.  Two spaces on one machine may well have the
same outlook.
-/

namespace DemandPaging

/-! ### Slots as one space sees them -/

namespace MappingCache

variable {c : MappingCache} {e : CacheEntry} {id : SpaceId} {i : Nat}

/-- **Occupancy**: the slots with the pages of one space in them, and all other mappings alike. -/
def occupancy (c : MappingCache) (id : SpaceId) : Slots (Option Page) :=
  ⟨c.slots.cells.map (Option.map fun e => if e.space = id then some e.page else none)⟩

theorem firstFree?_occupancy : (c.occupancy id).firstFree? = c.slots.firstFree? := by
  unfold Slots.firstFree? occupancy
  rw [List.findIdx?_map]
  congr 1
  funext cell
  exact Option.isNone_map

theorem index?_occupancy (p : Page) :
    (c.occupancy id).index? (· == some p) = c.slots.index? (·.isFor id p) := by
  unfold Slots.index? occupancy
  rw [List.findIdx?_map]
  congr 1
  funext cell
  cases cell with
  | none => rfl
  | some e => by_cases hid : e.space = id <;> simp [CacheEntry.isFor, hid]

theorem occupancy_place (hid : e.space = id) :
    (⟨c.slots.place i e⟩ : MappingCache).occupancy id =
      (c.occupancy id).place i (some e.page) := by
  simp [occupancy, Slots.place, List.map_set, hid]

/-- Of an empty cache all spaces see the same. -/
theorem occupancy_of_empty (h : c.entries = []) (id id' : SpaceId) :
    c.occupancy id = c.occupancy id' := by
  unfold occupancy
  congr 1
  refine List.map_congr_left fun cell hcell => ?_
  cases cell with
  | none => rfl
  | some e =>
      have he : e ∈ c.entries := List.mem_filterMap.mpr ⟨some e, hcell, rfl⟩
      rw [h] at he
      cases he

end MappingCache

/-- **Outlooks**: what decides all that will become of a space, as long as nobody else acts. -/
structure Outlook where
  view : View
  allocator : Allocator
  heap : List Bool
  /-- How many mappings the page table has, and how many slots. -/
  mapped : Nat
  capacity : Nat
  /-- The slots of the cache, with the pages of the space that are cached. -/
  slots : Slots (Option Page)

namespace Outlook

/-- The page table is full. -/
abbrev IsFull (o : Outlook) : Prop := o.mapped = o.capacity

/-- The outlook after the heap was asked to let a full page table grow. -/
def asked (o : Outlook) : Outlook := { o with heap := if o.IsFull then o.heap.tail else o.heap }

/-- The outlook with a page brought in, which takes a frame. -/
def gain (o : Outlook) (p : Page) (c : Coverage) (rest : Allocator) : Outlook :=
  { o.asked with
    view := o.view.bringIn p c
    allocator := rest
    mapped := o.mapped + 1
    capacity := if o.IsFull then PageRow.grownCapacity o.capacity else o.capacity }

/-- The outlook once there is a mapping for a covered address, or without one, if there can be
none. -/
def bringIn (o : Outlook) (p : Page) (c : Coverage) : Except Outlook Outlook :=
  match o.view.pages p with
  | some _ => .ok o
  | none =>
    match o.allocator.allocate 1 with
    | .ok (some _, rest) =>
      if o.IsFull ∧ o.heap.headD true = false then .error o.asked else .ok (o.gain p c rest)
    | _ => .error o

/-- The slot a page goes to. -/
def slotFor? (o : Outlook) (p : Page) : Option Nat :=
  (o.slots.index? (· == some p)).or o.slots.firstFree?

/-- **Faults**, with all their ends. -/
def fault (access : Access) (a : VirtAddr) (o : Outlook) : Except MemoryError Unit × Outlook :=
  if access = .readOnlyWrite then (.error (.protectionViolation a), o)
  else
    match o.view.coverage a with
    | none => (.error (.addressingFault a), o)
    | some c =>
      if PageFault.permits (o.view.flagsBehind a.page c) access then
        match o.bringIn a.page c with
        | .error o => (.error .outOfMemory, o)
        | .ok o =>
          match o.slotFor? a.page with
          | none => (.error .cacheFull, o)
          | some i => (.ok (), { o with slots := o.slots.place i (some a.page) })
      else (.error (.protectionViolation a), o)

/-- **Answers to requests on a space**, and the outlook afterwards. -/
def answer (o : Outlook) : Request → Machine.Outcome × Outlook
  | .fault _ access a =>
    match o.fault access a with
    | (.ok (), o') =>
      (.ok (.resolved ((o'.view.pages a.page).map fun c => ⟨a.page, .any, c.1⟩) o'.view.bounds),
        o')
    | (.error e, o') => (.error (.aborted (.failed e)), o')
  | r => ((o.view.answer r).1, { o with view := (o.view.answer r).2 })

end Outlook

/-- The outlook of the space at hand. -/
def Workspace.outlook (w : Workspace) : Outlook :=
  ⟨w.view, w.kernel.allocator, w.kernel.heap, w.space.table.entries.length,
    w.space.table.capacity, w.kernel.cache.occupancy w.space.id⟩

/-- Reports do not matter for the outlook. -/
theorem Workspace.Quiet.outlook {w w' : Workspace} (h : w.Quiet w') : w'.outlook = w.outlook := by
  unfold Workspace.outlook
  rw [h.view, h.allocator, h.heap, h.cache, h.space]

/-- The slot of a mapping of the space at hand depends on the outlook alone. -/
theorem Workspace.slotFor?_outlook (w : Workspace) (p : Page) (f : Frame) (flags : EntryFlags) :
    w.outlook.slotFor? p = w.kernel.cache.slotFor? ⟨w.space.id, p, f, flags⟩ := by
  unfold Outlook.slotFor? MappingCache.slotFor?
  show ((w.kernel.cache.occupancy w.space.id).index? _).or
    (w.kernel.cache.occupancy w.space.id).firstFree? = _
  rw [MappingCache.index?_occupancy, MappingCache.firstFree?_occupancy]

namespace PageFault

variable {access : Access} {a : VirtAddr} {c : Coverage} {w w₁ : Workspace} {e : PageEntry}
  {r : Except MemoryError Unit}

/-- A page without a mapping shows nothing. -/
theorem pages_outlook (unmapped : w.space.table.find? a.page = none) :
    w.outlook.view.pages a.page = none := by
  simp [Workspace.outlook, Workspace.view, AddressSpace.view, unmapped]

/-- Whether there is room for a new page is part of the outlook. -/
theorem not_hasRoom_iff (unmapped : w.space.table.find? a.page = none) :
    ¬ w.HasRoom a.page ↔ w.outlook.IsFull ∧ w.outlook.heap.headD true = false := by
  unfold Workspace.HasRoom Kernel.grants Outlook.IsFull
  rw [PageTable.wanted_eq unmapped]
  by_cases hfull : w.space.table.entries.length = w.space.table.capacity
  · simp [Workspace.outlook, hfull, PageRow.grownCapacity_ne_zero]
  · simp [Workspace.outlook, hfull]

/-- What the heap will answer after it was asked is part of it as well. -/
theorem heap_asked (unmapped : w.space.table.find? a.page = none) :
    (w.kernel.asked (w.space.table.wanted a.page)).heap = w.outlook.asked.heap := by
  unfold Kernel.asked Outlook.asked Outlook.IsFull
  rw [PageTable.wanted_eq unmapped]
  by_cases hfull : w.space.table.entries.length = w.space.table.capacity
  · simp [Workspace.outlook, hfull, PageRow.grownCapacity_ne_zero]
  · simp [Workspace.outlook, hfull]

/-- What can be expected once there is a mapping. -/
theorem Backing.outlook (h : Backing a c w e w₁) (hnodup : w₁.space.frames.Nodup) :
    w.outlook.bringIn a.page c = .ok w₁.outlook := by
  have hview := h.view hnodup
  unfold Outlook.bringIn
  cases h with
  | found mapped => simp [Workspace.outlook, Workspace.view, AddressSpace.view, mapped]
  | @made f rest t grown unmapped room taken inserted =>
      have hnone := pages_outlook unmapped
      have htaken : w.outlook.allocator.allocate 1 = .ok (some f, rest) := taken
      have hroom := (not_hasRoom_iff unmapped).not.mp (not_not.mpr room)
      simp only [hnone, htaken, if_neg hroom]
      -- the same is left, part by part
      have hcount := (PageTable.perm_entries_insert inserted).length_eq
      have hcapacity := PageTable.capacity_insert_full inserted
      have hheap := heap_asked unmapped
      have hbrought : w.view.bringIn a.page c =
          ((w.install a.page rest f t).grow a.page c).view := by
        rw [hview, View.touched, show w.view.pages a.page = none from hnone]
      refine congrArg Except.ok ?_
      unfold Outlook.gain Workspace.outlook
      rw [← hbrought]
      simp only [Workspace.grow, Workspace.install, AddressSpace.table_grow, AddressSpace.id_grow,
        Outlook.mk.injEq]
      exact ⟨trivial, trivial, hheap.symm, hcount.symm, hcapacity.symm, rfl⟩

/-- Without a mapping and without a frame there will be none. -/
theorem bringIn_of_exhausted (unmapped : w.space.table.find? a.page = none) (h : w.IsExhausted) :
    w.outlook.bringIn a.page c = .error w.outlook := by
  obtain ⟨rest, hnone⟩ := h
  have hallocate : w.outlook.allocator.allocate 1 = .ok (none, rest) := hnone
  unfold Outlook.bringIn
  rw [pages_outlook unmapped, hallocate]

/-- Nor without room for it.  The frame goes back, and nobody sees that it has been filled. -/
theorem bringIn_of_cramped {f : Frame} {rest back : Allocator} {live : List AddressSpace}
    {held : List Block} {tally : Tally} (hc : Custody w.kernel live held tally)
    (hs : w.space ∈ live) (unmapped : w.space.table.find? a.page = none)
    (cramped : ¬ w.HasRoom a.page) (taken : w.kernel.allocator.allocate 1 = .ok (some f, rest))
    (returned : rest.free f = .ok back) :
    w.outlook.bringIn a.page c = .error (w.turnBack a.page back f).outlook := by
  have htaken : w.outlook.allocator.allocate 1 = .ok (some f, rest) := taken
  have hfull := (not_hasRoom_iff unmapped).mp cramped
  have hview : (w.turnBack a.page back f).view = w.view := by
    refine AddressSpace.view_congr fun g hg => ?_
    show (w.kernel.memory.zero f).contents g = _
    rw [Memory.contents_zero, if_neg]
    rintro rfl
    exact ((hc.keeps hs hg).of_taken taken).1 rfl
  unfold Outlook.bringIn
  simp only [pages_outlook unmapped, htaken, if_pos hfull]
  unfold Workspace.outlook
  rw [hview]
  simp only [Workspace.turnBack, Workspace.withKernel, hc.givesBack_eq taken (Or.inl returned),
    heap_asked unmapped]
  rfl

/-- **What becomes of a fault** is a function of the outlook, and so is the outlook afterwards. -/
theorem Handling.outlook {live : List AddressSpace} {held : List Block} {tally : Tally}
    (h : Handling access a w r w₁) (hc : Custody w.kernel live held tally) (hs : w.space ∈ live)
    (hnodup : w₁.space.frames.Nodup) : (r, w₁.outlook) = w.outlook.fault access a := by
  have hcoverage : w.outlook.view.coverage a = w.space.coverage a := rfl
  have hflags : ∀ c, w.outlook.view.flagsBehind a.page c = flagsBehind w a c :=
    flagsBehind_view w a
  unfold Outlook.fault
  cases h with
  | refused h => rw [if_pos h]
  | resolved h resolution =>
      rw [if_neg h, hcoverage]
      cases resolution with
      | uncovered hnone => rw [hnone]
      | forbidden covered hforbidden => simp [covered, hflags, hforbidden]
      | starved covered unmapped permitted hexhausted =>
          simp only [covered, hflags, permitted, if_true, bringIn_of_exhausted unmapped hexhausted]
      | cramped covered unmapped permitted hcramped taken returned =>
          simp only [covered, hflags, permitted, if_true,
            bringIn_of_cramped hc hs unmapped hcramped taken returned]
      | @full c e w₁ covered backing permitted refused =>
          simp only [covered, hflags, permitted, if_true, backing.outlook hnodup]
          rw [Workspace.slotFor?_outlook w₁ a.page e.frame e.flags, refused]
      | @cached c e w₁ slot cache covered backing permitted placed =>
          obtain ⟨hslot, rfl⟩ := MappingCache.insert_eq_ok_iff.mp placed
          have hplaced : (w₁.withCache ⟨w₁.kernel.cache.slots.place slot
              ⟨w₁.space.id, a.page, e.frame, e.flags⟩⟩).outlook =
              { w₁.outlook with slots := w₁.outlook.slots.place slot (some a.page) } :=
            congrArg (Outlook.mk w₁.view w₁.kernel.allocator w₁.kernel.heap
              w₁.space.table.entries.length w₁.space.table.capacity)
              (MappingCache.occupancy_place rfl)
          simp only [covered, hflags, permitted, if_true, backing.outlook hnodup, hplaced]
          rw [Workspace.slotFor?_outlook w₁ a.page e.frame e.flags, hslot]

theorem Handles.outlook {live : List AddressSpace} {held : List Block} {tally : Tally}
    (h : Handles access a w r w₁) (hc : Custody w.kernel live held tally) (hs : w.space ∈ live)
    (hnodup : w₁.space.frames.Nodup) : (r, w₁.outlook) = w.outlook.fault access a := by
  obtain ⟨w₂, hhandling, hafter⟩ := h.handling
  have houtlook := hhandling.outlook hc hs (hafter.space ▸ hnodup)
  rwa [← hafter.outlook] at houtlook

end PageFault

namespace Machine

variable {m : Machine} {A : SpaceName} {s : AddressSpace} {r : Request} {o : Outlook}
  {held : List Block} {tally : Tally}

/-- The outlook of the space with a name. -/
def outlook? (m : Machine) (A : SpaceName) : Option Outlook :=
  (m.space? A).map fun s => Workspace.outlook ⟨m.kernel, s⟩

/-- The space answers as its outlook says, and goes on as it says. -/
def Foretold (A : SpaceName) (o : Outlook) (r : Request) (outcome : Outcome) (m' : Machine) :
    Prop :=
  (seen outcome, m'.outlook? A) = ((o.answer r).1, some (o.answer r).2)

theorem ends_answerFault_outlook (h : Custody m.kernel m.live held tally)
    (hA : m.space? A = some s) (access : Access) (a : VirtAddr) :
    Ends (answerFault (.owner A) access a) m
      (fun reply m' => Foretold A (Workspace.outlook ⟨m.kernel, s⟩) (.fault (.owner A) access a)
        (.ok reply) m')
      fun e m' => Foretold A (Workspace.outlook ⟨m.kernel, s⟩) (.fault (.owner A) access a)
        (.error e) m' := by
  refine Ends.mono (ends_answerFault_apart h hA access a) ?_ ?_
  · rintro reply m' ⟨k, s', rfl, rfl, hspace, hnodup, hhandles⟩
    have hfault := (hhandles.outlook h (mem_live_of_space? hA) hnodup).symm
    simp only [Foretold, Outlook.answer, hfault, outlook?, hspace, kernel_putSpace, seen,
      Except.map, Reply.seen, Option.map_some, map_lookup s' k.memory a]
    rfl
  · rintro e m' ⟨error, k, s', rfl, rfl, hspace, hnodup, hhandles⟩
    have hfault := (hhandles.outlook h (mem_live_of_space? hA) hnodup).symm
    simp only [Foretold, Outlook.answer, hfault, outlook?, hspace, kernel_putSpace, seen,
      Except.map, Option.map_some]

/-- Transfers change the view in the outlook, and nothing else in it. -/
theorem Transfers.foretold {q : SpaceRequest} {outcome : Outcome} {m' : Machine}
    (h : Transfers A s m (.space A q) outcome m') :
    Foretold A (Workspace.outlook ⟨m.kernel, s⟩) (.space A q) outcome m' := by
  have hanswer : (Workspace.outlook ⟨m.kernel, s⟩).view.answer (.space A q) =
      (seen outcome, s.view m'.kernel.memory) := h.answer.symm
  simp only [Foretold, Outlook.answer, hanswer, outlook?, h.space, Option.map_some]
  rw [h.kernel]
  rfl

/-- **The outlook decides**: an orderly machine answers requests on a space as its outlook says, and
has the outlook afterwards that it says. -/
theorem step_outlook (horderly : m.IsOrderly) (ho : m.outlook? A = some o)
    (hr : r.isOn A = true) :
    seen (m.step r).1 = (o.answer r).1 ∧ (m.step r).2.outlook? A = some (o.answer r).2 := by
  obtain ⟨_, _, hc⟩ := horderly
  obtain ⟨s, hA, rfl⟩ := Option.map_eq_some_iff.mp ho
  have hends : Ends (answer r) m
      (fun reply m' => Foretold A (Workspace.outlook ⟨m.kernel, s⟩) r (.ok reply) m')
      fun e m' => Foretold A (Workspace.outlook ⟨m.kernel, s⟩) r (.error e) m' := by
    obtain ⟨access, a, rfl⟩ | ⟨q, rfl⟩ := cases_isOn hr
    · exact ends_answerFault_outlook hc hA access a
    · exact Ends.mono (ends_answerSpace_on hc hA hr) (fun _ _ ht => ht.foretold)
        fun _ _ ht => ht.foretold
  rcases step_cases hends with ⟨_, _, hstep, hforetold⟩ | ⟨_, _, hstep, hforetold⟩
  · rw [hstep]
    exact Prod.mk.inj hforetold
  · rw [hstep]
    exact Prod.mk.inj hforetold

end Machine

end DemandPaging
