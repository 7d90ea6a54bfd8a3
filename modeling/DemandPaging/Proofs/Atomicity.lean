import DemandPaging.Proofs.Caching
import DemandPaging.Proofs.Rollback

/-!
# Faults that fail

A fault takes a frame, maps a page, moves a bound and fills a slot of the cache, and it may fail
before or between these steps.  Refusals come before the first of them, except for two
(`History.run_atomic`).  Want of room in the page table is noticed when the frame has been taken,
and the frame goes back; want of a slot is noticed when all the other steps have been made, and
they stay.

**What a refusal for want of room leaves behind** is the frame map as it was, entry for entry, and a
free frame that has been filled with zeroes (`Handling.eq_or_turnedBack`).

**What a refusal for want of a slot leaves behind** is what success would have left, the cache
apart.  The same fault against another cache is looked at for this: it ends in the one case that is
left, over the mapping that has been made already (`Handling.of_full`).

**Reports.**  A fault reports what it does as it goes on, and the cases of a fault are about
workspaces without these reports.  They never matter, so that they are all put last
(`Handles.handling`).
-/

namespace DemandPaging

/-! ### What a fault leaves behind -/

namespace Workspace

variable {a : VirtAddr} {c : Coverage} {w w₁ w' : Workspace} {f : Frame}

/-- **A page more**: a free frame, filled with zeroes, is behind the page of a covered address, and
stack or heap have grown to it. -/
structure Gains (a : VirtAddr) (c : Coverage) (f : Frame) (w w' : Workspace) : Prop where
  mapped : w'.space.table.find? a.page = some ⟨a.page, f, c.flags⟩
  free : w.kernel.allocator.state? f = some .free
  inUse : w'.kernel.allocator.entry? f = some (.inUse true 1)
  zero : w'.kernel.memory.contents f = .zero
  counted : w'.kernel.allocator.freeFrames + 1 = w.kernel.allocator.freeFrames
  bounds : w'.space.bounds = (w.space.grow a.page c).bounds
  /-- No other frame is touched. -/
  others : ∀ g, g ≠ f → w'.kernel.allocator.entry? g = w.kernel.allocator.entry? g ∧
    w'.kernel.memory.contents g = w.kernel.memory.contents g

/-- **Supplied**: the page of a covered address has a mapping, and nothing else has changed but,
perhaps, the cache and the journal. -/
structure Supplies (a : VirtAddr) (c : Coverage) (w w' : Workspace) : Prop where
  space : w'.space.id = w.space.id ∧ w'.space.regions = w.space.regions ∧
    w'.space.loaded = w.space.loaded
  numbers : w'.kernel.nextSpace = w.kernel.nextSpace ∧ w'.kernel.nextPid = w.kernel.nextPid
  others : ∀ p, p ≠ a.page → w'.space.table.find? p = w.space.table.find? p
  /-- A page with a mapping costs nothing. -/
  kept : ∀ e, w.space.table.find? a.page = some e → w'.space = w.space ∧
    w'.kernel.allocator = w.kernel.allocator ∧ w'.kernel.memory = w.kernel.memory
  gained : w.space.table.find? a.page = none → ∃ f, Gains a c f w w'

/-- What is cached does not matter for what was supplied, and neither do reports. -/
theorem Supplies.congr (h : Supplies a c w w₁) (space : w'.space = w₁.space)
    (kernel : ∃ cache, w'.kernel.forgetJournal = { w₁.kernel with cache }.forgetJournal) :
    Supplies a c w w' := by
  obtain ⟨cache, kernel⟩ := kernel
  have hallocator : w'.kernel.allocator = w₁.kernel.allocator :=
    show w'.kernel.forgetJournal.allocator = _ by rw [kernel]; rfl
  have hmemory : w'.kernel.memory = w₁.kernel.memory :=
    show w'.kernel.forgetJournal.memory = _ by rw [kernel]; rfl
  refine
    { space := space ▸ h.space, numbers := ?_, others := fun p hp => space ▸ h.others p hp,
      kept := fun e he => space ▸ hallocator ▸ hmemory ▸ h.kept e he, gained := fun hnone => ?_ }
  · have hspaces := congrArg Kernel.nextSpace kernel
    have hpids := congrArg Kernel.nextPid kernel
    exact ⟨hspaces.trans h.numbers.1, hpids.trans h.numbers.2⟩
  · obtain ⟨f, hgains⟩ := h.gained hnone
    exact ⟨f, space ▸ hgains.mapped, hgains.free, hallocator ▸ hgains.inUse, hmemory ▸ hgains.zero,
      hallocator ▸ hgains.counted, space ▸ hgains.bounds, hallocator ▸ hmemory ▸ hgains.others⟩

end Workspace

namespace PageFault

variable {access : Access} {a : VirtAddr} {c : Coverage} {w w₁ w' : Workspace} {e : PageEntry}
  {r : Except MemoryError Unit} {live : List AddressSpace} {held : List Block} {tally : Tally}

namespace Backing

/-- **What it takes to have a mapping.** -/
theorem supplies (h : Backing a c w e w₁) (hc : Custody w.kernel live held tally) :
    w.Supplies a c w₁ := by
  have hothers : ∀ p, p ≠ a.page → w₁.space.table.find? p = w.space.table.find? p := by
    intro p hp
    rw [h.find? p, if_neg hp.symm]
  have hhere := h.find? a.page
  rw [if_pos rfl] at hhere
  obtain ⟨hid, hregions, hloaded, -⟩ := h.same
  cases h with
  | found mapped =>
      refine ⟨⟨rfl, rfl, rfl⟩, ⟨rfl, rfl⟩, hothers, fun _ _ => ⟨rfl, rfl, rfl⟩, fun hnone => ?_⟩
      rw [mapped] at hnone
      cases hnone
  | @made f rest t grown unmapped room taken inserted =>
      obtain ⟨hfree, hinUse, hframes, hcounted⟩ := hc.taken taken
      refine ⟨⟨hid, hregions, hloaded⟩, ⟨rfl, rfl⟩, hothers, fun e he => ?_, fun _ =>
        ⟨f, hhere, hfree, hinUse, ?_, hcounted, ?_, fun g hg => ⟨hframes g hg, ?_⟩⟩⟩
      · rw [unmapped] at he
        cases he
      · show (w.kernel.memory.zero f).contents f = .zero
        rw [Memory.contents_zero, if_pos rfl]
      · exact AddressSpace.bounds_grow_congr (s := (w.install a.page rest f t).space)
          (t := w.space) rfl a.page c
      · show (w.kernel.memory.zero f).contents g = _
        rw [Memory.contents_zero, if_neg hg.symm]

/-- The mapping does not depend on what is cached. -/
theorem withCache (h : Backing a c w e w₁) (other : MappingCache) :
    Backing a c (w.withCache other) e (w₁.withCache other) := by
  cases h with
  | found mapped => exact .found mapped
  | made unmapped room taken inserted =>
      exact .made (w := w.withCache other) unmapped room taken inserted

/-- There is one way to have a mapping. -/
theorem unique (h : Backing a c w e w₁) {d : PageEntry} (h' : Backing a c w d w') :
    d = e ∧ w' = w₁ := by
  cases h with
  | found mapped =>
      cases h' with
      | found mapped' => exact ⟨Option.some.inj (mapped'.symm.trans mapped), rfl⟩
      | made unmapped' _ _ _ =>
          rw [mapped] at unmapped'
          cases unmapped'
  | made unmapped _ taken inserted =>
      cases h' with
      | found mapped' =>
          rw [unmapped] at mapped'
          cases mapped'
      | made _ _ taken' inserted' =>
          rw [taken] at taken'
          cases taken'
          rw [inserted] at inserted'
          cases inserted'
          exact ⟨rfl, rfl⟩

end Backing

/-- **A fault within a space is answered**, and handled, or else a frame is stranded. -/
theorem handled_or_stranded (access : Access) (a : VirtAddr) (s : AddressSpace) {k : Kernel} :
    (∃ r s' k', handle access a (.within s) k = .ok (r, .within s') k' ∧
      Handles access a ⟨k, s⟩ r ⟨k', s'⟩) ∨
    ∃ k', handle access a (.within s) k = .error (.halted .freedWhileBooting) k' ∧
      Stranded a ⟨k, s⟩ k' := by
  have hends := ends_handle_within access a s (k := k)
  unfold Ends at hends
  split at hends
  · next p k' hk =>
      obtain ⟨s', hs', hhandles⟩ := hends
      exact Or.inl ⟨p.1, s', k', by rw [hk, ← hs'], hhandles⟩
  · next e k' hk =>
      obtain ⟨rfl, hstranded⟩ := hends
      exact Or.inr ⟨k', hk, hstranded⟩

/-- Once there is a frame map, none is. -/
theorem exists_handles (access : Access) (a : VirtAddr) (s : AddressSpace) {k : Kernel}
    (built : k.allocator.isInitialized = true) :
    ∃ r s' k', handle access a (.within s) k = .ok (r, .within s') k' ∧
      Handles access a ⟨k, s⟩ r ⟨k', s'⟩ :=
  (handled_or_stranded access a s).resolve_right fun ⟨_, _, hstranded⟩ =>
    absurd (built.symm.trans hstranded.booting) (by decide)

/-- What an answer says has been handled. -/
theorem handles_of_eq {s s' : AddressSpace} {k k' : Kernel}
    (answered : handle access a (.within s) k = .ok (r, .within s') k') :
    Handles access a ⟨k, s⟩ r ⟨k', s'⟩ := by
  obtain ⟨_, hs', hhandles⟩ := (ends_handle_within access a s (k := k)).of_ok answered
  cases hs'
  exact hhandles

namespace Handling

/-- A fault is resolved only where there is room for the mapping. -/
theorem hasRoom (h : Handling access a w (.ok ()) w₁) : w.HasRoom a.page := by
  cases h with
  | resolved _ resolution =>
  cases resolution with
  | cached _ backing _ _ =>
  cases backing with
  | found mapped =>
      have hwanted : w.space.table.wanted a.page = 0 := by
        unfold PageRow.wanted
        rw [mapped]
      unfold Workspace.HasRoom
      rw [hwanted]
      rfl
  | made _ room _ _ => exact room

/-- **There is one way to succeed**, and no other way to end then. -/
theorem unique (h : Handling access a w (.ok ()) w₁) (h' : Handling access a w r w') :
    r = .ok () ∧ w' = w₁ := by
  cases h with
  | resolved hor resolution =>
  cases resolution with
  | cached covered backing permitted placed =>
  cases h' with
  | refused hrefused => exact absurd hrefused hor
  | resolved _ resolution =>
      cases resolution with
      | uncovered hnone => cases hnone.symm.trans covered
      | forbidden covered' hforbidden =>
          obtain rfl := Option.some.inj (covered.symm.trans covered')
          cases hforbidden.symm.trans permitted
      | starved covered' unmapped _ hexhausted =>
          cases backing with
          | found mapped => cases unmapped.symm.trans mapped
          | made _ _ taken _ =>
              obtain ⟨_, hnone⟩ := hexhausted
              cases hnone.symm.trans taken
      | cramped _ unmapped _ hcramped _ _ =>
          cases backing with
          | found mapped => cases unmapped.symm.trans mapped
          | made _ room _ _ => exact absurd room hcramped
      | full covered' backing' _ refused =>
          obtain rfl := Option.some.inj (covered.symm.trans covered')
          obtain ⟨rfl, rfl⟩ := backing.unique backing'
          rw [MappingCache.insert_eq_ok_iff, refused] at placed
          cases placed.1
      | cached covered' backing' _ placed' =>
          obtain rfl := Option.some.inj (covered.symm.trans covered')
          obtain ⟨rfl, rfl⟩ := backing.unique backing'
          cases placed.symm.trans placed'
          exact ⟨rfl, rfl⟩

/-- **What would succeed is what is answered.**  Reports before the fault make no difference. -/
theorem exists_answer (h : Handling access a w (.ok ()) w₁) (hquiet : w.Quiet w') :
    ∃ k', handle access a (.within w'.space) w'.kernel = .ok (.ok (), .within w₁.space) k' ∧
      w₁.Quiet ⟨k', w₁.space⟩ := by
  obtain ⟨r, s', k', hk, hhandles⟩ :=
    (handled_or_stranded access a w'.space (k := w'.kernel)).resolve_right
      fun ⟨_, _, hstranded⟩ => hstranded.cramped ((hasRoom_quiet hquiet a.page).mpr h.hasRoom)
  obtain ⟨w₂, hhandling, hafter⟩ := (hhandles.ofQuiet hquiet).handling
  obtain ⟨rfl, rfl⟩ := h.unique hhandling
  obtain rfl : s' = w₂.space := hafter.space
  exact ⟨k', hk, hafter⟩

/-- A fault that finds the cache full has a mapping all the same. -/
theorem backing_of_full (h : Handling access a w (.error .cacheFull) w₁) :
    access ≠ .readOnlyWrite ∧ ∃ c e, w.space.coverage a = some c ∧ Backing a c w e w₁ ∧
      permits (flagsBehind w a c) access = true ∧
      w.kernel.cache.slotFor? ⟨w.space.id, a.page, e.frame, e.flags⟩ = none := by
  cases h with
  | resolved hor resolution =>
      cases resolution with
      | @full c e _ covered backing permitted refused =>
          obtain ⟨hid, -, -, hcache⟩ := backing.same
          rw [hid, hcache] at refused
          exact ⟨hor, c, e, covered, backing, permitted, refused⟩

/-- **With a slot to spare** a fault that finds the cache full would have succeeded, and with the
same mapping. -/
theorem of_full (h : Handling access a w (.error .cacheFull) w₁) {other : MappingCache}
    (room : other.HasSlot w.space.id a.page) :
    ∃ cache, Handling access a (w.withCache other) (.ok ()) (w₁.withCache cache) := by
  obtain ⟨hor, c, e, covered, backing, permitted, -⟩ := h.backing_of_full
  rw [← backing.same.1] at room
  obtain ⟨i, hi⟩ := Option.ne_none_iff_exists'.mp
    (room.slotFor?_ne_none (e := ⟨w₁.space.id, a.page, e.frame, e.flags⟩))
  have placed := MappingCache.insert_eq_ok_iff.mpr ⟨hi, rfl⟩
  have resolution : Resolution access a (w.withCache other) (.ok ())
      ((w₁.withCache other).withCache _) :=
    .cached covered (backing.withCache other) permitted placed
  exact ⟨_, .resolved hor resolution⟩

/-- Faults fail for one of four reasons. -/
theorem error_cases {error : MemoryError} (h : Handling access a w (.error error) w₁) :
    error = .addressingFault a ∨ error = .protectionViolation a ∨ error = .outOfMemory ∨
      error = .cacheFull := by
  cases h with
  | refused _ => exact Or.inr (Or.inl rfl)
  | resolved _ resolution =>
      cases resolution with
      | uncovered _ => exact Or.inl rfl
      | forbidden _ _ => exact Or.inr (Or.inl rfl)
      | starved _ _ _ _ => exact Or.inr (Or.inr (Or.inl rfl))
      | cramped _ _ _ _ _ _ => exact Or.inr (Or.inr (Or.inl rfl))
      | full _ _ _ _ => exact Or.inr (Or.inr (Or.inr rfl))

/-- **Refusals change nothing**, unless it was the cache that refused, or the heap, and the frame
had to go back. -/
theorem eq_or_turnedBack {error : MemoryError} (h : Handling access a w (.error error) w₁)
    (other : error ≠ .cacheFull) : w₁ = w ∨ error = .outOfMemory ∧ ¬ w.HasRoom a.page ∧
      ∃ f rest back, w.kernel.allocator.allocate 1 = .ok (some f, rest) ∧
        rest.free f = .ok back ∧ w₁ = w.turnBack a.page back f := by
  cases h with
  | refused _ => exact Or.inl rfl
  | resolved _ resolution =>
      cases resolution with
      | uncovered _ => exact Or.inl rfl
      | forbidden _ _ => exact Or.inl rfl
      | starved _ _ _ _ => exact Or.inl rfl
      | cramped _ _ _ hcramped taken returned =>
          exact Or.inr ⟨rfl, hcramped, _, _, _, taken, returned, rfl⟩
      | full _ _ _ _ => exact absurd rfl other

/-- What is left of a refusal is nothing but zeroes in a frame that is free. -/
theorem intact_of_refused {error : MemoryError} (h : Handling access a w (.error error) w₁)
    (hc : Custody w.kernel live held tally) (other : error ≠ .cacheFull) :
    w₁.space = w.space ∧ w.kernel.Intact w₁.kernel ∧
      w₁.kernel.nextSpace = w.kernel.nextSpace := by
  rcases h.eq_or_turnedBack other with rfl | ⟨-, -, f, rest, back, taken, returned, rfl⟩
  · exact ⟨rfl, .refl _, rfl⟩
  · refine ⟨rfl, ⟨hc.givesBack_eq taken (Or.inl returned), rfl, rfl, fun g hg => ?_⟩, rfl⟩
    show (w.kernel.memory.zero f).contents g = _
    rw [Memory.contents_zero, if_neg]
    rintro rfl
    exact hg (hc.taken taken).1

/-- **A mapping is supplied** by every fault that succeeds or finds the cache full. -/
theorem supplies (h : Handling access a w r w₁) (hc : Custody w.kernel live held tally)
    (hr : r = .ok () ∨ r = .error .cacheFull) :
    ∃ c, w.space.coverage a = some c ∧ w.Supplies a c w₁ := by
  rcases hr with rfl | rfl
  · cases h with
    | resolved _ resolution =>
        cases resolution with
        | cached covered backing _ _ =>
            exact ⟨_, covered, (backing.supplies hc).congr rfl ⟨_, rfl⟩⟩
  · obtain ⟨-, c, e, covered, backing, -⟩ := h.backing_of_full
    exact ⟨c, covered, backing.supplies hc⟩

/-- **What a fault caches** is what the page table says, and the access is permitted. -/
theorem cached (h : Handling access a w (.ok ()) w₁) :
    ∃ c e, w.space.coverage a = some c ∧ w₁.space.table.find? a.page = some e ∧
      e.flags = flagsBehind w a c ∧ permits e.flags access = true ∧
      ∀ space p, w₁.kernel.cache.find? space p =
        if w.space.id = space ∧ a.page = p then some ⟨w.space.id, a.page, e.frame, e.flags⟩
        else w.kernel.cache.find? space p := by
  cases h with
  | resolved _ resolution =>
      cases resolution with
      | @cached c e w₂ slot cache covered backing permitted placed =>
          obtain ⟨hid, -, -, hcache⟩ := backing.same
          rw [hid, hcache] at placed
          have hfind := backing.find? a.page
          rw [if_pos rfl] at hfind
          rw [← backing.flags] at permitted
          exact ⟨c, e, covered, hfind, backing.flags, permitted, MappingCache.find?_insert placed⟩

/-- Addressing faults are faults at addresses that nothing covers. -/
theorem uncovered_iff (h : Handling access a w r w₁) :
    r = .error (.addressingFault a) ↔ access ≠ .readOnlyWrite ∧ w.space.coverage a = none := by
  constructor
  · rintro rfl
    cases h with
    | resolved hor resolution =>
        cases resolution with
        | uncovered hnone => exact ⟨hor, hnone⟩
  · rintro ⟨hor, hnone⟩
    cases h with
    | refused hrefused => exact absurd hrefused hor
    | resolved _ resolution =>
        cases resolution with
        | uncovered _ => rfl
        | forbidden covered _ => cases hnone.symm.trans covered
        | starved covered _ _ _ => cases hnone.symm.trans covered
        | cramped covered _ _ _ _ _ => cases hnone.symm.trans covered
        | full covered _ _ _ => cases hnone.symm.trans covered
        | cached covered _ _ _ => cases hnone.symm.trans covered

/-- Memory runs out exactly where a page has to be mapped and there is no frame left, or no room. -/
theorem starved_iff (h : Handling access a w r w₁) :
    r = .error .outOfMemory ↔ access ≠ .readOnlyWrite ∧ ∃ c, w.space.coverage a = some c ∧
      permits c.flags access = true ∧ w.space.table.find? a.page = none ∧
      (w.IsExhausted ∨ ¬ w.HasRoom a.page) := by
  have hflags : ∀ c, w.space.table.find? a.page = none → flagsBehind w a c = c.flags := by
    intro c hnone
    unfold flagsBehind
    rw [hnone]
    rfl
  have hbacked : ∀ {c e w₂}, Backing a c w e w₂ → w.space.table.find? a.page = none →
      ¬ (w.IsExhausted ∨ ¬ w.HasRoom a.page) := by
    rintro c e w₂ hbacking hunmapped hshort
    cases hbacking with
    | found mapped => cases hunmapped.symm.trans mapped
    | made _ room taken _ =>
        rcases hshort with ⟨rest, hnone⟩ | hcramped
        · cases hnone.symm.trans taken
        · exact hcramped room
  constructor
  · rintro rfl
    cases h with
    | resolved hor resolution =>
        cases resolution with
        | @starved c covered unmapped permitted hexhausted =>
            exact ⟨hor, c, covered, hflags c unmapped ▸ permitted, unmapped, Or.inl hexhausted⟩
        | @cramped c _ _ _ covered unmapped permitted hcramped _ _ =>
            exact ⟨hor, c, covered, hflags c unmapped ▸ permitted, unmapped, Or.inr hcramped⟩
  · rintro ⟨hor, c, covered, permitted, unmapped, hshort⟩
    cases h with
    | refused hrefused => exact absurd hrefused hor
    | resolved _ resolution =>
        cases resolution with
        | uncovered hnone => cases hnone.symm.trans covered
        | forbidden covered' hforbidden =>
            obtain rfl := Option.some.inj (covered.symm.trans covered')
            rw [hflags c unmapped] at hforbidden
            cases hforbidden.symm.trans permitted
        | starved _ _ _ _ => rfl
        | cramped _ _ _ _ _ _ => rfl
        | full _ backing _ _ => exact absurd hshort (hbacked backing unmapped)
        | cached _ backing _ _ => exact absurd hshort (hbacked backing unmapped)

end Handling

/-! ### Atomicity -/

/-- **Atomic faults**: what the outcome of a fault says about the space and the kernel. -/
structure Atomic (access : Access) (a : VirtAddr) (w : Workspace) (r : Except MemoryError Unit)
    (w' : Workspace) : Prop where
  errors : ∀ error, r = .error error → error = .addressingFault a ∨
    error = .protectionViolation a ∨ error = .outOfMemory ∨ error = .cacheFull
  /-- A refusal leaves the space as it was, and the frame map, the cache and the numbers; bytes
  change in free frames only. -/
  refused : ∀ error, r = .error error → error ≠ .cacheFull →
    w'.space = w.space ∧ w.kernel.Intact w'.kernel ∧ w'.kernel.nextSpace = w.kernel.nextSpace
  /-- Reports apart, it leaves everything as it was, unless the heap has refused room. -/
  quiet : ∀ error, r = .error error → error ≠ .cacheFull →
    (error = .outOfMemory → w.HasRoom a.page) → w.Quiet w'
  supplied : r = .ok () ∨ r = .error .cacheFull →
    ∃ c, w.space.coverage a = some c ∧ w.Supplies a c w'
  cached : r = .ok () → ∃ e, w'.space.table.find? a.page = some e ∧
    e.flags.isPresent = true ∧ (access = .write → e.flags.isWritable = true) ∧
    ∀ space p, w'.kernel.cache.find? space p =
      if w.space.id = space ∧ a.page = p then some ⟨w.space.id, a.page, e.frame, e.flags⟩
      else w.kernel.cache.find? space p
  /-- Against any cache with a slot the fault would have done the same, and succeeded. -/
  full : r = .error .cacheFull → w'.kernel.cache = w.kernel.cache ∧
    ¬ w.kernel.cache.HasSlot w.space.id a.page ∧
    ∀ other : MappingCache, other.HasSlot w.space.id a.page → ∃ k',
      handle access a (.within w.space) { w.kernel with cache := other } =
        .ok (.ok (), .within w'.space) k' ∧
      k'.allocator = w'.kernel.allocator ∧ k'.memory = w'.kernel.memory
  uncovered : r = .error (.addressingFault a) ↔
    access ≠ .readOnlyWrite ∧ w.space.coverage a = none
  /-- Memory runs out where a page has to be mapped, and no frame is free or the heap refuses the
  room that a full page table takes to grow. -/
  starved : r = .error .outOfMemory ↔ access ≠ .readOnlyWrite ∧
    ∃ c, w.space.coverage a = some c ∧ permits c.flags access = true ∧
      w.space.table.find? a.page = none ∧
      ((∀ f, w.kernel.allocator.state? f ≠ some .free) ∨ ¬ w.HasRoom a.page)
  /-- Where the heap has room, it is frames that run out. -/
  exhausted : w.HasRoom a.page → (r = .error .outOfMemory ↔ access ≠ .readOnlyWrite ∧
    ∃ c, w.space.coverage a = some c ∧ permits c.flags access = true ∧
      w.space.table.find? a.page = none ∧ ∀ f, w.kernel.allocator.state? f ≠ some .free)

theorem permits_iff {flags : EntryFlags} : permits flags access = true ↔
    flags.isPresent = true ∧ (access = .write → flags.isWritable = true) := by
  unfold permits
  rw [Bool.and_eq_true]
  refine and_congr_right fun _ => ?_
  cases access <;> simp

/-- **Every fault within a space is atomic**, and is handled. -/
theorem exists_atomic {s : AddressSpace} {k : Kernel} (hc : Custody k live held tally)
    (access : Access) (a : VirtAddr) :
    ∃ r s' k', handle access a (.within s) k = .ok (r, .within s') k' ∧
      Atomic access a ⟨k, s⟩ r ⟨k', s'⟩ := by
  obtain ⟨r, s', k', hk, hhandles⟩ := exists_handles access a s hc.isInitialized
  obtain ⟨w₁, hhandling, hquiet⟩ := hhandles.handling
  have hstarved : r = .error .outOfMemory ↔ access ≠ .readOnlyWrite ∧
      ∃ c, s.coverage a = some c ∧ permits c.flags access = true ∧
        s.table.find? a.page = none ∧
        ((∀ f, k.allocator.state? f ≠ some .free) ∨ ¬ Workspace.HasRoom ⟨k, s⟩ a.page) := by
    rw [hhandling.starved_iff]
    refine and_congr_right fun _ => exists_congr fun c => ?_
    exact and_congr_right fun _ => and_congr_right fun _ => and_congr_right fun _ =>
      or_congr_left hc.refused_iff
  refine ⟨r, s', k', hk, ?_⟩
  refine
    { errors := fun error hr => ?_, refused := fun error hr hother => ?_,
      quiet := fun error hr hother hroom => ?_, supplied := fun hr => ?_,
      cached := fun hr => ?_, full := fun hr => ?_, uncovered := hhandling.uncovered_iff,
      starved := hstarved, exhausted := fun hroom => ?_ }
  · subst hr
    exact hhandling.error_cases
  · subst hr
    obtain ⟨hspace, hintact, hnumber⟩ := hhandling.intact_of_refused hc hother
    exact ⟨hquiet.space.trans hspace, hintact.of_quiet hquiet,
      (congrArg Kernel.nextSpace hquiet.kernel).trans hnumber⟩
  · subst hr
    rcases hhandling.eq_or_turnedBack hother with rfl | ⟨herror, hcramped, -⟩
    · exact hquiet
    · exact absurd (hroom herror) hcramped
  · obtain ⟨c, covered, hsupplies⟩ := hhandling.supplies hc hr
    exact ⟨c, covered, hsupplies.congr hquiet.space ⟨_, hquiet.kernel⟩⟩
  · subst hr
    obtain ⟨-, e, -, hfind, -, hpermits, hcache⟩ := hhandling.cached
    obtain ⟨hpresent, hwritable⟩ := permits_iff.mp hpermits
    refine ⟨e, hquiet.space ▸ hfind, hpresent, hwritable, ?_⟩
    rw [hquiet.cache]
    exact hcache
  · subst hr
    obtain ⟨-, c, e, -, -, -, hnone⟩ := hhandling.backing_of_full
    refine ⟨hquiet.cache.trans hhandling.cache_of_error, MappingCache.not_hasSlot hnone,
      fun other room => ?_⟩
    obtain ⟨cache, hwould⟩ := hhandling.of_full room
    obtain ⟨k₂, hk₂, hquiet₂⟩ := hwould.exists_answer (.refl _)
    have hspace : s' = w₁.space := hquiet.space
    refine ⟨k₂, hspace ▸ hk₂, ?_, ?_⟩
    · exact hquiet₂.allocator.trans hquiet.allocator.symm
    · exact hquiet₂.memory.trans hquiet.memory.symm
  · rw [hstarved]
    simp only [hroom, not_true_eq_false, or_false]

/-- **A fault without a space** is refused, and changes nothing. -/
theorem exists_refused (access : Access) (a : VirtAddr) (k : Kernel) :
    (∃ k', handle access a .idle k = .ok (.error
        (if access = .readOnlyWrite then .protectionViolation a else .noProcess), .idle) k' ∧
      k'.forgetJournal = k.forgetJournal) ∧
    ∃ k', handle access a .bare k = .ok (.error
        (if access = .readOnlyWrite then .protectionViolation a else .noAddressSpace), .bare) k' ∧
      k'.forgetJournal = k.forgetJournal := by
  cases access <;> exact ⟨⟨_, rfl, rfl⟩, ⟨_, rfl, rfl⟩⟩

end PageFault

namespace History

variable {h : History} {rs : List Request}

/-- **Atomicity.**  Let a history lead from a fresh machine to some space, let anything at all be
cached, and let the heap answer as it likes.  Then a fault within the space is answered, for any
access and address, and it is atomic: a refusal changes neither space nor frame map nor cache,
unless it is for want of a slot, and then everything but the cache is as it would be after success;
and success is a permitted mapping of the page that is cached as it stands in the page table, for
which at most one frame was taken.  A fault without a space changes nothing. -/
theorem run_atomic {m : Machine} (fresh : m.IsFresh) (run : Run ⟨m, []⟩ rs h)
    (cache : MappingCache) (access : Access) (a : VirtAddr) :
    (∀ s ∈ h.machine.live, ∃ r s' k',
      PageFault.handle access a (.within s) { h.machine.kernel with cache } =
        .ok (r, .within s') k' ∧
      PageFault.Atomic access a ⟨{ h.machine.kernel with cache }, s⟩ r ⟨k', s'⟩) ∧
    (∃ k', PageFault.handle access a .idle { h.machine.kernel with cache } = .ok (.error
        (if access = .readOnlyWrite then .protectionViolation a else .noProcess), .idle) k' ∧
      k'.forgetJournal = { h.machine.kernel with cache }.forgetJournal) ∧
    ∃ k', PageFault.handle access a .bare { h.machine.kernel with cache } = .ok (.error
        (if access = .readOnlyWrite then .protectionViolation a else .noAddressSpace), .bare) k' ∧
      k'.forgetJournal = { h.machine.kernel with cache }.forgetJournal := by
  obtain ⟨room, -, hc⟩ := run.inCustody (inCustody_of_isFresh fresh)
  have hcached : Custody { h.machine.kernel with cache } h.machine.live h.held _ :=
    hc.of_kernel rfl (Nat.le_refl _) fun _ => Iff.rfl
  refine ⟨fun s _ => PageFault.exists_atomic hcached access a, ?_⟩
  exact PageFault.exists_refused access a _

/-- A prepared space over sixteen frames, where the page behind the heap cannot be cached as there
is not one slot. -/
theorem exists_full_sixteen_frames :
    ∃ rs h, Run ⟨sixteenFrames, []⟩ rs h ∧ rs.length = 3 ∧
      ∃ s ∈ h.machine.live, s.table.find? (.user 3 (by decide)) = none ∧
        answers (PageFault.handle .write ⟨0x3000, by decide⟩ (.within s))
          { h.machine.kernel with cache := .empty 0 }
          (fun p _ => decide (p.1 = .error .cacheFull)) = true := by
  have prepared : Run ⟨sixteenFrames, []⟩ _ _ :=
    ((Run.start.next .createSpace trivial (by decide +kernel)).next
      (.space (.space 0) (.declareRegion ⟨0x1000, by decide⟩ 0x1000 ⟨true, true, false⟩)) trivial
        (by decide +kernel)).next (.space (.space 0) .prepareLoad) trivial (by decide +kernel)
  exact ⟨_, _, prepared, rfl, _, List.mem_cons_self, by decide +kernel, by decide +kernel⟩

/-- A space of sixty-four pages, where there are frames for another one but no room. -/
theorem exists_cramped :
    ∃ rs h s, Run ⟨narrowHeap, []⟩ rs h ∧ s ∈ h.machine.live ∧
      h.machine.kernel.allocator.freeFrames = 30 ∧
      answers (PageFault.handle .write ⟨0x41000, by decide⟩ (.within s))
        { h.machine.kernel with cache := .empty 2 }
        (fun p _ => decide (p.1 = .error .outOfMemory)) = true := by
  obtain ⟨rs, declared⟩ := run_sixtyFivePages
  have crowded : Run ⟨narrowHeap, []⟩ _ _ :=
    declared.next (.space (.space 0) .prepareLoad) trivial (by decide +kernel)
  obtain ⟨rs, h, s, run, hs, hfacts⟩ := crowded.exists_space
    (fun h s => decide (h.machine.kernel.allocator.freeFrames = 30) &&
      answers (PageFault.handle .write ⟨0x41000, by decide⟩ (.within s))
        { h.machine.kernel with cache := .empty 2 }
        (fun p _ => decide (p.1 = .error .outOfMemory)))
    (by decide +kernel)
  obtain ⟨hfree, hrefused⟩ := Bool.and_eq_true_iff.mp hfacts
  exact ⟨rs, h, s, run, hs, of_decide_eq_true hfree, hrefused⟩

/-- Atomicity over sixteen frames: the heap of a prepared space grows by a page that cannot be
cached, as there is not one slot.  With two slots the same space comes of it, from the same
frames.  And atomicity where a sixty-fifth page finds no room in the page table: thirty frames are
free before, and after. -/
theorem run_atomic_for_want_of_slots_or_room :
    (∃ rs h, Run ⟨sixteenFrames, []⟩ rs h ∧ rs.length = 3 ∧ ∃ s ∈ h.machine.live, ∃ s' k',
      PageFault.handle .write ⟨0x3000, by decide⟩ (.within s)
        { h.machine.kernel with cache := .empty 0 } = .ok (.error .cacheFull, .within s') k' ∧
      (∃ c f, Workspace.Gains ⟨0x3000, by decide⟩ c f
        ⟨{ h.machine.kernel with cache := .empty 0 }, s⟩ ⟨k', s'⟩) ∧
      ∃ k'', PageFault.handle .write ⟨0x3000, by decide⟩ (.within s)
          { h.machine.kernel with cache := .empty 2 } = .ok (.ok (), .within s') k'' ∧
        k''.allocator = k'.allocator) ∧
    ∃ rs h, Run ⟨narrowHeap, []⟩ rs h ∧ h.machine.kernel.allocator.freeFrames = 30 ∧
      ∃ s ∈ h.machine.live, ∃ k',
        PageFault.handle .write ⟨0x41000, by decide⟩ (.within s)
          { h.machine.kernel with cache := .empty 2 } = .ok (.error .outOfMemory, .within s) k' ∧
        Kernel.Intact { h.machine.kernel with cache := .empty 2 } k' := by
  constructor
  · obtain ⟨rs, h, run, hlength, s, hs, hmissing, hfull⟩ := exists_full_sixteen_frames
    obtain ⟨r, s', k', hk, hatomic⟩ :=
      (run_atomic isFresh_sixteenFrames run (.empty 0) .write ⟨0x3000, by decide⟩).1 s hs
    obtain rfl : r = .error .cacheFull := of_decide_eq_true (test_of_answers hfull hk)
    obtain ⟨c, -, hsupplies⟩ := hatomic.supplied (Or.inr rfl)
    obtain ⟨f, hgains⟩ := hsupplies.gained hmissing
    obtain ⟨-, -, hwould⟩ := hatomic.full rfl
    obtain ⟨k'', hk'', hallocator, -⟩ := hwould (.empty 2) (Or.inr (by decide))
    exact ⟨rs, h, run, hlength, s, hs, s', k', hk, ⟨c, f, hgains⟩, k'', hk'', hallocator⟩
  · obtain ⟨rs, h, s, run, hs, hfree, hrefused⟩ := exists_cramped
    obtain ⟨r, s', k', hk, hatomic⟩ :=
      (run_atomic isFresh_narrowHeap run (.empty 2) .write ⟨0x41000, by decide⟩).1 s hs
    obtain rfl : r = .error .outOfMemory := of_decide_eq_true (test_of_answers hrefused hk)
    obtain ⟨hspace, hintact, -⟩ := hatomic.refused _ rfl (by decide)
    obtain rfl : s' = s := hspace
    exact ⟨rs, h, run, hfree, s', hs, k', hk, hintact⟩

end History

end DemandPaging
