import DemandPaging.Proofs.Gap

/-!
# What a resolved fault promises

Once a fault is resolved, the processor makes the access again that its error code describes.
Whether it gets through is a matter of the flags of the mapping that was cached
(`EntryFlags.allow`), and of more bits of the code than the kernel looks at.

**Writes get through.**  The bits for writes and for protection are looked at, so that a resolved
fault of a write leaves a page that may be written.

**Instruction fetches need not.**  A fetch is handled as a read.  From a page that may be read but
not executed, a fetch therefore has its fault resolved, without getting through: it faults again, is
resolved again, and nothing ever changes any more (`PageFault.resolved_by_code`).
-/

namespace DemandPaging

/-- Whether a mapping with these flags lets the access through that an error code describes.  Bit 1
of the code marks a write, bit 4 an instruction fetch. -/
def EntryFlags.allow (flags : EntryFlags) (code : Nat) : Bool :=
  flags.isPresent && (!code.testBit 1 || flags.isWritable) &&
    (!code.testBit 4 || !flags.isNoExecute)

theorem EntryFlags.allow_iff {flags : EntryFlags} {code : Nat} : flags.allow code = true ↔
    flags.isPresent = true ∧ (code.testBit 1 = true → flags.isWritable = true) ∧
      (code.testBit 4 = true → flags.isNoExecute = false) := by
  unfold allow
  cases code.testBit 1 <;> cases code.testBit 4 <;> simp [and_assoc]

/-- A code for a write describes one, unless it is a write to a page held read-only. -/
theorem Access.ofErrorCode_of_write {code : Nat} (hwrite : code.testBit 1 = true)
    (hor : Access.ofErrorCode code ≠ .readOnlyWrite) : Access.ofErrorCode code = .write := by
  unfold Access.ofErrorCode at hor ⊢
  rw [if_pos hwrite] at hor ⊢
  split
  · next hheld => exact absurd (if_pos hheld) hor
  · rfl

namespace PageFault

variable {access : Access} {a : VirtAddr} {w w₁ : Workspace}

/-- **A resolved fault**, raised again at an address that is still covered, is resolved again and
changes nothing. -/
theorem Handling.again (h : Handling access a w (.ok ()) w₁)
    (still : w₁.space.coverage a ≠ none) : Handling access a w₁ (.ok ()) w₁ := by
  obtain ⟨c, covered⟩ := Option.ne_none_iff_exists'.mp still
  cases h with
  | resolved hor resolution =>
      cases resolution with
      | @cached _ e w₂ i cache _ backing permitted placed =>
          have mapped : w₂.space.table.find? a.page = some e := by rw [backing.find?, if_pos rfl]
          have hflags : flagsBehind (w₂.withCache cache) a c = e.flags := by
            show ((w₂.space.table.find? a.page).map PageEntry.flags).getD c.flags = e.flags
            rw [mapped]
            rfl
          rw [← backing.flags, ← hflags] at permitted
          have resolution : Resolution access a (w₂.withCache cache) (.ok ())
              ((w₂.withCache cache).withCache cache) :=
            .cached covered (.found mapped) permitted (MappingCache.insert_again placed)
          exact .resolved hor resolution

/-- An access that was let through is no write to a page held read-only. -/
theorem Handling.ne_readOnlyWrite (h : Handling access a w (.ok ()) w₁) :
    access ≠ .readOnlyWrite := by
  cases h with
  | resolved hor _ => exact hor

/-- What is cached once a fault is resolved. -/
theorem exists_cached {s s' : AddressSpace} {k k' : Kernel}
    (resolved : handle access a (.within s) k = .ok (.ok (), .within s') k') :
    ∃ c e, s.coverage a = some c ∧ s'.lookup a = some e ∧
      k'.cache.lookup s'.id a = some ⟨s'.id, a.page, e.frame, e.flags⟩ ∧
      e.flags = ((s.lookup a).map PageEntry.flags).getD c.flags ∧
      permits e.flags access = true := by
  have hhandles := handles_of_eq resolved
  obtain ⟨w₁, hhandling, hquiet⟩ := hhandles.handling
  obtain ⟨c, e, covered, hfind, hflags, hpermits, hcache⟩ := hhandling.cached
  have hid : s'.id = s.id := hhandles.cache.1
  have hspace : s' = w₁.space := hquiet.space
  have hcached : k'.cache = w₁.kernel.cache := hquiet.cache
  refine ⟨c, e, covered, hspace ▸ hfind, ?_, hflags, hpermits⟩
  show k'.cache.find? s'.id a.page = _
  rw [hid, hcached, hcache, if_pos ⟨rfl, rfl⟩]

/-- What was resolved once is resolved again. -/
theorem exists_again {s s' : AddressSpace} {k k' : Kernel}
    (resolved : handle access a (.within s) k = .ok (.ok (), .within s') k')
    (still : s'.coverage a ≠ none) :
    ∃ k'', handle access a (.within s') k' = .ok (.ok (), .within s') k'' ∧
      k''.forgetJournal = k'.forgetJournal := by
  obtain ⟨w₁, hhandling, hquiet⟩ := (handles_of_eq resolved).handling
  have hspace : s' = w₁.space := hquiet.space
  have hagain := hhandling.again (hspace ▸ still)
  -- the second fault starts with the reports of the first
  obtain ⟨k₂, hk₂, hquiet₂⟩ := hagain.exists_answer hquiet
  exact ⟨k₂, hspace ▸ hk₂, hquiet₂.kernel.trans hquiet.kernel.symm⟩

/-- **What a resolved fault promises.**  However the processor describes an access, in whatever
space, kernel and cache: if its fault is resolved, then the mapping of the page is cached, with the
flags it has had or those of what covers the address.  It is present, and it may be written if the
access is a write.  The access gets through unless it is an instruction fetch from a page that must
not be executed; and if it does not get through, then its fault is resolved again and again, as long
as anything covers the address, and nothing changes. -/
theorem resolved_by_code {code : Nat} {s s' : AddressSpace} {k k' : Kernel}
    (resolved : handle (.ofErrorCode code) a (.within s) k = .ok (.ok (), .within s') k') :
    ∃ c e, s.coverage a = some c ∧ s'.lookup a = some e ∧
      k'.cache.lookup s'.id a = some ⟨s'.id, a.page, e.frame, e.flags⟩ ∧
      e.flags = ((s.lookup a).map PageEntry.flags).getD c.flags ∧
      e.flags.isPresent = true ∧ (code.testBit 1 = true → e.flags.isWritable = true) ∧
      (e.flags.allow code = false ↔ code.testBit 4 = true ∧ e.flags.isNoExecute = true) ∧
      (s'.coverage a ≠ none → ∃ k'',
        handle (.ofErrorCode code) a (.within s') k' = .ok (.ok (), .within s') k'' ∧
        k''.forgetJournal = k'.forgetJournal) := by
  obtain ⟨c, e, covered, hlookup, hcache, hflags, hpermits⟩ := exists_cached resolved
  obtain ⟨w₁, hhandling, -⟩ := (handles_of_eq resolved).handling
  obtain ⟨hpresent, hwritable⟩ := permits_iff.mp hpermits
  have hwrite : code.testBit 1 = true → e.flags.isWritable = true := fun hbit =>
    hwritable (Access.ofErrorCode_of_write hbit hhandling.ne_readOnlyWrite)
  refine ⟨c, e, covered, hlookup, hcache, hflags, hpresent, hwrite, ?_, exists_again resolved⟩
  rw [Bool.eq_false_iff, Ne, EntryFlags.allow_iff]
  constructor
  · intro hnot
    by_contra hfetch
    exact hnot ⟨hpresent, hwrite, fun hbit =>
      Bool.eq_false_iff.mpr fun hexecute => hfetch ⟨hbit, hexecute⟩⟩
  · rintro ⟨hbit, hexecute⟩ ⟨-, -, hfetch⟩
    rw [hfetch hbit] at hexecute
    cases hexecute

end PageFault

namespace History

/-- A program over sixteen frames fetches an instruction from its data, a page that it may read and
write: bits 0, 2 and 4 of the code are set. -/
theorem exists_fetch_sixteen_frames :
    ∃ rs h, Run ⟨sixteenFrames, []⟩ rs h ∧ ∃ s ∈ h.machine.live, ∃ k',
      PageFault.handle (.ofErrorCode 0x15) ⟨0x1000, by decide⟩ (.within s) h.machine.kernel =
        .ok (.ok (), .within s) k' ∧
      ∃ e, s.lookup ⟨0x1000, by decide⟩ = some e ∧ e.flags.isNoExecute = true := by
  have started : Run ⟨sixteenFrames, []⟩ _ _ :=
    Run.start.next (.startProgram [⟨⟨0x1000, by decide⟩, [1, 2, 3], 8, ⟨true, true, false⟩⟩]
      ⟨0x1000, by decide⟩) trivial (by decide +kernel)
  obtain ⟨rs, h, run, hbuilt, hany⟩ : ∃ rs h, Run ⟨sixteenFrames, []⟩ rs h ∧
      h.machine.kernel.allocator.isInitialized = true ∧
      (h.machine.space? (.process 0)).any (fun s =>
        (s.lookup ⟨0x1000, by decide⟩).any (·.flags.isNoExecute) &&
          answers (PageFault.handle (.ofErrorCode 0x15) ⟨0x1000, by decide⟩ (.within s))
            h.machine.kernel fun p _ => decide (p.1 = .ok ())) = true :=
    ⟨_, _, started, by decide +kernel, by decide +kernel⟩
  obtain ⟨s, hs, hboth⟩ := (Option.any_eq_true _ _).mp hany
  obtain ⟨hexecute, hok⟩ := Bool.and_eq_true_iff.mp hboth
  obtain ⟨e, hlookup, he⟩ := (Option.any_eq_true _ _).mp hexecute
  obtain ⟨r, s', k', hk, -⟩ :=
    PageFault.exists_handles (.ofErrorCode 0x15) ⟨0x1000, by decide⟩ s hbuilt
  obtain rfl : r = .ok () := of_decide_eq_true (test_of_answers hok hk)
  -- a page that has a mapping is not gained
  obtain rfl : s' = s := by
    refine (PageFault.space_cases_of_eq hk).resolve_right ?_
    rintro ⟨c, hgains⟩
    exact hgains.unmapped (Option.isSome_iff_exists.mpr ⟨e, hlookup⟩)
  exact ⟨rs, h, run, s', Machine.mem_live_of_space? hs, k', hk, e, hlookup, he⟩

end History

namespace PageFault

/-- The promise of a resolved fault where it falls short: what is cached for the fetch is present,
and does not let it through.  The fault is resolved once more, and nothing changes. -/
theorem resolved_by_code_sixteen_frames :
    ∃ rs h, History.Run ⟨History.sixteenFrames, []⟩ rs h ∧ ∃ s ∈ h.machine.live, ∃ e k' k'',
      handle (.ofErrorCode 0x15) ⟨0x1000, by decide⟩ (.within s) h.machine.kernel =
        .ok (.ok (), .within s) k' ∧
      s.lookup ⟨0x1000, by decide⟩ = some e ∧ e.flags.isPresent = true ∧
      e.flags.allow 0x15 = false ∧
      handle (.ofErrorCode 0x15) ⟨0x1000, by decide⟩ (.within s) k' =
        .ok (.ok (), .within s) k'' ∧
      k''.forgetJournal = k'.forgetJournal := by
  obtain ⟨rs, h, run, s, hs, k', hk, e, hlookup, hexecute⟩ := History.exists_fetch_sixteen_frames
  obtain ⟨c, d, covered, hd, -, -, hpresent, -, hallow, hagain⟩ := resolved_by_code hk
  obtain rfl := Option.some.inj (hlookup.symm.trans hd)
  obtain ⟨k'', hk'', hquiet⟩ := hagain (by rw [covered]; exact Option.some_ne_none c)
  exact ⟨rs, h, run, s, hs, e, k', k'', hk, hlookup, hpresent,
    hallow.mpr ⟨by decide, hexecute⟩, hk'', hquiet⟩

/-- **Not every resolved fault lets its access through.** -/
theorem not_forall_resolved_allow :
    ¬ ∀ (rs : List Request) (h : History), History.Run ⟨History.sixteenFrames, []⟩ rs h →
      ∀ s ∈ h.machine.live, ∀ (cache : MappingCache) (code : Nat) (a : VirtAddr)
        (s' : AddressSpace) (k' : Kernel),
        handle (.ofErrorCode code) a (.within s) { h.machine.kernel with cache } =
          .ok (.ok (), .within s') k' →
        ∃ e, k'.cache.lookup s'.id a = some e ∧ e.flags.allow code = true := by
  intro hall
  obtain ⟨rs, h, run, s, hs, k', hk, e, hlookup, hexecute⟩ := History.exists_fetch_sixteen_frames
  obtain ⟨d, hcached, hallow⟩ :=
    hall rs h run s hs h.machine.kernel.cache 0x15 ⟨0x1000, by decide⟩ s k' hk
  obtain ⟨-, e', -, hlookup', hcached', -⟩ := PageFault.exists_cached hk
  obtain rfl := Option.some.inj (hlookup.symm.trans hlookup')
  obtain rfl := Option.some.inj (hcached.symm.trans hcached')
  have hfetch := (EntryFlags.allow_iff.mp hallow).2.2 (by decide)
  rw [hexecute] at hfetch
  cases hfetch

end PageFault

end DemandPaging
