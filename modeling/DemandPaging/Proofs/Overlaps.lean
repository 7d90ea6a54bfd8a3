import DemandPaging.Proofs.Stages

/-!
# Regions that overlap

The regions of a space may share pages, and their order of declaration is then looked at from both
ends.  A page that is first touched by a fault has the flags of the *first* region there; completing
the load gives a mapped page those of the *last*.  Both are searches through the same list, and each
is described here by where in the list it stops (`RegionList.IsFirst`, `RegionList.IsLast`).

**When they agree.**  Flags know of a permission whether it permits anything at all, writing and
executing.  Two regions give the same flags exactly if these three agree, so that is what it takes
of the first and of the last region at an address (`AddressSpace.first_touch_iff`); regions between
them do not matter.

**Where it shows.**  Preparing a load maps every page of every region, and with the same flags for
all of them.  A page of a region that is touched first by a fault belongs to a space whose load was
not prepared, or not to the end.
-/

namespace DemandPaging

/-- **The flags of a permission** tell whether it permits anything, writing, and executing. -/
theorem Permission.flags_eq_iff {p q : Permission} :
    p.flags = q.flags ↔ p.any = q.any ∧ p.write = q.write ∧ p.execute = q.execute := by
  constructor
  · intro h
    refine ⟨?_, ?_, ?_⟩
    · simpa using congrArg EntryFlags.isPresent h
    · simpa using congrArg EntryFlags.isWritable h
    · simpa using congrArg EntryFlags.isNoExecute h
  · rintro ⟨hany, hwrite, hexecute⟩
    unfold flags
    rw [hany, hwrite, hexecute]

namespace RegionList

variable {l : RegionList} {a : VirtAddr} {r : Region}

/-- The first of the regions that contain the address. -/
def IsFirst (l : RegionList) (a : VirtAddr) (r : Region) : Prop :=
  r.contains a = true ∧ ∃ before after, l.regions = before ++ r :: after ∧
    ∀ r' ∈ before, r'.contains a = false

/-- The last of the regions that contain the address. -/
def IsLast (l : RegionList) (a : VirtAddr) (r : Region) : Prop :=
  r.contains a = true ∧ ∃ before after, l.regions = before ++ r :: after ∧
    ∀ r' ∈ after, r'.contains a = false

theorem find?_eq_some_iff : l.find? a = some r ↔ l.IsFirst a r := by
  unfold find? IsFirst
  rw [List.find?_eq_some_iff_append]
  simp only [Bool.not_eq_true']

theorem lastCovering?_eq_some_iff : l.lastCovering? a.page = some r ↔ l.IsLast a r := by
  unfold lastCovering? IsLast
  rw [List.find?_eq_some_iff_append, ← r.contains_eq_covers]
  refine and_congr_right fun _ => ?_
  constructor
  · rintro ⟨after, before, hsplit, hafter⟩
    refine ⟨before.reverse, after.reverse, ?_, fun r' hr' => ?_⟩
    · rw [← List.reverse_reverse l.regions, hsplit]
      simp
    · rw [r'.contains_eq_covers]
      simpa using hafter r' (List.mem_reverse.mp hr')
  · rintro ⟨before, after, hsplit, hafter⟩
    refine ⟨after.reverse, before.reverse, ?_, fun r' hr' => ?_⟩
    · rw [hsplit]
      simp
    · rw [← r'.contains_eq_covers, hafter r' (List.mem_reverse.mp hr')]
      rfl

/-- Where there is a region, there is a first and a last one. -/
theorem exists_first_last (h : ∃ r ∈ l.regions, r.contains a = true) :
    (∃ r, l.IsFirst a r) ∧ ∃ r, l.IsLast a r := by
  obtain ⟨r, hr, hcontains⟩ := h
  constructor
  · have hfound : (l.find? a).isSome = true := List.find?_isSome.mpr ⟨r, hr, hcontains⟩
    obtain ⟨first, hfirst⟩ := Option.isSome_iff_exists.mp hfound
    exact ⟨first, find?_eq_some_iff.mp hfirst⟩
  · have hfound : (l.lastCovering? a.page).isSome = true :=
      List.find?_isSome.mpr ⟨r, List.mem_reverse.mpr hr, r.contains_eq_covers a ▸ hcontains⟩
    obtain ⟨last, hlast⟩ := Option.isSome_iff_exists.mp hfound
    exact ⟨last, lastCovering?_eq_some_iff.mp hlast⟩

end RegionList

namespace AddressSpace

variable {s s' : AddressSpace} {a : VirtAddr} {r : Region}

/-- What is in a region is covered by the first. -/
theorem coverage_of_isFirst (h : s.regions.IsFirst a r) : s.coverage a = some (.region r) := by
  unfold coverage
  rw [RegionList.find?_eq_some_iff.mpr h]

/-- **Completing** gives a mapped page of a region the flags of the last. -/
theorem find?_completeLoad_of_isLast (h : s.regions.IsLast a r) {e : PageEntry}
    (mapped : s.table.find? a.page = some e) :
    s.completeLoad.table.find? a.page = some { e with flags := r.flags } := by
  rw [find?_completeLoad, mapped, RegionList.lastCovering?_eq_some_iff.mpr h]
  rfl

/-- **A first touch** of a page of a region maps it with the flags of the first. -/
theorem find?_of_first_touch (h : s.regions.IsFirst a r) (untouched : ¬ s.Maps a.page)
    {k k' : Kernel} {access : Access}
    (handled : PageFault.handle access a (.within s) k = .ok (.ok (), .within s') k') :
    s'.regions = s.regions ∧ ∃ f, s'.table.find? a.page = some ⟨a.page, f, r.flags⟩ := by
  obtain ⟨w₁, hhandling, hquiet⟩ := (PageFault.handles_of_eq handled).handling
  have hspace : s' = w₁.space := hquiet.space
  have hcovered : s.coverage a = some (.region r) := coverage_of_isFirst h
  have hunmapped : s.table.find? a.page = none := by simpa [Maps] using untouched
  rw [hspace]
  cases hhandling with
  | resolved hor resolution =>
      cases resolution with
      | @cached c e w₂ slot cache covered backing permitted placed =>
          obtain rfl : Coverage.region r = c := Option.some.inj (hcovered.symm.trans covered)
          obtain ⟨-, hregions, -⟩ := backing.same
          have hfind := backing.find? a.page
          rw [if_pos rfl] at hfind
          refine ⟨hregions, ?_⟩
          cases backing with
          | found mapped => cases hunmapped.symm.trans mapped
          | @made f rest t grown unmapped taken inserted => exact ⟨f, hfind⟩

/-- **First touch and completion.**  At an address in some region, let `first` be the first region
that contains it and `last` the last.  It is covered by `first`, and a fault that maps its page
gives the page the flags of `first`; completing the load gives the page, once it is mapped, those
of `last`.  These are the same exactly if the permissions of the two agree on permitting anything,
on writing and on executing.  In a space that has been prepared the page has been mapped before any
fault. -/
theorem first_touch_iff (inside : ∃ r ∈ s.regions.regions, r.contains a = true) :
    ∃ first last, s.regions.IsFirst a first ∧ s.regions.IsLast a last ∧
      s.coverage a = some (.region first) ∧
      (∀ e, s.table.find? a.page = some e →
        s.completeLoad.table.find? a.page = some { e with flags := last.flags }) ∧
      (∀ access k s' k', ¬ s.Maps a.page →
        PageFault.handle access a (.within s) k = .ok (.ok (), .within s') k' →
        ∃ f, s'.table.find? a.page = some ⟨a.page, f, first.flags⟩ ∧
          s'.completeLoad.table.find? a.page = some ⟨a.page, f, last.flags⟩) ∧
      (first.flags = last.flags ↔ first.permission.any = last.permission.any ∧
        first.permission.write = last.permission.write ∧
        first.permission.execute = last.permission.execute) ∧
      (s.IsPrepared → s.Maps a.page) := by
  obtain ⟨⟨first, hfirst⟩, last, hlast⟩ := RegionList.exists_first_last inside
  refine ⟨first, last, hfirst, hlast, coverage_of_isFirst hfirst,
    fun e he => find?_completeLoad_of_isLast hlast he, ?_, Permission.flags_eq_iff, ?_⟩
  · intro access k s' k' untouched handled
    obtain ⟨hregions, f, hfind⟩ := find?_of_first_touch hfirst untouched handled
    rw [← hregions] at hlast
    exact ⟨f, hfind, find?_completeLoad_of_isLast hlast hfind⟩
  · intro hprepared
    obtain ⟨r, hr, hcontains⟩ := inside
    exact hprepared.2 _ (mem_loadPages_iff.mpr (Or.inl (any_covers_of_contains hr hcontains)))

/-- A first touch over sixteen frames, where a region that may be read overlaps with one that may be
written too: the page is not writable at first, and after completion it is. -/
theorem first_touch_iff_sixteen_frames :
    ∃ s k s' k' f, Draft s ∧
      (∃ r ∈ s.regions.regions, r.contains ⟨0x2000, by decide⟩ = true) ∧
      PageFault.handle .read ⟨0x2000, by decide⟩ (.within s) k = .ok (.ok (), .within s') k' ∧
      s'.table.find? ⟨2, by decide⟩ = some ⟨⟨2, by decide⟩, f, ⟨0x8000000000000005⟩⟩ ∧
      s'.completeLoad.table.find? ⟨2, by decide⟩ =
        some ⟨⟨2, by decide⟩, f, ⟨0x8000000000000007⟩⟩ := by
  have hrun : answers (declareRegion ⟨0x1000, by decide⟩ 0x2000 ⟨true, false, false⟩)
      ⟨History.sixteenFrames.kernel, .new 1⟩ (fun _ w =>
        answers (declareRegion ⟨0x2000, by decide⟩ 0x1000 ⟨true, true, false⟩) w fun _ w₁ =>
          decide ((w₁.space.regions.find? ⟨0x2000, by decide⟩).map Region.flags =
              some ⟨0x8000000000000005⟩ ∧
            (w₁.space.regions.lastCovering? ⟨2, by decide⟩).map Region.flags =
              some ⟨0x8000000000000007⟩ ∧
            w₁.space.table.find? ⟨2, by decide⟩ = none ∧
            w₁.kernel.allocator.isInitialized = true) &&
          answers (PageFault.handle .read ⟨0x2000, by decide⟩ (.within w₁.space)) w₁.kernel
            fun p _ => decide (p.1 = .ok ())) = true := by decide +kernel
  obtain ⟨_, w, hdeclared, hrun⟩ := exists_of_answers hrun
  obtain ⟨_, w₁, hdeclared₁, hrun⟩ := exists_of_answers hrun
  obtain ⟨hregions, hfault⟩ := Bool.and_eq_true_iff.mp hrun
  obtain ⟨hfound, hlast, hunmapped, hbuilt⟩ := of_decide_eq_true hregions
  obtain ⟨r, s', k', hk, -⟩ :=
    PageFault.exists_handles .read ⟨0x2000, by decide⟩ w₁.space hbuilt
  obtain rfl : r = .ok () := of_decide_eq_true (test_of_answers hfault hk)
  obtain ⟨r, hr, -⟩ := Option.map_eq_some_iff.mp hfound
  obtain ⟨hcontains, before, after, hsplit, -⟩ := RegionList.find?_eq_some_iff.mp hr
  have inside : ∃ r ∈ w₁.space.regions.regions, r.contains ⟨0x2000, by decide⟩ = true :=
    ⟨r, by simp [hsplit], hcontains⟩
  obtain ⟨r₁, r₂, hr₁, hr₂, -, -, htouch, -⟩ := first_touch_iff inside
  rw [RegionList.find?_eq_some_iff.mpr hr₁] at hfound
  have hpage : (⟨0x2000, by decide⟩ : VirtAddr).page = ⟨2, by decide⟩ := rfl
  rw [← hpage, RegionList.lastCovering?_eq_some_iff.mpr hr₂] at hlast
  obtain ⟨f, hmapped, hcompleted⟩ :=
    htouch .read w₁.kernel s' k' (by simp [Maps, hpage, hunmapped]) hk
  rw [Option.some.inj hfound] at hmapped
  rw [Option.some.inj hlast] at hcompleted
  exact ⟨w₁.space, w₁.kernel, s', k', f, .declared (.declared (.new 1) hdeclared) hdeclared₁,
    inside, hk, hmapped, hcompleted⟩

/-- **Not every page keeps the flags of its first touch.**  The page of two regions that do not
agree on writing has other flags as soon as the load is completed. -/
theorem not_forall_first_touch :
    ¬ ∀ (s s' : AddressSpace) (k k' : Kernel) (access : Access) (a : VirtAddr) (c : Coverage)
      (e : PageEntry), Draft s → (∃ r ∈ s.regions.regions, r.contains a = true) →
      s.coverage a = some c →
      PageFault.handle access a (.within s) k = .ok (.ok (), .within s') k' →
      s'.completeLoad.table.find? a.page = some e → e.flags = c.flags := by
  intro hall
  have hrun : answers (declareRegion ⟨0x1000, by decide⟩ 0x1000 ⟨true, false, false⟩)
      ⟨History.sixteenFrames.kernel, .new 1⟩ (fun _ w =>
        answers (declareRegion ⟨0x1000, by decide⟩ 0x1000 ⟨true, true, false⟩) w fun _ w₁ =>
          decide (w₁.space.regions.regions.any (·.contains ⟨0x1000, by decide⟩) = true ∧
            (w₁.space.coverage ⟨0x1000, by decide⟩).map Coverage.flags =
              some ⟨0x8000000000000005⟩ ∧ w₁.kernel.allocator.isInitialized = true) &&
          answers (PageFault.handle .read ⟨0x1000, by decide⟩ (.within w₁.space)) w₁.kernel
            fun p _ => p.2.passes fun s => decide (p.1 = .ok () ∧
              (s.completeLoad.table.find? ⟨1, by decide⟩).map PageEntry.flags =
                some ⟨0x8000000000000007⟩)) = true := by decide +kernel
  obtain ⟨_, w, hdeclared, hrun⟩ := exists_of_answers hrun
  obtain ⟨_, w₁, hdeclared₁, hrun⟩ := exists_of_answers hrun
  obtain ⟨hcovers, hfault⟩ := Bool.and_eq_true_iff.mp hrun
  obtain ⟨hinside, hcoverage, hbuilt⟩ := of_decide_eq_true hcovers
  obtain ⟨c, hc, hflags⟩ := Option.map_eq_some_iff.mp hcoverage
  obtain ⟨r, s', k', hk, -⟩ :=
    PageFault.exists_handles .read ⟨0x1000, by decide⟩ w₁.space hbuilt
  obtain ⟨hok, hcompleted⟩ := of_decide_eq_true (test_of_answers hfault hk)
  obtain rfl : r = .ok () := hok
  obtain ⟨e, he, heflags⟩ := Option.map_eq_some_iff.mp hcompleted
  have hsame := hall w₁.space s' w₁.kernel k' .read _ c e
    (.declared (.declared (.new 1) hdeclared) hdeclared₁) (List.any_eq_true.mp hinside) hc hk he
  rw [heflags, hflags] at hsame
  exact absurd hsame (by decide)

end AddressSpace

end DemandPaging
