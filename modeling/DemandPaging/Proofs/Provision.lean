import DemandPaging.Proofs.Gap
import DemandPaging.Proofs.ReadBack
import Mathlib.Data.Finset.Card

/-!
# What preparing for load takes

Regions may overlap, share pages with one another and with the stack, and the heap may begin in
the page of the stack.  Preparing finds out as it goes: a page that is mapped by then is passed
over.  So what it takes is one frame for each page of a union, less what was mapped before, and
this union is `AddressSpace.missing`.

**Exactly so many.**  Where the page table has room for the missing pages, or the heap grants it,
preparing answers if and only if there are as many free frames as missing pages, or more.  If there
are fewer, every frame there is goes to a missing page before it fails, since nothing is taken for
any other purpose.  And where the heap refuses, it fails with the table full and a frame for each
page that it has mapped (`Workspace.PreparesExactly`).

**What stays.**  Pages that are mapped already keep frame, flags and bytes, whether preparing
answers or not (`Workspace.Provides`).  For the bytes this takes that a frame which is handed
out is not one of the space's own, and that is why the frames of the space must not be free
(`Workspace.IsSecure`).
-/

namespace DemandPaging

namespace Workspace

variable {w w₁ w₂ : Workspace}

/-! ### Secure workspaces -/

/-- **Secure workspaces**: the frame map is built and follows its blocks, and no page and no
frame of the space stands twice, nor is a frame of it free. -/
structure IsSecure (w : Workspace) : Prop where
  follows : ∃ m ledger, w.kernel.allocator.source = .mapped m ∧ m.Follows ledger
  table : w.space.table.WellFormed
  frames : w.space.frames.Nodup
  taken : ∀ f ∈ w.space.frames, w.kernel.allocator.state? f ≠ some .free

/-- Changes that concern neither the page table nor the frames. -/
theorem IsSecure.of_eq (h : w.IsSecure) (htable : w₁.space.table = w.space.table)
    (hallocator : w₁.kernel.allocator = w.kernel.allocator) : w₁.IsSecure := by
  obtain ⟨follows, table, frames, taken⟩ := h
  refine ⟨hallocator ▸ follows, htable ▸ table, ?_, ?_⟩
  · unfold AddressSpace.frames at frames ⊢
    rwa [htable]
  · unfold AddressSpace.frames at taken ⊢
    rwa [htable, hallocator]

/-- A frame that is taken is not one of the space. -/
theorem IsSecure.fresh (h : w.IsSecure) {f : Frame} {a : Allocator}
    (taken : w.kernel.allocator.allocate 1 = .ok (some f, a)) : f ∉ w.space.frames := by
  obtain ⟨m, ledger, hsource, hfollows⟩ := h.follows
  exact fun hmem => h.taken f hmem (Allocator.taken_of_follows hsource hfollows taken).1

/-- A frame just taken goes back, and then the allocator is the same. -/
theorem IsSecure.free_taken (h : w.IsSecure) {f : Frame} {a : Allocator}
    (taken : w.kernel.allocator.allocate 1 = .ok (some f, a)) :
    a.free f = .ok w.kernel.allocator := by
  obtain ⟨m, ledger, hsource, hfollows⟩ := h.follows
  rcases Allocator.free_taken_cases taken with ⟨a', hback⟩ | hstuck
  · obtain rfl := Allocator.GivesBack.eq_self (Or.inl hback) hsource hfollows taken
    exact hback
  · have hbooting := Allocator.booting_of_free_eq_error hstuck
    rw [Allocator.isInitialized_of_taken taken, Allocator.isInitialized, hsource] at hbooting
    cases hbooting

/-- One page more leaves the workspace secure, and costs one frame. -/
theorem IsSecure.install (h : w.IsSecure) {p : Page} {flags : EntryFlags} {f : Frame}
    {a : Allocator} {t : PageTable} {grown : Option Nat}
    (taken : w.kernel.allocator.allocate 1 = .ok (some f, a))
    (inserted : w.space.table.insert true ⟨p, f, flags⟩ = .ok (t, grown)) :
    (w.install p a f t).IsSecure ∧ a.freeFrames + 1 = w.kernel.allocator.freeFrames := by
  obtain ⟨m, ledger, hsource, hfollows⟩ := h.follows
  obtain ⟨-, ha, hfollows', hentry, hcost⟩ := Allocator.taken_of_follows hsource hfollows taken
  have hperm := perm_frames_install (a := a) inserted
  have hsource' : (w.install p a f t).kernel.allocator.source = .mapped (m.occupy f.index 1) := by
    rw [Workspace.install, ha]
    rfl
  refine ⟨⟨⟨_, _, hsource', hfollows'⟩, h.table.insert inserted, ?_, ?_⟩, hcost⟩
  · exact hperm.nodup_iff.mpr (List.nodup_cons.mpr ⟨h.fresh taken, h.frames⟩)
  · intro g hg
    show a.state? g ≠ some .free
    rw [Allocator.state?, hentry g]
    split
    · simp
    · next hne =>
        exact h.taken g ((List.mem_cons.mp (hperm.mem_iff.mp hg)).resolve_left hne)

/-- Without a free frame there are none to count. -/
theorem IsSecure.freeFrames_of_exhausted (h : w.IsSecure) (hexhausted : w.IsExhausted) :
    w.kernel.allocator.freeFrames = 0 := by
  obtain ⟨m, ledger, hsource, hfollows⟩ := h.follows
  obtain ⟨a, hnone⟩ := hexhausted
  rw [Allocator.allocate_mapped hsource, Except.ok.injEq, Prod.mk.injEq] at hnone
  rw [Allocator.freeFrames_mapped hsource]
  rcases FrameMap.allocate_cases hfollows.counted 1 with ⟨f, hgrant, -⟩ | ⟨hrefuse, -⟩
  · rw [hgrant] at hnone
    cases hnone.1
  · exact (FrameMap.allocate_one_eq_none_iff hfollows.counted).mp hrefuse

/-! ### Providing pages -/

/-- **Provides**: pages have been added, for one frame each, with flags that are given for them
and zeroes in them.  All other pages have the frame, the flags and the bytes that they had. -/
structure Provides (flags : Page → EntryFlags) (w w' : Workspace) : Prop where
  kept : ∀ p e, w.space.table.find? p = some e → w'.space.table.find? p = some e
  frames : w.space.frames ⊆ w'.space.frames
  bytes : ∀ f ∈ w.space.frames,
    w'.kernel.memory.contents f = w.kernel.memory.contents f
  fresh : ∀ p e, w'.space.table.find? p = some e → ¬ w.Maps p →
    e.flags = flags p ∧ w'.kernel.memory.contents e.frame = .zero
  cost : w'.kernel.allocator.freeFrames + w'.space.table.entries.length =
    w.kernel.allocator.freeFrames + w.space.table.entries.length
  secure : w'.IsSecure

namespace Provides

variable {flags : Page → EntryFlags}

/-- Changes that are not about frames. -/
theorem of_eq (h : w.IsSecure) (htable : w₁.space.table = w.space.table)
    (hallocator : w₁.kernel.allocator = w.kernel.allocator)
    (hmemory : w₁.kernel.memory = w.kernel.memory) : w.Provides flags w₁ where
  kept p e hp := htable ▸ hp
  frames := by
    unfold AddressSpace.frames
    rw [htable]
    exact List.Subset.refl _
  bytes f _ := by rw [hmemory]
  fresh p e hp hnew := by
    refine absurd ?_ hnew
    show (w.space.table.find? p).isSome = true
    rw [← htable, hp]
    rfl
  cost := by rw [htable, hallocator]
  secure := h.of_eq htable hallocator

theorem refl (h : w.IsSecure) : w.Provides flags w := .of_eq h rfl rfl rfl

theorem trans (h : w.Provides flags w₁) (h' : w₁.Provides flags w₂) : w.Provides flags w₂ where
  kept p e hp := h'.kept p e (h.kept p e hp)
  frames f hf := h'.frames (h.frames hf)
  bytes f hf := (h'.bytes f (h.frames hf)).trans (h.bytes f hf)
  fresh p e hp hnew := by
    by_cases hmid : w₁.Maps p
    · obtain ⟨e₁, hp₁⟩ := Option.isSome_iff_exists.mp hmid
      obtain rfl : e₁ = e := Option.some.inj ((h'.kept p e₁ hp₁).symm.trans hp)
      obtain ⟨hflags, hzero⟩ := h.fresh p e₁ hp₁ hnew
      have hframe : e₁.frame ∈ w₁.space.frames :=
        List.mem_map_of_mem (PageRow.mem_of_find? hp₁).1
      exact ⟨hflags, (h'.bytes _ hframe).trans hzero⟩
    · exact h'.fresh p e hp hmid
  cost := h'.cost.trans h.cost
  secure := h'.secure

theorem install (h : w.IsSecure) {p : Page} {f : Frame} {a : Allocator} {t : PageTable}
    {grown : Option Nat} (taken : w.kernel.allocator.allocate 1 = .ok (some f, a))
    (inserted : w.space.table.insert true ⟨p, f, flags p⟩ = .ok (t, grown)) :
    w.Provides flags (w.install p a f t) := by
  obtain ⟨hsecure, hcost⟩ := h.install taken inserted
  have hfresh := h.fresh taken
  have hgrows := Grows.install taken inserted
  have hfind : ∀ q, t.find? q = if p = q then some ⟨p, f, flags p⟩ else w.space.table.find? q :=
    PageTable.find?_insert inserted
  have hbytes : ∀ g ∈ w.space.frames,
      (w.kernel.memory.zero f).contents g = w.kernel.memory.contents g := by
    intro g hg
    rw [Memory.contents_zero, if_neg]
    rintro rfl
    exact hfresh hg
  refine ⟨?_, hgrows.frames.subset, hbytes, ?_, ?_, hsecure⟩
  · exact fun q e hq => PageTable.find?_insert_of_eq_some inserted hq
  · intro q e hq hnew
    change t.find? q = some e at hq
    rw [hfind] at hq
    split at hq
    · next hpq =>
        cases hq
        exact ⟨congrArg flags hpq, by
          show (w.kernel.memory.zero f).contents f = .zero
          rw [Memory.contents_zero, if_pos rfl]⟩
    · exact absurd (Option.isSome_iff_exists.mpr ⟨e, hq⟩) hnew
  · have hlength := (perm_frames_install (a := a) inserted).length_eq
    simp only [AddressSpace.frames, List.length_map, List.length_cons] at hlength
    show a.freeFrames + t.entries.length = _
    change t.entries.length = _ at hlength
    omega

/-- A page that found no room has provided nothing, and written to a free frame only. -/
theorem turnBack (h : w.IsSecure) {p : Page} {f : Frame} {a a' : Allocator}
    (taken : w.kernel.allocator.allocate 1 = .ok (some f, a)) (back : a.free f = .ok a') :
    w.Provides flags (w.turnBack p a' f) := by
  obtain rfl := Except.ok.inj ((h.free_taken taken).symm.trans back)
  refine ⟨fun _ _ hq => hq, List.Subset.refl _, fun g hg => ?_, fun q e hq hnew => ?_, rfl,
    h.of_eq rfl rfl⟩
  · show (w.kernel.memory.zero f).contents g = _
    rw [Memory.contents_zero, if_neg]
    rintro rfl
    exact h.fresh taken hg
  · exact absurd (Option.isSome_iff_exists.mpr ⟨e, hq⟩) hnew

end Provides

end Workspace

/-- **Furnishes.**  However the operation ends, it has provided pages of a secure workspace, and
nothing else. -/
def Furnishes {α : Type} (x : SpaceM α) (w : Workspace) (flags : Page → EntryFlags) : Prop :=
  w.IsSecure → Ends x w (fun _ w' => w.Provides flags w') fun _ w' => w.Provides flags w'

namespace Furnishes

variable {α β : Type} {w : Workspace} {x : SpaceM α} {flags : Page → EntryFlags}

/-- One operation after another, the second where the first has filled its pages. -/
theorem bind {y : α → SpaceM β} {ps : List Page} (hfills : Fills x w ps)
    (h : Furnishes x w flags) (hy : ∀ a w₁, Filled ps w w₁ → Furnishes (y a) w₁ flags) :
    Furnishes (x >>= y) w flags := by
  intro hw
  rw [ends_bind]
  refine Ends.mono (hfills.and (h hw)) (fun a w₁ h₁ => ?_) fun _ _ h₁ => h₁.2
  exact Ends.mono (hy a w₁ h₁.1.2 h₁.2.secure) (fun _ _ h₂ => h₁.2.trans h₂)
    fun _ _ h₂ => h₁.2.trans h₂

theorem pure (a : α) : Furnishes (Pure.pure a) w flags := fun hw => .refl hw

/-- Looking at the space first. -/
theorem bindSpace {y : AddressSpace → SpaceM α} (h : Furnishes (y w.space) w flags) :
    Furnishes (SpaceM.space >>= y) w flags := h

/-- Changes of the space that leave its table alone. -/
theorem modifySpace {f : AddressSpace → AddressSpace} (htable : (f w.space).table = w.space.table) :
    Furnishes (SpaceM.modifySpace f) w flags := fun hw => .of_eq hw htable rfl rfl

theorem record (e : Event) : Furnishes (SpaceM.onKernel (Kernel.record e)) w flags :=
  fun hw => .of_eq hw rfl rfl rfl

end Furnishes

namespace AddressSpace

open SpaceM

variable {w : Workspace} {flags : Page → EntryFlags}

theorem furnishes_ensureMapped {p : Page} {f : EntryFlags} (hflags : ¬ w.Maps p → f = flags p) :
    Furnishes (ensureMapped p f) w flags := by
  intro hw
  unfold ensureMapped
  rw [ends_bind, ends_space]
  cases hfind : w.space.table.find? p with
  | some e => exact .refl hw
  | none =>
      have hnew : ¬ w.Maps p := by simp [Workspace.Maps, hfind]
      obtain rfl := hflags hnew
      rw [ends_discard]
      refine Ends.mono (ends_mapZeroed (flags p) hfind) ?_ ?_
      · rintro f _ ⟨a, t, grown, -, taken, inserted, rfl⟩
        have hinstall := Workspace.Provides.install hw taken inserted
        have hquiet := Workspace.Quiet.reportGrowth (w.install p a f t) grown
        exact hinstall.trans (.of_eq hinstall.secure (by rw [hquiet.space]) hquiet.allocator
          hquiet.memory)
      · intro e w' hfails
        cases hfails with
        | exhausted _ => exact .refl hw
        | cramped _ taken back => exact .turnBack hw taken back
        | stranded _ taken stuck => cases (hw.free_taken taken).symm.trans stuck

theorem furnishes_backPagesFrom (r : Region) (hflags : ∀ p ∈ r.pages, flags p = .loading) :
    ∀ (i n : Nat) (h : i + n ≤ r.pageCount) {w : Workspace},
      Furnishes (backPagesFrom r i n h) w flags
  | _, 0, _, _ => Furnishes.pure ()
  | i, n + 1, h, _ => by
      have hpage : r.page i (Region.lt_pageCount h) ∈ r.pages := by
        refine (Region.mem_pagesFrom r _).mpr ?_
        show r.base.index + 0 ≤ r.base.index + i ∧ r.base.index + i < _
        omega
      refine Furnishes.bind (fills_ensureMapped _ _)
        (furnishes_ensureMapped fun _ => (hflags _ hpage).symm) fun _ _ _ => ?_
      exact furnishes_backPagesFrom r hflags (i + 1) n (Region.rest_le_pageCount h)

theorem furnishes_backRegions :
    ∀ (rs : List Region) {w : Workspace}, (∀ r ∈ rs, ∀ p ∈ r.pages, flags p = .loading) →
      Furnishes (backRegions rs) w flags
  | [], _, _ => Furnishes.pure ()
  | r :: rest, _, hflags =>
      Furnishes.bind (fills_backPagesFrom r 0 r.pageCount (by omega))
        (furnishes_backPagesFrom r (hflags r List.mem_cons_self) 0 r.pageCount (by omega))
        fun _ _ _ => furnishes_backRegions rest fun r' hr' => hflags r' (List.mem_cons_of_mem _ hr')

/-- **Preparing provides** pages for loading where there are regions, and for a segment where
there are none. -/
theorem furnishes_prepareLoad : Furnishes prepareLoad w w.space.regions.loadFlags := by
  have hregion : ∀ r ∈ w.space.regions.regions, ∀ p ∈ r.pages,
      w.space.regions.loadFlags p = .loading := fun r hr p hp =>
    if_pos (List.any_eq_true.mpr ⟨r, hr, Region.mem_pages_iff.mp hp⟩)
  unfold prepareLoad
  refine .bind (fills_settle _ true rfl fun _ => rfl) (.modifySpace rfl) fun _ w₁ h₁ =>
    .bindSpace ?_
  rw [h₁.regions]
  refine .bind (fills_backRegions _) (furnishes_backRegions _ hregion) fun _ w₂ h₂ => ?_
  -- a page that has no mapping by now is in no region
  have hother : ∀ {w' : Workspace} {p : Page}, (∀ q, w₂.Maps q → w'.Maps q) → ¬ w'.Maps p →
      .segment = w.space.regions.loadFlags p := by
    intro w' p hmaps hnew
    refine (if_neg fun hany => hnew (hmaps p ((h₂.maps_iff p).mpr (Or.inr ?_)))).symm
    obtain ⟨r, hr, hcovers⟩ := List.any_eq_true.mp hany
    exact List.mem_flatMap.mpr ⟨r, hr, Region.mem_pages_iff.mpr hcovers⟩
  refine .bind (fills_ensureMapped _ _) (furnishes_ensureMapped (hother fun _ hq => hq))
    fun _ w₃ h₃ => ?_
  refine .bind (fills_settle _ _ rfl fun hl => hl) (.modifySpace rfl) fun _ w₄ h₄ => .bindSpace ?_
  have hmaps : ∀ q, w₂.Maps q → w₄.Maps q := fun q hq =>
    (h₄.maps_iff q).mpr (Or.inl ((h₃.maps_iff q).mpr (Or.inl hq)))
  refine .bind (fills_ensureMapped _ _) (furnishes_ensureMapped (hother hmaps)) fun _ w₅ _ => ?_
  exact .bind (fills_settle _ _ rfl fun hl => hl) (.modifySpace rfl) fun _ w₆ _ =>
    .bindSpace (.record _)

/-! ### Counting pages -/

variable {s : AddressSpace} {p : Page}

/-- The pages that are mapped. -/
def mapped (s : AddressSpace) : Finset Page := (s.table.entries.map PageEntry.page).toFinset

/-- **Missing pages**: those that preparing has to map. -/
def missing (s : AddressSpace) : Finset Page := (loadPages s.regions).toFinset \ s.mapped

theorem mem_mapped : p ∈ s.mapped ↔ s.Maps p := by
  rw [mapped, List.mem_toFinset]
  exact PageRow.mem_pages_iff

theorem card_mapped (h : s.table.WellFormed) : s.mapped.card = s.table.entries.length := by
  rw [mapped, List.toFinset_card_of_nodup h.pages, List.length_map]

/-- A page is missing if it is one of a region, or the first of the stack, or the first of the
heap, and has no mapping. -/
theorem mem_missing : p ∈ s.missing ↔
    (s.regions.regions.any (·.covers p) = true ∨ p = initialStackPage ∨
      p = initialHeapPage s.regions) ∧ ¬ s.Maps p := by
  rw [missing, Finset.mem_sdiff, List.mem_toFinset, mem_loadPages_iff, mem_mapped]

end AddressSpace

namespace Workspace

open AddressSpace

variable {w w' : Workspace}

/-- **Adding pages**, for one free frame each: those that were not mapped are as loading begins
with them, and nothing is different about those that were. -/
structure Adds (w : Workspace) (added : Finset Page) (w' : Workspace) : Prop where
  mapped : w'.space.mapped = w.space.mapped ∪ added
  fresh : ∀ p ∈ added, ∃ e, w'.space.table.find? p = some e ∧
    e.flags = w.space.regions.loadFlags p ∧ w'.kernel.memory.contents e.frame = .zero
  kept : ∀ p e, w.space.table.find? p = some e → w'.space.table.find? p = some e ∧
    w'.kernel.memory.contents e.frame = w.kernel.memory.contents e.frame
  cost : w'.kernel.allocator.freeFrames + added.card = w.kernel.allocator.freeFrames

theorem Provides.mapped_subset {flags : Page → EntryFlags} (h : w.Provides flags w') :
    w.space.mapped ⊆ w'.space.mapped := by
  intro p hp
  obtain ⟨e, he⟩ := Option.isSome_iff_exists.mp (mem_mapped.mp hp)
  exact mem_mapped.mpr (Option.isSome_iff_exists.mpr ⟨e, h.kept p e he⟩)

/-- What has been provided are the pages that are mapped now and were not. -/
theorem Provides.adds (h : w.Provides w.space.regions.loadFlags w') (hw : w.IsSecure) :
    w.Adds (w'.space.mapped \ w.space.mapped) w' := by
  have hsubset := h.mapped_subset
  refine ⟨(Finset.union_sdiff_of_subset hsubset).symm, fun p hp => ?_, fun p e he => ?_, ?_⟩
  · rw [Finset.mem_sdiff, mem_mapped, mem_mapped] at hp
    obtain ⟨e, he⟩ := Option.isSome_iff_exists.mp hp.1
    exact ⟨e, he, h.fresh p e he hp.2⟩
  · exact ⟨h.kept p e he, h.bytes _ (List.mem_map_of_mem (PageRow.mem_of_find? he).1)⟩
  · have hcost := h.cost
    have hle := Finset.card_le_card hsubset
    rw [← card_mapped hw.table, ← card_mapped h.secure.table] at hcost
    rw [Finset.card_sdiff_of_subset hsubset]
    omega

/-- All that was missing has been mapped. -/
theorem mapped_sdiff_of_filled (h : Filled (loadPages w.space.regions) w w') :
    w'.space.mapped \ w.space.mapped = w.space.missing := by
  ext p
  have hmaps : w'.space.Maps p ↔ w.space.Maps p ∨ p ∈ loadPages w.space.regions := h.maps_iff p
  rw [missing, Finset.mem_sdiff, Finset.mem_sdiff, List.mem_toFinset, mem_mapped, mem_mapped, hmaps]
  tauto

/-- A part of what was missing has been mapped. -/
theorem mapped_sdiff_of_starved (hkept : w.space.mapped ⊆ w'.space.mapped) {e : Abort}
    (h : Starved (loadPages w.space.regions) w e w') :
    w'.space.mapped \ w.space.mapped ⊂ w.space.missing := by
  have hsubset : w'.space.mapped \ w.space.mapped ⊆ w.space.missing := by
    intro p hp
    rw [Finset.mem_sdiff, mem_mapped, mem_mapped] at hp
    rw [missing, Finset.mem_sdiff, List.mem_toFinset, mem_mapped]
    exact ⟨(h.maps p hp.1).resolve_left hp.2, hp.2⟩
  obtain ⟨p, hp, hmissing⟩ := h.missing
  have hnot : p ∉ w'.space.mapped := fun hmem => hmissing (mem_mapped.mp hmem)
  refine (Finset.ssubset_iff_of_subset hsubset).mpr ⟨p, ?_, fun hmem => ?_⟩
  · rw [missing, Finset.mem_sdiff, List.mem_toFinset]
    exact ⟨hp, fun hmem => hnot (hkept hmem)⟩
  · exact hnot (Finset.mem_sdiff.mp hmem).1

/-! ### Room for pages -/

/-- **Room for so many pages more**: whenever the table would be full before that, the heap grants
the room that it grows to. -/
def HasRoomFor (w : Workspace) (n : Nat) : Prop :=
  ∀ i, PageRow.grownCapacity^[i] w.space.table.capacity < w.space.table.entries.length + n →
    w.kernel.heap[i]? ≠ some false

/-- A generous heap has room for any number of pages. -/
theorem HasRoomFor.of_generous (h : w.kernel.IsGenerous) (n : Nat) : w.HasRoomFor n :=
  fun _ _ hrefused => Bool.false_ne_true (h false (List.mem_of_getElem? hrefused))

/-- Where the table need not grow, the heap has no say. -/
theorem HasRoomFor.of_capacity {n : Nat}
    (h : w.space.table.entries.length + n ≤ w.space.table.capacity) : w.HasRoomFor n := by
  intro i hi
  have hgrown := PageRow.le_iterate_grownCapacity i w.space.table.capacity
  omega

/-- There was room for the pages that there are now. -/
theorem Widens.hasRoomFor {n extra : Nat} (h : w.Widens n w')
    (hlength : w'.space.table.entries.length = w.space.table.entries.length + extra) :
    w.HasRoomFor extra := by
  intro i hi
  have hfits := w'.space.table.length_entries_le_capacity
  rw [hlength, h.capacity] at hfits
  refine h.granted i (Nat.lt_of_not_le fun hle => ?_)
  have hgrown := PageRow.le_iterate_grownCapacity (i - n)
    (PageRow.grownCapacity^[n] w.space.table.capacity)
  rw [← Function.iterate_add_apply, Nat.sub_add_cancel hle] at hgrown
  omega

/-- A cramped table has fewer pages than there is no room for. -/
theorem Cramped.not_hasRoomFor {n extra : Nat} (h : w.Cramped n w')
    (hlength : w'.space.table.entries.length < w.space.table.entries.length + extra) :
    ¬ w.HasRoomFor extra := by
  intro hroom
  rw [h.full, h.capacity] at hlength
  exact hroom n hlength h.refused

/-! ### How preparing ends -/

/-- **Preparing takes what is missing.**  It answers if and only if there is a frame and room for
each missing page.  Then it has added all of them, and stack and heap are one page each.  Otherwise
memory runs out: either it has added as many missing pages as there were frames and none is left,
or there was no room, and the page table is full. -/
structure PreparesExactly (w : Workspace) : Prop where
  ok_iff : (∃ w', prepareLoad w = .ok () w') ↔
    w.space.missing.card ≤ w.kernel.allocator.freeFrames ∧ w.HasRoomFor w.space.missing.card
  ends : Ends prepareLoad w
    (fun _ w' => w.Adds w.space.missing w' ∧
      w'.space.bounds = ⟨initialStackPage, initialStackPage, initialHeapPage w.space.regions,
        initialHeapPage w.space.regions⟩)
    fun e w' => e = .failed .outOfMemory ∧ ∃ added, added ⊂ w.space.missing ∧ w.Adds added w' ∧
      (w'.kernel.allocator.freeFrames = 0 ∧ added.card = w.kernel.allocator.freeFrames ∨
        ¬ w.HasRoomFor w.space.missing.card ∧ ∃ n, w.Cramped n w')
  /-- With room for the pages, it is the frames that decide. -/
  roomy : w.HasRoomFor w.space.missing.card →
    ((∃ w', prepareLoad w = .ok () w') ↔
      w.space.missing.card ≤ w.kernel.allocator.freeFrames) ∧
    Ends prepareLoad w (fun _ _ => True) fun e w' =>
      e = .failed .outOfMemory ∧ w'.kernel.allocator.freeFrames = 0 ∧
      ∃ added ⊆ w.space.missing, added.card = w.kernel.allocator.freeFrames ∧ w.Adds added w'

/-- How many pages there are once some have been added. -/
theorem Adds.length_eq {added : Finset Page} (h : w.Adds added w')
    (hnew : added ⊆ w.space.missing) (hw : w.IsSecure) (hw' : w'.IsSecure) :
    w'.space.table.entries.length = w.space.table.entries.length + added.card := by
  rw [← card_mapped hw.table, ← card_mapped hw'.table, h.mapped]
  refine Finset.card_union_of_disjoint (Finset.disjoint_right.mpr fun p hp hold => ?_)
  exact (mem_missing.mp (hnew hp)).2 (mem_mapped.mp hold)

/-- How preparing a secure workspace ends. -/
theorem IsSecure.ends_prepareLoad (h : w.IsSecure) :
    Ends prepareLoad w
      (fun _ w' => (w.Adds w.space.missing w' ∧
        w'.space.bounds = ⟨initialStackPage, initialStackPage, initialHeapPage w.space.regions,
          initialHeapPage w.space.regions⟩) ∧ w.HasRoomFor w.space.missing.card)
      fun e w' => e = .failed .outOfMemory ∧ ∃ added, added ⊂ w.space.missing ∧ w.Adds added w' ∧
        (w'.kernel.allocator.freeFrames = 0 ∧ added.card = w.kernel.allocator.freeFrames ∨
          ¬ w.HasRoomFor w.space.missing.card ∧ ∃ n, w.Cramped n w') := by
  refine Ends.mono ((walks_prepareLoad.and ends_prepareLoad_bounds).and (furnishes_prepareLoad h))
    ?_ ?_
  · rintro _ w' ⟨⟨⟨-, hfilled, -⟩, hbounds⟩, hprovides⟩
    have hadds : w.Adds w.space.missing w' := mapped_sdiff_of_filled hfilled ▸ hprovides.adds h
    obtain ⟨n, hwidens⟩ := hfilled.widens
    have hlength := hadds.length_eq Finset.Subset.rfl h hprovides.secure
    exact ⟨⟨hadds, hbounds⟩, hwidens.hasRoomFor hlength⟩
  · rintro e w' ⟨⟨⟨-, -, hstarved⟩, -⟩, hprovides⟩
    obtain ⟨m, ledger, hsource, -⟩ := hprovides.secure.follows
    have hbuilt : w'.kernel.allocator.isInitialized = true := by
      rw [Allocator.isInitialized, hsource]
    have hadds := hprovides.adds h
    have hfewer := mapped_sdiff_of_starved hprovides.mapped_subset hstarved
    have hcramped : ∀ n, w.Cramped n w' → ¬ w.HasRoomFor w.space.missing.card := by
      intro n cramped
      have hlength := hadds.length_eq hfewer.subset h hprovides.secure
      have hcard := Finset.card_lt_card hfewer
      exact cramped.not_hasRoomFor (by omega)
    refine ⟨hstarved.shortage.of_built hbuilt, _, hfewer, hadds, ?_⟩
    cases hstarved.shortage with
    | frames exhausted =>
        have hnone := hprovides.secure.freeFrames_of_exhausted exhausted
        refine Or.inl ⟨hnone, ?_⟩
        rw [← hadds.cost, hnone, Nat.zero_add]
    | room cramped => exact Or.inr ⟨hcramped _ cramped, _, cramped⟩
    | stranded cramped _ => exact Or.inr ⟨hcramped _ cramped, _, cramped⟩

theorem IsSecure.preparesExactly (h : w.IsSecure) : w.PreparesExactly := by
  have hends := h.ends_prepareLoad
  have hok : (∃ w', prepareLoad w = .ok () w') ↔
      w.space.missing.card ≤ w.kernel.allocator.freeFrames ∧
        w.HasRoomFor w.space.missing.card := by
    constructor
    · rintro ⟨w', hok⟩
      obtain ⟨⟨hadds, -⟩, hroom⟩ := hends.of_ok hok
      have hcost := hadds.cost
      exact ⟨by omega, hroom⟩
    · rintro ⟨henough, hroom⟩
      cases hrun : prepareLoad w with
      | ok _ w' => exact ⟨w', rfl⟩
      | error e w' =>
          -- one of the missing pages is missing still, and all frames went to the others
          obtain ⟨-, added, hadded, -, ⟨-, hall⟩ | ⟨hcramped, -⟩⟩ := hends.of_error hrun
          · have hfewer := Finset.card_lt_card hadded
            omega
          · exact absurd hroom hcramped
  refine ⟨hok, Ends.mono hends (fun _ _ h' => h'.1) fun _ _ h' => h', fun hroom => ⟨?_, ?_⟩⟩
  · rw [hok, and_iff_left hroom]
  · refine Ends.mono hends (fun _ _ _ => trivial) ?_
    rintro e w' ⟨he, added, hadded, hadds, ⟨hnone, hall⟩ | ⟨hcramped, -⟩⟩
    · exact ⟨he, hnone, added, hadded.subset, hall, hadds⟩
    · exact absurd hroom hcramped

end Workspace

/-- **Over a map every space is secure**, whether its frames have been stolen or not. -/
theorem Tenure.isSecure {H : Holdings} (h : Tenure H)
    (built : H.kernel.allocator.isInitialized = true) {s : AddressSpace} (hs : s ∈ H.live) :
    Workspace.IsSecure ⟨H.kernel, s⟩ := by
  cases hsource : H.kernel.allocator.source with
  | booting boot => simp [Allocator.isInitialized, hsource] at built
  | mapped m =>
      obtain ⟨ledger, stolen, hsplit, hfollows, homits⟩ := h.granted.mapped m hsource
      refine ⟨⟨m, ledger, hsource, hfollows⟩, h.tables s hs, h.nodup_frames hs,
        fun f hf hfree => ?_⟩
      have hblock : (⟨f, 1⟩ : Block) ∈ mappedBlocks H.live ++ H.held :=
        List.mem_append_left _ (List.mem_flatMap.mpr ⟨s, hs, List.mem_map_of_mem hf⟩)
      rw [Allocator.state?_mapped hsource] at hfree
      exact h.granted.not_free hsource hblock (Block.holds_head Nat.one_pos) hfree

namespace History

variable {h : History} {rs : List Request} {s : AddressSpace}

/-- **Preparing takes what is missing**, once the frame map is built, in any space of any machine
that has been running since it was blank, whatever its heap answers: with or without pages that
faults have brought in, before or after the map was built, or that were mapped when preparing
failed. -/
theorem run_prepares_exactly {m : Machine} (blank : m.IsBlank) (run : Run ⟨m, []⟩ rs h)
    (built : h.machine.kernel.allocator.isInitialized = true) (hs : s ∈ h.machine.live) :
    Workspace.PreparesExactly ⟨h.machine.kernel, s⟩ :=
  ((run.tenure blank).isSecure built hs).preparesExactly

/-- Two regions of three pages share two, and a fault has brought one of these in while booting. -/
theorem exists_overlapping_sixteen_frames :
    ∃ rs h s, Run ⟨bootingSixteenFrames, []⟩ rs h ∧ s ∈ h.machine.live ∧
      s.missing = {⟨1, by decide⟩, ⟨3, by decide⟩, ⟨4, by decide⟩, initialStackPage,
        ⟨5, by decide⟩} ∧
      h.machine.kernel.allocator.isInitialized = true ∧
      h.machine.kernel.allocator.freeFrames = 12 ∧ h.machine.kernel.heap = [] := by
  have booting : Run ⟨bootingSixteenFrames, []⟩ _ _ :=
    (((Run.start.next .createSpace trivial (by decide +kernel)).next
      (.space (.space 0) (.declareRegion ⟨0x1000, by decide⟩ 0x3000 ⟨true, true, false⟩))
        trivial (by decide +kernel)).next
      (.space (.space 0) (.declareRegion ⟨0x2000, by decide⟩ 0x3000 ⟨true, true, false⟩))
        trivial (by decide +kernel)).next
      (.fault (.owner (.space 0)) .write ⟨0x2004, by decide⟩) trivial (by decide +kernel)
  have run : Run ⟨bootingSixteenFrames, []⟩ _ _ :=
    booting.next (.frames (.bootstrap sixteenFramesLayout none)) trivial (by decide +kernel)
  obtain ⟨rs, h, s, run, hs, hfacts⟩ := run.exists_space
    (fun h s => decide (s.missing = {⟨1, by decide⟩, ⟨3, by decide⟩, ⟨4, by decide⟩,
      initialStackPage, ⟨5, by decide⟩} ∧ h.machine.kernel.allocator.isInitialized = true ∧
      h.machine.kernel.allocator.freeFrames = 12 ∧ h.machine.kernel.heap = []))
    (by decide +kernel)
  exact ⟨rs, h, s, run, hs, of_decide_eq_true hfacts⟩

/-- Preparing sixty-five pages stops short of the last, with thirty frames left. -/
theorem exists_short_of_room :
    ∃ rs h s e w', Run ⟨narrowHeap, []⟩ rs h ∧ s ∈ h.machine.live ∧
      h.machine.kernel.allocator.isInitialized = true ∧
      h.machine.kernel.allocator.freeFrames = 94 ∧
      AddressSpace.prepareLoad ⟨h.machine.kernel, s⟩ = .error e w' ∧
      w'.kernel.allocator.freeFrames = 30 := by
  obtain ⟨rs, declared⟩ := run_sixtyFivePages
  obtain ⟨rs, h, s, run, hs, hfacts⟩ := declared.exists_space
    (fun h s => decide (h.machine.kernel.allocator.isInitialized = true ∧
      h.machine.kernel.allocator.freeFrames = 94) &&
      aborts AddressSpace.prepareLoad ⟨h.machine.kernel, s⟩
        (fun _ w' => decide (w'.kernel.allocator.freeFrames = 30)))
    (by decide +kernel)
  obtain ⟨hstart, haborts⟩ := Bool.and_eq_true_iff.mp hfacts
  obtain ⟨built, hfree⟩ := of_decide_eq_true hstart
  obtain ⟨e, w', hrun, hleft⟩ := exists_of_aborts haborts
  exact ⟨rs, h, s, e, w', run, hs, built, hfree, hrun, of_decide_eq_true hleft⟩

/-- Five pages are missing, and there are twelve free frames.  And sixty-five pages of a region are
missing, for which there are frames but no room: sixty-four are mapped, and the thirty other frames
are free. -/
theorem run_prepares_exactly_with_and_without_room :
    (∃ rs h s w', Run ⟨bootingSixteenFrames, []⟩ rs h ∧ s ∈ h.machine.live ∧
      s.missing = {⟨1, by decide⟩, ⟨3, by decide⟩, ⟨4, by decide⟩, initialStackPage,
        ⟨5, by decide⟩} ∧
      AddressSpace.prepareLoad ⟨h.machine.kernel, s⟩ = .ok () w' ∧
      w'.kernel.allocator.freeFrames = 7) ∧
    ∃ rs h s w' added, Run ⟨narrowHeap, []⟩ rs h ∧ s ∈ h.machine.live ∧
      AddressSpace.prepareLoad ⟨h.machine.kernel, s⟩ = .error (.failed .outOfMemory) w' ∧
      w'.kernel.allocator.freeFrames = 30 ∧ added ⊂ s.missing ∧ added.card = 64 ∧
      Workspace.Adds ⟨h.machine.kernel, s⟩ added w' ∧
      ¬ Workspace.HasRoomFor ⟨h.machine.kernel, s⟩ s.missing.card := by
  constructor
  · obtain ⟨rs, h, s, run, hs, hmissing, built, hfree, hheap⟩ := exists_overlapping_sixteen_frames
    have hexactly := run_prepares_exactly isBlank_bootingSixteenFrames run built hs
    have hcard : s.missing.card = 5 := by
      rw [hmissing]
      decide +kernel
    have hroom : Workspace.HasRoomFor ⟨h.machine.kernel, s⟩ s.missing.card :=
      .of_generous (.of_heap_eq_nil hheap) _
    obtain ⟨w', hok⟩ := (hexactly.roomy hroom).1.mpr (by
      rw [hcard, hfree]
      decide)
    have hcost := (hexactly.ends.of_ok hok).1.cost
    rw [hcard, hfree] at hcost
    exact ⟨rs, h, s, w', run, hs, hmissing, hok, by omega⟩
  · obtain ⟨rs, h, s, e, w', run, hs, built, hfree, hrun, hleft⟩ := exists_short_of_room
    have hexactly := run_prepares_exactly isFresh_narrowHeap.isBlank run built hs
    obtain ⟨rfl, added, hadded, hadds, hwhy⟩ := hexactly.ends.of_error hrun
    have hcost := hadds.cost
    rw [hleft, hfree] at hcost
    rcases hwhy with ⟨hnone, -⟩ | ⟨hcramped, -⟩
    · omega
    · exact ⟨rs, h, s, w', added, run, hs, hrun, hleft, hadded, by omega, hadds, hcramped⟩

end History

end DemandPaging
