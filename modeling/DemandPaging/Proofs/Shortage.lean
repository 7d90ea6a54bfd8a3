import DemandPaging.Proofs.Stages

/-!
# Preparing without enough frames

Preparing a load may run out of frames at any page.  What has been mapped stays mapped, the space
counts as loaded from then on, and the bounds are left where they were when the frames ran out:
unset, or those of the stack without those of the heap (`AddressSpace.Halfway`).

**Growth does not wait.**  Whether stack and heap may grow is decided by `loaded` alone, and bounds
that were never set read as page zero.  Without any bounds the stack seems to be page zero; with
those of the stack only, the heap seems to start at page zero and to reach up to the stack.  So
there is more that a fault may touch than the declared regions: page zero in the one case, and
everything up to the top of the stack in the other (`AddressSpace.starved_coverage`).

**Until it is prepared.**  Nothing but another preparation can change which of the two it is.  All
else that may happen to a space keeps the two outer bounds.
-/

namespace DemandPaging

/-! ### Bounds that were not set -/

namespace Bounds

variable {b : Bounds} {p : Page}

/-- The bounds once the stack is set up. -/
def withStack (b : Bounds) : Bounds :=
  { b with stackLow := initialStackPage, stackHigh := initialStackPage }

/-- **Short**: no bounds have been set, or none of the heap. -/
def IsShort (b : Bounds) : Prop :=
  b = .unset ∨ (b.heapLow = .zero ∧ b.stackHigh = initialStackPage ∧ b.IsApart)

theorem isShort_unset : unset.IsShort := Or.inl rfl

/-- Setting up the stack leaves the heap below it. -/
theorem IsShort.withStack (h : b.IsShort) : b.withStack.IsShort := by
  refine Or.inr ?_
  rcases h with rfl | ⟨hlow, hhigh, hapart⟩
  · exact ⟨rfl, rfl, by decide, by decide, by decide⟩
  · refine ⟨hlow, rfl, hapart.heap, ?_, Nat.le_refl _⟩
    calc b.heapHigh.index < b.stackLow.index := hapart.gap
      _ ≤ b.stackHigh.index := hapart.stack
      _ = initialStackPage.index := congrArg Page.index hhigh

/-- Only bounds of the stack leave a gap, and claiming a page of it keeps the outer bounds. -/
theorem IsShort.claim (h : b.IsShort) (hp : b.InGap p) : (b.claim p).IsShort := by
  rcases h with rfl | ⟨hlow, hhigh, hapart⟩
  · exact absurd (Nat.lt_trans hp.1 hp.2) (Nat.lt_irrefl 0)
  · obtain ⟨hclaimed, hwidens, -⟩ := hapart.claim hp
    exact Or.inr ⟨hwidens.heapLow.trans hlow, hwidens.stackHigh.trans hhigh, hclaimed⟩

/-- **What short bounds cover**: every page up to the end of the stack. -/
theorem IsShort.growthCoverage_eq_none_iff (h : b.IsShort) :
    AddressSpace.growthCoverage b p = none ↔ b.stackHigh.index < p.index := by
  rcases h with rfl | ⟨hlow, -, hapart⟩
  · show AddressSpace.growthCoverage ⟨.zero, .zero, .zero, .zero⟩ p = none ↔ 0 < p.index
    unfold AddressSpace.growthCoverage
    rcases Nat.eq_zero_or_pos p.index with hzero | hpos
    · simp [hzero, Page.zero]
    · simp [Page.zero, Nat.ne_of_gt hpos, hpos]
  · rw [AddressSpace.growthCoverage_eq_none_iff hapart, hlow]
    exact or_iff_right (Nat.not_lt_zero _)

end Bounds

namespace AddressSpace

open SpaceM

variable {s s' s₀ s₁ : AddressSpace} {w : Workspace} {a : VirtAddr}

/-! ### Where preparing stops -/

/-- The pages that are mapped before the bounds of the stack are set. -/
def firstPages (l : RegionList) : List Page := l.regions.flatMap Region.pages ++ [initialStackPage]

/-- **Half-way**: a page that comes before the bounds is missing, and these are what they were; or
the stack is set up and only the first page of the heap is missing. -/
inductive Halfway (s s' : AddressSpace) : Prop where
  | early (bounds : s'.bounds = s.bounds) (missing : ∃ p ∈ firstPages s.regions, ¬ s'.Maps p)
  | late (bounds : s'.bounds = s.bounds.withStack) (mapped : ∀ p ∈ firstPages s.regions, s'.Maps p)
      (missing : ¬ s'.Maps (initialHeapPage s.regions))

/-- Mapping page after page leaves everything else about the space alone, however it ends. -/
theorem ends_fill {α : Type} {x : SpaceM α} {ps : List Page} (hfills : Fills x w ps)
    (hshape : RetainsShape x) :
    Ends x w (fun _ w' => Filled ps w w' ∧ w.Grows w' ∧ w'.space.shape = w.space.shape)
      fun e w' => Starved ps w e w' ∧ w.Grows w' ∧ w'.space.shape = w.space.shape :=
  Ends.mono (hfills.and (hshape w)) (fun _ _ h => ⟨h.1.2, h.1.1.grows, h.2⟩)
    fun _ _ h => ⟨h.1.2.2, h.1.1.grows, h.2⟩

/-- **A preparation that fails** does so half-way. -/
theorem ends_prepareLoad_halfway :
    Ends prepareLoad w (fun _ _ => True) fun _ w' =>
      w'.space.loaded = true ∧ Halfway w.space w'.space := by
  unfold prepareLoad
  simp only [ends_bind, ends_modifySpace, ends_space]
  refine Ends.mono (ends_fill (fills_backRegions _) (retainsShape_backRegions _)) ?_ ?_
  · rintro _ w₁ ⟨hfilled₁, hgrows₁, hshape₁⟩
    refine Ends.mono (ends_fill (fills_ensureMapped _ _) (retainsShape_ensureMapped _ _)) ?_ ?_
    · rintro _ w₂ ⟨hfilled₂, hgrows₂, hshape₂⟩
      have hregions : w₂.space.regions = w.space.regions :=
        congrArg Prod.fst (hshape₂.trans hshape₁)
      have hbounds : w₂.space.bounds = w.space.bounds := congrArg Prod.snd (hshape₂.trans hshape₁)
      have hfilled := hfilled₁.append hfilled₂
      -- from here on the stack is set up
      refine Ends.mono (ends_fill (fills_ensureMapped _ _) (retainsShape_ensureMapped _ _)) ?_ ?_
      · rintro _ w₃ -
        simp only [liftM_eq, ends_onKernel, Kernel.ends_record]
      · rintro e w₃ ⟨hstarved, hgrows₃, hshape₃⟩
        refine ⟨hgrows₃.loaded (hgrows₂.loaded (hgrows₁.loaded rfl)), ?_⟩
        refine .late ?_ (fun p hp => ?_) ?_
        · refine (congrArg Prod.snd hshape₃).trans ?_
          rw [← hbounds]
          rfl
        · exact hgrows₃.maps ((hfilled.maps_iff p).mpr (Or.inr hp))
        · obtain ⟨p, hp, hmissing⟩ := hstarved.missing
          rw [hregions, List.mem_singleton] at hp
          exact hp ▸ hmissing
    · rintro e w₂ ⟨hstarved, hgrows₂, hshape₂⟩
      exact ⟨hgrows₂.loaded (hgrows₁.loaded rfl),
        .early (congrArg Prod.snd (hshape₂.trans hshape₁)) (hstarved.after hfilled₁).missing⟩
  · rintro e w₁ ⟨hstarved, hgrows₁, hshape₁⟩
    exact ⟨hgrows₁.loaded rfl,
      .early (congrArg Prod.snd hshape₁) (hstarved.before [initialStackPage]).missing⟩

/-- A space that is prepared has no page left to run out of frames at. -/
theorem IsPrepared.not_starved (h : s.IsPrepared) {k k' : Kernel} {e : Abort} :
    prepareLoad ⟨k, s⟩ ≠ .error e ⟨k', s'⟩ := by
  intro herror
  obtain ⟨hpath, -, hstarved⟩ := walks_prepareLoad.of_error herror
  obtain ⟨p, hp, hmissing⟩ := hstarved.missing
  exact hmissing (hpath.grows.maps (h.2 p hp))

/-! ### Until it is prepared -/

/-- A change moves the bounds to a page of the gap at most. -/
theorem Change.bounds_cases (h : Change s s') :
    s'.bounds = s.bounds ∨ ∃ p, s.bounds.InGap p ∧ s'.bounds = s.bounds.claim p := by
  cases h with
  | kept regions loaded bounds maps_iff => exact Or.inl bounds
  | declared fresh r changed =>
      subst changed
      exact Or.inl rfl
  | gained a c gains =>
      rcases gains.cases with ⟨hsame, -⟩ | ⟨-, hgap, hclaim⟩
      · exact Or.inl hsame
      · exact Or.inr ⟨a.page, hgap, hclaim⟩
  | copied regions loaded bounds maps_iff => exact Or.inl bounds

theorem Change.isShort (h : Change s s') (hs : s.bounds.IsShort) : s'.bounds.IsShort := by
  rcases h.bounds_cases with hsame | ⟨p, hgap, hclaim⟩
  · rw [hsame]
    exact hs
  · rw [hclaim]
    exact hs.claim hgap

/-- A preparation that fails leaves short bounds short. -/
theorem isShort_of_starved {k k' : Kernel} {e : Abort}
    (starved : prepareLoad ⟨k, s⟩ = .error e ⟨k', s'⟩) (hs : s.bounds.IsShort) :
    s'.bounds.IsShort := by
  obtain ⟨-, hhalfway⟩ := ends_prepareLoad_halfway.of_error starved
  cases hhalfway with
  | early bounds missing =>
      rw [show s'.bounds = s.bounds from bounds]
      exact hs
  | late bounds mapped missing =>
      rw [show s'.bounds = s.bounds.withStack from bounds]
      exact hs.withStack

/-- No change takes a mapping away, or a region, once the space is prepared. -/
theorem Change.isPrepared (h : Change s s') (hs : s.IsPrepared) : s'.IsPrepared := by
  have hkeeps : s'.regions = s.regions → s'.loaded = s.loaded → (∀ p, s.Maps p → s'.Maps p) →
      s'.IsPrepared := fun regions loaded maps =>
    ⟨loaded.trans hs.1, fun p hp => maps p (hs.2 p (regions ▸ hp))⟩
  cases h with
  | kept regions loaded bounds maps_iff =>
      exact hkeeps regions loaded fun p hp => (maps_iff p).mpr hp
  | declared fresh r changed => exact absurd (fresh.symm.trans hs.1) Bool.false_ne_true
  | gained a c gains =>
      exact hkeeps gains.regions gains.loaded fun p hp => (gains.maps_iff p).mpr (Or.inl hp)
  | copied regions loaded bounds maps_iff =>
      refine hkeeps regions loaded fun p hp => (maps_iff p).mpr ?_
      exact List.mem_append_right _ (PageRow.mem_pages_iff.mpr hp)

/-- **A reachable space is prepared, or its bounds are short.** -/
theorem IsReachable.prepared_or_short (h : s.IsReachable) : s.IsPrepared ∨ s.bounds.IsShort := by
  refine h.invariant (P := fun s => s.IsPrepared ∨ s.bounds.IsShort)
    (fun _ => Or.inr Bounds.isShort_unset) fun s s' hs hshift => ?_
  cases hshift with
  | changed change => exact hs.imp change.isPrepared change.isShort
  | prepared prepared => exact Or.inl (walks_prepareLoad.of_ok prepared).2.2
  | starved starved =>
      refine Or.inr (isShort_of_starved starved ?_)
      exact hs.resolve_left fun hprepared => hprepared.not_starved starved

/-- **Waiting**: anything may happen to a space, but for a preparation that succeeds. -/
inductive Wait (s s' : AddressSpace) : Prop where
  | stepped (step : Step s s')
  | refused {k k' : Kernel} {r : SpaceRequest} {e : Abort}
      (refused : Machine.answerSpace r ⟨k, s⟩ = .error e ⟨k', s'⟩)

/-- After any amount of waiting. -/
def Waits : AddressSpace → AddressSpace → Prop := Relation.ReflTransGen Wait

/-- **Half loaded**: loaded, and with short bounds. -/
def IsHalfLoaded (s : AddressSpace) : Prop := s.loaded = true ∧ s.bounds.IsShort

namespace IsHalfLoaded

/-- A load that is refused by a loaded space was refused by its preparation, or before it. -/
theorem ends_load (h : w.space.IsHalfLoaded) (segments : List Segment) :
    Ends (Program.load segments) w (fun _ _ => True) fun _ w' => w'.space.IsHalfLoaded := by
  unfold Program.load
  cases segments with
  | nil =>
      -- no region is declared, so the preparation comes first
      unfold Program.declareAll
      rw [ends_bind, ends_pure, ends_bind]
      refine Ends.mono (ends_self prepareLoad w) (fun _ w₁ _ => ?_) fun e w₁ herror => ?_
      · trivial
      · exact ⟨(ends_prepareLoad_halfway.of_error herror).1, isShort_of_starved herror h.2⟩
  | cons g rest =>
      rw [ends_bind]
      unfold Program.declareAll declareRegion
      simp only [liftM_eq, ends_bind, ends_space, ends_onKernel, ends_ite, Kernel.ends_halt]
      rw [if_pos h.1]
      exact h

theorem change (h : s.IsHalfLoaded) (hchange : Change s s') : s'.IsHalfLoaded := by
  refine ⟨?_, hchange.isShort h.2⟩
  cases hchange with
  | kept regions loaded bounds maps_iff => exact loaded.trans h.1
  | declared fresh r changed => exact absurd (fresh.symm.trans h.1) Bool.false_ne_true
  | gained a c gains => exact gains.loaded.trans h.1
  | copied regions loaded bounds maps_iff => exact loaded.trans h.1

/-- **Waiting does not help.** -/
theorem wait (h : s.IsHalfLoaded) (hwait : Wait s s') : s'.IsHalfLoaded := by
  cases hwait with
  | stepped step => exact h.change step.change
  | @refused k k' r e refused =>
      by_cases hordinary : r.isOrdinary = true
      · exact h.change ((ends_answerSpace_change hordinary).of_error refused)
      · cases r with
        | prepareLoad =>
            have hends : Ends (Machine.answerSpace .prepareLoad) ⟨k, s⟩ (fun _ _ => True)
                fun _ w' => w'.space.IsHalfLoaded := by
              unfold Machine.answerSpace
              rw [ends_bind]
              refine Ends.mono (ends_self prepareLoad _) (fun _ _ _ => trivial)
                fun e w' herror => ?_
              exact ⟨(ends_prepareLoad_halfway.of_error herror).1, isShort_of_starved herror h.2⟩
            exact hends.of_error refused
        | load segments =>
            have hends : Ends (Machine.answerSpace (.load segments)) ⟨k, s⟩ (fun _ _ => True)
                fun _ w' => w'.space.IsHalfLoaded := by
              unfold Machine.answerSpace
              rw [ends_bind]
              exact Ends.mono (ends_load (w := ⟨k, s⟩) h segments) (fun _ _ _ => trivial)
                fun _ _ h' => h'
            exact hends.of_error refused
        | _ => exact absurd rfl hordinary

theorem waits (h : s.IsHalfLoaded) (hwaits : Waits s s') : s'.IsHalfLoaded := by
  induction hwaits with
  | refl => exact h
  | tail _ hwait ih => exact ih.wait hwait

/-- **What is covered**: the regions, and everything up to the end of the stack. -/
theorem coverage_eq_none_iff (h : s.IsHalfLoaded) (a : VirtAddr) : s.coverage a = none ↔
    (∀ r ∈ s.regions.regions, r.contains a = false) ∧ s.bounds.stackHigh.index < a.page.index := by
  rw [← h.2.growthCoverage_eq_none_iff]
  exact coverage_eq_none_iff_of_loaded h.1 a

end IsHalfLoaded

/-- A fault where nothing is covered is not resolved, and leaves the space as it is. -/
theorem fault_of_uncovered (hnone : s.coverage a = none) {k k' : Kernel} {access : Access}
    {r : Except MemoryError Unit}
    (handled : PageFault.handle access a (.within s) k = .ok (r, .within s') k') :
    r ≠ .ok () ∧ s' = s := by
  obtain ⟨w₁, hhandling, -⟩ := (PageFault.handles_of_eq handled).handling
  constructor
  · rintro rfl
    obtain ⟨c, -, hcovered, -⟩ := hhandling.cached
    cases hnone.symm.trans hcovered
  · rcases PageFault.space_cases_of_eq handled with hsame | ⟨c, hgains⟩
    · exact hsame
    · cases hnone.symm.trans hgains.covered

/-- **After a preparation that failed.**  Let anything happen to a new space, let preparing it run
out of frames, wherever that is, and let anything happen afterwards, to the space or to copies of
it, but a preparation that succeeds.  The failure left the bounds as they were, for want of a page
of a region or of the stack, or it set up the stack and lacked the first page of the heap only.
Ever since, either there are no bounds, or the heap starts at page zero and the stack ends where it
always does.  An address is not covered exactly if it is in no region and above the end of the
stack, and no fault at such an address is resolved or does anything to the space. -/
theorem starved_coverage {k k' : Kernel} (before : s₀.IsReachable)
    (starved : prepareLoad ⟨k, s₀⟩ = .error (.failed .outOfMemory) ⟨k', s₁⟩)
    (later : Waits s₁ s) :
    Halfway s₀ s₁ ∧ s.bounds.IsShort ∧
    (∀ a, s.coverage a = none ↔ (∀ r ∈ s.regions.regions, r.contains a = false) ∧
      s.bounds.stackHigh.index < a.page.index) ∧
    ∀ access a k r s' k', PageFault.handle access a (.within s) k = .ok (r, .within s') k' →
      (∀ r ∈ s.regions.regions, r.contains a = false) →
      s.bounds.stackHigh.index < a.page.index → r ≠ .ok () ∧ s' = s := by
  have hshort : s₀.bounds.IsShort :=
    before.prepared_or_short.resolve_left fun hprepared => hprepared.not_starved starved
  obtain ⟨hloaded, hhalfway⟩ := ends_prepareLoad_halfway.of_error starved
  have hhalf : s₁.IsHalfLoaded := ⟨hloaded, isShort_of_starved starved hshort⟩
  have hlater := hhalf.waits later
  refine ⟨hhalfway, hlater.2, hlater.coverage_eq_none_iff, ?_⟩
  intro access a k r s' k' handled hnone habove
  exact fault_of_uncovered ((hlater.coverage_eq_none_iff a).mpr ⟨hnone, habove⟩) handled

/-- A preparation that fails over sixteen frames, of which thirteen are free: a region of twelve
pages and the stack take them all.  With frames again, a fault beyond the region moves the heap
there; above the stack nothing is covered. -/
theorem starved_coverage_sixteen_frames :
    ∃ s₀ s₁ s k k', s₀.IsReachable ∧
      prepareLoad ⟨k, s₀⟩ = .error (.failed .outOfMemory) ⟨k', s₁⟩ ∧ Waits s₁ s ∧
      s.bounds = ⟨initialStackPage, initialStackPage, .zero, ⟨0x20, by decide⟩⟩ ∧
      s.coverage ⟨0x8, by decide⟩ ≠ none ∧ s.coverage ⟨0x700000000000, by decide⟩ = none := by
  have hrun : answers (Machine.answerSpace
      (.declareRegion ⟨0x1000, by decide⟩ 0xc000 ⟨true, true, false⟩))
      ⟨History.sixteenFrames.kernel, .new 1⟩ (fun _ w => aborts prepareLoad w fun e w₁ =>
        decide (e = .failed .outOfMemory) &&
        answers (PageFault.handle .write ⟨0x20000, by decide⟩ (.within w₁.space))
          History.sixteenFrames.kernel fun p _ => p.2.passes fun s =>
            decide (s.bounds = ⟨initialStackPage, initialStackPage, .zero, ⟨0x20, by decide⟩⟩ ∧
              s.regions.regions.all (fun r => !r.contains ⟨0x700000000000, by decide⟩) =
                true)) = true := by decide +kernel
  obtain ⟨reply, w, hdeclared, hrun⟩ := exists_of_answers hrun
  obtain ⟨e, w₁, hstarved, hrun⟩ := exists_of_aborts hrun
  obtain ⟨he, hrun⟩ := Bool.and_eq_true_iff.mp hrun
  obtain rfl : e = .failed .outOfMemory := of_decide_eq_true he
  obtain ⟨r, s, k, hk, -⟩ :=
    PageFault.exists_handles .write ⟨0x20000, by decide⟩ w₁.space
      (k := History.sixteenFrames.kernel) (by decide +kernel)
  obtain ⟨hbounds, hregions⟩ := of_decide_eq_true (test_of_answers hrun hk)
  have before : w.space.IsReachable :=
    (isReachable_new 1).stage (.asked (Or.inl ⟨reply, hdeclared⟩))
  have later : Waits w₁.space s := .single (.stepped (.faulted hk))
  obtain ⟨-, -, hcoverage, -⟩ := starved_coverage before hstarved later
  refine ⟨w.space, w₁.space, s, w.kernel, w₁.kernel, before, hstarved, later, hbounds, ?_, ?_⟩
  · intro hnone
    obtain ⟨-, habove⟩ := (hcoverage _).mp hnone
    rw [hbounds] at habove
    exact absurd habove (by decide)
  · refine (hcoverage _).mpr ⟨fun r hr => ?_, ?_⟩
    · simpa using List.all_eq_true.mp hregions r hr
    · rw [hbounds]
      decide

/-- **Not every failed preparation leaves the regions alone to be covered.**  After the same one
page zero is covered, although the region starts above it. -/
theorem not_forall_starved_uncovered :
    ¬ ∀ (s s' : AddressSpace) (k k' : Kernel), s.IsReachable →
      prepareLoad ⟨k, s⟩ = .error (.failed .outOfMemory) ⟨k', s'⟩ →
      ∀ a, s'.coverage a ≠ none → ∃ r ∈ s'.regions.regions, r.contains a = true := by
  intro hall
  have hrun : answers (Machine.answerSpace
      (.declareRegion ⟨0x1000, by decide⟩ 0xc000 ⟨true, true, false⟩))
      ⟨History.sixteenFrames.kernel, .new 1⟩ (fun _ w => aborts prepareLoad w fun e w₁ =>
        decide (e = .failed .outOfMemory ∧ w₁.space.coverage ⟨0x8, by decide⟩ ≠ none ∧
          w₁.space.regions.regions.any (·.contains ⟨0x8, by decide⟩) = false)) = true := by
    decide +kernel
  obtain ⟨reply, w, hdeclared, hrun⟩ := exists_of_answers hrun
  obtain ⟨e, w₁, hstarved, hrun⟩ := exists_of_aborts hrun
  obtain ⟨rfl, hcovered, houtside⟩ := of_decide_eq_true hrun
  have before : w.space.IsReachable :=
    (isReachable_new 1).stage (.asked (Or.inl ⟨reply, hdeclared⟩))
  obtain ⟨r, hr, hcontains⟩ := hall w.space w₁.space w.kernel w₁.kernel before hstarved _ hcovered
  exact Bool.false_ne_true (houtside.symm.trans (List.any_eq_true.mpr ⟨r, hr, hcontains⟩))

end AddressSpace

end DemandPaging
