import DemandPaging.Proofs.Atomicity
import DemandPaging.Proofs.Duplication
import DemandPaging.Proofs.Separation

/-!
# The gap between stack and heap

Stack and heap grow towards each other, by jumps of any size, each time a fault brings in a page of
the gap between them.  Through all that happens to a space after its load has been prepared, its
faults, what is asked of it and its copies, they stay apart; what is mapped lies within them or in a
region; and nothing but such a page ever moves a bound (`AddressSpace.grows_within_gap`).

**One step at a time.**  There are three kinds of steps, and what they can do to the regions, the
bounds and the set of mapped pages is one of four things (`AddressSpace.Change`).  Before the load
is prepared and after it, a space has an invariant of its own, and each is kept by every change.

**Whatever the kernel does in between.**  Steps of a space are seen one by one, and each may start
from any kernel at all: with other frames, another cache, and any number of other spaces.
-/

namespace DemandPaging

/-! ### Bounds that are apart -/

namespace Bounds

variable {b b' b'' : Bounds} {p : Page}

/-- The page lies strictly between heap and stack. -/
def InGap (b : Bounds) (p : Page) : Prop :=
  b.heapHigh.index < p.index ∧ p.index < b.stackLow.index

/-- The page lies within heap or stack. -/
def Spans (b : Bounds) (p : Page) : Prop :=
  (b.heapLow.index ≤ p.index ∧ p.index ≤ b.heapHigh.index) ∨
    (b.stackLow.index ≤ p.index ∧ p.index ≤ b.stackHigh.index)

/-- The bounds once a page of the gap belongs to whichever end is nearer, on a tie to the stack. -/
def claim (b : Bounds) (p : Page) : Bounds :=
  if b.stackLow.index - p.index ≤ p.index - b.heapHigh.index then { b with stackLow := p }
  else { b with heapHigh := p }

/-- **Apart**: heap and stack are there, and the heap is below the stack. -/
structure IsApart (b : Bounds) : Prop where
  heap : b.heapLow.index ≤ b.heapHigh.index
  gap : b.heapHigh.index < b.stackLow.index
  stack : b.stackLow.index ≤ b.stackHigh.index

/-- **Widening**: the outer bounds stay, the inner ones move towards each other at most. -/
structure Widens (b b' : Bounds) : Prop where
  heapLow : b'.heapLow = b.heapLow
  stackHigh : b'.stackHigh = b.stackHigh
  heapHigh : b.heapHigh.index ≤ b'.heapHigh.index
  stackLow : b'.stackLow.index ≤ b.stackLow.index

theorem Widens.refl (b : Bounds) : b.Widens b := ⟨rfl, rfl, Nat.le_refl _, Nat.le_refl _⟩

theorem Widens.trans (h : b.Widens b') (h' : b'.Widens b'') : b.Widens b'' where
  heapLow := h'.heapLow.trans h.heapLow
  stackHigh := h'.stackHigh.trans h.stackHigh
  heapHigh := Nat.le_trans h.heapHigh h'.heapHigh
  stackLow := Nat.le_trans h'.stackLow h.stackLow

/-- What was within heap or stack stays there. -/
theorem Widens.spans (h : b.Widens b') (hp : b.Spans p) : b'.Spans p := by
  unfold Spans at hp ⊢
  rw [h.heapLow, h.stackHigh]
  have hheap := h.heapHigh
  have hstack := h.stackLow
  omega

/-- **Claiming a page of the gap** leaves the bounds apart, and widens them to the page. -/
theorem IsApart.claim (h : b.IsApart) (hp : b.InGap p) :
    (b.claim p).IsApart ∧ b.Widens (b.claim p) ∧ (b.claim p).Spans p := by
  obtain ⟨habove, hbelow⟩ := hp
  have hheap : b.heapLow.index ≤ p.index := Nat.le_trans h.heap (Nat.le_of_lt habove)
  have hstack : p.index ≤ b.stackHigh.index := Nat.le_trans (Nat.le_of_lt hbelow) h.stack
  unfold Bounds.claim
  split
  · refine ⟨⟨h.heap, habove, hstack⟩, ⟨rfl, rfl, Nat.le_refl _, Nat.le_of_lt hbelow⟩, ?_⟩
    exact Or.inr ⟨Nat.le_refl _, hstack⟩
  · refine ⟨⟨hheap, hbelow, h.stack⟩, ⟨rfl, rfl, Nat.le_of_lt habove, Nat.le_refl _⟩, ?_⟩
    exact Or.inl ⟨hheap, Nat.le_refl _⟩

end Bounds

/-- Whether the request loads nothing. -/
def SpaceRequest.isOrdinary : SpaceRequest → Bool
  | .prepareLoad => false
  | .load _ => false
  | _ => true

namespace AddressSpace

variable {s s' : AddressSpace} {a : VirtAddr} {c : Coverage} {p : Page}

/-- Stack and heap cover what is not outside of both. -/
theorem growthCoverage_eq_none_iff {b : Bounds} (h : b.IsApart) :
    growthCoverage b p = none ↔ p.index < b.heapLow.index ∨ b.stackHigh.index < p.index := by
  have hheap := h.heap
  have hgap := h.gap
  have hstack := h.stack
  unfold growthCoverage
  split
  · simp only [reduceCtorEq, false_iff]
    omega
  · split
    · simp only [reduceCtorEq, false_iff]
      omega
    · split
      · split <;> (simp only [reduceCtorEq, false_iff]; omega)
      · simp only [true_iff]
        omega

/-- Once a space is loaded, not covered is what is in no region, and neither for stack nor heap. -/
theorem coverage_eq_none_iff_of_loaded (hloaded : s.loaded = true) (a : VirtAddr) :
    s.coverage a = none ↔
      (∀ r ∈ s.regions.regions, r.contains a = false) ∧ growthCoverage s.bounds a.page = none := by
  unfold coverage RegionList.find?
  cases hfind : s.regions.regions.find? (·.contains a) with
  | some r =>
      have hcontains : r.contains a = true := by simpa using List.find?_some hfind
      simp only [reduceCtorEq, false_iff]
      rintro ⟨hnone, -⟩
      exact absurd ((hnone r (List.mem_of_find?_eq_some hfind)).symm.trans hcontains)
        Bool.false_ne_true
  | none =>
      have hnone : ∀ r ∈ s.regions.regions, r.contains a = false := by
        simpa using List.find?_eq_none.mp hfind
      simp only [hloaded, if_true]
      exact (and_iff_right hnone).symm

/-- **Growing to a page** claims it from the gap, or changes nothing as the page lies within. -/
theorem grow_cases (hc : growthCoverage s.bounds p = some c) :
    s.bounds.InGap p ∧ (s.grow p c).bounds = s.bounds.claim p ∨
      s.bounds.Spans p ∧ (s.grow p c).bounds = s.bounds := by
  unfold growthCoverage at hc
  split at hc
  · next hin =>
      obtain rfl := Option.some.inj hc
      refine Or.inr ⟨Or.inr hin, ?_⟩
      rw [grow, if_neg (Nat.not_lt.mpr hin.1)]
  · split at hc
    · next hin =>
        obtain rfl := Option.some.inj hc
        refine Or.inr ⟨Or.inl hin, ?_⟩
        rw [grow, if_neg (Nat.not_lt.mpr hin.2)]
    · split at hc
      · next hgap =>
          refine Or.inl ⟨hgap, ?_⟩
          unfold Bounds.claim
          split at hc
          · next hnear =>
              obtain rfl := Option.some.inj hc
              rw [if_pos hnear, grow, if_pos hgap.2]
          · next hfar =>
              obtain rfl := Option.some.inj hc
              rw [if_neg hfar, grow, if_pos hgap.1]
      · cases hc

/-! ### What happens to a space -/

/-- The page has a mapping. -/
def Maps (s : AddressSpace) (p : Page) : Prop := (s.table.find? p).isSome = true

/-- **Gaining a page**: a covered page has been mapped, and stack or heap have grown to it. -/
structure Gains (a : VirtAddr) (c : Coverage) (s s' : AddressSpace) : Prop where
  covered : s.coverage a = some c
  unmapped : ¬ s.Maps a.page
  maps_iff : ∀ p, s'.Maps p ↔ s.Maps p ∨ p = a.page
  regions : s'.regions = s.regions
  loaded : s'.loaded = s.loaded
  bounds : s'.bounds = (s.grow a.page c).bounds

/-- **Steps** of a space: a fault within it, a request about it other than to load, or going on as
its copy.  The requests may fail. -/
inductive Step : AddressSpace → AddressSpace → Prop where
  | faulted {s s' : AddressSpace} {k k' : Kernel} {access : Access} {a : VirtAddr}
      {r : Except MemoryError Unit}
      (handled : PageFault.handle access a (.within s) k = .ok (r, .within s') k') : Step s s'
  | asked {s s' : AddressSpace} {k k' : Kernel} {r : SpaceRequest} (ordinary : r.isOrdinary = true)
      (answered : (∃ reply, Machine.answerSpace r ⟨k, s⟩ = .ok reply ⟨k', s'⟩) ∨
        ∃ e, Machine.answerSpace r ⟨k, s⟩ = .error e ⟨k', s'⟩) : Step s s'
  | copied {s s' : AddressSpace} {k k' : Kernel} (duplicated : s.duplicate k = .ok s' k') :
      Step s s'

/-- **Later**: after any number of steps. -/
def Later : AddressSpace → AddressSpace → Prop := Relation.ReflTransGen Step

/-- **Changes**: what a step can do to regions, bounds and mapped pages. -/
inductive Change (s s' : AddressSpace) : Prop where
  | kept (regions : s'.regions = s.regions) (loaded : s'.loaded = s.loaded)
      (bounds : s'.bounds = s.bounds) (maps_iff : ∀ p, s'.Maps p ↔ s.Maps p)
  | declared (fresh : s.loaded = false) (r : Region)
      (changed : s' = { s with regions := s.regions.push r })
  | gained (a : VirtAddr) (c : Coverage) (gains : Gains a c s s')
  | copied (regions : s'.regions = s.regions) (loaded : s'.loaded = s.loaded)
      (bounds : s'.bounds = s.bounds) (maps_iff : ∀ p, s'.Maps p ↔ p ∈ copiedPages s)

theorem Change.refl (s : AddressSpace) : Change s s := .kept rfl rfl rfl fun _ => Iff.rfl

end AddressSpace

namespace PageFault

variable {access : Access} {a : VirtAddr} {w w₁ : Workspace} {r : Except MemoryError Unit}

/-- **A fault** leaves the space as it is, or the space gains the page. -/
theorem Handling.space_cases (h : Handling access a w r w₁) :
    w₁.space = w.space ∨ ∃ c, AddressSpace.Gains a c w.space w₁.space := by
  have hbacking : ∀ {c : Coverage} {e : PageEntry} {w₂ : Workspace},
      w.space.coverage a = some c → Backing a c w e w₂ →
      w₂.space = w.space ∨ ∃ c, AddressSpace.Gains a c w.space w₂.space := by
    intro c e w₂ covered backing
    have hfind := backing.find?
    obtain ⟨-, hregions, hloaded, -⟩ := backing.same
    cases backing with
    | found mapped => exact Or.inl rfl
    | @made f rest t grown unmapped room taken inserted =>
        refine Or.inr ⟨c, covered, ?_, fun p => ?_, hregions, hloaded, ?_⟩
        · simp [AddressSpace.Maps, unmapped]
        · unfold AddressSpace.Maps
          rw [hfind p]
          split
          · next hp => simp [hp]
          · next hp => simp [Ne.symm hp]
        · exact AddressSpace.bounds_grow_congr (s := (w.install a.page rest f t).space)
            (t := w.space) rfl a.page c
  cases h with
  | refused _ => exact Or.inl rfl
  | resolved _ resolution =>
      cases resolution with
      | uncovered _ => exact Or.inl rfl
      | forbidden _ _ => exact Or.inl rfl
      | starved _ _ _ _ => exact Or.inl rfl
      | cramped _ _ _ _ _ _ => exact Or.inl rfl
      | full covered backing _ _ => exact hbacking covered backing
      | @cached c e w₂ slot cache covered backing _ _ =>
          show w₂.space = w.space ∨ ∃ c, AddressSpace.Gains a c w.space w₂.space
          exact hbacking covered backing

/-- The same of a fault that has been answered. -/
theorem space_cases_of_eq {s s' : AddressSpace} {k k' : Kernel}
    (answered : handle access a (.within s) k = .ok (r, .within s') k') :
    s' = s ∨ ∃ c, AddressSpace.Gains a c s s' := by
  obtain ⟨w₁, hhandling, hquiet⟩ := (handles_of_eq answered).handling
  have hspace : s' = w₁.space := hquiet.space
  rw [hspace]
  exact hhandling.space_cases

end PageFault

namespace AddressSpace

variable {s s' : AddressSpace} {a : VirtAddr} {c : Coverage} {p : Page}

open SpaceM

/-- **Ordinary requests** declare a region at most. -/
theorem ends_answerSpace_change {r : SpaceRequest} (ordinary : r.isOrdinary = true)
    {w : Workspace} :
    Ends (Machine.answerSpace r) w (fun _ w' => Change w.space w'.space)
      fun _ w' => Change w.space w'.space := by
  cases r with
  | declareRegion a size permission =>
      unfold Machine.answerSpace declareRegion
      simp only [liftM_eq, ends_bind, ends_space, ends_onKernel, ends_ite, Kernel.ends_halt,
        Kernel.ends_orFail, Kernel.ends_record, Kernel.ends_claim, ends_modifySpace, ends_pure]
      split
      · exact .refl _
      · next hfresh =>
          cases Region.declare a size permission with
          | error e => exact .refl _
          | ok r =>
              dsimp only
              split
              · exact .declared (Bool.eq_false_iff.mpr hfresh) r rfl
              · exact .refl _
  | completeLoad =>
      refine .kept rfl rfl rfl fun p => ?_
      unfold Maps completeLoad
      rw [find?_applyPermissions, Option.isSome_map]
  | read a count =>
      unfold Machine.answerSpace
      simp only [ends_bind, ends_space, ends_get]
      split
      · exact .refl _
      · exact .refl _
  | write a bytes =>
      unfold Machine.answerSpace
      simp only [liftM_eq, ends_bind, ends_space, ends_onKernel, ends_pure]
      unfold Ends
      split
      · exact .refl _
      · exact .refl _
  | prepareLoad => cases ordinary
  | load segments => cases ordinary
  | _ => exact .refl _

/-- **A copy** has the regions and the bounds of its source, and the pages of the source and of its
load. -/
theorem ends_duplicate_change {k : Kernel} :
    Ends s.duplicate k (fun copy _ => Change s copy) fun _ _ => True := by
  unfold duplicate Kernel.freshSpace
  refine Kernel.ends_claim_bind (fun _ => ?_) fun _ => trivial
  refine Kernel.ends_claim_bind (fun heap => ?_) fun _ => trivial
  simp only [ends_bind, ends_modifyGet]
  rw [SpaceM.ends_attempt]
  refine Ends.mono (walks_copyFrom (w := s.workspace { k with heap }) s rfl rfl) ?_ ?_
  · rintro _ w ⟨-, hcopy⟩
    simp only [ends_bind, Kernel.ends_record, ends_pure]
    refine .copied hcopy.filled.regions hcopy.loaded hcopy.bounds fun p => ?_
    exact (hcopy.filled.maps_iff p).trans (or_iff_right (not_maps_workspace p))
  · rintro e w -
    cases e with
    | failed e => exact Ends.last fun _ _ => Ends.last fun _ _ => trivial
    | halted h => trivial

/-- **Every step is a change.** -/
theorem Step.change (h : Step s s') : Change s s' := by
  cases h with
  | faulted handled =>
      rcases PageFault.space_cases_of_eq handled with rfl | ⟨c, hgains⟩
      · exact .refl _
      · exact .gained _ c hgains
  | asked ordinary answered =>
      rcases answered with ⟨reply, hok⟩ | ⟨e, herror⟩
      · exact (ends_answerSpace_change ordinary).of_ok hok
      · exact (ends_answerSpace_change ordinary).of_error herror
  | copied duplicated => exact ends_duplicate_change.of_ok duplicated

/-! ### What every step keeps -/

theorem any_covers_of_contains {r : Region} (hr : r ∈ s.regions.regions)
    (h : r.contains a = true) : s.regions.regions.any (·.covers a.page) = true :=
  List.any_eq_true.mpr ⟨r, hr, r.contains_eq_covers a ▸ h⟩

/-- **Not loaded yet**: what is mapped lies in regions. -/
structure IsOpen (s : AddressSpace) : Prop where
  fresh : s.loaded = false
  mapped : ∀ p, s.Maps p → s.regions.regions.any (·.covers p) = true

theorem isOpen_new (id : SpaceId) : (new id).IsOpen := by
  refine ⟨rfl, fun p hp => ?_⟩
  unfold Maps at hp
  simp [new, PageRow.find?_eq_entries_find?] at hp

theorem IsOpen.change (h : s.IsOpen) (hchange : Change s s') : s'.IsOpen := by
  cases hchange with
  | kept regions loaded bounds maps_iff =>
      exact ⟨loaded.trans h.fresh, fun p hp => regions ▸ h.mapped p ((maps_iff p).mp hp)⟩
  | declared fresh r changed =>
      subst changed
      refine ⟨h.fresh, fun p hp => ?_⟩
      rw [RegionList.regions_push, List.any_append, h.mapped p hp, Bool.true_or]
  | gained a c gains =>
      refine ⟨gains.loaded.trans h.fresh, fun p hp => ?_⟩
      rw [gains.regions]
      rcases (gains.maps_iff p).mp hp with hold | rfl
      · exact h.mapped p hold
      · rcases coverage_cases gains.covered with ⟨r, hr, hcontains, -⟩ | ⟨-, hloaded, -⟩
        · exact any_covers_of_contains hr hcontains
        · exact absurd (h.fresh.symm.trans hloaded) Bool.false_ne_true
  | copied regions loaded bounds maps_iff =>
      refine ⟨loaded.trans h.fresh, fun p hp => ?_⟩
      have hready : s.loaded = true → s.IsPrepared := fun hloaded =>
        absurd (h.fresh.symm.trans hloaded) Bool.false_ne_true
      rw [regions]
      exact h.mapped p ((mem_copiedPages_iff hready p).mp ((maps_iff p).mp hp))

theorem IsOpen.later (h : s.IsOpen) (hlater : Later s s') : s'.IsOpen := by
  induction hlater with
  | refl => exact h
  | tail _ hstep ih => exact ih.change hstep.change

/-- **Spread**: the load is prepared, stack and heap are apart and still end where they started, and
what is mapped lies within them or in a region. -/
structure IsSpread (s : AddressSpace) : Prop where
  loaded : s.loaded = true
  apart : s.bounds.IsApart
  stackHigh : s.bounds.stackHigh = initialStackPage
  heapLow : s.bounds.heapLow = initialHeapPage s.regions
  mapped : ∀ p, s.Maps p → s.regions.regions.any (·.covers p) = true ∨ s.bounds.Spans p

/-- **Preparing the load** of a space leaves it spread, if it leaves heap and stack apart. -/
theorem IsOpen.spread (h : s.IsOpen) {k k' : Kernel}
    (prepared : prepareLoad ⟨k, s⟩ = .ok () ⟨k', s'⟩)
    (apart : s'.bounds.heapHigh.index < s'.bounds.stackLow.index) : s'.IsSpread := by
  obtain ⟨-, hfilled, hloaded, -⟩ := walks_prepareLoad.of_ok prepared
  have hbounds := ends_prepareLoad_bounds.of_ok prepared
  have hregions : s'.regions = s.regions := hfilled.regions
  change s'.bounds = ⟨_, _, initialHeapPage s.regions, initialHeapPage s.regions⟩ at hbounds
  rw [← hregions] at hbounds
  refine ⟨hloaded, ?_, by rw [hbounds], by rw [hbounds], fun p hp => ?_⟩
  · rw [hbounds] at apart ⊢
    exact ⟨Nat.le_refl _, apart, Nat.le_refl _⟩
  · rcases (hfilled.maps_iff p).mp hp with hold | hload
    · rw [hregions]
      exact Or.inl (h.mapped p hold)
    · have hpages := mem_loadPages_iff.mp hload
      rw [← hregions] at hpages
      rw [hbounds]
      rcases hpages with hcovers | rfl | rfl
      · exact Or.inl hcovers
      · exact Or.inr (Or.inr ⟨Nat.le_refl _, Nat.le_refl _⟩)
      · exact Or.inr (Or.inl ⟨Nat.le_refl _, Nat.le_refl _⟩)

/-- **A page gained** from the gap moves one bound, any other page none. -/
theorem Gains.cases (h : Gains a c s s') :
    s'.bounds = s.bounds ∧
        ((∃ r ∈ s.regions.regions, r.contains a = true) ∨ s.bounds.Spans a.page) ∨
      (∀ r ∈ s.regions.regions, r.contains a = false) ∧ s.bounds.InGap a.page ∧
        s'.bounds = s.bounds.claim a.page := by
  rw [h.bounds]
  rcases coverage_cases h.covered with ⟨r, hr, hcontains, rfl⟩ | ⟨hnone, -, hgrowth⟩
  · exact Or.inl ⟨rfl, Or.inl ⟨r, hr, hcontains⟩⟩
  · rcases grow_cases hgrowth with ⟨hgap, hclaim⟩ | ⟨hspans, hsame⟩
    · exact Or.inr ⟨hnone, hgap, hclaim⟩
    · exact Or.inl ⟨hsame, Or.inr hspans⟩

/-- **What a change keeps** of a spread space, widening its bounds at most. -/
theorem IsSpread.change (h : s.IsSpread) (hchange : Change s s') :
    s'.IsSpread ∧ s.bounds.Widens s'.bounds := by
  -- any change that moves the bounds apart at most, and maps what then lies within
  have hkeeps : s'.regions = s.regions → s'.loaded = s.loaded → s'.bounds.IsApart →
      s.bounds.Widens s'.bounds →
      (∀ p, s'.Maps p → s.Maps p ∨ s.regions.regions.any (·.covers p) = true ∨
        s'.bounds.Spans p) → s'.IsSpread ∧ s.bounds.Widens s'.bounds := by
    intro regions loaded apart widens maps
    refine ⟨⟨loaded.trans h.loaded, apart, widens.stackHigh.trans h.stackHigh, ?_, fun p hp => ?_⟩,
      widens⟩
    · rw [widens.heapLow, h.heapLow, regions]
    · rw [regions]
      rcases maps p hp with hold | hnew
      · exact (h.mapped p hold).imp_right widens.spans
      · exact hnew
  cases hchange with
  | kept regions loaded bounds maps_iff =>
      refine hkeeps regions loaded (bounds ▸ h.apart) (bounds ▸ .refl _) fun p hp => ?_
      exact Or.inl ((maps_iff p).mp hp)
  | declared fresh r changed => exact absurd (fresh.symm.trans h.loaded) Bool.false_ne_true
  | gained a c gains =>
      obtain ⟨bounds, hin⟩ | ⟨-, hgap, bounds⟩ := gains.cases
      · refine hkeeps gains.regions gains.loaded (bounds ▸ h.apart) (bounds ▸ .refl _)
          fun p hp => ?_
        rw [bounds]
        refine ((gains.maps_iff p).mp hp).imp_right ?_
        rintro rfl
        exact hin.imp_left fun ⟨r, hr, hcontains⟩ => any_covers_of_contains hr hcontains
      · obtain ⟨hapart, hwidens, hspans⟩ := h.apart.claim hgap
        rw [← bounds] at hapart hwidens hspans
        refine hkeeps gains.regions gains.loaded hapart hwidens fun p hp => ?_
        refine ((gains.maps_iff p).mp hp).imp_right ?_
        rintro rfl
        exact Or.inr hspans
  | copied regions loaded bounds maps_iff =>
      refine hkeeps regions loaded (bounds ▸ h.apart) (bounds ▸ .refl _) fun p hp => ?_
      rw [bounds]
      have hpages := (maps_iff p).mp hp
      unfold copiedPages replayedPages at hpages
      rw [if_pos h.loaded, List.mem_append, mem_loadPages_iff, PageRow.mem_pages_iff] at hpages
      rcases hpages with (hcovers | rfl | rfl) | hold
      · exact Or.inr (Or.inl hcovers)
      · refine Or.inr (Or.inr (Or.inr ?_))
        rw [← h.stackHigh]
        exact ⟨h.apart.stack, Nat.le_refl _⟩
      · refine Or.inr (Or.inr (Or.inl ?_))
        rw [← h.heapLow]
        exact ⟨Nat.le_refl _, h.apart.heap⟩
      · exact Or.inl hold

/-- **What steps keep**, by induction on them. -/
theorem IsSpread.later (h : s.IsSpread) (hlater : Later s s') :
    s'.IsSpread ∧ s.bounds.Widens s'.bounds := by
  induction hlater with
  | refl => exact ⟨h, .refl _⟩
  | tail _ hstep ih =>
      obtain ⟨hspread, hwidens⟩ := ih.1.change hstep.change
      exact ⟨hspread, ih.2.trans hwidens⟩

/-! ### What can be said of a spread space -/

theorem start_lt_userSpaceEnd_iff : p.start.val < userSpaceEnd ↔ p.index < userPageCount :=
  Nat.mul_lt_mul_right (b := p.index) (c := userPageCount) (by decide : 0 < 4096)

namespace IsSpread

/-- The gap is covered, and so are stack and heap. -/
theorem coverage_eq_none_iff (h : s.IsSpread) (a : VirtAddr) : s.coverage a = none ↔
    (∀ r ∈ s.regions.regions, r.contains a = false) ∧
      (a.page.index < s.bounds.heapLow.index ∨ s.bounds.stackHigh.index < a.page.index) := by
  rw [← growthCoverage_eq_none_iff h.apart]
  exact coverage_eq_none_iff_of_loaded h.loaded a

/-- Stack and heap end below the end of user space. -/
theorem stackHigh_lt (h : s.IsSpread) : s.bounds.stackHigh.index < userPageCount := by
  rw [h.stackHigh]
  decide

/-- And so does all that is mapped. -/
theorem index_lt (h : s.IsSpread) (hp : s.Maps p) : p.index < userPageCount := by
  have htop := h.stackHigh_lt
  have hgap := h.apart.gap
  have hstack := h.apart.stack
  rcases h.mapped p hp with hcovers | hheap | hwithin
  · obtain ⟨r, hr, hcovers⟩ := List.any_eq_true.mp hcovers
    have hhalf := r.inUserHalf
    simp only [Region.covers, decide_eq_true_eq] at hcovers
    exact Nat.lt_of_lt_of_le hcovers.2 hhalf
  · exact Nat.lt_of_le_of_lt (by omega) htop
  · exact Nat.lt_of_le_of_lt hwithin.2 htop

/-- **Faults and bounds.**  A fault that maps a page of the gap, in no region, claims it; any other
fault moves no bound. -/
theorem fault (h : s.IsSpread) {k k' : Kernel} {access : Access} {r : Except MemoryError Unit}
    (handled : PageFault.handle access a (.within s) k = .ok (r, .within s') k') :
    (¬ s.Maps a.page → s'.Maps a.page → s.bounds.InGap a.page →
      (∀ r ∈ s.regions.regions, r.contains a = false) → s'.bounds = s.bounds.claim a.page) ∧
    (¬ (¬ s.Maps a.page ∧ s'.Maps a.page ∧ s.bounds.InGap a.page ∧
      ∀ r ∈ s.regions.regions, r.contains a = false) → s'.bounds = s.bounds) := by
  rcases PageFault.space_cases_of_eq handled with rfl | ⟨c, hgains⟩
  · exact ⟨fun hunmapped hmapped => absurd hmapped hunmapped, fun _ => rfl⟩
  · obtain ⟨hsame, hin⟩ | ⟨hnone, hgap, hclaim⟩ := hgains.cases
    · refine ⟨fun _ _ hgap hnone => ?_, fun _ => hsame⟩
      -- neither a region nor stack and heap have pages of the gap in them
      rcases hin with ⟨r, hr, hcontains⟩ | hspans
      · exact absurd ((hnone r hr).symm.trans hcontains) Bool.false_ne_true
      · obtain ⟨habove, hbelow⟩ := hgap
        unfold Bounds.Spans at hspans
        omega
    · refine ⟨fun _ _ _ _ => hclaim, fun hnot => absurd ?_ hnot⟩
      exact ⟨hgains.unmapped, (hgains.maps_iff a.page).mpr (Or.inr rfl), hgap, hnone⟩

end IsSpread

/-- **Growing within the gap.**  Let anything happen to a new space before its load is prepared,
let the preparation succeed and leave the heap below the stack, and let anything happen afterwards,
to the space or to copies of it, but a second preparation.  Then stack and heap still are apart,
with the same outer bounds and inner bounds that have moved towards each other at most, and do so
with every step to come; all four are addresses of pages below the end of user space.  What is
mapped lies below that end too, in a region or within stack or heap.  An address is not covered
exactly if it is in no region and below the heap or above the stack.  And a fault moves a bound
exactly if it maps a page of the gap that is in no region: one bound, to this page. -/
theorem grows_within_gap {id : SpaceId} {s₁ s₀ s : AddressSpace} {k k' : Kernel}
    (before : Later (.new id) s₁) (prepared : prepareLoad ⟨k, s₁⟩ = .ok () ⟨k', s₀⟩)
    (apart : s₀.bounds.heapHigh.index < s₀.bounds.stackLow.index) (later : Later s₀ s) :
    s.bounds.heapHigh.index < s.bounds.stackLow.index ∧ s₀.bounds.Widens s.bounds ∧
    (∀ s', Step s s' → s.bounds.Widens s'.bounds) ∧
    (∀ p ∈ [s.bounds.heapLow, s.bounds.heapHigh, s.bounds.stackLow, s.bounds.stackHigh],
      p.start.val % pageSize = 0 ∧ p.start.val < userSpaceEnd) ∧
    (∀ p, s.Maps p → p.start.val < userSpaceEnd ∧
      ((∃ r ∈ s.regions.regions, r.covers p = true) ∨ s.bounds.Spans p)) ∧
    (∀ a, s.coverage a = none ↔ (∀ r ∈ s.regions.regions, r.contains a = false) ∧
      (a.page.index < s.bounds.heapLow.index ∨ s.bounds.stackHigh.index < a.page.index)) ∧
    ∀ access a k r s' k', PageFault.handle access a (.within s) k = .ok (r, .within s') k' →
      (¬ s.Maps a.page → s'.Maps a.page → s.bounds.InGap a.page →
        (∀ r ∈ s.regions.regions, r.contains a = false) → s'.bounds = s.bounds.claim a.page) ∧
      (¬ (¬ s.Maps a.page ∧ s'.Maps a.page ∧ s.bounds.InGap a.page ∧
        ∀ r ∈ s.regions.regions, r.contains a = false) → s'.bounds = s.bounds) := by
  obtain ⟨hspread, hwidens⟩ := (((isOpen_new id).later before).spread prepared apart).later later
  have htop := hspread.stackHigh_lt
  have hheap := hspread.apart.heap
  have hgap := hspread.apart.gap
  have hstack := hspread.apart.stack
  refine ⟨hgap, hwidens, fun s' hstep => (hspread.change hstep.change).2, fun p hp => ?_,
    fun p hp => ⟨start_lt_userSpaceEnd_iff.mpr (hspread.index_lt hp), ?_⟩,
    hspread.coverage_eq_none_iff, fun _ _ _ _ _ _ => hspread.fault⟩
  · refine ⟨Nat.mul_mod_left _ _, start_lt_userSpaceEnd_iff.mpr (Nat.lt_of_le_of_lt ?_ htop)⟩
    simp only [List.mem_cons, List.not_mem_nil, or_false] at hp
    rcases hp with rfl | rfl | rfl | rfl <;> omega
  · exact (hspread.mapped p hp).imp_left List.any_eq_true.mp

/-- Growing over sixteen frames: a copy of a space whose load has been prepared writes to an address
far up in the gap, and its stack reaches down to it. -/
theorem grows_within_gap_sixteen_frames :
    ∃ s₁ s₀ s s' k k', Later (.new 1) s₁ ∧ prepareLoad ⟨k, s₁⟩ = .ok () ⟨k', s₀⟩ ∧ Later s₀ s ∧
      Step s s' ∧ s.bounds.heapHigh.index = 0x401 ∧ s.bounds.stackLow = initialStackPage ∧
      s'.bounds = { s.bounds with stackLow := ⟨0x600000000, by decide⟩ } ∧
      s.bounds.Widens s'.bounds := by
  have hrun : answers (Machine.answerSpace
      (.declareRegion ⟨0x400000, by decide⟩ 0x1000 ⟨true, true, false⟩))
      ⟨History.sixteenFrames.kernel, .new 1⟩ (fun _ w => answers prepareLoad w fun _ w₀ =>
        decide (w₀.space.bounds.heapHigh.index < w₀.space.bounds.stackLow.index) &&
        answers w₀.space.duplicate w₀.kernel fun s k =>
          decide (s.bounds.heapHigh.index = 0x401 ∧ s.bounds.stackLow = initialStackPage ∧
            s.table.find? ⟨0x600000000, by decide⟩ = none ∧ k.allocator.isInitialized = true ∧
            ∀ r ∈ s.regions.regions, r.contains ⟨0x600000000123, by decide⟩ = false) &&
          answers (PageFault.handle .write ⟨0x600000000123, by decide⟩ (.within s)) k fun p _ =>
            decide (p.1 = .ok ())) = true := by decide +kernel
  obtain ⟨reply, w, hdeclared, hrun⟩ := exists_of_answers hrun
  obtain ⟨_, w₀, hprepared, hrun⟩ := exists_of_answers hrun
  obtain ⟨hapart, hrun⟩ := Bool.and_eq_true_iff.mp hrun
  obtain ⟨s, k, hcopied, hrun⟩ := exists_of_answers hrun
  obtain ⟨hcopy, hok⟩ := Bool.and_eq_true_iff.mp hrun
  obtain ⟨hheap, hstack, hfresh, hbuilt, hnone⟩ := of_decide_eq_true hcopy
  obtain ⟨r, s', k', hk, hhandles⟩ :=
    PageFault.exists_handles .write ⟨0x600000000123, by decide⟩ s hbuilt
  obtain rfl : r = .ok () := of_decide_eq_true (test_of_answers hok hk)
  have before : Later (.new 1) w.space := .single (.asked rfl (Or.inl ⟨reply, hdeclared⟩))
  have later : Later w₀.space s := .single (.copied hcopied)
  have step : Step s s' := .faulted hk
  obtain ⟨-, -, hwidens, -, -, -, hgrows⟩ :=
    grows_within_gap before hprepared (of_decide_eq_true hapart) later
  -- the fault is resolved, which leaves the page with a mapping
  obtain ⟨w₁, hhandling, hquiet⟩ := hhandles.handling
  obtain ⟨-, e, -, hmapped, -⟩ := hhandling.cached
  have hspace : s' = w₁.space := hquiet.space
  have hclaim := (hgrows .write _ k _ s' k' hk).1 (fun hmaps => ?_)
    (Option.isSome_iff_exists.mpr ⟨e, hspace ▸ hmapped⟩) ?_ hnone
  · refine ⟨w.space, w₀.space, s, s', w.kernel, w₀.kernel, before, hprepared, later, step, hheap,
      hstack, hclaim.trans ?_, hwidens s' step⟩
    unfold Bounds.claim
    rw [hheap, hstack]
    exact if_pos (by decide)
  · obtain ⟨e, he⟩ := Option.isSome_iff_exists.mp hmaps
    cases hfresh.symm.trans he
  · refine ⟨?_, ?_⟩
    · rw [hheap]
      decide
    · rw [hstack]
      decide

end AddressSpace

end DemandPaging
