import DemandPaging.Proofs.Filling
import DemandPaging.Proofs.Ownership
import DemandPaging.Proofs.Retaining

/-!
# Where stack and heap start

Preparing for load gives the stack a page at a fixed place and the heap one where the highest
region ends.  Between them stack and heap are to grow until they meet, and for that the heap has to
start below the stack.

**It need not.**  Nothing keeps a region from ending at the page of the stack or above it, and a
heap above the stack is put elsewhere only if it would lie outside user space altogether.  So stack
and heap are apart if all regions end below the stack, or one ends with user space; and otherwise
there is no gap between them, and neither can ever grow (`AddressSpace.prepared_apart_iff`).
-/

namespace DemandPaging

/-! ### What preparing does to the bounds -/

namespace AddressSpace

open SpaceM Retains

/-- Regions and bounds, which mapping pages leaves alone. -/
def shape (s : AddressSpace) : RegionList × Bounds := (s.regions, s.bounds)

section Shape

variable {α : Type}

/-- The operation leaves regions and bounds alone. -/
def RetainsShape (x : SpaceM α) : Prop := Retains x fun w => w.space.shape

theorem retainsShape_onKernel (x : KernelM α) : RetainsShape (onKernel x) := by
  intro w
  rw [ends_onKernel]
  unfold Ends
  split <;> rfl

theorem retainsShape_cleaningUp {x : SpaceM α} (h : RetainsShape x) (undo : KernelM Unit) :
    RetainsShape (x.cleaningUp undo) := by
  intro w
  rw [ends_cleaningUp]
  refine Ends.mono (h w) (fun _ _ h₁ => h₁) fun e w₁ h₁ => ?_
  cases e with
  | failed e => exact Ends.mono (ends_self undo w₁.kernel) (fun _ _ _ => h₁) fun _ _ _ => h₁
  | halted halt => exact h₁

theorem retainsShape_addEntry (e : PageEntry) : RetainsShape (addEntry e) := by
  refine .bind (fun _ => rfl) fun _ => .bind (retainsShape_onKernel _) fun granted => ?_
  refine .bind (fun _ => rfl) fun _ => .bind (retainsShape_onKernel _) fun inserted => ?_
  refine .bind (fun _ => rfl) fun _ => ?_
  cases inserted.2 with
  | some n => exact retainsShape_onKernel _
  | none => exact retains_pure _

theorem retainsShape_mapZeroed (p : Page) (flags : EntryFlags) :
    RetainsShape (mapZeroed p flags) := by
  refine .bind (retainsShape_onKernel _) fun found => ?_
  cases found with
  | none => exact retainsShape_onKernel _
  | some f =>
      exact .bind (retainsShape_onKernel _) fun _ =>
        .bind (retainsShape_cleaningUp (retainsShape_addEntry _) _) fun _ => retains_pure _

theorem retainsShape_ensureMapped (p : Page) (flags : EntryFlags) :
    RetainsShape (ensureMapped p flags) := by
  refine .bind (fun _ => rfl) fun s => ?_
  split
  · exact retains_pure _
  · exact (retainsShape_mapZeroed p flags).discard

theorem retainsShape_backPagesFrom (r : Region) :
    ∀ (i n : Nat) (h : i + n ≤ r.pageCount), RetainsShape (backPagesFrom r i n h)
  | _, 0, _ => retains_pure _
  | i, n + 1, _ =>
      .bind (retainsShape_ensureMapped _ _) fun _ => retainsShape_backPagesFrom r (i + 1) n _

theorem retainsShape_backRegions : ∀ rs : List Region, RetainsShape (backRegions rs)
  | [] => retains_pure _
  | r :: rest =>
      .bind (retainsShape_backPagesFrom r 0 _ _) fun _ => retainsShape_backRegions rest

end Shape

/-- **The bounds after preparing** depend on the regions alone. -/
theorem ends_prepareLoad_bounds {w : Workspace} :
    Ends prepareLoad w
      (fun _ w' => w'.space.bounds = ⟨initialStackPage, initialStackPage,
        initialHeapPage w.space.regions, initialHeapPage w.space.regions⟩)
      fun _ _ => True := by
  unfold prepareLoad
  simp only [ends_bind, ends_modifySpace, ends_space]
  refine Ends.mono (retainsShape_backRegions _ _) (fun _ w₁ h₁ => ?_) fun _ _ _ => trivial
  refine Ends.mono (retainsShape_ensureMapped _ _ _) (fun _ w₂ h₂ => ?_) fun _ _ _ => trivial
  refine Ends.mono (retainsShape_ensureMapped _ _ _) (fun _ w₃ h₃ => ?_) fun _ _ _ => trivial
  simp only [liftM_eq, ends_onKernel, Kernel.ends_record]
  have hregions₂ : w₂.space.regions = w.space.regions :=
    (congrArg Prod.fst h₂).trans (congrArg Prod.fst h₁)
  have hbounds₃ := congrArg Prod.snd h₃
  have hlow : w₃.space.bounds.stackLow = initialStackPage := congrArg Bounds.stackLow hbounds₃
  have hhigh : w₃.space.bounds.stackHigh = initialStackPage := congrArg Bounds.stackHigh hbounds₃
  rw [hregions₂, hlow, hhigh]

/-! ### Where the heap starts -/

/-- **The heap starts** at its default place if there is no region or one ends with user space, and
where the highest region ends otherwise. -/
theorem initialHeapPage_cases (l : RegionList) :
    (l.regions = [] ∨ ∃ r ∈ l.regions, r.limit = userSpaceEnd) ∧
        (initialHeapPage l).start.val = defaultHeapStart ∨
      ∃ top ∈ l.regions, top.limit < userSpaceEnd ∧ (∀ r ∈ l.regions, r.limit ≤ top.limit) ∧
        (initialHeapPage l).start.val = top.limit := by
  unfold initialHeapPage RegionList.highestEnd?
  cases hmax : (l.regions.map Region.limit).max? with
  | none => exact Or.inl ⟨Or.inl (by simpa using hmax), rfl⟩
  | some e =>
      obtain ⟨hmem, hle⟩ := List.max?_eq_some_iff.mp hmax
      obtain ⟨top, htop, rfl⟩ := List.mem_map.mp hmem
      have hhalf := top.inUserHalf
      by_cases hin : top.limit < userSpaceEnd
      · refine Or.inr ⟨top, htop, hin, fun r hr => hle r.limit (List.mem_map_of_mem hr), ?_⟩
        simp only [dif_pos hin]
        show top.limit / 4096 * 4096 = top.limit
        simp only [Region.limit, Region.start, Page.start_val, pageSize]
        omega
      · refine Or.inl ⟨Or.inr ⟨top, htop, ?_⟩, ?_⟩
        · simp only [Region.limit, Region.start, Page.start_val, pageSize, userSpaceEnd] at hin ⊢
          omega
        · simp only [dif_neg hin]
          rfl

/-- **The heap starts below the stack** if all regions end there, or one ends with user space. -/
theorem initialHeapPage_lt_iff (l : RegionList) :
    (initialHeapPage l).start.val < initialStackPage.start.val ↔
      (∃ r ∈ l.regions, r.limit = userSpaceEnd) ∨
        ∀ r ∈ l.regions, r.limit < initialStackPage.start.val := by
  have hdefault : defaultHeapStart < initialStackPage.start.val := by decide
  rcases initialHeapPage_cases l with ⟨hempty | hend, hstart⟩ | ⟨top, htop, hin, hle, hstart⟩
  · rw [hstart, hempty]
    exact ⟨fun _ => Or.inr (List.forall_mem_nil _), fun _ => hdefault⟩
  · rw [hstart]
    exact ⟨fun _ => Or.inl hend, fun _ => hdefault⟩
  · rw [hstart]
    constructor
    · exact fun hlt => Or.inr fun r hr => Nat.lt_of_le_of_lt (hle r hr) hlt
    · rintro (⟨r, hr, hend⟩ | hall)
      · exact absurd (hend ▸ hle r hr) (Nat.not_le.mpr hin)
      · exact hall top htop

/-- **The heap starts with the page of the stack** if the highest region ends there. -/
theorem initialHeapPage_eq_iff (l : RegionList) :
    initialHeapPage l = initialStackPage ↔
      (∃ r ∈ l.regions, r.limit = initialStackPage.start.val) ∧
        ∀ r ∈ l.regions, r.limit ≤ initialStackPage.start.val := by
  have hpage : initialHeapPage l = initialStackPage ↔
      (initialHeapPage l).start.val = initialStackPage.start.val := by
    refine ⟨fun heq => by rw [heq], fun heq => Page.ext ?_⟩
    exact Nat.eq_of_mul_eq_mul_right (by decide) heq
  have hdefault : defaultHeapStart < initialStackPage.start.val := by decide
  rw [hpage]
  rcases initialHeapPage_cases l with ⟨hempty | ⟨r, hr, hend⟩, hstart⟩ |
    ⟨top, htop, hin, hle, hstart⟩
  · rw [hstart, hempty]
    refine ⟨fun heq => absurd heq (Nat.ne_of_lt hdefault), fun ⟨⟨r, hr, _⟩, _⟩ => ?_⟩
    cases hr
  · rw [hstart]
    refine ⟨fun heq => absurd heq (Nat.ne_of_lt hdefault), fun ⟨_, hall⟩ => ?_⟩
    exact absurd (hend ▸ hall r hr) (by decide)
  · rw [hstart]
    constructor
    · exact fun heq => ⟨⟨top, htop, heq⟩, fun r hr => heq ▸ hle r hr⟩
    · rintro ⟨⟨r, hr, hend⟩, hall⟩
      exact Nat.le_antisymm (hall top htop) (hend ▸ hle r hr)

/-! ### Whether they are apart -/

/-- Regions come first, then stack and heap. -/
theorem coverage_cases {s : AddressSpace} {a : VirtAddr} {c : Coverage}
    (h : s.coverage a = some c) :
    (∃ r ∈ s.regions.regions, r.contains a = true ∧ c = .region r) ∨
      (∀ r ∈ s.regions.regions, r.contains a = false) ∧ s.loaded = true ∧
        growthCoverage s.bounds a.page = some c := by
  unfold coverage RegionList.find? at h
  split at h
  · next r hfind =>
      exact Or.inl ⟨r, List.mem_of_find?_eq_some hfind, by simpa using List.find?_some hfind,
        (Option.some.inj h).symm⟩
  · next hnone =>
      split at h
      · next hloaded =>
          exact Or.inr ⟨by simpa using List.find?_eq_none.mp hnone, hloaded, h⟩
      · cases h

/-- What covers an address without being a region covers its page. -/
theorem growthCoverage_of_coverage {s : AddressSpace} {a : VirtAddr} {c : Coverage}
    (h : s.coverage a = some c) (hc : ∀ r, c ≠ .region r) :
    growthCoverage s.bounds a.page = some c := by
  rcases coverage_cases h with ⟨r, -, -, hr⟩ | ⟨-, -, hgrowth⟩
  · exact absurd hr (hc r)
  · exact hgrowth

/-- Between the bounds everything is covered. -/
theorem coverage_ne_none_of_gap {s : AddressSpace} {a : VirtAddr} (loaded : s.loaded = true)
    (above : s.bounds.heapHigh.index < a.page.index)
    (below : a.page.index < s.bounds.stackLow.index) : s.coverage a ≠ none := by
  unfold coverage growthCoverage
  split
  · exact Option.some_ne_none _
  · rw [if_pos loaded]
    split
    · exact Option.some_ne_none _
    · split
      · exact Option.some_ne_none _
      · rw [if_pos ⟨above, below⟩]
        split <;> exact Option.some_ne_none _

/-- Without a gap only what lies within the bounds is covered by stack or heap. -/
theorem growthCoverage_of_closed {b : Bounds} {p : Page} {c : Coverage}
    (closed : ¬ b.heapHigh.index < b.stackLow.index) (h : growthCoverage b p = some c) :
    (c = .stack → b.stackLow.index ≤ p.index ∧ p.index ≤ b.stackHigh.index) ∧
      (c = .heap → b.heapLow.index ≤ p.index ∧ p.index ≤ b.heapHigh.index) := by
  unfold growthCoverage at h
  split at h
  · next hin =>
      obtain rfl := Option.some.inj h
      exact ⟨fun _ => hin, fun hheap => (nomatch hheap)⟩
  · split at h
    · next hin =>
        obtain rfl := Option.some.inj h
        exact ⟨fun hstack => (nomatch hstack), fun _ => hin⟩
    · rw [if_neg (by omega)] at h
      cases h

/-- **The two ends.**  However regions have been declared, let preparing for load succeed.  Then
stack and heap have one page each, and the heap is below the stack exactly if every region ends
below the stack or one of them ends with user space; they share their page exactly if the highest
region ends with it.  If the heap is below, every address between them may be touched, for one of
them to grow there.  If it is not, neither of them ever covers more than its page. -/
theorem prepared_apart_iff {s s' : AddressSpace} {k k' : Kernel}
    (prepared : prepareLoad ⟨k, s⟩ = .ok () ⟨k', s'⟩) :
    (s'.bounds.stackLow = initialStackPage ∧ s'.bounds.stackHigh = initialStackPage ∧
      s'.bounds.heapLow = initialHeapPage s.regions ∧
      s'.bounds.heapHigh = initialHeapPage s.regions) ∧
    (s'.bounds.heapHigh.index < s'.bounds.stackLow.index ↔
      (∃ r ∈ s.regions.regions, r.limit = userSpaceEnd) ∨
        ∀ r ∈ s.regions.regions, r.limit < initialStackPage.start.val) ∧
    (s'.bounds.heapHigh = s'.bounds.stackLow ↔
      (∃ r ∈ s.regions.regions, r.limit = initialStackPage.start.val) ∧
        ∀ r ∈ s.regions.regions, r.limit ≤ initialStackPage.start.val) ∧
    (s'.bounds.heapHigh.index < s'.bounds.stackLow.index → ∀ a : VirtAddr,
      s'.bounds.heapHigh.index < a.page.index → a.page.index < s'.bounds.stackLow.index →
      s'.coverage a ≠ none) ∧
    (¬ s'.bounds.heapHigh.index < s'.bounds.stackLow.index → ∀ a : VirtAddr,
      (s'.coverage a = some .stack → a.page = s'.bounds.stackLow) ∧
      (s'.coverage a = some .heap → a.page = s'.bounds.heapHigh)) := by
  have hbounds := ends_prepareLoad_bounds.of_ok prepared
  obtain ⟨-, -, hloaded, -⟩ := walks_prepareLoad.of_ok prepared
  change s'.bounds = ⟨_, _, initialHeapPage s.regions, initialHeapPage s.regions⟩ at hbounds
  refine ⟨?_, ?_, ?_, fun _ a => coverage_ne_none_of_gap hloaded, fun hclosed a => ?_⟩
  · rw [hbounds]
    exact ⟨rfl, rfl, rfl, rfl⟩
  · rw [← initialHeapPage_lt_iff, hbounds]
    exact (Nat.mul_lt_mul_right (by decide)).symm
  · rw [← initialHeapPage_eq_iff, hbounds]
  · constructor
    · intro hstack
      have hwithin := (growthCoverage_of_closed hclosed
        (growthCoverage_of_coverage hstack fun _ => by simp)).1 rfl
      rw [hbounds] at hwithin ⊢
      exact Page.ext (Nat.le_antisymm hwithin.2 hwithin.1)
    · intro hheap
      have hwithin := (growthCoverage_of_closed hclosed
        (growthCoverage_of_coverage hheap fun _ => by simp)).2 rfl
      rw [hbounds] at hwithin ⊢
      exact Page.ext (Nat.le_antisymm hwithin.2 hwithin.1)

/-- **Drafts**: spaces of which nothing is known but their regions, declared one by one. -/
inductive Draft : AddressSpace → Prop where
  | new (id : SpaceId) : Draft (.new id)
  | declared {s s' : AddressSpace} {k k' : Kernel} {a : VirtAddr} {size : Nat}
      {permission : Permission} (draft : Draft s)
      (accepted : declareRegion a size permission ⟨k, s⟩ = .ok () ⟨k', s'⟩) : Draft s'

/-- Two ends over sixteen frames: the only region ends with user space.  The heap starts at its
default place, and an address half-way up to the stack may be touched. -/
theorem prepared_apart_iff_sixteen_frames :
    ∃ s s' k k', Draft s ∧ prepareLoad ⟨k, s⟩ = .ok () ⟨k', s'⟩ ∧
      s.regions.regions.map Region.limit = [userSpaceEnd] ∧
      s'.bounds.heapHigh.start.val = defaultHeapStart ∧
      s'.bounds.heapHigh.index < s'.bounds.stackLow.index ∧
      s'.coverage ⟨0x380008000000, by decide⟩ ≠ none := by
  have hrun : answers (declareRegion ⟨0x7ffffffff000, by decide⟩ 0x1000 ⟨true, false, false⟩)
      ⟨History.sixteenFrames.kernel, .new 1⟩ (fun _ w => answers prepareLoad w fun _ w₁ =>
        decide (w.space.regions.regions.map Region.limit = [userSpaceEnd] ∧
          w₁.space.bounds.heapHigh.start.val = defaultHeapStart)) = true := by decide +kernel
  obtain ⟨_, w, hdeclared, hrun⟩ := exists_of_answers hrun
  obtain ⟨_, w₁, hprepared, hrun⟩ := exists_of_answers hrun
  obtain ⟨hlimits, hheap⟩ := of_decide_eq_true hrun
  obtain ⟨⟨hstack, -⟩, hapart, -, hcovered, -⟩ := prepared_apart_iff hprepared
  obtain ⟨r, hr, hlimit⟩ : ∃ r ∈ w.space.regions.regions, r.limit = userSpaceEnd :=
    List.mem_map.mp (hlimits ▸ List.mem_singleton_self _)
  have hbelow := hapart.mpr (Or.inl ⟨r, hr, hlimit⟩)
  have hindex : w₁.space.bounds.heapHigh.index = 0x10000 := by
    rw [Page.start_val] at hheap
    exact Nat.eq_of_mul_eq_mul_right (by decide : 0 < 4096) hheap
  refine ⟨w.space, w₁.space, w.kernel, w₁.kernel, .declared (.new 1) hdeclared, hprepared,
    hlimits, hheap, hbelow, hcovered hbelow _ ?_ ?_⟩
  · rw [hindex]
    decide
  · rw [hstack]
    decide

/-- **Not every draft is prepared with stack and heap apart.** -/
theorem not_forall_apart :
    ¬ ∀ (s s' : AddressSpace) (k k' : Kernel), Draft s →
      prepareLoad ⟨k, s⟩ = .ok () ⟨k', s'⟩ →
      s'.bounds.heapHigh ≠ s'.bounds.stackLow ∧
        s'.bounds.heapHigh.index < s'.bounds.stackLow.index := by
  intro hall
  have hrun : answers (declareRegion ⟨0x6fffffffe000, by decide⟩ 0x1000 ⟨true, true, false⟩)
      ⟨History.sixteenFrames.kernel, .new 1⟩ (fun _ w => answers prepareLoad w fun _ w₁ =>
        decide (w₁.space.bounds.heapHigh = w₁.space.bounds.stackLow)) = true := by decide +kernel
  obtain ⟨_, w, hdeclared, hrun⟩ := exists_of_answers hrun
  obtain ⟨_, w₁, hprepared, hrun⟩ := exists_of_answers hrun
  have hapart := hall w.space w₁.space w.kernel w₁.kernel (.declared (.new 1) hdeclared) hprepared
  exact hapart.1 (of_decide_eq_true hrun)

end AddressSpace

end DemandPaging
