import DemandPaging.Proofs.Asides
import DemandPaging.Proofs.Drawing
import DemandPaging.Proofs.Shortage
import DemandPaging.Proofs.Staleness

/-!
# One frame for each page, for life

A page gets its frame when its load is prepared, or when a fault touches it.  Either looks first
whether the page has one, and neither ever takes a frame away.  So a page keeps the frame that it
has got until its space is destroyed, and no second one is taken for it
(`Workspace.Lives.lifetime`).

**Frames that are taken.**  A space is followed through requests, faults, and whatever is done
elsewhere meanwhile (`Workspace.Lives`).  Each of these draws frames for pages that had none
(`Workspace.Draws`), and in the end the pages that the space has gained are in the frames that were
taken for it, one in each.  Only a kernel that stops while booting may leave one behind.

**Faults that are raised again.**  Once a page is mapped, a fault finds it.  What has been resolved
is resolved again, and what found the cache full is resolved as soon as there is a slot, both
without a frame more.  This takes that the address is covered still: stack and heap grow to the page
that they gain, but would not cover it if they ended before they began (`Bounds.IsUpright`).
-/

namespace DemandPaging

namespace Workspace

variable {w w' : Workspace}

/-- **A path continues its space**, by induction on its moves. -/
theorem Path.continues (h : w.Path w') : w.space.Continues w'.space := by
  refine ⟨h.grows.id, ?_, h.grows.find?⟩
  induction h with
  | refl => exact fun _ hr => hr
  | tail _ hmove ih =>
      intro r hr
      cases hmove with
      | declared r' open' => exact List.mem_append_left _ (ih r hr)
      | _ => exact ih r hr

end Workspace

/-! ### Covered pages stay covered -/

namespace Bounds

variable {b : Bounds} {p : Page}

/-- **Upright** bounds: neither stack nor heap ends before it begins. -/
structure IsUpright (b : Bounds) : Prop where
  heap : b.heapLow.index ≤ b.heapHigh.index
  stack : b.stackLow.index ≤ b.stackHigh.index

/-- A page that is claimed from the gap is within stack or heap then. -/
theorem IsUpright.claim (h : b.IsUpright) (hp : b.InGap p) :
    (b.claim p).IsUpright ∧ (b.claim p).Spans p := by
  have hheap : b.heapLow.index ≤ p.index := Nat.le_trans h.heap (Nat.le_of_lt hp.1)
  have hstack : p.index ≤ b.stackHigh.index := Nat.le_trans (Nat.le_of_lt hp.2) h.stack
  unfold Bounds.claim
  split
  · exact ⟨⟨h.heap, hstack⟩, Or.inr ⟨Nat.le_refl _, hstack⟩⟩
  · exact ⟨⟨hheap, h.stack⟩, Or.inl ⟨hheap, Nat.le_refl _⟩⟩

/-- Stack and heap cover their own pages. -/
theorem Spans.growthCoverage_ne_none (h : b.Spans p) :
    AddressSpace.growthCoverage b p ≠ none := by
  unfold AddressSpace.growthCoverage
  split
  · exact Option.some_ne_none _
  · next hstack => rw [if_pos (h.resolve_right hstack)]; exact Option.some_ne_none _

end Bounds

namespace AddressSpace

variable {s s' : AddressSpace} {a : VirtAddr} {c : Coverage}

/-- **Bounds are upright** in every reachable space. -/
theorem IsReachable.isUpright (h : s.IsReachable) : s.bounds.IsUpright := by
  refine h.invariant (P := fun s => s.bounds.IsUpright) (fun _ => ⟨Nat.le_refl _, Nat.le_refl _⟩)
    fun s s' hs hshift => ?_
  cases hshift with
  | changed change =>
      rcases change.bounds_cases with hsame | ⟨p, hgap, hclaim⟩
      · rwa [hsame]
      · rw [hclaim]
        exact (hs.claim hgap).1
  | prepared prepared =>
      rw [show s'.bounds = _ from ends_prepareLoad_bounds.of_ok prepared]
      exact ⟨Nat.le_refl _, Nat.le_refl _⟩
  | starved starved =>
      obtain ⟨-, hhalfway⟩ := ends_prepareLoad_halfway.of_error starved
      cases hhalfway with
      | early bounds missing => rwa [show s'.bounds = s.bounds from bounds]
      | late bounds mapped missing =>
          rw [show s'.bounds = s.bounds.withStack from bounds]
          exact ⟨hs.heap, Nat.le_refl _⟩

/-- **A page that was gained** is covered still. -/
theorem Gains.coverage_ne_none (h : Gains a c s s') (upright : s.bounds.IsUpright) :
    s'.coverage a ≠ none := by
  have hcovered := h.covered
  unfold coverage at hcovered ⊢
  rw [h.regions, h.loaded]
  cases hfind : s.regions.find? a with
  | some r => exact Option.some_ne_none _
  | none =>
      rw [hfind] at hcovered
      cases hloaded : s.loaded with
      | false => simp [hloaded] at hcovered
      | true =>
          simp only [hloaded, if_true] at hcovered ⊢
          rw [h.bounds]
          apply Bounds.Spans.growthCoverage_ne_none
          rcases grow_cases hcovered with ⟨hgap, hclaim⟩ | ⟨hspans, hsame⟩
          · rw [hclaim]
            exact (upright.claim hgap).2
          · rw [hsame]
            exact hspans

end AddressSpace

/-! ### Faults that are raised again -/

theorem MappingCache.hasSlot_invalidateAll {c : MappingCache} (room : 0 < c.capacity)
    (space : SpaceId) (p : Page) : c.invalidateAll.HasSlot space p := by
  refine Or.inr ?_
  rw [size, entries_invalidateAll]
  simpa [capacity, invalidateAll] using room

namespace PageFault

variable {access : Access} {a : VirtAddr} {c : Coverage} {w w₁ : Workspace} {e : PageEntry}
  {r : Except MemoryError Unit} {s s' : AddressSpace} {k k' : Kernel}

/-- What a fault leaves covers its address if anything did before. -/
theorem coverage_ne_none_of_eq (handled : handle access a (.within s) k = .ok (r, .within s') k')
    (upright : s.bounds.IsUpright) (covered : s.coverage a = some c) : s'.coverage a ≠ none := by
  rcases space_cases_of_eq handled with rfl | ⟨c', hgains⟩
  · rw [covered]
    exact Option.some_ne_none c
  · exact hgains.coverage_ne_none upright

/-- **A mapped page**, if it may be accessed, is cached as soon as there is a slot for it, and
nothing else changes. -/
theorem Handling.of_mapped (hor : access ≠ .readOnlyWrite) (covered : w.space.coverage a = some c)
    (mapped : w.space.table.find? a.page = some e) (permitted : permits e.flags access = true)
    (room : w.kernel.cache.HasSlot w.space.id a.page) :
    ∃ cache, Handling access a w (.ok ()) (w.withCache cache) := by
  obtain ⟨i, hi⟩ := Option.ne_none_iff_exists'.mp
    (room.slotFor?_ne_none (e := ⟨w.space.id, a.page, e.frame, e.flags⟩))
  have hflags : flagsBehind w a c = e.flags := by
    unfold flagsBehind
    rw [mapped]
    rfl
  rw [← hflags] at permitted
  exact ⟨_, .resolved hor (.cached covered (.found mapped) permitted
    (MappingCache.insert_eq_ok_iff.mpr ⟨hi, rfl⟩))⟩

/-- **What found the cache full** is resolved once the cache has been emptied, if it has a slot at
all, and takes nothing. -/
theorem exists_refilled (full : handle access a (.within s) k =
      .ok (.error .cacheFull, .within s') k') (upright : s.bounds.IsUpright)
    (slots : 0 < k'.cache.capacity) :
    ∃ k'', (Kernel.invalidateAll >>= fun _ => handle access a (.within s')) k' =
        .ok (.ok (), .within s') k'' ∧
      k''.allocator = k'.allocator ∧ k''.memory = k'.memory := by
  let emptied : Kernel := { k' with cache := k'.cache.invalidateAll }
  obtain ⟨w₁, hhandling, hquiet⟩ := (handles_of_eq full).handling
  obtain ⟨hor, c, e, covered, backing, permitted, -⟩ := hhandling.backing_of_full
  obtain ⟨c', covered'⟩ :=
    Option.ne_none_iff_exists'.mp (coverage_ne_none_of_eq full upright covered)
  have hspace : s' = w₁.space := hquiet.space
  have mapped : s'.table.find? a.page = some e := by rw [hspace, backing.find?, if_pos rfl]
  rw [← backing.flags] at permitted
  obtain ⟨cache, hcached⟩ := Handling.of_mapped (w := ⟨emptied, s'⟩) hor covered' mapped permitted
    (MappingCache.hasSlot_invalidateAll slots _ _)
  obtain ⟨k₂, hagain, hquiet₂⟩ := hcached.exists_answer (.refl _)
  exact ⟨k₂, hagain, hquiet₂.allocator, hquiet₂.memory⟩

/-- A fault within a space is a path. -/
theorem path_of_eq (handled : handle access a (.within s) k = .ok (r, .within s') k') :
    Workspace.Path ⟨k, s⟩ ⟨k', s'⟩ := by
  have hends : Ends (handle access a (.within s)) k
      (fun p k' => ∃ s', p.2 = .within s' ∧ Workspace.Path ⟨k, s⟩ ⟨k', s'⟩) fun _ _ => True := by
    have hreport := Workspace.Move.reported (w := ⟨k, s⟩) (.faulted access a) rfl
    unfold handle
    simp only [ends_bind, Kernel.ends_record, ends_ite, ends_pure]
    split
    · have hrefused := Workspace.Move.reported
        (w := Workspace.report ⟨k, s⟩ (.faulted access a)) (.readOnlyWrite a) rfl
      exact ⟨s, rfl, hreport.path.trans hrefused.path⟩
    · rw [SpaceM.ends_attempt]
      refine Ends.mono (wanders_resolve access a) (fun _ w h => ?_) fun e w h => ?_
      · exact ⟨w.space, rfl, hreport.path.trans h.1⟩
      · cases e with
        | failed error => exact ⟨w.space, rfl, hreport.path.trans h.1⟩
        | halted halt => trivial
  obtain ⟨_, heq, hpath⟩ := hends.of_ok handled
  cases heq
  exact hpath

end PageFault

namespace Workspace

/-! ### Living on -/

/-- What is asked of a space draws frames for its pages. -/
theorem draws_of_answered {w w' : Workspace} {r : SpaceRequest}
    (answered : (∃ reply, Machine.answerSpace r w = .ok reply w') ∨
      ∃ e, Machine.answerSpace r w = .error e w' ∧ ¬ w.Strands e) : w.Draws w' := by
  rcases answered with ⟨reply, hok⟩ | ⟨e, herror, hgoes⟩
  · exact (AddressSpace.drawing_answerSpace r w).of_ok hok
  · exact ((AddressSpace.drawing_answerSpace r w).of_error herror).resolve_right hgoes

/-- **Spending**: something is asked of the space, whatever comes of it unless a frame is stranded,
or it is faulted in, and frames are taken for it.  Or something is done elsewhere, as when the space
is copied, and that may do anything to the kernel. -/
inductive Spends (w : Workspace) : List Frame → Workspace → Prop where
  | asked {r : SpaceRequest} {fs : List Frame} {w' : Workspace}
      (answered : (∃ reply, Machine.answerSpace r w = .ok reply w') ∨
        ∃ e, Machine.answerSpace r w = .error e w' ∧ ¬ w.Strands e)
      (yields : w.kernel.allocator.Yields fs w'.kernel.allocator) : Spends w fs w'
  | faulted {access : Access} {a : VirtAddr} {r : Except MemoryError Unit} {fs : List Frame}
      {w' : Workspace}
      (handled : PageFault.handle access a (.within w.space) w.kernel =
        .ok (r, .within w'.space) w'.kernel)
      (yields : w.kernel.allocator.Yields fs w'.kernel.allocator) : Spends w fs w'
  | aside (k : Kernel) : Spends w [] (w.withKernel k)

/-- **Living on**: one after another, and the frames that are taken for the space in all. -/
inductive Lives (w₀ : Workspace) : List Frame → Workspace → Prop where
  | start : Lives w₀ [] w₀
  | next {fs gs : List Frame} {w w' : Workspace} (run : Lives w₀ fs w) (spends : w.Spends gs w') :
      Lives w₀ (fs ++ gs) w'

variable {w w' w₀ : Workspace} {fs gs : List Frame}

/-- **Asked anything**, a space lives on, unless a frame is stranded. -/
theorem exists_spends_of_answered {r : SpaceRequest}
    (answered : (∃ reply, Machine.answerSpace r w = .ok reply w') ∨
      ∃ e, Machine.answerSpace r w = .error e w' ∧ ¬ w.Strands e) : ∃ fs, w.Spends fs w' := by
  obtain ⟨ps, fs, hyields, -⟩ := (draws_of_answered answered).takes
  exact ⟨fs, .asked answered hyields⟩

/-- **Faulted in anywhere**, a space lives on. -/
theorem exists_spends_of_handled {access : Access} {a : VirtAddr} {r : Except MemoryError Unit}
    {s : AddressSpace} {k : Kernel}
    (handled : PageFault.handle access a (.within w.space) w.kernel = .ok (r, .within s) k) :
    ∃ fs, w.Spends fs ⟨k, s⟩ := by
  obtain ⟨ps, fs, hyields, -⟩ := (PageFault.draws_of_eq handled).takes
  exact ⟨fs, .faulted handled hyields⟩

/-- **Frames that are spent** are in the space, each behind a page of its own. -/
theorem Spends.exists_takes (h : w.Spends fs w') : ∃ ps, w.space.Takes ps fs w'.space := by
  have htakes : w.Draws w' → w.kernel.allocator.Yields fs w'.kernel.allocator →
      ∃ ps, w.space.Takes ps fs w'.space := by
    intro hdraws hyields
    obtain ⟨ps, gs, hyields', htakes⟩ := hdraws.takes
    obtain rfl := hyields.unique hyields'
    exact ⟨ps, htakes⟩
  cases h with
  | asked answered yields => exact htakes (draws_of_answered answered) yields
  | faulted handled yields => exact htakes (PageFault.draws_of_eq handled) yields
  | aside k => exact ⟨[], .of_placements rfl⟩

theorem Spends.continues (h : w.Spends fs w') : w.space.Continues w'.space := by
  cases h with
  | @asked r _ _ answered _ =>
      have hwanders : Wanders (Machine.answerSpace r) w := Machine.wanders_answerSpace r
      rcases answered with ⟨reply, hok⟩ | ⟨e, herror, -⟩
      · exact (hwanders.of_ok hok).1.continues
      · exact (hwanders.of_error herror).1.continues
  | faulted handled _ => exact (PageFault.path_of_eq handled).continues
  | aside k => exact .refl _

theorem Spends.isReachable (h : w.Spends fs w') (hw : w.space.IsReachable) :
    w'.space.IsReachable := by
  cases h with
  | asked answered _ =>
      exact hw.stage (.asked (answered.imp_right fun ⟨e, herror, _⟩ => ⟨e, herror⟩))
  | faulted handled _ => exact hw.stage (.stepped (.faulted handled))
  | aside k => exact hw

/-! What a run keeps, by induction on what is done. -/

theorem Lives.exists_takes (run : Lives w₀ fs w) : ∃ ps, w₀.space.Takes ps fs w.space := by
  induction run with
  | start => exact ⟨[], .of_placements rfl⟩
  | next _ spends ih =>
      obtain ⟨ps, htakes⟩ := ih
      obtain ⟨qs, htakes'⟩ := spends.exists_takes
      exact ⟨ps ++ qs, htakes.trans htakes'⟩

theorem Lives.continues (run : Lives w₀ fs w) : w₀.space.Continues w.space := by
  induction run with
  | start => exact .refl _
  | next _ spends ih => exact ih.trans spends.continues

theorem Lives.isReachable (run : Lives w₀ fs w) (reachable : w₀.space.IsReachable) :
    w.space.IsReachable := by
  induction run with
  | start => exact reachable
  | next _ spends ih => exact spends.isReachable ih

/-- **Lifetimes**: what has become of the pages of a space, and of the frames that were taken for
it, and what comes of faults that are raised again. -/
structure Lifetime (w₀ : Workspace) (fs : List Frame) (w : Workspace) : Prop where
  /-- Mapped pages are in their frames still. -/
  continues : w₀.space.Continues w.space
  /-- Every frame is behind a page of its own that was not mapped. -/
  takes : ∃ ps, w₀.space.Takes ps fs w.space
  /-- It goes on, whatever is asked, and wherever a fault is raised, unless a frame is stranded. -/
  asked : ∀ r w', ((∃ reply, Machine.answerSpace r w = .ok reply w') ∨
    ∃ e, Machine.answerSpace r w = .error e w' ∧ ¬ w.Strands e) → ∃ gs, w.Spends gs w'
  faulted : ∀ access a, (∃ r s k,
      PageFault.handle access a (.within w.space) w.kernel = .ok (r, .within s) k ∧
      ∃ gs, w.Spends gs ⟨k, s⟩) ∨
    ∃ e k, PageFault.handle access a (.within w.space) w.kernel = .error e k ∧ w.Strands e
  resolved : ∀ access a s k,
    PageFault.handle access a (.within w.space) w.kernel = .ok (.ok (), .within s) k →
    ∃ k', PageFault.handle access a (.within s) k = .ok (.ok (), .within s) k' ∧
      k'.forgetJournal = k.forgetJournal
  full : ∀ access a s k,
    PageFault.handle access a (.within w.space) w.kernel = .ok (.error .cacheFull, .within s) k →
    0 < k.cache.capacity →
    ∃ k', (Kernel.invalidateAll >>= fun _ => PageFault.handle access a (.within s)) k =
        .ok (.ok (), .within s) k' ∧
      k'.allocator = k.allocator ∧ k'.memory = k.memory

/-- **One frame for each page, for life.**  Follow a space from any point of its existence, through
requests and faults of any kind and outcome, while anything at all is done elsewhere.  Its mapped
pages stay mapped, and in their frames.  The frames that are taken for it on the way are behind as
many pages that were not mapped in the beginning, one behind each, and all other pages are where
they were.  There is no request and no fault with which this would end, but one that strands a
frame; and that takes a kernel which is booting, and a heap which refuses room.  And a fault that is
resolved is resolved again when it is raised at once for a second time, which changes nothing; one
that finds the cache full is resolved once the cache has been emptied, if it has a slot at all, and
no frame is taken for that. -/
theorem Lives.lifetime (run : Lives w₀ fs w) (reachable : w₀.space.IsReachable) :
    Lifetime w₀ fs w := by
  have upright := (run.isReachable reachable).isUpright
  refine
    { continues := run.continues, takes := run.exists_takes,
      asked := fun r w' => exists_spends_of_answered,
      faulted := fun access a => ?_,
      resolved := fun access a s k resolved => ?_,
      full := fun access a s k full slots => PageFault.exists_refilled full upright slots }
  · rcases PageFault.handled_or_stranded access a w.space (k := w.kernel) with
      ⟨r, s, k, handled, -⟩ | ⟨k, stopped, hstranded⟩
    · exact Or.inl ⟨r, s, k, handled, exists_spends_of_handled handled⟩
    · exact Or.inr ⟨_, k, stopped, rfl, hstranded.not_strandsNothing⟩
  · obtain ⟨c, -, covered, -⟩ := PageFault.exists_cached resolved
    exact PageFault.exists_again resolved
      (PageFault.coverage_ne_none_of_eq resolved upright covered)

/-- A life over sixteen frames, with one slot in the cache: a region is declared, the load prepared
and a page of it cached, all for three frames.  The heap then grows by a page, for a fourth, that
cannot be cached.  Raised again over an emptied cache, the fault is resolved. -/
theorem lifetime_sixteen_frames :
    ∃ fs w s k k', Lives ⟨{ History.sixteenFrames.kernel with cache := .empty 1 }, .new 1⟩ fs w ∧
      fs.length = 3 ∧ (w.space.placements.map Prod.snd).Perm fs ∧
      PageFault.handle .write ⟨0x3000, by decide⟩ (.within w.space) w.kernel =
        .ok (.error .cacheFull, .within s) k ∧
      k.allocator.freeFrames + 1 = w.kernel.allocator.freeFrames ∧
      (Kernel.invalidateAll >>= fun _ =>
        PageFault.handle .write ⟨0x3000, by decide⟩ (.within s)) k = .ok (.ok (), .within s) k' ∧
      k'.allocator = k.allocator := by
  have hrun : answers (Machine.answerSpace
      (.declareRegion ⟨0x1000, by decide⟩ 0x1000 ⟨true, true, false⟩))
      ⟨{ History.sixteenFrames.kernel with cache := .empty 1 }, .new 1⟩ (fun _ w =>
        answers (Machine.answerSpace .prepareLoad) w fun _ w =>
          decide (w.kernel.allocator.isInitialized = true) &&
          answers (PageFault.handle .write ⟨0x1000, by decide⟩ (.within w.space)) w.kernel
            fun p k => p.2.passes fun s =>
              decide (k.allocator.isInitialized = true ∧ s.table.entries.length = 3) &&
              answers (PageFault.handle .write ⟨0x3000, by decide⟩ (.within s)) k fun p' k' =>
                decide (p'.1 = .error .cacheFull ∧ k'.cache.capacity = 1 ∧
                  k'.allocator.freeFrames + 1 = k.allocator.freeFrames)) = true := by
    decide +kernel
  obtain ⟨reply₁, w₁, hdeclared, hrun⟩ := exists_of_answers hrun
  obtain ⟨reply₂, w₂, hprepared, hrun⟩ := exists_of_answers hrun
  obtain ⟨hbuilt₂, hrun⟩ := Bool.and_eq_true_iff.mp hrun
  replace hbuilt₂ := of_decide_eq_true hbuilt₂
  -- a page that is cached, and one that is not
  obtain ⟨r₃, s₃, k₃, hk₃, -⟩ :=
    PageFault.exists_handles .write ⟨0x1000, by decide⟩ w₂.space hbuilt₂
  obtain ⟨hafter, hrun⟩ := Bool.and_eq_true_iff.mp (test_of_answers hrun hk₃)
  obtain ⟨hbuilt₃, hthree⟩ := of_decide_eq_true hafter
  obtain ⟨r, s, k, hk, -⟩ := PageFault.exists_handles .write ⟨0x3000, by decide⟩ s₃ hbuilt₃
  obtain ⟨rfl, hslot, hfree⟩ := of_decide_eq_true (test_of_answers hrun hk)
  obtain ⟨fs₁, hspends₁⟩ := exists_spends_of_answered (Or.inl ⟨reply₁, hdeclared⟩)
  obtain ⟨fs₂, hspends₂⟩ := exists_spends_of_answered (Or.inl ⟨reply₂, hprepared⟩)
  obtain ⟨fs₃, hspends₃⟩ := exists_spends_of_handled hk₃
  have run := ((Lives.start.next hspends₁).next hspends₂).next hspends₃
  have lifetime := run.lifetime (AddressSpace.isReachable_new 1)
  obtain ⟨ps, htakes⟩ := lifetime.takes
  obtain ⟨k', hk', hallocator, -⟩ := lifetime.full _ _ s k hk (by rw [hslot]; decide)
  have hframes := htakes.placed.map Prod.snd
  rw [List.map_append, List.map_snd_zip (Nat.le_of_eq htakes.paired.symm)] at hframes
  have hlength := hframes.length_eq
  rw [List.length_map, AddressSpace.placements, List.length_map, hthree] at hlength
  exact ⟨_, ⟨k₃, s₃⟩, s, k, k', run, hlength.symm, hframes, hk, hfree, hk', hallocator⟩

end Workspace

/-! ### Spaces of a machine -/

/-- Requests about the space with a name: what is asked of it, and its faults. -/
def Request.concerns (A : SpaceName) : Request → Bool
  | .space name _ => decide (name = A)
  | .fault who _ _ => decide (who = .owner A)
  | _ => false

namespace Machine

variable {m : Machine} {A : SpaceName} {s : AddressSpace} {r : Request}

/-- A request about a space leaves the machine with what has become of the space. -/
theorem step_space (hA : m.space? A = some s) (q : SpaceRequest) :
    ∃ w', ((∃ reply, answerSpace q ⟨m.kernel, s⟩ = .ok reply w') ∨
        ∃ e, answerSpace q ⟨m.kernel, s⟩ = .error e w') ∧
      (m.step (.space A q)).2 = { m.putSpace A w'.space with kernel := w'.kernel } := by
  cases hanswer : answerSpace q ⟨m.kernel, s⟩ with
  | ok reply w' => exact ⟨w', Or.inl ⟨reply, rfl⟩, by simp [step, answer, onSpace, hA, hanswer]⟩
  | error e w' => exact ⟨w', Or.inr ⟨e, rfl⟩, by simp [step, answer, onSpace, hA, hanswer]⟩

/-- So does a fault within it. -/
theorem step_fault (hA : m.space? A = some s) {access : Access} {a : VirtAddr}
    {outcome : Except MemoryError Unit} {s' : AddressSpace} {k' : Kernel}
    (handled : PageFault.handle access a (.within s) m.kernel = .ok (outcome, .within s') k') :
    (m.step (.fault (.owner A) access a)).2 = { m.putSpace A s' with kernel := k' } := by
  have hends : Ends (answer (.fault (.owner A) access a)) m
      (fun _ m' => m' = { m.putSpace A s' with kernel := k' })
      fun _ m' => m' = { m.putSpace A s' with kernel := k' } := by
    unfold answer answerFault
    simp only [ends_bind, ends_get, ends_orUnknown, current?_owner hA, liftM_eq, ends_onKernel,
      ends_modify]
    unfold Ends
    rw [handled]
    cases outcome <;> cases A <;> rfl
  exact step_of_ends hends

/-- **Served a request** about a space, or one that is an aside to it, the machine has the space
still, and the space lives on. -/
theorem exists_spends {held : List Block} {tally : Tally}
    (custody : Custody m.kernel m.live held tally) (hA : m.space? A = some s)
    (hr : r.concerns A = true ∨ r.isAside A = true) :
    ∃ fs s', (m.step r).2.space? A = some s' ∧
      Workspace.Spends ⟨m.kernel, s⟩ fs ⟨(m.step r).2.kernel, s'⟩ := by
  rcases hr with hconcerns | haside
  · cases r with
    | space name q =>
        obtain rfl := of_decide_eq_true hconcerns
        obtain ⟨w', answered, hstep⟩ := step_space hA q
        obtain ⟨fs, hspends⟩ := Workspace.exists_spends_of_answered (w := ⟨m.kernel, s⟩)
          (answered.imp_right fun ⟨e, herror⟩ =>
            ⟨e, herror, fun hstrands => hstrands.2 (Or.inl custody.isInitialized)⟩)
        rw [hstep]
        exact ⟨fs, w'.space,
          (space?_withKernel _ w'.kernel).trans (space?_putSpace_self hA w'.space), hspends⟩
    | fault who access a =>
        obtain rfl := of_decide_eq_true hconcerns
        obtain ⟨outcome, s', k', handled, -⟩ :=
          PageFault.exists_handles access a s custody.isInitialized
        obtain ⟨fs, hspends⟩ := Workspace.exists_spends_of_handled (w := ⟨m.kernel, s⟩) handled
        rw [step_fault hA handled]
        exact ⟨fs, s',
          (space?_withKernel _ k').trans (space?_putSpace_self hA s'), hspends⟩
    | _ => cases hconcerns
  · have hspared : Spares A s m (m.step r).2 :=
      step_of_ends (passes_answer custody hA haside)
    exact ⟨[], s, hspared.space?, .aside _⟩

end Machine

namespace History

variable {start h : History} {rs : List Request} {A : SpaceName} {s : AddressSpace} {tally : Tally}

/-- **What a machine does with a space** is such a life, as long as its requests are about the space
or asides to it, by induction on the requests. -/
theorem Run.exists_lives (run : Run start rs h) (custody : start.InCustody tally)
    (hA : start.machine.space? A = some s)
    (only : ∀ r ∈ rs, r.concerns A = true ∨ r.isAside A = true) :
    ∃ fs s', h.machine.space? A = some s' ∧
      Workspace.Lives ⟨start.machine.kernel, s⟩ fs ⟨h.machine.kernel, s'⟩ := by
  induction run with
  | start => exact ⟨[], s, hA, .start⟩
  | next run r permitted alive ih =>
      obtain ⟨fs, s₁, hs₁, hlives⟩ := ih fun r hr => only r (List.mem_append_left _ hr)
      obtain ⟨room, -, hcustody⟩ := run.inCustody custody
      obtain ⟨gs, s', hs', hspends⟩ :=
        Machine.exists_spends hcustody hs₁ (only r (List.mem_append_right _ (by simp)))
      exact ⟨fs ++ gs, s', hs', hlives.next hspends⟩

end History

end DemandPaging
