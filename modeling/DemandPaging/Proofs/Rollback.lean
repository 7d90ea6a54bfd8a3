import DemandPaging.Proofs.Image
import DemandPaging.Proofs.Retaining

/-!
# Building that fails leaves nothing behind

Starting a program and copying a space take frames one by one, and room from the heap now and then,
and either may run out of them at any page.  What was built by then is destroyed.  This module says
that afterwards everything is as it was before (`History.all_or_nothing`): the frame map entry for
entry, the cache, the numbers of processes, the spaces and processes there are, and the bytes of
every frame that was not free.

**Why the map is the same one.**  It would be tedious to undo the allocations one by one, as they
fill holes and are freed in another order.  There is no need to: a frame map is determined by the
blocks it follows and by which frames are fixed (`FrameMap.Follows.unique`), because a frame in no
block has an entry that is reset.  Custody has the same blocks before and after, and nothing on the
way fixes a frame.

**Why the bytes are the same.**  What is built has frames only that were free, it writes to no
others, and destroying it writes nothing.
-/

namespace DemandPaging

/-! ### Frame maps and their blocks -/

/-- Whether the frame is never handed out. -/
def FrameState.isFixed : FrameState → Bool
  | fixed => true
  | _ => false

namespace FrameMap

/-- Which of the frames are fixed. -/
def outline (m : FrameMap) : List Bool := m.states.map FrameState.isFixed

/-- Frame states that agree on being fixed and are both not in use agree. -/
theorem eq_of_isFixed_eq {s s' : FrameState} (hfixed : s'.isFixed = s.isFixed)
    (hs : s ≠ .inUse) (hs' : s' ≠ .inUse) : s' = s := by
  cases s <;> cases s' <;> simp_all [FrameState.isFixed]

/-- Outside of all blocks no frame is in use. -/
theorem Follows.state_ne_inUse {m : FrameMap} {blocks : List Block} (h : m.Follows blocks) {i : Nat}
    (hnone : ¬ ∃ b ∈ blocks, b.Holds i) {e : FrameEntry} (he : m.entries[i]? = some e) :
    e.state ≠ .inUse := by
  intro hstate
  rw [FrameEntry.eq_inUse hstate] at he
  exact hnone (h.accounted i _ _ he)

/-- **A frame map is determined** by its blocks and its fixed frames. -/
theorem Follows.unique {m m' : FrameMap} {blocks : List Block} (h : m.Follows blocks)
    (h' : m'.Follows blocks) (ground : m'.outline = m.outline) : m' = m := by
  have hentry : ∀ i : Nat, m'.entries[i]? = m.entries[i]? := by
    intro i
    by_cases hblock : ∃ b ∈ blocks, b.Holds i
    · obtain ⟨b, hb, hholds⟩ := hblock
      rw [h.recorded b hb i hholds, h'.recorded b hb i hholds]
    · -- outside of all blocks a frame is free or fixed, and its entry is reset
      have hground := congrArg (fun l => l[i]?) ground
      simp only [outline, states, List.map_map, List.getElem?_map] at hground
      cases hold : m.entries[i]? with
      | none => simpa [hold] using hground
      | some e =>
          rw [hold] at hground
          obtain ⟨e', hnew, hfixed⟩ := Option.map_eq_some_iff.mp hground
          have hidle := h.state_ne_inUse hblock hold
          have hidle' := h'.state_ne_inUse hblock hnew
          have hstate := eq_of_isFixed_eq hfixed hidle hidle'
          rw [hnew, (h.reset e (List.mem_of_getElem? hold)).eq
            (h'.reset e' (List.mem_of_getElem? hnew)) hidle hstate]
  have hentries : m'.entries = m.entries := List.ext_getElem? hentry
  have hcount : m'.freeCount = m.freeCount := by rw [h.counted, h'.counted, hentries]
  cases m
  cases m'
  cases hentries
  cases hcount
  rfl

/-- Handing out fixes nothing, and hands out nothing fixed. -/
theorem outline_occupy {m : FrameMap} {first count : Nat} (h : FreeRun m.states first count) :
    (m.occupy first count).outline = m.outline := by
  refine List.ext_getElem? fun i => ?_
  simp only [outline, List.getElem?_map, state_occupy h]
  split
  · next hin =>
      rw [h i hin.1 hin.2]
      rfl
  · rfl

/-- Taking a block back fixes nothing either, as its frames were in use. -/
theorem Follows.outline_vacate {m : FrameMap} {b : Block} {blocks : List Block}
    (h : m.Follows (b :: blocks)) : (m.vacate b.head.index b.count).outline = m.outline := by
  refine List.ext_getElem? fun i => ?_
  simp only [outline, List.getElem?_map, state_vacate]
  split
  · next hin =>
      rw [h.state_eq List.mem_cons_self hin]
      rfl
  · rfl

end FrameMap

/-- The window, and which of the frames are fixed. -/
def Allocator.outline (a : Allocator) : VirtAddr × List Bool :=
  match a.source with
  | .booting _ => (a.window, [])
  | .mapped m => (a.window, m.outline)

theorem Allocator.outline_mapped {a : Allocator} {m : FrameMap} (h : a.source = .mapped m) :
    a.outline = (a.window, m.outline) := by
  unfold outline
  rw [h]

/-- An allocator with a map is determined by the blocks and the outline. -/
theorem Allocator.eq_of_follows {a a' : Allocator} {m m' : FrameMap} {blocks : List Block}
    (hm : a.source = .mapped m) (hm' : a'.source = .mapped m') (h : m.Follows blocks)
    (h' : m'.Follows blocks) (ground : a'.outline = a.outline) : a' = a := by
  rw [outline_mapped hm, outline_mapped hm'] at ground
  obtain ⟨hwindow, houtline⟩ := Prod.mk.inj ground
  obtain rfl := h.unique h' houtline
  calc
    a' = ⟨a'.window, a'.source⟩ := rfl
    _ = ⟨a.window, a.source⟩ := by rw [hwindow, hm', hm]

namespace Custody

variable {k k' : Kernel} {live rest : List AddressSpace} {held : List Block}
  {tally tally' : Tally} {w w' : Workspace}

/-- **Custody determines the allocator**, but for what is fixed. -/
theorem allocator_eq (h : Custody k live held tally) (h' : Custody k' live held tally')
    (ground : k'.allocator.outline = k.allocator.outline) : k'.allocator = k.allocator := by
  obtain ⟨m, hm, hfollows⟩ := h.follows
  obtain ⟨m', hm', hfollows'⟩ := h'.follows
  exact Allocator.eq_of_follows hm hm' hfollows hfollows' ground

theorem outline_move (h : Custody w.kernel (w.space :: rest) held tally) (hmove : w.Move w') :
    w'.kernel.allocator.outline = w.kernel.allocator.outline := by
  cases hmove with
  | mapped p flags f a t grown room taken inserted =>
      obtain ⟨m, hm, hfollows⟩ := h.follows
      rw [Allocator.allocate_mapped hm] at taken
      rcases FrameMap.allocate_cases hfollows.counted 1 with
        ⟨g, hgrant, -, hfree, -⟩ | ⟨hrefuse, -⟩
      · rw [hgrant] at taken
        cases taken
        rw [Allocator.outline_mapped hm]
        exact congrArg (Prod.mk _) (FrameMap.outline_occupy hfree)
      · rw [hrefuse] at taken
        cases taken
  | refused p f a a' cramped taken back =>
      exact congrArg Allocator.outline (h.givesBack_eq taken back)
  | _ => rfl

/-- **Building fixes no frame**, by induction on the moves. -/
theorem outline_path (h : Custody w.kernel (w.space :: rest) held tally) (hpath : w.Path w') :
    w'.kernel.allocator.outline = w.kernel.allocator.outline := by
  induction hpath with
  | refl => rfl
  | tail hpath₁ hmove ih => exact ((h.path hpath₁).outline_move hmove).trans ih

/-- Freeing frame after frame changes nothing but entries of the frame map that are not fixed, by
induction on the frames. -/
theorem ends_freeEntries_outline :
    ∀ {es : List PageEntry} {k : Kernel},
      Custody k live (es.map (fun e => ⟨e.frame, 1⟩) ++ held) tally →
      Ends (PageTable.freeEntries es) k
        (fun _ k' => k'.allocator.outline = k.allocator.outline ∧
          k' = { k with allocator := k'.allocator })
        fun _ _ => False := by
  intro es
  induction es with
  | nil =>
      intro k _
      exact ⟨rfl, rfl⟩
  | cons e rest ih =>
      intro k h
      obtain ⟨m, hm, hfollows⟩ := h.follows
      have hfront := hfollows.perm List.perm_middle
      obtain ⟨a, hfree, h'⟩ := h.free
      have houtline : a.outline = k.allocator.outline := by
        rw [Allocator.free_mapped hm, hfront.free_head List.mem_cons_self] at hfree
        obtain rfl := Except.ok.inj hfree
        rw [Allocator.outline_mapped hm]
        exact congrArg (Prod.mk _) hfront.outline_vacate
      unfold PageTable.freeEntries Kernel.free
      simp only [ends_bind, ends_get, Kernel.ends_orHalt, ends_modify, hfree]
      refine Ends.mono (ih h') ?_ fun _ _ hfalse => hfalse
      rintro _ k' ⟨hground, hrest⟩
      exact ⟨hground.trans houtline, hrest⟩

end Custody

/-! ### Undoing -/

/-- A space with an empty table has no frames. -/
theorem AddressSpace.frames_of_blank {s : AddressSpace} {n : Nat} (h : s.table = .blank n) :
    s.frames = [] := by
  simp [frames, h]

/-- No move gives a process its number. -/
theorem Workspace.Path.nextPid_eq {w w' : Workspace} (h : w.Path w') :
    w'.kernel.nextPid = w.kernel.nextPid := by
  induction h with
  | refl => rfl
  | tail _ hmove ih =>
      refine Eq.trans ?_ ih
      cases hmove <;> rfl

/-- **Intact.**  The kernel is the same, as far as frames in use, cached mappings and processes are
concerned.  Reports and numbers of spaces are not given back. -/
structure Kernel.Intact (k k' : Kernel) : Prop where
  allocator : k'.allocator = k.allocator
  cache : k'.cache = k.cache
  nextPid : k'.nextPid = k.nextPid
  /-- Only free frames have been written to. -/
  bytes : ∀ f, k.allocator.state? f ≠ some .free → k'.memory.contents f = k.memory.contents f

theorem Kernel.Intact.refl (k : Kernel) : k.Intact k := ⟨rfl, rfl, rfl, fun _ _ => rfl⟩

/-- Nor do reports matter. -/
theorem Kernel.Intact.of_quiet {k : Kernel} {w w' : Workspace} (h : k.Intact w.kernel)
    (hquiet : w.Quiet w') : k.Intact w'.kernel :=
  ⟨hquiet.allocator.trans h.allocator, hquiet.cache.trans h.cache,
    (congrArg Kernel.nextPid hquiet.kernel).trans h.nextPid,
    fun f hf => by rw [hquiet.memory, h.bytes f hf]⟩

/-- It does not matter that the heap was asked, and a space given a number, in between. -/
theorem Kernel.Intact.of_numbered {k k' : Kernel} {heap : List Bool} {n : SpaceId}
    (h : Kernel.Intact { k with heap, nextSpace := n } k') : k.Intact k' :=
  ⟨h.allocator, h.cache, h.nextPid, h.bytes⟩

namespace Custody

variable {live rest : List AddressSpace} {held : List Block} {tally : Tally}

/-- Giving up a space changes nothing but entries of the frame map that are not fixed, and what was
reported. -/
theorem ends_destroy_outline {k : Kernel} {s : AddressSpace}
    (h : Custody k (s :: rest) held tally) :
    Ends s.destroy k
      (fun _ k' => k'.allocator.outline = k.allocator.outline ∧
        k' = { k with allocator := k'.allocator, journal := k'.journal })
      fun _ _ => False := by
  unfold AddressSpace.destroy PageTable.release
  simp only [ends_bind, Kernel.ends_record]
  refine Ends.mono h.disown_entries.ends_freeEntries_outline ?_ fun _ _ hfalse => hfalse
  rintro _ k' ⟨houtline, hk'⟩
  rw [hk']
  exact ⟨houtline, rfl⟩

/-- A space that had no frame in the beginning has written only to what was free. -/
theorem contents_of_path {w w' : Workspace} (h : Custody w.kernel (w.space :: rest) held tally)
    (hempty : w.space.frames = []) (hpath : w.Path w') {f : Frame}
    (hf : w.kernel.allocator.state? f ≠ some .free) :
    w'.kernel.memory.contents f = w.kernel.memory.contents f := by
  refine hpath.grows.untouched f (fun hmapped => ?_) (Or.inl ⟨h.isInitialized, hf⟩)
  rcases (h.takesFree hpath).taken f hmapped with hold | hfree
  · rw [hempty] at hold
    cases hold
  · exact hf hfree

/-- **Undoing.**  A space that had no frame in the beginning is destroyed, however far it has got:
the kernel is intact. -/
theorem ends_undo {w w' : Workspace} (h : Custody w.kernel (w.space :: live) held tally)
    (hempty : w.space.frames = []) (hpath : w.Path w')
    (hcache : w'.kernel.cache = w.kernel.cache) :
    Ends w'.space.destroy w'.kernel (fun _ k' => w.kernel.Intact k') fun _ _ => False := by
  have hbuilt := h.path hpath
  have hbefore : Custody w.kernel live held tally := by
    have hdisowned := h.disown
    rwa [AddressSpace.blocks, hempty, List.map_nil, List.nil_append] at hdisowned
  refine Ends.mono (hbuilt.ends_destroy.and hbuilt.ends_destroy_outline) ?_ fun _ _ h' => h'.1
  rintro _ k' ⟨hafter, houtline, hk'⟩
  constructor
  · exact hbefore.allocator_eq hafter (houtline.trans (h.outline_path hpath))
  · rw [hk']
    exact hcache
  · rw [hk']
    exact hpath.nextPid_eq
  · intro f hf
    rw [hk']
    exact h.contents_of_path hempty hpath hf

end Custody

/-- After a failure `P` holds, and the kernel does not stop. -/
def Abort.Fails (P : Prop) : Abort → Prop
  | .failed _ => P
  | .halted _ => False

/-- **Copying** succeeds, or fails and leaves the kernel intact. -/
theorem AddressSpace.ends_duplicate_intact {k : Kernel} {live : List AddressSpace}
    {held : List Block} {tally : Tally} (h : Custody k live held tally) (source : AddressSpace) :
    Ends source.duplicate k (fun _ _ => True) fun e k' => e.Fails (k.Intact k') := by
  have hrefused : ∀ heap, k.Intact { k with heap } := fun _ => ⟨rfl, rfl, rfl, fun _ _ => rfl⟩
  unfold duplicate
  refine Kernel.ends_claim_bind (fun _ => ?_) hrefused
  refine Kernel.ends_claim_bind (fun heap => ?_) hrefused
  have hshell : Custody { k with heap, nextSpace := k.nextSpace + 1 }
      (source.shell k.nextSpace :: live) held tally := (h.withHeap heap).add rfl rfl
  unfold Kernel.freshSpace
  simp only [ends_bind, ends_modifyGet]
  rw [SpaceM.ends_attempt]
  refine Ends.mono ((walks_copyFrom source rfl rfl).and (retains_copyFrom source _))
    (fun _ _ _ => trivial) ?_
  rintro e w ⟨⟨hpath, -, hstarved⟩, hcache⟩
  -- running out of memory is the only way to fail
  obtain rfl := hstarved.shortage.of_built (hshell.path (w := ⟨_, _⟩) hpath).isInitialized
  have hreported := hpath.trans (Workspace.Move.reported (.duplicationFailed .outOfMemory) rfl).path
  have hundo := hshell.ends_undo (w := ⟨_, _⟩) (frames_of_blank rfl) hreported hcache
  simp only [ends_bind, Kernel.ends_record, Kernel.ends_fail]
  exact hundo.mono (fun _ _ hintact => hintact.of_numbered) fun _ _ hfalse => hfalse.elim

/-! ### Loading never stops the kernel -/

/-- The bytes of a segment that can be declared have addresses, in pages of the segment. -/
theorem Segment.exists_add_of_region {g : Segment} {r : Region} (h : g.region = .ok r) {i : Nat}
    (hi : i < g.bytes.length) : ∃ b, g.address.add i = .ok b ∧ g.covers b.page = true := by
  unfold region Region.declare at h
  split at h
  · cases h
  · next len hspan =>
      split at h
      · next hfits =>
          have hlen := Region.span?_eq_some hspan
          have hsplit := g.address.page_start_add_offset
          have hsize : g.bytes.length ≤ g.size := Nat.le_max_right _ _
          simp only [roundUp, pageSize, userSpaceEnd, Page.start_val, VirtAddr.page_index]
            at hlen hfits hsplit
          refine ⟨⟨g.address.val + i, Or.inl (by omega)⟩, VirtAddr.add_eq_ok_iff.mpr rfl, ?_⟩
          unfold covers
          rw [decide_eq_true_iff]
          simp only [roundUp, pageSize, Page.start_val, VirtAddr.page_index]
          omega
      · cases h

namespace Program

open SpaceM

variable {w : Workspace}

/-- Every segment that is declared has a region. -/
theorem Declares.exists_region {segments : List Segment} {rs : List Region}
    (h : Declares segments rs) {g : Segment} (hg : g ∈ segments) : ∃ r, g.region = .ok r := by
  induction h with
  | nil => cases hg
  | cons hregion _ ih =>
      rcases List.mem_cons.mp hg with rfl | hg
      · exact ⟨_, hregion⟩
      · exact ih hg

/-- Before loading has begun, declaring regions may fail, but never stops the kernel. -/
theorem ends_declareAll_of_open :
    ∀ (segments : List Segment) {w : Workspace}, w.space.loaded = false →
      Ends (declareAll segments) w (fun _ _ => True) fun e _ => e.Fails True
  | [], _, _ => trivial
  | g :: rest, w, hopen => by
      unfold declareAll AddressSpace.declareRegion
      simp only [liftM_eq, ends_bind, ends_space, ends_onKernel, ends_ite, Kernel.ends_halt,
        Kernel.ends_orFail, Kernel.ends_record, Kernel.ends_claim, ends_modifySpace]
      rw [if_neg (Bool.eq_false_iff.mp hopen)]
      split
      · split
        · exact ends_declareAll_of_open rest hopen
        · trivial
      · trivial

/-- Where nothing is in the way of any segment, writing them all is answered. -/
theorem ends_writeAll_of_mapped :
    ∀ (segments : List Segment) {w : Workspace}, w.space.frames.Nodup →
      (∀ g ∈ segments, w.view.obstacle? g.address 0 g.bytes.length = none) →
      Ends (writeAll segments) w (fun _ _ => True) fun _ _ => False
  | [], _, _, _ => trivial
  | g :: rest, w, hnodup, hfree => by
      have hfirst := hfree g List.mem_cons_self
      have hwrite :
          w.view.write g.address g.bytes = (.ok (), w.view.store g.address.val g.bytes) := by
        unfold View.write
        rw [hfirst]
      unfold writeAll
      simp only [liftM_eq, ends_bind, ends_space, ends_onKernel]
      refine Ends.mono (AddressSpace.ends_write hnodup g.address g.bytes) ?_ ?_
      · rintro _ k ⟨hview, -⟩
        refine ends_writeAll_of_mapped rest hnodup fun g' hg' => ?_
        have hstored : (⟨k, w.space⟩ : Workspace).view = w.view.store g.address.val g.bytes :=
          (congrArg Prod.snd (hview.symm.trans hwrite))
        rw [hstored, View.obstacle?_store]
        exact hfree g' (List.mem_cons_of_mem _ hg')
      · rintro e k ⟨hview, -⟩
        cases congrArg Prod.fst (hview.symm.trans hwrite)

/-- **Writing cannot fail** once the pages of the load have been filled: every byte of a segment
lies in one of them. -/
theorem ends_writeAll_of_filled {segments : List Segment} {w₁ w₂ : Workspace}
    (hdeclared : Declares segments w₁.space.regions.regions)
    (hfilled : Filled (AddressSpace.loadPages w₁.space.regions) w₁ w₂)
    (hnodup : w₂.space.frames.Nodup) :
    Ends (writeAll segments) w₂ (fun _ _ => True) fun _ _ => False := by
  refine ends_writeAll_of_mapped segments hnodup fun g hg => ?_
  obtain ⟨r, hregion⟩ := hdeclared.exists_region hg
  refine View.obstacle?_eq_none fun i hi => ?_
  rw [Nat.zero_add]
  obtain ⟨b, hb, hcovers⟩ := g.exists_add_of_region hregion hi
  have hmapped : w₂.Maps b.page := by
    refine (hfilled.maps_iff b.page).mpr (Or.inr ?_)
    rw [AddressSpace.mem_loadPages_iff, hdeclared.any_covers]
    exact Or.inl (List.any_eq_true.mpr ⟨g, hg, hcovers⟩)
  unfold View.obstacleAt?
  rw [hb]
  have hseen : (w₂.view.pages b.page).isSome = true := by
    simpa [Workspace.view, AddressSpace.view, Workspace.Maps] using hmapped
  simp only [hseen, if_true]

/-- **Loading a program into a new space** succeeds or fails: what is written was mapped before. -/
theorem ends_load_of_new {live : List AddressSpace} {held : List Block} {tally : Tally}
    (h : Custody w.kernel (w.space :: live) held tally) (hopen : w.space.loaded = false)
    (hregions : w.space.regions.regions = []) (segments : List Segment) :
    Ends (load segments) w (fun _ _ => True) fun e _ => e.Fails True := by
  unfold load
  rw [ends_bind]
  refine Ends.mono (((wanders_declareAll segments).and (ends_declareAll segments)).and
    (ends_declareAll_of_open segments hopen)) ?_ fun e _ h₁ => h₁.2
  rintro _ w₁ ⟨⟨⟨hpath₁, -⟩, rs, hdeclared, hview₁⟩, -⟩
  have hrs : w₁.space.regions.regions = rs := by
    have hlist := congrArg (fun v => v.regions.regions) hview₁
    simp only [View.declare, RegionList.regions_foldl_push] at hlist
    have hnone : w.view.regions.regions = [] := hregions
    rwa [hnone, List.nil_append] at hlist
  rw [ends_bind]
  refine Ends.mono AddressSpace.walks_prepareLoad ?_ ?_
  · rintro _ w₂ ⟨hpath₂, hfilled, -⟩
    have hnodup : w₂.space.frames.Nodup :=
      ((h.path hpath₁).path hpath₂).nodup_of_mem List.mem_cons_self
    rw [ends_bind]
    exact Ends.mono (ends_writeAll_of_filled (hrs ▸ hdeclared) hfilled hnodup)
      (fun _ _ _ => trivial) fun _ _ hfalse => hfalse.elim
  · rintro e w₂ ⟨hpath₂, -, hstarved⟩
    rw [hstarved.shortage.of_built ((h.path hpath₁).path hpath₂).isInitialized]
    trivial

/-- **Starting a program** succeeds, or fails and leaves the kernel intact. -/
theorem ends_start_intact {k : Kernel} {live : List AddressSpace} {held : List Block}
    {tally : Tally} (h : Custody k live held tally) (segments : List Segment)
    (entryPoint : VirtAddr) :
    Ends (start segments entryPoint) k (fun _ _ => True) fun e k' => e.Fails (k.Intact k') := by
  unfold start
  rw [ends_bind]
  refine AddressSpace.ends_create (fun heap => ?_) fun _ => ⟨rfl, rfl, rfl, fun _ _ => rfl⟩
  have hnew : Custody { k with heap, nextSpace := k.nextSpace + 1 } (.new k.nextSpace :: live) held
      tally := (h.withHeap heap).add rfl rfl
  rw [ends_bind, ends_attempt]
  refine Ends.mono (((wanders_load segments).and (retains_load segments _)).and
    (ends_load_of_new (w := ⟨_, _⟩) hnew rfl rfl segments)) (fun _ _ _ => trivial) ?_
  rintro e w ⟨⟨⟨hpath, -⟩, hcache⟩, hfails⟩
  cases e with
  | failed error =>
      have hundo := hnew.ends_undo (w := ⟨_, _⟩) (AddressSpace.frames_of_blank rfl) hpath hcache
      simp only [ends_bind, Kernel.ends_fail]
      exact hundo.mono (fun _ _ hintact => hintact.of_numbered) fun _ _ hfalse => hfalse.elim
  | halted halt => exact hfails.elim

end Program

/-! ### Requests that build -/

/-- **Forking** succeeds, or fails and leaves the kernel intact. -/
theorem Process.ends_fork_intact {k : Kernel} {live : List AddressSpace} {held : List Block}
    {tally : Tally} (h : Custody k live held tally) (parent : Process) :
    Ends parent.fork k (fun _ _ => True) fun e k' => e.Fails (k.Intact k') := by
  unfold fork
  split
  · exact Kernel.Intact.refl k
  · next s _ =>
      unfold forkWith create Kernel.freshPid
      simp only [ends_bind, ends_modifyGet, Kernel.ends_record, ends_pure]
      exact AddressSpace.ends_duplicate_intact h s

/-- Requests for a space or a process made of a program or of another space. -/
def Request.builds : Request → Bool
  | .startProgram _ _ => true
  | .duplicateSpace _ => true
  | .fork _ => true
  | .forkCall _ => true
  | _ => false

/-- After a failure of the request `P` holds, and the machine does not stop. -/
def Refusal.Fails (P : Prop) : Refusal → Prop
  | .unknownName => P
  | .aborted e => e.Fails P

namespace Machine

variable {m : Machine} {held : List Block} {tally : Tally}

/-- **Intact**: the kernel is, and everybody else is the same. -/
structure Intact (m m' : Machine) : Prop where
  kernel : m.kernel.Intact m'.kernel
  tables : m'.tables = m.tables
  spaces : m'.spaces = m.spaces
  processes : m'.processes = m.processes

theorem Intact.refl (m : Machine) : m.Intact m := ⟨.refl _, rfl, rfl, rfl⟩

/-- How many spaces and processes have been added. -/
def population (m : Machine) : Nat := m.spaces.length + m.processes.length

/-- **Outcomes of failure**: an error, or the number of an error as the answer of a system call. -/
def ReportsFailure (o : Outcome) : Prop :=
  (∃ refusal, o = .error refusal) ∨ ∃ e, o = .ok (.number (SystemCall.encode (.error e)))

/-- **Builds.**  The operation adds a space or a process, or fails and leaves the machine
intact. -/
def Builds {α : Type} (x : MachineM α) (m : Machine) : Prop :=
  Ends x m (fun _ m' => m'.population = m.population + 1) fun e m' => e.Fails (m.Intact m')

/-- What the kernel alone does leaves everybody else the same. -/
theorem Intact.withKernel {k : Kernel} (h : m.kernel.Intact k) :
    m.Intact { m with kernel := k } :=
  ⟨h, rfl, rfl, rfl⟩

/-- The kernel operation that a request comes down to decides whether the machine is intact. -/
theorem Builds.of_kernel {α β : Type} {x : KernelM α} {y : α → MachineM β}
    (hx : Ends x m.kernel (fun _ _ => True) fun e k' => e.Fails (m.kernel.Intact k'))
    (hy : ∀ a k', Ends (y a) { m with kernel := k' }
      (fun _ m' => m'.population = m.population + 1) fun _ _ => False) :
    Builds (onKernel x >>= y) m := by
  unfold Builds
  rw [ends_bind, ends_onKernel]
  refine Ends.mono hx (fun a k' _ => ?_) fun e k' hfails => ?_
  · exact (hy a k').mono (fun _ _ h => h) fun _ _ hfalse => hfalse.elim
  · cases e with
    | failed error => exact Intact.withKernel hfails
    | halted halt => exact hfails

theorem builds_startProgram (h : Custody m.kernel m.live held tally) (segments : List Segment)
    (entryPoint : VirtAddr) : Builds (answer (.startProgram segments entryPoint)) m := by
  unfold answer
  refine Builds.of_kernel (Program.ends_start_intact h segments entryPoint) fun p k' => ?_
  simp only [ends_bind, ends_addProcess, ends_pure, population, List.length_append,
    List.length_singleton, Nat.add_assoc]

theorem builds_duplicateSpace (h : Custody m.kernel m.live held tally) (name : SpaceName) :
    Builds (answer (.duplicateSpace name)) m := by
  unfold answer Builds
  simp only [ends_bind, ends_get, ends_orUnknown]
  split
  · next s _ =>
      refine (ends_bind _ _).mp (Builds.of_kernel (AddressSpace.ends_duplicate_intact h s)
        fun copy k' => ?_)
      simp only [ends_addSpace, population, List.length_append, List.length_singleton]
      omega
  · exact Intact.refl m

theorem builds_fork (h : Custody m.kernel m.live held tally) (n : Nat) : Builds (fork n) m := by
  unfold fork Builds
  rw [ends_bind]
  refine ends_process (fun p _ => ?_) (Intact.refl m)
  refine Builds.of_kernel (Process.ends_fork_intact h p) fun child k' => ?_
  simp only [ends_bind, ends_addProcess, ends_pure, population, List.length_append,
    List.length_singleton, Nat.add_assoc]

/-- As a system call, forking adds a process, or answers the number of an error and leaves the
machine intact. -/
theorem ends_forkCall_intact (h : Custody m.kernel m.live held tally) (n : Nat) :
    Ends (forkCall n) m
      (fun reply m' => m'.population = m.population + 1 ∨
        (∃ e, reply = .number (SystemCall.encode (.error e))) ∧ m.Intact m')
      fun e m' => e.Fails (m.Intact m') := by
  have hfork := builds_fork h n
  -- `forkCall` looks at the result itself, so the cases are those of `fork`
  unfold Builds Ends at hfork
  unfold Ends forkCall
  split at hfork
  · next heq =>
      simp only [heq]
      exact Or.inl hfork
  · next e m' heq =>
      rcases e with _ | ⟨e | halt⟩
      · simpa only [heq] using hfork
      · simp only [heq]
        exact Or.inr ⟨⟨e, rfl⟩, hfork⟩
      · exact hfork.elim

/-- **Every request that builds**, whatever comes of it. -/
theorem ends_answer_of_builds (h : Custody m.kernel m.live held tally) {r : Request}
    (builds : r.builds = true) :
    Ends (answer r) m
      (fun reply m' => m'.population = m.population + 1 ∨
        (∃ e, reply = .number (SystemCall.encode (.error e))) ∧ m.Intact m')
      fun e m' => e.Fails (m.Intact m') := by
  cases r with
  | startProgram segments entryPoint =>
      exact (builds_startProgram h segments entryPoint).mono (fun _ _ => Or.inl) fun _ _ h => h
  | duplicateSpace name =>
      exact (builds_duplicateSpace h name).mono (fun _ _ => Or.inl) fun _ _ h => h
  | fork n =>
      unfold answer
      simp only [ends_bind, ends_pure]
      exact (builds_fork h n).mono (fun _ _ => Or.inl) fun _ _ h => h
  | forkCall n => exact ends_forkCall_intact h n
  | _ => cases builds

end Machine

namespace History

variable {h : History} {rs : List Request} {r : Request}

/-- **All or nothing.**  At any point of a history from a fresh machine, let a program be started,
a space be copied or a process be forked, and let frames or room in the heap run out anywhere on
the way.  The machine does not stop, and either there is a space or a process more, or the outcome
is a failure and nothing has happened: allocator and frame map are what they were, so are the
cache, the number of the next process and all spaces and processes, and so are the bytes of every
frame that was not free. -/
theorem all_or_nothing {m : Machine} (fresh : m.IsFresh) (run : Run ⟨m, []⟩ rs h)
    (builds : r.builds = true) :
    Machine.hasHalted (h.machine.step r).1 = false ∧
      ((∃ reply, (h.machine.step r).1 = .ok reply ∧
          (h.machine.step r).2.population = h.machine.population + 1) ∨
        Machine.ReportsFailure (h.machine.step r).1 ∧
          h.machine.Intact (h.machine.step r).2) := by
  obtain ⟨room, -, hc⟩ := run.inCustody (inCustody_of_isFresh fresh)
  rcases Machine.step_cases (Machine.ends_answer_of_builds hc builds) with
    ⟨reply, m', hstep, hanswer⟩ | ⟨e, m', hstep, hfails⟩
  · rw [hstep]
    refine ⟨rfl, ?_⟩
    rcases hanswer with hmore | ⟨⟨e, rfl⟩, hintact⟩
    · exact Or.inl ⟨reply, rfl, hmore⟩
    · exact Or.inr ⟨Or.inr ⟨e, rfl⟩, hintact⟩
  · rw [hstep]
    rcases e with _ | ⟨error | halt⟩
    · exact ⟨rfl, Or.inr ⟨Or.inl ⟨_, rfl⟩, hfails⟩⟩
    · exact ⟨rfl, Or.inr ⟨Or.inl ⟨_, rfl⟩, hfails⟩⟩
    · exact hfails.elim

/-- A program of sixty-five pages. -/
def bigProgram : Request :=
  .startProgram [⟨⟨0x5004, by decide⟩, [7], 0x40ffc, ⟨true, true, false⟩⟩] ⟨0x5008, by decide⟩

/-- A fork that fails over sixteen frames: a process has four pages, a caller's block has left a
hole in front of the other frames, and the second child finds three frames where it needs four.
And a program that cannot be started as its page table finds no room to grow. -/
theorem all_or_nothing_for_want_of_frames_or_room :
    (∃ rs h, Run ⟨sixteenFrames, []⟩ rs h ∧ rs.length = 5 ∧
      h.machine.kernel.allocator.freeFrames = 3 ∧
      (h.machine.step (.fork 0)).1.isOk = false ∧
      h.machine.Intact (h.machine.step (.fork 0)).2) ∧
    (narrowHeap.step bigProgram).1.isOk = false ∧
      (narrowHeap.step bigProgram).2.kernel.heap = [false] ∧
      narrowHeap.Intact (narrowHeap.step bigProgram).2 := by
  have started : Run ⟨sixteenFrames, []⟩ _ _ :=
    ((Run.start.next (.frames (.allocate 1)) trivial (by decide +kernel)).next
      (.frames (.allocate 2)) trivial (by decide +kernel)).next
      (.startProgram threeSegments ⟨0x1004, by decide⟩) trivial (by decide +kernel)
  have run : Run ⟨sixteenFrames, []⟩ _ _ :=
    (started.next (.frames (.free ⟨2, by decide⟩)) ⟨⟨⟨2, by decide⟩, 1⟩, by decide +kernel, rfl⟩
      (by decide +kernel)).next (.fork 0) trivial (by decide +kernel)
  obtain ⟨rs, h, run, hlength, hfree, hfails⟩ :
      ∃ rs h, Run ⟨sixteenFrames, []⟩ rs h ∧ rs.length = 5 ∧
        h.machine.kernel.allocator.freeFrames = 3 ∧ (h.machine.step (.fork 0)).1.isOk = false :=
    ⟨_, _, run, rfl, by decide +kernel, by decide +kernel⟩
  have hrefused : (narrowHeap.step bigProgram).1.isOk = false := by decide +kernel
  refine ⟨⟨rs, h, run, hlength, hfree, hfails, ?_⟩, hrefused, by decide +kernel, ?_⟩
  · rcases (all_or_nothing isFresh_sixteenFrames run (r := .fork 0) rfl).2 with
      ⟨reply, hreply, -⟩ | ⟨-, hintact⟩
    · rw [hreply] at hfails
      cases hfails
    · exact hintact
  · rcases (all_or_nothing isFresh_narrowHeap .start (r := bigProgram) rfl).2 with
      ⟨reply, hreply, -⟩ | ⟨-, hintact⟩
    · cases hrefused.symm.trans (congrArg Except.isOk hreply)
    · exact hintact

end History

end DemandPaging
