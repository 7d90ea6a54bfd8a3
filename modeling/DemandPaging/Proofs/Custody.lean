import DemandPaging.Proofs.Bootstrap
import DemandPaging.Proofs.Growth

/-!
# Who owns which frame

A frame in use belongs to somebody: to the space that maps it, or to a caller in the kernel
who was given it.  `Custody` says so for the frame map, the spaces there are and the blocks
callers hold, all at once: the frame map follows the list of blocks in which every mapped
frame is a block of one frame.  That the list is one of pairwise disjoint blocks is what
forbids two mappings of one frame, whether in one space or in two.

**Which clause carries what.**  Giving up a space cannot stop the kernel because each of its
frames is the head of a listed block.  Room is conserved because a frame only ever moves
between the free frames and the blocks.  The two clauses on numbers make the space that a
report is about unique, and that a space was prepared is remembered in the journal, which
nothing ever shortens.

**One space at a time.**  `Custody` does not depend on the order of spaces
(`Custody.perm_live`), so an operation on one of them is looked at with this space in front.
-/

namespace DemandPaging

/-- The frames a space maps, as blocks. -/
def AddressSpace.blocks (s : AddressSpace) : List Block := s.frames.map fun f => ⟨f, 1⟩

/-- The frames that spaces map, as blocks. -/
def mappedBlocks (live : List AddressSpace) : List Block := live.flatMap AddressSpace.blocks

/-- How many frames blocks have. -/
def frameTotal : List Block → Nat
  | [] => 0
  | b :: rest => b.count + frameTotal rest

/-- **Well-formed page tables**: one entry for a page, and the entries counted. -/
structure PageTable.WellFormed (t : PageTable) : Prop where
  pages : (t.entries.map PageEntry.page).Nodup
  counted : t.inUse = t.entries.length

/-- **Tallies**: what stands while spaces come and go. -/
structure Tally where
  /-- How many frames there are that are not fixed. -/
  room : Nat
  /-- Some of the spaces that were prepared for load. -/
  prepared : List SpaceId

/-- **Custody**: the spaces there are and the blocks that kernel callers hold have all frames
in use between them. -/
structure Custody (k : Kernel) (live : List AddressSpace) (held : List Block) (tally : Tally) :
    Prop where
  follows : ∃ m, k.allocator.source = .mapped m ∧ m.Follows (mappedBlocks live ++ held)
  conserved : k.allocator.freeFrames + frameTotal (mappedBlocks live ++ held) = tally.room
  tables : ∀ s ∈ live, s.table.WellFormed
  numbered : ∀ s ∈ live, s.id < k.nextSpace
  distinct : (live.map AddressSpace.id).Nodup
  /-- Reports are about past or present spaces, and these are still prepared. -/
  prepared : ∀ i, k.HasPrepared i →
    i < k.nextSpace ∧ ∀ s ∈ live, s.id = i → s.IsPrepared
  remembered : ∀ i ∈ tally.prepared, k.HasPrepared i

/-! ### Counting frames -/

@[simp] theorem frameTotal_nil : frameTotal [] = 0 := rfl

@[simp] theorem frameTotal_cons (b : Block) (bs : List Block) :
    frameTotal (b :: bs) = b.count + frameTotal bs := rfl

theorem frameTotal_append (bs cs : List Block) :
    frameTotal (bs ++ cs) = frameTotal bs + frameTotal cs := by
  induction bs with
  | nil => simp
  | cons b bs ih => simp [ih, Nat.add_assoc]

theorem frameTotal_perm {bs cs : List Block} (h : bs.Perm cs) : frameTotal bs = frameTotal cs := by
  induction h with
  | nil => rfl
  | cons b _ ih => simp [ih]
  | swap b c bs => simp [Nat.add_left_comm]
  | trans _ _ ih ih' => exact ih.trans ih'

/-- Blocks of one frame have as many frames as there are blocks. -/
theorem frameTotal_singles (fs : List Frame) :
    frameTotal (fs.map fun f => ⟨f, 1⟩) = fs.length := by
  induction fs with
  | nil => rfl
  | cons f fs ih => simp [ih, Nat.add_comm]

theorem mappedBlocks_cons (s : AddressSpace) (live : List AddressSpace) :
    mappedBlocks (s :: live) = s.blocks ++ mappedBlocks live := rfl

/-- Where blocks share no frame, no frame is mapped twice. -/
theorem nodup_frames_of_apart {live : List AddressSpace} {held : List Block}
    (apart : (mappedBlocks live ++ held).Pairwise Block.Apart)
    (nonempty : ∀ b ∈ mappedBlocks live ++ held, 0 < b.count) :
    (live.flatMap AddressSpace.frames).Nodup := by
  have hblocks : mappedBlocks live = (live.flatMap AddressSpace.frames).map fun f => ⟨f, 1⟩ :=
    List.map_flatMap.symm
  have hnodup := Block.nodup apart nonempty
  rw [hblocks] at hnodup
  refine List.Pairwise.of_map (fun f => (⟨f, 1⟩ : Block)) (fun f g hne heq => hne ?_)
    (List.nodup_append.mp hnodup).1
  rw [heq]

/-- A space has one frame for each mapping. -/
theorem AddressSpace.frameTotal_blocks (s : AddressSpace) :
    frameTotal s.blocks = s.table.entries.length := by
  rw [blocks, frameTotal_singles, frames, List.length_map]

namespace PageTable

theorem wellFormed_blank (n : Nat) : (blank n).WellFormed :=
  ⟨by simp, by rw [entries_blank]; rfl⟩

/-- Recording a mapping keeps the table well-formed. -/
theorem WellFormed.insert {t t' : PageTable} {granted : Bool} {e : PageEntry} {grown : Option Nat}
    (h : t.WellFormed) (hinsert : t.insert granted e = .ok (t', grown)) : t'.WellFormed := by
  have hperm := perm_entries_insert hinsert
  have hnone := find?_eq_none_of_insert hinsert
  constructor
  · rw [(hperm.map PageEntry.page).nodup_iff, List.map_cons, List.nodup_cons]
    refine ⟨fun hmem => ?_, h.pages⟩
    rw [PageRow.mem_pages_iff, hnone] at hmem
    cases hmem
  · rw [inUse_insert hinsert, hperm.length_eq, List.length_cons, h.counted]

/-- So does changing flags. -/
theorem WellFormed.recoloured {t t' : PageTable} {flags : PageEntry → EntryFlags}
    (h : t.WellFormed) (same : t'.entries = t.entries.map fun e => { e with flags := flags e })
    (count : t'.inUse = t.inUse) : t'.WellFormed := by
  constructor
  · rw [same, List.map_map]
    exact h.pages
  · rw [count, same, List.length_map, h.counted]

end PageTable

/-- **Taking one frame** takes a free one from a map that follows its blocks, and makes it a
block of its own. -/
theorem Allocator.taken_of_follows {a a' : Allocator} {m : FrameMap} {ledger : List Block}
    (source : a.source = .mapped m) (follows : m.Follows ledger) {f : Frame}
    (taken : a.allocate 1 = .ok (some f, a')) :
    a.state? f = some .free ∧
      a' = a.withMap (m.occupy f.index 1) ∧ (m.occupy f.index 1).Follows (⟨f, 1⟩ :: ledger) ∧
      (∀ g, a'.entry? g =
        if g = f then some (.inUse true 1) else a.entry? g) ∧
      a'.freeFrames + 1 = a.freeFrames := by
  rw [Allocator.allocate_mapped source] at taken
  rcases FrameMap.allocate_cases follows.counted 1 with ⟨g, hgrant, -, hfree, -⟩ | ⟨hrefuse, -⟩
  · rw [hgrant] at taken
    cases taken
    have hentry : ∀ g : Frame, a.entry? g = m.entries[g.index]? := fun g => by
      simp only [Allocator.entry?, source, FrameMap.entry?]
    have hsome := hfree.le_countP Nat.one_pos
    rw [← follows.counted] at hsome
    refine ⟨?_, rfl, follows.occupy Nat.one_pos hfree, fun g => ?_, ?_⟩
    · rw [Allocator.state?_mapped source]
      exact hfree f.index (Nat.le_refl _) (Nat.lt_succ_self _)
    · rw [hentry]
      refine (FrameMap.getElem?_occupy hfree g.index).trans ?_
      by_cases hg : g = f
      · subst hg
        simp
      · have hindex : ¬ (f.index ≤ g.index ∧ g.index < f.index + 1) :=
          fun hin => hg (Frame.ext (by omega))
        rw [if_neg hindex, if_neg hg]
    · rw [Allocator.freeFrames_mapped source]
      show m.freeCount - 1 + 1 = m.freeCount
      omega
  · rw [hrefuse] at taken
    cases taken

namespace Custody

variable {k k' : Kernel} {live rest : List AddressSpace} {held : List Block} {tally : Tally}
  {s s' : AddressSpace}

theorem perm_live (h : Custody k live held tally) {live' : List AddressSpace}
    (hp : live.Perm live') : Custody k live' held tally where
  follows := by
    obtain ⟨m, hm, hfollows⟩ := h.follows
    exact ⟨m, hm, hfollows.perm ((hp.flatMap_right _).append_right held)⟩
  conserved := by
    have htotal :
        frameTotal (mappedBlocks live' ++ held) = frameTotal (mappedBlocks live ++ held) :=
      frameTotal_perm ((hp.flatMap_right _).append_right held).symm
    rw [htotal, h.conserved]
  tables t ht := h.tables t (hp.mem_iff.mpr ht)
  numbered t ht := h.numbered t (hp.mem_iff.mpr ht)
  distinct := (hp.map _).nodup_iff.mp h.distinct
  prepared i hi := ⟨(h.prepared i hi).1, fun t ht => (h.prepared i hi).2 t (hp.mem_iff.mpr ht)⟩
  remembered := h.remembered

/-- Kernel changes that take no frame and report no preparation. -/
theorem of_kernel (h : Custody k live held tally) (hallocator : k'.allocator = k.allocator)
    (hnumber : k.nextSpace ≤ k'.nextSpace) (hjournal : ∀ i, k'.HasPrepared i ↔ k.HasPrepared i) :
    Custody k' live held tally where
  follows := hallocator ▸ h.follows
  conserved := hallocator ▸ h.conserved
  tables := h.tables
  numbered t ht := Nat.lt_of_lt_of_le (h.numbered t ht) hnumber
  distinct := h.distinct
  prepared i hi :=
    ⟨Nat.lt_of_lt_of_le (h.prepared i ((hjournal i).mp hi)).1 hnumber,
      (h.prepared i ((hjournal i).mp hi)).2⟩
  remembered i hi := (hjournal i).mpr (h.remembered i hi)

/-- Reporting anything but a preparation. -/
theorem record (h : Custody k live held tally) {e : Event} (other : e.isPreparation = false) :
    Custody { k with journal := k.journal.push e } live held tally := by
  refine h.of_kernel rfl (Nat.le_refl _) fun i => ⟨?_, ?_⟩
  · rintro ⟨n, hn⟩
    rcases Array.mem_push.mp hn with hold | rfl
    · exact ⟨n, hold⟩
    · cases other
  · rintro ⟨n, hn⟩
    exact ⟨n, Array.mem_push_of_mem e hn⟩

/-- The space in front is replaced, and perhaps its frames. -/
theorem exchange (h : Custody k (s :: rest) held tally) (hnumber : k'.nextSpace = k.nextSpace)
    (hjournal : k'.journal = k.journal) (hid : s'.id = s.id) (htable : s'.table.WellFormed)
    (hprepared : s.IsPrepared → s'.IsPrepared)
    (hfollows : ∃ m, k'.allocator.source = .mapped m ∧
      m.Follows (mappedBlocks (s' :: rest) ++ held))
    (hconserved : k'.allocator.freeFrames + frameTotal (mappedBlocks (s' :: rest) ++ held) =
      tally.room) :
    Custody k' (s' :: rest) held tally where
  follows := hfollows
  conserved := hconserved
  tables := by
    intro t ht
    rcases List.mem_cons.mp ht with rfl | ht
    · exact htable
    · exact h.tables t (List.mem_cons_of_mem _ ht)
  numbered := by
    intro t ht
    rw [hnumber]
    rcases List.mem_cons.mp ht with rfl | ht
    · exact hid ▸ h.numbered s List.mem_cons_self
    · exact h.numbered t (List.mem_cons_of_mem _ ht)
  distinct := by
    have hdistinct := h.distinct
    rwa [List.map_cons, ← hid, ← List.map_cons] at hdistinct
  prepared := by
    intro i hi
    unfold Kernel.HasPrepared at hi
    rw [hjournal] at hi
    obtain ⟨hlt, hlive⟩ := h.prepared i hi
    refine ⟨hnumber ▸ hlt, fun t ht hti => ?_⟩
    rcases List.mem_cons.mp ht with rfl | ht
    · exact hprepared (hlive s List.mem_cons_self (hid ▸ hti))
    · exact hlive t (List.mem_cons_of_mem _ ht) hti
  remembered := by
    unfold Kernel.HasPrepared
    rw [hjournal]
    exact h.remembered

/-- The space in front is replaced by one with the same frames. -/
theorem replace (h : Custody k (s :: rest) held tally) (hid : s'.id = s.id)
    (hframes : s'.frames = s.frames) (htable : s'.table.WellFormed)
    (hprepared : s.IsPrepared → s'.IsPrepared) : Custody k (s' :: rest) held tally := by
  have hblocks : mappedBlocks (s' :: rest) = mappedBlocks (s :: rest) := by
    simp only [mappedBlocks_cons, AddressSpace.blocks, hframes]
  exact h.exchange rfl rfl hid htable hprepared (hblocks ▸ h.follows) (hblocks ▸ h.conserved)

/-- The space in front takes a free frame for a page. -/
theorem install {w : Workspace} (h : Custody w.kernel (w.space :: rest) held tally) {p : Page}
    {flags : EntryFlags} {f : Frame} {a : Allocator} {t : PageTable} {grown : Option Nat}
    (taken : w.kernel.allocator.allocate 1 = .ok (some f, a))
    (inserted : w.space.table.insert true ⟨p, f, flags⟩ = .ok (t, grown)) :
    Custody (w.install p a f t).kernel ((w.install p a f t).space :: rest) held tally := by
  obtain ⟨m, hm, hfollows⟩ := h.follows
  have hgrows := Workspace.Grows.install taken inserted
  obtain ⟨before, after, hold, hnew⟩ := PageTable.entries_insert inserted
  rw [Allocator.allocate_mapped hm] at taken
  rcases FrameMap.allocate_cases hfollows.counted 1 with ⟨g, hgrant, -, hfree, -⟩ | ⟨hrefuse, -⟩
  · rw [hgrant] at taken
    cases taken
    have hblocks : (mappedBlocks ({ w.space with table := t } :: rest) ++ held).Perm
        (⟨f, 1⟩ :: (mappedBlocks (w.space :: rest) ++ held)) := by
      simp only [mappedBlocks_cons, AddressSpace.blocks, AddressSpace.frames, hold, hnew,
        List.map_append, List.map_cons, List.append_assoc, List.cons_append]
      exact List.perm_middle
    refine h.exchange rfl rfl rfl ((h.tables w.space List.mem_cons_self).insert inserted)
      hgrows.isPrepared ⟨_, rfl, (hfollows.occupy Nat.one_pos hfree).perm hblocks.symm⟩ ?_
    have hconserved := h.conserved
    -- the count of free frames does not stop at zero here, as one frame was free
    have hsome := hfree.le_countP Nat.one_pos
    rw [Allocator.freeFrames_mapped hm] at hconserved
    rw [← hfollows.counted] at hsome
    show (m.freeCount - 1) + frameTotal (mappedBlocks ({ w.space with table := t } :: rest) ++
      held) = tally.room
    rw [frameTotal_perm hblocks, frameTotal_cons]
    simp only
    omega
  · rw [hrefuse] at taken
    cases taken

/-- **There and back** the allocator is the same. -/
theorem givesBack_eq (h : Custody k live held tally) {f : Frame} {a a' : Allocator}
    (taken : k.allocator.allocate 1 = .ok (some f, a)) (back : a.GivesBack f a') :
    a' = k.allocator := by
  obtain ⟨m, hm, hfollows⟩ := h.follows
  exact back.eq_self hm hfollows taken

/-- That the space in front is prepared is reported. -/
theorem reportPrepared (h : Custody k (s :: rest) held tally) (done : s.IsPrepared) (n : Nat) :
    Custody { k with journal := k.journal.push (.prepared s.id n) } (s :: rest) held tally := by
  refine ⟨h.follows, h.conserved, h.tables, h.numbered, h.distinct, ?_, ?_⟩
  · rintro i ⟨n', hn'⟩
    rcases Array.mem_push.mp hn' with hold | hnew
    · exact h.prepared i ⟨n', hold⟩
    · cases hnew
      refine ⟨h.numbered s List.mem_cons_self, fun t ht hti => ?_⟩
      -- numbers are distinct, so only the space itself has this one
      have hdistinct := List.nodup_cons.mp h.distinct
      rcases List.mem_cons.mp ht with rfl | ht
      · exact done
      · exact absurd (List.mem_map.mpr ⟨t, ht, hti⟩) hdistinct.1
  · intro i hi
    obtain ⟨n', hn'⟩ := h.remembered i hi
    exact ⟨n', Array.mem_push_of_mem _ hn'⟩

/-- **What a move keeps.** -/
theorem move {w w' : Workspace} (h : Custody w.kernel (w.space :: rest) held tally)
    (hmove : w.Move w') : Custody w'.kernel (w'.space :: rest) held tally := by
  have hgrows := hmove.grows
  have htable := h.tables w.space List.mem_cons_self
  cases hmove with
  | reported e other => exact h.record other
  | prepared n done => exact h.reportPrepared done n
  | asked room => exact h.of_kernel rfl (Nat.le_refl _) fun _ => Iff.rfl
  | mapped p flags f a t grown room taken inserted => exact h.install taken inserted
  | refused p f a a' cramped taken back =>
      exact h.of_kernel (h.givesBack_eq taken back) (Nat.le_refl _) fun _ => Iff.rfl
  | recoloured t flags same room count =>
      exact h.replace rfl (Workspace.frames_recoloured same) (htable.recoloured same count)
        hgrows.isPrepared
  | settled bounds loaded kept => exact h.replace rfl rfl htable hgrows.isPrepared
  | declared r open' => exact h.replace rfl rfl htable hgrows.isPrepared
  | stored e data own => exact h.of_kernel rfl (Nat.le_refl _) fun _ => Iff.rfl
  | cached e slot c own placed => exact h.of_kernel rfl (Nat.le_refl _) fun _ => Iff.rfl
  | dropped => exact h.of_kernel rfl (Nat.le_refl _) fun _ => Iff.rfl

/-- **What a path keeps**, by induction on its moves. -/
theorem path {w w' : Workspace} (h : Custody w.kernel (w.space :: rest) held tally)
    (hpath : w.Path w') : Custody w'.kernel (w'.space :: rest) held tally := by
  induction hpath with
  | refl => exact h
  | tail _ hmove ih => exact ih.move hmove

/-! ### Where frames come from -/

/-- No frame is mapped twice, in one space or in two. -/
theorem nodup_frames (h : Custody k live held tally) :
    (live.flatMap AddressSpace.frames).Nodup := by
  obtain ⟨m, -, hfollows⟩ := h.follows
  exact nodup_frames_of_apart hfollows.apart hfollows.nonempty

/-- In custody there is a frame map. -/
theorem isInitialized (h : Custody k live held tally) : k.allocator.isInitialized = true := by
  obtain ⟨m, hm, -⟩ := h.follows
  rw [Allocator.isInitialized, hm]

/-- Mapped frames are kept. -/
theorem keeps (h : Custody k live held tally) {s : AddressSpace} (hs : s ∈ live) {f : Frame}
    (hf : f ∈ s.frames) : k.allocator.Keeps f := by
  obtain ⟨m, hm, hfollows⟩ := h.follows
  have hblock : (⟨f, 1⟩ : Block) ∈ mappedBlocks live ++ held :=
    List.mem_append_left _ (List.mem_flatMap.mpr ⟨s, hs, List.mem_map_of_mem hf⟩)
  rw [Allocator.keeps_mapped hm]
  exact fun hfree => hfollows.not_holds_of_free hblock hfree (Block.holds_head Nat.one_pos)

/-- Where no frame is left, none is free. -/
theorem freeFrames_eq_zero {w : Workspace} (h : Custody w.kernel live held tally)
    (exhausted : w.IsExhausted) : w.kernel.allocator.freeFrames = 0 := by
  obtain ⟨m, hm, hfollows⟩ := h.follows
  obtain ⟨a, hnone⟩ := exhausted
  rw [Allocator.allocate_mapped hm, Except.ok.injEq, Prod.mk.injEq] at hnone
  rw [Allocator.freeFrames_mapped hm]
  rcases FrameMap.allocate_cases hfollows.counted 1 with ⟨f, hgrant, -⟩ | ⟨hrefuse, -⟩
  · rw [hgrant] at hnone
    cases hnone.1
  · exact (FrameMap.allocate_one_eq_none_iff hfollows.counted).mp hrefuse

/-- No space maps a frame twice. -/
theorem nodup_of_mem (h : Custody k live held tally) {s : AddressSpace} (hs : s ∈ live) :
    s.frames.Nodup :=
  (List.nodup_flatMap.mp h.nodup_frames).1 s hs

/-- **Taking one frame** takes a free one, which is a block of its own from then on. -/
theorem taken (h : Custody k live held tally) {f : Frame} {a : Allocator}
    (taken : k.allocator.allocate 1 = .ok (some f, a)) :
    k.allocator.state? f = some .free ∧ a.entry? f = some (.inUse true 1) ∧
      (∀ g, g ≠ f → a.entry? g = k.allocator.entry? g) ∧
      a.freeFrames + 1 = k.allocator.freeFrames := by
  obtain ⟨m, hm, hfollows⟩ := h.follows
  obtain ⟨hfree, -, -, hentry, hcost⟩ := Allocator.taken_of_follows hm hfollows taken
  refine ⟨hfree, ?_, fun g hg => ?_, hcost⟩
  · rw [hentry, if_pos rfl]
  · rw [hentry, if_neg hg]

/-- A frame is refused exactly if none is free. -/
theorem refused_iff (h : Custody k live held tally) :
    (∃ a, k.allocator.allocate 1 = .ok (none, a)) ↔
      ∀ f, k.allocator.state? f ≠ some .free := by
  obtain ⟨m, hm, hfollows⟩ := h.follows
  constructor
  · rintro ⟨a, hnone⟩ f hfree
    rw [Allocator.allocate_mapped hm] at hnone
    rcases FrameMap.allocate_cases hfollows.counted 1 with ⟨g, hgrant, -⟩ | ⟨-, hnorun⟩
    · rw [hgrant] at hnone
      cases hnone
    · refine hnorun.resolve_left Nat.one_ne_zero f.index fun i hlow hhigh => ?_
      obtain rfl : i = f.index := by omega
      rwa [Allocator.state?_mapped hm] at hfree
  · intro hnone
    rcases FrameMap.allocate_cases hfollows.counted 1 with ⟨f, hgrant, -⟩ | ⟨hrefuse, -⟩
    · have hallocate := Allocator.allocate_mapped hm 1
      rw [hgrant] at hallocate
      exact absurd (h.taken hallocate).1 (hnone f)
    · exact ⟨_, by rw [Allocator.allocate_mapped hm, hrefuse]⟩

end Custody

/-- **Taken from the free**: the space has gained free frames only, and none has become free. -/
structure Workspace.TakesFree (w w' : Workspace) : Prop where
  free : ∀ f, w'.kernel.allocator.state? f = some .free → w.kernel.allocator.state? f = some .free
  taken : ∀ f ∈ w'.space.frames, f ∈ w.space.frames ∨ w.kernel.allocator.state? f = some .free

namespace Workspace.TakesFree

variable {w w₁ w₂ : Workspace}

theorem of_eq (hallocator : w₁.kernel.allocator = w.kernel.allocator)
    (hframes : w₁.space.frames = w.space.frames) : w.TakesFree w₁ :=
  ⟨fun _ hf => hallocator ▸ hf, fun _ hf => Or.inl (hframes ▸ hf)⟩

theorem trans (h : w.TakesFree w₁) (h' : w₁.TakesFree w₂) : w.TakesFree w₂ where
  free f hf := h.free f (h'.free f hf)
  taken f hf := by
    rcases h'.taken f hf with hold | hfree
    · exact h.taken f hold
    · exact Or.inr (h.free f hfree)

end Workspace.TakesFree

namespace Custody

variable {rest : List AddressSpace} {held : List Block} {tally : Tally} {w w' : Workspace}

theorem takesFree_install (h : Custody w.kernel (w.space :: rest) held tally) {p : Page}
    {flags : EntryFlags} {f : Frame} {a : Allocator} {t : PageTable} {grown : Option Nat}
    (taken : w.kernel.allocator.allocate 1 = .ok (some f, a))
    (inserted : w.space.table.insert true ⟨p, f, flags⟩ = .ok (t, grown)) :
    w.TakesFree (w.install p a f t) := by
  obtain ⟨hfree, hinUse, hothers, -⟩ := h.taken taken
  obtain ⟨before, after, hold, hnew⟩ := PageTable.entries_insert inserted
  constructor
  · intro g hg
    change a.state? g = some .free at hg
    by_cases hgf : g = f
    · rw [Allocator.state?, hgf, hinUse] at hg
      cases hg
    · rwa [Allocator.state?, hothers g hgf] at hg
  · intro g hg
    change g ∈ t.entries.map PageEntry.frame at hg
    rw [hnew, List.map_append, List.map_cons, List.mem_append, List.mem_cons] at hg
    unfold AddressSpace.frames
    rw [hold, List.map_append, List.mem_append]
    rcases hg with hg | rfl | hg
    · exact Or.inl (Or.inl hg)
    · exact Or.inr hfree
    · exact Or.inl (Or.inr hg)

theorem takesFree_move (h : Custody w.kernel (w.space :: rest) held tally) (hmove : w.Move w') :
    w.TakesFree w' := by
  cases hmove with
  | mapped p flags f a t grown room taken inserted => exact h.takesFree_install taken inserted
  | refused p f a a' cramped taken back => exact .of_eq (h.givesBack_eq taken back) rfl
  | asked room => exact .of_eq rfl rfl
  | recoloured t flags same room count => exact .of_eq rfl (Workspace.frames_recoloured same)
  | reported e other => exact .of_eq rfl rfl
  | prepared n done => exact .of_eq rfl rfl
  | settled bounds loaded kept => exact .of_eq rfl rfl
  | declared r open' => exact .of_eq rfl rfl
  | stored e data own => exact .of_eq rfl rfl
  | cached e slot c own placed => exact .of_eq rfl rfl
  | dropped => exact .of_eq rfl rfl

/-- **Where the frames of a space come from**, by induction on the moves: all that it gains was
free in the beginning. -/
theorem takesFree (h : Custody w.kernel (w.space :: rest) held tally) (hpath : w.Path w') :
    w.TakesFree w' := by
  induction hpath with
  | refl => exact .of_eq rfl rfl
  | tail hpath₁ hmove ih => exact ih.trans ((h.path hpath₁).takesFree_move hmove)

/-- **What the frames of a space cost.** -/
theorem freeFrames_path (h : Custody w.kernel (w.space :: rest) held tally) (hpath : w.Path w') :
    w'.kernel.allocator.freeFrames + w'.space.table.entries.length =
      w.kernel.allocator.freeFrames + w.space.table.entries.length := by
  have hbefore := h.conserved
  have hafter := (h.path hpath).conserved
  simp only [mappedBlocks_cons, frameTotal_append, AddressSpace.frameTotal_blocks] at hbefore hafter
  omega

end Custody

end DemandPaging
