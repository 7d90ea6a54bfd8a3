import DemandPaging.Proofs.Stages
import DemandPaging.Proofs.UsableMemory

/-!
# Drawing frames

What an operation on a space takes from the allocator, and where it goes.  A frame that is taken is
either behind a page that had none before, or it goes back in the same step, as the page table has
no room for the page.

**Frames that are taken** are told by the allocator alone (`Allocator.Yields`), and not by the
space.  A frame that goes back leaves free what was free (`Allocator.Alike`), so which frames have
been handed out for good can be seen from the allocator before and after.

**Where they go.**  The pages that the space has gained are in these frames, one in each
(`AddressSpace.Takes`).  All requests keep to this (`AddressSpace.drawing_answerSpace`), and so do
faults (`PageFault.draws_of_eq`).  There is one exception.  While booting no frame can go back, so
where the table has no room then, the kernel stops with a frame that is behind no page
(`Drawing`).
-/

namespace DemandPaging

namespace Allocator

variable {a a₁ a₂ b b₁ b₂ : Allocator} {f g : Frame} {fs gs : List Frame}

/-- **Yielding frames**: they are handed out one after another, and nothing else happens, except
that others go back as soon as they are handed out. -/
inductive Yields (a : Allocator) : List Frame → Allocator → Prop where
  | nothing : Yields a [] a
  | next {fs : List Frame} {f : Frame} {a₁ a₂ : Allocator} (before : Yields a fs a₁)
      (taken : a₁.allocate 1 = .ok (some f, a₂)) : Yields a (fs ++ [f]) a₂
  | returned {fs : List Frame} {f : Frame} {a₁ a₂ a₃ : Allocator} (before : Yields a fs a₁)
      (taken : a₁.allocate 1 = .ok (some f, a₂)) (back : a₂.free f = .ok a₃) : Yields a fs a₃

/-- **Alike**: the same frames are free. -/
def Alike (a b : Allocator) : Prop :=
  a = b ∨ ∃ m m', a.source = .mapped m ∧ b.source = .mapped m' ∧ m.states = m'.states

namespace Alike

theorem refl (a : Allocator) : a.Alike a := Or.inl rfl

theorem symm (h : a.Alike b) : b.Alike a := by
  rcases h with rfl | ⟨m, m', hm, hm', hstates⟩
  · exact .refl a
  · exact Or.inr ⟨m', m, hm', hm, hstates.symm⟩

theorem trans (h : a.Alike b) (h' : b.Alike b₁) : a.Alike b₁ := by
  rcases h with rfl | ⟨m, m', hm, hm', hstates⟩
  · exact h'
  · rcases h' with rfl | ⟨m₁, m₂, hm₁, hm₂, hstates'⟩
    · exact Or.inr ⟨m, m', hm, hm', hstates⟩
    · cases hm'.symm.trans hm₁
      exact Or.inr ⟨m, m₂, hm, hm₂, hstates.trans hstates'⟩

/-- Where the same frames are free, the same one is handed out. -/
theorem taken (h : a.Alike b) (ha : a.allocate 1 = .ok (some f, a₁))
    (hb : b.allocate 1 = .ok (some g, b₁)) : f = g ∧ a₁.Alike b₁ := by
  rcases h with rfl | ⟨m, m', hm, hm', hstates⟩
  · cases ha.symm.trans hb
    exact ⟨rfl, .refl _⟩
  · rw [allocate_mapped hm, Except.ok.injEq, Prod.mk.injEq] at ha
    rw [allocate_mapped hm', Except.ok.injEq, Prod.mk.injEq] at hb
    obtain ⟨hfa, rfl⟩ := ha
    obtain ⟨hgb, rfl⟩ := hb
    have hgrant : m.allocate 1 = (some f, (m.allocate 1).2) := Prod.ext hfa rfl
    have hgrant' : m'.allocate 1 = (some g, (m'.allocate 1).2) := Prod.ext hgb rfl
    obtain ⟨-, hfree, hleast, hmap⟩ := FrameMap.allocate_eq_some hgrant
    obtain ⟨-, hfree', hleast', hmap'⟩ := FrameMap.allocate_eq_some hgrant'
    -- each of the two is the lowest free frame
    have hindex : f.index = g.index := by
      rw [hstates] at hfree hleast
      rcases Nat.lt_trichotomy f.index g.index with hlt | heq | hgt
      · exact absurd hfree (hleast' f.index hlt)
      · exact heq
      · exact absurd hfree' (hleast g.index hgt)
    obtain rfl := Frame.ext hindex
    rw [hmap, hmap']
    refine ⟨rfl, Or.inr ⟨_, _, source_withMap a _, source_withMap b _, ?_⟩⟩
    refine List.ext_getElem? fun i => ?_
    rw [FrameMap.state_occupy hfree, FrameMap.state_occupy hfree', hstates]

end Alike

/-- A frame that can go back came out of a frame map. -/
theorem source_of_returned (taken : a.allocate 1 = .ok (some f, a₁)) (back : a₁.free f = .ok a₂) :
    ∃ m, a.source = .mapped m ∧ FrameMap.FreeRun m.states f.index 1 ∧
      a₂ = a.withMap ((m.occupy f.index 1).vacate f.index 1) := by
  rcases taken_cases taken with ⟨m, hm, -, -⟩ | ⟨-, b, hsource⟩
  · exact ⟨m, hm, GivesBack.eq_withMap (Or.inl back) hm taken⟩
  · rw [free, hsource] at back
    cases back

/-- There and back, the same frames are free. -/
theorem alike_of_returned (taken : a.allocate 1 = .ok (some f, a₁)) (back : a₁.free f = .ok a₂) :
    a₂.Alike a := by
  obtain ⟨m, hm, hfree, rfl⟩ := source_of_returned taken back
  exact Or.inr ⟨_, m, source_withMap a _, hm,
    List.ext_getElem? fun i => FrameMap.state_vacate_occupy hfree i⟩

/-- In either phase the frames of a block that is handed out are free no longer. -/
theorem freeFrames_allocate {n : Nat} (taken : a.allocate n = .ok (some f, a₁)) :
    a₁.freeFrames + n = a.freeFrames := by
  obtain ⟨window, source⟩ := a
  cases source with
  | booting b =>
      simp only [allocate] at taken
      split at taken
      · cases taken
      · next steal =>
          cases taken
          obtain ⟨hnone, -⟩ | ⟨-, -, hnext, hroom, hlimit⟩ := BootFrames.steal_eq_ok steal
          · cases hnone
          · simp only [freeFrames, BootFrames.remaining, hnext, hlimit, pageSize] at hroom ⊢
            omega
  | mapped m =>
      simp only [allocate, FrameMap.allocate] at taken
      split at taken
      · cases taken
      · next hgranted =>
          split at taken
          · cases taken
          · cases taken
            simp only [freeFrames, FrameMap.occupy, FrameMap.updateRange]
            omega

/-- And as many. -/
theorem freeFrames_of_returned (taken : a.allocate 1 = .ok (some f, a₁))
    (back : a₁.free f = .ok a₂) : a₂.freeFrames = a.freeFrames := by
  have hone := freeFrames_allocate taken
  obtain ⟨m, hm, -, rfl⟩ := source_of_returned taken back
  rw [freeFrames_mapped hm] at hone ⊢
  show m.freeCount - 1 + 1 = m.freeCount
  omega

namespace Yields

theorem append (h : a.Yields fs a₁) (h' : a₁.Yields gs a₂) : a.Yields (fs ++ gs) a₂ := by
  induction h' with
  | nothing => simpa using h
  | next before taken ih =>
      rw [← List.append_assoc]
      exact ih.next taken
  | returned before taken back ih => exact ih.returned taken back

/-- Each of the frames was free before. -/
theorem freeFrames (h : a.Yields fs a₁) : a₁.freeFrames + fs.length = a.freeFrames := by
  induction h with
  | nothing => rfl
  | next before taken ih =>
      have hone := freeFrames_allocate taken
      rw [List.length_append, List.length_singleton]
      omega
  | returned before taken back ih =>
      rw [freeFrames_of_returned taken back]
      exact ih

/-- Where no frame was handed out for good, the same ones are free. -/
theorem alike_of_nil (h : a.Yields [] a₁) : a₁.Alike a := by
  generalize hfs : ([] : List Frame) = fs at h
  induction h with
  | nothing => exact .refl a
  | next before taken ih => simp at hfs
  | returned before taken back ih => exact (alike_of_returned taken back).trans (ih hfs)

/-- The last frame handed out for good, and what went back after that. -/
theorem exists_of_append (h : a.Yields (fs ++ [f]) a₁) :
    ∃ a₂ a₃, a.Yields fs a₂ ∧ a₂.allocate 1 = .ok (some f, a₃) ∧ a₁.Alike a₃ := by
  generalize hgs : fs ++ [f] = gs at h
  induction h with
  | nothing => simp at hgs
  | next before taken ih =>
      obtain ⟨rfl, hf⟩ := List.append_inj' hgs rfl
      cases hf
      exact ⟨_, _, before, taken, .refl _⟩
  | returned before taken back ih =>
      obtain ⟨a₂, a₃, hbefore, htaken, halike⟩ := ih hgs
      exact ⟨a₂, a₃, hbefore, htaken, (alike_of_returned taken back).trans halike⟩

/-- As many frames can be handed out in one way only. -/
theorem unique_of_length (h : a.Yields fs a₁) (h' : a.Yields gs a₂)
    (hlength : fs.length = gs.length) : fs = gs ∧ a₁.Alike a₂ := by
  induction h generalizing gs a₂ with
  | nothing =>
      obtain rfl := List.length_eq_zero_iff.mp hlength.symm
      exact ⟨rfl, h'.alike_of_nil.symm⟩
  | next before taken ih =>
      rcases List.eq_nil_or_concat' gs with rfl | ⟨gs, g, rfl⟩
      · simp at hlength
      · obtain ⟨b, b₁, hbefore, htaken, halike⟩ := h'.exists_of_append
        obtain ⟨rfl, hboth⟩ := ih hbefore (by simpa using hlength)
        obtain ⟨rfl, hafter⟩ := hboth.taken taken htaken
        exact ⟨rfl, hafter.trans halike.symm⟩
  | returned before taken back ih =>
      obtain ⟨rfl, halike⟩ := ih h' hlength
      exact ⟨rfl, (alike_of_returned taken back).trans halike⟩

/-- **Which frames were handed out** can be told from the allocator before and after. -/
theorem unique (h : a.Yields fs a₁) (h' : a.Yields gs a₁) : fs = gs := by
  refine (unique_of_length h h' ?_).1
  have hfree := h.freeFrames
  have hfree' := h'.freeFrames
  omega

end Yields

end Allocator

namespace AddressSpace

variable {s s₁ s' : AddressSpace} {p : Page} {ps qs : List Page} {fs gs : List Frame}

/-- **Placements**: the mapped pages, each with the frame that it is in. -/
def placements (s : AddressSpace) : List (Page × Frame) :=
  s.table.entries.map fun e => (e.page, e.frame)

theorem maps_iff_mem_placements : s.Maps p ↔ p ∈ s.placements.map Prod.fst := by
  unfold Maps placements
  rw [← PageRow.mem_pages_iff, List.map_map]
  rfl

/-- **Taking frames**: pages that were not mapped have been placed in them, one in each, and all
other pages are where they were. -/
structure Takes (s : AddressSpace) (ps : List Page) (fs : List Frame) (s' : AddressSpace) :
    Prop where
  paired : ps.length = fs.length
  distinct : ps.Nodup
  unmapped : ∀ p ∈ ps, ¬ s.Maps p
  placed : s'.placements.Perm (s.placements ++ ps.zip fs)

namespace Takes

theorem of_placements (h : s'.placements = s.placements) : s.Takes [] [] s' :=
  ⟨rfl, List.nodup_nil, by simp, by simp [h]⟩

/-- The pages that are mapped then. -/
theorem maps_iff (h : s.Takes ps fs s') (p : Page) : s'.Maps p ↔ s.Maps p ∨ p ∈ ps := by
  rw [maps_iff_mem_placements, maps_iff_mem_placements, (h.placed.map Prod.fst).mem_iff,
    List.map_append, List.mem_append, List.map_fst_zip (Nat.le_of_eq h.paired)]

theorem trans (h : s.Takes ps fs s₁) (h' : s₁.Takes qs gs s') :
    s.Takes (ps ++ qs) (fs ++ gs) s' where
  paired := by rw [List.length_append, List.length_append, h.paired, h'.paired]
  distinct := by
    refine List.nodup_append.mpr ⟨h.distinct, h'.distinct, ?_⟩
    rintro p hp _ hq rfl
    exact h'.unmapped p hq ((h.maps_iff p).mpr (Or.inr hp))
  unmapped p hp := by
    rcases List.mem_append.mp hp with hp | hq
    · exact h.unmapped p hp
    · exact fun hold => h'.unmapped p hq ((h.maps_iff p).mpr (Or.inl hold))
  placed := by
    rw [List.zip_append h.paired, ← List.append_assoc]
    exact h'.placed.trans (h.placed.append_right _)

/-- A page more. -/
theorem insert {t : PageTable} {e : PageEntry} {granted : Bool} {grown : Option Nat}
    (inserted : s.table.insert granted e = .ok (t, grown)) :
    s.Takes [e.page] [e.frame] { s with table := t } where
  paired := rfl
  distinct := List.nodup_singleton _
  unmapped := by
    intro p hp
    obtain rfl := List.mem_singleton.mp hp
    simp [Maps, PageTable.find?_eq_none_of_insert inserted]
  placed := by
    have hplaced := (PageTable.perm_entries_insert inserted).map fun e => (e.page, e.frame)
    exact hplaced.trans (List.perm_append_singleton (e.page, e.frame) _).symm

end Takes

end AddressSpace

namespace Workspace

variable {w w₁ w' : Workspace}

/-- **No frame is stranded**: there is a frame map to which it can go back, or the heap refuses
nothing. -/
def StrandsNothing (w : Workspace) : Prop :=
  w.kernel.allocator.isInitialized = true ∨ w.kernel.IsGenerous

/-- **A frame is stranded**: it is given back while the kernel is booting, as the heap has refused
room, and that stops the kernel. -/
def Strands (w : Workspace) (e : Abort) : Prop :=
  e = .halted .freedWhileBooting ∧ ¬ w.StrandsNothing

/-- **Draws**: frames have been taken from the allocator, and behind each of them is a page that had
none before.  Where nothing was stranded, nothing will be. -/
structure Draws (w w' : Workspace) : Prop where
  takes : ∃ ps fs, w.kernel.allocator.Yields fs w'.kernel.allocator ∧
    w.space.Takes ps fs w'.space
  safe : w.StrandsNothing → w'.StrandsNothing

namespace Draws

/-- Nothing has been taken. -/
theorem of_eq (allocator : w'.kernel.allocator = w.kernel.allocator)
    (heap : w'.kernel.heap <:+ w.kernel.heap)
    (placements : w'.space.placements = w.space.placements) : w.Draws w' where
  takes := ⟨[], [], allocator ▸ .nothing, .of_placements placements⟩
  safe hsafe := hsafe.imp (fun hbuilt => allocator ▸ hbuilt) fun hgenerous =>
    hgenerous.of_suffix heap

theorem refl (w : Workspace) : w.Draws w := .of_eq rfl (List.suffix_refl _) rfl

theorem trans (h : w.Draws w₁) (h' : w₁.Draws w') : w.Draws w' := by
  obtain ⟨ps, fs, hyields, htakes⟩ := h.takes
  obtain ⟨qs, gs, hyields', htakes'⟩ := h'.takes
  exact ⟨⟨ps ++ qs, fs ++ gs, hyields.append hyields', htakes.trans htakes'⟩, h'.safe ∘ h.safe⟩

theorem of_quiet (h : w.Quiet w') : w.Draws w' :=
  .of_eq h.allocator (h.heap ▸ List.suffix_refl _) (by rw [h.space])

/-- A page more. -/
theorem install {p : Page} {flags : EntryFlags} {f : Frame} {a : Allocator} {t : PageTable}
    {grown : Option Nat} (taken : w.kernel.allocator.allocate 1 = .ok (some f, a))
    (inserted : w.space.table.insert true ⟨p, f, flags⟩ = .ok (t, grown)) :
    w.Draws (w.install p a f t) where
  takes := ⟨[p], [f], Allocator.Yields.nothing.next taken, .insert inserted⟩
  safe hsafe := hsafe.imp (fun hbuilt => (Allocator.isInitialized_of_taken taken).trans hbuilt)
    fun hgenerous => hgenerous.of_suffix (Kernel.heap_asked_suffix _ _)

/-- A page that found no room, where the frame could go back. -/
theorem turnBack {p : Page} {f : Frame} {a a' : Allocator}
    (taken : w.kernel.allocator.allocate 1 = .ok (some f, a)) (back : a.free f = .ok a') :
    w.Draws (w.turnBack p a' f) where
  takes := ⟨[], [], Allocator.Yields.nothing.returned taken back, .of_placements rfl⟩
  safe hsafe := hsafe.imp
    (fun hbuilt => (Allocator.GivesBack.isInitialized (Or.inl back) taken).trans hbuilt)
    fun hgenerous => hgenerous.of_suffix (Kernel.heap_asked_suffix _ _)

end Draws

/-- A frame that cannot go back is stranded. -/
theorem strands_of_stuck {p : Page} {f : Frame} {a : Allocator} (cramped : ¬ w.HasRoom p)
    (taken : w.kernel.allocator.allocate 1 = .ok (some f, a))
    (stuck : a.free f = .error .freedWhileBooting) :
    w.Strands (.halted .freedWhileBooting) := by
  refine ⟨rfl, ?_⟩
  rintro (hbuilt | hgenerous)
  · rw [← Allocator.isInitialized_of_taken taken,
      Allocator.booting_of_free_eq_error stuck] at hbuilt
    cases hbuilt
  · exact cramped (.of_generous hgenerous p)

end Workspace

/-- **Drawing.**  However the operation ends, it has drawn frames for pages of its space, unless a
frame is stranded. -/
def Drawing {α : Type} (x : SpaceM α) : Prop :=
  ∀ w, Ends x w (fun _ w' => w.Draws w') fun e w' => w.Draws w' ∨ w.Strands e

namespace Drawing

variable {α β : Type}

theorem pure (a : α) : Drawing (Pure.pure a) := fun w => .refl w

theorem throw (e : Abort) : Drawing (throw e : SpaceM α) := fun w => Or.inl (.refl w)

/-- One operation after another. -/
theorem bind {x : SpaceM α} {f : α → SpaceM β} (hx : Drawing x) (hf : ∀ a, Drawing (f a)) :
    Drawing (x >>= f) := by
  intro w
  rw [ends_bind]
  refine Ends.mono (hx w) (fun a w₁ h₁ => ?_) fun _ _ h => h
  refine Ends.mono (hf a w₁) (fun _ _ h₂ => h₁.trans h₂) fun e w₂ h₂ => ?_
  exact h₂.imp h₁.trans fun hstops => ⟨hstops.1, fun hsafe => hstops.2 (h₁.safe hsafe)⟩

theorem space : Drawing SpaceM.space := fun w => .refl w

theorem get : Drawing (get : SpaceM Workspace) := fun w => .refl w

/-- Changes of the space that leave all pages where they are. -/
theorem modifySpace {f : AddressSpace → AddressSpace}
    (hf : ∀ s, (f s).placements = s.placements) : Drawing (SpaceM.modifySpace f) :=
  fun w => .of_eq rfl (List.suffix_refl _) (hf w.space)

/-- What the kernel does without the allocator and the heap. -/
theorem onKernel {x : KernelM α} (hx : Retains x fun k => (k.allocator, k.heap)) :
    Drawing (SpaceM.onKernel x) := by
  have hdraws : ∀ (w : Workspace) (k : Kernel),
      (k.allocator, k.heap) = (w.kernel.allocator, w.kernel.heap) → w.Draws (w.withKernel k) := by
    intro w k hk
    obtain ⟨hallocator, hheap⟩ := Prod.mk.inj hk
    exact .of_eq hallocator (hheap ▸ List.suffix_refl _) rfl
  intro w
  rw [SpaceM.ends_onKernel]
  exact Ends.mono (hx w.kernel) (fun _ k hk => hdraws w k hk) fun _ k hk => Or.inl (hdraws w k hk)

/-- Room is claimed from the heap. -/
theorem claim (room : Nat) : Drawing (SpaceM.onKernel (Kernel.claim room)) := by
  intro w
  have hdraws : w.Draws (w.withKernel (w.kernel.asked room)) :=
    .of_eq rfl (Kernel.heap_asked_suffix _ _) rfl
  rw [SpaceM.ends_onKernel, Kernel.ends_claim]
  split
  · exact hdraws
  · exact Or.inl hdraws

end Drawing

namespace AddressSpace

open SpaceM Drawing

/-- **Mapping a page that has no mapping** is drawing. -/
theorem drawing_ensureMapped (p : Page) (flags : EntryFlags) :
    Drawing (ensureMapped p flags) := by
  intro w
  unfold ensureMapped
  rw [ends_bind, ends_space]
  cases hfind : w.space.table.find? p with
  | some e => exact .refl w
  | none =>
      rw [ends_discard]
      refine Ends.mono (ends_mapZeroed flags hfind) ?_ ?_
      · rintro f _ ⟨a, t, grown, -, taken, inserted, rfl⟩
        exact (Workspace.Draws.install taken inserted).trans (.of_quiet (.reportGrowth _ grown))
      · intro e w' hfails
        cases hfails with
        | exhausted _ => exact Or.inl (.refl w)
        | cramped _ taken back => exact Or.inl (.turnBack taken back)
        | stranded cramped taken stuck =>
            exact Or.inr (Workspace.strands_of_stuck cramped taken stuck)

theorem drawing_backPagesFrom (r : Region) :
    ∀ (i n : Nat) (h : i + n ≤ r.pageCount), Drawing (backPagesFrom r i n h)
  | _, 0, _ => .pure _
  | i, n + 1, _ => bind (drawing_ensureMapped _ _) fun _ => drawing_backPagesFrom r (i + 1) n _

theorem drawing_backRegions : ∀ rs : List Region, Drawing (backRegions rs)
  | [] => .pure _
  | r :: rest => bind (drawing_backPagesFrom r 0 _ _) fun _ => drawing_backRegions rest

theorem drawing_prepareLoad : Drawing prepareLoad := by
  unfold prepareLoad
  refine bind (modifySpace fun _ => rfl) fun _ => bind space fun s => ?_
  refine bind (drawing_backRegions _) fun _ => ?_
  refine bind (drawing_ensureMapped _ _) fun _ => ?_
  refine bind (modifySpace fun _ => rfl) fun _ => bind space fun s => ?_
  refine bind (drawing_ensureMapped _ _) fun _ => ?_
  refine bind (modifySpace fun _ => rfl) fun _ => bind space fun s => ?_
  exact onKernel (retains_modify fun _ => rfl)

theorem drawing_declareRegion (a : VirtAddr) (size : Nat) (permission : Permission) :
    Drawing (declareRegion a size permission) := by
  unfold declareRegion
  refine bind space fun s => ?_
  have hdeclare : Drawing (do
      let r ← SpaceM.onKernel (Kernel.orFail (Region.declare a size permission))
      SpaceM.onKernel (Kernel.record (.regionDeclared r))
      SpaceM.onKernel (Kernel.claim (← SpaceM.space).regions.wanted)
      SpaceM.modifySpace fun s => { s with regions := s.regions.push r }) :=
    bind (onKernel (Kernel.retains_orFail _)) fun r =>
      bind (onKernel (retains_modify fun _ => rfl)) fun _ => bind space fun _ =>
        bind (claim _) fun _ => modifySpace fun _ => rfl
  split
  · exact bind (onKernel (retains_throw _)) fun _ => hdeclare
  · exact hdeclare

/-- Other flags leave the pages where they are, by induction on the regions. -/
theorem placements_applyPermissions :
    ∀ (rs : List Region) (t : PageTable),
      (applyPermissions t rs).entries.map (fun e => (e.page, e.frame)) =
        t.entries.map fun e => (e.page, e.frame)
  | [], _ => rfl
  | r :: rest, t => by
      refine (placements_applyPermissions rest (t.setFlagsWhere r.covers r.flags)).trans ?_
      rw [PageTable.entries_setFlagsWhere, List.map_map]
      refine List.map_congr_left fun e _ => ?_
      rw [Function.comp_apply]
      split
      · rfl
      · rfl

theorem placements_completeLoad (s : AddressSpace) :
    s.completeLoad.placements = s.placements :=
  placements_applyPermissions s.regions.regions s.table

theorem drawing_write (s : AddressSpace) (a : VirtAddr) (bytes : List UInt8) :
    Drawing (SpaceM.onKernel (s.write a bytes)) :=
  onKernel (retains_writeFrom (fun _ _ => rfl) s a 0 bytes)

end AddressSpace

namespace Program

open Drawing AddressSpace

theorem drawing_declareAll : ∀ segments : List Segment, Drawing (declareAll segments)
  | [] => .pure _
  | _ :: rest => bind (drawing_declareRegion _ _ _) fun _ => drawing_declareAll rest

theorem drawing_writeAll : ∀ segments : List Segment, Drawing (writeAll segments)
  | [] => .pure _
  | _ :: rest => bind space fun s => bind (drawing_write s _ _) fun _ => drawing_writeAll rest

theorem drawing_load (segments : List Segment) : Drawing (load segments) :=
  bind (drawing_declareAll segments) fun _ => bind drawing_prepareLoad fun _ =>
    bind (drawing_writeAll segments) fun _ => bind (modifySpace placements_completeLoad) fun _ =>
      bind space fun _ => .pure _

end Program

open Drawing AddressSpace in
/-- **Every request** to a space is drawing. -/
theorem AddressSpace.drawing_answerSpace (r : SpaceRequest) : Drawing (Machine.answerSpace r) := by
  cases r with
  | declareRegion a size permission =>
      exact bind (drawing_declareRegion a size permission) fun _ => bind space fun _ => .pure _
  | prepareLoad => exact bind drawing_prepareLoad fun _ => bind space fun _ => .pure _
  | completeLoad =>
      exact bind (modifySpace placements_completeLoad) fun _ => bind space fun _ => .pure _
  | load segments => exact bind (Program.drawing_load segments) fun _ => .pure _
  | activate =>
      exact bind space fun s => bind (onKernel (retains_modify fun _ => rfl)) fun _ => .pure _
  | deactivate =>
      exact bind space fun s => bind (onKernel (retains_modify fun _ => rfl)) fun _ => .pure _
  | read a count =>
      refine bind space fun s => bind get fun w => ?_
      split
      · exact .pure _
      · exact .throw _
  | write a bytes => exact bind space fun s => bind (drawing_write s a bytes) fun _ => .pure _
  | _ => exact bind space fun _ => .pure _

/-! ### Faults -/

namespace PageFault

variable {access : Access} {a : VirtAddr} {c : Coverage} {w w₁ : Workspace} {e : PageEntry}
  {r : Except MemoryError Unit} {s s' : AddressSpace} {k k' : Kernel}

/-- A frame is stranded only while booting, and where the heap refuses room. -/
theorem Stranded.not_strandsNothing (h : Stranded a w k) : ¬ w.StrandsNothing := by
  rintro (hbuilt | hgenerous)
  · exact absurd (hbuilt.symm.trans h.booting) (by decide)
  · exact h.not_generous hgenerous

theorem Backing.draws (h : Backing a c w e w₁) : w.Draws w₁ := by
  cases h with
  | found mapped => exact .refl w
  | made unmapped room taken inserted =>
      refine (Workspace.Draws.install taken inserted).trans ?_
      refine .of_eq rfl (List.suffix_refl _) ?_
      unfold AddressSpace.placements Workspace.grow
      rw [AddressSpace.table_grow]

theorem Handling.draws (h : Handling access a w r w₁) : w.Draws w₁ := by
  cases h with
  | refused _ => exact .refl w
  | resolved _ resolution =>
      cases resolution with
      | uncovered _ => exact .refl w
      | forbidden _ _ => exact .refl w
      | starved _ _ _ _ => exact .refl w
      | cramped _ _ _ _ taken returned => exact .turnBack taken returned
      | full _ backing _ _ => exact backing.draws
      | cached _ backing _ _ =>
          exact backing.draws.trans (.of_eq rfl (List.suffix_refl _) rfl)

/-- **Every fault** that is answered draws frames likewise. -/
theorem draws_of_eq (handled : handle access a (.within s) k = .ok (r, .within s') k') :
    Workspace.Draws ⟨k, s⟩ ⟨k', s'⟩ := by
  obtain ⟨w₁, w₂, hbefore, hhandling, hafter⟩ := handles_of_eq handled
  exact (Workspace.Draws.of_quiet hbefore).trans (hhandling.draws.trans (.of_quiet hafter))

end PageFault

end DemandPaging
