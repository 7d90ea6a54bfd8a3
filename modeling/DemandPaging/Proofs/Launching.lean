import DemandPaging.Proofs.Extents
import DemandPaging.Proofs.Provision
import DemandPaging.Proofs.Rollback
import Mathlib.Data.Finset.Image
import Mathlib.Order.Interval.Finset.Nat

/-!
# What becomes of a program that is started

Whether a program can be started is decided by its list of segments and by the number of free
frames, and both can be looked at beforehand (`History.startProgram_outcome`).  A segment that
ends above user space is an addressing fault, and of several the first in the list is reported.
Otherwise the program needs a frame for each page of its *footprint*, however often segments share
a page with one another or with stack and heap.  Frames suffice for that or they do not, and
nothing else can go wrong, unless the kernel's heap refuses the room for a list or a table
(`Program.FailsAs`).

**Numbers in place of addresses.**  A segment may reach up to the very end of user space, where
the next address is not canonical, and it may claim sizes that no machine word holds.  So where a
segment ends is a natural number (`Segment.limit`) and its pages are a set of page numbers.  The
word arithmetic of the program refuses exactly where the number is beyond the end of user space.

**Writing comes last and cannot fail.**  Every byte of a segment lies in a page of its footprint,
and by then each of these pages has its frame.

**Giving back.**  A space that was begun in vain is destroyed.  The map follows the blocks that it
followed before and one for each frame of the space (`Workspace.Charges`); whatever other frames
there are, stolen ones among them, are none of its business.
-/

namespace DemandPaging

namespace Segment

/-- Where the last page of the segment ends, as a number. -/
def limit (g : Segment) : Nat := roundUp (g.address.val + g.size) pageSize

/-- Whether the pages of the segment reach beyond user space. -/
def overruns (g : Segment) : Bool := decide (userSpaceEnd < g.limit)

/-- The numbers of the pages of the segment. -/
def pageNumbers (g : Segment) : Finset Nat := Finset.Ico g.address.page.index (g.limit / pageSize)

variable {g : Segment} {r : Region} {p : Page}

theorem mem_pageNumbers : p.index ∈ g.pageNumbers ↔ g.covers p = true := by
  unfold pageNumbers covers
  rw [Finset.mem_Ico, decide_eq_true_iff, limit, roundUp, Nat.mul_div_cancel _ (by decide),
    Page.start_val]
  exact and_congr_right fun _ => (Nat.mul_lt_mul_right (by decide)).symm

/-- **A segment that stays in user space** has a region. -/
theorem exists_region (h : g.overruns = false) : ∃ r, g.region = .ok r :=
  Region.exists_declare (Nat.le_of_not_lt (of_decide_eq_false h))

/-- **A segment that does not** is refused. -/
theorem region_of_overruns (h : g.overruns = true) :
    g.region = .error (.addressingFault g.address) :=
  Region.declare_of_lt (of_decide_eq_true h)

/-- The region of a segment ends where the segment does. -/
theorem limit_region (h : g.region = .ok r) : r.limit = g.limit := (Region.of_declare h).2.1

end Segment

namespace Program

/-- The first segment of the list that reaches beyond user space. -/
def firstOverrun? (segments : List Segment) : Option Segment := segments.find? Segment.overruns

/-- The number of the page that the heap begins with: the one after all segments, or a fixed one
if there is none in user space or no segment at all. -/
def heapNumber (segments : List Segment) : Nat :=
  match (segments.map Segment.limit).max? with
  | some limit => (if limit < userSpaceEnd then limit else defaultHeapStart) / pageSize
  | none => defaultHeapStart / pageSize

/-- **Footprints**: the numbers of all pages that a program needs to be started, those of its
segments and the first ones of stack and heap. -/
def footprint (segments : List Segment) : Finset Nat :=
  segments.foldr (fun g numbers => g.pageNumbers ∪ numbers)
    {initialStackPage.index, heapNumber segments}

theorem mem_footprint {segments : List Segment} {n : Nat} : n ∈ footprint segments ↔
    (∃ g ∈ segments, n ∈ g.pageNumbers) ∨ n = initialStackPage.index ∨ n = heapNumber segments := by
  unfold footprint
  generalize heapNumber segments = heap
  induction segments with
  | nil => simp
  | cons g rest ih =>
      rw [List.foldr_cons, Finset.mem_union, ih]
      simp only [List.exists_mem_cons_iff, or_assoc]

namespace Declares

variable {segments : List Segment} {l : RegionList}

theorem firstOverrun?_eq_none {rs : List Region} (h : Declares segments rs) :
    firstOverrun? segments = none := by
  refine List.find?_eq_none.mpr fun g hg hoverruns => ?_
  obtain ⟨r, hr⟩ := h.exists_region hg
  rw [Segment.region_of_overruns hoverruns] at hr
  cases hr

/-- The heap begins in the page with the number that the segments give. -/
theorem index_initialHeapPage (h : Declares segments l.regions) :
    (AddressSpace.initialHeapPage l).index = heapNumber segments := by
  have hlimits : l.regions.map Region.limit = segments.map Segment.limit := by
    generalize l.regions = rs at h
    induction h with
    | nil => rfl
    | cons hregion _ ih => rw [List.map_cons, List.map_cons, Segment.limit_region hregion, ih]
  unfold AddressSpace.initialHeapPage RegionList.highestEnd? heapNumber
  rw [hlimits]
  cases (segments.map Segment.limit).max? with
  | none => rfl
  | some limit =>
      simp only
      split <;> rfl

/-- Of a program that was declared all pages are in user space. -/
theorem lt_userPageCount (h : Declares segments l.regions) {n : Nat}
    (hn : n ∈ footprint segments) : n < userPageCount := by
  rcases mem_footprint.mp hn with ⟨g, hg, hpage⟩ | rfl | rfl
  · have hstays := List.find?_eq_none.mp h.firstOverrun?_eq_none g hg
    have hlimit : ¬ userSpaceEnd < g.limit := by simpa [Segment.overruns] using hstays
    have hbelow := (Finset.mem_Ico.mp hpage).2
    unfold userSpaceEnd at hlimit
    unfold pageSize at hbelow
    unfold userPageCount
    omega
  · decide
  · rw [← h.index_initialHeapPage]
    exact AddressSpace.index_initialHeapPage_lt l

/-- **What a new space misses** is the footprint, once the segments are declared. -/
theorem mem_missing_iff {s : AddressSpace} (h : Declares segments s.regions.regions)
    (hempty : ∀ p, ¬ s.Maps p) (p : Page) : p ∈ s.missing ↔ p.index ∈ footprint segments := by
  rw [AddressSpace.mem_missing, mem_footprint, h.any_covers, List.any_eq_true,
    ← h.index_initialHeapPage, and_iff_left (hempty p)]
  simp only [Segment.mem_pageNumbers, Page.ext_iff]

theorem card_missing {s : AddressSpace} (h : Declares segments s.regions.regions)
    (hempty : ∀ p, ¬ s.Maps p) : s.missing.card = (footprint segments).card := by
  have himage : s.missing.image Page.index = footprint segments := by
    ext n
    rw [Finset.mem_image]
    constructor
    · rintro ⟨p, hp, rfl⟩
      exact (h.mem_missing_iff hempty p).mp hp
    · intro hn
      exact ⟨.user n (h.lt_userPageCount hn), (h.mem_missing_iff hempty _).mpr hn, rfl⟩
  rw [← himage, Finset.card_image_of_injective _ fun p q => Page.ext]

end Declares

/-- **Verdicts**: why a program is refused when so many frames are free, if it is. -/
def verdict (segments : List Segment) (free : Nat) : Option MemoryError :=
  match firstOverrun? segments with
  | some g => some (.addressingFault g.address)
  | none => if free < (footprint segments).card then some .outOfMemory else none

/-- A program is not refused if all segments stay in user space and enough frames are free. -/
theorem verdict_eq_none_iff {segments : List Segment} {free : Nat} :
    verdict segments free = none ↔
      firstOverrun? segments = none ∧ (footprint segments).card ≤ free := by
  unfold verdict
  cases firstOverrun? segments with
  | some g => simp
  | none => simp

end Program

/-! ### New spaces -/

/-- In a new space no page is mapped. -/
theorem AddressSpace.not_maps_new (id : SpaceId) (p : Page) : ¬ (new id).Maps p := by
  simp [Maps, new, PageRow.find?_eq_entries_find?]

/-- Over a frame map a new space is secure. -/
theorem Workspace.isSecure_new {k : Kernel} {m : FrameMap} {ledger : List Block}
    (hm : k.allocator.source = .mapped m) (hfollows : m.Follows ledger) (id : SpaceId) :
    Workspace.IsSecure ⟨k, .new id⟩ where
  follows := ⟨m, ledger, hm, hfollows⟩
  table := PageTable.wellFormed_blank _
  frames := by
    rw [AddressSpace.frames_of_blank rfl]
    exact List.nodup_nil
  taken := by
    rw [AddressSpace.frames_of_blank rfl]
    exact List.forall_mem_nil _

/-! ### Loading -/

namespace Program

section Loading

open SpaceM

variable {w w₁ w₂ : Workspace} {segments : List Segment}

/-- **Declaring the segments** of a space that is not loaded yet changes its regions.  It fails for
the first segment that reaches beyond user space, and otherwise only if the heap refuses the room
for the list. -/
theorem ends_declareAll_exact :
    ∀ (segments : List Segment) {w : Workspace}, w.space.loaded = false →
      Ends (declareAll segments) w
        (fun _ w' => w'.kernel.allocator = w.kernel.allocator ∧ w'.kernel.heap <:+ w.kernel.heap ∧
          ∃ rs, Declares segments rs ∧
            w'.space = { w.space with regions := rs.foldl RegionList.push w.space.regions })
        fun e _ =>
          (∃ g, firstOverrun? segments = some g ∧ e = .failed (.addressingFault g.address)) ∨
            e = .failed .outOfMemory ∧ ¬ w.kernel.IsGenerous
  | [], _, _ => ⟨rfl, List.suffix_refl _, [], .nil, rfl⟩
  | g :: rest, w, hopen => by
      unfold declareAll AddressSpace.declareRegion
      simp only [liftM_eq, ends_bind, ends_space, ends_onKernel, ends_ite, Kernel.ends_halt,
        Kernel.ends_orFail, Kernel.ends_record, Kernel.ends_claim, ends_modifySpace]
      rw [if_neg (Bool.eq_false_iff.mp hopen)]
      by_cases hoverruns : g.overruns = true
      · have hregion : Region.declare g.address g.size g.permission = _ :=
          Segment.region_of_overruns hoverruns
        rw [hregion]
        exact Or.inl ⟨g, List.find?_cons_of_pos hoverruns, rfl⟩
      · obtain ⟨r, hregion⟩ := Segment.exists_region (Bool.eq_false_iff.mpr hoverruns)
        have hdeclare : Region.declare g.address g.size g.permission = .ok r := hregion
        rw [hdeclare]
        have hsuffix := w.kernel.heap_asked_suffix w.space.regions.wanted
        dsimp only
        split
        · refine Ends.mono (ends_declareAll_exact rest hopen) ?_ ?_
          · rintro _ w' ⟨hallocator, hheap, rs, hrest, hspace⟩
            exact ⟨hallocator, hheap.trans hsuffix, r :: rs, .cons hregion hrest, hspace⟩
          · rintro e w' (⟨g', hfirst, he⟩ | ⟨he, hmiserly⟩)
            · exact Or.inl ⟨g', (List.find?_cons_of_neg hoverruns).trans hfirst, he⟩
            · exact Or.inr ⟨he, fun hgenerous => hmiserly (hgenerous.of_suffix hsuffix)⟩
        · next hrefused => exact Or.inr ⟨trivial, fun hgenerous => hrefused (hgenerous.grants _)⟩

/-- **Drafts** of a program: its segments have been declared in a space that had no region, and
nothing else has happened to mappings and frames. -/
structure Drafted (segments : List Segment) (w w₁ : Workspace) : Prop where
  declares : Declares segments w₁.space.regions.regions
  allocator : w₁.kernel.allocator = w.kernel.allocator
  table : w₁.space.table = w.space.table
  heap : w₁.kernel.heap <:+ w.kernel.heap

theorem ends_declareAll_drafted (segments : List Segment) (hopen : w.space.loaded = false)
    (hregions : w.space.regions.regions = []) :
    Ends (declareAll segments) w (fun _ w₁ => Drafted segments w w₁)
      fun e _ => (∃ g, firstOverrun? segments = some g ∧
        e = .failed (.addressingFault g.address)) ∨
          e = .failed .outOfMemory ∧ ¬ w.kernel.IsGenerous := by
  refine Ends.mono (ends_declareAll_exact segments hopen) ?_ fun _ _ h => h
  rintro _ w₁ ⟨hallocator, hheap, rs, hdeclared, hspace⟩
  refine ⟨?_, hallocator, by rw [hspace], hheap⟩
  rw [hspace]
  show Declares segments (rs.foldl RegionList.push w.space.regions).regions
  rwa [RegionList.regions_foldl_push, hregions, List.nil_append]

namespace Drafted

theorem isSecure (h : Drafted segments w w₁) (hw : w.IsSecure) : w₁.IsSecure :=
  hw.of_eq h.table h.allocator

/-- **Preparing a draft** takes a frame for each page of the footprint, and where the heap is
generous it answers exactly if there are so many. -/
theorem ends_prepareLoad (h : Drafted segments w w₁) (hw : w.IsSecure)
    (hempty : ∀ p, ¬ w.space.Maps p) :
    Ends AddressSpace.prepareLoad w₁
      (fun _ w₂ => (footprint segments).card ≤ w.kernel.allocator.freeFrames ∧
        Filled (AddressSpace.loadPages w₁.space.regions) w₁ w₂ ∧ w₂.space.frames.Nodup)
      fun e _ => e = .failed .outOfMemory ∧ (w.kernel.IsGenerous →
        w.kernel.allocator.freeFrames < (footprint segments).card) := by
  have hsecure := h.isSecure hw
  have hexactly := hsecure.preparesExactly
  have hempty₁ : ∀ p, ¬ w₁.space.Maps p := by
    intro p
    unfold AddressSpace.Maps
    rw [h.table]
    exact hempty p
  have hcard := h.declares.card_missing hempty₁
  have hok := hexactly.ok_iff
  rw [hcard, h.allocator] at hok
  refine Ends.mono (((ends_self _ w₁).and hexactly.ends).and
    (AddressSpace.walks_prepareLoad.and (AddressSpace.furnishes_prepareLoad hsecure))) ?_ ?_
  · rintro _ w₂ ⟨⟨hanswer, -⟩, ⟨-, hfilled, -⟩, hprovides⟩
    exact ⟨(hok.mp ⟨w₂, hanswer⟩).1, hfilled, hprovides.secure.frames⟩
  · rintro e w₂ ⟨⟨hfailed, hstarved, -⟩, -⟩
    refine ⟨hstarved, fun hgenerous => Nat.lt_of_not_le fun henough => ?_⟩
    obtain ⟨w', hw'⟩ := hok.mpr ⟨henough, .of_generous (hgenerous.of_suffix h.heap) _⟩
    rw [hfailed] at hw'
    cases hw'

end Drafted

/-- **Failing** to start a program: with the error of the verdict, or out of memory because the heap
has refused something. -/
def FailsAs (segments : List Segment) (k : Kernel) (error : MemoryError) : Prop :=
  verdict segments k.allocator.freeFrames = some error ∨
    error = .outOfMemory ∧ ¬ k.IsGenerous

/-- **Loading a program** into a new space: the verdict decides, and the heap. -/
theorem ends_load_exact (segments : List Segment) (hw : w.IsSecure) (hopen : w.space.loaded = false)
    (hregions : w.space.regions.regions = []) (hempty : ∀ p, ¬ w.space.Maps p) :
    Ends (load segments) w (fun _ _ => verdict segments w.kernel.allocator.freeFrames = none)
      fun e _ => ∃ error, FailsAs segments w.kernel error ∧ e = .failed error := by
  unfold load FailsAs verdict
  rw [ends_bind]
  refine Ends.mono (ends_declareAll_drafted segments hopen hregions) ?_ ?_
  · intro _ w₁ hdraft
    rw [ends_bind, hdraft.declares.firstOverrun?_eq_none]
    refine Ends.mono (hdraft.ends_prepareLoad hw hempty) ?_ ?_
    · rintro _ w₂ ⟨henough, hfilled, hnodup⟩
      rw [ends_bind]
      refine Ends.mono (ends_writeAll_of_filled hdraft.declares hfilled hnodup)
        (fun _ _ _ => ?_) fun _ _ hfalse => hfalse.elim
      exact if_neg (Nat.not_lt_of_le henough)
    · rintro e w₂ ⟨rfl, hshort⟩
      refine ⟨.outOfMemory, ?_, rfl⟩
      by_cases hgenerous : w.kernel.IsGenerous
      · exact Or.inl (if_pos (hshort hgenerous))
      · exact Or.inr ⟨rfl, hgenerous⟩
  · rintro e w₁ (⟨g, hfirst, rfl⟩ | ⟨rfl, hmiserly⟩)
    · rw [hfirst]
      exact ⟨_, Or.inl rfl, rfl⟩
    · exact ⟨_, Or.inr ⟨rfl, hmiserly⟩, rfl⟩

end Loading

end Program

/-! ### Giving back -/

/-- **Charges**: the frame map follows the frames of the space and other blocks. -/
def Workspace.Charges (w : Workspace) (ledger : List Block) : Prop :=
  ∃ m, w.kernel.allocator.source = .mapped m ∧ m.Follows (w.space.blocks ++ ledger)

namespace Workspace.Charges

variable {w w' : Workspace} {ledger : List Block}

/-- What concerns neither frames nor their map. -/
theorem of_eq (h : w.Charges ledger) (hallocator : w'.kernel.allocator = w.kernel.allocator)
    (hframes : w'.space.frames = w.space.frames) : w'.Charges ledger := by
  obtain ⟨m, hm, hfollows⟩ := h
  refine ⟨m, hallocator ▸ hm, ?_⟩
  rwa [AddressSpace.blocks, hframes]

/-- A page that is mapped is charged to the space. -/
theorem move (h : w.Charges ledger) (hmove : w.Move w') : w'.Charges ledger := by
  cases hmove with
  | mapped p flags f a t grown room taken inserted =>
      obtain ⟨m, hm, hfollows⟩ := h
      obtain ⟨-, rfl, hfollows', -⟩ := Allocator.taken_of_follows hm hfollows taken
      have hframes := perm_frames_install (w := w) (f := f)
        (a := w.kernel.allocator.withMap (m.occupy f.index 1)) inserted
      have hblocks := hframes.symm.map fun g => (⟨g, 1⟩ : Block)
      exact ⟨_, rfl, hfollows'.perm (hblocks.append_right ledger)⟩
  | refused p f a a' cramped taken back =>
      obtain ⟨m, hm, hfollows⟩ := id h
      exact h.of_eq (back.eq_self hm hfollows taken) rfl
  | recoloured t flags same room count => exact h.of_eq rfl (frames_recoloured same)
  | _ => exact h.of_eq rfl rfl

theorem path (h : w.Charges ledger) (hpath : w.Path w') : w'.Charges ledger := by
  induction hpath with
  | refl => exact h
  | tail _ hmove ih => exact ih.move hmove

end Workspace.Charges

namespace PageTable

/-- Frames that the map follows as blocks of their own are freed one after another. -/
theorem ends_freeEntries_of_follows {ledger : List Block} :
    ∀ {es : List PageEntry} {k : Kernel} {m : FrameMap}, k.allocator.source = .mapped m →
      m.Follows (es.map (fun e => ⟨e.frame, 1⟩) ++ ledger) →
      Ends (freeEntries es) k (fun _ _ => True) fun _ _ => False := by
  intro es
  induction es with
  | nil => exact fun _ _ => trivial
  | cons e rest ih =>
      intro k m hm hfollows
      unfold freeEntries Kernel.free
      simp only [ends_bind, ends_get, Kernel.ends_orHalt, ends_modify]
      have hfree : k.allocator.free e.frame =
          .ok (k.allocator.withMap (m.vacate e.frame.index 1)) := by
        rw [Allocator.free_mapped hm, hfollows.free_head (b := ⟨e.frame, 1⟩) List.mem_cons_self]
        rfl
      rw [hfree]
      exact ih rfl hfollows.vacate

end PageTable

/-- **A space that is charged can be given up.** -/
theorem AddressSpace.ends_destroy_of_charges {w : Workspace} {ledger : List Block}
    (h : w.Charges ledger) :
    Ends w.space.destroy w.kernel (fun _ _ => True) fun _ _ => False := by
  obtain ⟨m, hm, hfollows⟩ := h
  rw [blocks, frames, List.map_map] at hfollows
  unfold destroy PageTable.release
  simp only [ends_bind, Kernel.ends_record]
  exact Ends.mono (PageTable.ends_freeEntries_of_follows hm hfollows) (fun _ _ _ => trivial)
    fun _ _ h => h

/-! ### Starting -/

namespace Program

/-- A new space, unless the heap refuses the room for its list or for its table. -/
theorem ends_create_exact {k : Kernel} :
    Ends AddressSpace.create k
      (fun s k' => s = .new k.nextSpace ∧ ∃ heap, heap <:+ k.heap ∧
        k' = { k with heap, nextSpace := k.nextSpace + 1 })
      fun e _ => e = .failed .outOfMemory ∧ ¬ k.IsGenerous := by
  have hlist := k.heap_asked_suffix RegionList.initialCapacity
  have htable := (k.asked RegionList.initialCapacity).heap_asked_suffix PageTable.initialCapacity
  unfold AddressSpace.create Kernel.freshSpace
  simp only [ends_bind, Kernel.ends_claim, ends_modifyGet, ends_pure]
  split
  · split
    · exact ⟨rfl, _, htable.trans hlist, rfl⟩
    · next hrefused =>
        exact ⟨trivial, fun hgenerous => hrefused ((hgenerous.of_suffix hlist).grants _)⟩
  · next hrefused => exact ⟨trivial, fun hgenerous => hrefused (hgenerous.grants _)⟩

/-- **Starting a program** over a frame map: the verdict decides, and the heap, and nothing stops
the kernel. -/
theorem ends_start_exact {k : Kernel} {m : FrameMap} {ledger : List Block}
    (hm : k.allocator.source = .mapped m) (hfollows : m.Follows ledger) (segments : List Segment)
    (entryPoint : VirtAddr) :
    Ends (start segments entryPoint) k
      (fun _ _ => verdict segments k.allocator.freeFrames = none)
      fun e _ => ∃ error, FailsAs segments k error ∧ e = .failed error := by
  unfold start
  rw [ends_bind]
  refine Ends.mono ends_create_exact ?_ fun e _ h => ⟨_, Or.inr ⟨rfl, h.2⟩, h.1⟩
  rintro _ _ ⟨rfl, heap, hheap, rfl⟩
  have hsecure := Workspace.isSecure_new (k := { k with heap, nextSpace := k.nextSpace + 1 }) hm
    hfollows k.nextSpace
  have hcharges : Workspace.Charges
      ⟨{ k with heap, nextSpace := k.nextSpace + 1 }, .new k.nextSpace⟩ ledger := by
    refine ⟨m, hm, ?_⟩
    rwa [AddressSpace.blocks, AddressSpace.frames_of_blank rfl, List.map_nil, List.nil_append]
  rw [ends_bind, SpaceM.ends_attempt]
  refine Ends.mono ((wanders_load segments).and
    (ends_load_exact segments hsecure rfl rfl (AddressSpace.not_maps_new k.nextSpace))) ?_ ?_
  · rintro stackPointer w ⟨-, hverdict⟩
    unfold Process.create Kernel.freshPid
    simp only [ends_bind, ends_modifyGet, Kernel.ends_record, ends_pure]
    exact hverdict
  · rintro e w ⟨⟨hpath, -⟩, error, hverdict, rfl⟩
    have hfails : FailsAs segments k error := hverdict.imp_right fun h =>
      ⟨h.1, fun hgenerous => h.2 (hgenerous.of_suffix hheap)⟩
    simp only [ends_bind, Kernel.ends_fail]
    exact Ends.mono (AddressSpace.ends_destroy_of_charges (hcharges.path hpath))
      (fun _ _ _ => ⟨error, hfails, rfl⟩) fun _ _ hfalse => hfalse.elim

/-- **Writing cannot fail** once a new space with the segments declared has been prepared. -/
theorem exists_writeAll {segments : List Segment} {w w₁ w₂ : Workspace} (hw : w.IsSecure)
    (hopen : w.space.loaded = false) (hregions : w.space.regions.regions = [])
    (hempty : ∀ p, ¬ w.space.Maps p) (declared : declareAll segments w = .ok () w₁)
    (prepared : AddressSpace.prepareLoad w₁ = .ok () w₂) :
    ∃ w₃, writeAll segments w₂ = .ok () w₃ := by
  have hdraft := (ends_declareAll_drafted segments hopen hregions).of_ok declared
  obtain ⟨-, hfilled, hnodup⟩ := (hdraft.ends_prepareLoad hw hempty).of_ok prepared
  have hends := ends_writeAll_of_filled hdraft.declares hfilled hnodup
  cases hwrite : writeAll segments w₂ with
  | ok _ w₃ => exact ⟨w₃, rfl⟩
  | error e w₃ => exact (hends.of_error hwrite).elim

end Program

namespace Machine

/-- **What becomes of a program** that is started on a machine: the answer or the error, and that
writing its bytes was never at fault.  What a generous heap is needed for is said. -/
structure Launches (m : Machine) (segments : List Segment) (entryPoint : VirtAddr) : Prop where
  alive : Machine.hasHalted (m.step (.startProgram segments entryPoint)).1 = false
  /-- The first segment that reaches beyond user space is reported. -/
  overrun : m.kernel.IsGenerous → ∀ g, Program.firstOverrun? segments = some g →
    (m.step (.startProgram segments entryPoint)).1 =
      .error (.aborted (.failed (.addressingFault g.address)))
  /-- If there is none the program is out of memory exactly if there are fewer free frames than
  pages in its footprint. -/
  starved_iff : m.kernel.IsGenerous → Program.firstOverrun? segments = none →
    ((m.step (.startProgram segments entryPoint)).1 = .error (.aborted (.failed .outOfMemory)) ↔
      m.kernel.allocator.freeFrames < (Program.footprint segments).card)
  started : m.kernel.IsGenerous → Program.firstOverrun? segments = none →
    (Program.footprint segments).card ≤ m.kernel.allocator.freeFrames →
      ∃ p, (m.step (.startProgram segments entryPoint)).1 =
        .ok (.processCreated m.processes.length p)
  /-- A heap that refuses something makes the program run out of memory at worst. -/
  outcome : (∃ p, (m.step (.startProgram segments entryPoint)).1 =
        .ok (.processCreated m.processes.length p) ∧ Program.firstOverrun? segments = none ∧
        (Program.footprint segments).card ≤ m.kernel.allocator.freeFrames) ∨
    ∃ error, (m.step (.startProgram segments entryPoint)).1 = .error (.aborted (.failed error)) ∧
      Program.FailsAs segments m.kernel error
  /-- In a new space, whatever its number, writing is answered if preparing was. -/
  written : ∀ (k : Kernel) (id : SpaceId) (w₁ w₂ : Workspace),
    k.allocator = m.kernel.allocator →
      Program.declareAll segments ⟨k, .new id⟩ = .ok () w₁ →
        AddressSpace.prepareLoad w₁ = .ok () w₂ → ∃ w₃, Program.writeAll segments w₂ = .ok () w₃

/-- The outcome of starting a program, in terms of the verdict. -/
theorem step_startProgram {m : Machine} {map : FrameMap} {ledger : List Block}
    (hm : m.kernel.allocator.source = .mapped map) (hfollows : map.Follows ledger)
    (segments : List Segment) (entryPoint : VirtAddr) :
    (∃ p, (m.step (.startProgram segments entryPoint)).1 =
        .ok (.processCreated m.processes.length p) ∧
        Program.verdict segments m.kernel.allocator.freeFrames = none) ∨
      ∃ error, (m.step (.startProgram segments entryPoint)).1 =
        .error (.aborted (.failed error)) ∧ Program.FailsAs segments m.kernel error := by
  have hends : Ends (answer (.startProgram segments entryPoint)) m
      (fun reply _ => Program.verdict segments m.kernel.allocator.freeFrames = none ∧
        ∃ p, reply = .processCreated m.processes.length p)
      fun e _ => ∃ error, Program.FailsAs segments m.kernel error ∧
        e = .aborted (.failed error) := by
    unfold answer
    simp only [ends_bind, Machine.liftM_eq, ends_onKernel, ends_addProcess, ends_pure]
    refine Ends.mono (Program.ends_start_exact hm hfollows segments entryPoint) ?_ ?_
    · exact fun p _ hverdict => ⟨hverdict, p, rfl⟩
    · rintro e _ ⟨error, hverdict, rfl⟩
      exact ⟨error, hverdict, rfl⟩
  rcases step_cases hends with
    ⟨reply, m', hstep, hverdict, p, rfl⟩ | ⟨e, m', hstep, error, hverdict, rfl⟩
  · rw [hstep]
    exact Or.inl ⟨p, rfl, hverdict⟩
  · rw [hstep]
    exact Or.inr ⟨error, rfl, hverdict⟩

/-- Where the heap is generous, the verdict decides. -/
theorem step_startProgram_of_generous {m : Machine} {map : FrameMap} {ledger : List Block}
    (hm : m.kernel.allocator.source = .mapped map) (hfollows : map.Follows ledger)
    (generous : m.kernel.IsGenerous) (segments : List Segment) (entryPoint : VirtAddr) :
    match Program.verdict segments m.kernel.allocator.freeFrames with
    | some error =>
        (m.step (.startProgram segments entryPoint)).1 = .error (.aborted (.failed error))
    | none => ∃ p, (m.step (.startProgram segments entryPoint)).1 =
        .ok (.processCreated m.processes.length p) := by
  rcases step_startProgram hm hfollows segments entryPoint with
    ⟨p, hstep, hverdict⟩ | ⟨error, hstep, hverdict | ⟨-, hmiserly⟩⟩
  · rw [hverdict]
    exact ⟨p, hstep⟩
  · rw [hverdict]
    exact hstep
  · exact absurd generous hmiserly

end Machine

namespace History

variable {h : History} {rs : List Request}

/-- **Starting a program** on a machine with a frame map, in any history of a blank machine,
whatever its heap answers. -/
theorem startProgram_outcome {m : Machine} (blank : m.IsBlank) (run : Run ⟨m, []⟩ rs h)
    (built : h.machine.kernel.allocator.isInitialized = true) (segments : List Segment)
    (entryPoint : VirtAddr) : h.machine.Launches segments entryPoint := by
  cases hsource : h.machine.kernel.allocator.source with
  | booting boot => simp [Allocator.isInitialized, hsource] at built
  | mapped map =>
      obtain ⟨ledger, stolen, -, hfollows, -⟩ := (run.tenure blank).granted.mapped map hsource
      have hends := Machine.step_startProgram hsource hfollows segments entryPoint
      have hexact := fun hgenerous =>
        Machine.step_startProgram_of_generous hsource hfollows hgenerous segments entryPoint
      refine ⟨?_, fun hgenerous g hg => ?_, fun hgenerous hnone => ?_,
        fun hgenerous hnone henough => ?_, ?_, ?_⟩
      · rcases hends with ⟨p, hstep, -⟩ | ⟨error, hstep, -⟩
        · rw [hstep]
          rfl
        · rw [hstep]
          rfl
      · have hstep := hexact hgenerous
        rwa [Program.verdict, hg] at hstep
      · have hstep := hexact hgenerous
        rw [Program.verdict, hnone] at hstep
        by_cases hshort : h.machine.kernel.allocator.freeFrames < (Program.footprint segments).card
        · simp only [if_pos hshort] at hstep
          exact iff_of_true hstep hshort
        · simp only [if_neg hshort] at hstep
          obtain ⟨p, hp⟩ := hstep
          refine iff_of_false (fun hfailed => ?_) hshort
          rw [hp] at hfailed
          cases hfailed
      · have hstep := hexact hgenerous
        rw [Program.verdict, hnone] at hstep
        simpa only [if_neg (Nat.not_lt_of_le henough)] using hstep
      · refine hends.imp_left ?_
        rintro ⟨p, hstep, hverdict⟩
        exact ⟨p, hstep, Program.verdict_eq_none_iff.mp hverdict⟩
      · intro k id w₁ w₂ hallocator declared prepared
        have hsecure := Workspace.isSecure_new (hallocator ▸ hsource) hfollows id
        exact Program.exists_writeAll hsecure rfl rfl (AddressSpace.not_maps_new id) declared
          prepared

/-- A segment that ends where user space does, and one in the first page of the stack. -/
def topSegments : List Segment :=
  [⟨⟨0x7ffffffff800, by decide⟩, [1, 2, 3], 0x800, ⟨true, true, false⟩⟩,
    ⟨⟨0x6ffffffff004, by decide⟩, [9], 0, ⟨true, false, false⟩⟩]

/-- Three frames are free over a map that was built late, and some frames were stolen before.  They
are enough for the two segments, one of which is in the page of the stack.  They are not enough
for one page more, and one byte more in the last page of user space has no address. -/
theorem startProgram_outcome_sixteen_frames :
    ∃ rs h, Run ⟨bootingSixteenFrames, []⟩ rs h ∧ h.machine.kernel.allocator.freeFrames = 3 ∧
      (∃ p, (h.machine.step (.startProgram topSegments ⟨0x6ffffffff004, by decide⟩)).1 =
        .ok (.processCreated 0 p)) ∧
      (h.machine.step (.startProgram
          (topSegments ++ [⟨⟨0x1004, by decide⟩, [], 1, ⟨true, false, true⟩⟩])
          ⟨0x1004, by decide⟩)).1 = .error (.aborted (.failed .outOfMemory)) ∧
      (h.machine.step (.startProgram
          (topSegments ++ [⟨⟨0x7ffffffff900, by decide⟩, [7], 0x701, ⟨true, false, true⟩⟩])
          ⟨0x1004, by decide⟩)).1 =
        .error (.aborted (.failed (.addressingFault ⟨0x7ffffffff900, by decide⟩))) := by
  have run : Run ⟨bootingSixteenFrames, []⟩ _ _ :=
    ((Run.start.next (.frames (.allocate 1)) trivial (by decide +kernel)).next
      (.frames (.bootstrap sixteenFramesLayout none)) trivial (by decide +kernel)).next
      (.frames (.allocate 9)) trivial (by decide +kernel)
  obtain ⟨rs, h, run, built, hfree, hnone, hheap⟩ :
      ∃ rs h, Run ⟨bootingSixteenFrames, []⟩ rs h ∧
        h.machine.kernel.allocator.isInitialized = true ∧
        h.machine.kernel.allocator.freeFrames = 3 ∧ h.machine.processes.length = 0 ∧
        h.machine.kernel.heap = [] :=
    ⟨_, _, run, by decide +kernel, by decide +kernel, by decide +kernel, by decide +kernel⟩
  have generous := Kernel.IsGenerous.of_heap_eq_nil hheap
  have launches := startProgram_outcome isBlank_bootingSixteenFrames run built
  refine ⟨rs, h, run, hfree, ?_, ?_, ?_⟩
  · rw [← hnone]
    exact (launches topSegments _).started generous (by decide +kernel)
      (by rw [hfree]; decide +kernel)
  · exact ((launches _ _).starved_iff generous (by decide +kernel)).mpr
      (by rw [hfree]; decide +kernel)
  · exact (launches _ _).overrun generous
      ⟨⟨0x7ffffffff900, by decide⟩, [7], 0x701, ⟨true, false, true⟩⟩ rfl

end History

end DemandPaging
