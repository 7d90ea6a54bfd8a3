import DemandPaging.Proofs.Answering

/-!
# Frame ownership

Spaces and processes come and go, pages are mapped, copied and given up, and other parts of the
kernel take and give back blocks in between.  Through any such history the frames in use are
divided between the spaces that map them and the blocks that callers hold, with nothing left
over and nothing counted twice (`History.run_owned`).

**What is asked of callers.**  Only that they free what they hold, and that page tables of their
own are kept out of the history (`History.Permits`): nobody but whoever fills such a table knows
whose frames are in it.  Everything else may be requested at any time, with any arguments, and
may fail, for want of frames or because the heap refuses room.
-/

namespace DemandPaging

/-- Whether the request takes frames away from everybody. -/
def Request.reserves : Request → Bool
  | .frames r => r.reserves
  | _ => false

/-- **Fresh machines**: the frame map has just been built, and there is no space yet.  Numbers
of spaces may have been given away already, and the heap may be going to answer anything. -/
structure Machine.IsFresh (m : Machine) : Prop where
  built : m.kernel.allocator.Built
  empty : m.live = []
  unprepared : ∀ i, m.kernel.HasPrepared i → i < m.kernel.nextSpace

/-- A machine that has started, and is past its booting phase, is fresh. -/
theorem Machine.isFresh_of_start {window : VirtAddr} {layout : Layout} {ignored : Option Nat}
    {cacheSlots : Nat} {m : Machine} (h : start window layout ignored cacheSlots false = .ok m) :
    m.IsFresh := by
  unfold start at h
  split at h
  · cases h
  · next boot _ =>
      simp only [Bool.false_eq_true, if_false] at h
      split at h
      · cases h
      · next a ready hbootstrap =>
          cases h
          refine ⟨Or.inr ⟨boot, layout, ready, hbootstrap⟩, rfl, fun i hi => ?_⟩
          -- what is reported while booting is not about spaces
          obtain ⟨b, base, a₀, -, -, hinstall, -⟩ := Allocator.bootstrap_eq_ok hbootstrap
          obtain ⟨_, map, -, -, -, -, rfl⟩ := Allocator.install_eq_ok hinstall
          obtain ⟨n, hn⟩ := hi
          cases ignored <;> simp at hn

/-- **Histories**: how far a machine has got, and the blocks that callers hold. -/
structure History where
  machine : Machine
  held : List Block

namespace History

/-- The blocks that callers hold after one more request. -/
def heldAfter (h : History) : Request → Machine.Outcome → List Block
  | .frames r, .ok reply => r.heldAfter h.machine.kernel.allocator h.held reply
  | _, _ => h.held

/-- The history after one more request. -/
def next (h : History) (r : Request) : History :=
  ⟨(h.machine.step r).2, h.heldAfter r (h.machine.step r).1⟩

/-- **Permitted requests**: what is freed is held, and no page table stands alone. -/
def Permits (h : History) : Request → Prop
  | .frames r => r.IsHonest h.machine.kernel.allocator h.held
  | .table _ _ => False
  | _ => True

/-- **Runs**: permitted requests one after another, none of which stops the machine. -/
inductive Run (start : History) : List Request → History → Prop where
  | start : Run start [] start
  | next {rs : List Request} {h : History} (run : Run start rs h) (r : Request)
      (permitted : h.Permits r) (alive : Machine.hasHalted (h.machine.step r).1 = false) :
      Run start (rs ++ [r]) (h.next r)

/-- The frames that spaces map, once for every mapping. -/
def mappedFrames (h : History) : List Frame := h.machine.live.flatMap AddressSpace.frames

/-- **Ownership.**  The frames in use are the mapped frames and those of held blocks. -/
structure Owned (h : History) (map : FrameMap) : Prop where
  source : h.machine.kernel.allocator.source = .mapped map
  /-- A mapped frame is a block of its own. -/
  single : ∀ f ∈ h.mappedFrames, map.entry? f = some (.inUse true 1)
  /-- No frame is mapped twice, in one space or in two. -/
  distinct : h.mappedFrames.Nodup
  nonempty : ∀ b ∈ h.held, 0 < b.count
  apart : h.held.Pairwise Block.Apart
  /-- What is mapped is not held. -/
  separate : ∀ f ∈ h.mappedFrames, ∀ b ∈ h.held, ¬ b.Holds f.index
  inUse_iff : ∀ i : Nat, (∃ isHead n, map.entries[i]? = some (.inUse isHead n)) ↔
    (∃ f ∈ h.mappedFrames, f.index = i) ∨ ∃ b ∈ h.held, b.Holds i
  /-- No request that may come next stops the machine because a frame is given back that is not
  the head of a block, or a page is mapped that has a mapping. -/
  sound : ∀ r, h.Permits r → ∀ e m', h.machine.answer r = .error (.aborted e) m' →
    ¬ e.BreaksOwnership

/-! ### One request -/

variable {start h : History} {rs : List Request} {r : Request} {tally : Tally}

/-- The custody of a history. -/
def InCustody (h : History) (tally : Tally) : Prop :=
  Custody h.machine.kernel h.machine.live h.held tally

/-- **Serving a request**: after the reply, or after a failure, there is custody still; if the
machine stops instead, the reason is not ownership. -/
def Serves (h : History) (r : Request) (tally : Tally) : Prop :=
  Ends (Machine.answer r) h.machine
    (fun reply m => ∃ room', (r.reserves = false → room' = tally.room) ∧
      InCustody ⟨m, h.heldAfter r (.ok reply)⟩ { tally with room := room' })
    fun e m => e.Leaves (InCustody ⟨m, h.held⟩ tally)

/-- Requests that leave the blocks of callers alone. -/
theorem serves_of_keeps (hheld : ∀ reply, h.heldAfter r (.ok reply) = h.held)
    (hkeeps : Machine.Keeps (Machine.answer r) h.machine h.held tally) : h.Serves r tally := by
  refine Ends.mono hkeeps (fun reply m hm => ⟨tally.room, fun _ => rfl, ?_⟩) fun e m hm => hm
  rw [hheld]
  exact hm

/-- **Every permitted request is served.** -/
theorem InCustody.serves (hc : h.InCustody tally) (permitted : h.Permits r) :
    h.Serves r tally := by
  cases r with
  | frames r =>
      unfold Serves Machine.answer
      simp only [Machine.liftM_eq, Machine.ends_onKernel]
      exact Ends.mono (r.settles hc permitted) (fun _ _ hm => hm) fun _ _ hm => hm _
  | cache r =>
      refine serves_of_keeps (fun _ => rfl) ?_
      unfold Machine.Keeps Machine.answer
      simp only [Machine.liftM_eq, Machine.ends_onKernel]
      exact r.ends_answer hc
  | createTable capacity =>
      exact serves_of_keeps (fun _ => rfl) (Machine.keeps_createTable hc capacity)
  | table n r => exact permitted.elim
  | createSpace => exact serves_of_keeps (fun _ => rfl) (Machine.keeps_createSpace hc)
  | duplicateSpace name =>
      exact serves_of_keeps (fun _ => rfl) (Machine.keeps_duplicateSpace hc name)
  | destroySpace n => exact serves_of_keeps (fun _ => rfl) (Machine.keeps_destroySpace hc n)
  | space name r => exact serves_of_keeps (fun _ => rfl) (Machine.keeps_onSpace hc name r)
  | fault who access a =>
      exact serves_of_keeps (fun _ => rfl) (Machine.keeps_answerFault hc who access a)
  | startProgram segments entryPoint =>
      exact serves_of_keeps (fun _ => rfl) (Machine.keeps_startProgram hc segments entryPoint)
  | createProcess n entryPoint stackPointer =>
      exact serves_of_keeps (fun _ => rfl)
        (Machine.keeps_createProcess hc n entryPoint stackPointer)
  | forkWith n space => exact serves_of_keeps (fun _ => rfl) (Machine.keeps_forkWith hc n space)
  | fork n =>
      refine serves_of_keeps (fun _ => rfl) ?_
      unfold Machine.Keeps Machine.answer
      simp only [ends_bind, ends_pure]
      exact Machine.keeps_fork hc n
  | forkCall n => exact serves_of_keeps (fun _ => rfl) (Machine.keeps_forkCall hc n)
  | process n r => exact serves_of_keeps (fun _ => rfl) (Machine.keeps_answerProcess hc n r)

/-- **What one request keeps.** -/
theorem InCustody.next (hc : h.InCustody tally) (permitted : h.Permits r)
    (alive : Machine.hasHalted (h.machine.step r).1 = false) :
    ∃ room', (r.reserves = false → room' = tally.room) ∧
      (h.next r).InCustody { tally with room := room' } := by
  have hends := hc.serves permitted
  unfold Serves Ends at hends
  unfold History.next Machine.step at *
  split at hends
  · next heq =>
      simp only [heq]
      exact hends
  · next e m heq =>
      -- without a reply nobody is given anything, and nothing is taken back
      have hsame : h.heldAfter r (.error e) = h.held := by cases r <;> rfl
      simp only [heq] at alive ⊢
      rw [hsame]
      refine ⟨tally.room, fun _ => rfl, ?_⟩
      rcases e with _ | ⟨e | halt⟩
      · exact hends
      · exact hends
      · cases alive

/-! ### Many requests -/

/-- A fresh machine is in custody, with all frames in it that are free. -/
theorem inCustody_of_isFresh {m : Machine} (fresh : m.IsFresh) :
    InCustody ⟨m, []⟩ ⟨m.kernel.allocator.freeFrames, []⟩ := by
  obtain ⟨map, hsource, hfollows⟩ := fresh.built.follows
  refine ⟨⟨map, hsource, ?_⟩, ?_, ?_, ?_, ?_, fun i hi => ⟨fresh.unprepared i hi, ?_⟩,
    List.forall_mem_nil _⟩ <;> simp only [fresh.empty]
  · exact hfollows
  · rfl
  · exact List.forall_mem_nil _
  · exact List.forall_mem_nil _
  · exact List.nodup_nil
  · exact List.forall_mem_nil _

/-- **What a run keeps**, by induction on its requests. -/
theorem Run.inCustody (run : Run start rs h) (hc : start.InCustody tally) :
    ∃ room', ((∀ r ∈ rs, r.reserves = false) → room' = tally.room) ∧
      h.InCustody { tally with room := room' } := by
  induction run with
  | start => exact ⟨tally.room, fun _ => rfl, hc⟩
  | next _ r permitted alive ih =>
      obtain ⟨room₁, hroom₁, hc₁⟩ := ih
      obtain ⟨room₂, hroom₂, hc₂⟩ := hc₁.next permitted alive
      refine ⟨room₂, fun hkept => ?_, hc₂⟩
      rw [hroom₂ (hkept r (by simp)), hroom₁ fun r' hr' => hkept r' (List.mem_append_left _ hr')]

/-! ### What custody means -/

theorem mappedBlocks_eq_map (h : History) :
    mappedBlocks h.machine.live = h.mappedFrames.map fun f => ⟨f, 1⟩ :=
  List.map_flatMap.symm

/-- **Custody is ownership.** -/
theorem InCustody.owned (hc : h.InCustody tally) : ∃ map, h.Owned map := by
  obtain ⟨map, hsource, hfollows⟩ := hc.follows
  rw [mappedBlocks_eq_map] at hfollows
  obtain ⟨-, hheld, hboth⟩ := List.pairwise_append.mp hfollows.apart
  have hsingle : ∀ f : Frame, Block.Holds ⟨f, 1⟩ f.index := fun f => Block.holds_head Nat.one_pos
  have hblock : ∀ f ∈ h.mappedFrames,
      (⟨f, 1⟩ : Block) ∈ h.mappedFrames.map (fun f => ⟨f, 1⟩) ++ h.held :=
    fun f hf => List.mem_append_left _ (List.mem_map_of_mem hf)
  refine ⟨map, ?_⟩
  refine
    { source := hsource, single := ?_, distinct := hc.nodup_frames,
      nonempty := fun b hb => hfollows.nonempty b (List.mem_append_right _ hb),
      apart := hheld, separate := ?_, inUse_iff := ?_, sound := ?_ }
  · intro f hf
    have hentry := hfollows.recorded _ (hblock f hf) f.index (hsingle f)
    simpa [FrameMap.entry?] using hentry
  · intro f hf b hb
    exact hboth _ (List.mem_map_of_mem hf) b hb f.index (hsingle f)
  · intro i
    constructor
    · rintro ⟨isHead, n, hi⟩
      obtain ⟨b, hb, hholds⟩ := hfollows.accounted i isHead n hi
      rcases List.mem_append.mp hb with hb | hb
      · obtain ⟨f, hf, rfl⟩ := List.mem_map.mp hb
        refine Or.inl ⟨f, hf, ?_⟩
        simp only [Block.Holds] at hholds
        omega
      · exact Or.inr ⟨b, hb, hholds⟩
    · rintro (⟨f, hf, rfl⟩ | ⟨b, hb, hholds⟩)
      · exact ⟨_, _, hfollows.recorded _ (hblock f hf) f.index (hsingle f)⟩
      · exact ⟨_, _, hfollows.recorded b (List.mem_append_right _ hb) i hholds⟩
  · intro r permitted e m' heq hbreak
    have hleaves := (hc.serves permitted).of_error heq
    cases e with
    | failed e => exact hbreak
    | halted halt => exact hleaves hbreak

/-- **Frame ownership.**  From a fresh machine, after any run, the frames in use are divided
between the spaces and the callers, and nothing that may come next would stop the machine for
the lack of that.  As long as nothing was reserved, the frames that are free, mapped or held are
as many as were free in the beginning. -/
theorem run_owned {m : Machine} (fresh : m.IsFresh) (run : Run ⟨m, []⟩ rs h) :
    (∃ map, h.Owned map) ∧
      ((∀ r ∈ rs, r.reserves = false) →
        h.machine.kernel.allocator.freeFrames + h.mappedFrames.length + frameTotal h.held =
          m.kernel.allocator.freeFrames) := by
  obtain ⟨room, hroom, hc⟩ := run.inCustody (inCustody_of_isFresh fresh)
  refine ⟨hc.owned, fun hkept => ?_⟩
  have hconserved := hc.conserved
  rw [hroom hkept, mappedBlocks_eq_map, frameTotal_append, frameTotal_singles,
    ← Nat.add_assoc] at hconserved
  exact hconserved

/-- A run ends with a space that passes a test, if one of its spaces does. -/
theorem Run.exists_space (run : Run start rs h)
    (test : History → AddressSpace → Bool) (hany : h.machine.live.any (test h) = true) :
    ∃ rs h s, Run start rs h ∧ s ∈ h.machine.live ∧ test h s = true := by
  obtain ⟨s, hs, htest⟩ := List.any_eq_true.mp hany
  exact ⟨rs, h, s, run, hs, htest⟩

/-- Sixteen frames with a hole at frame five. -/
def sixteenFramesLayout : Layout :=
  ⟨⟨0x1000, by decide⟩, 0x10000, [⟨⟨0x5000, by decide⟩, 0x1000⟩]⟩

/-- Four of the frames can be stolen before there is a map. -/
def bootingSixteenFrames : Machine where
  kernel := Kernel.initial
    ⟨⟨0xffff800000000000, by decide⟩, .booting ⟨⟨0x1000, by decide⟩, ⟨0x5000, by decide⟩, 0⟩⟩ 2
  tables := []
  spaces := []
  processes := []

/-- The map of the sixteen frames has just been built. -/
def sixteenFrames : Machine where
  kernel :=
    { Kernel.initial
        ⟨⟨0xffff800000000000, by decide⟩, .mapped
          ⟨[.fixed, .fixed, .free, .free, .free, .fixed, .free, .free, .free, .free, .free, .free,
            .free, .free, .free, .free], 13, by decide⟩⟩ 2 with
      journal := #[.frameMapReady ⟨0x1000, by decide⟩ 16 14] }
  tables := []
  spaces := []
  processes := []

theorem isFresh_sixteenFrames : sixteenFrames.IsFresh := by
  let window : VirtAddr := ⟨0xffff800000000000, by decide⟩
  let boot : Allocator := bootingSixteenFrames.kernel.allocator
  have limit : sixteenFramesLayout.bootLimit = .ok ⟨0x5000, by decide⟩ := rfl
  have started : Allocator.start window sixteenFramesLayout = .ok boot := by
    unfold Allocator.start
    rw [limit]
    cbv
  have ready : boot.bootstrap sixteenFramesLayout =
      .ok (sixteenFrames.kernel.allocator, .frameMapReady ⟨0x1000, by decide⟩ 16 14) := by cbv
  have machine : Machine.start window sixteenFramesLayout none 2 false = .ok sixteenFrames := by
    simp only [Machine.start, started, ready, Bool.false_eq_true, if_false]
    rfl
  exact Machine.isFresh_of_start machine

/-- Ninety-six frames, and a heap that has room for the region list and the page table of one
space, and refuses the two requests after these. -/
def narrowHeap : Machine where
  kernel :=
    { Kernel.initial
        ⟨⟨0xffff800000000000, by decide⟩, .mapped
          ⟨.fixed :: .fixed :: List.replicate 94 .free, 94, by decide⟩⟩ 2 with
      heap := [true, true, false, false]
      journal := #[.frameMapReady ⟨0x1000, by decide⟩ 96 94] }
  tables := []
  spaces := []
  processes := []

theorem isFresh_narrowHeap : narrowHeap.IsFresh := by
  let window : VirtAddr := ⟨0xffff800000000000, by decide⟩
  let layout : Layout := ⟨⟨0x1000, by decide⟩, 0x60000, []⟩
  let boot : Allocator := ⟨window, .booting ⟨⟨0x1000, by decide⟩, ⟨0x60000, by decide⟩, 0⟩⟩
  have ready : boot.bootstrap layout =
      .ok (narrowHeap.kernel.allocator, .frameMapReady ⟨0x1000, by decide⟩ 96 94) := by cbv
  refine ⟨Or.inr ⟨boot, layout, _, ready⟩, rfl, ?_⟩
  rintro i ⟨n, hn⟩
  simp [narrowHeap] at hn

/-- A space that has declared sixty-five pages, one more than its table has slots. -/
def sixtyFivePages : History :=
  (History.next ⟨narrowHeap, []⟩ .createSpace).next
    (.space (.space 0) (.declareRegion ⟨0x1000, by decide⟩ 0x41000 ⟨true, true, false⟩))

theorem run_sixtyFivePages : ∃ rs, Run ⟨narrowHeap, []⟩ rs sixtyFivePages :=
  ⟨_, (Run.start.next .createSpace trivial (by decide +kernel)).next
    (.space (.space 0) (.declareRegion ⟨0x1000, by decide⟩ 0x41000 ⟨true, true, false⟩)) trivial
      (by decide +kernel)⟩

/-- Ownership over sixteen frames: a space of one region is prepared, a caller is given two
frames, the space is duplicated and then given up, and the caller frees its block.  What is in
use are the three frames of the duplicate.  And ownership where the heap refuses room: the frame
that was taken for the sixty-fifth page is free again. -/
theorem run_owned_with_and_without_room :
    (∃ rs h, Run ⟨sixteenFrames, []⟩ rs h ∧ rs.length = 7 ∧ h.held = [] ∧
      h.mappedFrames = [⟨8, by decide⟩, ⟨9, by decide⟩, ⟨10, by decide⟩] ∧
      (∃ map, h.Owned map) ∧
      h.machine.kernel.allocator.freeFrames + h.mappedFrames.length + frameTotal h.held = 13) ∧
    ∃ rs h, Run ⟨narrowHeap, []⟩ rs h ∧ h.machine.kernel.heap = [false] ∧
      h.mappedFrames.length = 64 ∧ h.machine.kernel.allocator.freeFrames = 30 ∧
      ∃ map, h.Owned map := by
  have prepared : Run ⟨sixteenFrames, []⟩ _ _ :=
    ((Run.start.next .createSpace trivial (by decide +kernel)).next
      (.space (.space 0) (.declareRegion ⟨0x1000, by decide⟩ 0x1000 ⟨true, true, false⟩)) trivial
        (by decide +kernel)).next (.space (.space 0) .prepareLoad) trivial (by decide +kernel)
  have duplicated : Run ⟨sixteenFrames, []⟩ _ _ :=
    (prepared.next (.frames (.allocate 2)) trivial (by decide +kernel)).next
      (.duplicateSpace (.space 0)) trivial (by decide +kernel)
  have run : Run ⟨sixteenFrames, []⟩ _ _ :=
    (duplicated.next (.destroySpace 0) trivial (by decide +kernel)).next
      (.frames (.free ⟨6, by decide⟩)) ⟨⟨⟨6, by decide⟩, 2⟩, by decide +kernel, rfl⟩
        (by decide +kernel)
  have howned := run_owned isFresh_sixteenFrames run
  refine ⟨⟨_, _, run, rfl, by decide +kernel, by decide +kernel, howned.1,
    howned.2 (by decide)⟩, ?_⟩
  obtain ⟨rs, declared⟩ := run_sixtyFivePages
  have refused : Run ⟨narrowHeap, []⟩ _ _ :=
    declared.next (.space (.space 0) .prepareLoad) trivial (by decide +kernel)
  exact ⟨_, _, refused, by decide +kernel, by decide +kernel, by decide +kernel,
    (run_owned isFresh_narrowHeap refused).1⟩

end History

end DemandPaging
