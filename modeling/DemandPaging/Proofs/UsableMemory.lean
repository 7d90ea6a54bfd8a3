import DemandPaging.Proofs.Ledger
import DemandPaging.Proofs.Survey

/-!
# Only usable memory is handed out

Four components decide where a frame may come from: the survey leaves out what is unusable,
the booting phase takes frames from below the first hole, the frame map is put above
everything taken so far, and the holes are fixed in it afterwards.  Here their bounds are put
together for whoever receives frames (`Account.run_sheltered`).

**Two phases, one account.**  In the booting phase a call that does not stop the kernel only
ever takes frames from the bottom of the first run, so the blocks in the account are stacked
between the first free frame and `BootFrames.next` (`Account.Booting`).  Afterwards the
account goes on over a frame map in which all of them are fixed, and `Account.Balanced`
applies.
-/

namespace DemandPaging

/-- No frame of the block shares a byte with `[base, base + length)`. -/
def Block.Avoids (c : Block) (base length : Nat) : Prop :=
  ∀ i, c.Holds i → (i + 1) * pageSize ≤ base ∨ base + length ≤ i * pageSize

/-! ### Where frames are taken from in the booting phase -/

/-- **What stealing can do.**  Nothing, or take `count` frames from the bottom. -/
theorem BootFrames.steal_eq_ok {b b' : BootFrames} {count : Nat} {f : Option Frame}
    (h : b.steal count = .ok (f, b')) :
    f = none ∧ b' = b ∨
      0 < count ∧ f = some b.next.frame ∧ b'.next.val = b.next.val + count * pageSize ∧
        b'.next.val ≤ b.limit.val ∧ b'.limit = b.limit := by
  unfold steal at h
  split at h
  · cases h
    exact Or.inl ⟨rfl, rfl⟩
  · next hpos =>
      split at h
      · cases h
      · next bytes hbytes =>
          unfold Word.mul at hbytes
          split at hbytes
          · cases hbytes
            split at h
            · next hroom =>
                cases h
                exact Or.inr ⟨Nat.pos_of_ne_zero hpos, rfl, rfl, hroom, rfl⟩
            · cases h
              exact Or.inl ⟨rfl, rfl⟩
          · cases hbytes

namespace Layout

variable {l : Layout} {kernelEnd : PhysAddr} {ranges : List MemoryRange}

/-- The booting phase ends below every hole. -/
theorem Sound.bootLimit (h : l.Sound kernelEnd ranges) {limit : PhysAddr}
    (hlimit : l.bootLimit = .ok limit) :
    limit.val ≤ l.totalSize ∧ ∀ hole ∈ l.holes, limit.val ≤ hole.base.val := by
  unfold Layout.bootLimit at hlimit
  split at hlimit
  · cases hlimit
  · next top htop =>
      cases hlimit
      cases hholes : l.holes with
      | nil =>
          refine ⟨Nat.le_of_eq (PhysAddr.ofNat_eq_ok_iff.mp htop), fun hole hmem => ?_⟩
          cases hmem
      | cons first rest =>
          have hascending := h.ascending
          rw [hholes] at hascending
          have hinside := (h.hole_inside first (hholes ▸ List.mem_cons_self)).2
          refine ⟨Nat.le_trans (Nat.le_add_right _ _) hinside, fun hole hmem => ?_⟩
          show first.base.val ≤ hole.base.val
          rcases List.mem_cons.mp hmem with rfl | hmem
          · exact Nat.le_refl _
          · exact Nat.le_trans (Nat.le_add_right _ _) (List.rel_of_pairwise_cons hascending hmem)

theorem mem_of_firstRunBetween {wanted : Run → Bool} {run : Run} :
    ∀ {bs : List (Except Halt PhysAddr × PhysAddr)},
      firstRunBetween wanted bs = .ok (some run) → (.ok run.start, run.limit) ∈ bs := by
  intro bs
  induction bs with
  | nil =>
      intro h
      cases h
  | cons boundary rest ih =>
      intro h
      obtain ⟨start | start, limit⟩ := boundary
      · cases h
      · unfold firstRunBetween at h
        split at h
        · cases h
          exact List.mem_cons_self
        · exact List.mem_cons_of_mem _ (ih h)

/-- Runs of a sound layout start on frame boundaries. -/
theorem Sound.run_aligned (h : l.Sound kernelEnd ranges) {wanted : Run → Bool} {run : Run}
    (hrun : l.findRun? wanted = .ok (some run)) : pageSize ∣ run.start.val := by
  unfold findRun? at hrun
  split at hrun
  · cases hrun
  · next top htop =>
      have hmem := (List.of_mem_zip (mem_of_firstRunBetween hrun)).1
      rcases List.mem_cons.mp hmem with hfirst | hhole
      · rw [Except.ok.inj hfirst]
        exact h.firstFree_aligned
      · obtain ⟨hole, hhole, hlimit⟩ := List.mem_map.mp hhole
        unfold Hole.limit PhysAddr.add at hlimit
        split at hlimit
        · rw [PhysAddr.ofNat_eq_ok_iff.mp hlimit]
          exact Nat.dvd_add (h.hole_aligned hole hhole).1 (h.hole_aligned hole hhole).2
        · cases hlimit

end Layout

/-- The frame map is placed on a frame boundary, not below `next`. -/
theorem Allocator.placeMap_eq_ok {l : Layout} {kernelEnd next base : PhysAddr}
    {ranges : List MemoryRange} (h : l.Sound kernelEnd ranges) (hnext : pageSize ∣ next.val)
    (hplace : placeMap l next = .ok (some base)) :
    next.val ≤ base.val ∧ pageSize ∣ base.val := by
  unfold placeMap at hplace
  simp only at hplace
  split at hplace
  · cases hplace
  · next run hrun =>
      cases run with
      | none => cases hplace
      | some run =>
          simp only [Option.map_some, Except.ok.injEq, Option.some.injEq] at hplace
          subst hplace
          split
          · exact ⟨Nat.le_refl _, hnext⟩
          · next hlow => exact ⟨Nat.not_lt.mp hlow, h.run_aligned hrun⟩

namespace Account

/-! ### The booting phase -/

/-- **Accounts of the booting phase**: what was handed out lies between `firstFree` and the
next frame to be stolen, and nothing has come back. -/
structure Booting (t : Account) (b : BootFrames) (firstFree : PhysAddr) : Prop where
  source : t.allocator.source = .booting b
  kept : t.returned = t.live
  aligned : pageSize ∣ b.next.val
  low : firstFree.val ≤ b.next.val
  nonempty : ∀ c ∈ t.live, 0 < c.count
  between : ∀ c ∈ t.live, ∀ i, c.Holds i →
    firstFree.val ≤ i * pageSize ∧ (i + 1) * pageSize ≤ b.next.val ∧
      (i + 1) * pageSize ≤ b.limit.val
  apart : t.live.Pairwise Block.Apart

variable {t t' boot : Account} {b : BootFrames} {firstFree kernelEnd : PhysAddr}
  {ranges : List MemoryRange} {layout : Layout}

theorem Booting.receive (h : t.Booting b firstFree) {count : Nat} {f : Option Frame}
    {a : Allocator} (hallocate : t.allocator.allocate count = .ok (f, a)) :
    ∃ b', (t.receive a count f).Booting b' firstFree ∧ b'.limit = b.limit := by
  simp only [Allocator.allocate, h.source] at hallocate
  split at hallocate
  · cases hallocate
  · next g b' hsteal =>
      cases hallocate
      rcases BootFrames.steal_eq_ok hsteal with
        ⟨rfl, rfl⟩ | ⟨hpos, rfl, hnext, hroom, hlimit⟩
      · exact ⟨b', ⟨rfl, h.kept, h.aligned, h.low, h.nonempty, h.between, h.apart⟩, rfl⟩
      · have haligned := h.aligned
        have hlow := h.low
        -- the new block is exactly what lies between the old and the new `next`
        have hnew : ∀ i, Block.Holds ⟨b.next.frame, count⟩ i →
            b.next.val ≤ i * pageSize ∧ (i + 1) * pageSize ≤ b'.next.val := by
          rintro i ⟨hfirst, hlast⟩
          simp only [PhysAddr.frame] at hfirst hlast
          rw [hnext]
          unfold pageSize at *
          omega
        refine ⟨b', ⟨rfl, congrArg _ h.kept, ?_, ?_, ?_, ?_, ?_⟩, hlimit⟩
        · rw [hnext]
          exact Nat.dvd_add haligned (Nat.dvd_mul_left _ _)
        · omega
        · intro c hc
          rcases List.mem_cons.mp hc with rfl | hc
          · exact hpos
          · exact h.nonempty c hc
        · intro c hc i hi
          rw [hlimit]
          rcases List.mem_cons.mp hc with rfl | hc
          · obtain ⟨hfirst, hlast⟩ := hnew i hi
            omega
          · obtain ⟨hfirst, hlast, hbelow⟩ := h.between c hc i hi
            omega
        · refine List.pairwise_cons.mpr ⟨fun c hc i hi hci => ?_, h.apart⟩
          have hfirst := (hnew i hi).1
          have hlast := (h.between c hc i hci).2.1
          unfold pageSize at *
          omega

/-- **What a call keeps in the booting phase.**  Only allocations do not stop the kernel. -/
theorem Booting.perform (h : t.Booting b firstFree) {c : FrameCall}
    (hcall : t.perform c = .ok t') :
    ∃ b', t'.Booting b' firstFree ∧ b'.limit = b.limit := by
  have hfree : ∀ (f : Frame) (a : Allocator), t.allocator.free f ≠ .ok a := by
    intro f a hf
    simp [Allocator.free, BootFrames.free, h.source] at hf
  cases c with
  | allocate count =>
      simp only [Account.perform] at hcall
      split at hcall
      · cases hcall
      · next f a hallocate =>
          cases hcall
          exact h.receive hallocate
  | allocateKernelPages count =>
      simp only [Account.perform, Allocator.allocateKernelPages] at hcall
      split at hcall
      · cases hcall
      · next address a haddress =>
          cases hcall
          split at haddress
          · cases haddress
          · next hallocate =>
              cases haddress
              exact h.receive hallocate
          · next f a hallocate =>
              split at haddress
              · cases haddress
              · next hkernel =>
                  cases haddress
                  rw [Option.bind_some, Allocator.frameAt?_kernelAddress hkernel]
                  exact h.receive hallocate
  | free f =>
      simp only [Account.perform] at hcall
      split at hcall
      · cases hcall
      · next a hf => exact absurd hf (hfree f a)
  | freeKernelPages address =>
      simp only [Account.perform] at hcall
      split at hcall
      · cases hcall
      · next a f hback hframe =>
          obtain ⟨g, -, hf⟩ := Allocator.freeKernelPages_eq_ok hback
          exact absurd hf (hfree g a)
      · next a hback hframe =>
          obtain ⟨g, -, hf⟩ := Allocator.freeKernelPages_eq_ok hback
          exact absurd hf (hfree g a)
  | reserve base length =>
      simp only [Account.perform, Allocator.reserve, h.source] at hcall
      cases hcall

/-- **What a run keeps in the booting phase**, by induction on the calls. -/
theorem Booting.run :
    ∀ {calls : List FrameCall} {t t' : Account} {b : BootFrames}, t.Booting b firstFree →
      t.run calls = .ok t' → ∃ b', t'.Booting b' firstFree ∧ b'.limit = b.limit := by
  intro calls
  induction calls with
  | nil =>
      intro t t' b h hrun
      cases hrun
      exact ⟨b, h, rfl⟩
  | cons c rest ih =>
      intro t t' b h hrun
      simp only [Account.run] at hrun
      split at hrun
      · cases hrun
      · next t₁ hcall =>
          obtain ⟨b₁, h₁, hlimit₁⟩ := h.perform hcall
          obtain ⟨b', h', hlimit'⟩ := ih h₁ hrun
          exact ⟨b', h', hlimit'.trans hlimit₁⟩

/-- The booting phase of a sound layout starts at its first free frame, with nothing handed
out. -/
theorem booting_opened (h : layout.Sound kernelEnd ranges) {window : VirtAddr} {a : Allocator}
    (started : Allocator.start window layout = .ok a) :
    ∃ b, (opened a).Booting b layout.firstFree ∧ layout.bootLimit = .ok b.limit := by
  unfold Allocator.start BootFrames.between at started
  split at started
  · cases started
  · next limit hlimit =>
      split at started
      · cases started
      · next frames hframes =>
          cases started
          split at hframes
          · cases hframes
          · next next hnext =>
              cases hframes
              obtain rfl := PhysAddr.alignUp_of_dvd h.firstFree_aligned hnext
              refine ⟨_, ⟨rfl, rfl, h.firstFree_aligned, Nat.le_refl _, ?_, ?_,
                List.Pairwise.nil⟩, hlimit⟩
              · intro c hc
                cases hc
              · intro c hc
                cases hc

/-! ### The step to the frame map -/

/-- A frame of a map without blocks is fixed unless it is free. -/
theorem fixed_of_not_free {m : FrameMap} (h : m.Follows []) {i : Nat} (hi : i < m.size)
    (hfree : m.states[i]? ≠ some .free) : m.states[i]? = some .fixed := by
  have hentry : m.entries[i]? = some m.entries[i] := List.getElem?_eq_getElem hi
  rw [FrameMap.getElem?_states, hentry, Option.map_some] at hfree ⊢
  cases hstate : m.entries[i].state with
  | free => exact absurd (congrArg some hstate) hfree
  | fixed => rfl
  | inUse =>
      rw [FrameEntry.eq_inUse hstate] at hentry
      obtain ⟨c, hc, -⟩ := h.accounted i _ _ hentry
      cases hc

/-- **What ending the booting phase leaves.**  The map is kept above everything stolen, all
stolen frames are fixed in it, and what is free is a usable frame off the map. -/
theorem Booting.bootstrap (h : boot.Booting b layout.firstFree)
    (hsound : layout.Sound kernelEnd ranges) (hlimit : layout.bootLimit = .ok b.limit)
    {a : Allocator} {ready : Event} (hboot : boot.allocator.bootstrap layout = .ok (a, ready)) :
    ∃ base free m, ready = .frameMapReady base layout.frameCount free ∧
      b.next.val ≤ base.val ∧ a.source = .mapped m ∧ m.Follows [] ∧
      (∀ c ∈ boot.live, ∀ i, c.Holds i → m.states[i]? = some .fixed) ∧
      ∀ i : Nat, m.states[i]? = some .free → b.next.val ≤ i * pageSize ∧
        ((i + 1) * pageSize ≤ base.val ∨
          base.val + FrameMap.entrySize * layout.frameCount ≤ i * pageSize) ∧
        ∃ r ∈ ranges, r.HasFrame i := by
  obtain ⟨b', base, a₀, hsource, hplace, hinstall, hreserve⟩ := Allocator.bootstrap_eq_ok hboot
  obtain rfl : b = b' := by simpa [h.source] using hsource
  obtain ⟨hnext, hbase⟩ := Allocator.placeMap_eq_ok hsound h.aligned hplace
  obtain ⟨-, m₀, -, -, hbuild, rfl, rfl⟩ := Allocator.install_eq_ok hinstall
  obtain ⟨next, hrange, hnextAligned, -, rfl⟩ := Allocator.buildMap_eq_ok hbuild
  obtain rfl := PhysAddr.alignUp_of_dvd h.aligned hnextAligned
  obtain ⟨m, rfl, hfollows, hsize, hfree⟩ :=
    Allocator.reserveHoles_eq_ok rfl (FrameMap.follows_build _ _ _ _ hrange) hreserve
  rw [FrameMap.size_build] at hsize ⊢
  have halignedNext := h.aligned
  refine ⟨base, _, m, rfl, hnext, rfl, hfollows, ?_, ?_⟩
  · intro c hc i hi
    obtain ⟨-, hbelow, hbelowLimit⟩ := h.between c hc i hi
    have htop := (hsound.bootLimit hlimit).1
    refine fixed_of_not_free hfollows ?_ fun hi' => ?_
    · rw [hsize]
      unfold pageSize at *
      omega
    · rw [hfree, FrameMap.state_build] at hi'
      have hstolen : i < b.next.frame.index := by
        show i < b.next.val / 4096
        unfold pageSize at *
        omega
      simp [hstolen] at hi'
  · intro i hi
    obtain ⟨hbuilt, huntouched⟩ := (hfree i).mp hi
    rw [FrameMap.state_build] at hbuilt
    split at hbuilt
    · next hinside =>
        split at hbuilt
        · cases hbuilt
        · next hoff =>
            have hlow := h.low
            simp only [PhysAddr.frame, FrameMap.framesNeeded, blocksFor] at hoff
            have hoffMap : b.next.val ≤ i * pageSize ∧ ((i + 1) * pageSize ≤ base.val ∨
                base.val + FrameMap.entrySize * layout.frameCount ≤ i * pageSize) := by
              unfold Layout.frameCount
              unfold pageSize FrameMap.entrySize at *
              omega
            refine ⟨hoffMap.1, hoffMap.2, ?_⟩
            rcases hsound.usable i (by omega) (by unfold pageSize at *; omega) with
              ⟨hole, hhole, htouch⟩ | husable
            · exact absurd htouch (huntouched hole hhole)
            · exact husable
    · cases hbuilt

/-! ### Shelter -/

/-- **Accounts within usable memory**: whatever was returned lies in usable ranges above the
kernel image, and blocks that are held share no frame. -/
structure Within (t : Account) (kernelEnd : PhysAddr) (ranges : List MemoryRange) : Prop where
  usable : ∀ c ∈ t.returned, ∀ i, c.Holds i → ∃ r ∈ ranges, r.HasFrame i
  aboveKernel : ∀ c ∈ t.returned, ∀ i, c.Holds i → kernelEnd.val ≤ i * pageSize
  apart : t.live.Pairwise Block.Apart

/-- The account after the booting phase: what was stolen stays with its owners, and the list
of what is returned starts again. -/
def carriedOver (boot : Account) (a : Allocator) : Account := ⟨a, boot.live, []⟩

/-- **What is kept from the booting phase on**, with a frame map of `frameCount` entries at
`base`. -/
structure Sheltered (t boot : Account) (base : PhysAddr) (frameCount : Nat) : Prop where
  kept : boot.live ⊆ t.live
  unstolen : ∀ c ∈ t.returned, ∀ d ∈ boot.returned, c.Apart d
  offMap : ∀ c, c ∈ t.returned ∨ c ∈ boot.returned →
    c.Avoids base.val (FrameMap.entrySize * frameCount)

theorem Booting.within (h : boot.Booting b layout.firstFree)
    (hsound : layout.Sound kernelEnd ranges) (hlimit : layout.bootLimit = .ok b.limit) :
    boot.Within kernelEnd ranges := by
  obtain ⟨hlimitTop, hlimitHoles⟩ := hsound.bootLimit hlimit
  refine ⟨?_, ?_, h.apart⟩
  · intro c hc i hi
    obtain ⟨hlow, -, hbelow⟩ := h.between c (h.kept ▸ hc) i hi
    rcases hsound.usable i hlow (by unfold pageSize at *; omega) with
      ⟨hole, hhole, htouch⟩ | husable
    · have hlimitHole := hlimitHoles hole hhole
      have hfirst := htouch.1
      unfold pageSize at *
      omega
    · exact husable
  · intro c hc i hi
    exact Nat.le_trans hsound.aboveKernel (h.between c (h.kept ▸ hc) i hi).1

/-- Blocks of a balanced account share no frame. -/
theorem Balanced.apart {m : FrameMap} {stolen : List Block} (h : t.Balanced m stolen)
    (hstolen : stolen.Pairwise Block.Apart) : t.live.Pairwise Block.Apart := by
  obtain ⟨ledger, hlive, hfollows⟩ := h.follows
  rw [hlive]
  refine List.pairwise_append.mpr ⟨hfollows.apart, hstolen, fun c hc d hd i hci hdi => ?_⟩
  have hfixed := (h.fixed d hd).2 i hdi
  rw [hfollows.state_eq hc hci] at hfixed
  cases hfixed

/-- **Only usable memory is handed out.**  Whatever the firmware's list, the end of the kernel
image, the calls while booting and the calls afterwards. -/
theorem run_sheltered {window : VirtAddr} {a : Allocator}
    (surveyed : Layout.ofRanges ranges kernelEnd = .ok (some layout))
    (started : Allocator.start window layout = .ok a) {early : List FrameCall}
    (booted : (opened a).run early = .ok boot) :
    boot.Within kernelEnd ranges ∧
      ∀ a' ready, boot.allocator.bootstrap layout = .ok (a', ready) →
        ∃ base free, ready = .frameMapReady base layout.frameCount free ∧
          ∀ late t, (boot.carriedOver a').run late = .ok t →
            t.Within kernelEnd ranges ∧ t.Sheltered boot base layout.frameCount := by
  have hsound := Layout.sound_of_ofRanges surveyed
  obtain ⟨b₀, hopened, hlimit₀⟩ := booting_opened hsound started
  obtain ⟨b, hboot, hlimit⟩ := hopened.run booted
  rw [← hlimit] at hlimit₀
  refine ⟨hboot.within hsound hlimit₀, fun a' ready hready => ?_⟩
  obtain ⟨base, free, m, rfl, hbase, hsource, hfollows, hfixed, hfree⟩ :=
    hboot.bootstrap hsound hlimit₀ hready
  refine ⟨base, free, rfl, fun late t hrun => ?_⟩
  have hcarried : (boot.carriedOver a').Balanced m boot.live :=
    ⟨hsource, ⟨[], rfl, hfollows⟩, fun c hc => ⟨hboot.nonempty c hc, hfixed c hc⟩⟩
  obtain ⟨m', hbalanced, -, hreturned⟩ := hcarried.run hrun
  have hnew : ∀ c ∈ t.returned, ∀ i, c.Holds i → m.states[i]? = some .free := by
    intro c hc i hi
    rcases hreturned c hc with hold | hgranted
    · cases hold
    · obtain ⟨hlt, hnotFixed⟩ := hgranted i hi
      by_contra hnotFree
      exact hnotFixed (fixed_of_not_free hfollows hlt hnotFree)
  have hlow := hboot.low
  refine ⟨⟨?_, ?_, hbalanced.apart hboot.apart⟩, ?_, ?_, ?_⟩
  · intro c hc i hi
    exact (hfree i (hnew c hc i hi)).2.2
  · intro c hc i hi
    have habove := hsound.aboveKernel
    have hfirst := (hfree i (hnew c hc i hi)).1
    omega
  · obtain ⟨ledger, hlive, -⟩ := hbalanced.follows
    rw [hlive]
    exact List.subset_append_right _ _
  · intro c hc d hd i hci hdi
    have hfirst := (hfree i (hnew c hc i hci)).1
    have hlast := (hboot.between d (hboot.kept ▸ hd) i hdi).2.1
    unfold pageSize at *
    omega
  · rintro c (hc | hc) i hi
    · exact (hfree i (hnew c hc i hi)).2.1
    · have hlast := (hboot.between c (hboot.kept ▸ hc) i hi).2.1
      exact Or.inl (by omega)

/-- Sixteen frames, of which the firmware keeps frame five: one is stolen, the map goes above
it, and a block of three afterwards has to go above the hole. -/
theorem run_sheltered_sixteen_frames :
    ∃ layout a boot a' ready t,
      Layout.ofRanges [⟨0, 0x5000, true⟩, ⟨0x5000, 0x1000, false⟩, ⟨0x6000, 0xa000, true⟩]
        ⟨0x800, by decide⟩ = .ok (some layout) ∧
      Allocator.start ⟨0xffff800000000000, by decide⟩ layout = .ok a ∧
      (opened a).run [.allocate 1] = .ok boot ∧
      boot.allocator.bootstrap layout = .ok (a', ready) ∧
      (boot.carriedOver a').run [.allocateKernelPages 3, .allocate 1] = .ok t ∧
      t.live = [⟨⟨3, by decide⟩, 1⟩, ⟨⟨6, by decide⟩, 3⟩, ⟨⟨1, by decide⟩, 1⟩] ∧
      t.Sheltered boot ⟨0x2000, by decide⟩ layout.frameCount := by
  let window : VirtAddr := ⟨0xffff800000000000, by decide⟩
  let layout : Layout := ⟨⟨0x1000, by decide⟩, 0x10000, [⟨⟨0x5000, by decide⟩, 0x1000⟩]⟩
  let stolen : Block := ⟨⟨1, by decide⟩, 1⟩
  let boot : Account :=
    ⟨⟨window, .booting ⟨⟨0x2000, by decide⟩, ⟨0x5000, by decide⟩, 1⟩⟩, [stolen], [stolen]⟩
  let a' : Allocator :=
    ⟨window, .mapped
      ⟨[.fixed, .fixed, .fixed, .free, .free, .fixed, .free, .free, .free, .free, .free, .free,
        .free, .free, .free, .free], 12, by decide⟩⟩
  let later : List Block := [⟨⟨3, by decide⟩, 1⟩, ⟨⟨6, by decide⟩, 3⟩]
  let t : Account :=
    { allocator :=
        ⟨window, .mapped
          ⟨[.fixed, .fixed, .fixed, .inUse true 1, .free, .fixed, .inUse true 3, .inUse false 3,
            .inUse false 3, .free, .free, .free, .free, .free, .free, .free], 8, by decide⟩⟩
      live := later ++ [stolen]
      returned := later }
  have surveyed : Layout.ofRanges
      [⟨0, 0x5000, true⟩, ⟨0x5000, 0x1000, false⟩, ⟨0x6000, 0xa000, true⟩]
      ⟨0x800, by decide⟩ = .ok (some layout) := by cbv
  have limit : layout.bootLimit = .ok ⟨0x5000, by decide⟩ := rfl
  have started : Allocator.start window layout =
      .ok ⟨window, .booting ⟨⟨0x1000, by decide⟩, ⟨0x5000, by decide⟩, 0⟩⟩ := by
    unfold Allocator.start
    rw [limit]
    cbv
  have booted : (opened ⟨window, .booting ⟨⟨0x1000, by decide⟩, ⟨0x5000, by decide⟩, 0⟩⟩).run
      [.allocate 1] = .ok boot := by cbv
  have ready : boot.allocator.bootstrap layout =
      .ok (a', .frameMapReady ⟨0x2000, by decide⟩ 16 13) := by cbv
  have done : (boot.carriedOver a').run [.allocateKernelPages 3, .allocate 1] = .ok t := by cbv
  obtain ⟨base, free, hready, hlate⟩ := (run_sheltered surveyed started booted).2 _ _ ready
  obtain rfl : ⟨0x2000, by decide⟩ = base := (Event.frameMapReady.inj hready).1
  exact ⟨layout, _, boot, a', _, t, surveyed, started, booted, ready, done, rfl,
    (hlate _ _ done).2⟩

end Account

end DemandPaging
