import DemandPaging.Proofs.Tiling
import DemandPaging.Proofs.UsableMemory

/-!
# Where the frame map goes and what it says

Ending the booting phase is one decision and two passes: a place is chosen for the map, a map
is written there in which everything below the next frame to be stolen is fixed together with
the map's own frames, and then the holes of the layout are fixed one after another.  What the
finished map says is a matter of the runs alone (`FrameMap.Charts`).

**The kernel can only stop at the decision.**  If some run has room for the map
(`Run.HasRoom`), then the map fits below the top of memory, the window reaches all of it,
and fixing a hole cannot meet a frame in use, because nothing has been handed out from the
map yet.  So a booting phase ends with a map exactly if there is room for one
(`Account.bootstrap_exact`).
-/

namespace DemandPaging

/-- **Room**: from frame `first` on, `count` frames lie in the run, none of them below
`next`. -/
def Run.FitsAt (run : Run) (next : PhysAddr) (count first : Nat) : Prop :=
  next.val ≤ first * pageSize ∧ run.start.val ≤ first * pageSize ∧
    (first + count) * pageSize ≤ run.limit.val

/-- The run has `count` whole frames at or above `next`. -/
def Run.HasRoom (run : Run) (next : PhysAddr) (count : Nat) : Prop :=
  ∃ first, run.FitsAt next count first

/-- **The first room**: `base` is the lowest place for `count` frames at or above `next` in the
first of the runs that has room for them. -/
def Run.IsFirstRoom (runs : List Run) (next : PhysAddr) (count : Nat) (base : PhysAddr) : Prop :=
  ∃ before run after, runs = before ++ run :: after ∧
    (∀ run' ∈ before, ¬ run'.HasRoom next count) ∧ pageSize ∣ base.val ∧
    run.FitsAt next count base.frame.index ∧
    ∀ first, run.FitsAt next count first → base.frame.index ≤ first

theorem Run.IsFirstRoom.exists_fitsAt {runs : List Run} {next base : PhysAddr} {count : Nat}
    (h : Run.IsFirstRoom runs next count base) :
    ∃ run ∈ runs, run.FitsAt next count base.frame.index := by
  obtain ⟨before, run, after, rfl, -, -, hfits, -⟩ := h
  exact ⟨run, by simp, hfits⟩

/-- The lowest address of the run at or above `next`, if it reaches that far. -/
def Run.lowest (run : Run) (next : PhysAddr) : PhysAddr :=
  if run.start.val < next.val then next else run.start

section AlignedRuns

variable {run : Run} {next : PhysAddr} {count first : Nat}

theorem Run.lowest_val : (run.lowest next).val = max run.start.val next.val := by
  unfold lowest
  split <;> omega

theorem Run.lowest_aligned (hstart : pageSize ∣ run.start.val) (hnext : pageSize ∣ next.val) :
    pageSize ∣ (run.lowest next).val := by
  unfold lowest
  split
  · exact hnext
  · exact hstart

/-- No place is below the lowest address. -/
theorem Run.fitsAt_iff (hstart : pageSize ∣ run.start.val) (hnext : pageSize ∣ next.val) :
    run.FitsAt next count first ↔
      (run.lowest next).frame.index ≤ first ∧ (first + count) * pageSize ≤ run.limit.val := by
  have hlowest : (run.lowest next).frame.index = max run.start.val next.val / pageSize := by
    rw [← Run.lowest_val]
    rfl
  rw [hlowest]
  unfold FitsAt
  unfold pageSize at *
  omega

/-- The run has room if it has room from its lowest address on. -/
theorem Run.hasRoom_iff (hstart : pageSize ∣ run.start.val) (hnext : pageSize ∣ next.val) :
    run.HasRoom next count ↔ (run.lowest next).val + count * pageSize ≤ run.limit.val := by
  have hlowest : (run.lowest next).frame.index * pageSize = (run.lowest next).val :=
    Nat.div_mul_cancel (Run.lowest_aligned hstart hnext)
  constructor
  · rintro ⟨first, hfits⟩
    obtain ⟨hlow, hhigh⟩ := (Run.fitsAt_iff hstart hnext).mp hfits
    unfold pageSize at *
    omega
  · intro hroom
    refine ⟨(run.lowest next).frame.index, (Run.fitsAt_iff hstart hnext).mpr ⟨Nat.le_refl _, ?_⟩⟩
    unfold pageSize at *
    omega

/-- What has room has room at its lowest address. -/
theorem Run.HasRoom.fitsAt_lowest (h : run.HasRoom next count) (hstart : pageSize ∣ run.start.val)
    (hnext : pageSize ∣ next.val) : run.FitsAt next count (run.lowest next).frame.index := by
  obtain ⟨first, hfits⟩ := h
  obtain ⟨hlow, hhigh⟩ := (Run.fitsAt_iff hstart hnext).mp hfits
  refine (Run.fitsAt_iff hstart hnext).mpr ⟨Nat.le_refl _, Nat.le_trans ?_ hhigh⟩
  exact Nat.mul_le_mul_right _ (Nat.add_le_add_right hlow _)

end AlignedRuns

/-- The first run that is wanted, in the list of all runs. -/
theorem Layout.findRun?_eq {layout : Layout} {runs : List Run}
    (hruns : layout.usableRuns = .ok runs) (wanted : Run → Bool) :
    layout.findRun? wanted = .ok (runs.find? wanted) := by
  unfold usableRuns at hruns
  unfold findRun?
  split at hruns
  · cases hruns
  · exact firstRunBetween_eq_find? hruns

namespace FrameMap

/-- **What a map says over a layout**, in terms of its runs: a frame is free if it lies in a
run, was not stolen, and does not hold the map, and every other frame is fixed. -/
structure Charts (m : FrameMap) (layout : Layout) (runs : List Run) (next base : PhysAddr) :
    Prop where
  size : m.size = layout.frameCount
  free_iff : ∀ i < layout.frameCount, m.entries[i]? = some .free ↔
    (∃ run ∈ runs, run.HasFrame i) ∧ next.val ≤ i * pageSize ∧
      ¬ (base.frame.index ≤ i ∧ i < base.frame.index + framesNeeded layout.frameCount)
  fixed : ∀ i < layout.frameCount, m.entries[i]? ≠ some .free → m.entries[i]? = some .fixed
  no_blocks : ∀ e ∈ m.entries, e.isInUse = false ∧ e.isBlockHead = false ∧ e.blockSize = 0
  counted : m.freeCount = m.entries.countP FrameEntry.isFree

variable {m : FrameMap}

/-- Without blocks no frame is in use, and no entry has a trace of a block. -/
theorem Follows.no_blocks (h : m.Follows []) :
    ∀ e ∈ m.entries, e.isInUse = false ∧ e.isBlockHead = false ∧ e.blockSize = 0 := by
  intro e he
  obtain ⟨i, hi⟩ := List.mem_iff_getElem?.mp he
  have hidle : e.state ≠ .inUse := by
    intro hstate
    rw [FrameEntry.eq_inUse hstate] at hi
    obtain ⟨b, hb, -⟩ := h.accounted i _ _ hi
    cases hb
  exact ⟨beq_eq_false_iff_ne.mpr hidle, h.reset e he hidle⟩

/-- Without blocks nothing stands in the way of a reservation. -/
theorem Follows.exists_reserve (h : m.Follows []) (window : VirtAddr) {base : PhysAddr}
    {length : Nat} (htop : base.val + length < wordLimit) :
    ∃ m', m.reserve window base length = .ok m' := by
  have hnone : ∀ first count, (m.slice first count).findIdx? FrameEntry.isInUse = none := by
    intro first count
    refine List.findIdx?_eq_none_iff.mpr fun e he => ?_
    obtain ⟨i, -, -, hi⟩ := mem_slice.mp he
    exact (h.no_blocks e (List.mem_of_getElem? hi)).1
  simp only [FrameMap.reserve, Word.add, if_pos htop, hnone]
  exact ⟨_, rfl⟩

/-- In a new map a frame is free if it was not stolen and does not hold the map. -/
theorem free_build_iff {next base : PhysAddr} {frameCount held : Nat}
    (hnext : pageSize ∣ next.val) (hrange : frameCount ≤ 0x10000000000) {i : Nat}
    (hi : i < frameCount) :
    (build frameCount next.frame.index base.frame.index held hrange).states[i]? = some .free ↔
      next.val ≤ i * pageSize ∧ ¬ (base.frame.index ≤ i ∧ i < base.frame.index + held) := by
  have hunstolen : next.frame.index ≤ i ↔ next.val ≤ i * pageSize := by
    simp only [PhysAddr.frame]
    unfold pageSize at *
    omega
  rw [state_build, if_pos hi]
  simp only [Option.some.injEq, ite_eq_right_iff, reduceCtorEq, imp_false, not_or, Nat.not_lt,
    hunstolen]

end FrameMap

namespace Allocator

variable {a : Allocator} {layout : Layout} {next base : PhysAddr} {runs : List Run}

/-! ### The window stays where it is -/

theorem window_allocate {a' : Allocator} {count : Nat} {f : Option Frame}
    (h : a.allocate count = .ok (f, a')) : a'.window = a.window := by
  unfold allocate at h
  split at h
  · split at h <;> cases h
    rfl
  · cases h
    rfl

theorem window_free {a' : Allocator} {f : Frame} (h : a.free f = .ok a') :
    a'.window = a.window := by
  unfold free at h
  split at h
  · split at h <;> cases h
    rfl
  · split at h <;> cases h
    rfl

theorem window_reserve {a' : Allocator} {base : PhysAddr} {length : Nat}
    (h : a.reserve base length = .ok a') : a'.window = a.window := by
  unfold reserve at h
  split at h
  · cases h
  · split at h <;> cases h
    rfl

/-! ### The two passes -/

theorem exists_reserveHoles :
    ∀ {holes : List Hole} {a : Allocator} {m : FrameMap}, a.source = .mapped m →
      m.Follows [] → (∀ hole ∈ holes, hole.base.val + hole.length < wordLimit) →
      ∃ a', a.reserveHoles holes = .ok a' := by
  intro holes
  induction holes with
  | nil => exact fun _ _ _ => ⟨_, rfl⟩
  | cons hole holes ih =>
      intro a m hsource hfollows htops
      obtain ⟨htop, htops⟩ := List.forall_mem_cons.mp htops
      obtain ⟨m₁, hreserve⟩ := hfollows.exists_reserve a.window htop
      simp only [reserveHoles, reserve_mapped hsource, hreserve, Except.map]
      exact ih (source_withMap a m₁) (hfollows.reserve hreserve) htops

/-- The map goes to the lowest place in the first run that has room for it. -/
theorem placeMap_cases (hruns : layout.usableRuns = .ok runs)
    (haligned : ∀ run ∈ runs, pageSize ∣ run.start.val) (hnext : pageSize ∣ next.val) :
    let count := FrameMap.framesNeeded layout.frameCount
    placeMap layout next = .ok none ∧ (∀ run ∈ runs, ¬ run.HasRoom next count) ∨
      ∃ base, placeMap layout next = .ok (some base) ∧ Run.IsFirstRoom runs next count base := by
  intro count
  have hplace : placeMap layout next = .ok ((runs.find? fun run =>
      (run.lowest next).val + count * pageSize ≤ run.limit.val).map (Run.lowest · next)) := by
    unfold placeMap
    simp only [Layout.findRun?_eq hruns]
    rfl
  rw [hplace]
  cases hfound : runs.find? fun run =>
      (run.lowest next).val + count * pageSize ≤ run.limit.val with
  | none =>
      refine Or.inl ⟨rfl, fun run hmem hroom => ?_⟩
      exact List.find?_eq_none.mp hfound run hmem
        (decide_eq_true ((Run.hasRoom_iff (haligned run hmem) hnext).mp hroom))
  | some run =>
      obtain ⟨hroom, before, after, rfl, hbefore⟩ := List.find?_eq_some_iff_append.mp hfound
      have hstart := haligned run (by simp)
      have hroom : run.HasRoom next count :=
        (Run.hasRoom_iff hstart hnext).mpr (of_decide_eq_true hroom)
      refine Or.inr ⟨run.lowest next, rfl, before, run, after, rfl, ?_,
        Run.lowest_aligned hstart hnext, hroom.fitsAt_lowest hstart hnext,
        fun first hfits => ((Run.fitsAt_iff hstart hnext).mp hfits).1⟩
      intro run' hmem hroom'
      have hfits := (Run.hasRoom_iff (haligned run' (List.mem_append_left _ hmem)) hnext).mp hroom'
      have hunwanted := hbefore run' hmem
      simp [hfits] at hunwanted

/-- A map that fits below the top of memory can be built, if the window reaches all of it. -/
theorem buildMap_eq {window : VirtAddr} {frameCount : Nat} (hnext : pageSize ∣ next.val)
    (hrange : frameCount ≤ 0x10000000000)
    (hroom : base.frame.index + FrameMap.framesNeeded frameCount ≤ frameCount)
    (hreached : ∀ x < frameCount * pageSize, ∃ address, window.add x = .ok address) :
    buildMap window next base frameCount =
      .ok (FrameMap.build frameCount next.frame.index base.frame.index
        (FrameMap.framesNeeded frameCount) hrange) := by
  have haligned : next.alignUp = .ok next := by
    refine PhysAddr.ofNat_eq_ok_iff.mpr ?_
    unfold roundUp
    unfold pageSize at *
    omega
  have hwindow : checkWindow window frameCount = .ok () := by
    unfold checkWindow
    split
    · rfl
    · next hpos =>
        obtain ⟨address, haddress⟩ := hreached ((frameCount - 1) * pageSize) (by
          unfold pageSize
          omega)
        rw [haddress]
  simp only [buildMap, haligned, if_pos hroom, dif_pos hrange, hwindow]

/-- The first pass: the map is written where it was placed. -/
theorem install_eq {b : BootFrames} (hsource : a.source = .booting b)
    (hnext : pageSize ∣ b.next.val) (htop : pageSize ∣ layout.totalSize)
    (hrange : layout.frameCount ≤ 0x10000000000)
    (hroom : base.frame.index + FrameMap.framesNeeded layout.frameCount ≤ layout.frameCount)
    (hreached : ∀ x < layout.totalSize, ∃ address, a.window.add x = .ok address) :
    let m := FrameMap.build layout.frameCount b.next.frame.index base.frame.index
      (FrameMap.framesNeeded layout.frameCount) hrange
    a.install b.next base layout.totalSize =
      .ok (a.withMap m, .frameMapReady base layout.frameCount m.freeCount) := by
  intro m
  have hspan : layout.frameCount * pageSize = layout.totalSize := Nat.div_mul_cancel htop
  have hbuild : buildMap a.window b.next base (layout.totalSize / pageSize) = .ok m :=
    buildMap_eq hnext hrange hroom (hspan.symm ▸ hreached)
  have hsize : m.size = layout.frameCount := FrameMap.size_build _ _ _ _ _
  simp only [install, hsource, Nat.le_refl, if_true, hbuild, hsize]
  rfl

end Allocator

namespace Account

variable {boot : Account} {b : BootFrames} {layout : Layout} {kernelEnd : PhysAddr}
  {ranges : List MemoryRange} {runs : List Run} {base : PhysAddr}

theorem window_perform {t t' : Account} {c : FrameCall} (h : t.perform c = .ok t') :
    t'.allocator.window = t.allocator.window := by
  have hreceive : ∀ (a : Allocator) (count : Nat) (f : Option Frame),
      (t.receive a count f).allocator = a := by
    intro a count f
    cases f <;> rfl
  cases c with
  | allocate count =>
      simp only [Account.perform] at h
      split at h
      · cases h
      · next f a hallocate =>
          cases h
          rw [hreceive]
          exact Allocator.window_allocate hallocate
  | allocateKernelPages count =>
      simp only [Account.perform, Allocator.allocateKernelPages] at h
      split at h
      · cases h
      · next address a haddress =>
          cases h
          rw [hreceive]
          split at haddress
          · cases haddress
          · next hallocate =>
              cases haddress
              exact Allocator.window_allocate hallocate
          · next f a hallocate =>
              split at haddress <;> cases haddress
              exact Allocator.window_allocate hallocate
  | free f =>
      simp only [Account.perform] at h
      split at h
      · cases h
      · next a hfree =>
          cases h
          exact Allocator.window_free hfree
  | freeKernelPages address =>
      simp only [Account.perform] at h
      split at h
      · cases h
      all_goals
        next hfree _ =>
          cases h
          obtain ⟨f, -, hback⟩ := Allocator.freeKernelPages_eq_ok hfree
          exact Allocator.window_free hback
  | reserve base length =>
      simp only [Account.perform] at h
      split at h
      · cases h
      · next a hreserve =>
          cases h
          exact Allocator.window_reserve hreserve

/-- No call moves the window, by induction on the calls. -/
theorem window_run :
    ∀ {calls : List FrameCall} {t t' : Account}, t.run calls = .ok t' →
      t'.allocator.window = t.allocator.window := by
  intro calls
  induction calls with
  | nil =>
      intro t t' h
      cases h
      rfl
  | cons c rest ih =>
      intro t t' h
      simp only [Account.run] at h
      split at h
      · cases h
      · next t₁ hcall => exact (ih h).trans (window_perform hcall)

/-- The two passes, once the map has its place. -/
theorem Booting.charts (h : boot.Booting b layout.firstFree)
    (hsound : layout.Sound kernelEnd ranges) (htiled : layout.TiledBy runs)
    (hruns : layout.usableRuns = .ok runs) (htop : layout.totalSize < 0x10000000000000)
    (hreached : ∀ x < layout.totalSize, ∃ address, boot.allocator.window.add x = .ok address)
    (hplace : Allocator.placeMap layout b.next = .ok (some base))
    (hroom : base.frame.index + FrameMap.framesNeeded layout.frameCount ≤ layout.frameCount) :
    ∃ m free, boot.allocator.bootstrap layout =
        .ok (boot.allocator.withMap m, .frameMapReady base layout.frameCount free) ∧
      m.Charts layout runs b.next base := by
  have hrange : layout.frameCount ≤ 0x10000000000 := by
    unfold Layout.frameCount pageSize
    omega
  let m₀ := FrameMap.build layout.frameCount b.next.frame.index base.frame.index
    (FrameMap.framesNeeded layout.frameCount) hrange
  have hinstall : boot.allocator.install b.next base layout.totalSize =
      .ok (boot.allocator.withMap m₀, .frameMapReady base layout.frameCount m₀.freeCount) :=
    Allocator.install_eq h.source h.aligned hsound.totalSize_aligned hrange hroom hreached
  have hfollows₀ : m₀.Follows [] := FrameMap.follows_build _ _ _ _ hrange
  have hholes : ∀ hole ∈ layout.holes, hole.base.val + hole.length < wordLimit := by
    intro hole hmem
    have hinside := (hsound.hole_inside hole hmem).2
    unfold wordLimit
    omega
  obtain ⟨a', hreserve⟩ := Allocator.exists_reserveHoles
    (Allocator.source_withMap boot.allocator m₀) hfollows₀ hholes
  obtain ⟨m, rfl, hfollows, hsize, hfree⟩ := Allocator.reserveHoles_eq_ok
    (Allocator.source_withMap boot.allocator m₀) hfollows₀ hreserve
  rw [FrameMap.size_build] at hsize
  refine ⟨m, m₀.freeCount, ?_, hsize, ?_, ?_, hfollows.no_blocks, hfollows.counted⟩
  · simp only [Allocator.bootstrap, Allocator.mapOver, h.source, hplace, hinstall, hreserve,
      Allocator.withMap_withMap]
  · intro i hi
    have hbelow : i * pageSize < layout.totalSize := by
      unfold Layout.frameCount at hi
      unfold pageSize at *
      omega
    rw [← hfollows.state_eq_free_iff, hfree, FrameMap.free_build_iff h.aligned hrange hi,
      htiled.hasFrame_iff hsound hruns]
    constructor
    · rintro ⟨⟨hlow, hoff⟩, huntouched⟩
      exact ⟨⟨Nat.le_trans h.low hlow, hbelow, huntouched⟩, hlow, hoff⟩
    · rintro ⟨⟨-, -, huntouched⟩, hlow, hoff⟩
      exact ⟨⟨hlow, hoff⟩, huntouched⟩
  · intro i hi hbusy
    refine hfollows.state_eq_fixed_iff.mp (fixed_of_not_free hfollows (hsize.symm ▸ hi) ?_)
    exact fun hfree => hbusy (hfollows.state_eq_free_iff.mp hfree)

/-- **The step out of the booting phase.**  For every layout read off a list of ranges that
ends within physical memory and within the kernel's window, and for every run of calls while
booting: the step stops the kernel exactly if no run has room for the map above what was
stolen.  Otherwise the map goes to the lowest place in the first run that has room, and says
of every frame what it must. -/
theorem bootstrap_exact {window : VirtAddr} {a : Allocator} {early : List FrameCall}
    (surveyed : Layout.ofRanges ranges kernelEnd = .ok (some layout))
    (top : layout.totalSize < 0x10000000000000)
    (reached : ∀ x < layout.totalSize, ∃ address, window.add x = .ok address)
    (started : Allocator.start window layout = .ok a)
    (booted : (opened a).run early = .ok boot) :
    ∃ b runs, boot.allocator.source = .booting b ∧ layout.usableRuns = .ok runs ∧
      ((∃ halt, boot.allocator.bootstrap layout = .error halt) ↔
        ∀ run ∈ runs, ¬ run.HasRoom b.next (FrameMap.framesNeeded layout.frameCount)) ∧
      ∀ a' ready, boot.allocator.bootstrap layout = .ok (a', ready) →
        ∃ base free m, ready = .frameMapReady base layout.frameCount free ∧
          Run.IsFirstRoom runs b.next (FrameMap.framesNeeded layout.frameCount) base ∧
          a'.source = .mapped m ∧ m.Charts layout runs b.next base ∧
          a'.freeFrames = m.entries.countP FrameEntry.isFree := by
  have hsound := Layout.sound_of_ofRanges surveyed
  obtain ⟨runs, hruns, htiled⟩ := (Layout.spaced_of_ofRanges surveyed).tiled top
  obtain ⟨b₀, hopened, -⟩ := booting_opened hsound started
  obtain ⟨b, hboot, -⟩ := hopened.run booted
  have hwindow : boot.allocator.window = window := by
    refine (window_run booted).trans ?_
    unfold Allocator.start at started
    split at started
    · cases started
    · split at started <;> cases started
      rfl
  have haligned : ∀ run ∈ runs, pageSize ∣ run.start.val := fun run hmem =>
    (hsound.usableRuns_aligned hruns hmem).1
  refine ⟨b, runs, hboot.source, hruns, ?_⟩
  rcases Allocator.placeMap_cases hruns haligned hboot.aligned with
    ⟨hplace, hnone⟩ | ⟨base, hplace, hfirst⟩
  · have hstops : boot.allocator.bootstrap layout = .error (.mapWithoutRun layout.frameCount) := by
      simp only [Allocator.bootstrap, Allocator.mapOver, hboot.source, hplace]
    rw [hstops]
    exact ⟨⟨fun _ => hnone, fun _ => ⟨_, rfl⟩⟩, fun a' ready hok => by cases hok⟩
  · obtain ⟨run, hmem, hfits⟩ := hfirst.exists_fitsAt
    have hroom : base.frame.index + FrameMap.framesNeeded layout.frameCount ≤
        layout.frameCount := by
      have hbelow := htiled.limit_le hmem
      have htop := hsound.totalSize_aligned
      have hlast := hfits.2.2
      unfold Layout.frameCount at *
      unfold pageSize at *
      omega
    obtain ⟨m, free, hready, hcharts⟩ := hboot.charts hsound htiled hruns top
      (hwindow.symm ▸ reached) hplace hroom
    rw [hready]
    refine ⟨⟨?_, fun hnone => absurd ⟨_, hfits⟩ (hnone run hmem)⟩, ?_⟩
    · rintro ⟨halt, hhalt⟩
      cases hhalt
    · intro a' ready' hok
      cases hok
      exact ⟨base, free, m, rfl, hfirst, rfl, hcharts, hcharts.counted⟩

/-- Sixteen frames, of which the first run has one and the second eleven.  With the one
stolen, the map goes above the hole. -/
theorem bootstrap_exact_sixteen_frames :
    ∃ layout a boot b runs a' m,
      Layout.ofRanges [⟨0, 0x2000, true⟩, ⟨0x5000, 0xb000, true⟩] ⟨0x800, by decide⟩ =
        .ok (some layout) ∧
      Allocator.start ⟨0xffff800000000000, by decide⟩ layout = .ok a ∧
      (opened a).run [.allocate 1] = .ok boot ∧
      boot.allocator.source = .booting b ∧ b.next.val = 0x2000 ∧
      layout.usableRuns = .ok runs ∧
      boot.allocator.bootstrap layout = .ok (a', .frameMapReady ⟨0x5000, by decide⟩ 16 13) ∧
      a'.source = .mapped m ∧ m.Charts layout runs b.next ⟨0x5000, by decide⟩ ∧
      a'.freeFrames = 10 := by
  let window : VirtAddr := ⟨0xffff800000000000, by decide⟩
  let layout : Layout := ⟨⟨0x1000, by decide⟩, 0x10000, [⟨⟨0x2000, by decide⟩, 0x3000⟩]⟩
  let stolen : Block := ⟨⟨1, by decide⟩, 1⟩
  let boot : Account :=
    ⟨⟨window, .booting ⟨⟨0x2000, by decide⟩, ⟨0x2000, by decide⟩, 1⟩⟩, [stolen], [stolen]⟩
  let a' : Allocator :=
    ⟨window, .mapped
      ⟨[.fixed, .fixed, .fixed, .fixed, .fixed, .fixed, .free, .free, .free, .free, .free, .free,
        .free, .free, .free, .free], 10, by decide⟩⟩
  have surveyed : Layout.ofRanges [⟨0, 0x2000, true⟩, ⟨0x5000, 0xb000, true⟩]
      ⟨0x800, by decide⟩ = .ok (some layout) := by cbv
  have reached : ∀ x < layout.totalSize, ∃ address, window.add x = .ok address := by
    intro x hx
    have hcanonical : 0xffff800000000000 ≤ window.val + x ∧
        window.val + x < 0x10000000000000000 := by
      simp only [window, layout] at *
      omega
    exact ⟨⟨window.val + x, Or.inr hcanonical⟩, VirtAddr.add_eq_ok_iff.mpr rfl⟩
  have limit : layout.bootLimit = .ok ⟨0x2000, by decide⟩ := rfl
  have started : Allocator.start window layout =
      .ok ⟨window, .booting ⟨⟨0x1000, by decide⟩, ⟨0x2000, by decide⟩, 0⟩⟩ := by
    unfold Allocator.start
    rw [limit]
    cbv
  have booted : (opened ⟨window, .booting ⟨⟨0x1000, by decide⟩, ⟨0x2000, by decide⟩, 0⟩⟩).run
      [.allocate 1] = .ok boot := by cbv
  have ready : boot.allocator.bootstrap layout =
      .ok (a', .frameMapReady ⟨0x5000, by decide⟩ 16 13) := by cbv
  obtain ⟨b, runs, hsource, hruns, -, hexact⟩ :=
    bootstrap_exact surveyed (by decide) reached started booted
  obtain ⟨base, free, m, hready, -, hmap, hcharts, -⟩ := hexact _ _ ready
  obtain rfl : ⟨0x5000, by decide⟩ = base := (Event.frameMapReady.inj hready).1
  obtain rfl : ⟨⟨0x2000, by decide⟩, ⟨0x2000, by decide⟩, 1⟩ = b := FrameSource.booting.inj hsource
  exact ⟨layout, _, boot, _, runs, a', m, surveyed, started, booted, hsource, rfl, hruns, ready,
    hmap, hcharts, rfl⟩

end Account

end DemandPaging
