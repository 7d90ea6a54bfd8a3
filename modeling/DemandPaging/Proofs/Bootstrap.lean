import DemandPaging.Physical.Allocator
import DemandPaging.Proofs.Blocks

/-!
# Building the frame map

How the allocator gets from its booting phase to a frame map, as equations: a step that
does not stop the kernel has passed all its checks, and the map it leaves is `FrameMap.build`
with the holes of the layout fixed afterwards.  Nothing is handed out in such a map, so it
follows the empty list of blocks.
-/

namespace DemandPaging

namespace FrameMap

theorem getElem?_build (frameCount firstFree base held : Nat) (h : frameCount ≤ 0x10000000000)
    (i : Nat) :
    (build frameCount firstFree base held h).entries[i]? =
      if i < frameCount then
        some (if i < firstFree ∨ base ≤ i ∧ i < base + held then .fixed else .free)
      else none := by
  simp only [build, List.getElem?_map]
  by_cases hi : i < frameCount
  · simp [hi]
  · simp [hi]

theorem state_build (frameCount firstFree base held : Nat) (h : frameCount ≤ 0x10000000000)
    (i : Nat) :
    (build frameCount firstFree base held h).states[i]? =
      if i < frameCount then
        some (if i < firstFree ∨ base ≤ i ∧ i < base + held then .fixed else .free)
      else none := by
  rw [getElem?_states, getElem?_build]
  split
  · rw [Option.map_some, apply_ite FrameEntry.state]
  · rfl

theorem size_build (frameCount firstFree base held : Nat) (h : frameCount ≤ 0x10000000000) :
    (build frameCount firstFree base held h).size = frameCount := by
  simp [size, build]

/-- In a new map nothing is handed out. -/
theorem follows_build (frameCount firstFree base held : Nat) (h : frameCount ≤ 0x10000000000) :
    (build frameCount firstFree base held h).Follows [] where
  nonempty b hb := by cases hb
  apart := List.Pairwise.nil
  recorded b hb := by cases hb
  accounted i isHead n hi := by
    rw [getElem?_build] at hi
    split at hi
    · split at hi <;> cases hi
    · cases hi
  reset e he := by
    obtain ⟨i, hi⟩ := List.mem_iff_getElem?.mp he
    rw [getElem?_build] at hi
    split at hi
    · split at hi
      · cases hi
        exact FrameEntry.isReset_fixed
      · cases hi
        exact FrameEntry.isReset_free
    · cases hi
  counted := rfl

end FrameMap

/-- A hole shares a byte with frame number `i`, or starts in it. -/
def Hole.Touches (hole : Hole) (i : Nat) : Prop :=
  hole.base.val / pageSize ≤ i ∧ i * pageSize < hole.base.val + hole.length

namespace Allocator

/-- The allocator with another frame map. -/
def withMap (a : Allocator) (m : FrameMap) : Allocator := { a with source := .mapped m }

@[simp] theorem source_withMap (a : Allocator) (m : FrameMap) :
    (a.withMap m).source = .mapped m := rfl

@[simp] theorem window_withMap (a : Allocator) (m : FrameMap) : (a.withMap m).window = a.window :=
  rfl

@[simp] theorem withMap_withMap (a : Allocator) (m m' : FrameMap) :
    (a.withMap m).withMap m' = a.withMap m' := rfl

theorem withMap_self {a : Allocator} {m : FrameMap} (h : a.source = .mapped m) :
    a.withMap m = a := by
  cases a
  cases h
  rfl

/-! ### Operations over a frame map -/

theorem allocate_mapped {a : Allocator} {m : FrameMap} (h : a.source = .mapped m)
    (count : Nat) :
    a.allocate count = .ok ((m.allocate count).1, a.withMap (m.allocate count).2) := by
  simp [allocate, h, withMap]

theorem free_mapped {a : Allocator} {m : FrameMap} (h : a.source = .mapped m)
    (f : Frame) : a.free f = (m.free f).map a.withMap := by
  simp only [free, h]
  cases m.free f <;> rfl

theorem reserve_mapped {a : Allocator} {m : FrameMap} (h : a.source = .mapped m)
    (base : PhysAddr) (length : Nat) :
    a.reserve base length = (m.reserve a.window base length).map a.withMap := by
  simp only [reserve, h]
  cases m.reserve a.window base length <;> rfl

/-- What is taken back over a map is taken back by the map. -/
theorem free_mapped_eq_ok {a a' : Allocator} {m : FrameMap} (hm : a.source = .mapped m) {f : Frame}
    (h : a.free f = .ok a') : ∃ m', m.free f = .ok m' ∧ a' = a.withMap m' := by
  rw [free_mapped hm] at h
  cases hfree : m.free f with
  | error e => simp [hfree, Except.map] at h
  | ok m' =>
      simp only [hfree, Except.map, Except.ok.injEq] at h
      exact ⟨m', rfl, h.symm⟩

/-- What is reserved over a map is reserved by the map. -/
theorem reserve_mapped_eq_ok {a a' : Allocator} {m : FrameMap} (hm : a.source = .mapped m)
    {base : PhysAddr} {length : Nat} (h : a.reserve base length = .ok a') :
    ∃ m', m.reserve a.window base length = .ok m' ∧ a' = a.withMap m' := by
  rw [reserve_mapped hm] at h
  cases hreserve : m.reserve a.window base length with
  | error e => simp [hreserve, Except.map] at h
  | ok m' =>
      simp only [hreserve, Except.map, Except.ok.injEq] at h
      exact ⟨m', rfl, h.symm⟩

theorem state?_mapped {a : Allocator} {m : FrameMap} (h : a.source = .mapped m) (f : Frame) :
    a.state? f = m.states[f.index]? := by
  rw [FrameMap.getElem?_states]
  simp only [state?, entry?, h]
  rfl

theorem freeFrames_mapped {a : Allocator} {m : FrameMap} (h : a.source = .mapped m) :
    a.freeFrames = m.freeCount := by
  simp [freeFrames, h]

/-- Reserving holes one after another keeps the blocks, and leaves free what no hole touches. -/
theorem reserveHoles_eq_ok {live : List Block} :
    ∀ {holes : List Hole} {a a' : Allocator} {m : FrameMap}, a.source = .mapped m →
      m.Follows live → a.reserveHoles holes = .ok a' →
      ∃ m', a' = a.withMap m' ∧ m'.Follows live ∧ m'.size = m.size ∧
        ∀ i : Nat, m'.states[i]? = some .free ↔
          m.states[i]? = some .free ∧ ∀ hole ∈ holes, ¬ hole.Touches i := by
  intro holes
  induction holes with
  | nil =>
      intro a a' m hm hfollows hdone
      cases hdone
      exact ⟨m, (withMap_self hm).symm, hfollows, rfl, fun i => by simp⟩
  | cons hole rest ih =>
      intro a a' m hm hfollows hdone
      unfold reserveHoles at hdone
      split at hdone
      · cases hdone
      · next a₁ hfirst =>
          obtain ⟨m₁, hreserve, rfl⟩ := reserve_mapped_eq_ok hm hfirst
          obtain ⟨m', rfl, hfollows', hsize, hfree⟩ :=
            ih (source_withMap a m₁) (hfollows.reserve hreserve) hdone
          refine ⟨m', rfl, hfollows', hsize.trans (FrameMap.keepsFixed_reserve hreserve).size,
            fun i => ?_⟩
          rw [hfree, FrameMap.state_reserve_eq_free_iff hreserve, and_assoc,
            List.forall_mem_cons]
          rfl

/-! ### The step out of the booting phase -/

/-- A frame map that was built has room for itself. -/
theorem buildMap_eq_ok {window : VirtAddr} {firstFree base : PhysAddr} {frameCount : Nat}
    {m : FrameMap} (h : buildMap window firstFree base frameCount = .ok m) :
    ∃ (aligned : PhysAddr) (hrange : frameCount ≤ 0x10000000000),
      firstFree.alignUp = .ok aligned ∧
      base.frame.index + FrameMap.framesNeeded frameCount ≤ frameCount ∧
      m = FrameMap.build frameCount aligned.frame.index base.frame.index
        (FrameMap.framesNeeded frameCount) hrange := by
  unfold buildMap at h
  split at h
  · cases h
  · next aligned haligned =>
      simp only at h
      split at h
      · next hroom =>
          split at h
          · next hrange =>
              split at h
              · cases h
              · cases h
                exact ⟨aligned, hrange, haligned, hroom, rfl⟩
          · cases h
      · cases h

theorem install_eq_ok {a a' : Allocator} {firstFree base : PhysAddr} {totalSize : Nat}
    {ready : Event} (h : a.install firstFree base totalSize = .ok (a', ready)) :
    ∃ b m, a.source = .booting b ∧ b.next.val ≤ firstFree.val ∧
      buildMap a.window firstFree base (totalSize / pageSize) = .ok m ∧ a' = a.withMap m ∧
      ready = .frameMapReady base m.size m.freeCount := by
  unfold install at h
  split at h
  · cases h
  · next b hsource =>
      split at h
      · next hstolen =>
          split at h
          · cases h
          · next m hbuild =>
              cases h
              exact ⟨b, m, hsource, hstolen, hbuild, rfl, rfl⟩
      · cases h

theorem mapFrom_eq_ok {a a' : Allocator} {firstFree : PhysAddr} {totalSize : Nat}
    {ready : Event} (h : a.mapFrom firstFree totalSize = .ok (a', ready)) :
    ∃ base, firstFree.alignUp = .ok base ∧ a.install base base totalSize = .ok (a', ready) := by
  unfold mapFrom at h
  split at h
  · cases h
  · next base hbase => exact ⟨base, hbase, h⟩

theorem bootstrap_eq_ok {a a' : Allocator} {layout : Layout} {ready : Event}
    (h : a.bootstrap layout = .ok (a', ready)) :
    ∃ b base a₀, a.source = .booting b ∧ placeMap layout b.next = .ok (some base) ∧
      a.install b.next base layout.totalSize = .ok (a₀, ready) ∧
      a₀.reserveHoles layout.holes = .ok a' := by
  unfold bootstrap mapOver at h
  split at h
  · cases h
  · next a₀ ready₀ hinstall =>
      split at h
      · cases h
      · next hreserve =>
          cases h
          split at hinstall
          · cases hinstall
          · next b hsource =>
              split at hinstall
              · cases hinstall
              · cases hinstall
              · next base hplace => exact ⟨b, base, a₀, hsource, hplace, hinstall, hreserve⟩

/-- **Allocators whose frame map has just been built**, over memory without holes or over a
layout. -/
def Built (a : Allocator) : Prop :=
  (∃ boot firstFree totalSize ready, Allocator.mapFrom boot firstFree totalSize = .ok (a, ready)) ∨
    ∃ boot layout ready, Allocator.bootstrap boot layout = .ok (a, ready)

theorem follows_of_install {a a' : Allocator} {firstFree base : PhysAddr} {totalSize : Nat}
    {ready : Event} (h : a.install firstFree base totalSize = .ok (a', ready)) :
    ∃ m, a'.source = .mapped m ∧ m.Follows [] := by
  obtain ⟨b, m, -, -, hbuild, rfl, -⟩ := install_eq_ok h
  obtain ⟨aligned, hrange, -, -, rfl⟩ := buildMap_eq_ok hbuild
  exact ⟨_, rfl, FrameMap.follows_build _ _ _ _ hrange⟩

/-- Nothing is handed out in a map that has just been built. -/
theorem Built.follows {a : Allocator} (h : a.Built) : ∃ m, a.source = .mapped m ∧ m.Follows [] := by
  rcases h with ⟨boot, firstFree, totalSize, ready, hmap⟩ | ⟨boot, layout, ready, hmap⟩
  · obtain ⟨base, -, hinstall⟩ := mapFrom_eq_ok hmap
    exact follows_of_install hinstall
  · obtain ⟨b, base, a₀, -, -, hinstall, hreserve⟩ := bootstrap_eq_ok hmap
    obtain ⟨m₀, hsource, hfollows⟩ := follows_of_install hinstall
    obtain ⟨m, rfl, hfollows', -, -⟩ := reserveHoles_eq_ok hsource hfollows hreserve
    exact ⟨m, rfl, hfollows'⟩

end Allocator

end DemandPaging
