import DemandPaging.Proofs.Dealings

/-!
# The life of an allocator

What can be asked of an allocator depends on its phase, and what it answers depends on everything
that was asked before.  This module says which allocators there can be at all
(`Allocator.IsReachable`): one that has started, after any calls with any arguments and, at some
point or never, the step to a frame map.  Nothing is assumed of the callers, so a block may be
freed by somebody who does not hold it.  Machines have no others (`History.Run.isReachable`).

**What every phase keeps.**  Frames are stolen from a frame boundary on; a frame map follows some
list of blocks, and the window reaches all of its frames (`Allocator.Oversees`).  The list is not
that of any caller: it only has to exist.

**Asking for frames** in the mapped phase always gets an answer.  In the booting phase a count whose
bytes are no machine word stops the kernel (`not_forall_allocation_answers`), and so does the
kernel address of a stolen frame that the window does not reach.  There is no other exception
(`Allocator.IsReachable.allocation_answers_iff`).
-/

namespace DemandPaging

namespace Allocator

variable {a a' : Allocator} {m m' : FrameMap} {f g : Frame} {count : Nat}

/-! ### What the window reaches -/

/-- The window reaches the frame: there is a kernel address for it. -/
def Sees (a : Allocator) (f : Frame) : Prop :=
  ∃ address : VirtAddr, address.val = a.window.val + f.start.val

theorem sees_iff : a.Sees f ↔ ∃ address, a.kernelAddress f = .ok address :=
  exists_congr fun _ => VirtAddr.add_eq_ok_iff.symm

/-- The window reaches every frame below one that it reaches: physical memory is smaller than the
gap between the halves, so there is no jump over it. -/
theorem Sees.of_le (h : a.Sees g) (hle : f.index ≤ g.index) : a.Sees f := by
  obtain ⟨last, hlast⟩ := h
  have hwindow := a.window.canonical
  have hcanonical := last.canonical
  have hrange := g.inRange
  have hfirst := f.start_val
  have hlater := g.start_val
  exact ⟨⟨a.window.val + f.start.val, by omega⟩, rfl⟩

/-- A window that has passed its check reaches all frames of the map. -/
theorem sees_of_checkWindow {frameCount : Nat} (h : checkWindow a.window frameCount = .ok ())
    (hf : f.index < frameCount) (hrange : frameCount ≤ 0x10000000000) : a.Sees f := by
  unfold checkWindow at h
  rw [if_neg (by omega)] at h
  split at h
  · cases h
  · next last hlast =>
      have hval := VirtAddr.add_eq_ok_iff.mp hlast
      have hsees : a.Sees ⟨frameCount - 1, by omega⟩ := ⟨last, hval⟩
      exact hsees.of_le (Nat.le_sub_one_of_lt hf)

theorem checkWindow_of_buildMap {window : VirtAddr} {firstFree base : PhysAddr} {frameCount : Nat}
    (h : buildMap window firstFree base frameCount = .ok m) :
    checkWindow window frameCount = .ok () := by
  unfold buildMap at h
  split at h
  · cases h
  · simp only at h
    split at h
    · split at h
      · split at h
        · cases h
        · assumption
      · cases h
    · cases h

/-! ### What the mapped phase keeps -/

/-- **The allocator oversees its map**: the map follows some blocks, and the window reaches all of
its frames. -/
structure Oversees (a : Allocator) (m : FrameMap) : Prop where
  follows : ∃ live, m.Follows live
  seen : ∀ f : Frame, f.index < m.size → a.Sees f

namespace Oversees

theorem counted (h : a.Oversees m) : m.freeCount = m.entries.countP FrameEntry.isFree := by
  obtain ⟨live, hfollows⟩ := h.follows
  exact hfollows.counted

/-- Another map of the same size. -/
theorem withMap (h : a.Oversees m) (follows : ∃ live, m'.Follows live) (size : m'.size = m.size) :
    (a.withMap m').Oversees m' where
  follows := follows
  seen f hf := h.seen f (size ▸ hf)

/-- One case for each change that a call can make. -/
theorem change {t t' : Account} (h : t.allocator.Oversees m)
    (hsource : t.allocator.source = .mapped m) (hchange : Account.Change t m t' m') :
    t'.allocator.source = .mapped m' ∧ t'.allocator.Oversees m' := by
  obtain ⟨live, hfollows⟩ := h.follows
  cases hchange with
  | refused => exact ⟨hsource, h⟩
  | granted f count positive free =>
      exact ⟨rfl, h.withMap ⟨_, hfollows.occupy positive free⟩
        (FrameMap.keepsFixed_occupy free).size⟩
  | takenBack f m' freed =>
      refine ⟨rfl, h.withMap ⟨_, hfollows.free freed⟩ ?_⟩
      obtain ⟨b, hb, -, rfl⟩ := hfollows.exists_of_free freed
      exact (hfollows.keepsFixed_vacate hb).size
  | reserved base length m' kept =>
      exact ⟨rfl, h.withMap ⟨_, hfollows.reserve kept⟩ (FrameMap.keepsFixed_reserve kept).size⟩

/-- A map that has just been built is overseen. -/
theorem install {firstFree base : PhysAddr} {totalSize : Nat} {ready : Event}
    (built : a.install firstFree base totalSize = .ok (a', ready)) :
    ∃ m, a'.source = .mapped m ∧ m.Follows [] ∧ a'.Oversees m := by
  obtain ⟨b, m, -, -, hbuild, rfl, -⟩ := install_eq_ok built
  have hwindow := checkWindow_of_buildMap hbuild
  obtain ⟨aligned, hrange, -, -, rfl⟩ := buildMap_eq_ok hbuild
  have hfollows := FrameMap.follows_build (totalSize / pageSize) aligned.frame.index
    base.frame.index (FrameMap.framesNeeded (totalSize / pageSize)) hrange
  refine ⟨_, rfl, hfollows, ⟨_, hfollows⟩, fun f hf => ?_⟩
  rw [FrameMap.size_build] at hf
  exact sees_of_checkWindow hwindow hf hrange

end Oversees

/-! ### Reachable allocators -/

/-- **Steps**: a call that does not stop the kernel, or the end of the booting phase. -/
inductive Step : Allocator → Allocator → Prop where
  | called {a : Allocator} {c : FrameCall} {t : Account}
      (done : (Account.opened a).perform c = .ok t) : Step a t.allocator
  | mapped {a a' : Allocator} {firstFree : PhysAddr} {totalSize : Nat} {ready : Event}
      (built : a.mapFrom firstFree totalSize = .ok (a', ready)) : Step a a'
  /-- The booting phase ends over a layout, which need not be the one of the start. -/
  | charted {a a' : Allocator} {layout : Layout} {ready : Event}
      (built : a.bootstrap layout = .ok (a', ready)) : Step a a'

/-- **Reachable**: an allocator that has started, after any number of steps. -/
def IsReachable (a : Allocator) : Prop :=
  ∃ window layout first, start window layout = .ok first ∧ Relation.ReflTransGen Step first a

/-- **Consistent** in its phase. -/
structure IsConsistent (a : Allocator) : Prop where
  booting : ∀ b, a.source = .booting b → pageSize ∣ b.next.val
  mapped : ∀ m, a.source = .mapped m → a.Oversees m

theorem isConsistent_of_mapped (hsource : a.source = .mapped m) (h : a.Oversees m) :
    a.IsConsistent where
  booting b hb := by cases hsource.symm.trans hb
  mapped m' hm' := by
    cases hsource.symm.trans hm'
    exact h

theorem isConsistent_of_start {window : VirtAddr} {layout : Layout}
    (h : start window layout = .ok a) : a.IsConsistent := by
  unfold start BootFrames.between at h
  split at h
  · cases h
  · split at h
    · cases h
    · next frames hframes =>
        cases h
        split at hframes
        · cases hframes
        · next next hnext =>
            cases hframes
            refine ⟨fun b hb => ?_, fun m hm => by cases hm⟩
            cases hb
            exact (PhysAddr.alignUp_eq_ok hnext).2

/-- **What one step keeps.** -/
theorem IsConsistent.step (h : a.IsConsistent) (step : Step a a') : a'.IsConsistent := by
  cases step with
  | called done =>
      cases hsource : a.source with
      | booting b =>
          have haligned := h.booting b hsource
          have hopened : (Account.opened a).Booting b b.next :=
            ⟨hsource, rfl, haligned, Nat.le_refl _, by simp [Account.opened],
              by simp [Account.opened], List.Pairwise.nil⟩
          obtain ⟨b', hbooting, -⟩ := hopened.perform done
          refine ⟨fun b'' hb'' => ?_, fun m hm => by cases hbooting.source.symm.trans hm⟩
          cases hbooting.source.symm.trans hb''
          exact hbooting.aligned
      | mapped m =>
          have hoversees := h.mapped m hsource
          obtain ⟨m', hchange⟩ :=
            Account.exists_change (t := Account.opened a) hsource hoversees.counted done
          obtain ⟨hsource', hoversees'⟩ := hoversees.change hsource hchange
          exact isConsistent_of_mapped hsource' hoversees'
  | mapped built =>
      obtain ⟨base, -, hinstall⟩ := mapFrom_eq_ok built
      obtain ⟨m, hsource, -, hoversees⟩ := Oversees.install hinstall
      exact isConsistent_of_mapped hsource hoversees
  | charted built =>
      obtain ⟨b, base, a₀, -, -, hinstall, hholes⟩ := bootstrap_eq_ok built
      obtain ⟨m, hsource, hfollows, hoversees⟩ := Oversees.install hinstall
      obtain ⟨m', rfl, hfollows', hsize, -⟩ := reserveHoles_eq_ok hsource hfollows hholes
      exact isConsistent_of_mapped rfl (hoversees.withMap ⟨[], hfollows'⟩ hsize)

namespace IsReachable

/-- **What any number of steps keeps**, by induction on them. -/
theorem isConsistent (h : a.IsReachable) : a.IsConsistent := by
  obtain ⟨window, layout, first, hstart, hsteps⟩ := h
  induction hsteps with
  | refl => exact isConsistent_of_start hstart
  | tail _ hstep ih => exact ih.step hstep

theorem oversees (h : a.IsReachable) (hm : a.source = .mapped m) : a.Oversees m :=
  h.isConsistent.mapped m hm

theorem step (h : a.IsReachable) (step : Step a a') : a'.IsReachable := by
  obtain ⟨window, layout, first, hstart, hsteps⟩ := h
  exact ⟨window, layout, first, hstart, hsteps.tail step⟩

theorem allocate (h : a.IsReachable) {answer : Option Frame}
    (taken : a.allocate count = .ok (answer, a')) : a'.IsReachable := by
  have done : (Account.opened a).perform (.allocate count) =
      .ok ((Account.opened a).receive a' count answer) := by
    simp only [Account.perform, Account.opened, taken]
  cases answer <;> exact h.step (.called done)

theorem free (h : a.IsReachable) (back : a.free f = .ok a') : a'.IsReachable := by
  have done : (Account.opened a).perform (.free f) = .ok ((Account.opened a).giveBack a' f) := by
    simp only [Account.perform, Account.opened, back]
  exact h.step (.called done)

theorem reserve (h : a.IsReachable) {base : PhysAddr} {length : Nat}
    (kept : a.reserve base length = .ok a') : a'.IsReachable := by
  have done : (Account.opened a).perform (.reserve base length) =
      .ok { Account.opened a with allocator := a' } := by
    simp only [Account.perform, Account.opened, kept]
  exact h.step (.called done)

end IsReachable

end Allocator

/-! ### Machines -/

/-- Whatever happens to spaces and frames, it happens by steps of the allocator. -/
theorem keeps_isReachable : Deal.Keeps fun H => H.kernel.allocator.IsReachable := by
  intro H H' deal h
  cases deal with
  | arranged spaces blocks => exact h
  | noted allocator => exact allocator ▸ h
  | moved move =>
      cases move with
      | mapped p flags f a t grown room taken inserted => exact h.allocate taken
      | refused p f a a' cramped taken back =>
          rcases back with hback | ⟨-, rfl⟩
          · exact (h.allocate taken).free hback
          · exact h.allocate taken
      | _ => exact h
  | added blank => exact h
  | disowned => exact h
  | granted taken => exact h.allocate taken
  | freed back => exact h.free back
  | returned mine back => exact h.free back
  | reserved kept => exact h.reserve kept
  | mapped built => exact h.step (.mapped built)
  | charted built => exact h.step (.charted built)

theorem Machine.isReachable_of_start {window : VirtAddr} {layout : Layout} {ignored : Option Nat}
    {cacheSlots : Nat} {stayBooting : Bool} {m : Machine}
    (h : start window layout ignored cacheSlots stayBooting = .ok m) :
    m.kernel.allocator.IsReachable := by
  unfold start at h
  split at h
  · cases h
  · next a hstart =>
      have hfirst : a.IsReachable := ⟨window, layout, a, hstart, .refl⟩
      split at h
      · cases h
        exact hfirst
      · split at h
        · cases h
        · next a' ready hready =>
            cases h
            exact hfirst.step (.charted hready)

/-- **The allocator of a machine is reachable** at every point of every run. -/
theorem History.Run.isReachable {start h : History} {rs : List Request} (run : Run start rs h)
    (hstart : start.machine.kernel.allocator.IsReachable) :
    h.machine.kernel.allocator.IsReachable :=
  run.kept keeps_isReachable hstart

namespace History

theorem isReachable_bootingSixteenFrames : bootingSixteenFrames.kernel.allocator.IsReachable := by
  have limit : sixteenFramesLayout.bootLimit = .ok ⟨0x5000, by decide⟩ := rfl
  have started : Allocator.start ⟨0xffff800000000000, by decide⟩ sixteenFramesLayout =
      .ok bootingSixteenFrames.kernel.allocator := by
    unfold Allocator.start
    rw [limit]
    cbv
  exact ⟨_, _, _, started, .refl⟩

theorem isReachable_sixteenFrames : sixteenFrames.kernel.allocator.IsReachable := by
  have ready : bootingSixteenFrames.kernel.allocator.bootstrap sixteenFramesLayout =
      .ok (sixteenFrames.kernel.allocator, .frameMapReady ⟨0x1000, by decide⟩ 16 14) := by cbv
  exact isReachable_bootingSixteenFrames.step (.charted ready)

end History

/-! ### Asking for frames -/

/-- Stealing stops the kernel only over the product that it begins with. -/
theorem BootFrames.steal_eq_error_iff {b : BootFrames} {count : Nat} {halt : Halt} :
    b.steal count = .error halt ↔ halt = .productOverflow ∧ wordLimit ≤ count * pageSize := by
  unfold steal Word.mul
  by_cases hzero : count = 0
  · subst hzero
    simp [wordLimit]
  · rw [if_neg hzero]
    by_cases hword : count * pageSize < wordLimit
    · simp only [if_pos hword, Nat.not_le.mpr hword, and_false, iff_false]
      split <;> exact fun h => by cases h
    · simp [if_neg hword, Nat.not_lt.mp hword, eq_comm]

namespace Allocator

variable {a a' : Allocator} {m : FrameMap} {f : Frame} {count : Nat} {halt : Halt}

/-- An allocation stops the kernel only in the booting phase, and only over the bytes that are
asked for. -/
theorem allocate_eq_error_iff :
    a.allocate count = .error halt ↔
      halt = .productOverflow ∧ a.isInitialized = false ∧ wordLimit ≤ count * pageSize := by
  cases hsource : a.source with
  | booting b =>
      have hphase : a.isInitialized = false := by simp [isInitialized, hsource]
      have hsteal : a.allocate count = .error halt ↔ b.steal count = .error halt := by
        simp only [allocate, hsource]
        cases b.steal count <;> simp
      rw [hsteal, BootFrames.steal_eq_error_iff]
      simp [hphase]
  | mapped m =>
      rw [allocate_mapped hsource]
      simp [isInitialized, hsource]

theorem exists_allocate_iff :
    (∃ answer a', a.allocate count = .ok (answer, a')) ↔
      a.isInitialized = true ∨ count * pageSize < wordLimit := by
  cases hallocate : a.allocate count with
  | ok p =>
      refine iff_of_true ⟨p.1, p.2, rfl⟩ ?_
      by_contra hstops
      obtain ⟨hphase, hword⟩ := not_or.mp hstops
      have herror : a.allocate count = .error .productOverflow :=
        allocate_eq_error_iff.mpr ⟨rfl, Bool.eq_false_iff.mpr hphase, Nat.not_lt.mp hword⟩
      rw [hallocate] at herror
      cases herror
  | error halt =>
      obtain ⟨-, hphase, hword⟩ := allocate_eq_error_iff.mp hallocate
      refine iff_of_false (fun ⟨_, _, h⟩ => by cases h) ?_
      simp [hphase, hword]

/-- Pages at a kernel address are frames that the window reaches. -/
theorem exists_allocateKernelPages_iff :
    (∃ answer a', a.allocateKernelPages count = .ok (answer, a')) ↔
      (∃ answer a', a.allocate count = .ok (answer, a')) ∧
        ∀ f a', a.allocate count = .ok (some f, a') → a.Sees f := by
  unfold allocateKernelPages
  rcases hallocate : a.allocate count with halt | ⟨_ | f, a'⟩
  · simp
  · simp
  · have hsees : a.Sees f ↔ ∃ address, a'.kernelAddress f = .ok address := by
      rw [sees_iff, kernelAddress, kernelAddress, window_allocate hallocate]
    cases haddress : a'.kernelAddress f with
    | error halt => simp [hsees, haddress]
    | ok address => simp [hsees, haddress]

/-- What the map hands out is seen through the window. -/
theorem Oversees.sees_allocate (h : a.Oversees m) (hm : a.source = .mapped m)
    (taken : a.allocate count = .ok (some f, a')) : a.Sees f := by
  rw [allocate_mapped hm] at taken
  rcases FrameMap.allocate_cases h.counted count with ⟨g, hgrant, hpos, hfree, -⟩ | ⟨hrefuse, -⟩
  · rw [hgrant] at taken
    cases taken
    have hinside := hfree.le_size hpos
    exact h.seen f (Nat.lt_of_lt_of_le (Nat.lt_add_of_pos_right hpos) hinside)
  · rw [hrefuse] at taken
    cases taken

theorem allocateKernelPages_eq_none (h : a.allocateKernelPages count = .ok (none, a')) :
    a' = a := by
  unfold allocateKernelPages at h
  split at h
  · cases h
  · next hallocate =>
      cases h
      exact allocate_eq_none hallocate
  · split at h <;> cases h

/-- **Asking for frames.**  Over a map there is an answer for every count.  In the booting phase
there is one if the bytes are a machine word and, for pages at a kernel address, the window reaches
what is stolen; otherwise the kernel stops, over the bytes if no address is asked for.  Where the
answer is that there are no such frames, nothing has changed. -/
theorem IsReachable.allocation_answers_iff (h : a.IsReachable) (count : Nat) :
    ((∃ answer a', a.allocate count = .ok (answer, a')) ↔
        a.isInitialized = true ∨ count * pageSize < wordLimit) ∧
      ((∃ answer a', a.allocateKernelPages count = .ok (answer, a')) ↔
        a.isInitialized = true ∨ count * pageSize < wordLimit ∧
          ∀ f a', a.allocate count = .ok (some f, a') → a.Sees f) ∧
      (∀ halt, a.allocate count = .error halt → halt = .productOverflow) ∧
      (∀ a', a.allocate count = .ok (none, a') → a' = a) ∧
      ∀ a', a.allocateKernelPages count = .ok (none, a') → a' = a := by
  refine ⟨exists_allocate_iff, ?_, fun halt hhalt => (allocate_eq_error_iff.mp hhalt).1,
    fun a' => allocate_eq_none, fun a' => allocateKernelPages_eq_none⟩
  rw [exists_allocateKernelPages_iff, exists_allocate_iff]
  cases hsource : a.source with
  | booting b => simp [isInitialized, hsource]
  | mapped m =>
      have hphase : a.isInitialized = true := by simp [isInitialized, hsource]
      have hsees : ∀ f a', a.allocate count = .ok (some f, a') → a.Sees f :=
        fun f a' => (h.oversees hsource).sees_allocate hsource
      simpa only [hphase, true_or, true_and, iff_true] using hsees

/-- Booting with four frames to steal: the largest count whose bytes are a machine word is answered,
the next one is not, and five pages at a kernel address are refused without a trace. -/
theorem allocation_answers_iff_sixteen_frames :
    ∃ a : Allocator, a.IsReachable ∧ a.isInitialized = false ∧ a.freeFrames = 4 ∧
      (∃ answer a', a.allocate 0xfffffffffffff = .ok (answer, a')) ∧
      (¬ ∃ answer a', a.allocate 0x10000000000000 = .ok (answer, a')) ∧
      ∃ a', a.allocateKernelPages 5 = .ok (none, a') ∧ a' = a := by
  have reachable := History.isReachable_bootingSixteenFrames
  have refused : History.bootingSixteenFrames.kernel.allocator.allocateKernelPages 5 =
      .ok (none, History.bootingSixteenFrames.kernel.allocator) := by cbv
  obtain ⟨hlargest, -, -, -, -⟩ := reachable.allocation_answers_iff 0xfffffffffffff
  obtain ⟨hnext, -, -, -, -⟩ := reachable.allocation_answers_iff 0x10000000000000
  obtain ⟨-, -, -, -, hunchanged⟩ := reachable.allocation_answers_iff 5
  exact ⟨_, reachable, rfl, rfl, hlargest.mpr (Or.inr (by decide)),
    fun h => absurd (hnext.mp h) (by decide), _, refused, hunchanged _ refused⟩

/-- **Not every count gets an answer** while booting. -/
theorem not_forall_allocation_answers :
    ¬ ∀ a : Allocator, a.IsReachable → ∀ count < wordLimit,
      (∃ answer a', a.allocate count = .ok (answer, a') ∧ (answer = none → a' = a)) ∧
        ∃ answer a', a.allocateKernelPages count = .ok (answer, a') ∧
          (answer = none → a' = a) := by
  intro hall
  have stops : History.bootingSixteenFrames.kernel.allocator.allocate 0x10000000000000 =
      .error .productOverflow := by cbv
  obtain ⟨⟨answer, a', hanswer, -⟩, -⟩ :=
    hall _ History.isReachable_bootingSixteenFrames 0x10000000000000 (by decide)
  rw [stops] at hanswer
  cases hanswer

end Allocator

end DemandPaging
