import DemandPaging.Proofs.Handover
import DemandPaging.Proofs.Ledger

/-!
# Custody across requests

What a machine keeps when it serves a request: custody of all its spaces, and of the blocks that
callers hold.  Each kind of request comes down to an operation on the kernel, for which custody
is settled in `Handover`, or to a walk of one space.  What is left to say here is which space
stands in front.

**Blocks of callers.**  The machine does not know what its callers hold.  It is read off requests
and replies (`FrameRequest.heldAfter`), and all that is asked of callers is that they free what
they hold (`FrameRequest.IsHonest`).
-/

namespace DemandPaging

/-! ### Blocks of callers -/

namespace FrameRequest

/-- The blocks that callers hold after a reply. -/
def heldAfter (a : Allocator) (held : List Block) : FrameRequest → Reply → List Block
  | .allocate count, .frame (some f) => ⟨f, count⟩ :: held
  | .allocateKernelPages count, .address (some address) =>
    match a.frameAt? address with
    | some f => ⟨f, count⟩ :: held
    | none => held
  | .free f, _ => held.filter fun b => b.head ≠ f
  | .freeKernelPages address, _ => held.filter fun b => some b.head ≠ a.frameAt? address
  | _, _ => held

/-- What is freed is held. -/
def IsHonest (a : Allocator) (held : List Block) : FrameRequest → Prop
  | .free f => ∃ b ∈ held, b.head = f
  | .freeKernelPages address => ∃ b ∈ held, a.frameAt? address = some b.head
  | _ => True

/-- Whether the request takes frames away from everybody. -/
def reserves : FrameRequest → Bool
  | .reserve _ _ => true
  | _ => false

end FrameRequest

namespace Custody

variable {k : Kernel} {live : List AddressSpace} {held : List Block} {tally : Tally} {b : Block}

/-- A held block is the only held one with its head. -/
theorem perm_cons_filter (h : Custody k live held tally) (hb : b ∈ held) :
    held.Perm (b :: held.filter fun c => c.head ≠ b.head) := by
  obtain ⟨m, -, hfollows⟩ := h.follows
  exact Block.perm_cons_filter (List.pairwise_append.mp hfollows.apart).2.1
    (fun c hc => hfollows.nonempty c (List.mem_append_right _ hc)) hb

/-- Whoever frees a block holds it no longer. -/
theorem free_filter (h : Custody k live held tally) (hb : b ∈ held) :
    ∃ a, k.allocator.free b.head = .ok a ∧
      Custody { k with allocator := a } live (held.filter fun c => c.head ≠ b.head) tally :=
  (h.perm_held (h.perm_cons_filter hb)).free

/-- An allocation gives a block to hold, or nothing. -/
theorem allocate_cases (h : Custody k live held tally) (count : Nat) :
    (∃ f a, k.allocator.allocate count = .ok (some f, a) ∧ a.window = k.allocator.window ∧
      Custody { k with allocator := a } live (⟨f, count⟩ :: held) tally) ∨
    k.allocator.allocate count = .ok (none, k.allocator) := by
  obtain ⟨m, hm, -⟩ := h.follows
  have hmapped := Allocator.allocate_mapped hm count
  cases hfound : (m.allocate count).1 with
  | none =>
      rw [hfound] at hmapped
      have hsame := Allocator.allocate_eq_none hmapped
      exact Or.inr (hmapped.trans (by rw [hsame]))
  | some f =>
      rw [hfound] at hmapped
      exact Or.inl ⟨f, _, hmapped, rfl, h.allocate hmapped⟩

/-- Changes of bytes only. -/
theorem of_bytes (h : Custody k live held tally) {k' : Kernel}
    (hallocator : k'.allocator = k.allocator) (hnumber : k'.nextSpace = k.nextSpace)
    (hjournal : k'.journal = k.journal) : Custody k' live held tally := by
  refine h.of_kernel hallocator (Nat.le_of_eq hnumber.symm) fun i => ?_
  rw [Kernel.HasPrepared, hjournal]
  rfl

end Custody

/-! ### Requests about frames -/

namespace FrameRequest

/-- **Settling a request**: after the reply there is custody of what callers hold by then, and
less room only after a reservation.  If the kernel stops instead, the reason is not ownership. -/
def Settles (r : FrameRequest) (k : Kernel) (live : List AddressSpace) (held : List Block)
    (tally : Tally) : Prop :=
  Ends (Machine.answerFrames r) k
    (fun reply k' => ∃ room', (r.reserves = false → room' = tally.room) ∧
      Custody k' live (r.heldAfter k.allocator held reply) { tally with room := room' })
    fun e _ => ∀ P, e.Leaves P

variable {k : Kernel} {live : List AddressSpace} {held : List Block} {tally : Tally}

theorem settles_allocate (h : Custody k live held tally) (count : Nat) :
    (allocate count).Settles k live held tally := by
  unfold Settles Machine.answerFrames Kernel.allocate
  simp only [ends_bind, ends_get, Kernel.ends_orHalt, ends_modify, ends_pure]
  rcases h.allocate_cases count with ⟨f, a, htaken, -, hnew⟩ | hrefuse
  · rw [htaken]
    exact ⟨tally.room, fun _ => rfl, hnew⟩
  · rw [hrefuse]
    exact ⟨tally.room, fun _ => rfl, h⟩

/-- Whoever is given pages at a kernel address holds the block at the frame seen there. -/
theorem settles_allocateKernelPages (h : Custody k live held tally) (count : Nat) :
    (allocateKernelPages count).Settles k live held tally := by
  unfold Settles Machine.answerFrames Kernel.allocateKernelPages Allocator.allocateKernelPages
  simp only [ends_bind, ends_get, Kernel.ends_orHalt, ends_modify, ends_pure]
  rcases h.allocate_cases count with ⟨f, a, htaken, hwindow, hnew⟩ | hrefuse
  · rw [htaken]
    cases haddress : a.kernelAddress f with
    | error halt =>
        simp only [haddress]
        exact fun _ => VirtAddr.not_breaksOwnership_of_add haddress
    | ok address =>
        -- allocating does not move the window
        have hseen : k.allocator.frameAt? address = some f := by
          rw [← Allocator.frameAt?_kernelAddress haddress]
          simp only [Allocator.frameAt?, hwindow]
        simp only [haddress, heldAfter, hseen]
        exact ⟨tally.room, fun _ => rfl, hnew⟩
  · rw [hrefuse]
    exact ⟨tally.room, fun _ => rfl, h⟩

theorem settles_free (h : Custody k live held tally) {f : Frame}
    (honest : ∃ b ∈ held, b.head = f) : (free f).Settles k live held tally := by
  obtain ⟨b, hb, rfl⟩ := honest
  obtain ⟨a, hfree, hnew⟩ := h.free_filter hb
  unfold Settles Machine.answerFrames Kernel.free
  simp only [ends_bind, ends_get, Kernel.ends_orHalt, ends_modify, ends_pure, hfree]
  exact ⟨tally.room, fun _ => rfl, hnew⟩

theorem settles_freeKernelPages (h : Custody k live held tally) {address : VirtAddr}
    (honest : ∃ b ∈ held, k.allocator.frameAt? address = some b.head) :
    (freeKernelPages address).Settles k live held tally := by
  obtain ⟨b, hb, hframe⟩ := honest
  obtain ⟨a, hfree, hnew⟩ := h.free_filter hb
  unfold Settles Machine.answerFrames Kernel.freeKernelPages
  simp only [ends_bind, ends_get, Kernel.ends_orHalt, ends_modify, ends_pure]
  rcases k.allocator.freeKernelPages_cases address with ⟨f, hf, heq⟩ | ⟨halt, heq, hcases⟩
  · obtain rfl : f = b.head := Option.some.inj (hf.symm.trans hframe)
    rw [heq, hfree]
    refine ⟨tally.room, fun _ => rfl, ?_⟩
    simpa only [heldAfter, hframe, ne_eq, Option.some.injEq] using hnew
  · rw [heq]
    rcases hcases with rfl | rfl | rfl <;> exact fun _ hbreak => hbreak

theorem settles_reserve (h : Custody k live held tally) (base : PhysAddr) (length : Nat) :
    (reserve base length).Settles k live held tally := by
  unfold Settles Machine.answerFrames Kernel.reserve
  simp only [ends_bind, ends_get, Kernel.ends_orHalt, ends_modify, ends_pure]
  cases hreserve : k.allocator.reserve base length with
  | error halt => exact fun _ => h.not_breaksOwnership_of_reserve hreserve
  | ok a =>
      obtain ⟨room', hnew⟩ := h.reserve hreserve
      exact ⟨room', fun hno => Bool.noConfusion hno, hnew⟩

/-- In custody the booting phase is over, so it cannot be ended once more. -/
theorem settles_mapFrom (h : Custody k live held tally) (firstFree : PhysAddr) (totalSize : Nat) :
    (mapFrom firstFree totalSize).Settles k live held tally := by
  obtain ⟨halt, herror, hbenign⟩ := h.mapFrom_eq_error firstFree totalSize
  unfold Settles Machine.answerFrames Kernel.mapFrom
  simp only [ends_bind, ends_get, Kernel.ends_orHalt, herror]
  exact fun _ => hbenign

theorem settles_bootstrap (h : Custody k live held tally) (layout : Layout)
    (ignored : Option Nat) : (bootstrap layout ignored).Settles k live held tally := by
  have herror := h.mapOver_eq_error layout
  unfold Settles Machine.answerFrames Kernel.bootstrap Kernel.reportIgnored
  cases ignored with
  | none =>
      simp only [ends_bind, ends_pure, ends_get, Kernel.ends_orHalt, herror]
      exact fun _ hbreak => hbreak
  | some limit =>
      simp only [ends_bind, Kernel.ends_record, ends_get, Kernel.ends_orHalt, herror]
      exact fun _ hbreak => hbreak

/-- Computing where the kernel sees a frame may stop it, but takes nothing. -/
theorem settles_kernelAddress (h : Custody k live held tally) (f : Frame) :
    (kernelAddress f).Settles k live held tally := by
  unfold Settles Machine.answerFrames
  simp only [ends_bind, ends_get, Kernel.ends_orHalt, ends_pure]
  cases haddress : k.allocator.kernelAddress f with
  | error halt => exact fun _ => VirtAddr.not_breaksOwnership_of_add haddress
  | ok address => exact ⟨tally.room, fun _ => rfl, h⟩

theorem settles_entry (h : Custody k live held tally) (f : Frame) :
    (entry f).Settles k live held tally := by
  unfold Settles Machine.answerFrames
  cases hentry : k.allocator.entry? f with
  | none =>
      simp only [ends_bind, ends_get, hentry, ends_pure]
      exact ⟨tally.room, fun _ => rfl, h⟩
  | some e =>
      simp only [ends_bind, ends_get, hentry, Kernel.ends_orHalt, ends_pure]
      cases haddress : k.allocator.kernelAddress f with
      | error halt => exact fun _ => VirtAddr.not_breaksOwnership_of_add haddress
      | ok address => exact ⟨tally.room, fun _ => rfl, h⟩

/-- **Every request about frames is settled**, if what it frees is held. -/
theorem settles (h : Custody k live held tally) (r : FrameRequest)
    (honest : r.IsHonest k.allocator held) : r.Settles k live held tally := by
  cases r with
  | allocate count => exact settles_allocate h count
  | allocateKernelPages count => exact settles_allocateKernelPages h count
  | free f => exact settles_free h honest
  | freeKernelPages address => exact settles_freeKernelPages h honest
  | reserve base length => exact settles_reserve h base length
  | mapFrom firstFree totalSize => exact settles_mapFrom h firstFree totalSize
  | bootstrap layout ignored => exact settles_bootstrap h layout ignored
  | kernelAddress f => exact settles_kernelAddress h f
  | entry f => exact settles_entry h f
  -- all others look only, or change bytes
  | isInitialized => exact ⟨tally.room, fun _ => rfl, h⟩
  | state f => exact ⟨tally.room, fun _ => rfl, h⟩
  | stretches => exact ⟨tally.room, fun _ => rfl, h⟩
  | peek a count => exact ⟨tally.room, fun _ => rfl, h⟩
  | poke a bytes => exact ⟨tally.room, fun _ => rfl, h.of_bytes rfl rfl rfl⟩
  | zero f => exact ⟨tally.room, fun _ => rfl, h.of_bytes rfl rfl rfl⟩
  | copy target source => exact ⟨tally.room, fun _ => rfl, h.of_bytes rfl rfl rfl⟩

end FrameRequest

/-- A request about the mapping cache takes no frame. -/
theorem CacheRequest.ends_answer {k : Kernel} {live : List AddressSpace} {held : List Block}
    {tally : Tally} (h : Custody k live held tally) (r : CacheRequest) :
    Ends (Machine.answerCache r) k (fun _ k' => Custody k' live held tally)
      fun e k' => e.Leaves (Custody k' live held tally) := by
  cases r with
  | reserveSpaceId => exact h.of_kernel rfl (Nat.le_succ _) fun _ => Iff.rfl
  | insert e =>
      unfold Machine.answerCache Kernel.cacheMapping
      simp only [ends_bind, ends_get, Kernel.ends_orFail, ends_modify, Kernel.ends_record,
        ends_pure]
      split
      · next placed _ =>
          have hcached : Custody { k with cache := placed.2 } live held tally :=
            h.of_kernel rfl (Nat.le_refl _) fun _ => Iff.rfl
          exact hcached.record rfl
      · exact h
  | lookup space a => exact h
  | invalidate space => exact h.of_kernel rfl (Nat.le_refl _) fun _ => Iff.rfl
  | invalidateAll => exact h.of_kernel rfl (Nat.le_refl _) fun _ => Iff.rfl
  | entries => exact h

/-! ### Requests to the machine -/

/-- After a request that is turned away or fails `P` holds. -/
def Refusal.Leaves (P : Prop) : Refusal → Prop
  | .unknownName => P
  | .aborted e => e.Leaves P

namespace Machine

/-- **Keeping custody.**  However the operation ends, the machine has custody of the spaces it
has then; the blocks of callers stay the same. -/
def Keeps {α : Type} (x : MachineM α) (m : Machine) (held : List Block) (tally : Tally) :
    Prop :=
  Ends x m (fun _ m' => Custody m'.kernel m'.live held tally)
    fun e m' => e.Leaves (Custody m'.kernel m'.live held tally)

variable {m : Machine} {held : List Block} {tally : Tally}

theorem keeps_createTable (h : Custody m.kernel m.live held tally) (capacity : Nat) :
    Keeps (createTable capacity) m held tally := by
  unfold Keeps createTable
  simp only [ends_bind, liftM_eq, ends_onKernel, Kernel.ends_orFail]
  split
  · simp only [Kernel.ends_claim, ends_modifyGet, ends_pure]
    split
    · exact h.asked capacity
    · exact h.asked capacity
  · exact h

theorem keeps_createSpace (h : Custody m.kernel m.live held tally) :
    Keeps (answer .createSpace) m held tally := by
  unfold Keeps answer
  simp only [ends_bind, liftM_eq, ends_onKernel, ends_addSpace, ends_pure]
  exact Ends.mono (AddressSpace.entrusts_create h)
    (fun s k' h' => h'.perm_live (perm_addSpace { m with kernel := k' } s).symm) fun _ _ h' => h'

theorem keeps_duplicateSpace (h : Custody m.kernel m.live held tally) (name : SpaceName) :
    Keeps (answer (.duplicateSpace name)) m held tally := by
  unfold Keeps answer
  simp only [ends_bind, ends_get, ends_orUnknown]
  split
  · next s _ =>
      simp only [liftM_eq, ends_onKernel, ends_addSpace, ends_pure]
      exact Ends.mono (AddressSpace.entrusts_duplicate h s)
        (fun copy k' h' => h'.perm_live (perm_addSpace { m with kernel := k' } copy).symm)
        fun _ _ h' => h'
  · exact h

theorem keeps_destroySpace (h : Custody m.kernel m.live held tally) (n : Nat) :
    Keeps (answer (.destroySpace n)) m held tally := by
  unfold Keeps answer
  simp only [ends_bind]
  refine ends_takeSpace (fun s hs => ?_) h
  obtain ⟨rest, hold, hnew⟩ := exists_perm_space hs
  simp only [liftM_eq, ends_onKernel, ends_pure]
  exact Ends.mono (h.perm_live hold).ends_destroy (fun _ _ h' => h'.perm_live (hnew none).symm)
    fun _ _ h' => h'.elim

theorem keeps_onSpace (h : Custody m.kernel m.live held tally) (name : SpaceName)
    (r : SpaceRequest) : Keeps (onSpace name (answerSpace r)) m held tally := by
  refine ends_onSpace (fun s hs => ?_) h
  obtain ⟨rest, hold, hnew⟩ := exists_perm_putSpace hs
  have hwalk : Wanders (answerSpace r) ⟨m.kernel, s⟩ := wanders_answerSpace r
  refine Ends.mono hwalk (fun _ w h' => ?_) fun e w h' => ?_
  · exact ((h.perm_live hold).path h'.1).perm_live (hnew w.space).symm
  · exact Abort.leaves_of h'.2.1 (((h.perm_live hold).path h'.1).perm_live (hnew w.space).symm)

/-! ### Faults -/

/-- Whoever faults within a space has a name for it. -/
theorem exists_of_current? {who : Faulter} {s : AddressSpace}
    (h : m.current? who = some (.within s)) :
    ∃ name, who = .owner name ∧ m.space? name = some s := by
  cases who with
  | nobody => cases h
  | bare => cases h
  | owner name =>
      refine ⟨name, rfl, ?_⟩
      cases name with
      | space n =>
          obtain ⟨s', hs', heq⟩ := Option.map_eq_some_iff.mp h
          cases heq
          exact hs'
      | process n =>
          obtain ⟨p, hp, heq⟩ := Option.map_eq_some_iff.mp h
          split at heq
          · next s' hspace =>
              cases heq
              exact Option.bind_eq_some_iff.mpr ⟨p, hp, hspace⟩
          · cases heq

theorem putCurrent_of_ne {who : Faulter} {c : Current} (h : ∀ s, c ≠ .within s) :
    m.putCurrent who c = m := by
  unfold putCurrent
  split
  · exact absurd rfl (h _)
  · rfl

theorem keeps_answerFault (h : Custody m.kernel m.live held tally) (who : Faulter)
    (access : Access) (a : VirtAddr) : Keeps (answerFault who access a) m held tally := by
  unfold Keeps answerFault
  simp only [ends_bind, ends_get, ends_orUnknown]
  split
  · next c hc =>
      simp only [liftM_eq, ends_onKernel, ends_modify]
      -- only a fault within a space can change one
      by_cases hwithin : ∃ s, c = .within s
      · obtain ⟨s, rfl⟩ := hwithin
        obtain ⟨name, rfl, hs⟩ := exists_of_current? hc
        obtain ⟨rest, hold, hnew⟩ := exists_perm_putSpace hs
        refine Ends.mono (PageFault.ends_handle (h.perm_live hold) access a) ?_ fun e _ h' => h' _
        rintro ⟨outcome, c⟩ k' ⟨s', rfl, h'⟩
        have hback : Custody k' (m.putSpace name s').live held tally := h'.perm_live (hnew s').symm
        cases name <;> cases outcome <;> exact hback
      · have hc' : ∀ s, c ≠ .within s := fun s hs => hwithin ⟨s, hs⟩
        refine Ends.mono (PageFault.ends_handle_without h access a hc') ?_ fun e _ h' => h'.elim
        rintro ⟨outcome, c⟩ k' ⟨rfl, h'⟩
        rw [putCurrent_of_ne hc']
        cases outcome with
        | error e => exact h'
        | ok _ =>
            cases c with
            | idle => exact h'
            | bare => exact h'
            | within s => exact absurd rfl (hc' s)
  · exact h

/-! ### Processes -/

theorem keeps_startProgram (h : Custody m.kernel m.live held tally) (segments : List Segment)
    (entryPoint : VirtAddr) : Keeps (answer (.startProgram segments entryPoint)) m held tally := by
  unfold Keeps answer
  simp only [ends_bind, liftM_eq, ends_onKernel, ends_addProcess, ends_pure]
  exact Ends.mono (Program.entrusts_start h segments entryPoint)
    (fun p k' h' => h'.perm_live (perm_addProcess { m with kernel := k' } p).symm) fun _ _ h' => h'

theorem keeps_createProcess (h : Custody m.kernel m.live held tally) (n : Nat)
    (entryPoint stackPointer : VirtAddr) :
    Keeps (answer (.createProcess n entryPoint stackPointer)) m held tally := by
  unfold Keeps answer
  simp only [ends_bind]
  refine ends_takeSpace (fun s hs => ?_) h
  obtain ⟨rest, hold, hnew⟩ := exists_perm_space hs
  simp only [liftM_eq, ends_onKernel, ends_addProcess, ends_pure]
  refine Ends.mono (Process.ends_create (h.perm_live hold) entryPoint stackPointer)
    (fun p k' h' => ?_) fun _ _ h' => h'.elim
  exact h'.perm_live ((perm_addProcess _ p).trans ((hnew none).append_left _)).symm

theorem keeps_forkWith (h : Custody m.kernel m.live held tally) (n space : Nat) :
    Keeps (answer (.forkWith n space)) m held tally := by
  unfold Keeps answer
  simp only [ends_bind]
  refine ends_process (fun parent _ => ends_takeSpace (fun s hs => ?_) h) h
  obtain ⟨rest, hold, hnew⟩ := exists_perm_space hs
  simp only [liftM_eq, ends_onKernel, ends_addProcess, ends_pure]
  refine Ends.mono (Process.ends_forkWith (h.perm_live hold) parent)
    (fun p k' h' => ?_) fun _ _ h' => h'.elim
  exact h'.perm_live ((perm_addProcess _ p).trans ((hnew none).append_left _)).symm

theorem keeps_fork (h : Custody m.kernel m.live held tally) (n : Nat) :
    Keeps (fork n) m held tally := by
  unfold Keeps fork
  simp only [ends_bind]
  refine ends_process (fun parent _ => ?_) h
  simp only [liftM_eq, ends_onKernel, ends_addProcess, ends_pure]
  exact Ends.mono (Process.entrusts_fork h parent)
    (fun p k' h' => h'.perm_live (perm_addProcess { m with kernel := k' } p).symm) fun _ _ h' => h'

/-- A system call answers failures with their number. -/
theorem keeps_forkCall (h : Custody m.kernel m.live held tally) (n : Nat) :
    Keeps (forkCall n) m held tally :=
  ends_forkCall (keeps_fork h n) fun _ _ hfailed => hfailed

theorem keeps_answerProcess (h : Custody m.kernel m.live held tally) (n : Nat)
    (r : ProcessRequest) : Keeps (answerProcess n r) m held tally := by
  unfold Keeps answerProcess
  simp only [ends_bind]
  refine ends_process (fun p hp => ?_) h
  obtain ⟨rest, hold, hnew⟩ := exists_perm_process hp
  have hfront := h.perm_live hold
  cases r with
  | run =>
      simp only [ends_bind, liftM_eq, ends_onKernel, ends_putProcess, ends_pure]
      exact Ends.mono (Process.ends_run p hfront) (fun q _ h' => h'.perm_live (hnew q).symm)
        fun _ _ h' => h'.elim
  | preempt =>
      simp only [ends_bind, liftM_eq, ends_onKernel, ends_putProcess, ends_pure]
      exact Ends.mono (Process.ends_preempt p hfront) (fun q _ h' => h'.perm_live (hnew q).symm)
        fun _ _ h' => h'.elim
  | exit status =>
      simp only [ends_bind, liftM_eq, ends_onKernel, ends_putProcess, ends_pure]
      refine Ends.mono (Process.ends_exit p status hfront) (fun q _ h' => ?_) fun _ _ h' => h'.elim
      refine h'.2.perm_live ((hnew q).trans ?_).symm
      rw [h'.1, List.nil_append]
  | setState state =>
      simp only [ends_bind, liftM_eq, ends_onKernel, ends_putProcess, ends_pure]
      exact hfront.perm_live (hnew { p with state }).symm
  | inspect => exact h
  | killOnFault e =>
      simp only [ends_bind, liftM_eq, ends_onKernel, ends_putProcess, ends_pure]
      exact Ends.mono (Process.ends_killOnFault p e hfront)
        (fun q _ h' => h'.perm_live (hnew q.2).symm) fun _ _ h' => h'.elim

end Machine

end DemandPaging
