import DemandPaging.Proofs.Copying
import DemandPaging.Proofs.Custody
import DemandPaging.Proofs.LiveSpaces
import DemandPaging.Proofs.Wandering

/-!
# Custody across kernel operations

What the operations of the kernel do to custody: spaces come and go, and blocks change hands.

**Giving up a space** is first a change of hands, from the space to the kernel, which then
holds the frames and frees them one after another.  So there is one lemma about freeing
(`Custody.free`), for the frames of a space as for the blocks of kernel callers.

**Whatever the outcome.**  `Entrusts` says how an operation ends, starting in custody of some
spaces.  If it answers, the custody is of the spaces that depend on the answer; if it fails, of
the spaces there were; and if it stops the kernel, then not because a frame or a page was
accounted for twice.
-/

namespace DemandPaging

/-- After a failure `P` holds; after a halt all that is known is that it was none of
ownership. -/
def Abort.Leaves (P : Prop) : Abort → Prop
  | .failed _ => P
  | .halted h => ¬ (Abort.halted h).BreaksOwnership

theorem Abort.leaves_of {P : Prop} {e : Abort} (hbenign : ¬ e.BreaksOwnership) (h : P) :
    e.Leaves P := by
  cases e with
  | failed error => exact h
  | halted halt => exact hbenign

/-- **Entrusts.**  From custody of the spaces `before`, the operation ends in custody of
`after`, or fails in custody of `before`. -/
def Entrusts {α : Type} (x : KernelM α) (k : Kernel) (before : List AddressSpace)
    (after : α → List AddressSpace) (held : List Block) (tally : Tally) : Prop :=
  Ends x k (fun a k' => Custody k' (after a) held tally)
    (fun e k' => e.Leaves (Custody k' before held tally))

namespace Custody

variable {k : Kernel} {live rest : List AddressSpace} {held : List Block} {tally : Tally}
  {s : AddressSpace} {b : Block}

theorem perm_held (h : Custody k live held tally) {held' : List Block} (hp : held.Perm held') :
    Custody k live held' tally where
  follows := by
    obtain ⟨m, hm, hfollows⟩ := h.follows
    exact ⟨m, hm, hfollows.perm (hp.append_left _)⟩
  conserved := by rw [← frameTotal_perm (hp.append_left _), h.conserved]
  tables := h.tables
  numbered := h.numbered
  distinct := h.distinct
  prepared := h.prepared
  remembered := h.remembered

/-! ### Blocks change hands -/

/-- The kernel takes the frames of a space over. -/
theorem disown (h : Custody k (s :: rest) held tally) :
    Custody k rest (s.blocks ++ held) tally := by
  have hblocks : (mappedBlocks (s :: rest) ++ held).Perm
      (mappedBlocks rest ++ (s.blocks ++ held)) := by
    rw [mappedBlocks_cons, List.append_assoc]
    exact List.perm_append_comm_assoc _ _ _
  obtain ⟨m, hm, hfollows⟩ := h.follows
  refine ⟨⟨m, hm, hfollows.perm hblocks⟩, ?_, fun t ht => h.tables t (List.mem_cons_of_mem _ ht),
    fun t ht => h.numbered t (List.mem_cons_of_mem _ ht), (List.nodup_cons.mp h.distinct).2,
    fun i hi => ⟨(h.prepared i hi).1, fun t ht =>
      (h.prepared i hi).2 t (List.mem_cons_of_mem _ ht)⟩, h.remembered⟩
  rw [← frameTotal_perm hblocks, h.conserved]

/-- A block that is held can be freed. -/
theorem free (h : Custody k live (b :: held) tally) :
    ∃ a, k.allocator.free b.head = .ok a ∧
      Custody { k with allocator := a } live held tally := by
  obtain ⟨m, hm, hfollows⟩ := h.follows
  have hfront := hfollows.perm List.perm_middle
  refine ⟨k.allocator.withMap (m.vacate b.head.index b.count), ?_, ⟨_, rfl, hfront.vacate⟩, ?_,
    h.tables, h.numbered, h.distinct, h.prepared, h.remembered⟩
  · rw [Allocator.free_mapped hm, hfront.free_head List.mem_cons_self]
    rfl
  · have hconserved := h.conserved
    rw [Allocator.freeFrames_mapped hm, frameTotal_perm List.perm_middle,
      frameTotal_cons] at hconserved
    show (m.freeCount + b.count) + _ = tally.room
    omega

/-- A block that is handed out is held. -/
theorem allocate (h : Custody k live held tally) {count : Nat} {f : Frame} {a : Allocator}
    (hallocate : k.allocator.allocate count = .ok (some f, a)) :
    Custody { k with allocator := a } live (⟨f, count⟩ :: held) tally := by
  obtain ⟨m, hm, hfollows⟩ := h.follows
  rw [Allocator.allocate_mapped hm] at hallocate
  rcases FrameMap.allocate_cases hfollows.counted count with
    ⟨g, hgrant, hpos, hfree, -⟩ | ⟨hrefuse, -⟩
  · rw [hgrant] at hallocate
    cases hallocate
    refine ⟨⟨_, rfl, (hfollows.occupy hpos hfree).perm List.perm_middle.symm⟩, ?_, h.tables,
      h.numbered, h.distinct, h.prepared, h.remembered⟩
    have hconserved := h.conserved
    -- as many frames were free as are taken
    have hsome := hfree.le_countP hpos
    rw [Allocator.freeFrames_mapped hm] at hconserved
    rw [← hfollows.counted] at hsome
    rw [frameTotal_perm List.perm_middle, frameTotal_cons]
    show (m.freeCount - count) + _ = tally.room
    simp only
    omega
  · rw [hrefuse] at hallocate
    cases hallocate

/-- Reserved frames are nobody's, and there is less room for them. -/
theorem reserve (h : Custody k live held tally) {base : PhysAddr} {length : Nat} {a : Allocator}
    (hreserve : k.allocator.reserve base length = .ok a) :
    ∃ room', Custody { k with allocator := a } live held { tally with room := room' } := by
  obtain ⟨m, hm, hfollows⟩ := h.follows
  obtain ⟨m', hmap, rfl⟩ := Allocator.reserve_mapped_eq_ok hm hreserve
  exact ⟨_, ⟨m', rfl, hfollows.reserve hmap⟩, rfl, h.tables, h.numbered, h.distinct,
    h.prepared, h.remembered⟩

/-- In custody there is a frame map already. -/
theorem mapFrom_eq_error (h : Custody k live held tally) (firstFree : PhysAddr) (totalSize : Nat) :
    ∃ halt, k.allocator.mapFrom firstFree totalSize = .error halt ∧
      ¬ (Abort.halted halt).BreaksOwnership := by
  obtain ⟨m, hm, -⟩ := h.follows
  unfold Allocator.mapFrom
  split
  · next halt hhalt => exact ⟨halt, rfl, PhysAddr.not_breaksOwnership_of_ofNat hhalt⟩
  · exact ⟨.alreadyInitialized, by simp [Allocator.install, hm], fun hbreak => hbreak⟩

theorem not_breaksOwnership_of_reserve (h : Custody k live held tally) {base : PhysAddr}
    {length : Nat} {halt : Halt} (herror : k.allocator.reserve base length = .error halt) :
    ¬ (Abort.halted halt).BreaksOwnership := by
  obtain ⟨m, hm, -⟩ := h.follows
  rw [Allocator.reserve_mapped hm] at herror
  cases hreserve : m.reserve k.allocator.window base length with
  | ok m' => simp [hreserve, Except.map] at herror
  | error e =>
      simp only [hreserve, Except.map, Except.error.injEq] at herror
      subst herror
      unfold FrameMap.reserve at hreserve
      split at hreserve
      · next hadd =>
          cases hreserve
          exact Word.not_breaksOwnership_of_add hadd
      · simp only at hreserve
        split at hreserve
        · cases hreserve
          exact fun hbreak => hbreak
        · cases hreserve

theorem mapOver_eq_error (h : Custody k live held tally) (layout : Layout) :
    k.allocator.mapOver layout = .error .alreadyInitialized := by
  obtain ⟨m, hm, -⟩ := h.follows
  simp [Allocator.mapOver, hm]

/-! ### Spaces come and go -/

/-- A space with the next number and without pages. -/
theorem add (h : Custody k live held tally) (hid : s.id = k.nextSpace) {n : Nat}
    (htable : s.table = .blank n) :
    Custody { k with nextSpace := k.nextSpace + 1 } (s :: live) held tally := by
  have hblocks : mappedBlocks (s :: live) = mappedBlocks live := by
    simp [mappedBlocks_cons, AddressSpace.blocks, AddressSpace.frames, htable]
  refine ⟨hblocks ▸ h.follows, hblocks ▸ h.conserved, ?_, ?_, ?_, ?_, h.remembered⟩
  · intro t ht
    rcases List.mem_cons.mp ht with rfl | ht
    · exact htable ▸ PageTable.wellFormed_blank n
    · exact h.tables t ht
  · intro t ht
    rcases List.mem_cons.mp ht with rfl | ht
    · exact hid ▸ Nat.lt_succ_self _
    · exact Nat.lt_succ_of_lt (h.numbered t ht)
  · rw [List.map_cons, List.nodup_cons]
    refine ⟨fun hmem => ?_, h.distinct⟩
    obtain ⟨t, ht, hti⟩ := List.mem_map.mp hmem
    exact absurd (hti.trans hid) (Nat.ne_of_lt (h.numbered t ht))
  · intro i hi
    obtain ⟨hlt, hlive⟩ := h.prepared i hi
    refine ⟨Nat.lt_succ_of_lt hlt, fun t ht hti => ?_⟩
    rcases List.mem_cons.mp ht with rfl | ht
    · exact absurd (hti.symm.trans hid) (Nat.ne_of_lt hlt)
    · exact hlive t ht hti

/-- Frames that are held are freed one after another, by induction on their list. -/
theorem ends_freeEntries :
    ∀ {es : List PageEntry} {k : Kernel},
      Custody k live (es.map (fun e => ⟨e.frame, 1⟩) ++ held) tally →
      Ends (PageTable.freeEntries es) k (fun _ k' => Custody k' live held tally)
        fun _ _ => False := by
  intro es
  induction es with
  | nil =>
      intro k h
      exact h
  | cons e rest ih =>
      intro k h
      obtain ⟨a, hfree, h'⟩ := h.free
      unfold PageTable.freeEntries Kernel.free
      simp only [ends_bind, ends_get, Kernel.ends_orHalt, ends_modify, hfree]
      exact ih h'

/-- While a space is given up, the kernel holds its frames. -/
theorem disown_entries (h : Custody k (s :: rest) held tally) :
    Custody { k with journal := k.journal.push (.destroying s.id) } rest
      (s.table.entries.map (fun e => ⟨e.frame, 1⟩) ++ held) tally := by
  have hdisowned := (h.record (e := .destroying s.id) rfl).disown
  rwa [AddressSpace.blocks, AddressSpace.frames, List.map_map] at hdisowned

/-- **Giving up a space never stops the kernel.** -/
theorem ends_destroy (h : Custody k (s :: rest) held tally) :
    Ends s.destroy k (fun _ k' => Custody k' rest held tally) fun _ _ => False := by
  unfold AddressSpace.destroy PageTable.release
  simp only [ends_bind, Kernel.ends_record]
  exact (ends_freeEntries h.disown_entries).mono (fun _ k' h' => h'.record rfl) fun _ _ h' => h'

/-- Work on the space in front. -/
theorem ends_attempt {α : Type} {x : SpaceM α} (h : Custody k (s :: rest) held tally)
    (hwanders : Wanders x ⟨k, s⟩) :
    Ends (x.attempt s) k (fun p k' => Custody k' (p.2 :: rest) held tally)
      fun e _ => ∀ P, e.Leaves P := by
  rw [SpaceM.ends_attempt]
  refine Ends.mono hwanders (fun a w' h' => h.path h'.1) fun e w' h' => ?_
  cases e with
  | failed error => exact h.path h'.1
  | halted halt => exact fun _ => h'.2.1

end Custody

/-! ### Operations on spaces and processes -/

namespace Custody

variable {k : Kernel} {live : List AddressSpace} {held : List Block} {tally : Tally}

/-- The heap says nothing about custody. -/
theorem withHeap (h : Custody k live held tally) (heap : List Bool) :
    Custody { k with heap } live held tally :=
  h.of_kernel rfl (Nat.le_refl _) fun _ => Iff.rfl

theorem asked (h : Custody k live held tally) (room : Nat) :
    Custody (k.asked room) live held tally := h.withHeap _

end Custody

namespace AddressSpace

variable {k : Kernel} {live : List AddressSpace} {held : List Block} {tally : Tally}

theorem entrusts_create (h : Custody k live held tally) :
    Entrusts create k live (fun s => s :: live) held tally := by
  unfold Entrusts
  exact ends_create (fun heap => (h.withHeap heap).add rfl rfl) h.withHeap

/-- **Duplicating** ends in custody of one space more, or of the spaces there were. -/
theorem entrusts_duplicate (h : Custody k live held tally) (source : AddressSpace) :
    Entrusts source.duplicate k live (fun copy => copy :: live) held tally := by
  unfold Entrusts duplicate
  refine Kernel.ends_claim_bind (fun _ => ?_) h.withHeap
  refine Kernel.ends_claim_bind (fun heap => ?_) h.withHeap
  have hshell : Custody { k with heap, nextSpace := k.nextSpace + 1 }
      (source.shell k.nextSpace :: live) held tally := (h.withHeap heap).add rfl rfl
  unfold Kernel.freshSpace
  simp only [ends_bind, ends_modifyGet]
  refine Ends.mono (hshell.ends_attempt (walks_copyFrom source rfl rfl).wanders) ?_
    fun e _ h' => h' _
  rintro ⟨outcome, remnant⟩ k' h'
  cases outcome with
  | ok _ =>
      simp only [ends_bind, Kernel.ends_record, ends_pure]
      exact h'.record rfl
  | error e =>
      -- the remnant is a space like any other, so it is given up like any other
      simp only [ends_bind, Kernel.ends_record, Kernel.ends_fail]
      exact Ends.mono (h'.record rfl).ends_destroy (fun _ _ h'' => h'') fun _ _ h'' => h''.elim

end AddressSpace

variable {k : Kernel} {live rest : List AddressSpace} {held : List Block} {tally : Tally}

namespace Process

theorem ends_create {s : AddressSpace} (h : Custody k (s :: rest) held tally)
    (entryPoint stackPointer : VirtAddr) :
    Ends (create s entryPoint stackPointer) k
      (fun p k' => Custody k' (p.spaces ++ rest) held tally) fun _ _ => False := by
  have hnext : Custody { k with nextPid := k.nextPid + 1 } (s :: rest) held tally :=
    h.of_kernel rfl (Nat.le_refl _) fun _ => Iff.rfl
  unfold create Kernel.freshPid
  simp only [ends_bind, ends_modifyGet, Kernel.ends_record, ends_pure]
  exact hnext.record rfl

theorem ends_forkWith {s : AddressSpace} (h : Custody k (s :: rest) held tally)
    (parent : Process) :
    Ends (parent.forkWith s) k (fun p k' => Custody k' (p.spaces ++ rest) held tally)
      fun _ _ => False := by
  unfold forkWith
  simp only [ends_bind, ends_pure]
  exact ends_create h parent.entryPoint parent.stackPointer

/-- Dropping what is cached takes no frame. -/
theorem ends_invalidate (h : Custody k live held tally) (p : Process) :
    Ends p.invalidate k (fun _ k' => Custody k' live held tally) fun _ _ => False := by
  unfold invalidate Kernel.invalidate
  split
  · simp only [ends_modify]
    exact h.of_kernel rfl (Nat.le_refl _) fun _ => Iff.rfl
  · simp only [ends_pure]
    exact h

theorem ends_run (p : Process) (h : Custody k (p.spaces ++ rest) held tally) :
    Ends p.run k (fun q k' => Custody k' (q.spaces ++ rest) held tally) fun _ _ => False := by
  unfold run
  simp only [ends_bind, ends_pure]
  exact ends_invalidate h p

theorem ends_preempt (p : Process) (h : Custody k (p.spaces ++ rest) held tally) :
    Ends p.preempt k (fun q k' => Custody k' (q.spaces ++ rest) held tally) fun _ _ => False := by
  unfold preempt
  simp only [ends_bind, ends_pure]
  exact ends_invalidate h p

/-- **Ending a process never stops the kernel**, and gives its space up. -/
theorem ends_exit (p : Process) (status : Int) (h : Custody k (p.spaces ++ rest) held tally) :
    Ends (p.exit status) k (fun q k' => q.spaces = [] ∧ Custody k' rest held tally)
      fun _ _ => False := by
  unfold exit
  simp only [ends_bind, Kernel.ends_record, ends_pure]
  unfold surrender AddressSpace.deactivate Kernel.invalidate
  cases hspace : p.space with
  | none =>
      rw [spaces, hspace] at h
      exact ⟨rfl, h.record rfl⟩
  | some s =>
      rw [spaces, hspace] at h
      simp only [ends_bind, ends_modify]
      have hdropped : Custody { k with cache := k.cache.invalidate s.id } (s :: rest) held tally :=
        h.of_kernel rfl (Nat.le_refl _) fun _ => Iff.rfl
      exact hdropped.ends_destroy.mono (fun _ _ h' => ⟨rfl, h'.record rfl⟩) fun _ _ h' => h'

theorem ends_killOnFault (p : Process) (e : MemoryError)
    (h : Custody k (p.spaces ++ rest) held tally) :
    Ends (p.killOnFault e) k (fun q k' => Custody k' (q.2.spaces ++ rest) held tally)
      fun _ _ => False := by
  unfold killOnFault
  simp only [ends_ite, ends_bind, Kernel.ends_record, ends_pure]
  split
  · refine Ends.mono (ends_exit p _ (h.record rfl)) (fun q k' h' => ?_) fun _ _ h' => h'
    rw [h'.1]
    exact h'.2
  · exact h

/-- **Forking** ends in custody of the child's space as well, or of the spaces there were. -/
theorem entrusts_fork (h : Custody k live held tally) (parent : Process) :
    Entrusts parent.fork k live (fun child => child.spaces ++ live) held tally := by
  unfold Entrusts fork
  split
  · exact h
  · next s _ =>
      simp only [ends_bind, Kernel.ends_record, ends_pure]
      refine Ends.mono (AddressSpace.entrusts_duplicate h s) (fun copy k' h' => ?_)
        fun _ _ h' => h'
      exact Ends.mono (ends_forkWith h' parent) (fun _ _ h'' => h''.record rfl)
        fun _ _ h'' => h''.elim

end Process

/-- **Starting a program** ends in custody of its space, or of the spaces there were. -/
theorem Program.entrusts_start (h : Custody k live held tally) (segments : List Segment)
    (entryPoint : VirtAddr) :
    Entrusts (Program.start segments entryPoint) k live (fun p => p.spaces ++ live) held tally := by
  unfold Entrusts Program.start
  simp only [ends_bind]
  refine Ends.mono (AddressSpace.entrusts_create h) (fun s k' h' => ?_) fun _ _ h' => h'
  refine Ends.mono (h'.ends_attempt (Program.wanders_load segments)) ?_ fun e _ h'' => h'' _
  rintro ⟨outcome, s'⟩ k'' h''
  cases outcome with
  | ok stackPointer =>
      simp only [ends_bind, Kernel.ends_record, ends_pure]
      exact Ends.mono (Process.ends_create h'' entryPoint stackPointer)
        (fun _ _ h₃ => h₃.record rfl) fun _ _ h₃ => h₃.elim
  | error e =>
      simp only [ends_bind, Kernel.ends_fail]
      exact Ends.mono h''.ends_destroy (fun _ _ h₃ => h₃) fun _ _ h₃ => h₃.elim

/-- **Handling a fault** ends in custody of the space that faulted, whatever became of it. -/
theorem PageFault.ends_handle {s : AddressSpace} (h : Custody k (s :: rest) held tally)
    (access : Access) (a : VirtAddr) :
    Ends (handle access a (.within s)) k
      (fun p k' => ∃ s', p.2 = .within s' ∧ Custody k' (s' :: rest) held tally)
      fun e _ => ∀ P, e.Leaves P := by
  unfold handle
  simp only [ends_bind, Kernel.ends_record, ends_ite, ends_pure]
  split
  · exact ⟨s, rfl, (h.record rfl).record rfl⟩
  · refine Ends.mono ((h.record rfl).ends_attempt (wanders_resolve access a)) ?_
      fun _ _ h' => h'
    intro p k' h'
    exact ⟨p.2, rfl, h'⟩

/-- A fault while nobody with an address space is running takes nothing. -/
theorem PageFault.ends_handle_without (h : Custody k live held tally) (access : Access)
    (a : VirtAddr) {c : Current} (hc : ∀ s, c ≠ .within s) :
    Ends (handle access a c) k (fun p k' => p.2 = c ∧ Custody k' live held tally)
      fun _ _ => False := by
  unfold handle
  simp only [ends_bind, Kernel.ends_record, ends_ite, ends_pure]
  split
  · exact ⟨trivial, (h.record rfl).record rfl⟩
  · cases c with
    | idle => exact ⟨rfl, h.record rfl⟩
    | bare => exact ⟨rfl, h.record rfl⟩
    | within s => exact absurd rfl (hc s)

end DemandPaging
