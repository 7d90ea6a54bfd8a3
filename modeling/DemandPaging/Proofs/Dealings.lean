import DemandPaging.Proofs.Ownership
import DemandPaging.Proofs.Placement

/-!
# What can happen to spaces and frames

Custody begins when the frame map has been built.  Spaces can be filled before that, with frames
that are stolen and never come back, and they live on over the map.  So this module says once what
may happen to the spaces there are, the blocks that are held and the allocator, in either phase:
a request is a sequence of dealings (`Deal`), and what every dealing keeps, every run keeps
(`History.Run.kept`).

**Less than custody.**  Nothing is said about requests that stop the kernel, and giving up a space
may well do so, as its stolen frames cannot be freed.

**One space in front.**  As with custody, dealings are about the first space and the first block,
and since the order does not matter that is no restriction.
-/

namespace DemandPaging

/-- **Holdings**: the spaces there are, the blocks that are held, and the kernel. -/
structure Holdings where
  kernel : Kernel
  live : List AddressSpace
  held : List Block

/-- **Dealings**: what happens to spaces and frames, piece by piece. -/
inductive Deal : Holdings → Holdings → Prop where
  | arranged {k : Kernel} {live live' : List AddressSpace} {held held' : List Block}
      (spaces : live.Perm live') (blocks : held.Perm held') : Deal ⟨k, live, held⟩ ⟨k, live', held'⟩
  /-- The kernel changes, but not its allocator. -/
  | noted {k k' : Kernel} {live : List AddressSpace} {held : List Block}
      (allocator : k'.allocator = k.allocator) : Deal ⟨k, live, held⟩ ⟨k', live, held⟩
  | moved {w w' : Workspace} {rest : List AddressSpace} {held : List Block} (move : w.Move w') :
      Deal ⟨w.kernel, w.space :: rest, held⟩ ⟨w'.kernel, w'.space :: rest, held⟩
  | added {k : Kernel} {s : AddressSpace} {live : List AddressSpace} {held : List Block} {n : Nat}
      (blank : s.table = .blank n) : Deal ⟨k, live, held⟩ ⟨k, s :: live, held⟩
  /-- The kernel takes the frames of a space over. -/
  | disowned {k : Kernel} {s : AddressSpace} {rest : List AddressSpace} {held : List Block} :
      Deal ⟨k, s :: rest, held⟩ ⟨k, rest, s.blocks ++ held⟩
  | granted {k : Kernel} {live : List AddressSpace} {held : List Block} {count : Nat} {f : Frame}
      {a : Allocator} (taken : k.allocator.allocate count = .ok (some f, a)) :
      Deal ⟨k, live, held⟩ ⟨{ k with allocator := a }, live, ⟨f, count⟩ :: held⟩
  | freed {k : Kernel} {live : List AddressSpace} {held : List Block} {b : Block} {a : Allocator}
      (back : k.allocator.free b.head = .ok a) :
      Deal ⟨k, live, b :: held⟩ ⟨{ k with allocator := a }, live, held⟩
  /-- A caller frees one of its blocks, and holds no block with this head any more. -/
  | returned {k : Kernel} {live : List AddressSpace} {held : List Block} {b : Block}
      {a : Allocator} (mine : b ∈ held) (back : k.allocator.free b.head = .ok a) :
      Deal ⟨k, live, held⟩
        ⟨{ k with allocator := a }, live, held.filter fun c => c.head ≠ b.head⟩
  | reserved {k : Kernel} {live : List AddressSpace} {held : List Block} {base : PhysAddr}
      {length : Nat} {a : Allocator} (kept : k.allocator.reserve base length = .ok a) :
      Deal ⟨k, live, held⟩ ⟨{ k with allocator := a }, live, held⟩
  /-- The booting phase ends. -/
  | mapped {k : Kernel} {live : List AddressSpace} {held : List Block} {a : Allocator}
      {firstFree : PhysAddr} {totalSize : Nat} {ready : Event}
      (built : k.allocator.mapFrom firstFree totalSize = .ok (a, ready)) :
      Deal ⟨k, live, held⟩ ⟨{ k with allocator := a }, live, held⟩
  /-- The booting phase ends over a layout. -/
  | charted {k : Kernel} {live : List AddressSpace} {held : List Block} {a : Allocator}
      {layout : Layout} {ready : Event} (built : k.allocator.bootstrap layout = .ok (a, ready)) :
      Deal ⟨k, live, held⟩ ⟨{ k with allocator := a }, live, held⟩

/-- What every dealing keeps. -/
def Deal.Keeps (I : Holdings → Prop) : Prop := ∀ {H H' : Holdings}, Deal H H' → I H → I H'

/-- After a failure `P` holds; after a halt nothing is known. -/
def Abort.Recovers (P : Prop) : Abort → Prop
  | .failed _ => P
  | .halted _ => True

namespace Deal.Keeps

variable {I : Holdings → Prop} {k k' : Kernel} {s : AddressSpace} {live rest : List AddressSpace}
  {held : List Block}

/-! ### Kernel operations -/

theorem perm_live (hI : Keeps I) (h : I ⟨k, live, held⟩) {live' : List AddressSpace}
    (hp : live.Perm live') : I ⟨k, live', held⟩ := hI (.arranged hp (.refl _)) h

theorem of_kernel (hI : Keeps I) (h : I ⟨k, live, held⟩) (hallocator : k'.allocator = k.allocator) :
    I ⟨k', live, held⟩ := hI (.noted hallocator) h

/-- By induction on the moves of a path. -/
theorem path (hI : Keeps I) {w w' : Workspace} (h : I ⟨w.kernel, w.space :: rest, held⟩)
    (hpath : w.Path w') : I ⟨w'.kernel, w'.space :: rest, held⟩ := by
  induction hpath with
  | refl => exact h
  | tail _ hmove ih => exact hI (.moved hmove) ih

/-- Work on the space in front. -/
theorem ends_attempt {α : Type} {x : SpaceM α} (hI : Keeps I) (h : I ⟨k, s :: rest, held⟩)
    (hwanders : Wanders x ⟨k, s⟩) :
    Ends (x.attempt s) k (fun p k' => I ⟨k', p.2 :: rest, held⟩) fun e _ => ∀ P, e.Recovers P := by
  rw [SpaceM.ends_attempt]
  refine Ends.mono hwanders (fun a w' h' => hI.path h h'.1) fun e w' h' => ?_
  cases e with
  | failed error => exact hI.path h h'.1
  | halted halt => exact fun _ => trivial

/-- Frames that are held are freed one after another, by induction on their list. -/
theorem ends_freeEntries (hI : Keeps I) :
    ∀ {es : List PageEntry} {k : Kernel}, I ⟨k, live, es.map (fun e => ⟨e.frame, 1⟩) ++ held⟩ →
      Ends (PageTable.freeEntries es) k (fun _ k' => I ⟨k', live, held⟩)
        fun e _ => ∀ P, e.Recovers P := by
  intro es
  induction es with
  | nil =>
      intro k h
      exact h
  | cons e rest ih =>
      intro k h
      unfold PageTable.freeEntries Kernel.free
      simp only [ends_bind, ends_get, Kernel.ends_orHalt, ends_modify]
      cases hfree : k.allocator.free e.frame with
      | error halt => exact fun _ => trivial
      | ok a => exact ih (hI (.freed (b := ⟨e.frame, 1⟩) hfree) h)

theorem ends_destroy (hI : Keeps I) (h : I ⟨k, s :: rest, held⟩) :
    Ends s.destroy k (fun _ k' => I ⟨k', rest, held⟩) fun e _ => ∀ P, e.Recovers P := by
  have hreported : I ⟨{ k with journal := k.journal.push (.destroying s.id) }, s :: rest, held⟩ :=
    hI.of_kernel h rfl
  have hdisowned := hI .disowned hreported
  rw [AddressSpace.blocks, AddressSpace.frames, List.map_map] at hdisowned
  unfold AddressSpace.destroy PageTable.release
  simp only [ends_bind, Kernel.ends_record]
  exact Ends.mono (hI.ends_freeEntries hdisowned) (fun _ k' h' => hI.of_kernel h' rfl)
    fun _ _ h' => h'

/-- A kernel operation keeps `I` with the spaces that its answer leaves; if it fails, with the
spaces there were. -/
def Through {α : Type} (I : Holdings → Prop) (x : KernelM α) (k : Kernel)
    (before : List AddressSpace) (after : α → List AddressSpace) (held : List Block) : Prop :=
  Ends x k (fun a k' => I ⟨k', after a, held⟩) fun e k' => e.Recovers (I ⟨k', before, held⟩)

theorem through_create (hI : Keeps I) (h : I ⟨k, live, held⟩) :
    Through I AddressSpace.create k live (fun s => s :: live) held := by
  unfold Through
  exact AddressSpace.ends_create (fun _ => hI (.added rfl) (hI.of_kernel h rfl))
    fun _ => hI.of_kernel h rfl

theorem through_duplicate (hI : Keeps I) (h : I ⟨k, live, held⟩) (source : AddressSpace) :
    Through I source.duplicate k live (fun copy => copy :: live) held := by
  unfold Through AddressSpace.duplicate
  refine Kernel.ends_claim_bind (fun _ => ?_) fun _ => hI.of_kernel h rfl
  refine Kernel.ends_claim_bind (fun heap => ?_) fun _ => hI.of_kernel h rfl
  have hshell : I ⟨{ k with heap, nextSpace := k.nextSpace + 1 },
      source.shell k.nextSpace :: live, held⟩ := hI (.added rfl) (hI.of_kernel h rfl)
  unfold Kernel.freshSpace
  simp only [ends_bind, ends_modifyGet]
  refine Ends.mono (hI.ends_attempt hshell
    (AddressSpace.walks_copyFrom source rfl rfl).wanders) ?_ fun e _ h' => h' _
  rintro ⟨outcome, remnant⟩ k' h'
  cases outcome with
  | ok _ =>
      simp only [ends_bind, Kernel.ends_record, ends_pure]
      exact hI.of_kernel h' rfl
  | error e =>
      simp only [ends_bind, Kernel.ends_record, Kernel.ends_fail]
      exact Ends.mono (hI.ends_destroy (hI.of_kernel h' rfl)) (fun _ _ h'' => h'')
        fun _ _ h'' => h'' _

theorem ends_createProcess (hI : Keeps I) (h : I ⟨k, s :: rest, held⟩)
    (entryPoint stackPointer : VirtAddr) :
    Ends (Process.create s entryPoint stackPointer) k
      (fun p k' => I ⟨k', p.spaces ++ rest, held⟩) fun _ _ => False := by
  unfold Process.create Kernel.freshPid
  simp only [ends_bind, ends_modifyGet, Kernel.ends_record, ends_pure]
  exact hI.of_kernel h rfl

theorem ends_forkWith (hI : Keeps I) (h : I ⟨k, s :: rest, held⟩) (parent : Process) :
    Ends (parent.forkWith s) k (fun p k' => I ⟨k', p.spaces ++ rest, held⟩) fun _ _ => False := by
  unfold Process.forkWith
  simp only [ends_bind, ends_pure]
  exact hI.ends_createProcess h parent.entryPoint parent.stackPointer

theorem ends_invalidate (hI : Keeps I) (h : I ⟨k, live, held⟩) (p : Process) :
    Ends p.invalidate k (fun _ k' => I ⟨k', live, held⟩) fun _ _ => False := by
  unfold Process.invalidate Kernel.invalidate
  split
  · simp only [ends_modify]
    exact hI.of_kernel h rfl
  · simp only [ends_pure]
    exact h

theorem ends_exit (hI : Keeps I) (p : Process) (status : Int)
    (h : I ⟨k, p.spaces ++ rest, held⟩) :
    Ends (p.exit status) k (fun q k' => I ⟨k', q.spaces ++ rest, held⟩)
      fun e _ => ∀ P, e.Recovers P := by
  unfold Process.exit
  simp only [ends_bind, Kernel.ends_record, ends_pure]
  unfold Process.surrender AddressSpace.deactivate Kernel.invalidate
  cases hspace : p.space with
  | none =>
      rw [Process.spaces, hspace] at h
      exact hI.of_kernel h rfl
  | some s =>
      rw [Process.spaces, hspace] at h
      simp only [ends_bind, ends_modify]
      have hdropped : I ⟨{ k with cache := k.cache.invalidate s.id }, s :: rest, held⟩ :=
        hI.of_kernel h rfl
      exact Ends.mono (hI.ends_destroy hdropped) (fun _ _ h' => hI.of_kernel h' rfl)
        fun _ _ h' => h'

/-! What a process is asked for, it answers with the process it is from then on. -/

theorem through_run (hI : Keeps I) (p : Process) (h : I ⟨k, p.spaces ++ rest, held⟩) :
    Through I p.run k (p.spaces ++ rest) (fun q => q.spaces ++ rest) held := by
  unfold Through Process.run
  simp only [ends_bind, ends_pure]
  exact Ends.mono (hI.ends_invalidate h p) (fun _ _ h' => h') fun _ _ h' => h'.elim

theorem through_preempt (hI : Keeps I) (p : Process) (h : I ⟨k, p.spaces ++ rest, held⟩) :
    Through I p.preempt k (p.spaces ++ rest) (fun q => q.spaces ++ rest) held := by
  unfold Through Process.preempt
  simp only [ends_bind, ends_pure]
  exact Ends.mono (hI.ends_invalidate h p) (fun _ _ h' => h') fun _ _ h' => h'.elim

theorem through_exit (hI : Keeps I) (p : Process) (status : Int)
    (h : I ⟨k, p.spaces ++ rest, held⟩) :
    Through I (p.exit status) k (p.spaces ++ rest) (fun q => q.spaces ++ rest) held :=
  Ends.mono (hI.ends_exit p status h) (fun _ _ h' => h') fun _ _ h' => h' _

theorem through_killOnFault (hI : Keeps I) (p : Process) (e : MemoryError)
    (h : I ⟨k, p.spaces ++ rest, held⟩) :
    Through I (p.killOnFault e) k (p.spaces ++ rest) (fun q => q.2.spaces ++ rest) held := by
  unfold Through Process.killOnFault
  simp only [ends_ite, ends_bind, Kernel.ends_record, ends_pure]
  split
  · exact Ends.mono (hI.ends_exit p _ (hI.of_kernel h rfl)) (fun _ _ h' => h') fun _ _ h' => h' _
  · exact h

theorem through_fork (hI : Keeps I) (h : I ⟨k, live, held⟩) (parent : Process) :
    Through I parent.fork k live (fun child => child.spaces ++ live) held := by
  unfold Through Process.fork
  split
  · exact h
  · next s _ =>
      simp only [ends_bind, Kernel.ends_record, ends_pure]
      refine Ends.mono (hI.through_duplicate h s) (fun copy k' h' => ?_) fun _ _ h' => h'
      exact Ends.mono (hI.ends_forkWith h' parent) (fun _ _ h'' => hI.of_kernel h'' rfl)
        fun _ _ h'' => h''.elim

theorem through_start (hI : Keeps I) (h : I ⟨k, live, held⟩) (segments : List Segment)
    (entryPoint : VirtAddr) :
    Through I (Program.start segments entryPoint) k live (fun p => p.spaces ++ live) held := by
  unfold Through Program.start
  simp only [ends_bind]
  refine Ends.mono (hI.through_create h) (fun s k' h' => ?_) fun _ _ h' => h'
  refine Ends.mono (hI.ends_attempt h' (Program.wanders_load segments)) ?_ fun e _ h'' => h'' _
  rintro ⟨outcome, s'⟩ k'' h''
  cases outcome with
  | ok stackPointer =>
      simp only [ends_bind, Kernel.ends_record, ends_pure]
      exact Ends.mono (hI.ends_createProcess h'' entryPoint stackPointer)
        (fun _ _ h₃ => hI.of_kernel h₃ rfl) fun _ _ h₃ => h₃.elim
  | error e =>
      simp only [ends_bind, Kernel.ends_fail]
      exact Ends.mono (hI.ends_destroy h'') (fun _ _ h₃ => h₃) fun _ _ h₃ => h₃ _

/-- Handling a fault within the space in front. -/
theorem ends_handle (hI : Keeps I) (h : I ⟨k, s :: rest, held⟩) (access : Access) (a : VirtAddr) :
    Ends (PageFault.handle access a (.within s)) k
      (fun p k' => ∃ s', p.2 = .within s' ∧ I ⟨k', s' :: rest, held⟩)
      fun e _ => ∀ P, e.Recovers P := by
  unfold PageFault.handle
  simp only [ends_bind, Kernel.ends_record, ends_ite, ends_pure]
  split
  · exact ⟨s, rfl, hI.of_kernel h rfl⟩
  · exact Ends.mono (hI.ends_attempt (hI.of_kernel h rfl) (PageFault.wanders_resolve access a))
      (fun p _ h' => ⟨p.2, rfl, h'⟩) fun _ _ h' => h'

/-- Handling a fault of nobody with an address space. -/
theorem ends_handle_without (hI : Keeps I) (h : I ⟨k, live, held⟩) (access : Access) (a : VirtAddr)
    {c : Current} (hc : ∀ s, c ≠ .within s) :
    Ends (PageFault.handle access a c) k (fun p k' => p.2 = c ∧ I ⟨k', live, held⟩)
      fun _ _ => False := by
  unfold PageFault.handle
  simp only [ends_bind, Kernel.ends_record, ends_ite, ends_pure]
  split
  · exact ⟨trivial, hI.of_kernel h rfl⟩
  · cases c with
    | idle => exact ⟨rfl, hI.of_kernel h rfl⟩
    | bare => exact ⟨rfl, hI.of_kernel h rfl⟩
    | within s => exact absurd rfl (hc s)

/-! ### Requests about frames and the cache -/

/-- An allocation, in whichever phase, answers what is held from then on. -/
theorem receive (hI : Keeps I) (h : I ⟨k, live, held⟩) {count : Nat} {f : Option Frame}
    {a : Allocator} (hallocate : k.allocator.allocate count = .ok (f, a)) :
    I ⟨{ k with allocator := a }, live, match f with
      | some f => ⟨f, count⟩ :: held
      | none => held⟩ := by
  cases f with
  | none =>
      obtain rfl := Allocator.allocate_eq_none hallocate
      exact h
  | some f => exact hI (.granted hallocate) h

theorem ends_allocate (hI : Keeps I) (h : I ⟨k, live, held⟩) (count : Nat) :
    Ends (Machine.answerFrames (.allocate count)) k
      (fun reply k' => I ⟨k', live, (FrameRequest.allocate count).heldAfter k.allocator held reply⟩)
      fun e _ => ∀ P, e.Recovers P := by
  unfold Machine.answerFrames Kernel.allocate
  simp only [ends_bind, ends_get, Kernel.ends_orHalt, ends_modify, ends_pure]
  cases hallocate : k.allocator.allocate count with
  | error halt => exact fun _ => trivial
  | ok p =>
      obtain ⟨f, a⟩ := p
      have hnew := hI.receive h hallocate
      cases f with
      | none => exact hnew
      | some f => exact hnew

/-- Whoever is given pages at a kernel address holds the block at the frame seen there. -/
theorem ends_allocateKernelPages (hI : Keeps I) (h : I ⟨k, live, held⟩) (count : Nat) :
    Ends (Machine.answerFrames (.allocateKernelPages count)) k
      (fun reply k' =>
        I ⟨k', live, (FrameRequest.allocateKernelPages count).heldAfter k.allocator held reply⟩)
      fun e _ => ∀ P, e.Recovers P := by
  unfold Machine.answerFrames Kernel.allocateKernelPages Allocator.allocateKernelPages
  simp only [ends_bind, ends_get, Kernel.ends_orHalt, ends_modify, ends_pure]
  cases hallocate : k.allocator.allocate count with
  | error halt => exact fun _ => trivial
  | ok p =>
      obtain ⟨f, a⟩ := p
      have hnew := hI.receive h hallocate
      cases f with
      | none => exact hnew
      | some f =>
          cases haddress : a.kernelAddress f with
          | error halt =>
              simp only [haddress]
              exact fun _ => trivial
          | ok address =>
              -- allocating does not move the window
              have hseen : k.allocator.frameAt? address = some f := by
                rw [← Allocator.frameAt?_kernelAddress haddress]
                simp only [Allocator.frameAt?, Allocator.window_allocate hallocate]
              simp only [haddress, FrameRequest.heldAfter, hseen]
              exact hnew

theorem ends_free (hI : Keeps I) (h : I ⟨k, live, held⟩) {f : Frame}
    (honest : ∃ b ∈ held, b.head = f) :
    Ends (Machine.answerFrames (.free f)) k
      (fun reply k' => I ⟨k', live, (FrameRequest.free f).heldAfter k.allocator held reply⟩)
      fun e _ => ∀ P, e.Recovers P := by
  obtain ⟨b, hb, rfl⟩ := honest
  unfold Machine.answerFrames Kernel.free
  simp only [ends_bind, ends_get, Kernel.ends_orHalt, ends_modify, ends_pure]
  cases hfree : k.allocator.free b.head with
  | error halt => exact fun _ => trivial
  | ok a => exact hI (.returned hb hfree) h

theorem ends_freeKernelPages (hI : Keeps I) (h : I ⟨k, live, held⟩) {address : VirtAddr}
    (honest : ∃ b ∈ held, k.allocator.frameAt? address = some b.head) :
    Ends (Machine.answerFrames (.freeKernelPages address)) k
      (fun reply k' =>
        I ⟨k', live, (FrameRequest.freeKernelPages address).heldAfter k.allocator held reply⟩)
      fun e _ => ∀ P, e.Recovers P := by
  obtain ⟨b, hb, hframe⟩ := honest
  unfold Machine.answerFrames Kernel.freeKernelPages
  simp only [ends_bind, ends_get, Kernel.ends_orHalt, ends_modify, ends_pure]
  cases hfree : k.allocator.freeKernelPages address with
  | error halt => exact fun _ => trivial
  | ok a =>
      obtain ⟨f, hf, hback⟩ := Allocator.freeKernelPages_eq_ok hfree
      obtain rfl : f = b.head := Option.some.inj (hf.symm.trans hframe)
      simpa only [FrameRequest.heldAfter, hframe, ne_eq, Option.some.injEq] using
        hI (.returned hb hback) h

/-- The booting phase ends, or the kernel stops. -/
theorem ends_bootstrap (hI : Keeps I) (h : I ⟨k, live, held⟩) (layout : Layout)
    (ignored : Option Nat) :
    Ends (Machine.answerFrames (.bootstrap layout ignored)) k (fun _ k' => I ⟨k', live, held⟩)
      fun e _ => ∀ P, e.Recovers P := by
  have hover : ∀ k' : Kernel, k'.allocator = k.allocator →
      Ends (Kernel.bootstrap layout) k' (fun _ k'' => I ⟨k'', live, held⟩)
        fun e _ => ∀ P, e.Recovers P := by
    intro k' hallocator
    unfold Kernel.bootstrap
    simp only [ends_bind, ends_get, Kernel.ends_orHalt, Kernel.ends_record, ends_modify]
    cases hover : k'.allocator.mapOver layout with
    | error halt => exact fun _ => trivial
    | ok p =>
        cases hholes : p.1.reserveHoles layout.holes with
        | error halt =>
            simp only [hholes]
            exact fun _ => trivial
        | ok a =>
            have hbuilt : k'.allocator.bootstrap layout = .ok (a, p.2) := by
              unfold Allocator.bootstrap
              simp only [hover, hholes]
            simp only [hholes]
            exact hI.of_kernel (hI (.charted hbuilt) (hI.of_kernel h hallocator)) rfl
  unfold Machine.answerFrames Kernel.reportIgnored
  cases ignored with
  | none =>
      simp only [ends_bind, ends_pure, ends_get]
      exact hover k rfl
  | some limit =>
      simp only [ends_bind, Kernel.ends_record, ends_pure, ends_get]
      exact hover _ rfl

theorem ends_answerFrames (hI : Keeps I) (h : I ⟨k, live, held⟩) (r : FrameRequest)
    (honest : r.IsHonest k.allocator held) :
    Ends (Machine.answerFrames r) k
      (fun reply k' => I ⟨k', live, r.heldAfter k.allocator held reply⟩)
      fun e _ => ∀ P, e.Recovers P := by
  cases r with
  | allocate count => exact hI.ends_allocate h count
  | allocateKernelPages count => exact hI.ends_allocateKernelPages h count
  | free f => exact hI.ends_free h honest
  | freeKernelPages address => exact hI.ends_freeKernelPages h honest
  | reserve base length =>
      unfold Machine.answerFrames Kernel.reserve
      simp only [ends_bind, ends_get, Kernel.ends_orHalt, ends_modify, ends_pure]
      cases hreserve : k.allocator.reserve base length with
      | error halt => exact fun _ => trivial
      | ok a => exact hI (.reserved hreserve) h
  | mapFrom firstFree totalSize =>
      unfold Machine.answerFrames Kernel.mapFrom
      simp only [ends_bind, ends_get, Kernel.ends_orHalt, ends_modify, Kernel.ends_record,
        ends_pure]
      cases hbuilt : k.allocator.mapFrom firstFree totalSize with
      | error halt => exact fun _ => trivial
      | ok p => exact hI.of_kernel (hI (.mapped hbuilt) h) rfl
  | bootstrap layout ignored => exact hI.ends_bootstrap h layout ignored
  | kernelAddress f =>
      unfold Machine.answerFrames
      simp only [ends_bind, ends_get, Kernel.ends_orHalt, ends_pure]
      split
      · exact h
      · exact fun _ => trivial
  | entry f =>
      unfold Machine.answerFrames
      cases hentry : k.allocator.entry? f with
      | none =>
          simp only [ends_bind, ends_get, hentry, ends_pure]
          exact h
      | some e =>
          simp only [ends_bind, ends_get, hentry, Kernel.ends_orHalt, ends_pure]
          split
          · exact h
          · exact fun _ => trivial
  -- all others look only, or change bytes
  | isInitialized => exact h
  | state f => exact h
  | stretches => exact h
  | peek a count => exact h
  | poke a bytes => exact hI.of_kernel h rfl
  | zero f => exact hI.of_kernel h rfl
  | copy target source => exact hI.of_kernel h rfl

theorem through_answerCache (hI : Keeps I) (h : I ⟨k, live, held⟩) (r : CacheRequest) :
    Through I (Machine.answerCache r) k live (fun _ => live) held := by
  cases r with
  | reserveSpaceId => exact hI.of_kernel h rfl
  | insert e =>
      unfold Through Machine.answerCache Kernel.cacheMapping
      simp only [ends_bind, ends_get, Kernel.ends_orFail, ends_modify, Kernel.ends_record,
        ends_pure]
      split
      · exact hI.of_kernel h rfl
      · exact h
  | lookup space a => exact h
  | invalidate space => exact hI.of_kernel h rfl
  | invalidateAll => exact hI.of_kernel h rfl
  | entries => exact h

end Deal.Keeps

/-! ### Requests to the machine -/

/-- After a request that is turned away or fails `P` holds; after a halt nothing is known. -/
def Refusal.Recovers (P : Prop) : Refusal → Prop
  | .unknownName => P
  | .aborted e => e.Recovers P

namespace Machine

/-- The holdings of a machine whose callers hold these blocks. -/
def holdings (m : Machine) (held : List Block) : Holdings := ⟨m.kernel, m.live, held⟩

/-- **Carrying.**  However the operation ends, `I` holds of the machine, with the same blocks. -/
def Carries {α : Type} (I : Holdings → Prop) (x : MachineM α) (m : Machine) (held : List Block) :
    Prop :=
  Ends x m (fun _ m' => I (m'.holdings held)) fun e m' => e.Recovers (I (m'.holdings held))

variable {I : Holdings → Prop} {m : Machine} {held : List Block}

/-- A kernel operation, and then a space more. -/
theorem carries_addSpace {α β : Type} {x : KernelM α} {t : α → AddressSpace} (hI : Deal.Keeps I)
    (hx : Deal.Keeps.Through I x m.kernel m.live (fun a => t a :: m.live) held) (f : α → Nat → β) :
    Carries I (onKernel x >>= fun a => addSpace (t a) >>= fun i => pure (f a i)) m held := by
  unfold Carries
  simp only [ends_bind, ends_onKernel, ends_addSpace, ends_pure]
  exact Ends.mono hx
    (fun a k h => hI.perm_live h (perm_addSpace { m with kernel := k } (t a)).symm) fun _ _ h => h

/-- A kernel operation, and then a process more. -/
theorem carries_addProcess {α β : Type} {x : KernelM α} {p : α → Process} (hI : Deal.Keeps I)
    (hx : Deal.Keeps.Through I x m.kernel m.live (fun a => (p a).spaces ++ m.live) held)
    (f : α → Nat → β) :
    Carries I (onKernel x >>= fun a => addProcess (p a) >>= fun i => pure (f a i)) m held := by
  unfold Carries
  simp only [ends_bind, ends_onKernel, ends_addProcess, ends_pure]
  exact Ends.mono hx
    (fun a k h => hI.perm_live h (perm_addProcess { m with kernel := k } (p a)).symm) fun _ _ h => h

/-- A kernel operation on a process, which is replaced then. -/
theorem carries_putProcess {α β : Type} {n : Nat} {p : Process} (hI : Deal.Keeps I)
    (h : I (m.holdings held)) (hp : m.processes[n]? = some p) {x : KernelM α} {q : α → Process}
    (hx : ∀ rest, I ⟨m.kernel, p.spaces ++ rest, held⟩ →
      Deal.Keeps.Through I x m.kernel (p.spaces ++ rest) (fun a => (q a).spaces ++ rest) held)
    (f : α → β) :
    Carries I (onKernel x >>= fun a => putProcess n (q a) >>= fun _ => pure (f a)) m held := by
  obtain ⟨rest, hold, hnew⟩ := exists_perm_process hp
  unfold Carries
  simp only [ends_bind, ends_onKernel, ends_putProcess, ends_pure]
  refine Ends.mono (hx rest (hI.perm_live h hold)) (fun a k h' => hI.perm_live h' (hnew (q a)).symm)
    fun e k h' => ?_
  cases e with
  | failed error => exact hI.perm_live h' hold.symm
  | halted halt => trivial

/-- A space that belongs to nobody is taken, and something is done with it. -/
theorem carries_takeSpace {α : Type} {n : Nat} {f : AddressSpace → MachineM α} (hI : Deal.Keeps I)
    (h : I (m.holdings held))
    (hf : ∀ s m', I ⟨m'.kernel, s :: m'.live, held⟩ → Carries I (f s) m' held) :
    Carries I (takeSpace n >>= f) m held := by
  unfold Carries
  rw [ends_bind]
  refine ends_takeSpace (fun s hs => ?_) h
  obtain ⟨rest, hold, hnew⟩ := exists_perm_space hs
  exact hf s _ (hI.perm_live h (hold.trans ((hnew none).symm.cons s)))

theorem carries_process {α : Type} {n : Nat} {f : Process → MachineM α} (h : I (m.holdings held))
    (hf : ∀ p, m.processes[n]? = some p → Carries I (f p) m held) :
    Carries I (process n >>= f) m held := by
  unfold Carries
  rw [ends_bind]
  exact ends_process hf h

theorem carries_onSpace (hI : Deal.Keeps I) (h : I (m.holdings held)) (name : SpaceName)
    (r : SpaceRequest) : Carries I (onSpace name (answerSpace r)) m held := by
  refine ends_onSpace (fun s hs => ?_) h
  obtain ⟨rest, hold, hnew⟩ := exists_perm_putSpace hs
  have hfront : I ⟨m.kernel, s :: rest, held⟩ := hI.perm_live h hold
  have hwalk : Wanders (answerSpace r) ⟨m.kernel, s⟩ := wanders_answerSpace r
  refine Ends.mono hwalk (fun _ w h' => ?_) fun e w h' => ?_
  · exact hI.perm_live (hI.path hfront h'.1) (hnew w.space).symm
  · cases e with
    | failed error => exact hI.perm_live (hI.path hfront h'.1) (hnew w.space).symm
    | halted halt => trivial

theorem carries_answerFault (hI : Deal.Keeps I) (h : I (m.holdings held)) (who : Faulter)
    (access : Access) (a : VirtAddr) : Carries I (answerFault who access a) m held := by
  unfold Carries answerFault
  simp only [ends_bind, ends_get, ends_orUnknown]
  split
  · next c hc =>
      simp only [liftM_eq, ends_onKernel, ends_modify]
      by_cases hwithin : ∃ s, c = .within s
      · obtain ⟨s, rfl⟩ := hwithin
        obtain ⟨name, rfl, hs⟩ := exists_of_current? hc
        obtain ⟨rest, hold, hnew⟩ := exists_perm_putSpace hs
        have hfront : I ⟨m.kernel, s :: rest, held⟩ := hI.perm_live h hold
        refine Ends.mono (hI.ends_handle hfront access a) ?_ fun e _ h' => h' _
        rintro ⟨outcome, c⟩ k' ⟨s', rfl, h'⟩
        have hback : I ⟨k', (m.putSpace name s').live, held⟩ := hI.perm_live h' (hnew s').symm
        cases name <;> cases outcome <;> exact hback
      · have hc' : ∀ s, c ≠ .within s := fun s hs => hwithin ⟨s, hs⟩
        refine Ends.mono (hI.ends_handle_without h access a hc') ?_ fun _ _ h' => h'.elim
        rintro ⟨outcome, c⟩ k' ⟨rfl, h'⟩
        rw [putCurrent_of_ne hc']
        cases outcome with
        | error e => exact h'
        | ok _ =>
            cases c with
            | idle => exact h'
            | bare => exact h'
            | within s => exact absurd rfl (hc' s)
  · exact h

theorem carries_fork (hI : Deal.Keeps I) (h : I (m.holdings held)) (n : Nat) :
    Carries I (fork n) m held :=
  carries_process h fun p _ => carries_addProcess hI (p := id) (hI.through_fork h p) _

theorem carries_answerProcess (hI : Deal.Keeps I) (h : I (m.holdings held)) (n : Nat)
    (r : ProcessRequest) : Carries I (answerProcess n r) m held := by
  refine carries_process h fun p hp => ?_
  have hput : ∀ {x : KernelM Process}, (∀ rest, I ⟨m.kernel, p.spaces ++ rest, held⟩ →
      Deal.Keeps.Through I x m.kernel (p.spaces ++ rest) (fun q => q.spaces ++ rest) held) →
      Carries I (onKernel x >>= fun q => putProcess n q >>= fun _ => pure (Reply.process q)) m
        held :=
    fun hx => carries_putProcess hI h hp (q := id) hx _
  cases r with
  | run => exact hput fun _ h' => hI.through_run p h'
  | preempt => exact hput fun _ h' => hI.through_preempt p h'
  | exit status => exact hput fun _ h' => hI.through_exit p status h'
  | setState state => exact hput (x := pure { p with state }) fun _ h' => h'
  | inspect => exact h
  | killOnFault e =>
      exact carries_putProcess hI h hp (q := Prod.snd)
        (fun _ h' => hI.through_killOnFault p e h') _

end Machine

namespace History

variable {I : Holdings → Prop} {start h : History} {rs : List Request} {r : Request}

/-- The holdings of a history. -/
def holdings (h : History) : Holdings := h.machine.holdings h.held

/-- **Serving a request** keeps `I`, unless the machine stops. -/
def Upholds (I : Holdings → Prop) (h : History) (r : Request) : Prop :=
  Ends (Machine.answer r) h.machine
    (fun reply m => I (m.holdings (h.heldAfter r (.ok reply))))
    fun e m => e.Recovers (I (m.holdings h.held))

/-- Requests that leave the blocks of callers alone. -/
theorem upholds_of_carries (hheld : ∀ reply, h.heldAfter r (.ok reply) = h.held)
    (hcarries : Machine.Carries I (Machine.answer r) h.machine h.held) : h.Upholds I r := by
  refine Ends.mono hcarries (fun reply m hm => ?_) fun _ _ hm => hm
  rw [hheld]
  exact hm

/-- **Every permitted request** keeps what every dealing keeps. -/
theorem upholds (hI : Deal.Keeps I) (hh : I h.holdings) (permitted : h.Permits r) :
    h.Upholds I r := by
  cases r with
  | frames r =>
      unfold Upholds Machine.answer
      simp only [Machine.liftM_eq, Machine.ends_onKernel]
      exact Ends.mono (hI.ends_answerFrames hh r permitted) (fun _ _ hm => hm) fun _ _ hm => hm _
  | cache r =>
      refine upholds_of_carries (fun _ => rfl) ?_
      unfold Machine.Carries Machine.answer
      simp only [Machine.liftM_eq, Machine.ends_onKernel]
      exact hI.through_answerCache hh r
  | createTable capacity =>
      refine upholds_of_carries (fun _ => rfl) ?_
      unfold Machine.Carries Machine.answer Machine.createTable
      simp only [ends_bind, Machine.liftM_eq, Machine.ends_onKernel, Kernel.ends_orFail]
      split
      · simp only [Kernel.ends_claim, ends_modifyGet, ends_pure]
        split
        · exact hI.of_kernel hh rfl
        · exact hI.of_kernel hh rfl
      · exact hh
  | table n r => exact permitted.elim
  | createSpace =>
      exact upholds_of_carries (fun _ => rfl)
        (Machine.carries_addSpace hI (t := id) (hI.through_create hh) _)
  | duplicateSpace name =>
      refine upholds_of_carries (fun _ => rfl) ?_
      unfold Machine.Carries Machine.answer
      simp only [ends_bind, ends_get, Machine.ends_orUnknown]
      split
      · next s _ =>
          have hcopy := Machine.carries_addSpace hI (t := id) (hI.through_duplicate hh s)
            fun copy n => Reply.spaceCreated n copy.id
          simp only [Machine.Carries, ends_bind] at hcopy
          exact hcopy
      · exact hh
  | destroySpace n =>
      refine upholds_of_carries (fun _ => rfl) ?_
      refine Machine.carries_takeSpace hI hh fun s m' hm' => ?_
      unfold Machine.Carries
      simp only [ends_bind, Machine.liftM_eq, Machine.ends_onKernel, ends_pure]
      exact Ends.mono (hI.ends_destroy hm') (fun _ _ h' => h') fun _ _ h' => h' _
  | space name r => exact upholds_of_carries (fun _ => rfl) (Machine.carries_onSpace hI hh name r)
  | fault who access a =>
      exact upholds_of_carries (fun _ => rfl) (Machine.carries_answerFault hI hh who access a)
  | startProgram segments entryPoint =>
      exact upholds_of_carries (fun _ => rfl)
        (Machine.carries_addProcess hI (p := id) (hI.through_start hh segments entryPoint) _)
  | createProcess n entryPoint stackPointer =>
      exact upholds_of_carries (fun _ => rfl) <| Machine.carries_takeSpace hI hh fun s m' hm' =>
        Machine.carries_addProcess hI (p := id)
          (Ends.mono (hI.ends_createProcess hm' entryPoint stackPointer) (fun _ _ h' => h')
            fun _ _ h' => h'.elim) _
  | forkWith n space =>
      exact upholds_of_carries (fun _ => rfl) <| Machine.carries_process hh fun parent _ =>
        Machine.carries_takeSpace hI hh fun s m' hm' =>
          Machine.carries_addProcess hI (p := id)
            (Ends.mono (hI.ends_forkWith hm' parent) (fun _ _ h' => h') fun _ _ h' => h'.elim) _
  | fork n =>
      refine upholds_of_carries (fun _ => rfl) ?_
      unfold Machine.Carries Machine.answer
      simp only [ends_bind, ends_pure]
      exact Machine.carries_fork hI hh n
  | forkCall n =>
      exact upholds_of_carries (fun _ => rfl)
        (Machine.ends_forkCall (Machine.carries_fork hI hh n) fun _ _ hfailed => hfailed)
  | process n r =>
      exact upholds_of_carries (fun _ => rfl) (Machine.carries_answerProcess hI hh n r)

/-- **What one request keeps.** -/
theorem kept_next (hI : Deal.Keeps I) (hh : I h.holdings) (permitted : h.Permits r)
    (alive : Machine.hasHalted (h.machine.step r).1 = false) : I (h.next r).holdings := by
  unfold next holdings
  rcases Machine.step_cases (upholds hI hh permitted) with
    ⟨reply, m', hstep, hm'⟩ | ⟨e, m', hstep, hm'⟩
  · rw [hstep]
    exact hm'
  · -- without a reply nobody is given anything, and nothing is taken back
    have hsame : h.heldAfter r (.error e) = h.held := by cases r <;> rfl
    rw [hstep] at alive ⊢
    rw [hsame]
    rcases e with _ | ⟨e | halt⟩
    · exact hm'
    · exact hm'
    · cases alive

/-- **What a run keeps**, by induction on its requests. -/
theorem Run.kept (run : Run start rs h) (hI : Deal.Keeps I) (hstart : I start.holdings) :
    I h.holdings := by
  induction run with
  | start => exact hstart
  | next _ r permitted alive ih => exact kept_next hI ih permitted alive

end History

end DemandPaging
