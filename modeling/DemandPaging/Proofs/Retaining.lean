import DemandPaging.Proofs.Ending
import DemandPaging.Process.Fork
import DemandPaging.Process.Program

/-!
# What operations leave alone

Most operations have no business with most of the kernel.  Building a space, loading a program and
copying take frames and write bytes, but no mapping is cached by them.  Dropping mappings, giving a
space up and ending a process write no bytes.  `Retains` says that a part of the state is the same
however an operation ends, and it goes through sequences, so there is one line for each operation.

**One part or another.**  Reports, answers of the heap, frames changing hands and numbers given away
concern neither memory nor the cache.  What is composed of these alone retains both
(`Kernel.IsSettled`).
-/

namespace DemandPaging

/-- **Retains.**  However the operation ends, the part of the state is what it was. -/
def Retains {ε σ α β : Type} (x : EStateM ε σ α) (part : σ → β) : Prop :=
  ∀ s, Ends x s (fun _ s' => part s' = part s) fun _ s' => part s' = part s

section Sequencing

variable {ε σ α β γ : Type} {part : σ → γ}

theorem retains_pure (a : α) : Retains (pure a : EStateM ε σ α) part := fun _ => rfl

theorem retains_throw (e : ε) : Retains (throw e : EStateM ε σ α) part := fun _ => rfl

theorem retains_get : Retains (get : EStateM ε σ σ) part := fun _ => rfl

theorem retains_modify {f : σ → σ} (h : ∀ s, part (f s) = part s) :
    Retains (modify f : EStateM ε σ PUnit) part := h

theorem retains_modifyGet {f : σ → α × σ} (h : ∀ s, part (f s).2 = part s) :
    Retains (modifyGet f : EStateM ε σ α) part := h

/-- One operation after another. -/
theorem Retains.bind {x : EStateM ε σ α} {f : α → EStateM ε σ β} (hx : Retains x part)
    (hf : ∀ a, Retains (f a) part) : Retains (x >>= f) part := by
  intro s
  rw [ends_bind]
  refine Ends.mono (hx s) (fun a s₁ h₁ => ?_) fun _ _ h => h
  exact Ends.mono (hf a s₁) (fun _ _ h => h.trans h₁) fun _ _ h => h.trans h₁

theorem Retains.ite {c : Prop} [Decidable c] {x y : EStateM ε σ α} (hx : Retains x part)
    (hy : Retains y part) : Retains (if c then x else y) part := by
  split
  · exact hx
  · exact hy

theorem Retains.discard {x : EStateM ε σ α} (hx : Retains x part) :
    Retains (discard x) part := by
  intro s
  exact (ends_discard x).mpr (hx s)

end Sequencing

namespace Retains

variable {α β : Type} {part : Kernel → β}

/-! ### Operations on a part -/

theorem onKernel {x : KernelM α} (h : Retains x part) :
    Retains (SpaceM.onKernel x) fun w => part w.kernel := by
  intro w
  rw [SpaceM.ends_onKernel]
  exact h w.kernel

/-- Cleaning up as well. -/
theorem cleaningUp {x : SpaceM α} {undo : KernelM Unit} (h : Retains x fun w => part w.kernel)
    (hundo : Retains undo part) : Retains (x.cleaningUp undo) fun w => part w.kernel := by
  intro w
  rw [SpaceM.ends_cleaningUp]
  refine Ends.mono (h w) (fun _ _ h₁ => h₁) fun e w₁ h₁ => ?_
  cases e with
  | failed e =>
      exact Ends.mono (hundo w₁.kernel) (fun _ _ h₂ => h₂.trans h₁) fun _ _ h₂ => h₂.trans h₁
  | halted halt => exact h₁

theorem space : Retains SpaceM.space fun w => part w.kernel := fun _ => rfl

theorem modifySpace (f : AddressSpace → AddressSpace) :
    Retains (SpaceM.modifySpace f) fun w => part w.kernel := fun _ => rfl

theorem attempt {x : SpaceM α} (h : Retains x fun w => part w.kernel) (s : AddressSpace) :
    Retains (x.attempt s) part := by
  intro k
  rw [SpaceM.ends_attempt]
  refine Ends.mono (h ⟨k, s⟩) (fun _ _ h₁ => h₁) fun e w h₁ => ?_
  cases e <;> exact h₁

end Retains

namespace Kernel

variable {α β : Type} {part : Kernel → β}

/-- **Settled parts** of the kernel: reports, answers of the heap, frames changing hands and new
numbers are no concern of theirs. -/
structure IsSettled (part : Kernel → β) : Prop where
  journal : ∀ k j, part { k with journal := j } = part k
  heap : ∀ k answers, part { k with heap := answers } = part k
  allocator : ∀ k a, part { k with allocator := a } = part k
  nextSpace : ∀ k n, part { k with nextSpace := n } = part k
  nextPid : ∀ k n, part { k with nextPid := n } = part k

theorem isSettled_memory : IsSettled Kernel.memory :=
  ⟨fun _ _ => rfl, fun _ _ => rfl, fun _ _ => rfl, fun _ _ => rfl, fun _ _ => rfl⟩

theorem isSettled_cache : IsSettled Kernel.cache :=
  ⟨fun _ _ => rfl, fun _ _ => rfl, fun _ _ => rfl, fun _ _ => rfl, fun _ _ => rfl⟩

theorem retains_fail (e : MemoryError) : Retains (fail e : KernelM α) part := retains_throw _

theorem retains_orHalt (x : Except Halt α) : Retains (orHalt x) part := by
  cases x with
  | ok a => exact retains_pure a
  | error h => exact retains_throw _

theorem retains_orFail (x : Except MemoryError α) : Retains (orFail x) part := by
  cases x with
  | ok a => exact retains_pure a
  | error h => exact retains_throw _

theorem retains_orAbort (x : Except Abort α) : Retains (orAbort x) part := by
  cases x with
  | ok a => exact retains_pure a
  | error h => exact retains_throw _

section Settled

variable (h : IsSettled part)

include h

theorem retains_record (e : Event) : Retains (record e) part :=
  retains_modify fun k => h.journal k _

theorem retains_ask (room : Nat) : Retains (ask room) part :=
  retains_modifyGet fun k => h.heap k _

theorem retains_claim (room : Nat) : Retains (claim room) part :=
  .bind (retains_ask h room) fun _ => .ite (retains_pure _) (retains_fail _)

theorem retains_allocate (count : Nat) : Retains (allocate count) part :=
  .bind retains_get fun _ => .bind (retains_orHalt _) fun _ =>
    .bind (retains_modify fun k => h.allocator k _) fun _ => retains_pure _

theorem retains_free (f : Frame) : Retains (free f) part :=
  .bind retains_get fun _ => .bind (retains_orHalt _) fun _ =>
    retains_modify fun k => h.allocator k _

theorem retains_freshSpace : Retains freshSpace part := retains_modifyGet fun k => h.nextSpace k _

theorem retains_freshPid : Retains freshPid part := retains_modifyGet fun k => h.nextPid k _

end Settled

end Kernel

/-! ### What touches neither memory nor the cache -/

section Settled

variable {β : Type} {part : Kernel → β} (h : Kernel.IsSettled part)

include h

theorem PageTable.retains_freeEntries :
    ∀ es : List PageEntry, Retains (freeEntries es) part
  | [] => retains_pure ()
  | e :: rest => .bind (Kernel.retains_free h e.frame) fun _ => retains_freeEntries rest

theorem AddressSpace.retains_destroy (s : AddressSpace) : Retains s.destroy part :=
  .bind (Kernel.retains_record h _) fun _ =>
    .bind (PageTable.retains_freeEntries h _) fun _ => Kernel.retains_record h _

theorem AddressSpace.retains_create : Retains create part :=
  .bind (Kernel.retains_claim h _) fun _ => .bind (Kernel.retains_claim h _) fun _ =>
    .bind (Kernel.retains_freshSpace h) fun _ => retains_pure _

theorem Process.retains_create (s : AddressSpace) (entryPoint stackPointer : VirtAddr) :
    Retains (create s entryPoint stackPointer) part :=
  .bind (Kernel.retains_freshPid h) fun _ =>
    .bind (Kernel.retains_record h _) fun _ => retains_pure _

theorem Process.retains_forkWith (parent : Process) (s : AddressSpace) :
    Retains (parent.forkWith s) part :=
  .bind (retains_create h s _ _) fun _ => retains_pure _

end Settled

/-! ### What touches no memory -/

theorem Kernel.retains_cacheMapping (e : CacheEntry) : Retains (cacheMapping e) Kernel.memory :=
  retains_get.bind fun _ => (retains_orFail _).bind fun _ =>
    Retains.bind (retains_modify fun _ => rfl) fun _ =>
      (retains_record isSettled_memory _).bind fun _ => retains_pure _

namespace Process

theorem retains_invalidate (p : Process) : Retains p.invalidate Kernel.memory := by
  unfold invalidate
  split
  · exact retains_modify fun _ => rfl
  · exact retains_pure _

theorem retains_run (p : Process) : Retains p.run Kernel.memory :=
  .bind (retains_invalidate p) fun _ => retains_pure _

theorem retains_preempt (p : Process) : Retains p.preempt Kernel.memory :=
  .bind (retains_invalidate p) fun _ => retains_pure _

theorem retains_surrender (p : Process) : Retains p.surrender Kernel.memory := by
  unfold surrender
  split
  · next s _ =>
      exact .bind (retains_modify fun _ => rfl) fun _ =>
        AddressSpace.retains_destroy Kernel.isSettled_memory s
  · exact retains_pure _

theorem retains_exit (p : Process) (status : Int) : Retains (p.exit status) Kernel.memory :=
  .bind (retains_surrender p) fun _ =>
    .bind (Kernel.retains_record Kernel.isSettled_memory _) fun _ => retains_pure _

theorem retains_killOnFault (p : Process) (e : MemoryError) :
    Retains (p.killOnFault e) Kernel.memory := by
  unfold killOnFault
  split
  · exact .bind (Kernel.retains_record Kernel.isSettled_memory _) fun _ =>
      .bind (retains_exit p _) fun _ => retains_pure _
  · exact retains_pure _

end Process

/-! ### What touches no cache -/

namespace AddressSpace

open SpaceM Retains

/-- What a space's operation does not do to the cache. -/
abbrev RetainsCache {α : Type} (x : SpaceM α) : Prop := Retains x fun w => w.kernel.cache

theorem retains_record (e : Event) : RetainsCache (SpaceM.onKernel (Kernel.record e)) :=
  onKernel (Kernel.retains_record Kernel.isSettled_cache e)

theorem retains_addEntry (e : PageEntry) : RetainsCache (addEntry e) := by
  refine bind space fun s => bind (onKernel (Kernel.retains_ask Kernel.isSettled_cache _))
    fun granted => bind space fun s => bind (onKernel (Kernel.retains_orAbort _)) fun p => ?_
  refine bind (modifySpace _) fun _ => ?_
  cases p.2 with
  | some n => exact retains_record _
  | none => exact retains_pure _

theorem retains_mapZeroed (p : Page) (flags : EntryFlags) : RetainsCache (mapZeroed p flags) := by
  refine bind (onKernel (Kernel.retains_allocate Kernel.isSettled_cache 1)) fun found => ?_
  cases found with
  | none => exact onKernel (Kernel.retains_fail _)
  | some f =>
      exact bind (onKernel (retains_modify fun _ => rfl)) fun _ =>
        bind (cleaningUp (retains_addEntry _) (Kernel.retains_free Kernel.isSettled_cache f))
          fun _ => retains_pure _

theorem retains_ensureMapped (p : Page) (flags : EntryFlags) :
    RetainsCache (ensureMapped p flags) := by
  refine bind space fun s => ?_
  split
  · exact retains_pure _
  · exact (retains_mapZeroed p flags).discard

theorem retains_backPagesFrom (r : Region) :
    ∀ (i n : Nat) (h : i + n ≤ r.pageCount), RetainsCache (backPagesFrom r i n h)
  | _, 0, _ => retains_pure _
  | i, n + 1, _ => bind (retains_ensureMapped _ _) fun _ => retains_backPagesFrom r (i + 1) n _

theorem retains_backRegions : ∀ rs : List Region, RetainsCache (backRegions rs)
  | [] => retains_pure _
  | r :: rest => bind (retains_backPagesFrom r 0 _ _) fun _ => retains_backRegions rest

theorem retains_prepareLoad : RetainsCache prepareLoad := by
  unfold prepareLoad
  refine bind (modifySpace _) fun _ => bind space fun _ => ?_
  refine bind (retains_backRegions _) fun _ => ?_
  refine bind (retains_ensureMapped _ _) fun _ => ?_
  refine bind (modifySpace _) fun _ => bind space fun _ => ?_
  refine bind (retains_ensureMapped _ _) fun _ => ?_
  refine bind (modifySpace _) fun _ => bind space fun _ => ?_
  exact retains_record _

theorem retains_declareRegion (a : VirtAddr) (size : Nat) (permission : Permission) :
    RetainsCache (declareRegion a size permission) := by
  unfold declareRegion
  refine bind space fun s => ?_
  have hdeclare : RetainsCache (do
      let r ← SpaceM.onKernel (Kernel.orFail (Region.declare a size permission))
      SpaceM.onKernel (Kernel.record (.regionDeclared r))
      SpaceM.onKernel (Kernel.claim (← SpaceM.space).regions.wanted)
      modifySpace fun s => { s with regions := s.regions.push r }) :=
    bind (onKernel (Kernel.retains_orFail _)) fun r => bind (retains_record _) fun _ =>
      bind space fun _ => bind (onKernel (Kernel.retains_claim Kernel.isSettled_cache _))
        fun _ => modifySpace _
  exact ite (bind (onKernel (retains_throw _)) fun _ => hdeclare) hdeclare

theorem retains_copyEntry (e : PageEntry) : RetainsCache (copyEntry e) := by
  refine bind ?_ fun f => bind (onKernel (retains_modify fun _ => rfl)) fun _ => modifySpace _
  refine bind space fun s => ?_
  split
  · exact retains_pure _
  · exact retains_mapZeroed _ _

theorem retains_copyEntries : ∀ es : List PageEntry, RetainsCache (copyEntries es)
  | [] => retains_pure _
  | e :: rest => bind (retains_copyEntry e) fun _ => retains_copyEntries rest

theorem retains_copyFrom (source : AddressSpace) : RetainsCache (copyFrom source) := by
  have hcopy : RetainsCache (do
      copyEntries source.table.entries
      modifySpace fun s => { s with bounds := source.bounds, loaded := source.loaded }) :=
    bind (retains_copyEntries _) fun _ => modifySpace _
  exact ite (bind retains_prepareLoad fun _ => hcopy) hcopy

/-- Writing piece after piece concerns the memory alone, by induction on the pieces. -/
theorem retains_writeFrom {β : Type} {part : Kernel → β}
    (hpart : ∀ k memory, part { k with memory } = part k) (s : AddressSpace) (a : VirtAddr)
    (done : Nat) (bytes : List UInt8) : Retains (s.writeFrom a done bytes) part := by
  induction done, bytes using writeFrom.induct s a with
  | case1 done =>
      rw [writeFrom, dif_pos rfl]
      exact retains_pure _
  | case2 done bytes hbytes e hpiece =>
      rw [writeFrom, dif_neg hbytes]
      split
      · exact retains_throw _
      · next p hpiece' =>
          rw [hpiece] at hpiece'
          cases hpiece'
  | case3 done bytes hbytes p hpiece ih =>
      rw [writeFrom, dif_neg hbytes]
      split
      · exact retains_throw _
      · next p' hpiece' =>
          obtain rfl : p = p' := Except.ok.inj (hpiece.symm.trans hpiece')
          exact bind (retains_modify fun k => hpart k _) fun _ => ih

/-- Duplicating caches nothing. -/
theorem retains_duplicate (source : AddressSpace) : Retains source.duplicate Kernel.cache := by
  refine bind (Kernel.retains_claim Kernel.isSettled_cache _) fun _ => ?_
  refine bind (Kernel.retains_claim Kernel.isSettled_cache _) fun _ => ?_
  refine bind (Kernel.retains_freshSpace Kernel.isSettled_cache) fun id => ?_
  refine bind (attempt (retains_copyFrom source) _) fun p => ?_
  obtain ⟨outcome, s⟩ := p
  cases outcome with
  | ok _ => exact bind (Kernel.retains_record Kernel.isSettled_cache _) fun _ => retains_pure _
  | error e =>
      exact bind (Kernel.retains_record Kernel.isSettled_cache _) fun _ =>
        bind (retains_destroy Kernel.isSettled_cache s) fun _ => Kernel.retains_fail e

end AddressSpace

/-- Forking caches nothing. -/
theorem Process.retains_fork (parent : Process) : Retains parent.fork Kernel.cache := by
  unfold fork
  split
  · exact Kernel.retains_fail _
  · next s _ =>
      exact (AddressSpace.retains_duplicate s).bind fun copy =>
        (retains_forkWith Kernel.isSettled_cache parent copy).bind fun child =>
          (Kernel.retains_record Kernel.isSettled_cache _).bind fun _ => retains_pure _

namespace Program

open AddressSpace SpaceM Retains

theorem retains_declareAll : ∀ segments : List Segment, RetainsCache (declareAll segments)
  | [] => retains_pure _
  | _ :: rest => bind (retains_declareRegion _ _ _) fun _ => retains_declareAll rest

theorem retains_writeAll : ∀ segments : List Segment, RetainsCache (writeAll segments)
  | [] => retains_pure _
  | _ :: rest => bind space fun s =>
      bind (onKernel (retains_writeFrom (fun _ _ => rfl) s _ 0 _)) fun _ => retains_writeAll rest

theorem retains_load (segments : List Segment) : RetainsCache (load segments) :=
  bind (retains_declareAll segments) fun _ => bind retains_prepareLoad fun _ =>
    bind (retains_writeAll segments) fun _ => bind (modifySpace _) fun _ =>
      bind space fun _ => retains_pure _

/-- Starting a program caches nothing. -/
theorem retains_start (segments : List Segment) (entryPoint : VirtAddr) :
    Retains (start segments entryPoint) Kernel.cache := by
  refine bind (retains_create Kernel.isSettled_cache) fun s => ?_
  refine bind (attempt (retains_load segments) s) fun p => ?_
  obtain ⟨outcome, s'⟩ := p
  cases outcome with
  | ok stackPointer =>
      exact bind (Process.retains_create Kernel.isSettled_cache s' entryPoint stackPointer) fun _ =>
        bind (Kernel.retains_record Kernel.isSettled_cache _) fun _ => retains_pure _
  | error e =>
      exact bind (retains_destroy Kernel.isSettled_cache s') fun _ => Kernel.retains_fail e

end Program

end DemandPaging
