import DemandPaging.Proofs.Answering
import DemandPaging.Proofs.Faults
import DemandPaging.Proofs.Retaining

/-!
# Turns of processes

What becomes of processes and of cached mappings when programs are started, processes are forked,
put on the processor and taken off it, fault and end, while other parts of the kernel take and give
back frames.  There is not much that such a request can do (`Turn`): a process joins the others, or
one of them is replaced, and the cache gains the mapping of a fault, or loses those of one space.

**Failing is a turn, too.**  A request that fails, half way or at once, leaves the machine as some
turn does, so whoever goes through the turns has all runs covered (`Machine.turns_answer`).
-/

namespace DemandPaging

/-- Requests about processes, and those of other parts of the kernel about frames. -/
def Request.isOfProcesses : Request → Bool
  | .frames _ | .startProgram _ _ | .fork _ | .forkCall _ | .process _ _
  | .fault (.owner (.process _)) _ _ => true
  | _ => false

/-- What is left in the cache when everything cached for the process is dropped. -/
def Process.dropFrom (p : Process) (c : MappingCache) : MappingCache :=
  match p.space with
  | some s => c.invalidate s.id
  | none => c

namespace Machine

/-- **Turns**: what a request about processes makes of the processes and the cache. -/
inductive Turn (m : Machine) : Request → Machine → Prop where
  | idle {r : Request} {m' : Machine} (processes : m'.processes = m.processes)
      (cache : m'.kernel.cache = m.kernel.cache) : Turn m r m'
  | started {segments : List Segment} {entryPoint : VirtAddr} {p : Process} {m' : Machine}
      (made : Program.start segments entryPoint m.kernel = .ok p m'.kernel)
      (running : p.exitStatus = none) (processes : m'.processes = m.processes ++ [p])
      (cache : m'.kernel.cache = m.kernel.cache) : Turn m (.startProgram segments entryPoint) m'
  | forked {r : Request} {n : Nat} {parent child : Process} {m' : Machine}
      (asked : r = .fork n ∨ r = .forkCall n) (found : m.processes[n]? = some parent)
      (made : parent.fork m.kernel = .ok child m'.kernel) (running : child.exitStatus = none)
      (processes : m'.processes = m.processes ++ [child])
      (cache : m'.kernel.cache = m.kernel.cache) : Turn m r m'
  | faulted {n : Nat} {access : Access} {a : VirtAddr} {p : Process} {s s' : AddressSpace}
      {outcome : Except MemoryError Unit} {m' : Machine} (found : m.processes[n]? = some p)
      (within : p.space = some s)
      (handled : PageFault.Handles access a ⟨m.kernel, s⟩ outcome ⟨m'.kernel, s'⟩)
      (processes : m'.processes = m.processes.set n { p with space := some s' }) :
      Turn m (.fault (.owner (.process n)) access a) m'
  | kept {n : Nat} {r : ProcessRequest} {p q : Process} {m' : Machine}
      (found : m.processes[n]? = some p) (space : q.space = p.space)
      (exitStatus : q.exitStatus = p.exitStatus) (processes : m'.processes = m.processes.set n q)
      (cache : m'.kernel.cache = m.kernel.cache ∨ m'.kernel.cache = p.dropFrom m.kernel.cache) :
      Turn m (.process n r) m'
  | ended {n : Nat} {r : ProcessRequest} {p q : Process} {m' : Machine}
      (found : m.processes[n]? = some p) (space : q.space = none)
      (processes : m'.processes = m.processes.set n q)
      (cache : m'.kernel.cache = p.dropFrom m.kernel.cache) : Turn m (.process n r) m'

end Machine

/-! ### What processes do to the cache -/

namespace Process

variable {k : Kernel} (p : Process)

theorem ends_invalidate_cache :
    Ends p.invalidate k (fun _ k' => k'.cache = p.dropFrom k.cache) fun _ _ => False := by
  unfold invalidate dropFrom
  cases p.space with
  | some s => exact rfl
  | none => exact rfl

/-- A process is given up after what is cached of it, so that even a halt comes too late to leave
anything cached. -/
theorem ends_surrender_cache :
    Ends p.surrender k (fun _ k' => k'.cache = p.dropFrom k.cache)
      fun _ k' => k'.cache = p.dropFrom k.cache := by
  unfold surrender dropFrom
  cases p.space with
  | some s =>
      rw [ends_bind]
      exact s.retains_destroy Kernel.isSettled_cache { k with cache := k.cache.invalidate s.id }
  | none => exact rfl

theorem ends_exit_cache (status : Int) :
    Ends (p.exit status) k (fun q k' => q.space = none ∧ k'.cache = p.dropFrom k.cache)
      fun _ k' => k'.cache = p.dropFrom k.cache := by
  unfold exit
  simp only [ends_bind, Kernel.ends_record, ends_pure]
  exact Ends.mono (ends_surrender_cache p) (fun _ _ h => ⟨trivial, h⟩) fun _ _ h => h

theorem ends_killOnFault_cache (e : MemoryError) :
    Ends (p.killOnFault e) k
      (fun q k' => q.2 = p ∧ k'.cache = k.cache ∨
        q.2.space = none ∧ k'.cache = p.dropFrom k.cache)
      fun _ k' => k'.cache = p.dropFrom k.cache := by
  unfold killOnFault
  simp only [ends_ite, ends_bind, Kernel.ends_record, ends_pure]
  split
  · exact Ends.mono (ends_exit_cache p _) (fun _ _ h => Or.inr h) fun _ _ h => h
  · exact Or.inl ⟨trivial, trivial⟩

/-- A new process has not ended. -/
theorem ends_create_running (s : AddressSpace) (entryPoint stackPointer : VirtAddr) :
    Ends (create s entryPoint stackPointer) k (fun p _ => p.exitStatus = none) fun _ _ => True :=
  Ends.last fun _ _ => Ends.last fun _ _ => rfl

/-- Neither has a child. -/
theorem ends_fork_running :
    Ends p.fork k (fun child _ => child.exitStatus = none) fun _ _ => True := by
  unfold fork
  split
  · trivial
  · refine Ends.last fun copy _ => ?_
    simp only [forkWith, ends_bind, Kernel.ends_record, ends_pure]
    exact ends_create_running copy _ _

end Process

theorem Program.ends_start_running {k : Kernel} (segments : List Segment) (entryPoint : VirtAddr) :
    Ends (start segments entryPoint) k (fun p _ => p.exitStatus = none) fun _ _ => True := by
  refine Ends.last fun s _ => Ends.last fun loaded _ => ?_
  obtain ⟨outcome, s'⟩ := loaded
  cases outcome with
  | ok stackPointer =>
      simp only [ends_bind, Kernel.ends_record, ends_pure]
      exact Process.ends_create_running s' entryPoint stackPointer
  | error e => exact Ends.last fun _ _ => trivial

/-- A fault of a process without an address space is answered before the cache is looked at. -/
theorem PageFault.ends_handle_bare (access : Access) (a : VirtAddr) {k : Kernel} :
    Ends (handle access a .bare) k
      (fun p k' => p.2 = .bare ∧ k'.cache = k.cache ∧ p.1 ≠ .error .cacheFull)
      fun _ _ => False := by
  unfold handle
  simp only [ends_bind, Kernel.ends_record, ends_ite, ends_pure]
  split
  · exact ⟨trivial, trivial, fun hfull => by cases hfull⟩
  · exact ⟨trivial, trivial, fun hfull => by cases hfull⟩

namespace Machine

variable {m : Machine} {n : Nat} {s : AddressSpace} {r : Request}

/-! ### Every request takes a turn -/

/-- **Turning.**  However the request ends, it has taken a turn. -/
def Turns {α : Type} (x : MachineM α) (m : Machine) (r : Request) : Prop :=
  Ends x m (fun _ m' => Turn m r m') fun _ m' => Turn m r m'

/-- Taking and giving back frames caches nothing. -/
theorem retains_answerFrames (r : FrameRequest) : Retains (answerFrames r) Kernel.cache := by
  have hrecord := Kernel.retains_record Kernel.isSettled_cache
  have hallocator : ∀ a, Retains (modify fun k => { k with allocator := a } : KernelM PUnit)
      Kernel.cache := fun _ => retains_modify fun _ => rfl
  have hmemory : ∀ f : Memory → Memory, Retains
      (modify fun k => { k with memory := f k.memory } : KernelM PUnit) Kernel.cache :=
    fun _ => retains_modify fun _ => rfl
  cases r with
  | allocate count =>
      exact (Kernel.retains_allocate Kernel.isSettled_cache count).bind fun _ => retains_pure _
  | free f => exact (Kernel.retains_free Kernel.isSettled_cache f).bind fun _ => retains_pure _
  | allocateKernelPages count =>
      refine Retains.bind (x := Kernel.allocateKernelPages count) ?_ fun _ => retains_pure _
      exact retains_get.bind fun _ => (Kernel.retains_orHalt _).bind fun p =>
        (hallocator p.2).bind fun _ => retains_pure p.1
  | freeKernelPages address =>
      refine Retains.bind (x := Kernel.freeKernelPages address) ?_ fun _ => retains_pure _
      exact retains_get.bind fun _ => (Kernel.retains_orHalt _).bind fun a => hallocator a
  | reserve base length =>
      refine Retains.bind (x := Kernel.reserve base length) ?_ fun _ => retains_pure _
      exact retains_get.bind fun _ => (Kernel.retains_orHalt _).bind fun a => hallocator a
  | mapFrom firstFree totalSize =>
      refine Retains.bind (x := Kernel.mapFrom firstFree totalSize) ?_
        fun _ => retains_get.bind fun _ => retains_pure _
      exact retains_get.bind fun _ => (Kernel.retains_orHalt _).bind fun p =>
        (hallocator p.1).bind fun _ => hrecord p.2
  | bootstrap layout ignored =>
      refine Retains.bind (x := Kernel.reportIgnored ignored) ?_ fun _ =>
        Retains.bind (x := Kernel.bootstrap layout) ?_ fun _ =>
          retains_get.bind fun _ => retains_pure _
      · cases ignored with
        | none => exact retains_pure _
        | some limit => exact hrecord _
      · exact retains_get.bind fun _ => (Kernel.retains_orHalt _).bind fun _ =>
          (hrecord _).bind fun _ => (Kernel.retains_orHalt _).bind fun a => hallocator a
  | kernelAddress f =>
      exact retains_get.bind fun _ => (Kernel.retains_orHalt _).bind fun _ => retains_pure _
  | entry f =>
      refine retains_get.bind fun k => ?_
      cases k.allocator.entry? f with
      | none => exact retains_pure _
      | some e =>
          exact retains_get.bind fun _ => (Kernel.retains_orHalt _).bind fun _ => retains_pure _
  | poke a bytes => exact (hmemory (·.write a.frame a.offset bytes)).bind fun _ => retains_pure _
  | zero f => exact (hmemory (·.zero f)).bind fun _ => retains_pure _
  | copy target source => exact (hmemory (·.copy target source)).bind fun _ => retains_pure _
  -- all others look only
  | isInitialized => exact fun _ => rfl
  | state f => exact fun _ => rfl
  | stretches => exact fun _ => rfl
  | peek a count => exact fun _ => rfl

/-- Replacing a process by itself changes nothing. -/
theorem set_processes {p : Process} (h : m.processes[n]? = some p) :
    m.processes.set n p = m.processes := by
  obtain ⟨hlt, rfl⟩ := List.getElem?_eq_some_iff.mp h
  exact List.set_getElem_self hlt

theorem turns_fault (n : Nat) (access : Access) (a : VirtAddr) :
    Turns (answerFault (.owner (.process n)) access a) m
      (.fault (.owner (.process n)) access a) := by
  cases hp : m.processes[n]? with
  | none =>
      unfold Turns answerFault
      simp only [ends_bind, ends_get, ends_orUnknown, current?, hp]
      exact .idle rfl rfl
  | some p =>
      cases hspace : p.space with
      | none =>
          unfold Turns answerFault
          simp only [ends_bind, ends_get, ends_orUnknown, current?, hp, Option.map_some, hspace,
            liftM_eq, ends_onKernel, ends_modify]
          refine Ends.mono (PageFault.ends_handle_bare access a) ?_ fun _ _ hfalse => hfalse.elim
          rintro ⟨outcome, c⟩ k ⟨rfl, hcache, -⟩
          cases outcome <;> exact .idle rfl hcache
      | some s =>
          have hs : m.space? (.process n) = some s := by simp [space?, hp, hspace]
          have hturn : ∀ {outcome k s'}, PageFault.Handles access a ⟨m.kernel, s⟩ outcome ⟨k, s'⟩ →
              Turn m (.fault (.owner (.process n)) access a)
                (putSpace { m with kernel := k } (.process n) s') := by
            intro outcome k s' hhandled
            rw [putSpace_process (m := { m with kernel := k }) hp]
            exact .faulted hp hspace hhandled rfl
          refine Ends.mono (ends_answerFault_within hs access a) ?_ ?_
          · rintro _ _ ⟨k, s', -, rfl, hhandled⟩
            exact hturn hhandled
          · rintro _ _ (⟨error, k, s', -, rfl, hhandled⟩ | ⟨k, -, rfl, hstranded⟩)
            · exact hturn hhandled
            · exact .idle rfl hstranded.cache

theorem turns_fork (hr : r = .fork n ∨ r = .forkCall n) : Turns (fork n) m r := by
  unfold Turns fork
  rw [ends_bind]
  refine ends_process (fun parent hparent => ?_) (.idle rfl rfl)
  simp only [ends_bind, liftM_eq, ends_onKernel, ends_addProcess, ends_pure]
  have hends := (ends_self parent.fork m.kernel).and
    ((parent.retains_fork m.kernel).and parent.ends_fork_running)
  refine Ends.mono hends (fun child k h => ?_) fun e k h => .idle rfl h.2.1
  exact .forked hr hparent h.1 h.2.2 rfl h.2.1

theorem turns_forkCall (n : Nat) : Turns (forkCall n) m (.forkCall n) :=
  ends_forkCall (turns_fork (Or.inr rfl)) fun _ _ hfailed => hfailed

theorem turns_answerProcess (n : Nat) (r : ProcessRequest) :
    Turns (answerProcess n r) m (.process n r) := by
  unfold Turns answerProcess
  rw [ends_bind]
  refine ends_process (fun p hp => ?_) (.idle rfl rfl)
  cases r with
  | run =>
      simp only [Process.run, ends_bind, liftM_eq, ends_onKernel, ends_putProcess, ends_pure]
      exact Ends.mono p.ends_invalidate_cache (fun _ k hk =>
        .kept (q := { p with state := .running }) hp rfl rfl rfl (Or.inr hk))
        fun _ _ hfalse => hfalse.elim
  | preempt =>
      simp only [Process.preempt, ends_bind, liftM_eq, ends_onKernel, ends_putProcess, ends_pure]
      exact Ends.mono p.ends_invalidate_cache (fun _ k hk =>
        .kept (q := { p with state := .ready }) hp rfl rfl rfl (Or.inr hk))
        fun _ _ hfalse => hfalse.elim
  | exit status =>
      simp only [ends_bind, liftM_eq, ends_onKernel, ends_putProcess, ends_pure]
      exact Ends.mono (p.ends_exit_cache status) (fun q k hk => .ended hp hk.1 rfl hk.2)
        fun _ k hk => .kept hp rfl rfl (set_processes hp).symm (Or.inr hk)
  | setState state => exact .kept (q := { p with state }) hp rfl rfl rfl (Or.inl rfl)
  | inspect => exact .idle rfl rfl
  | killOnFault e =>
      simp only [ends_bind, liftM_eq, ends_onKernel, ends_putProcess, ends_pure]
      refine Ends.mono (p.ends_killOnFault_cache e) ?_
        fun _ k hk => .kept hp rfl rfl (set_processes hp).symm (Or.inr hk)
      rintro ⟨killed, q⟩ k (⟨rfl, hcache⟩ | ⟨hspace, hcache⟩)
      · exact .kept hp rfl rfl rfl (Or.inl hcache)
      · exact .ended hp hspace rfl hcache

/-- **Every request about processes takes a turn.** -/
theorem turns_answer (hr : r.isOfProcesses = true) : Turns (answer r) m r := by
  unfold Request.isOfProcesses at hr
  split at hr
  · next r =>
      unfold Turns answer
      simp only [liftM_eq, ends_onKernel]
      exact Ends.mono (retains_answerFrames r m.kernel) (fun _ _ hk => .idle rfl hk)
        fun _ _ hk => .idle rfl hk
  · next segments entryPoint =>
      unfold Turns answer
      simp only [ends_bind, liftM_eq, ends_onKernel, ends_addProcess, ends_pure]
      have hends := (ends_self (Program.start segments entryPoint) m.kernel).and
        ((Program.retains_start segments entryPoint m.kernel).and
          (Program.ends_start_running segments entryPoint))
      refine Ends.mono hends (fun p k h => ?_) fun e k h => .idle rfl h.2.1
      exact .started h.1 h.2.2 rfl h.2.1
  · next n =>
      unfold Turns answer
      simp only [ends_bind, ends_pure]
      exact turns_fork (Or.inl rfl)
  · next n => exact turns_forkCall n
  · next n r => exact turns_answerProcess n r
  · next n access a => exact turns_fault n access a
  · cases hr

/-- Whatever came of a request about processes, the machine afterwards is a turn away. -/
theorem turn_step (hr : r.isOfProcesses = true) : Turn m r (m.step r).2 :=
  step_of_ends (turns_answer hr)

end Machine

end DemandPaging
