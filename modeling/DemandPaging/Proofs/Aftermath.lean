import DemandPaging.Proofs.Ownership
import DemandPaging.Proofs.Turns
import Mathlib.Data.List.Induction

/-!
# What becomes of a process that has ended

Ending takes the address space of a process away, and no request gives it another one.  This is the
only thing about ending that is final.  Where the process stands in its life, and its exit status,
are records that are written without being read: putting a process on the processor or taking it off
does not ask whether it has ended, and ending it once more overwrites the exit status.

**A life goes on.**  Of the requests to come, some write these records for process number `n`
(`Request.life?`); all others leave it alone, because it has no space any more that they could work
on (`Machine.leaves_answer`).  So the records at any later point are those of the last such
requests: the state is what the last of all says, the exit status what the last ending says
(`Machine.aftermath`).
-/

namespace DemandPaging

/-! ### The records of a life -/

/-- **Life events** of a process. -/
inductive Life where
  | ran
  | preempted
  | ended (status : Int)

namespace Life

/-- Where the process stands afterwards. -/
def state : Life → ProcessState
  | ran => .running
  | preempted => .ready
  | ended _ => .terminated

/-- The exit status that is written. -/
def status? : Life → Option Int
  | ran => none
  | preempted => none
  | ended status => some status

end Life

/-- What a request makes of the life of a process, if anything. -/
def ProcessRequest.life? : ProcessRequest → Option Life
  | .run => some .ran
  | .preempt => some .preempted
  | .exit status => some (.ended status)
  | .setState _ => none
  | .inspect => none
  | .killOnFault e => if e.isFatal then some (.ended (-(e.number : Int))) else none

/-- What a request makes of the life of process number `n`, if anything. -/
def Request.life? (n : Nat) : Request → Option Life
  | .process i r => if i = n then r.life? else none
  | _ => none

/-- The operations on process number `n` that a life is made of: on the processor and off it,
faults, forks and endings. -/
def Request.isOfLife (n : Nat) : Request → Bool
  | .process i .run | .process i .preempt => i == n
  | .process i (.exit _) | .process i (.killOnFault _) => i == n
  | .fault (.owner (.process i)) _ _ => i == n
  | .fork i | .forkCall i => i == n
  | _ => false

namespace Process

variable {p : Process}

/-- The process after a life event. -/
def after (p : Process) (l : Life) : Process :=
  { p with state := l.state, exitStatus := l.status?.or p.exitStatus }

/-- **Records are overwritten**: after some life events the state is that of the last, and the exit
status that of the last ending. -/
theorem foldl_after (p : Process) (ls : List Life) : ls.foldl after p =
    { p with
      state := (ls.getLast?.map Life.state).getD p.state
      exitStatus := (ls.filterMap Life.status?).getLast?.or p.exitStatus } := by
  induction ls using List.reverseRecOn with
  | nil => rfl
  | append_singleton before l ih =>
      rw [List.foldl_append, ih, List.getLast?_concat, List.filterMap_append]
      cases l with
      | ran => simp [after, Life.state, Life.status?]
      | preempted => simp [after, Life.state, Life.status?]
      | ended status => simp [after, Life.state, Life.status?]

/-! ### Ending -/

/-- **Ended processes**: they have no space any more, but an exit status. -/
structure IsEnded (p : Process) (status : Int) : Prop where
  space : p.space = none
  state : p.state = .terminated
  exitStatus : p.exitStatus = some status

theorem ends_exit_isEnded (p : Process) (status : Int) {k : Kernel} :
    Ends (p.exit status) k (fun q _ => q.IsEnded status) fun _ _ => True :=
  Ends.last fun _ _ => Ends.last fun _ _ => ⟨rfl, rfl, rfl⟩

theorem ends_killOnFault_isEnded (p : Process) (e : MemoryError) {k : Kernel} :
    Ends (p.killOnFault e) k (fun r _ => r.1 = true → r.2.IsEnded (-(e.number : Int)))
      fun _ _ => True := by
  unfold killOnFault
  split
  · refine Ends.last fun _ k' => ?_
    rw [ends_bind]
    exact Ends.mono (p.ends_exit_isEnded _) (fun _ _ hq _ => hq) fun _ _ _ => trivial
  · exact fun hkilled => nomatch hkilled

/-! ### What is done to an ended process -/

section Ended

variable (gone : p.space = none) {k : Kernel}

include gone

theorem invalidate_of_none : p.invalidate = pure () := by
  unfold invalidate
  rw [gone]

theorem surrender_of_none : p.surrender = pure () := by
  unfold surrender
  rw [gone]

theorem ends_run_ended : Ends p.run k (fun q _ => q = p.after .ran) fun _ _ => False := by
  unfold run
  rw [invalidate_of_none gone]
  exact (rfl : { p with state := .running } = p.after .ran)

theorem ends_preempt_ended :
    Ends p.preempt k (fun q _ => q = p.after .preempted) fun _ _ => False := by
  unfold preempt
  rw [invalidate_of_none gone]
  exact (rfl : { p with state := .ready } = p.after .preempted)

theorem ends_exit_ended (status : Int) :
    Ends (p.exit status) k (fun q _ => q = p.after (.ended status)) fun _ _ => False := by
  unfold exit
  rw [surrender_of_none gone]
  -- the space that is taken away is none already
  show { p with space := none, state := .terminated, exitStatus := some status } = _
  rw [← gone]
  rfl

theorem ends_killOnFault_ended (e : MemoryError) :
    Ends (p.killOnFault e) k (fun q _ => q.2 = (ProcessRequest.killOnFault e).life?.elim p p.after)
      fun _ _ => False := by
  unfold killOnFault
  cases he : e.isFatal with
  | false =>
      have hlife : (ProcessRequest.killOnFault e).life? = none := by simp [ProcessRequest.life?, he]
      rw [hlife]
      exact (rfl : p = p)
  | true =>
      have hlife : (ProcessRequest.killOnFault e).life? = some (.ended (-(e.number : Int))) := by
        simp [ProcessRequest.life?, he]
      rw [hlife]
      simp only [if_true, ends_bind, Kernel.ends_record, ends_pure]
      exact ends_exit_ended gone _

end Ended

end Process

namespace Machine

variable {m m' : Machine} {n : Nat} {p : Process}

/-! ### Leaving an ended process alone -/

/-- **Leaving a process alone.**  However the operation ends, process number `n` is what it was. -/
def Leaves {α : Type} (x : MachineM α) (n : Nat) (p : Process) : Prop :=
  ∀ m, m.processes[n]? = some p →
    Ends x m (fun _ m' => m'.processes[n]? = some p) fun _ m' => m'.processes[n]? = some p

section Leaving

variable {α β : Type}

theorem Leaves.bind {x : MachineM α} {f : α → MachineM β} (hx : Leaves x n p)
    (hf : ∀ a, Leaves (f a) n p) : Leaves (x >>= f) n p := by
  intro m hp
  rw [ends_bind]
  exact Ends.mono (hx m hp) (fun a m₁ h₁ => hf a m₁ h₁) fun _ _ h₁ => h₁

theorem leaves_pure (a : α) : Leaves (pure a) n p := fun _ hp => hp

theorem leaves_get : Leaves (get : MachineM Machine) n p := fun _ hp => hp

/-- Whoever does not look at processes leaves all of them alone. -/
theorem leaves_of_retains {x : MachineM α} (h : Retains x Machine.processes) : Leaves x n p :=
  fun m hp => Ends.mono (h m) (fun _ _ hsame => hsame ▸ hp) fun _ _ hsame => hsame ▸ hp

theorem retains_onKernel_processes (x : KernelM α) : Retains (onKernel x) Machine.processes := by
  intro m
  rw [ends_onKernel]
  exact Ends.mono (ends_self x m.kernel) (fun _ _ _ => rfl) fun _ _ _ => rfl

theorem retains_orUnknown (o : Option α) : Retains (orUnknown o) Machine.processes := by
  cases o with
  | some a => exact retains_pure a
  | none => exact retains_throw _

theorem leaves_onKernel (x : KernelM α) : Leaves (onKernel x) n p :=
  leaves_of_retains (retains_onKernel_processes x)

theorem leaves_orUnknown (o : Option α) : Leaves (orUnknown o) n p :=
  leaves_of_retains (retains_orUnknown o)

theorem leaves_process (i : Nat) : Leaves (process i) n p :=
  leaves_get.bind fun m => leaves_orUnknown m.processes[i]?

theorem leaves_addSpace (s : AddressSpace) : Leaves (addSpace s) n p :=
  leaves_of_retains (retains_modifyGet fun _ => rfl)

theorem leaves_takeSpace (i : Nat) : Leaves (takeSpace i) n p :=
  leaves_get.bind fun _ => (leaves_orUnknown _).bind fun s =>
    (leaves_of_retains (retains_modify fun _ => rfl)).bind fun _ => leaves_pure s

/-- A new process comes after all others. -/
theorem leaves_addProcess (q : Process) : Leaves (addProcess q) n p := by
  intro m hp
  rw [ends_addProcess]
  obtain ⟨hlt, -⟩ := List.getElem?_eq_some_iff.mp hp
  exact (List.getElem?_append_left hlt).trans hp

theorem leaves_putProcess {i : Nat} (hne : i ≠ n) (q : Process) : Leaves (putProcess i q) n p :=
  fun _ hp => (List.getElem?_set_ne hne).trans hp

end Leaving

/-- Putting a space back under another name leaves the process alone. -/
theorem getElem?_putSpace {name : SpaceName} (hne : name ≠ .process n) (s : AddressSpace) :
    (m.putSpace name s).processes[n]? = m.processes[n]? := by
  cases name with
  | space i => rfl
  | process i =>
      have hi : i ≠ n := fun heq => hne (congrArg SpaceName.process heq)
      simp [putSpace, hi]

theorem leaves_putCurrent {who : Faulter} (hne : who ≠ .owner (.process n)) (c : Current) :
    Leaves (modify fun m => m.putCurrent who c) n p := by
  intro m hp
  rw [ends_modify]
  unfold putCurrent
  split
  · next name s =>
      have hname : name ≠ .process n := fun heq => hne (congrArg Faulter.owner heq)
      exact (getElem?_putSpace hname s).trans hp
  · exact hp

theorem leaves_fork (i : Nat) : Leaves (fork i) n p :=
  (leaves_process i).bind fun _ => (leaves_onKernel _).bind fun child =>
    (leaves_addProcess child).bind fun _ => leaves_pure _

/-- Requests about another process. -/
theorem leaves_answerProcess {i : Nat} (hne : i ≠ n) (r : ProcessRequest) :
    Leaves (answerProcess i r) n p := by
  have hafter : ∀ x : KernelM Process,
      Leaves (onKernel x >>= fun q => putProcess i q >>= fun _ => pure (Reply.process q)) n p :=
    fun x => (leaves_onKernel x).bind fun q => (leaves_putProcess hne q).bind fun _ => leaves_pure _
  refine (leaves_process i).bind fun q => ?_
  cases r with
  | run => exact hafter q.run
  | preempt => exact hafter q.preempt
  | exit status => exact hafter (q.exit status)
  | setState state => exact hafter (pure { q with state })
  | inspect => exact leaves_pure _
  | killOnFault e =>
      exact (leaves_onKernel (q.killOnFault e)).bind fun r =>
        (leaves_putProcess hne r.2).bind fun _ => leaves_pure _

/-- Page tables that stand alone belong to no process. -/
theorem leaves_answerTable (i : Nat) (r : TableRequest) : Leaves (answerTable i r) n p := by
  have hput : ∀ t : Option PageTable,
      Leaves (modify fun m => { m with tables := m.tables.set i t } : MachineM PUnit) n p :=
    fun _ => leaves_of_retains (retains_modify fun _ => rfl)
  refine leaves_get.bind fun m => (leaves_orUnknown _).bind fun t => ?_
  cases r with
  | insert e =>
      refine (leaves_onKernel _).bind fun granted => (leaves_onKernel _).bind fun placed =>
        (hput _).bind fun _ => ?_
      cases placed.2 with
      | some slots => exact (leaves_onKernel _).bind fun _ => leaves_pure _
      | none => exact leaves_pure _
  | lookup a => exact leaves_pure _
  | update a frame flags => exact (hput _).bind fun _ => leaves_pure _
  | setFlags q flags => exact (hput _).bind fun _ => leaves_pure _
  | inspect => exact leaves_pure _
  | release =>
      exact (leaves_onKernel t.release).bind fun _ => (hput none).bind fun _ => leaves_pure _

theorem getElem?_set_process (hp : m.processes[n]? = some p) (q : Process) :
    (m.processes.set n q)[n]? = some q :=
  List.getElem?_set_self (List.getElem?_eq_some_iff.mp hp).1

/-- The machine after some requests, whatever comes of them. -/
def after (m : Machine) (rs : List Request) : Machine := rs.foldl (fun m r => (m.step r).2) m

section Ended

variable (gone : p.space = none)

include gone

/-- A process without a space gives no name to one. -/
theorem leaves_onSpace {α : Type} (name : SpaceName) (x : SpaceM α) :
    Leaves (onSpace name x) n p := by
  intro m hp
  refine ends_onSpace (fun s hs => ?_) hp
  have hne : name ≠ .process n := by
    rintro rfl
    simp [space?, hp, gone] at hs
  exact Ends.mono (ends_self x _) (fun _ w _ => (getElem?_putSpace hne w.space).trans hp)
    fun _ w _ => (getElem?_putSpace hne w.space).trans hp

/-- A fault finds no space in the process. -/
theorem leaves_answerFault (who : Faulter) (access : Access) (a : VirtAddr) :
    Leaves (answerFault who access a) n p := by
  by_cases hwho : who = .owner (.process n)
  · intro m hp
    unfold answerFault
    simp only [hwho, ends_bind, ends_get, ends_orUnknown, current?, hp, Option.map_some, gone,
      liftM_eq, ends_onKernel, ends_modify]
    refine Ends.mono (PageFault.ends_handle_bare access a) ?_ fun _ _ hfalse => hfalse.elim
    rintro ⟨outcome, c⟩ k ⟨rfl, -, -⟩
    cases outcome <;> exact hp
  · refine leaves_get.bind fun m => (leaves_orUnknown _).bind fun c =>
      (leaves_onKernel _).bind fun handled => (leaves_putCurrent hwho handled.2).bind fun _ => ?_
    obtain ⟨outcome, c⟩ := handled
    cases outcome with
    | error e => exact leaves_onKernel _
    | ok _ => cases c <;> exact leaves_pure _

/-- **An ended process is left alone** by every request that is not about this very process. -/
theorem leaves_answer (r : Request) (hr : ∀ r', r ≠ .process n r') : Leaves (answer r) n p := by
  cases r with
  | frames r => exact leaves_onKernel _
  | cache r => exact leaves_onKernel _
  | createTable capacity =>
      exact (leaves_onKernel _).bind fun t => (leaves_onKernel _).bind fun _ =>
        (leaves_of_retains (retains_modifyGet fun _ => rfl)).bind fun _ => leaves_pure _
  | table i r => exact leaves_answerTable i r
  | createSpace =>
      exact (leaves_onKernel _).bind fun s => (leaves_addSpace s).bind fun _ => leaves_pure _
  | duplicateSpace name =>
      exact leaves_get.bind fun m => (leaves_orUnknown _).bind fun s =>
        (leaves_onKernel s.duplicate).bind fun copy => (leaves_addSpace copy).bind fun _ =>
          leaves_pure _
  | destroySpace i =>
      exact (leaves_takeSpace i).bind fun s => (leaves_onKernel s.destroy).bind fun _ =>
        leaves_pure _
  | space name r => exact leaves_onSpace gone name _
  | fault who access a => exact leaves_answerFault gone who access a
  | startProgram segments entryPoint =>
      exact (leaves_onKernel _).bind fun q => (leaves_addProcess q).bind fun _ => leaves_pure _
  | createProcess i entryPoint stackPointer =>
      exact (leaves_takeSpace i).bind fun s => (leaves_onKernel _).bind fun q =>
        (leaves_addProcess q).bind fun _ => leaves_pure _
  | forkWith i j =>
      exact (leaves_process i).bind fun parent => (leaves_takeSpace j).bind fun s =>
        (leaves_onKernel _).bind fun child => (leaves_addProcess child).bind fun _ => leaves_pure _
  | fork i => exact (leaves_fork i).bind fun _ => leaves_pure _
  | forkCall i => exact fun m hp => ends_forkCall (leaves_fork i m hp) fun _ _ hfailed => hfailed
  | process i r =>
      have hne : i ≠ n := by
        rintro rfl
        exact hr r rfl
      exact leaves_answerProcess hne r

/-! ### An ended process along a run -/

/-- Requests about the process itself write its records. -/
theorem ends_answerProcess_ended (hp : m.processes[n]? = some p) (r : ProcessRequest)
    (hr : ∀ state, r ≠ .setState state) :
    Ends (answerProcess n r) m (fun _ m' => m'.processes[n]? = some (r.life?.elim p p.after))
      fun _ m' => m'.processes[n]? = some (r.life?.elim p p.after) := by
  have hafter : ∀ {x : KernelM Process} {q : Process},
      Ends x m.kernel (fun q' _ => q' = q) (fun _ _ => False) →
      Ends (onKernel x >>= fun q => putProcess n q >>= fun _ => pure (Reply.process q)) m
        (fun _ m' => m'.processes[n]? = some q) fun _ m' => m'.processes[n]? = some q := by
    intro x q hx
    simp only [ends_bind, ends_onKernel, ends_putProcess, ends_pure]
    refine Ends.mono hx ?_ fun _ _ hfalse => hfalse.elim
    rintro _ _ rfl
    exact getElem?_set_process hp _
  unfold answerProcess
  simp only [process, ends_bind, ends_get, ends_orUnknown, hp]
  cases r with
  | run => exact hafter (Process.ends_run_ended gone)
  | preempt => exact hafter (Process.ends_preempt_ended gone)
  | exit status => exact hafter (Process.ends_exit_ended gone status)
  | setState state => exact absurd rfl (hr state)
  | inspect => exact hp
  | killOnFault e =>
      simp only [liftM_eq, ends_bind, ends_onKernel, ends_putProcess, ends_pure]
      refine Ends.mono (Process.ends_killOnFault_ended gone e) ?_ fun _ _ hfalse => hfalse.elim
      rintro ⟨killed, _⟩ _ rfl
      exact getElem?_set_process hp _

theorem ends_answer_ended (hp : m.processes[n]? = some p) (r : Request)
    (hr : ∀ state, r ≠ .process n (.setState state)) :
    Ends (answer r) m (fun _ m' => m'.processes[n]? = some ((r.life? n).elim p p.after))
      fun _ m' => m'.processes[n]? = some ((r.life? n).elim p p.after) := by
  by_cases hown : ∃ r', r = .process n r'
  · obtain ⟨r', rfl⟩ := hown
    have hlife : Request.life? n (.process n r') = r'.life? := if_pos rfl
    rw [hlife]
    exact ends_answerProcess_ended gone hp r' fun state heq => hr state (heq ▸ rfl)
  · have hlife : Request.life? n r = none := by
      unfold Request.life?
      split
      · next i r' => exact if_neg fun (hi : i = n) => hown ⟨r', hi ▸ rfl⟩
      · rfl
    rw [hlife]
    exact leaves_answer gone r (fun r' heq => hown ⟨r', heq⟩) m hp

/-- **After some requests** an ended process has been through the life events among them. -/
theorem after_ended (rs : List Request) (hp : m.processes[n]? = some p)
    (unset : ∀ r ∈ rs, ∀ state, r ≠ .process n (.setState state)) :
    (m.after rs).processes[n]? = some ((rs.filterMap (Request.life? n)).foldl Process.after p) := by
  induction rs generalizing m p with
  | nil => exact hp
  | cons r rest ih =>
      obtain ⟨hr, hrest⟩ := List.forall_mem_cons.mp unset
      have hstep : (m.step r).2.processes[n]? = some ((r.life? n).elim p p.after) :=
        step_of_ends (ends_answer_ended gone hp r hr)
      show ((m.step r).2.after rest).processes[n]? = _
      cases hlife : r.life? n with
      | none =>
          rw [hlife] at hstep
          rw [List.filterMap_cons_none hlife]
          exact ih gone hstep hrest
      | some l =>
          rw [hlife] at hstep
          rw [List.filterMap_cons_some hlife, List.foldl_cons]
          exact ih (p := p.after l) gone hstep hrest

end Ended

/-! ### Terminations -/

/-- **Terminations**: process number `n` is ended with an exit status, by itself or by a fault that
is fatal to it. -/
inductive Terminates (m : Machine) (n : Nat) : Int → Machine → Prop where
  | exited {status : Int} {reply : Reply} {m' : Machine}
      (answered : answer (.process n (.exit status)) m = .ok reply m') : Terminates m n status m'
  | killed {e : MemoryError} {p : Process} {m' : Machine}
      (answered : answer (.process n (.killOnFault e)) m = .ok (.killed true p) m') :
      Terminates m n (-(e.number : Int)) m'

/-- A termination leaves a process that has ended. -/
theorem Terminates.exists_ended {status : Int} (h : m.Terminates n status m') :
    ∃ p, m'.processes[n]? = some p ∧ p.IsEnded status := by
  cases h with
  | exited answered =>
      have hends : Ends (answerProcess n (.exit status)) m
          (fun _ m' => ∃ p, m'.processes[n]? = some p ∧ p.IsEnded status) fun _ _ => True := by
        unfold answerProcess
        rw [ends_bind]
        refine ends_process (fun p hp => ?_) trivial
        simp only [liftM_eq, ends_bind, ends_onKernel, ends_putProcess, ends_pure]
        exact Ends.mono (p.ends_exit_isEnded status)
          (fun q _ hq => ⟨q, getElem?_set_process hp q, hq⟩) fun _ _ _ => trivial
      exact hends.of_ok answered
  | @killed e _ _ answered =>
      have hends : Ends (answerProcess n (.killOnFault e)) m
          (fun reply m' => ∀ q, reply = .killed true q →
            ∃ p, m'.processes[n]? = some p ∧ p.IsEnded (-(e.number : Int))) fun _ _ => True := by
        unfold answerProcess
        rw [ends_bind]
        refine ends_process (fun p hp => ?_) trivial
        simp only [liftM_eq, ends_bind, ends_onKernel, ends_putProcess, ends_pure]
        refine Ends.mono (p.ends_killOnFault_isEnded e) (fun killed _ hkilled q hreply => ?_)
          fun _ _ _ => trivial
        exact ⟨_, getElem?_set_process hp _, hkilled (Reply.killed.inj hreply).1⟩
      exact hends.of_ok answered _ rfl

/-- **After a termination.**  Let a process be ended, and let any requests follow, those that set
its state outright excepted.  The process has no address space at any later point.  Nothing else of
it changes but its state and its exit status.  The state is terminated until the process is put on
the processor or taken off it, and whichever of these, or of being ended once more, came last
decides what it is.  The exit status is the one of the latest termination. -/
theorem aftermath {status : Int} (rs : List Request) (ended : m.Terminates n status m')
    (unset : ∀ r ∈ rs, ∀ state, r ≠ .process n (.setState state)) :
    ∃ p, m'.processes[n]? = some p ∧ p.IsEnded status ∧
      (m'.after rs).space? (.process n) = none ∧
      (m'.after rs).processes[n]? = some { p with
        state := ((rs.filterMap (Request.life? n)).getLast?.map Life.state).getD .terminated
        exitStatus := some
          (((rs.filterMap (Request.life? n)).filterMap Life.status?).getLast?.getD status) } := by
  obtain ⟨p, hp, hended⟩ := ended.exists_ended
  have hafter := after_ended hended.space rs hp unset
  rw [Process.foldl_after, hended.state, hended.exitStatus] at hafter
  have hspace : (m'.after rs).space? (.process n) = none := by
    show ((m'.after rs).processes[n]?).bind Process.space = none
    rw [hafter]
    exact hended.space
  refine ⟨p, hp, hended, hspace, hafter.trans ?_⟩
  cases ((rs.filterMap (Request.life? n)).filterMap Life.status?).getLast? <;> rfl

/-- A process over sixteen frames that has exited. -/
theorem exists_exited_sixteen_frames :
    ∃ rs h m', History.Run ⟨History.sixteenFrames, []⟩ rs h ∧ h.machine.Terminates 0 3 m' := by
  have created : History.Run ⟨History.sixteenFrames, []⟩ _ _ :=
    (History.Run.start.next .createSpace trivial (by decide +kernel)).next
      (.createProcess 0 ⟨0x1000, by decide⟩ userStackTop) trivial (by decide +kernel)
  obtain ⟨rs, h, run, hexits⟩ : ∃ rs h, History.Run ⟨History.sixteenFrames, []⟩ rs h ∧
      answers (answer (.process 0 (.exit 3))) h.machine (fun _ _ => true) = true :=
    ⟨_, _, created, by decide +kernel⟩
  obtain ⟨reply, m', answered, -⟩ := exists_of_answers hexits
  exact ⟨rs, h, m', run, .exited answered⟩

/-- An ended process over sixteen frames that cannot be forked and has nothing to fault in, and that
is put on the processor, killed by a fault, and taken off the processor. -/
theorem aftermath_sixteen_frames :
    ∃ rs h m' p, History.Run ⟨History.sixteenFrames, []⟩ rs h ∧ h.machine.Terminates 0 3 m' ∧
      (m'.after [.fork 0, .fault (.owner (.process 0)) .read ⟨0x1000, by decide⟩, .process 0 .run,
        .process 0 (.killOnFault (.addressingFault ⟨0xdead, by decide⟩)),
        .process 0 .preempt]).processes[0]? = some p ∧
      p.space = none ∧ p.state = .ready ∧ p.exitStatus = some (-14) := by
  obtain ⟨rs, h, m', run, ended⟩ := exists_exited_sixteen_frames
  obtain ⟨p, -, hended, -, hafter⟩ := aftermath
    [.fork 0, .fault (.owner (.process 0)) .read ⟨0x1000, by decide⟩, .process 0 .run,
      .process 0 (.killOnFault (.addressingFault ⟨0xdead, by decide⟩)), .process 0 .preempt]
    ended (by simp)
  exact ⟨rs, h, m', _, run, ended, hafter, hended.space, rfl, rfl⟩

/-- **Termination is not final.**  After exiting, a process is running once it has been put on the
processor, and has another exit status once it has exited again. -/
theorem not_forall_final :
    (¬ ∀ rs h (m' : Machine) (n : Nat) (status : Int) (later : List Request),
      History.Run ⟨History.sixteenFrames, []⟩ rs h → h.machine.Terminates n status m' →
      (∀ r ∈ later, r.isOfLife n = true) →
      ∃ p, (m'.after later).processes[n]? = some p ∧ p.state = .terminated) ∧
    ¬ ∀ rs h (m' : Machine) (n : Nat) (status : Int) (later : List Request),
      History.Run ⟨History.sixteenFrames, []⟩ rs h → h.machine.Terminates n status m' →
      (∀ r ∈ later, r.isOfLife n = true) →
      ∃ p, (m'.after later).processes[n]? = some p ∧ p.exitStatus = some status := by
  obtain ⟨rs, h, m', run, ended⟩ := exists_exited_sixteen_frames
  obtain ⟨p, hp, hended⟩ := ended.exists_ended
  refine ⟨fun hall => ?_, fun hall => ?_⟩
  · obtain ⟨q, hq, hstate⟩ :=
      hall rs h m' 0 3 [.process 0 .run] run ended (by simp [Request.isOfLife])
    rw [after_ended hended.space _ hp (by simp)] at hq
    obtain rfl := Option.some.inj hq
    cases hstate
  · obtain ⟨q, hq, hstatus⟩ :=
      hall rs h m' 0 3 [.process 0 (.exit 5)] run ended (by simp [Request.isOfLife])
    rw [after_ended hended.space _ hp (by simp)] at hq
    obtain rfl := Option.some.inj hq
    exact absurd (Option.some.inj hstatus) (by decide)

end Machine

end DemandPaging
