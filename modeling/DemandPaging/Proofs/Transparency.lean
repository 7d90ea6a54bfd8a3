import DemandPaging.Proofs.Duplication
import DemandPaging.Proofs.Outlooks

/-!
# Transparent forks

Right after a fork, nothing that a program can do tells it whether it runs in the parent or in the
child (`History.fork_transparent`).  Whatever it does, it is answered the same and finds the same in
its memory, the faults for which there is no frame or no cache slot included.

**Why.**  The child's space is a duplicate of the parent's, so the same can be seen of both, their
bounds too, and their page tables are as large and as full.  Both are on the same machine, so there
are the same frames left and the same answers of the heap; and if nothing is cached, both see the
same empty slots.  That is the whole outlook (`Proofs.Outlooks`), and it
decides all that follows.  The frames that the two are given may well be other ones.
-/

namespace DemandPaging

/-! ### Courses -/

/-- **Acts** of a program, whichever space it runs in. -/
inductive Act where
  | fault (access : Access) (address : VirtAddr)
  | read (address : VirtAddr) (count : Nat)
  | write (address : VirtAddr) (bytes : List UInt8)
  | coverage (address : VirtAddr)

/-- The act, as a request on a space. -/
def Act.on (A : SpaceName) : Act → Request
  | fault access a => .fault (.owner A) access a
  | read a count => .space A (.read a count)
  | write a bytes => .space A (.write a bytes)
  | coverage a => .space A (.coverage a)

theorem Act.isOn_on (A : SpaceName) (act : Act) : (act.on A).isOn A = true := by
  cases act <;> exact decide_eq_true rfl

/-- An outlook does not ask for names. -/
theorem Outlook.answer_on (o : Outlook) (act : Act) (A B : SpaceName) :
    o.answer (act.on A) = o.answer (act.on B) := by
  cases act <;> rfl

namespace Machine

variable {m m₁ m₂ : Machine} {A B : SpaceName} {s t : AddressSpace} {o : Outlook}

/-- **Courses**: what comes of acts in a space, one after another, and what can be seen of the space
after each of them, its bounds included.  An act that stops the machine is the last. -/
def course (m : Machine) (A : SpaceName) : List Act → List (Outcome × Option View)
  | [] => []
  | act :: rest =>
    let (outcome, m') := m.step (act.on A)
    (seen outcome, (m'.space? A).map fun s => s.view m'.kernel.memory) ::
      if hasHalted outcome then [] else m'.course A rest

theorem course_cons (m : Machine) (A : SpaceName) (act : Act) (rest : List Act) :
    m.course A (act :: rest) =
      (seen (m.step (act.on A)).1,
        ((m.step (act.on A)).2.space? A).map fun s => s.view (m.step (act.on A)).2.kernel.memory) ::
        if hasHalted (m.step (act.on A)).1 then [] else (m.step (act.on A)).2.course A rest := rfl

theorem exists_reply {outcome : Outcome} (h : outcome.isOk = true) :
    ∃ reply, outcome = .ok reply := by
  cases outcome with
  | ok reply => exact ⟨reply, rfl⟩
  | error refusal => cases h

/-- An outlook shows what can be seen. -/
theorem view_of_outlook (h : m.outlook? A = some o) :
    ((m.space? A).map fun s => s.view m.kernel.memory) = some o.view := by
  obtain ⟨s, hs, rfl⟩ := Option.map_eq_some_iff.mp h
  rw [hs]
  rfl

/-- **The outlook decides the course**, by induction on the acts. -/
theorem course_eq_of_outlook :
    ∀ (acts : List Act) {m₁ m₂ : Machine} {o : Outlook}, m₁.IsOrderly → m₂.IsOrderly →
      m₁.outlook? A = some o → m₂.outlook? B = some o → m₁.course A acts = m₂.course B acts
  | [], _, _, _, _, _, _, _ => rfl
  | act :: rest, m₁, m₂, o, h₁, h₂, ho₁, ho₂ => by
      obtain ⟨hseen₁, hafter₁⟩ := step_outlook h₁ ho₁ (act.isOn_on A)
      obtain ⟨hseen₂, hafter₂⟩ := step_outlook h₂ ho₂ (act.isOn_on B)
      rw [o.answer_on act B A] at hseen₂ hafter₂
      have hseen : seen (m₁.step (act.on A)).1 = seen (m₂.step (act.on B)).1 :=
        hseen₁.trans hseen₂.symm
      have hhalted : hasHalted (m₁.step (act.on A)).1 = hasHalted (m₂.step (act.on B)).1 := by
        rw [← hasHalted_seen, hseen, hasHalted_seen]
      rw [course_cons, course_cons, hseen, view_of_outlook hafter₁, view_of_outlook hafter₂]
      refine congrArg _ ?_
      by_cases halted : hasHalted (m₁.step (act.on A)).1 = true
      · rw [if_pos halted, if_pos (hhalted ▸ halted)]
      · have alive : hasHalted (m₁.step (act.on A)).1 = false := by simpa using halted
        rw [if_neg halted, if_neg (hhalted ▸ halted)]
        exact course_eq_of_outlook rest (h₁.step (Or.inl (act.isOn_on A)) alive)
          (h₂.step (Or.inl (act.isOn_on B)) (hhalted ▸ alive)) hafter₁ hafter₂

end Machine

/-! ### Parent and child -/

/-- Of a duplicate the same can be seen as of its source. -/
theorem AddressSpace.IsDuplicate.view {source copy : AddressSpace} {k k' : Kernel}
    (h : source.IsDuplicate copy k k') : copy.view k'.memory = source.view k'.memory := by
  rw [view_congr h.untouched]
  refine View.ext h.regions h.bounds h.loaded (funext fun p => ?_)
  show (copy.table.find? p).map _ = (source.table.find? p).map _
  cases hp : source.table.find? p with
  | none =>
      have hnone : copy.table.find? p = none := by
        have hmaps := (h.maps_iff p).not
        rw [hp] at hmaps
        simpa using hmaps
      rw [hnone]
      rfl
  | some e =>
      obtain ⟨e', he', hflags, hcontents⟩ := h.pages p e hp
      rw [he', Option.map_some, Option.map_some, hflags, hcontents]

namespace Machine

variable {m m' : Machine} {s : AddressSpace} {n : Nat} {held : List Block} {tally : Tally}

/-- After a fork parent and child have their spaces side by side. -/
theorem ends_fork_side_by_side (h : Custody m.kernel m.live held tally)
    (hs : m.space? (.process n) = some s) (hready : s.loaded = true → s.IsPrepared) :
    Ends (answer (.fork n)) m
      (fun reply m' => ∃ child copy, reply = .processCreated m.processes.length child ∧
        m'.space? (.process m.processes.length) = some copy ∧ m'.space? (.process n) = some s ∧
        s.IsDuplicate copy m.kernel m'.kernel)
      fun _ _ => True := by
  obtain ⟨parent, hparent, hspace⟩ := Option.bind_eq_some_iff.mp hs
  unfold answer fork
  simp only [ends_bind]
  refine ends_process (fun p hp => ?_) trivial
  obtain rfl : p = parent := Option.some.inj (hp.symm.trans hparent)
  simp only [liftM_eq, ends_onKernel, ends_addProcess, ends_pure]
  refine Ends.mono (Process.ends_fork_duplicate h hspace (mem_live_of_space? hs) hready) ?_
    fun _ _ _ => trivial
  rintro child k ⟨copy, hcopy, hdup⟩
  obtain ⟨hlt, -⟩ := List.getElem?_eq_some_iff.mp hparent
  refine ⟨child, copy, rfl, ?_, ?_, hdup⟩
  · simp [space?, hcopy]
  · simp [space?, List.getElem?_append_left hlt, hparent, hspace]

end Machine

/-! ### Started programs are prepared -/

namespace Workspace

variable {w w' : Workspace} {i : SpaceId}

/-- What has been prepared stays on record. -/
theorem Move.hasPrepared (h : w.Move w') (hi : w.kernel.HasPrepared i) :
    w'.kernel.HasPrepared i := by
  obtain ⟨n, hn⟩ := hi
  cases h with
  | reported e other => exact ⟨n, Array.mem_push_of_mem e hn⟩
  | prepared pages done => exact ⟨n, Array.mem_push_of_mem _ hn⟩
  | _ => exact ⟨n, hn⟩

theorem Path.hasPrepared (h : w.Path w') (hi : w.kernel.HasPrepared i) :
    w'.kernel.HasPrepared i := by
  induction h with
  | refl => exact hi
  | tail _ hmove ih => exact hmove.hasPrepared ih

end Workspace

namespace Program

/-- A successful load has been prepared. -/
theorem ends_load_prepared (segments : List Segment) {w : Workspace} :
    Ends (load segments) w (fun _ w' => w'.kernel.HasPrepared w'.space.id) fun _ _ => True := by
  unfold load
  refine Ends.last fun _ w₁ => ?_
  rw [ends_bind]
  refine Ends.mono AddressSpace.ends_prepareLoad (fun _ w₂ hprepared => ?_) fun _ _ _ => trivial
  rw [ends_bind]
  refine Ends.mono (wanders_writeAll segments) (fun _ w₃ h => ?_) fun _ _ _ => trivial
  obtain ⟨hpath, -⟩ := h
  simp only [ends_bind, SpaceM.ends_modifySpace, SpaceM.ends_space, ends_pure]
  exact hpath.grows.id ▸ hpath.hasPrepared hprepared

/-- So has the space of a program that was started. -/
theorem ends_start_prepared (segments : List Segment) (entryPoint : VirtAddr) {k : Kernel} :
    Ends (start segments entryPoint) k
      (fun p k' => ∃ s, p.space = some s ∧ k'.HasPrepared s.id) fun _ _ => True := by
  unfold start
  refine Ends.last fun s k₁ => ?_
  rw [ends_bind, SpaceM.ends_attempt]
  refine Ends.mono (ends_load_prepared segments) ?_ ?_
  · rintro stackPointer w ⟨n, hn⟩
    unfold Process.create Kernel.freshPid
    simp only [ends_bind, ends_modifyGet, Kernel.ends_record, ends_pure]
    exact ⟨w.space, rfl, n, Array.mem_push_of_mem _ (Array.mem_push_of_mem _ hn)⟩
  · rintro (e | halt) w -
    · exact Ends.last fun _ _ => trivial
    · trivial

end Program

namespace History

/-- **Started programs stay prepared**: however a run goes on after a program has been started, that
its space was prepared stays on record. -/
theorem Run.hasPrepared_of_startProgram {m : Machine} (fresh : m.IsFresh) {start h : History}
    {rs rs' : List Request} (run : Run ⟨m, []⟩ rs start) {segments : List Segment}
    {entryPoint : VirtAddr} {reply : Reply}
    (done : (start.machine.step (.startProgram segments entryPoint)).1 = .ok reply)
    (later : Run (start.next (.startProgram segments entryPoint)) rs' h) :
    ∃ s, (start.next (.startProgram segments entryPoint)).machine.space?
        (.process start.machine.processes.length) = some s ∧
      h.machine.kernel.HasPrepared s.id := by
  have hends : Ends (Machine.answer (.startProgram segments entryPoint)) start.machine
      (fun _ m' => ∃ s, m'.space? (.process start.machine.processes.length) = some s ∧
        m'.kernel.HasPrepared s.id) fun _ _ => True := by
    unfold Machine.answer
    simp only [ends_bind, Machine.liftM_eq, Machine.ends_onKernel, Machine.ends_addProcess,
      ends_pure]
    refine Ends.mono (Program.ends_start_prepared segments entryPoint) ?_ fun _ _ _ => trivial
    rintro p k ⟨s, hs, hprepared⟩
    exact ⟨s, by simp [Machine.space?, hs], hprepared⟩
  have alive : Machine.hasHalted (start.machine.step (.startProgram segments entryPoint)).1 =
      false := by
    rw [done]
    rfl
  obtain ⟨room, -, hc⟩ := (run.next (.startProgram segments entryPoint) trivial alive).inCustody
    (inCustody_of_isFresh fresh)
  rcases Machine.step_cases hends with ⟨_, m', hstep, s, hs, hprepared⟩ | ⟨e, m', hstep, -⟩
  · have hmachine : (start.next (.startProgram segments entryPoint)).machine = m' :=
      congrArg Prod.snd hstep
    exact ⟨s, hmachine ▸ hs, later.hasPrepared hc (hmachine ▸ hprepared)⟩
  · rw [hstep] at done
    cases done

end History

namespace History

variable {h : History} {rs : List Request} {s : AddressSpace} {n : Nat}

/-- **Transparent forks.**  At any point of a history from a fresh machine let a process be forked
whose space is not loaded, or whose preparation has succeeded at some time, whatever has happened to
it since.  If the fork succeeds and nothing is cached then, any acts of a program have the same
course in the child as they have, from the same state on, in the parent: every fault, read, write
and query is answered the same, those for which frames, room or cache slots run out and those that
stop the machine included, and after each of them the same can be seen of the two spaces. -/
theorem fork_transparent {m : Machine} (fresh : m.IsFresh) (run : Run ⟨m, []⟩ rs h)
    (parent : h.machine.space? (.process n) = some s)
    (ready : s.loaded = false ∨ h.machine.kernel.HasPrepared s.id) {reply : Reply} {m' : Machine}
    (forked : h.machine.step (.fork n) = (.ok reply, m'))
    (cold : m'.kernel.cache.entries = []) :
    ∃ child, reply = .processCreated h.machine.processes.length child ∧
      ∀ acts, m'.course (.process h.machine.processes.length) acts =
        m'.course (.process n) acts := by
  obtain ⟨room, -, hc⟩ := run.inCustody (inCustody_of_isFresh fresh)
  have hready : s.loaded = true → s.IsPrepared := by
    intro hloaded
    rcases ready with hnot | hprepared
    · rw [hnot] at hloaded
      cases hloaded
    · exact (hc.prepared s.id hprepared).2 s (Machine.mem_live_of_space? parent) rfl
  have horderly : m'.IsOrderly := by
    have hbefore : h.machine.IsOrderly := ⟨_, _, hc⟩
    have hafter := hbefore.next (r := .fork n) (fun _ => trivial) (by rw [forked]; rfl)
    rwa [forked] at hafter
  rcases Machine.step_cases (Machine.ends_fork_side_by_side hc parent hready) with
    ⟨reply', m'', hstep, child, copy, rfl, hcopy, hparent, hdup⟩ | ⟨e, m'', hstep, -⟩
  · rw [forked] at hstep
    cases hstep
    refine ⟨child, rfl, fun acts => ?_⟩
    have houtlook : Workspace.outlook ⟨m'.kernel, copy⟩ = Workspace.outlook ⟨m'.kernel, s⟩ := by
      obtain ⟨_, _, hc'⟩ := horderly
      have hlength := hdup.length_eq (hc'.tables s (Machine.mem_live_of_space? hparent))
        (hc'.tables copy (Machine.mem_live_of_space? hcopy))
      have hview : Workspace.view ⟨m'.kernel, copy⟩ = Workspace.view ⟨m'.kernel, s⟩ := hdup.view
      unfold Workspace.outlook
      rw [MappingCache.occupancy_of_empty cold copy.id s.id, hview]
      simp only [hlength, hdup.capacity]
    refine Machine.course_eq_of_outlook acts horderly horderly
      (o := Workspace.outlook ⟨m'.kernel, s⟩) ?_ ?_
    · rw [Machine.outlook?, hcopy, Option.map_some, houtlook]
    · rw [Machine.outlook?, hparent, Option.map_some]
  · rw [forked] at hstep
    cases hstep

/-- A transparent fork over sixteen frames and a cache of two slots: a program is started and grows
its stack, leaves the processor and is forked.  In parent and child alike a byte is written and
read, the third fault finds no cache slot, and the sixth no frame. -/
theorem fork_transparent_sixteen_frames :
    ∃ rs h reply m' acts, Run ⟨sixteenFrames, []⟩ rs h ∧
      h.machine.step (.fork 0) = (.ok reply, m') ∧ m'.kernel.cache.entries = [] ∧
      (m'.course (.process 0) acts).map (fun x => Machine.isExhausted x.1) =
        [false, false, false, false, true, true, true, true, true] ∧
      m'.course (.process 1) acts = m'.course (.process 0) acts := by
  let touch (a : VirtAddr) : Act := .fault .write a
  let acts : List Act := [.write ⟨0x1002, by decide⟩ [7], .read ⟨0x1001, by decide⟩ 2,
    touch ⟨0x6fffffffd000, by decide⟩, touch ⟨0x6fffffffc000, by decide⟩,
    touch ⟨0x6fffffffb000, by decide⟩, touch ⟨0x6fffffffa000, by decide⟩,
    touch ⟨0x6fffffff9000, by decide⟩, touch ⟨0x6fffffff8000, by decide⟩,
    touch ⟨0x6fffffff7000, by decide⟩]
  let program : Request := .startProgram
    [⟨⟨0x1000, by decide⟩, [1, 2, 3], 8, ⟨true, true, false⟩⟩] ⟨0x1000, by decide⟩
  obtain ⟨rs, rs', h, run, later, hids, hlength, hfork, hcold, hshort⟩ : ∃ rs rs' h,
      Run ⟨sixteenFrames, []⟩ rs h ∧ Run (next ⟨sixteenFrames, []⟩ program) rs' h ∧
      (h.machine.space? (.process 0)).map AddressSpace.id =
        ((next ⟨sixteenFrames, []⟩ program).machine.space? (.process 0)).map AddressSpace.id ∧
      h.machine.processes.length = 1 ∧ (h.machine.step (.fork 0)).1.isOk = true ∧
      (h.machine.step (.fork 0)).2.kernel.cache.entries = [] ∧
      (((h.machine.step (.fork 0)).2.course (.process 0) acts).map fun x =>
        Machine.isExhausted x.1) = [false, false, false, false, true, true, true, true, true] := by
    have started : Run ⟨sixteenFrames, []⟩ _ _ :=
      Run.start.next program trivial (by decide +kernel)
    let grow : Request := .fault (.owner (.process 0)) .write ⟨0x6fffffffe000, by decide⟩
    exact ⟨_, _, _, (started.next grow trivial (by decide +kernel)).next (.process 0 .preempt)
      trivial (by decide +kernel), (Run.start.next grow trivial (by decide +kernel)).next
      (.process 0 .preempt) trivial (by decide +kernel), by decide +kernel, by decide +kernel,
      by decide +kernel, by decide +kernel, by decide +kernel⟩
  obtain ⟨reply₀, done⟩ := Machine.exists_reply
    (show (sixteenFrames.step program).1.isOk = true by decide +kernel)
  obtain ⟨reply, hreply⟩ := Machine.exists_reply hfork
  -- the space that was prepared when the program was started is the one that is forked
  obtain ⟨s₀, hs₀, hprepared⟩ :=
    Run.hasPrepared_of_startProgram isFresh_sixteenFrames .start done later
  have hs₀' : (next ⟨sixteenFrames, []⟩ program).machine.space? (.process 0) = some s₀ := hs₀
  rw [hs₀', Option.map_some] at hids
  obtain ⟨s, hs, hid⟩ := Option.map_eq_some_iff.mp hids
  have forked : h.machine.step (.fork 0) = (.ok reply, (h.machine.step (.fork 0)).2) :=
    Prod.ext hreply rfl
  obtain ⟨child, -, hcourse⟩ := fork_transparent isFresh_sixteenFrames run hs
    (Or.inr (hid ▸ hprepared)) forked hcold
  rw [hlength] at hcourse
  exact ⟨rs, h, reply, _, acts, run, forked, hcold, hshort, hcourse acts⟩

end History

end DemandPaging
