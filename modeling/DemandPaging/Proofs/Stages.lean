import DemandPaging.Proofs.Gap

/-!
# Where spaces come from

Whatever is to be true of every space there may be has to be true of new spaces and has to be kept
by whatever can happen to a space.  This module says what can happen (`AddressSpace.Stage`), and
that nothing else does: each space of a machine, at any point of any run, goes back to a new one
by such stages (`History.Run.reachable`).

**Few shapes.**  What a stage does to a space comes down to the four changes that `Step` comes down
to, and to preparing the load, which may fail on the way (`AddressSpace.Shift`).  Loading a program
is all of these in turn.  An invariant of spaces is therefore proved of these shapes only
(`AddressSpace.IsReachable.invariant`), and never looks at requests.
-/

namespace DemandPaging

namespace AddressSpace

/-! ### Stages of a space -/

/-- **Stages** of a space: a step, or a request of any kind, which may fail. -/
inductive Stage (s s' : AddressSpace) : Prop where
  | stepped (step : Step s s')
  | asked {k k' : Kernel} {r : SpaceRequest}
      (answered : (∃ reply, Machine.answerSpace r ⟨k, s⟩ = .ok reply ⟨k', s'⟩) ∨
        ∃ e, Machine.answerSpace r ⟨k, s⟩ = .error e ⟨k', s'⟩)

/-- **Reachable**: a new space after any number of stages. -/
def IsReachable (s : AddressSpace) : Prop := ∃ id, Relation.ReflTransGen Stage (.new id) s

/-- **Shifts**: what a stage comes down to. -/
inductive Shift (s s' : AddressSpace) : Prop where
  | changed (change : Change s s')
  | prepared {k k' : Kernel} (prepared : prepareLoad ⟨k, s⟩ = .ok () ⟨k', s'⟩)
  | starved {k k' : Kernel} {e : Abort} (starved : prepareLoad ⟨k, s⟩ = .error e ⟨k', s'⟩)

/-- After any number of shifts. -/
def Shifts : AddressSpace → AddressSpace → Prop := Relation.ReflTransGen Shift

variable {s s' : AddressSpace} {w : Workspace}

theorem isReachable_new (id : SpaceId) : (new id).IsReachable := ⟨id, .refl⟩

theorem IsReachable.stage (h : s.IsReachable) (stage : Stage s s') : s'.IsReachable := by
  obtain ⟨id, hstages⟩ := h
  exact ⟨id, hstages.tail stage⟩

theorem Change.shifts (h : Change s s') : Shifts s s' := .single (.changed h)

/-! ### Loading a program -/

open SpaceM

/-- Declaring a region is a change. -/
theorem ends_declareRegion_change (a : VirtAddr) (size : Nat) (permission : Permission) :
    Ends (declareRegion a size permission) w (fun _ w' => Change w.space w'.space)
      fun _ w' => Change w.space w'.space := by
  have hanswer := ends_answerSpace_change (r := .declareRegion a size permission) rfl (w := w)
  unfold Machine.answerSpace at hanswer
  rw [ends_bind] at hanswer
  exact hanswer

theorem ends_declareAll_shifts :
    ∀ (segments : List Segment) {w : Workspace},
      Ends (Program.declareAll segments) w (fun _ w' => Shifts w.space w'.space)
        fun _ w' => Shifts w.space w'.space
  | [], _ => .refl
  | g :: rest, w => by
      unfold Program.declareAll
      rw [ends_bind]
      refine Ends.mono (ends_declareRegion_change _ _ _) (fun _ w₁ h₁ => ?_) fun _ _ h => h.shifts
      exact Ends.mono (ends_declareAll_shifts rest) (fun _ _ h₂ => h₁.shifts.trans h₂)
        fun _ _ h₂ => h₁.shifts.trans h₂

/-- Bytes are written without the space taking note of it. -/
theorem retains_writeAll_space :
    ∀ segments : List Segment, Retains (Program.writeAll segments) Workspace.space
  | [] => retains_pure ()
  | g :: rest => by
      intro w
      unfold Program.writeAll
      simp only [liftM_eq, ends_bind, ends_space, ends_onKernel]
      refine Ends.mono (ends_self _ _) (fun _ k _ => ?_) fun _ _ _ => trivial
      exact retains_writeAll_space rest _

theorem ends_prepareLoad_shifts :
    Ends prepareLoad w (fun _ w' => Shifts w.space w'.space)
      fun _ w' => Shifts w.space w'.space :=
  Ends.mono (ends_self prepareLoad w) (fun _ _ h => .single (.prepared h))
    fun _ _ h => .single (.starved h)

/-- **Loading a program** is declaring, preparing and completing. -/
theorem ends_load_shifts (segments : List Segment) :
    Ends (Program.load segments) w (fun _ w' => Shifts w.space w'.space)
      fun _ w' => Shifts w.space w'.space := by
  unfold Program.load
  rw [ends_bind]
  refine Ends.mono (ends_declareAll_shifts segments) (fun _ w₁ h₁ => ?_) fun _ _ h => h
  rw [ends_bind]
  refine Ends.mono ends_prepareLoad_shifts (fun _ w₂ h₂ => ?_) fun _ _ h₂ => h₁.trans h₂
  have hprepared : Shifts w.space w₂.space := h₁.trans h₂
  rw [ends_bind]
  refine Ends.mono (retains_writeAll_space segments w₂) (fun _ w₃ h₃ => ?_) fun _ w₃ h₃ => ?_
  · have hcompleted : Change w₃.space w₃.space.completeLoad :=
      (ends_answerSpace_change (r := .completeLoad) rfl (w := w₃) :)
    rw [h₃] at hcompleted
    simp only [ends_bind, ends_modifySpace, ends_space, ends_pure, h₃]
    exact hprepared.trans hcompleted.shifts
  · rw [h₃]
    exact hprepared

/-- **Every request** comes down to shifts. -/
theorem ends_answerSpace_shifts (r : SpaceRequest) :
    Ends (Machine.answerSpace r) w (fun _ w' => Shifts w.space w'.space)
      fun _ w' => Shifts w.space w'.space := by
  by_cases hordinary : r.isOrdinary = true
  · exact Ends.mono (ends_answerSpace_change hordinary) (fun _ _ h => h.shifts)
      fun _ _ h => h.shifts
  · cases r with
    | prepareLoad =>
        unfold Machine.answerSpace
        rw [ends_bind]
        exact ends_prepareLoad_shifts
    | load segments =>
        unfold Machine.answerSpace
        rw [ends_bind]
        exact ends_load_shifts segments
    | _ => exact absurd rfl hordinary

theorem Stage.shifts (h : Stage s s') : Shifts s s' := by
  cases h with
  | stepped step => exact step.change.shifts
  | asked answered =>
      rcases answered with ⟨reply, hok⟩ | ⟨e, herror⟩
      · exact (ends_answerSpace_shifts _).of_ok hok
      · exact (ends_answerSpace_shifts _).of_error herror

/-- What shifts keep, by induction on them. -/
theorem Shifts.invariant {P : AddressSpace → Prop} (hkept : ∀ s s', P s → Shift s s' → P s')
    (h : Shifts s s') (hs : P s) : P s' := by
  induction h with
  | refl => exact hs
  | tail _ hshift ih => exact hkept _ _ ih hshift

/-- **Invariants of spaces.**  What is true of new spaces, and kept by changes and by preparing, is
true of every reachable space. -/
theorem IsReachable.invariant {P : AddressSpace → Prop} (hnew : ∀ id, P (.new id))
    (hkept : ∀ s s', P s → Shift s s' → P s') (h : s.IsReachable) : P s := by
  obtain ⟨id, hstages⟩ := h
  induction hstages with
  | refl => exact hnew id
  | tail _ hstage ih => exact hstage.shifts.invariant hkept ih

/-! ### Spaces that are made -/

theorem ends_create_reachable {k : Kernel} :
    Ends create k (fun s _ => s.IsReachable) fun _ _ => True :=
  ends_create (fun _ => isReachable_new _) fun _ => trivial

theorem ends_duplicate_reachable {k : Kernel} (h : s.IsReachable) :
    Ends s.duplicate k (fun copy _ => copy.IsReachable) fun _ _ => True :=
  Ends.mono (ends_self s.duplicate k) (fun _ _ hcopy => h.stage (.stepped (.copied hcopy)))
    fun _ _ _ => trivial

/-- A fault within a reachable space leaves a reachable one. -/
theorem ends_handle_reachable {k : Kernel} (access : Access) (a : VirtAddr) (h : s.IsReachable) :
    Ends (PageFault.handle access a (.within s)) k
      (fun p _ => ∃ s', p.2 = .within s' ∧ s'.IsReachable) fun _ _ => True := by
  refine Ends.mono ((ends_self _ k).and (PageFault.ends_handle_within access a s)) ?_
    fun _ _ _ => trivial
  rintro ⟨r, c⟩ k' ⟨hk, s', rfl, -⟩
  exact ⟨s', rfl, h.stage (.stepped (.faulted hk))⟩

end AddressSpace

/-! ### Processes -/

/-- All spaces of the list are reachable. -/
def AllReachable (l : List AddressSpace) : Prop := ∀ s ∈ l, s.IsReachable

namespace AllReachable

variable {l l' : List AddressSpace} {s : AddressSpace}

theorem cons (hs : s.IsReachable) (h : AllReachable l) : AllReachable (s :: l) :=
  List.forall_mem_cons.mpr ⟨hs, h⟩

theorem append (h : AllReachable l) (h' : AllReachable l') : AllReachable (l ++ l') :=
  List.forall_mem_append.mpr ⟨h, h'⟩

theorem of_perm (h : AllReachable l) (hp : l'.Perm l) : AllReachable l' :=
  fun s hs => h s (hp.mem_iff.mp hs)

theorem head (h : AllReachable (s :: l)) : s.IsReachable := h s List.mem_cons_self

theorem tail (h : AllReachable (s :: l)) : AllReachable l := (List.forall_mem_cons.mp h).2

theorem left (h : AllReachable (l ++ l')) : AllReachable l := (List.forall_mem_append.mp h).1

theorem right (h : AllReachable (l ++ l')) : AllReachable l' := (List.forall_mem_append.mp h).2

end AllReachable

namespace Process

variable {p : Process} {k : Kernel} {s : AddressSpace}

theorem ends_create_reachable (h : s.IsReachable) (entryPoint stackPointer : VirtAddr) :
    Ends (create s entryPoint stackPointer) k (fun p _ => AllReachable p.spaces)
      fun _ _ => True := by
  unfold create Kernel.freshPid
  simp only [ends_bind, ends_modifyGet, Kernel.ends_record, ends_pure]
  exact .cons h (List.forall_mem_nil _)

theorem ends_forkWith_reachable (h : s.IsReachable) (parent : Process) :
    Ends (parent.forkWith s) k (fun p _ => AllReachable p.spaces) fun _ _ => True := by
  unfold forkWith
  simp only [ends_bind, ends_pure]
  exact ends_create_reachable h parent.entryPoint parent.stackPointer

/-- The child's space is a copy of its parent's. -/
theorem ends_fork_reachable (h : AllReachable p.spaces) :
    Ends p.fork k (fun child _ => AllReachable child.spaces) fun _ _ => True := by
  unfold fork
  split
  · exact trivial
  · next s hspace =>
      have hs : s.IsReachable := by
        apply h
        rw [spaces, hspace]
        exact List.mem_singleton_self s
      simp only [ends_bind, Kernel.ends_record, ends_pure]
      refine Ends.mono (AddressSpace.ends_duplicate_reachable hs) (fun copy k₁ hcopy => ?_)
        fun _ _ h => h
      exact Ends.mono (ends_forkWith_reachable hcopy p) (fun _ _ h => h) fun _ _ h => h

/-- What a process is asked for leaves its space to it or takes it away. -/
theorem ends_exit_spaces (p : Process) (status : Int) :
    Ends (p.exit status) k (fun q _ => q.spaces = []) fun _ _ => True := by
  unfold exit
  rw [ends_bind]
  refine Ends.mono (ends_self _ _) (fun _ _ _ => ?_) fun _ _ _ => trivial
  simp only [ends_bind, Kernel.ends_record, ends_pure]
  rfl

theorem ends_run_spaces (p : Process) :
    Ends p.run k (fun q _ => q.spaces = p.spaces) fun _ _ => True := by
  unfold run
  exact Ends.last fun _ _ => rfl

theorem ends_preempt_spaces (p : Process) :
    Ends p.preempt k (fun q _ => q.spaces = p.spaces) fun _ _ => True := by
  unfold preempt
  exact Ends.last fun _ _ => rfl

theorem ends_killOnFault_spaces (p : Process) (e : MemoryError) :
    Ends (p.killOnFault e) k (fun q _ => q.2.spaces = p.spaces ∨ q.2.spaces = [])
      fun _ _ => True := by
  unfold killOnFault
  rw [ends_ite]
  split
  · simp only [ends_bind, Kernel.ends_record, ends_pure]
    exact Ends.mono (ends_exit_spaces p _) (fun _ _ h => Or.inr h) fun _ _ h => h
  · exact Or.inl rfl

end Process

/-- A fault outside of all spaces brings nobody into one. -/
theorem PageFault.ends_handle_outside {k : Kernel} (access : Access) (a : VirtAddr) {c : Current}
    (hc : ∀ s, c ≠ .within s) :
    Ends (handle access a c) k (fun p _ => p.2 = c) fun _ _ => True := by
  unfold handle
  simp only [ends_bind, Kernel.ends_record, ends_ite, ends_pure]
  split
  · trivial
  · cases c with
    | idle => exact rfl
    | bare => exact rfl
    | within s => exact absurd rfl (hc s)

/-- A program runs in a space that was new and has been loaded. -/
theorem Program.ends_start_reachable {k : Kernel} (segments : List Segment)
    (entryPoint : VirtAddr) :
    Ends (Program.start segments entryPoint) k (fun p _ => AllReachable p.spaces)
      fun _ _ => True := by
  unfold Program.start
  rw [ends_bind]
  refine Ends.mono AddressSpace.ends_create_reachable (fun s k₁ hs => ?_) fun _ _ h => h
  rw [ends_bind, SpaceM.ends_attempt]
  refine Ends.mono (ends_self (Program.load segments) ⟨k₁, s⟩) (fun stackPointer w hload => ?_)
    fun e w _ => ?_
  · have hanswer : Machine.answerSpace (.load segments) ⟨k₁, s⟩ =
        .ok (.address (some stackPointer)) w := by
      show (Program.load segments >>= fun a => pure (Reply.address (some a))) ⟨k₁, s⟩ = _
      simp only [bind, EStateM.bind, hload]
      rfl
    have hreached : w.space.IsReachable := hs.stage (.asked (Or.inl ⟨_, hanswer⟩))
    simp only [ends_bind, Kernel.ends_record, ends_pure]
    exact Ends.mono (Process.ends_create_reachable hreached _ _) (fun _ _ h => h) fun _ _ h => h
  · cases e with
    | failed e =>
        simp only [ends_bind, Kernel.ends_fail]
        exact Ends.mono (ends_self _ _) (fun _ _ _ => trivial) fun _ _ _ => trivial
    | halted h => trivial

/-! ### Requests to the machine -/

namespace Machine

/-- However the operation ends, all spaces of the machine are reachable. -/
def Breeds {α : Type} (x : MachineM α) (m : Machine) : Prop :=
  Ends x m (fun _ m' => AllReachable m'.live) fun _ m' => AllReachable m'.live

variable {m : Machine} (h : AllReachable m.live)

include h

/-- A kernel operation, and then a space more. -/
theorem breeds_addSpace {α β : Type} {x : KernelM α} {t : α → AddressSpace}
    (hx : Ends x m.kernel (fun a _ => (t a).IsReachable) fun _ _ => True) (f : α → Nat → β) :
    Breeds (onKernel x >>= fun a => addSpace (t a) >>= fun i => pure (f a i)) m := by
  unfold Breeds
  simp only [ends_bind, ends_onKernel, ends_addSpace, ends_pure]
  refine Ends.mono hx (fun a k ha => ?_) fun _ _ _ => h
  exact (h.cons ha).of_perm (perm_addSpace { m with kernel := k } (t a))

/-- A kernel operation, and then a process more. -/
theorem breeds_addProcess {α β : Type} {x : KernelM α} {p : α → Process}
    (hx : Ends x m.kernel (fun a _ => AllReachable (p a).spaces) fun _ _ => True)
    (f : α → Nat → β) :
    Breeds (onKernel x >>= fun a => addProcess (p a) >>= fun i => pure (f a i)) m := by
  unfold Breeds
  simp only [ends_bind, ends_onKernel, ends_addProcess, ends_pure]
  refine Ends.mono hx (fun a k ha => ?_) fun _ _ _ => h
  exact (ha.append h).of_perm (perm_addProcess { m with kernel := k } (p a))

/-- A space is taken, and the machine is left with the others. -/
theorem breeds_takeSpace {α : Type} {n : Nat} {f : AddressSpace → MachineM α}
    (hf : ∀ (s : AddressSpace) (m' : Machine), s.IsReachable → AllReachable m'.live →
      Breeds (f s) m') : Breeds (takeSpace n >>= f) m := by
  unfold Breeds
  rw [ends_bind]
  refine ends_takeSpace (fun s hs => ?_) h
  obtain ⟨rest, hold, hnew⟩ := exists_perm_space hs
  have hfront := h.of_perm hold.symm
  exact hf s _ hfront.head (hfront.tail.of_perm (hnew none))

theorem breeds_process {α : Type} {n : Nat} {f : Process → MachineM α}
    (hf : ∀ p, m.processes[n]? = some p → Breeds (f p) m) : Breeds (process n >>= f) m := by
  unfold Breeds
  rw [ends_bind]
  exact ends_process hf h

/-- The spaces of a process are spaces of the machine. -/
theorem allReachable_of_process {n : Nat} {p : Process} (hp : m.processes[n]? = some p) :
    AllReachable p.spaces := by
  obtain ⟨rest, hold, -⟩ := exists_perm_process hp
  exact (h.of_perm hold.symm).left

/-- A kernel operation on a process that leaves it with its space, or without. -/
theorem breeds_putProcess {α β : Type} {n : Nat} {p : Process} (hp : m.processes[n]? = some p)
    {x : KernelM α} {q : α → Process}
    (hx : Ends x m.kernel (fun a _ => (q a).spaces = p.spaces ∨ (q a).spaces = [])
      fun _ _ => True) (f : α → β) :
    Breeds (onKernel x >>= fun a => putProcess n (q a) >>= fun _ => pure (f a)) m := by
  obtain ⟨rest, hold, hnew⟩ := exists_perm_process hp
  have hfront := h.of_perm hold.symm
  unfold Breeds
  simp only [ends_bind, ends_onKernel, ends_putProcess, ends_pure]
  refine Ends.mono hx (fun a k ha => ?_) fun _ _ _ => h
  refine AllReachable.of_perm (AllReachable.append ?_ hfront.right) (hnew (q a))
  rcases ha with hsame | hgone
  · rw [hsame]
    exact hfront.left
  · rw [hgone]
    exact List.forall_mem_nil _

theorem breeds_onSpace (name : SpaceName) (r : SpaceRequest) :
    Breeds (onSpace name (answerSpace r)) m := by
  refine ends_onSpace (fun s hs => ?_) h
  obtain ⟨rest, hold, hnew⟩ := exists_perm_putSpace hs
  have hfront := h.of_perm hold.symm
  have hput : ∀ s', AddressSpace.Stage s s' → AllReachable (m.putSpace name s').live :=
    fun s' hstage => (hfront.tail.cons (hfront.head.stage hstage)).of_perm (hnew s')
  exact Ends.mono (ends_self (answerSpace r) ⟨m.kernel, s⟩)
    (fun reply w hok => hput w.space (.asked (Or.inl ⟨reply, hok⟩)))
    fun e w herror => hput w.space (.asked (Or.inr ⟨e, herror⟩))

theorem breeds_answerFault (who : Faulter) (access : Access) (a : VirtAddr) :
    Breeds (answerFault who access a) m := by
  unfold Breeds answerFault
  simp only [ends_bind, ends_get, ends_orUnknown]
  split
  · next c hc =>
      simp only [liftM_eq, ends_onKernel, ends_modify]
      by_cases hwithin : ∃ s, c = .within s
      · obtain ⟨s, rfl⟩ := hwithin
        obtain ⟨name, rfl, hs⟩ := exists_of_current? hc
        obtain ⟨rest, hold, hnew⟩ := exists_perm_putSpace hs
        have hfront := h.of_perm hold.symm
        refine Ends.mono (AddressSpace.ends_handle_reachable access a hfront.head) ?_
          fun _ _ _ => h
        rintro ⟨outcome, c⟩ k ⟨s', rfl, hs'⟩
        have hback : AllReachable (m.putSpace name s').live :=
          (hfront.tail.cons hs').of_perm (hnew s')
        cases name <;> cases outcome <;> exact hback
      · -- nobody's space can change
        have hc' : ∀ s, c ≠ .within s := fun s hs => hwithin ⟨s, hs⟩
        refine Ends.mono (PageFault.ends_handle_outside access a hc') ?_ fun _ _ _ => h
        rintro ⟨outcome, c'⟩ k rfl
        rw [putCurrent_of_ne hc']
        cases outcome with
        | error e => exact h
        | ok _ =>
            cases c' with
            | idle => exact h
            | bare => exact h
            | within s => exact absurd rfl (hc' s)
  · exact h

theorem breeds_fork (n : Nat) : Breeds (fork n) m :=
  breeds_process h fun _ hp =>
    breeds_addProcess h (p := id) (Process.ends_fork_reachable (allReachable_of_process h hp))
      fun child i => (i, child)

theorem breeds_answerProcess (n : Nat) (r : ProcessRequest) : Breeds (answerProcess n r) m := by
  refine breeds_process h fun p hp => ?_
  cases r with
  | run =>
      exact breeds_putProcess h hp (q := id)
        (Ends.mono p.ends_run_spaces (fun _ _ hq => Or.inl hq) fun _ _ hq => hq) _
  | preempt =>
      exact breeds_putProcess h hp (q := id)
        (Ends.mono p.ends_preempt_spaces (fun _ _ hq => Or.inl hq) fun _ _ hq => hq) _
  | exit status =>
      exact breeds_putProcess h hp (q := id)
        (Ends.mono (p.ends_exit_spaces status) (fun _ _ hq => Or.inr hq) fun _ _ hq => hq) _
  | setState state =>
      exact breeds_putProcess h hp (q := id) (x := pure { p with state }) (Or.inl rfl) _
  | inspect => exact h
  | killOnFault e =>
      exact breeds_putProcess h hp (q := Prod.snd) (p.ends_killOnFault_spaces e)
        fun q => Reply.killed q.1 q.2

/-- Page tables that stand alone belong to no space. -/
theorem breeds_answerTable (n : Nat) (r : TableRequest) : Breeds (answerTable n r) m := by
  unfold Breeds answerTable
  simp only [ends_bind, ends_get, ends_orUnknown]
  split
  · next t _ =>
      cases r with
      | insert e =>
          simp only [liftM_eq, ends_bind, ends_onKernel, Kernel.ends_ask, Kernel.ends_orAbort,
            ends_modify]
          split
          · next placed _ =>
              cases placed.2 with
              | some slots =>
                  simp only [ends_bind, ends_onKernel, Kernel.ends_record, ends_pure]
                  exact h
              | none => exact h
          · exact h
      | lookup a => exact h
      | update a frame flags => exact h
      | setFlags p flags => exact h
      | inspect => exact h
      | release =>
          simp only [liftM_eq, ends_bind, ends_onKernel, ends_modify, ends_pure]
          exact Ends.mono (ends_self _ _) (fun _ _ _ => h) fun _ _ _ => h
  · exact h

/-- **Every request** leaves the machine with reachable spaces. -/
theorem breeds_answer (r : Request) : Breeds (answer r) m := by
  cases r with
  | frames r =>
      unfold Breeds answer
      simp only [liftM_eq, ends_onKernel]
      exact Ends.mono (ends_self _ _) (fun _ _ _ => h) fun _ _ _ => h
  | cache r =>
      unfold Breeds answer
      simp only [liftM_eq, ends_onKernel]
      exact Ends.mono (ends_self _ _) (fun _ _ _ => h) fun _ _ _ => h
  | createTable capacity =>
      unfold Breeds answer createTable
      simp only [ends_bind, liftM_eq, ends_onKernel, ends_modifyGet, ends_pure]
      refine Ends.mono (ends_self _ _) (fun _ _ _ => ?_) fun _ _ _ => h
      exact Ends.mono (ends_self _ _) (fun _ _ _ => h) fun _ _ _ => h
  | table n r => exact breeds_answerTable h n r
  | createSpace => exact breeds_addSpace h (t := id) AddressSpace.ends_create_reachable _
  | duplicateSpace name =>
      unfold Breeds answer
      simp only [ends_bind, ends_get, ends_orUnknown]
      split
      · next s hs =>
          have hcopy := breeds_addSpace h (t := id)
            (AddressSpace.ends_duplicate_reachable (k := m.kernel) (h s (mem_live_of_space? hs)))
            fun copy i => Reply.spaceCreated i copy.id
          simp only [Breeds, ends_bind] at hcopy
          exact hcopy
      · exact h
  | destroySpace n =>
      refine breeds_takeSpace h fun s m' _ hm' => ?_
      unfold Breeds
      simp only [ends_bind, liftM_eq, ends_onKernel, ends_pure]
      exact Ends.mono (ends_self _ _) (fun _ _ _ => hm') fun _ _ _ => hm'
  | space name r => exact breeds_onSpace h name r
  | fault who access a => exact breeds_answerFault h who access a
  | startProgram segments entryPoint =>
      exact breeds_addProcess h (p := id) (Program.ends_start_reachable segments entryPoint) _
  | createProcess n entryPoint stackPointer =>
      exact breeds_takeSpace h fun s m' hs hm' =>
        breeds_addProcess hm' (p := id) (Process.ends_create_reachable hs entryPoint stackPointer) _
  | forkWith n i =>
      exact breeds_process h fun parent _ => breeds_takeSpace h fun s m' hs hm' =>
        breeds_addProcess hm' (p := id) (Process.ends_forkWith_reachable hs parent) _
  | fork n =>
      unfold Breeds answer
      simp only [ends_bind, ends_pure]
      exact breeds_fork h n
  | forkCall n => exact ends_forkCall (breeds_fork h n) fun _ _ hfailed => hfailed
  | process n r => exact breeds_answerProcess h n r

end Machine

namespace History

variable {start h : History} {rs : List Request}

/-- **Every space of a run is reachable**, by induction on the requests. -/
theorem Run.reachable (run : Run start rs h) (hstart : AllReachable start.machine.live) :
    AllReachable h.machine.live := by
  induction run with
  | start => exact hstart
  | @next rs h run r permitted alive ih =>
      show AllReachable (h.machine.step r).2.live
      rcases Machine.step_cases (Machine.breeds_answer ih r) with
        ⟨reply, m', hstep, hm'⟩ | ⟨e, m', hstep, hm'⟩
      · rw [hstep]
        exact hm'
      · rw [hstep]
        exact hm'

end History

end DemandPaging
