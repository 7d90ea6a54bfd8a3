import DemandPaging.Proofs.Ownership
import DemandPaging.Proofs.Retaining

/-!
# What happens to the other spaces

A request about one space is an aside to all others: they are where they were, with the bytes they
had (`Machine.ends_aside`).  New spaces and processes are asides to everybody, and so is copying a
space, to its source as well.

**Why bytes stay.**  Whoever works on a space writes to frames that the space maps in the end, or
that are free, and in custody no frame is mapped twice and none that is mapped is free.  Everybody
else writes nothing at all.
-/

namespace DemandPaging

/-- **Asides** to the space with a name: requests about other spaces and their processes, and those
about new ones. -/
def Request.isAside (A : SpaceName) : Request → Bool
  | .cache _ | .createSpace | .duplicateSpace _ | .startProgram _ _ | .fork _ | .forkCall _ => true
  | .destroySpace n | .createProcess n _ _ | .forkWith _ n => decide (.space n ≠ A)
  | .space name _ => decide (name ≠ A)
  | .fault who _ _ => decide (who ≠ .owner A)
  | .process n _ => decide (.process n ≠ A)
  | .frames _ | .createTable _ | .table _ _ => false

/-- The bytes of these spaces are what they were. -/
def Kernel.Undisturbed (live : List AddressSpace) (k k' : Kernel) : Prop :=
  ∀ s ∈ live, ∀ f ∈ s.frames, k'.memory.contents f = k.memory.contents f

/-- **Undisturbing.**  However the operation ends, the bytes of these spaces are what they were. -/
def Undisturbs {α : Type} (x : KernelM α) (k : Kernel) (live : List AddressSpace) : Prop :=
  Ends x k (fun _ k' => k.Undisturbed live k') fun _ k' => k.Undisturbed live k'

variable {k k₁ k₂ : Kernel} {live rest : List AddressSpace} {held : List Block} {tally : Tally}

theorem Kernel.Undisturbed.trans (h : k.Undisturbed live k₁) (h' : k₁.Undisturbed live k₂) :
    k.Undisturbed live k₂ :=
  fun s hs f hf => (h' s hs f hf).trans (h s hs f hf)

theorem Kernel.Undisturbed.of_eq (h : k₁.memory = k.memory) : k.Undisturbed live k₁ :=
  fun _ _ _ _ => by rw [h]

/-- Who writes nothing disturbs nobody. -/
theorem Retains.undisturbs {α : Type} {x : KernelM α} (h : Retains x Kernel.memory) :
    Undisturbs x k live :=
  Ends.mono (h k) (fun _ _ h₁ => .of_eq h₁) fun _ _ h₁ => .of_eq h₁

theorem Undisturbs.of_mem {α : Type} {x : KernelM α} (h : Undisturbs x k live) {s : AddressSpace}
    (hs : s ∈ live) : Undisturbs x k [s] := by
  have hone : ∀ k', k.Undisturbed live k' → k.Undisturbed [s] k' := by
    intro k' hk t ht
    obtain rfl := List.mem_singleton.mp ht
    exact hk t hs
  exact Ends.mono h (fun _ k' => hone k') fun _ k' => hone k'

/-- One operation after another, the second of which writes nothing. -/
theorem Undisturbs.bind {α β : Type} {x : KernelM α} {f : α → KernelM β}
    (h : Undisturbs x k live) (hf : ∀ a, Retains (f a) Kernel.memory) :
    Undisturbs (x >>= f) k live := by
  unfold Undisturbs
  rw [ends_bind]
  refine Ends.mono h (fun a k₁ h₁ => ?_) fun _ _ h₁ => h₁
  exact Ends.mono (hf a k₁) (fun _ _ h₂ => h₁.trans (.of_eq h₂)) fun _ _ h₂ => h₁.trans (.of_eq h₂)

/-- Working on the space in front leaves the bytes of all others alone. -/
theorem Custody.undisturbed_path {w w' : Workspace}
    (h : Custody w.kernel (w.space :: rest) held tally) (hpath : w.Path w') :
    w.kernel.Undisturbed rest w'.kernel := by
  have hnodup := (h.path hpath).nodup_frames
  rw [List.flatMap_cons, List.nodup_append] at hnodup
  intro s hs f hf
  refine hpath.grows.untouched f (fun hmapped => ?_)
    (Or.inl (h.keeps (List.mem_cons_of_mem _ hs) hf))
  exact hnodup.2.2 f hmapped f (List.mem_flatMap.mpr ⟨s, hs, hf⟩) rfl

theorem Custody.undisturbs_attempt {α : Type} {x : SpaceM α} {s : AddressSpace}
    (h : Custody k (s :: rest) held tally) (hwanders : Wanders x ⟨k, s⟩) :
    Undisturbs (x.attempt s) k rest := by
  unfold Undisturbs
  rw [SpaceM.ends_attempt]
  refine Ends.mono hwanders (fun _ w h₁ => h.undisturbed_path (w := ⟨k, s⟩) h₁.1) fun e w h₁ => ?_
  cases e <;> exact h.undisturbed_path (w := ⟨k, s⟩) h₁.1

/-- Duplicating a space leaves its bytes alone, and those of all others. -/
theorem AddressSpace.undisturbs_duplicate (h : Custody k live held tally) (source : AddressSpace) :
    Undisturbs source.duplicate k live := by
  unfold duplicate Undisturbs
  refine Kernel.ends_claim_bind (fun _ => ?_) fun _ => .of_eq rfl
  refine Kernel.ends_claim_bind (fun heap => ?_) fun _ => .of_eq rfl
  have hshell : Custody { k with heap, nextSpace := k.nextSpace + 1 }
      (source.shell k.nextSpace :: live) held tally := (h.withHeap heap).add rfl rfl
  have hcopy := hshell.undisturbs_attempt (walks_copyFrom source rfl rfl).wanders
  refine Undisturbs.bind (x := do
    let id ← Kernel.freshSpace
    (copyFrom source).attempt (source.shell id)) hcopy ?_
  rintro ⟨outcome, remnant⟩
  cases outcome with
  | ok _ =>
      exact (Kernel.retains_record Kernel.isSettled_memory _).bind fun _ => retains_pure _
  | error e =>
      exact (Kernel.retains_record Kernel.isSettled_memory _).bind fun _ =>
        (retains_destroy Kernel.isSettled_memory remnant).bind fun _ => Kernel.retains_fail e

theorem Process.undisturbs_fork (h : Custody k live held tally) (parent : Process) :
    Undisturbs parent.fork k live := by
  unfold fork
  split
  · exact (Kernel.retains_fail _).undisturbs
  · next s _ =>
      exact (AddressSpace.undisturbs_duplicate h s).bind fun copy =>
        (retains_forkWith Kernel.isSettled_memory parent copy).bind fun child =>
          (Kernel.retains_record Kernel.isSettled_memory _).bind fun _ => retains_pure _

theorem Program.undisturbs_start (h : Custody k live held tally) (segments : List Segment)
    (entryPoint : VirtAddr) : Undisturbs (start segments entryPoint) k live := by
  have hload : Undisturbs (do
      let s ← AddressSpace.create
      (load segments).attempt s) k live := by
    unfold Undisturbs
    rw [ends_bind]
    refine AddressSpace.ends_create (fun heap => ?_) fun _ => .of_eq rfl
    have hnew : Custody { k with heap, nextSpace := k.nextSpace + 1 } (.new k.nextSpace :: live)
        held tally := (h.withHeap heap).add rfl rfl
    exact hnew.undisturbs_attempt (wanders_load segments)
  unfold start
  rw [← bind_assoc]
  refine hload.bind ?_
  rintro ⟨outcome, s⟩
  cases outcome with
  | ok stackPointer =>
      exact (Process.retains_create Kernel.isSettled_memory s entryPoint stackPointer).bind
        fun _ => (Kernel.retains_record Kernel.isSettled_memory _).bind fun _ => retains_pure _
  | error e =>
      exact (AddressSpace.retains_destroy Kernel.isSettled_memory s).bind fun _ =>
        Kernel.retains_fail e

/-- Handling a fault leaves the bytes of all other spaces alone. -/
theorem PageFault.undisturbs_handle {s : AddressSpace} (h : Custody k (s :: rest) held tally)
    (access : Access) (a : VirtAddr) : Undisturbs (handle access a (.within s)) k rest := by
  have hreport : Custody { k with journal := k.journal.push (.faulted access a) } (s :: rest) held
      tally := h.record rfl
  unfold Undisturbs handle
  simp only [ends_bind, Kernel.ends_record, ends_ite, ends_pure]
  split
  · exact .of_eq rfl
  · exact hreport.undisturbs_attempt (wanders_resolve access a)

/-- A fault while nobody with an address space is running writes nothing. -/
theorem PageFault.undisturbs_handle_without (live : List AddressSpace) (access : Access)
    (a : VirtAddr) {c : Current} (hc : ∀ s, c ≠ .within s) :
    Undisturbs (handle access a c) k live := by
  unfold Undisturbs handle
  simp only [ends_bind, Kernel.ends_record, ends_ite, ends_pure]
  split
  · exact .of_eq rfl
  · cases c with
    | idle => exact .of_eq rfl
    | bare => exact .of_eq rfl
    | within s => exact absurd rfl (hc s)

namespace Machine

variable {m m' : Machine} {A B : SpaceName} {s t : AddressSpace} {n : Nat}

/-! ### Names -/

/-- Names do not depend on the kernel. -/
theorem space?_withKernel (m : Machine) (k : Kernel) :
    space? { m with kernel := k } A = m.space? A := by
  cases A <;> rfl

theorem space?_putSpace_of_ne (h : A ≠ B) (t : AddressSpace) :
    (m.putSpace B t).space? A = m.space? A := by
  cases B with
  | space n =>
      cases A with
      | space i =>
          have hne : n ≠ i := fun heq => h (congrArg SpaceName.space heq.symm)
          simp only [space?, putSpace]
          rw [List.getElem?_set_ne hne]
      | process i => rfl
  | process n =>
      cases A with
      | space i => rfl
      | process i =>
          have hne : n ≠ i := fun heq => h (congrArg SpaceName.process heq.symm)
          simp [space?, putSpace, hne]

theorem space?_putSpace_self (h : m.space? A = some s) (t : AddressSpace) :
    (m.putSpace A t).space? A = some t := by
  cases A with
  | space n =>
      have hcell : m.spaces[n]? = some (some s) := Option.join_eq_some_iff.mp h
      obtain ⟨hlt, -⟩ := List.getElem?_eq_some_iff.mp hcell
      simp [space?, putSpace, hlt]
  | process n =>
      obtain ⟨p, hp, -⟩ := Option.bind_eq_some_iff.mp h
      simp [space?, putSpace, hp]

theorem space?_setSpace_of_ne (h : A ≠ .space n) (cell : Option AddressSpace) :
    space? { m with spaces := m.spaces.set n cell } A = m.space? A := by
  cases A with
  | space i =>
      have hne : n ≠ i := fun heq => h (congrArg SpaceName.space heq.symm)
      simp only [space?]
      rw [List.getElem?_set_ne hne]
  | process i => rfl

theorem space?_setProcess_of_ne (h : A ≠ .process n) (p : Process) :
    space? { m with processes := m.processes.set n p } A = m.space? A := by
  cases A with
  | space i => rfl
  | process i =>
      have hne : n ≠ i := fun heq => h (congrArg SpaceName.process heq.symm)
      simp only [space?]
      rw [List.getElem?_set_ne hne]

theorem space?_addSpace (h : m.space? A = some s) (t : AddressSpace) :
    space? { m with spaces := m.spaces ++ [some t] } A = some s := by
  cases A with
  | space i =>
      have hcell : m.spaces[i]? = some (some s) := Option.join_eq_some_iff.mp h
      obtain ⟨hlt, -⟩ := List.getElem?_eq_some_iff.mp hcell
      simp only [space?]
      rw [List.getElem?_append_left hlt, hcell]
      rfl
  | process i => exact h

theorem space?_addProcess (h : m.space? A = some s) (p : Process) :
    space? { m with processes := m.processes ++ [p] } A = some s := by
  cases A with
  | space i => exact h
  | process i =>
      obtain ⟨q, hq, hspace⟩ := Option.bind_eq_some_iff.mp h
      obtain ⟨hlt, -⟩ := List.getElem?_eq_some_iff.mp hq
      simp only [space?]
      rw [List.getElem?_append_left hlt, hq]
      exact hspace

/-- With the space of one name in front, that of another name is behind it. -/
theorem mem_rest_of_ne (hne : A ≠ B) (hA : m.space? A = some s) {rest : List AddressSpace}
    (hnew : ∀ t', (m.putSpace B t').live.Perm (t' :: rest)) : s ∈ rest := by
  -- put a space in front that is certainly not `s`
  have hmem := mem_live_of_space? ((space?_putSpace_of_ne hne { s with id := s.id + 1 }).trans hA)
  rcases List.mem_cons.mp ((hnew _).mem_iff.mp hmem) with heq | hrest
  · have hid := congrArg AddressSpace.id heq
    simp at hid
  · exact hrest

/-! ### Asides -/

/-- **Spared**: the space has its name still, and the bytes it had. -/
structure Spares (A : SpaceName) (s : AddressSpace) (m m' : Machine) : Prop where
  space? : m'.space? A = some s
  bytes : ∀ f ∈ s.frames, m'.kernel.memory.contents f = m.kernel.memory.contents f

/-- However the operation ends, the space is spared. -/
def Passes {α : Type} (x : MachineM α) (m : Machine) (A : SpaceName) (s : AddressSpace) : Prop :=
  Ends x m (fun _ m' => Spares A s m m') fun _ m' => Spares A s m m'

/-- Requests to the mapping cache write nothing. -/
theorem retains_answerCache (r : CacheRequest) : Retains (answerCache r) Kernel.memory := by
  cases r with
  | insert e => exact (Kernel.retains_cacheMapping e).bind fun _ => retains_pure _
  | reserveSpaceId => exact fun _ => rfl
  | lookup space a => exact fun _ => rfl
  | invalidate space => exact fun _ => rfl
  | invalidateAll => exact fun _ => rfl
  | entries => exact fun _ => rfl

section

variable {held : List Block} {tally : Tally} (h : Custody m.kernel m.live held tally)
  (hA : m.space? A = some s)

include hA

/-- A kernel operation that disturbs nobody, and then the machine gains or changes something with
another name. -/
theorem passes_of_undisturbs {α β : Type} {x : KernelM α} {f : α → MachineM β}
    (hx : Undisturbs x m.kernel [s])
    (hf : ∀ a k, Ends (f a) { m with kernel := k }
      (fun _ m' => m'.space? A = some s ∧ m'.kernel = k)
      fun _ m' => m'.space? A = some s ∧ m'.kernel = k) :
    Passes (onKernel x >>= f) m A s := by
  unfold Passes
  rw [ends_bind, ends_onKernel]
  refine Ends.mono hx (fun a k hk => ?_) fun _ _ hk => ⟨hA, hk s List.mem_cons_self⟩
  have hbytes := hk s List.mem_cons_self
  exact Ends.mono (hf a k) (fun _ m' h => ⟨h.1, h.2 ▸ hbytes⟩) fun _ m' h => ⟨h.1, h.2 ▸ hbytes⟩

theorem passes_takeSpace {α : Type} {f : AddressSpace → MachineM α}
    (hf : ∀ t, Passes (f t) { m with spaces := m.spaces.set n none } A s) :
    Passes (takeSpace n >>= f) m A s := by
  unfold Passes
  rw [ends_bind]
  refine ends_takeSpace (fun t _ => ?_) ⟨hA, fun _ _ => rfl⟩
  exact Ends.mono (hf t) (fun _ _ h' => ⟨h'.space?, h'.bytes⟩) fun _ _ h' => ⟨h'.space?, h'.bytes⟩

theorem passes_process {α : Type} {f : Process → MachineM α} (hf : ∀ p, Passes (f p) m A s) :
    Passes (process n >>= f) m A s := by
  unfold Passes
  rw [ends_bind]
  exact ends_process (fun p _ => hf p) ⟨hA, fun _ _ => rfl⟩

/-- A new space is an aside. -/
theorem passes_addSpace {α β : Type} {x : KernelM α} (hx : Undisturbs x m.kernel [s])
    (t : α → AddressSpace) (f : α → Nat → β) :
    Passes (onKernel x >>= fun a => addSpace (t a) >>= fun i => pure (f a i)) m A s :=
  passes_of_undisturbs hA hx fun a k =>
    ⟨space?_addSpace (m := { m with kernel := k }) ((space?_withKernel m k).trans hA) (t a), rfl⟩

/-- A new process is an aside. -/
theorem passes_addProcess {α β : Type} {x : KernelM α} (hx : Undisturbs x m.kernel [s])
    (p : α → Process) (f : α → Nat → β) :
    Passes (onKernel x >>= fun a => addProcess (p a) >>= fun i => pure (f a i)) m A s :=
  passes_of_undisturbs hA hx fun a k =>
    ⟨space?_addProcess (m := { m with kernel := k }) hA (p a), rfl⟩

theorem passes_putProcess {α β : Type} {x : KernelM α} (hne : A ≠ .process n)
    (hx : Retains x Kernel.memory) (p : α → Process) (f : α → β) :
    Passes (onKernel x >>= fun a => putProcess n (p a) >>= fun _ => pure (f a)) m A s :=
  passes_of_undisturbs hA hx.undisturbs fun a k =>
    ⟨(space?_setProcess_of_ne (m := { m with kernel := k }) hne (p a)).trans hA, rfl⟩

theorem passes_answerProcess (hne : A ≠ .process n) (r : ProcessRequest) :
    Passes (answerProcess n r) m A s := by
  refine passes_process hA fun p => ?_
  cases r with
  | run => exact passes_putProcess hA hne p.retains_run id _
  | preempt => exact passes_putProcess hA hne p.retains_preempt id _
  | exit status => exact passes_putProcess hA hne (p.retains_exit status) id _
  | setState state => exact passes_putProcess hA hne (retains_pure { p with state }) id _
  | inspect => exact ⟨hA, fun _ _ => rfl⟩
  | killOnFault e =>
      exact passes_putProcess hA hne (p.retains_killOnFault e) Prod.snd
        fun q => Reply.killed q.1 q.2

include h

theorem passes_onSpace (hne : A ≠ B) (r : SpaceRequest) :
    Passes (onSpace B (answerSpace r)) m A s := by
  refine ends_onSpace (fun t ht => ?_) ⟨hA, fun _ _ => rfl⟩
  obtain ⟨rest, hold, hnew⟩ := exists_perm_putSpace ht
  have hrest := mem_rest_of_ne hne hA hnew
  have hwalk : Wanders (answerSpace r) ⟨m.kernel, t⟩ := wanders_answerSpace r
  have hspared : ∀ w : Workspace, Workspace.Path ⟨m.kernel, t⟩ w →
      Spares A s m { m.putSpace B w.space with kernel := w.kernel } := fun w hpath =>
    ⟨(space?_withKernel _ w.kernel).trans ((space?_putSpace_of_ne hne w.space).trans hA),
      (h.perm_live hold).undisturbed_path (w := ⟨m.kernel, t⟩) hpath s hrest⟩
  exact Ends.mono hwalk (fun _ w h' => hspared w h'.1) fun _ w h' => hspared w h'.1

theorem passes_answerFault {who : Faulter} (hne : who ≠ .owner A) (access : Access)
    (a : VirtAddr) : Passes (answerFault who access a) m A s := by
  unfold Passes answerFault
  simp only [ends_bind, ends_get, ends_orUnknown]
  split
  · next c hc =>
      simp only [liftM_eq, ends_onKernel, ends_modify]
      by_cases hwithin : ∃ t, c = .within t
      · obtain ⟨t, rfl⟩ := hwithin
        obtain ⟨B, rfl, ht⟩ := exists_of_current? hc
        have hAB : A ≠ B := fun heq => hne (congrArg Faulter.owner heq.symm)
        obtain ⟨rest, hold, hnew⟩ := exists_perm_putSpace ht
        have hcustody := h.perm_live hold
        have hrest := mem_rest_of_ne hAB hA hnew
        have hends := (PageFault.ends_handle hcustody access a).and
          ((PageFault.undisturbs_handle hcustody access a).of_mem hrest)
        refine Ends.mono hends ?_ fun _ k' hk => ⟨hA, hk.2 s List.mem_cons_self⟩
        rintro ⟨outcome, c⟩ k' ⟨⟨t', rfl, -⟩, hk⟩
        have hspared : Spares A s m (putCurrent { m with kernel := k' } (.owner B) (.within t')) :=
          ⟨(space?_putSpace_of_ne (m := { m with kernel := k' }) hAB t').trans
            ((space?_withKernel m k').trans hA), by cases B <;> exact hk s List.mem_cons_self⟩
        cases outcome <;> exact hspared
      · have hc' : ∀ t, c ≠ .within t := fun t ht => hwithin ⟨t, ht⟩
        have hends := (PageFault.ends_handle_without h access a hc').and
          (PageFault.undisturbs_handle_without m.live access a hc')
        refine Ends.mono hends ?_ fun _ k' hk => hk.1.elim
        rintro ⟨outcome, c'⟩ k' ⟨⟨rfl, -⟩, hk⟩
        rw [putCurrent_of_ne hc']
        have hspared : Spares A s m { m with kernel := k' } :=
          ⟨(space?_withKernel m k').trans hA, hk s (mem_live_of_space? hA)⟩
        cases outcome with
        | error e => exact hspared
        | ok _ =>
            cases c' with
            | idle => exact hspared
            | bare => exact hspared
            | within t => exact absurd rfl (hc' t)
  · exact ⟨hA, fun _ _ => rfl⟩

theorem passes_fork (n : Nat) : Passes (fork n) m A s := by
  refine passes_process hA fun parent => ?_
  exact passes_addProcess hA ((parent.undisturbs_fork h).of_mem (mem_live_of_space? hA)) id
    fun child i => (i, child)

theorem passes_forkCall (n : Nat) : Passes (forkCall n) m A s :=
  ends_forkCall (passes_fork h hA n) fun _ _ hfailed => hfailed

/-- **Asides spare a space.** -/
theorem passes_answer {r : Request} (hr : r.isAside A = true) : Passes (answer r) m A s := by
  have hmem := mem_live_of_space? hA
  cases r with
  | frames r => cases hr
  | createTable capacity => cases hr
  | table n r => cases hr
  | cache r =>
      unfold Passes answer
      simp only [liftM_eq, ends_onKernel]
      have hspared : ∀ k, k.memory = m.kernel.memory → Spares A s m { m with kernel := k } :=
        fun k hk => ⟨(space?_withKernel m k).trans hA, fun _ _ => by rw [hk]⟩
      exact Ends.mono (retains_answerCache r m.kernel) (fun _ k => hspared k) fun _ k => hspared k
  | createSpace =>
      exact passes_addSpace hA (AddressSpace.retains_create Kernel.isSettled_memory).undisturbs id _
  | duplicateSpace name =>
      unfold Passes answer
      simp only [ends_bind, ends_get, ends_orUnknown]
      split
      · next t _ =>
          have hpass := passes_addSpace hA ((AddressSpace.undisturbs_duplicate h t).of_mem hmem)
            id fun copy i => Reply.spaceCreated i copy.id
          simp only [Passes, ends_bind] at hpass
          exact hpass
      · exact ⟨hA, fun _ _ => rfl⟩
  | destroySpace n =>
      have hne : A ≠ .space n := Ne.symm (of_decide_eq_true hr)
      refine passes_takeSpace hA fun t => ?_
      have hA' := (space?_setSpace_of_ne hne none).trans hA
      exact passes_of_undisturbs hA' (t.retains_destroy Kernel.isSettled_memory).undisturbs
        fun _ k => ⟨(space?_withKernel _ k).trans hA', rfl⟩
  | space B r => exact passes_onSpace h hA (Ne.symm (of_decide_eq_true hr)) r
  | fault who access a => exact passes_answerFault h hA (of_decide_eq_true hr) access a
  | startProgram segments entryPoint =>
      exact passes_addProcess hA ((Program.undisturbs_start h segments entryPoint).of_mem hmem) id _
  | createProcess n entryPoint stackPointer =>
      have hne : A ≠ .space n := Ne.symm (of_decide_eq_true hr)
      refine passes_takeSpace hA fun t => ?_
      exact passes_addProcess ((space?_setSpace_of_ne hne none).trans hA)
        (Process.retains_create Kernel.isSettled_memory t entryPoint stackPointer).undisturbs id _
  | forkWith n i =>
      have hne : A ≠ .space i := Ne.symm (of_decide_eq_true hr)
      refine passes_process hA fun parent => passes_takeSpace hA fun t => ?_
      exact passes_addProcess ((space?_setSpace_of_ne hne none).trans hA)
        (Process.retains_forkWith Kernel.isSettled_memory parent t).undisturbs id _
  | fork n =>
      unfold Passes answer
      simp only [ends_bind, ends_pure]
      exact passes_fork h hA n
  | forkCall n => exact passes_forkCall h hA n
  | process n r => exact passes_answerProcess hA (Ne.symm (of_decide_eq_true hr)) r

end

end Machine

end DemandPaging
