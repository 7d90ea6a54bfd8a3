import DemandPaging.Space.Basic

/-!
# How operations end

An operation on the kernel, on a space or on the machine ends with an answer or with an
abort, and in both cases it leaves a state.  `Ends` says something about both at once, because
an abort keeps the state reached so far and everything that is to be true of a machine has to
be true of that state as well.

**Computing.**  `Ends` of a sequence is `Ends` of its first part, with `Ends` of the rest as
what is to be true of its answer (`ends_bind`).  With one equation for each primitive of the
kernel, `simp only` turns what an operation without recursion has to satisfy into a
proposition about states.  For the rest there is `Ends.mono`.
-/

namespace DemandPaging

/-- **Endings.**  From state `s` the operation answers such that `ok` holds, or aborts such that
`ab` holds. -/
def Ends {ε σ α : Type} (x : EStateM ε σ α) (s : σ) (ok : α → σ → Prop) (ab : ε → σ → Prop) :
    Prop :=
  match x s with
  | .ok a s => ok a s
  | .error e s => ab e s

section Sequencing

variable {ε σ α β : Type} {s : σ} {ok ok' : α → σ → Prop} {ab ab' : ε → σ → Prop}

theorem Ends.mono {x : EStateM ε σ α} (h : Ends x s ok ab) (hok : ∀ a s, ok a s → ok' a s)
    (hab : ∀ e s, ab e s → ab' e s) : Ends x s ok' ab' := by
  unfold Ends at h ⊢
  split at h
  · exact hok _ _ h
  · exact hab _ _ h

/-- Two statements about the same ending. -/
theorem Ends.and {x : EStateM ε σ α} (h : Ends x s ok ab) (h' : Ends x s ok' ab') :
    Ends x s (fun a s => ok a s ∧ ok' a s) (fun e s => ab e s ∧ ab' e s) := by
  unfold Ends at h h' ⊢
  split at h
  · next heq => exact ⟨h, by rwa [heq] at h'⟩
  · next heq => exact ⟨h, by rwa [heq] at h'⟩

theorem Ends.of_ok {x : EStateM ε σ α} (h : Ends x s ok ab) {a : α} {s' : σ}
    (hx : x s = .ok a s') : ok a s' := by
  unfold Ends at h
  rwa [hx] at h

theorem Ends.of_error {x : EStateM ε σ α} (h : Ends x s ok ab) {e : ε} {s' : σ}
    (hx : x s = .error e s') : ab e s' := by
  unfold Ends at h
  rwa [hx] at h

/-- Whether the operation answers such that a test is passed. -/
def answers (x : EStateM ε σ α) (s : σ) (test : α → σ → Bool) : Bool :=
  match x s with
  | .ok a s' => test a s'
  | .error _ _ => false

theorem exists_of_answers {x : EStateM ε σ α} {test : α → σ → Bool}
    (h : answers x s test = true) : ∃ a s', x s = .ok a s' ∧ test a s' = true := by
  unfold answers at h
  split at h
  · next a s' hx => exact ⟨a, s', hx, h⟩
  · cases h

/-- The test is passed by the answer there is. -/
theorem test_of_answers {x : EStateM ε σ α} {test : α → σ → Bool} (h : answers x s test = true)
    {a : α} {s' : σ} (hx : x s = .ok a s') : test a s' = true := by
  unfold answers at h
  rwa [hx] at h

/-- Whether the operation aborts such that a test is passed. -/
def aborts (x : EStateM ε σ α) (s : σ) (test : ε → σ → Bool) : Bool :=
  match x s with
  | .ok _ _ => false
  | .error e s' => test e s'

theorem exists_of_aborts {x : EStateM ε σ α} {test : ε → σ → Bool}
    (h : aborts x s test = true) : ∃ e s', x s = .error e s' ∧ test e s' = true := by
  unfold aborts at h
  split at h
  · cases h
  · next e s' hx => exact ⟨e, s', hx, h⟩

/-- An operation ends the way it does. -/
theorem ends_self (x : EStateM ε σ α) (s : σ) :
    Ends x s (fun a s' => x s = .ok a s') fun e s' => x s = .error e s' := by
  unfold Ends
  cases x s with
  | ok a s' => exact rfl
  | error e s' => exact rfl

@[simp] theorem ends_pure (a : α) : Ends (pure a) s ok ab ↔ ok a s := Iff.rfl

@[simp] theorem ends_throw (e : ε) : Ends (throw e : EStateM ε σ α) s ok ab ↔ ab e s := Iff.rfl

@[simp] theorem ends_bind (x : EStateM ε σ α) (f : α → EStateM ε σ β) {ok : β → σ → Prop} :
    Ends (x >>= f) s ok ab ↔ Ends x s (fun a s => Ends (f a) s ok ab) ab := by
  simp only [Ends, bind, EStateM.bind]
  cases x s <;> rfl

@[simp] theorem ends_discard (x : EStateM ε σ α) {ok : PUnit → σ → Prop} :
    Ends (discard x) s ok ab ↔ Ends x s (fun _ s => ok ⟨⟩ s) ab := by
  show Ends (x >>= fun _ => pure ⟨⟩) s ok ab ↔ _
  rw [ends_bind]
  rfl

/-- What the last part of an operation ensures whatever came before it. -/
theorem Ends.last {x : EStateM ε σ α} {f : α → EStateM ε σ β} {ok : β → σ → Prop}
    (hf : ∀ a s, Ends (f a) s ok fun _ _ => True) : Ends (x >>= f) s ok fun _ _ => True := by
  rw [ends_bind]
  unfold Ends
  split
  · exact hf _ _
  · trivial

@[simp] theorem ends_get {ok : σ → σ → Prop} :
    Ends (get : EStateM ε σ σ) s ok ab ↔ ok s s := Iff.rfl

@[simp] theorem ends_modify (f : σ → σ) {ok : PUnit → σ → Prop} :
    Ends (modify f : EStateM ε σ PUnit) s ok ab ↔ ok ⟨⟩ (f s) := Iff.rfl

@[simp] theorem ends_modifyGet (f : σ → α × σ) :
    Ends (modifyGet f : EStateM ε σ α) s ok ab ↔ ok (f s).1 (f s).2 := Iff.rfl

@[simp] theorem ends_ite (c : Prop) [Decidable c] (x y : EStateM ε σ α) :
    Ends (if c then x else y) s ok ab ↔ if c then Ends x s ok ab else Ends y s ok ab := by
  split <;> rfl

end Sequencing

namespace Kernel

variable {α : Type} {k : Kernel} {ok : α → Kernel → Prop} {ab : Abort → Kernel → Prop}

@[simp] theorem ends_halt (h : Halt) : Ends (halt h) k ok ab ↔ ab (.halted h) k := Iff.rfl

@[simp] theorem ends_fail (e : MemoryError) : Ends (fail e) k ok ab ↔ ab (.failed e) k := Iff.rfl

theorem ends_orHalt (x : Except Halt α) :
    Ends (orHalt x) k ok ab ↔
      match x with
      | .ok a => ok a k
      | .error h => ab (.halted h) k := by
  cases x <;> rfl

theorem ends_orFail (x : Except MemoryError α) :
    Ends (orFail x) k ok ab ↔
      match x with
      | .ok a => ok a k
      | .error e => ab (.failed e) k := by
  cases x <;> rfl

theorem ends_orAbort (x : Except Abort α) :
    Ends (orAbort x) k ok ab ↔
      match x with
      | .ok a => ok a k
      | .error e => ab e k := by
  cases x <;> rfl

@[simp] theorem ends_ask (room : Nat) {ok : Bool → Kernel → Prop} :
    Ends (ask room) k ok ab ↔ ok (k.grants room) (k.asked room) := Iff.rfl

/-- Room is claimed by asking for it, and refused where it is not granted. -/
@[simp] theorem ends_claim (room : Nat) {ok : Unit → Kernel → Prop} :
    Ends (claim room) k ok ab ↔ if k.grants room = true then ok () (k.asked room)
      else ab (.failed .outOfMemory) (k.asked room) := by
  unfold claim
  simp only [ends_bind, ends_ask, ends_ite, ends_pure, ends_fail]

/-- Claiming room first, whatever the heap answers. -/
theorem ends_claim_bind {room : Nat} {x : KernelM α}
    (hgranted : ∀ heap, Ends x { k with heap } ok ab)
    (hrefused : ∀ heap, ab (.failed .outOfMemory) { k with heap }) :
    Ends (claim room >>= fun _ => x) k ok ab := by
  rw [ends_bind, ends_claim]
  split
  · exact hgranted _
  · exact hrefused _

@[simp] theorem ends_record (e : Event) {ok : Unit → Kernel → Prop} :
    Ends (record e) k ok ab ↔ ok () { k with journal := k.journal.push e } := Iff.rfl

end Kernel

/-- A new space, whatever the heap answers. -/
theorem AddressSpace.ends_create {k : Kernel} {ok : AddressSpace → Kernel → Prop}
    {ab : Abort → Kernel → Prop}
    (hnew : ∀ heap, ok (new k.nextSpace) { k with heap, nextSpace := k.nextSpace + 1 })
    (hrefused : ∀ heap, ab (.failed .outOfMemory) { k with heap }) : Ends create k ok ab := by
  refine Kernel.ends_claim_bind (fun _ => ?_) hrefused
  exact Kernel.ends_claim_bind (fun heap => hnew heap) hrefused

/-! ### Operations on a part -/

@[simp] theorem SpaceM.ends_onKernel {α : Type} (x : KernelM α) {w : Workspace}
    {ok : α → Workspace → Prop} {ab : Abort → Workspace → Prop} :
    Ends (onKernel x) w ok ab ↔
      Ends x w.kernel (fun a k => ok a { w with kernel := k })
        (fun e k => ab e { w with kernel := k }) := by
  simp only [Ends, onKernel]
  cases x w.kernel <;> rfl

/-- Lifting a kernel operation to a space is `SpaceM.onKernel`. -/
@[simp] theorem SpaceM.liftM_eq {α : Type} (x : KernelM α) :
    (liftM x : SpaceM α) = onKernel x := rfl

@[simp] theorem SpaceM.ends_space {w : Workspace} {ok : AddressSpace → Workspace → Prop}
    {ab : Abort → Workspace → Prop} : Ends space w ok ab ↔ ok w.space w := Iff.rfl

@[simp] theorem SpaceM.ends_modifySpace (f : AddressSpace → AddressSpace) {w : Workspace}
    {ok : Unit → Workspace → Prop} {ab : Abort → Workspace → Prop} :
    Ends (modifySpace f) w ok ab ↔ ok () { w with space := f w.space } := Iff.rfl

/-- What is true of working on a space is true of attempting to, with failure as an answer. -/
@[simp] theorem SpaceM.ends_attempt {α : Type} (x : SpaceM α) (s : AddressSpace) {k : Kernel}
    {ok : Except MemoryError α × AddressSpace → Kernel → Prop} {ab : Abort → Kernel → Prop} :
    Ends (x.attempt s) k ok ab ↔
      Ends x ⟨k, s⟩ (fun a w => ok (.ok a, w.space) w.kernel) fun e w =>
        match e with
        | .failed e => ok (.error e, w.space) w.kernel
        | .halted h => ab (.halted h) w.kernel := by
  simp only [Ends, attempt]
  rcases x ⟨k, s⟩ with ⟨a, w⟩ | ⟨e | h, w⟩ <;> rfl

/-- Cleaning up after a failure is what comes at the end of it. -/
@[simp] theorem SpaceM.ends_cleaningUp {α : Type} (x : SpaceM α) (undo : KernelM Unit)
    {w : Workspace} {ok : α → Workspace → Prop} {ab : Abort → Workspace → Prop} :
    Ends (x.cleaningUp undo) w ok ab ↔
      Ends x w ok fun e w =>
        match e with
        | .failed e =>
          Ends undo w.kernel (fun _ k => ab (.failed e) { w with kernel := k })
            fun e k => ab e { w with kernel := k }
        | .halted h => ab (.halted h) w := by
  simp only [Ends, cleaningUp]
  rcases x w with ⟨a, w⟩ | ⟨e | h, w⟩
  · rfl
  · dsimp only
    cases undo w.kernel <;> rfl
  · rfl

/-- Reporting a failure is one more event at the end of it. -/
@[simp] theorem SpaceM.ends_reporting {α : Type} (x : SpaceM α) (event : Event) {w : Workspace}
    {ok : α → Workspace → Prop} {ab : Abort → Workspace → Prop} :
    Ends (x.reporting event) w ok ab ↔
      Ends x w ok fun e w =>
        match e with
        | .failed e =>
          ab (.failed e)
            { w with kernel := { w.kernel with journal := w.kernel.journal.push event } }
        | .halted h => ab (.halted h) w := by
  simp only [Ends, reporting]
  rcases x w with ⟨a, w⟩ | ⟨e | h, w⟩ <;> rfl

end DemandPaging
