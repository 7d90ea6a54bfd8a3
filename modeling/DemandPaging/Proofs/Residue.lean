import DemandPaging.Proofs.Custody
import DemandPaging.Proofs.Retaining
import DemandPaging.Proofs.Transfers

/-!
# What others have left in memory

Frames are not cleared when they are freed, nor when they are handed out.  Two kernels that differ
only in the bytes of frames that are not in use are told apart by nothing an operation does on
behalf of a space or a process.  This is said of two runs of one operation (`Agrees`): they end
alike, with the same answer or for the same reason, in kernels that still differ in such bytes only
(`Kernel.Twins`).  An operation for which this is so is `Blind`.

**Where it could go wrong.**  Only two primitives look at memory.  Reading is not among the
operations here, and copying a frame is blind if its source is `known` to have the same bytes.
Handing out a frame is *not* blind, since the frame comes into use with what was left in it; what is
blind is handing it out and filling it with zeroes, and nobody does the one without the other
(`AddressSpace.blind_mapZeroed`).
-/

namespace DemandPaging

/-! ### Two runs of one operation -/

/-- **Agreement.**  From the two states the operation ends with one answer such that `ok` holds, or
with one abort such that `ab` holds. -/
def Agrees {ε σ α : Type} (x : EStateM ε σ α) (s s' : σ) (ok : α → σ → σ → Prop)
    (ab : ε → σ → σ → Prop) : Prop :=
  match x s, x s' with
  | .ok a t, .ok a' t' => a' = a ∧ ok a t t'
  | .error e t, .error e' t' => e' = e ∧ ab e t t'
  | _, _ => False

/-- **Blindness.**  Related states are not told apart, and stay related. -/
def Blind {ε σ α : Type} (x : EStateM ε σ α) (rel : σ → σ → Prop) : Prop :=
  ∀ s s', rel s s' → Agrees x s s' (fun _ => rel) fun _ => rel

section Sequencing

variable {ε σ α β : Type} {s s' : σ} {rel : σ → σ → Prop}

theorem Agrees.mono {x : EStateM ε σ α} {ok ok' : α → σ → σ → Prop} {ab ab' : ε → σ → σ → Prop}
    (h : Agrees x s s' ok ab) (hok : ∀ a t t', ok a t t' → ok' a t t')
    (hab : ∀ e t t', ab e t t' → ab' e t t') : Agrees x s s' ok' ab' := by
  unfold Agrees at h ⊢
  split at h
  · exact ⟨h.1, hok _ _ _ h.2⟩
  · exact ⟨h.1, hab _ _ _ h.2⟩
  · exact h

/-- Operations that agree end in one of two ways. -/
theorem Agrees.cases {x : EStateM ε σ α} {ok : α → σ → σ → Prop} {ab : ε → σ → σ → Prop}
    (h : Agrees x s s' ok ab) :
    (∃ a t t', x s = .ok a t ∧ x s' = .ok a t' ∧ ok a t t') ∨
      ∃ e t t', x s = .error e t ∧ x s' = .error e t' ∧ ab e t t' := by
  unfold Agrees at h
  split at h
  · next hx hx' =>
      obtain ⟨rfl, hok⟩ := h
      exact Or.inl ⟨_, _, _, hx, hx', hok⟩
  · next hx hx' =>
      obtain ⟨rfl, hab⟩ := h
      exact Or.inr ⟨_, _, _, hx, hx', hab⟩
  · exact h.elim

/-- One operation after another. -/
theorem Agrees.bind {x : EStateM ε σ α} {f : α → EStateM ε σ β} {ok : α → σ → σ → Prop}
    {ok' : β → σ → σ → Prop} {ab : ε → σ → σ → Prop} (h : Agrees x s s' ok ab)
    (hf : ∀ a t t', ok a t t' → Agrees (f a) t t' ok' ab) : Agrees (x >>= f) s s' ok' ab := by
  simp only [Agrees, Bind.bind, EStateM.bind]
  rcases h.cases with ⟨a, t, t', hx, hx', hok⟩ | ⟨e, t, t', hx, hx', hab⟩
  · simp only [hx, hx']
    exact hf a t t' hok
  · simp only [hx, hx']
    exact ⟨trivial, hab⟩

/-- Looking at the state, as far as what follows is the same for both. -/
theorem Agrees.bindGet {f : σ → EStateM ε σ α} {ok : α → σ → σ → Prop} {ab : ε → σ → σ → Prop}
    (hf : f s' = f s) (h : Agrees (f s) s s' ok ab) : Agrees (get >>= f) s s' ok ab := by
  show (match f s s, f s' s' with
    | .ok a t, .ok a' t' => a' = a ∧ ok a t t'
    | .error e t, .error e' t' => e' = e ∧ ab e t t'
    | _, _ => False)
  rw [hf]
  exact h

theorem blind_pure (a : α) : Blind (pure a : EStateM ε σ α) rel := fun _ _ h => ⟨rfl, h⟩

theorem blind_throw (e : ε) : Blind (throw e : EStateM ε σ α) rel := fun _ _ h => ⟨rfl, h⟩

theorem blind_modify {f : σ → σ} (h : ∀ s s', rel s s' → rel (f s) (f s')) :
    Blind (modify f : EStateM ε σ PUnit) rel := fun s s' hs => ⟨rfl, h s s' hs⟩

namespace Blind

theorem bind {x : EStateM ε σ α} {f : α → EStateM ε σ β} (h : Blind x rel)
    (hf : ∀ a, Blind (f a) rel) : Blind (x >>= f) rel :=
  fun s s' hs => (h s s' hs).bind fun a t t' ht => hf a t t' ht

theorem bindGet {f : σ → EStateM ε σ α} (hf : ∀ s s', rel s s' → f s' = f s)
    (h : ∀ s, Blind (f s) rel) : Blind (get >>= f) rel :=
  fun s s' hs => Agrees.bindGet (hf s s' hs) (h s s s' hs)

theorem ite {c : Prop} [Decidable c] {x y : EStateM ε σ α} (hx : Blind x rel)
    (hy : Blind y rel) : Blind (if c then x else y) rel := by
  split
  · exact hx
  · exact hy

theorem discard {x : EStateM ε σ α} (h : Blind x rel) : Blind (discard x) rel := by
  have hbind : Blind (x >>= fun _ => pure PUnit.unit) rel := h.bind fun _ => blind_pure _
  exact hbind

end Blind

end Sequencing

/-! ### Twins -/

/-- Whether a block in use has the frame. -/
def Allocator.isInUse (a : Allocator) (f : Frame) : Bool := (a.entry? f).any FrameEntry.isInUse

/-- **Twins**: kernels that differ in memory only, and there not in frames that are in use or
`known`. -/
def Kernel.Twins (known : List Frame) (k k' : Kernel) : Prop :=
  ∃ memory, k' = { k with memory } ∧
    ∀ f, k.allocator.isInUse f = true ∨ f ∈ known → memory.contents f = k.memory.contents f

/-- Spaces that are the same, worked on in twin kernels. -/
def Workspace.Twins (known : List Frame) (w w' : Workspace) : Prop :=
  w'.space = w.space ∧ w.kernel.Twins known w'.kernel

namespace Allocator

variable {a a' : Allocator} {f g : Frame}

/-- Handing out one frame brings one frame into use. -/
theorem isInUse_of_allocate_one (h : a.allocate 1 = .ok (some f, a'))
    (hg : a'.isInUse g = true) : a.isInUse g = true ∨ f = g := by
  unfold allocate at h
  split at h
  · next b _ =>
      split at h
      · cases h
      · cases h
        cases hg
  · next m hm =>
      simp only [Except.ok.injEq, Prod.mk.injEq] at h
      obtain ⟨hfound, rfl⟩ := h
      have hmap : m.allocate 1 = (some f, m.occupy f.index 1) := by
        unfold FrameMap.allocate at hfound ⊢
        split at hfound
        · cases hfound
        · split at hfound
          · cases hfound
          · cases hfound
            simp_all
      by_cases hfg : f = g
      · exact Or.inr hfg
      · have hindex : ¬ (f.index ≤ g.index ∧ g.index < f.index + 1) := by
          rintro ⟨hle, hlt⟩
          exact hfg (Frame.ext (by omega))
        left
        simp only [isInUse, entry?, hmap, hm, FrameMap.entry?, FrameMap.occupy,
          FrameMap.getElem?_updateRange, if_neg hindex, Option.map_id'] at hg ⊢
        exact hg

/-- Giving a block back brings no frame into use. -/
theorem isInUse_of_free (h : a.free f = .ok a') (hg : a'.isInUse g = true) :
    a.isInUse g = true := by
  unfold free at h
  split at h
  · next b _ =>
      split at h
      · cases h
      · cases h
        cases hg
  · next m hm =>
      split at h
      · cases h
      · next m' hfree =>
          cases h
          obtain ⟨n, rfl⟩ := FrameMap.exists_vacate_of_free hfree
          simp only [isInUse, entry?, hm, FrameMap.entry?, FrameMap.vacate,
            FrameMap.getElem?_updateRange] at hg ⊢
          cases hentry : m.entries[g.index]? with
          | none => simp [hentry] at hg
          | some e =>
              simp only [hentry, Option.map_some, Option.any_some] at hg ⊢
              split at hg
              · cases hg
              · exact hg

end Allocator

namespace Kernel

variable {known : List Frame} {k k' : Kernel}

/-- What is in use need not be listed. -/
theorem Twins.know (h : k.Twins [] k') (hused : ∀ f ∈ known, k.allocator.isInUse f = true) :
    k.Twins known k' := by
  obtain ⟨memory, rfl, hbytes⟩ := h
  refine ⟨memory, rfl, fun f hf => hbytes f (Or.inl ?_)⟩
  rcases hf with hf | hf
  · exact hf
  · exact hused f hf

theorem Twins.forget (h : k.Twins known k') : k.Twins [] k' := by
  obtain ⟨memory, rfl, hbytes⟩ := h
  exact ⟨memory, rfl, fun f hf => hbytes f (hf.imp_right (absurd · List.not_mem_nil))⟩

/-- Changes that do not concern memory, and bring no frame into use. -/
theorem Twins.change (h : k.Twins known k') {g : Kernel → Kernel}
    (hmemory : ∀ memory, g { k with memory } = { g k with memory })
    (hkept : (g k).memory = k.memory)
    (hused : ∀ f, (g k).allocator.isInUse f = true → k.allocator.isInUse f = true) :
    (g k).Twins known (g k') := by
  obtain ⟨memory, rfl, hbytes⟩ := h
  refine ⟨memory, hmemory memory, fun f hf => ?_⟩
  rw [hkept]
  exact hbytes f (hf.imp_left (hused f))

/-- Frames that are in use, or known, have the same bytes. -/
theorem Twins.contents_eq (h : k.Twins known k') {f : Frame}
    (hf : k.allocator.isInUse f = true ∨ f ∈ known) :
    k'.memory.contents f = k.memory.contents f := by
  obtain ⟨memory, rfl, hbytes⟩ := h
  exact hbytes f hf

/-- Replacing the bytes of a frame, by the same bytes if the frame is in use or known. -/
theorem Twins.store (h : k.Twins known k') {f : Frame} {data data' : Contents}
    (hsame : k.allocator.isInUse f = true ∨ f ∈ known → data' = data) :
    Twins known { k with memory := k.memory.store f data }
      { k' with memory := k'.memory.store f data' } := by
  obtain ⟨memory, rfl, hbytes⟩ := h
  refine ⟨memory.store f data', rfl, fun g hg => ?_⟩
  show (memory.store f data').contents g = (k.memory.store f data).contents g
  rw [Memory.contents_store, Memory.contents_store]
  split
  · next hfg => exact hsame (hfg ▸ hg)
  · exact hbytes g hg

/-! ### Blind operations of the kernel -/

variable {α : Type}

/-- What does not concern memory and brings no frame into use is blind. -/
theorem blind_change {g : Kernel → Kernel}
    (hmemory : ∀ k memory, g { k with memory } = { g k with memory })
    (hkept : ∀ k, (g k).memory = k.memory)
    (hused : ∀ k f, (g k).allocator.isInUse f = true → k.allocator.isInUse f = true) :
    Blind (modify g : KernelM PUnit) (Twins known) :=
  blind_modify fun k _ h => h.change (hmemory k) (hkept k) (hused k)

theorem blind_halt (halt : Halt) : Blind (Kernel.halt halt : KernelM α) (Twins known) :=
  blind_throw _

theorem blind_fail (e : MemoryError) : Blind (fail e : KernelM α) (Twins known) := blind_throw _

theorem blind_orFail (x : Except MemoryError α) : Blind (orFail x) (Twins known) := by
  cases x with
  | ok a => exact blind_pure a
  | error e => exact blind_throw _

theorem blind_orAbort (x : Except Abort α) : Blind (orAbort x) (Twins known) := by
  cases x with
  | ok a => exact blind_pure a
  | error e => exact blind_throw _

/-- What the heap says does not depend on what is in the frames. -/
theorem blind_ask (room : Nat) : Blind (ask room) (Twins known) := by
  rintro k _ ⟨memory, rfl, hbytes⟩
  exact ⟨rfl, memory, rfl, hbytes⟩

theorem blind_claim (room : Nat) : Blind (claim room) (Twins known) :=
  (blind_ask room).bind fun _ => .ite (blind_pure _) (blind_fail _)

theorem blind_record (e : Event) : Blind (record e) (Twins known) :=
  blind_change (fun _ _ => rfl) (fun _ => rfl) fun _ _ h => h

theorem blind_invalidate (space : SpaceId) : Blind (invalidate space) (Twins known) :=
  blind_change (fun _ _ => rfl) (fun _ => rfl) fun _ _ h => h

theorem blind_freshSpace : Blind freshSpace (Twins known) := by
  rintro k _ ⟨memory, rfl, hbytes⟩
  exact ⟨rfl, memory, rfl, hbytes⟩

theorem blind_freshPid : Blind freshPid (Twins known) := by
  rintro k _ ⟨memory, rfl, hbytes⟩
  exact ⟨rfl, memory, rfl, hbytes⟩

theorem blind_cacheMapping (e : CacheEntry) : Blind (cacheMapping e) (Twins known) := by
  unfold cacheMapping
  refine Blind.bindGet ?_ fun k => (blind_orFail _).bind fun placed => ?_
  · rintro k _ ⟨memory, rfl, -⟩
    rfl
  · have hplaced : Blind (modify fun k : Kernel => { k with cache := placed.2 } : KernelM PUnit)
        (Twins known) := blind_change (fun _ _ => rfl) (fun _ => rfl) fun _ _ h => h
    exact hplaced.bind fun _ => (blind_record _).bind fun _ => blind_pure _

/-- Bytes that are written are the same ones afterwards if the others in the frame were. -/
theorem blind_writeFrame (f : Frame) (offset : Nat) (bytes : List UInt8) :
    Blind (writeFrame f offset bytes) (Twins known) :=
  blind_modify fun _ _ h => h.store fun hf => by rw [h.contents_eq hf]

/-- A known frame may be copied. -/
theorem blind_copyFrame (target : Frame) {source : Frame} (hsource : source ∈ known) :
    Blind (copyFrame target source) (Twins known) :=
  blind_modify fun _ _ h => h.store fun _ => h.contents_eq (Or.inr hsource)

/-- Freeing frames, whatever is in them. -/
theorem blind_free (f : Frame) : Blind (free f) (Twins known) := by
  have hfree : ∀ k : Kernel, free f k =
      match k.allocator.free f with
      | .ok a => .ok ⟨⟩ { k with allocator := a }
      | .error h => .error (.halted h) k := by
    intro k
    show (orHalt (k.allocator.free f) >>= fun a =>
      (modify fun k => { k with allocator := a } : KernelM PUnit)) k = _
    cases k.allocator.free f <;> rfl
  rintro k _ ⟨memory, rfl, hbytes⟩
  unfold Agrees
  rw [hfree, hfree]
  cases hgiven : k.allocator.free f with
  | error h => exact ⟨rfl, memory, rfl, hbytes⟩
  | ok a =>
      refine ⟨rfl, memory, rfl, fun g hg => hbytes g ?_⟩
      exact hg.imp_left (Allocator.isInUse_of_free hgiven)

/-- **A frame that is handed out** comes with different bytes, but not once it is filled with
zeroes. -/
theorem agrees_allocate_one (h : k.Twins known k') :
    Agrees (allocate 1) k k'
      (fun found t t' =>
        match found with
        | none => t.Twins known t'
        | some f => Twins known { t with memory := t.memory.zero f }
            { t' with memory := t'.memory.zero f })
      fun _ => Twins known := by
  have hallocate : ∀ k : Kernel, allocate 1 k =
      match k.allocator.allocate 1 with
      | .ok (found, a) => .ok found { k with allocator := a }
      | .error h => .error (.halted h) k := by
    intro k
    show (orHalt (k.allocator.allocate 1) >>= fun taken =>
      (modify fun k => { k with allocator := taken.2 } : KernelM PUnit) >>= fun _ =>
        pure taken.1) k = _
    cases k.allocator.allocate 1 <;> rfl
  obtain ⟨memory, rfl, hbytes⟩ := h
  unfold Agrees
  rw [hallocate, hallocate]
  cases htaken : k.allocator.allocate 1 with
  | error h => exact ⟨rfl, memory, rfl, hbytes⟩
  | ok taken =>
      obtain ⟨found, a⟩ := taken
      cases found with
      | none =>
          obtain rfl := Allocator.allocate_eq_none htaken
          exact ⟨rfl, memory, rfl, hbytes⟩
      | some f =>
          refine ⟨rfl, memory.zero f, rfl, fun g hg => ?_⟩
          show (memory.zero f).contents g = (k.memory.zero f).contents g
          rw [Memory.contents_zero, Memory.contents_zero]
          split
          · rfl
          · next hfg =>
              refine hbytes g (hg.imp_left fun hused => ?_)
              exact (Allocator.isInUse_of_allocate_one htaken hused).resolve_right hfg

end Kernel

/-! ### Operations on a part -/

section Parts

variable {α : Type} {known : List Frame}

/-- Working on the kernel, with the space at hand. -/
theorem Agrees.onKernel {x : KernelM α} {w w' : Workspace} {ok : α → Kernel → Kernel → Prop}
    {ab : Abort → Kernel → Kernel → Prop} (hspace : w'.space = w.space)
    (h : Agrees x w.kernel w'.kernel ok ab) :
    Agrees (SpaceM.onKernel x) w w' (fun a t t' => t'.space = t.space ∧ ok a t.kernel t'.kernel)
      fun e t t' => t'.space = t.space ∧ ab e t.kernel t'.kernel := by
  simp only [Agrees, SpaceM.onKernel]
  rcases h.cases with ⟨a, k, k', hx, hx', hok⟩ | ⟨e, k, k', hx, hx', hab⟩
  · simp only [hx, hx']
    exact ⟨trivial, hspace, hok⟩
  · simp only [hx, hx']
    exact ⟨trivial, hspace, hab⟩

/-- Looking at the space, which is the same for both. -/
theorem Agrees.bindSpace {f : AddressSpace → SpaceM α} {w w' : Workspace}
    {ok : α → Workspace → Workspace → Prop} {ab : Abort → Workspace → Workspace → Prop}
    (hspace : w'.space = w.space) (h : Agrees (f w.space) w w' ok ab) :
    Agrees (SpaceM.space >>= f) w w' ok ab := by
  have hlook : Agrees SpaceM.space w w' (fun s t t' => s = w.space ∧ t = w ∧ t' = w') ab :=
    ⟨hspace, rfl, rfl, rfl⟩
  refine hlook.bind ?_
  rintro _ _ _ ⟨rfl, rfl, rfl⟩
  exact h

namespace Blind

theorem onKernel {x : KernelM α} (h : Blind x (Kernel.Twins known)) :
    Blind (SpaceM.onKernel x) (Workspace.Twins known) :=
  fun w w' hw => Agrees.onKernel hw.1 (h w.kernel w'.kernel hw.2)

theorem space : Blind SpaceM.space (Workspace.Twins known) := fun _ _ hw => ⟨hw.1, hw⟩

theorem modifySpace (f : AddressSpace → AddressSpace) :
    Blind (SpaceM.modifySpace f) (Workspace.Twins known) :=
  fun _ _ hw => ⟨rfl, congrArg f hw.1, hw.2⟩

theorem reporting {x : SpaceM α} (h : Blind x (Workspace.Twins known)) (e : Event) :
    Blind (x.reporting e) (Workspace.Twins known) := by
  intro w w' hw
  simp only [Agrees, SpaceM.reporting]
  rcases (h w w' hw).cases with ⟨a, t, t', hx, hx', ht⟩ | ⟨error | halt, t, t', hx, hx', ht⟩
  · simp only [hx, hx']
    exact ⟨trivial, ht⟩
  · simp only [hx, hx']
    exact ⟨trivial, ht.1, ht.2.change (g := fun k => { k with journal := k.journal.push e })
      (fun _ => rfl) rfl fun _ hf => hf⟩
  · simp only [hx, hx']
    exact ⟨trivial, ht⟩

theorem cleaningUp {x : SpaceM α} (h : Blind x (Workspace.Twins known)) {undo : KernelM Unit}
    (hundo : Blind undo (Kernel.Twins known)) :
    Blind (x.cleaningUp undo) (Workspace.Twins known) := by
  intro w w' hw
  simp only [Agrees, SpaceM.cleaningUp]
  rcases (h w w' hw).cases with ⟨a, t, t', hx, hx', ht⟩ | ⟨error | halt, t, t', hx, hx', ht⟩
  · simp only [hx, hx']
    exact ⟨trivial, ht⟩
  · simp only [hx, hx']
    rcases (hundo t.kernel t'.kernel ht.2).cases with
      ⟨_, k, k', hk, hk', hkernel⟩ | ⟨_, k, k', hk, hk', hkernel⟩
    · simp only [hk, hk']
      exact ⟨trivial, ht.1, hkernel⟩
    · simp only [hk, hk']
      exact ⟨trivial, ht.1, hkernel⟩
  · simp only [hx, hx']
    exact ⟨trivial, ht⟩

/-- Attempting is blind: of the space that is worked on both runs know the same. -/
theorem attempt {x : SpaceM α} (h : Blind x (Workspace.Twins known)) (s : AddressSpace) :
    Blind (x.attempt s) (Kernel.Twins known) := by
  intro k k' hk
  simp only [Agrees, SpaceM.attempt]
  rcases (h ⟨k, s⟩ ⟨k', s⟩ ⟨rfl, hk⟩).cases with
    ⟨a, t, t', hx, hx', ht⟩ | ⟨error | halt, t, t', hx, hx', ht⟩
  · simp only [hx, hx', ht.1]
    exact ⟨trivial, ht.2⟩
  · simp only [hx, hx', ht.1]
    exact ⟨trivial, ht.2⟩
  · simp only [hx, hx']
    exact ⟨trivial, ht.2⟩

end Blind

end Parts

end DemandPaging
