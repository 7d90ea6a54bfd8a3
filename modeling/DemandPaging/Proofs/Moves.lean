import DemandPaging.Machine.Basic
import DemandPaging.Proofs.Ending
import DemandPaging.Proofs.Transit
import Mathlib.Logic.Relation

/-!
# What an operation can do to a space

There are some fifteen operations on an address space, and several of them are loops that may
end anywhere.  What they do to the space and to the kernel is always a sequence of a few
elementary changes.  This module says what these are (`Workspace.Move`), and shows that every
operation is a path of them, whether it answers or aborts (`Walks`).

A property that every move keeps is then kept by every operation, in the middle of its loops
and on its way out of them as well.  No proof elsewhere has to open an operation for that.

**What a move says.**  A move names the condition under which operations make it: a page is
mapped only if it had no mapping and to a frame just allocated, bytes are stored only in frames
that the space maps, regions are declared only before loading, and that a space was prepared
is reported only when all pages of its load are mapped.

**Refusals are moves.**  When the heap refuses the room for a mapping, the frame taken for it goes
back, but the heap has answered and the frame has been filled with zeroes.
-/

namespace DemandPaging

/-! ### Halts that must not happen -/

/-- **Broken ownership**: the halts that would mean that a frame or a page was accounted for
twice. -/
def Abort.BreaksOwnership : Abort → Prop
  | .halted (.notBlockHead _) => True
  | .halted (.alreadyMapped _) => True
  | _ => False

/-! Arithmetic on addresses may stop the kernel, but says nothing about ownership. -/

theorem Word.not_breaksOwnership_of_add {a b : Nat} {h : Halt} (herror : Word.add a b = .error h) :
    ¬ (Abort.halted h).BreaksOwnership := by
  unfold Word.add at herror
  split at herror
  · cases herror
  · cases herror
    exact fun hbreak => hbreak

theorem VirtAddr.not_breaksOwnership_of_add {a : VirtAddr} {n : Nat} {h : Halt}
    (herror : a.add n = .error h) : ¬ (Abort.halted h).BreaksOwnership := by
  unfold VirtAddr.add at herror
  split at herror
  · next hsum =>
      cases herror
      exact Word.not_breaksOwnership_of_add hsum
  · split at herror
    · cases herror
    · cases herror
      exact fun hbreak => hbreak

theorem PhysAddr.not_breaksOwnership_of_ofNat {n : Nat} {h : Halt}
    (herror : PhysAddr.ofNat n = .error h) : ¬ (Abort.halted h).BreaksOwnership := by
  unfold PhysAddr.ofNat at herror
  split at herror
  · cases herror
  · cases herror
    exact fun hbreak => hbreak

/-- Whether the event says that a space was prepared for load. -/
def Event.isPreparation : Event → Bool
  | .prepared _ _ => true
  | _ => false

/-- Preparing the space with this number for load has succeeded at some time: success, and
nothing else, is reported like this. -/
def Kernel.HasPrepared (k : Kernel) (i : SpaceId) : Prop := ∃ n, Event.prepared i n ∈ k.journal

namespace AddressSpace

/-- The pages that preparing for load maps. -/
def loadPages (l : RegionList) : List Page :=
  l.regions.flatMap Region.pages ++ [initialStackPage, initialHeapPage l]

/-- Every page of the load is mapped. -/
def IsPrepared (s : AddressSpace) : Prop :=
  s.loaded = true ∧ ∀ p ∈ loadPages s.regions, (s.table.find? p).isSome

end AddressSpace

namespace Workspace

/-- The workspace with another kernel. -/
def withKernel (w : Workspace) (k : Kernel) : Workspace := { w with kernel := k }

/-- The workspace with another page table. -/
def withTable (w : Workspace) (t : PageTable) : Workspace :=
  { w with space := { w.space with table := t } }

/-- The workspace after an event was reported. -/
def report (w : Workspace) (e : Event) : Workspace :=
  { w with kernel := { w.kernel with journal := w.kernel.journal.push e } }

/-- The workspace after bytes of a frame were replaced. -/
def store (w : Workspace) (f : Frame) (data : Contents) : Workspace :=
  { w with kernel := { w.kernel with memory := w.kernel.memory.store f data } }

/-- The heap grants the room that the mapping of a page takes. -/
def HasRoom (w : Workspace) (p : Page) : Prop :=
  w.kernel.grants (w.space.table.wanted p) = true

/-- The workspace after a frame was taken from an allocator and a page was mapped to it. -/
def install (w : Workspace) (p : Page) (a : Allocator) (f : Frame) (t : PageTable) : Workspace :=
  ⟨{ w.kernel.asked (w.space.table.wanted p) with
      allocator := a, memory := w.kernel.memory.zero f },
    { w.space with table := t }⟩

/-- The workspace after the heap has refused the room for the mapping of a page, where `a` is what
has become of the allocator. -/
def turnBack (w : Workspace) (p : Page) (a : Allocator) (f : Frame) : Workspace :=
  w.withKernel { w.kernel.asked (w.space.table.wanted p) with
    allocator := a, memory := w.kernel.memory.zero f }

/-- **Moves**: the elementary changes of a space and the kernel. -/
inductive Move (w : Workspace) : Workspace → Prop where
  /-- Something else than a preparation is reported. -/
  | reported (e : Event) (other : e.isPreparation = false) : Move w (w.report e)
  /-- A preparation is reported. -/
  | prepared (n : Nat) (done : w.space.IsPrepared) : Move w (w.report (.prepared w.space.id n))
  /-- The heap is asked for room. -/
  | asked (room : Nat) : Move w (w.withKernel (w.kernel.asked room))
  /-- A page is mapped to a frame of zeroes. -/
  | mapped (p : Page) (flags : EntryFlags) (f : Frame) (a : Allocator) (t : PageTable)
      (grown : Option Nat) (room : w.HasRoom p)
      (taken : w.kernel.allocator.allocate 1 = .ok (some f, a))
      (inserted : w.space.table.insert true ⟨p, f, flags⟩ = .ok (t, grown)) :
      Move w (w.install p a f t)
  /-- There is no room for the mapping of a page, and the frame goes back. -/
  | refused (p : Page) (f : Frame) (a a' : Allocator) (cramped : ¬ w.HasRoom p)
      (taken : w.kernel.allocator.allocate 1 = .ok (some f, a)) (back : a.GivesBack f a') :
      Move w (w.turnBack p a' f)
  /-- Mapped pages get other flags. -/
  | recoloured (t : PageTable) (flags : PageEntry → EntryFlags)
      (same : t.entries = w.space.table.entries.map fun e => { e with flags := flags e })
      (room : t.capacity = w.space.table.capacity) (count : t.inUse = w.space.table.inUse) :
      Move w (w.withTable t)
  /-- Stack and heap get other bounds, and the space is loaded from now on or as before. -/
  | settled (bounds : Bounds) (loaded : Bool) (kept : w.space.loaded = true → loaded = true) :
      Move w { w with space := { w.space with bounds, loaded } }
  | declared (r : Region) (open' : w.space.loaded = false) :
      Move w { w with space := { w.space with regions := w.space.regions.push r } }
  /-- Bytes of a mapped page are replaced. -/
  | stored (e : PageEntry) (data : Contents) (own : e ∈ w.space.table.entries) :
      Move w (w.store e.frame data)
  /-- The mapping of a page is cached. -/
  | cached (e : PageEntry) (slot : Nat) (c : MappingCache) (own : e ∈ w.space.table.entries)
      (placed : w.kernel.cache.insert ⟨w.space.id, e.page, e.frame, e.flags⟩ = .ok (slot, c)) :
      Move w (w.withKernel { w.kernel with cache := c })
  /-- What is cached of the space is dropped. -/
  | dropped :
      Move w (w.withKernel { w.kernel with cache := w.kernel.cache.invalidate w.space.id })

/-- **Paths**: any number of moves. -/
def Path : Workspace → Workspace → Prop := Relation.ReflTransGen Move

theorem Path.refl (w : Workspace) : w.Path w := Relation.ReflTransGen.refl

theorem Path.trans {w w₁ w₂ : Workspace} (h : w.Path w₁) (h' : w₁.Path w₂) : w.Path w₂ :=
  Relation.ReflTransGen.trans h h'

theorem Move.path {w w' : Workspace} (h : w.Move w') : w.Path w' := Relation.ReflTransGen.single h

/-- The page has a mapping. -/
def Maps (w : Workspace) (p : Page) : Prop := (w.space.table.find? p).isSome = true

/-- No frame is left. -/
def IsExhausted (w : Workspace) : Prop := ∃ a, w.kernel.allocator.allocate 1 = .ok (none, a)

end Workspace

/-- **Walks.**  However the operation ends, it has made moves only and broken no ownership;
`ok` holds if it answers, `ab` if it aborts. -/
def Walks {α : Type} (x : SpaceM α) (w : Workspace) (ok : α → Workspace → Prop)
    (ab : Abort → Workspace → Prop) : Prop :=
  Ends x w (fun a w' => w.Path w' ∧ ok a w')
    (fun e w' => w.Path w' ∧ ¬ e.BreaksOwnership ∧ ab e w')

namespace Walks

variable {α β : Type} {w : Workspace} {x : SpaceM α} {Q Q' : α → Workspace → Prop}
  {R R' : Abort → Workspace → Prop}

theorem mono (h : Walks x w Q R) (hok : ∀ a w', w.Path w' → Q a w' → Q' a w')
    (hab : ∀ e w', w.Path w' → R e w' → R' e w') : Walks x w Q' R' :=
  Ends.mono h (fun a w' h' => ⟨h'.1, hok a w' h'.1 h'.2⟩)
    (fun e w' h' => ⟨h'.1, h'.2.1, hab e w' h'.1 h'.2.2⟩)

theorem pure {a : α} (h : Q a w) : Walks (Pure.pure a) w Q R := ⟨.refl w, h⟩

/-- One operation after another. -/
theorem bind {f : α → SpaceM β} {Q' : β → Workspace → Prop} (h : Walks x w Q R)
    (hf : ∀ a w₁, w.Path w₁ → Q a w₁ → Walks (f a) w₁ Q' R) : Walks (x >>= f) w Q' R := by
  unfold Walks
  rw [ends_bind]
  refine Ends.mono h (fun a w₁ h₁ => ?_) (fun _ _ h₁ => h₁)
  refine Ends.mono (hf a w₁ h₁.1 h₁.2) (fun b w₂ h₂ => ⟨h₁.1.trans h₂.1, h₂.2⟩) fun e w₂ h₂ => ?_
  exact ⟨h₁.1.trans h₂.1, h₂.2⟩

/-- Looking at the space first. -/
theorem bindSpace {f : AddressSpace → SpaceM α} (h : Walks (f w.space) w Q R) :
    Walks (SpaceM.space >>= f) w Q R := h

/-- Changing the space by a move. -/
theorem modifySpace {f : AddressSpace → AddressSpace} {Q : Unit → Workspace → Prop}
    (hmove : w.Path { w with space := f w.space }) (h : Q () { w with space := f w.space }) :
    Walks (SpaceM.modifySpace f) w Q R := ⟨hmove, h⟩

/-- Reporting anything but a preparation. -/
theorem record {e : Event} {Q : Unit → Workspace → Prop} (other : e.isPreparation = false)
    (h : Q () (w.report e)) : Walks (SpaceM.onKernel (Kernel.record e)) w Q R :=
  ⟨(Workspace.Move.reported e other).path, h⟩

/-- Giving up without a halt of ownership. -/
theorem abort {e : Abort} (hbenign : ¬ e.BreaksOwnership) (h : R e w) :
    Walks (throw e : SpaceM α) w Q R := ⟨.refl w, hbenign, h⟩

end Walks

end DemandPaging
