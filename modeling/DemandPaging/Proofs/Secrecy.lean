import DemandPaging.Proofs.Isolation
import DemandPaging.Proofs.Residue

/-!
# No stale data

What a frame held before it was handed out is never seen by a program, and decides nothing
(`Machine.serve_eq_of_twins`): two machines that differ only in the bytes of frames that are not in
use answer every sequence of requests the same, byte for byte, and differ in nothing else
afterwards.

**Which operations.**  All that are done for spaces and processes.  Other parts of the kernel ask
for bare frames, look into memory by physical address, and may well see what was left there; so
requests about frames are not among them (`Request.isOfPrograms`).

**What custody is for.**  Reading and copying are the only operations that look at bytes, and they
look into frames that a space maps.  Such frames are in use, because custody says so.
-/

namespace DemandPaging

/-! ### Operations on spaces -/

namespace AddressSpace

open SpaceM Blind

variable {known : List Frame}

/-- An operation on a space that does not look at what others have left. -/
abbrev BlindOn {α : Type} (known : List Frame) (x : SpaceM α) : Prop :=
  Blind x (Workspace.Twins known)

theorem blind_record (e : Event) : BlindOn known (SpaceM.onKernel (Kernel.record e)) :=
  onKernel (Kernel.blind_record e)

theorem blind_addEntry (e : PageEntry) : BlindOn known (addEntry e) := by
  refine bind space fun s => bind (onKernel (Kernel.blind_ask _)) fun granted => ?_
  refine bind space fun s => bind (onKernel (Kernel.blind_orAbort _)) fun p => ?_
  refine bind (modifySpace _) fun _ => ?_
  cases p.2 with
  | some n => exact blind_record _
  | none => exact blind_pure _

/-- **Mapping a page is blind**, because the frame is filled with zeroes first. -/
theorem blind_mapZeroed (p : Page) (flags : EntryFlags) : BlindOn known (mapZeroed p flags) := by
  intro w w' hw
  unfold mapZeroed
  refine Agrees.bind (Agrees.mono (Agrees.onKernel hw.1 (Kernel.agrees_allocate_one hw.2))
    (fun _ _ _ h => h) fun _ _ _ h => h) fun found t t' ht => ?_
  cases found with
  | none => exact onKernel (Kernel.blind_fail _) t t' ht
  | some f =>
      -- only now are the two runs related again
      refine Agrees.bind (show Agrees _ t t' (fun _ => Workspace.Twins known) _ from ⟨rfl, ht⟩)
        fun _ u u' hu => ?_
      exact bind (cleaningUp (blind_addEntry _) (Kernel.blind_free f)) (fun _ => blind_pure f)
        u u' hu

theorem blind_ensureMapped (p : Page) (flags : EntryFlags) :
    BlindOn known (ensureMapped p flags) := by
  refine bind space fun s => ?_
  split
  · exact blind_pure _
  · exact (blind_mapZeroed p flags).discard

theorem blind_backPagesFrom (r : Region) :
    ∀ (i n : Nat) (h : i + n ≤ r.pageCount), BlindOn known (backPagesFrom r i n h)
  | _, 0, _ => blind_pure _
  | i, n + 1, _ => bind (blind_ensureMapped _ _) fun _ => blind_backPagesFrom r (i + 1) n _

theorem blind_backRegions : ∀ rs : List Region, BlindOn known (backRegions rs)
  | [] => blind_pure _
  | r :: rest => bind (blind_backPagesFrom r 0 _ _) fun _ => blind_backRegions rest

theorem blind_prepareLoad : BlindOn known prepareLoad :=
  bind (modifySpace _) fun _ => bind space fun _ => bind (blind_backRegions _) fun _ =>
    bind (blind_ensureMapped _ _) fun _ => bind (modifySpace _) fun _ => bind space fun _ =>
      bind (blind_ensureMapped _ _) fun _ => bind (modifySpace _) fun _ => bind space fun _ =>
        blind_record _

theorem blind_declareRegion (a : VirtAddr) (size : Nat) (permission : Permission) :
    BlindOn known (declareRegion a size permission) := by
  unfold declareRegion
  refine bind space fun s => ?_
  have hdeclare : BlindOn known (do
      let r ← SpaceM.onKernel (Kernel.orFail (Region.declare a size permission))
      SpaceM.onKernel (Kernel.record (.regionDeclared r))
      SpaceM.onKernel (Kernel.claim (← SpaceM.space).regions.wanted)
      SpaceM.modifySpace fun s => { s with regions := s.regions.push r }) :=
    bind (onKernel (Kernel.blind_orFail _)) fun r => bind (blind_record _) fun _ =>
      bind space fun _ => bind (onKernel (Kernel.blind_claim _)) fun _ => modifySpace _
  exact ite (bind (onKernel (Kernel.blind_halt _)) fun _ => hdeclare) hdeclare

/-- Writing piece after piece, by induction on the pieces. -/
theorem blind_writeFrom (s : AddressSpace) (a : VirtAddr) (done : Nat) (bytes : List UInt8) :
    Blind (s.writeFrom a done bytes) (Kernel.Twins known) := by
  induction hn : bytes.length using Nat.strongRecOn generalizing done bytes with
  | ind n ih =>
      subst hn
      by_cases hbytes : bytes = []
      · subst hbytes
        rw [writeFrom, dif_pos rfl]
        exact blind_pure _
      · have hlength : 0 < bytes.length := List.length_pos_iff.mpr hbytes
        cases hpiece : s.piece a done bytes.length with
        | error e =>
            rw [writeFrom_of_error hpiece hbytes]
            exact blind_throw e
        | ok p =>
            have hpos := piece_pos hpiece hlength
            have hless : (bytes.drop p.2.2).length < bytes.length := by
              rw [List.length_drop]
              omega
            rw [writeFrom_of_ok hpiece hbytes]
            exact bind (Kernel.blind_writeFrame _ _ _) fun _ => ih _ hless _ _ rfl

/-- Copying a page whose frame is known. -/
theorem blind_copyEntry {e : PageEntry} (he : e.frame ∈ known) : BlindOn known (copyEntry e) := by
  refine bind ?_ fun f => bind (onKernel (Kernel.blind_copyFrame f he)) fun _ => modifySpace _
  refine bind space fun s => ?_
  split
  · exact blind_pure _
  · exact blind_mapZeroed _ _

theorem blind_copyEntries :
    ∀ {es : List PageEntry}, (∀ e ∈ es, e.frame ∈ known) → BlindOn known (copyEntries es)
  | [], _ => blind_pure _
  | _ :: _, hknown => bind (blind_copyEntry (hknown _ List.mem_cons_self)) fun _ =>
      blind_copyEntries fun e he => hknown e (List.mem_cons_of_mem _ he)

/-- Making a space a copy of one whose frames are known. -/
theorem blind_copyFrom (source : AddressSpace) : BlindOn source.frames (copyFrom source) := by
  rw [copyFrom_eq]
  refine bind (ite blind_prepareLoad (blind_pure _)) fun _ => bind (blind_copyEntries ?_) fun _ =>
    modifySpace _
  exact fun e he => List.mem_map_of_mem he

end AddressSpace

/-! ### Operations of the kernel -/

section Kernel

open Blind

variable {known : List Frame} {k k' : Kernel}

theorem PageTable.blind_freeEntries :
    ∀ es : List PageEntry, Blind (freeEntries es) (Kernel.Twins known)
  | [] => blind_pure ()
  | e :: rest => bind (Kernel.blind_free e.frame) fun _ => blind_freeEntries rest

namespace AddressSpace

theorem blind_destroy (s : AddressSpace) : Blind s.destroy (Kernel.Twins known) :=
  bind (Kernel.blind_record _) fun _ => bind (PageTable.blind_freeEntries _) fun _ =>
    Kernel.blind_record _

theorem blind_create : Blind create (Kernel.Twins known) :=
  bind (Kernel.blind_claim _) fun _ => bind (Kernel.blind_claim _) fun _ =>
    bind Kernel.blind_freshSpace fun _ => blind_pure _

theorem blind_duplicate (source : AddressSpace) :
    Blind source.duplicate (Kernel.Twins source.frames) := by
  refine bind (Kernel.blind_claim _) fun _ => bind (Kernel.blind_claim _) fun _ => ?_
  refine bind Kernel.blind_freshSpace fun id => bind (attempt (blind_copyFrom source) _) fun p => ?_
  obtain ⟨outcome, s⟩ := p
  cases outcome with
  | ok _ => exact bind (Kernel.blind_record _) fun _ => blind_pure _
  | error e =>
      exact bind (Kernel.blind_record _) fun _ => bind (blind_destroy s) fun _ =>
        Kernel.blind_fail e

end AddressSpace

namespace Process

theorem blind_create (s : AddressSpace) (entryPoint stackPointer : VirtAddr) :
    Blind (create s entryPoint stackPointer) (Kernel.Twins known) :=
  bind Kernel.blind_freshPid fun _ => bind (Kernel.blind_record _) fun _ => blind_pure _

theorem blind_forkWith (parent : Process) (s : AddressSpace) :
    Blind (parent.forkWith s) (Kernel.Twins known) :=
  bind (blind_create s _ _) fun _ => blind_pure _

theorem blind_invalidate (p : Process) : Blind p.invalidate (Kernel.Twins known) := by
  unfold invalidate
  split
  · exact Kernel.blind_invalidate _
  · exact blind_pure _

theorem blind_surrender (p : Process) : Blind p.surrender (Kernel.Twins known) := by
  unfold surrender
  split
  · exact bind (Kernel.blind_invalidate _) fun _ => AddressSpace.blind_destroy _
  · exact blind_pure _

theorem blind_exit (p : Process) (status : Int) : Blind (p.exit status) (Kernel.Twins known) :=
  bind (blind_surrender p) fun _ => bind (Kernel.blind_record _) fun _ => blind_pure _

theorem blind_killOnFault (p : Process) (e : MemoryError) :
    Blind (p.killOnFault e) (Kernel.Twins known) :=
  ite (bind (Kernel.blind_record _) fun _ => bind (blind_exit p _) fun _ => blind_pure _)
    (blind_pure _)

/-- Forking is blind if what is to be copied is known. -/
theorem blind_fork (parent : Process) (hknown : ∀ s, parent.space = some s → known = s.frames) :
    Blind parent.fork (Kernel.Twins known) := by
  unfold fork
  split
  · exact Kernel.blind_fail _
  · next s hs =>
      obtain rfl := hknown s hs
      exact bind (AddressSpace.blind_duplicate s) fun copy => bind (blind_forkWith parent copy)
        fun _ => bind (Kernel.blind_record _) fun _ => blind_pure _

end Process

namespace Program

theorem blind_declareAll :
    ∀ segments : List Segment, AddressSpace.BlindOn known (declareAll segments)
  | [] => blind_pure _
  | _ :: rest => bind (AddressSpace.blind_declareRegion _ _ _) fun _ => blind_declareAll rest

theorem blind_writeAll :
    ∀ segments : List Segment, AddressSpace.BlindOn known (writeAll segments)
  | [] => blind_pure _
  | _ :: rest => bind space fun s => bind (onKernel (AddressSpace.blind_writeFrom s _ 0 _))
      fun _ => blind_writeAll rest

theorem blind_load (segments : List Segment) : AddressSpace.BlindOn known (load segments) :=
  bind (blind_declareAll segments) fun _ => bind AddressSpace.blind_prepareLoad fun _ =>
    bind (blind_writeAll segments) fun _ => bind (modifySpace _) fun _ =>
      bind space fun _ => blind_pure _

theorem blind_start (segments : List Segment) (entryPoint : VirtAddr) :
    Blind (start segments entryPoint) (Kernel.Twins known) := by
  refine bind AddressSpace.blind_create fun s => bind (attempt (blind_load segments) s) fun p => ?_
  obtain ⟨outcome, s'⟩ := p
  cases outcome with
  | ok stackPointer =>
      exact bind (Process.blind_create s' entryPoint stackPointer) fun _ =>
        bind (Kernel.blind_record _) fun _ => blind_pure _
  | error e => exact bind (AddressSpace.blind_destroy s') fun _ => Kernel.blind_fail e

end Program

namespace PageFault

theorem blind_checkAccess (access : Access) (flags : EntryFlags) (a : VirtAddr) :
    Blind (checkAccess access flags a) (Kernel.Twins known) :=
  ite (blind_pure _) (bind (Kernel.blind_record _) fun _ => Kernel.blind_fail _)

theorem blind_mapCovered (p : Page) (c : Coverage) :
    AddressSpace.BlindOn known (AddressSpace.mapCovered p c) :=
  bind (AddressSpace.blind_mapZeroed p _) fun _ => bind (modifySpace _) fun _ => blind_pure _

theorem blind_backing (access : Access) (a : VirtAddr) (c : Coverage) :
    AddressSpace.BlindOn known (backing access a c) := by
  refine bind space fun s => ?_
  split
  · exact bind (AddressSpace.blind_record _) fun _ => blind_pure _
  · exact bind (onKernel (blind_checkAccess access _ a)) fun _ =>
      bind (reporting (blind_mapCovered a.page c) _) fun f =>
        bind (AddressSpace.blind_record _) fun _ => blind_pure _

theorem blind_fillCache (a : VirtAddr) (f : Frame) (flags : EntryFlags) :
    AddressSpace.BlindOn known (fillCache a f flags) :=
  bind space fun _ => discard (reporting (onKernel (Kernel.blind_cacheMapping _)) _)

theorem blind_resolve (access : Access) (a : VirtAddr) :
    AddressSpace.BlindOn known (resolve access a) := by
  refine bind space fun s => ?_
  split
  · exact bind (AddressSpace.blind_record _) fun _ => onKernel (Kernel.blind_fail _)
  · exact bind (blind_backing access a _) fun _ =>
      bind (onKernel (blind_checkAccess access _ a)) fun _ => blind_fillCache a _ _

theorem blind_handle (access : Access) (a : VirtAddr) (c : Current) :
    Blind (handle access a c) (Kernel.Twins known) := by
  refine bind (Kernel.blind_record _) fun _ => ite (bind (Kernel.blind_record _) fun _ =>
    blind_pure _) ?_
  cases c with
  | idle => exact blind_pure _
  | bare => exact blind_pure _
  | within s => exact bind (attempt (blind_resolve access a) s) fun _ => blind_pure _

end PageFault

end Kernel

/-! ### Looking at bytes -/

/-- The frames of a space in custody are in use. -/
theorem Custody.isInUse {k : Kernel} {live : List AddressSpace} {held : List Block} {tally : Tally}
    (h : Custody k live held tally) {s : AddressSpace} (hs : s ∈ live) {f : Frame}
    (hf : f ∈ s.frames) : k.allocator.isInUse f = true := by
  obtain ⟨m, hm, hfollows⟩ := h.follows
  have hblock : (⟨f, 1⟩ : Block) ∈ mappedBlocks live ++ held :=
    List.mem_append_left _ (List.mem_flatMap.mpr ⟨s, hs, List.mem_map_of_mem hf⟩)
  have hentry := hfollows.recorded _ hblock f.index (Block.holds_head Nat.one_pos)
  simp [Allocator.isInUse, Allocator.entry?, hm, FrameMap.entry?, hentry, FrameEntry.isInUse]

/-- Reading a space reads its own frames. -/
theorem AddressSpace.read_congr {s : AddressSpace} {m m' : Memory}
    (h : ∀ f ∈ s.frames, m'.contents f = m.contents f) (a : VirtAddr) (count : Nat) :
    s.read m' a count = s.read m a count := by
  rw [read_eq, read_eq, view_congr h]

/-! ### Requests -/

/-- Requests on behalf of spaces and processes: all but those of other parts of the kernel about
bare frames, and about page tables of their own. -/
def Request.isOfPrograms : Request → Bool
  | .frames _ => false
  | .table _ _ => false
  | _ => true

namespace Machine

variable {α β : Type} {m m' : Machine} {held : List Block} {tally : Tally}

/-- **Twins**: machines that are the same, but for the bytes of frames that are not in use. -/
structure Twins (m m' : Machine) : Prop where
  kernel : m.kernel.Twins [] m'.kernel
  tables : m'.tables = m.tables
  spaces : m'.spaces = m.spaces
  processes : m'.processes = m.processes

/-- Whatever somebody may have left in a frame that is not in use, the machine has a twin with
it. -/
theorem twins_store {f : Frame} (hf : m.kernel.allocator.isInUse f = false) (data : Contents) :
    m.Twins { m with kernel := { m.kernel with memory := m.kernel.memory.store f data } } := by
  refine ⟨⟨m.kernel.memory.store f data, rfl, fun g hg => ?_⟩, rfl, rfl, rfl⟩
  rw [Memory.contents_store, if_neg]
  rintro rfl
  rw [hf] at hg
  simp at hg

theorem Twins.space?_eq (h : m.Twins m') (name : SpaceName) : m'.space? name = m.space? name := by
  cases name with
  | space n => simp only [space?, h.spaces]
  | process n => simp only [space?, h.processes]

theorem Twins.current?_eq (h : m.Twins m') (who : Faulter) : m'.current? who = m.current? who := by
  unfold current?
  simp only [h.space?_eq, h.processes]

theorem Twins.putSpace (h : m.Twins m') (name : SpaceName) (s : AddressSpace) :
    (m.putSpace name s).Twins (m'.putSpace name s) := by
  cases name with
  | space n => exact ⟨h.kernel, h.tables, congrArg (·.set n (some s)) h.spaces, h.processes⟩
  | process n =>
      exact ⟨h.kernel, h.tables, h.spaces,
        congrArg (·.modify n fun p => { p with space := some s }) h.processes⟩

theorem Twins.withKernel (h : m.Twins m') {k k' : Kernel} (hk : k.Twins [] k') :
    Twins { m with kernel := k } { m' with kernel := k' } :=
  ⟨hk, h.tables, h.spaces, h.processes⟩

/-- What both machines do to twins, whatever it is. -/
abbrev Indifferent (x : MachineM α) (m m' : Machine) : Prop :=
  Agrees x m m' (fun _ => Twins) fun _ => Twins

/-- A kernel operation, on twin machines. -/
theorem Twins.onKernel (h : m.Twins m') {x : KernelM α}
    (hx : Agrees x m.kernel m'.kernel (fun _ => Kernel.Twins []) fun _ => Kernel.Twins []) :
    Indifferent (Machine.onKernel x) m m' := by
  simp only [Agrees, Machine.onKernel]
  rcases hx.cases with ⟨a, k, k', heq, heq', hk⟩ | ⟨e, k, k', heq, heq', hk⟩
  · simp only [heq, heq']
    exact ⟨trivial, h.withKernel hk⟩
  · simp only [heq, heq']
    exact ⟨trivial, h.withKernel hk⟩

theorem blind_onKernel {x : KernelM α} (hx : Blind x (Kernel.Twins [])) :
    Blind (Machine.onKernel x) Twins :=
  fun _ _ h => h.onKernel (hx _ _ h.kernel)

theorem blind_orUnknown (o : Option α) : Blind (orUnknown o) Twins := by
  cases o with
  | some a => exact blind_pure a
  | none => exact blind_throw _

theorem blind_process (n : Nat) : Blind (process n) Twins :=
  Blind.bindGet (fun _ _ h => by rw [h.processes]) fun _ => blind_orUnknown _

theorem blind_addSpace (s : AddressSpace) : Blind (addSpace s) Twins := by
  intro m m' h
  exact ⟨congrArg List.length h.spaces, h.kernel, h.tables,
    congrArg (· ++ [some s]) h.spaces, h.processes⟩

theorem blind_addProcess (p : Process) : Blind (addProcess p) Twins := by
  intro m m' h
  exact ⟨congrArg List.length h.processes, h.kernel, h.tables, h.spaces,
    congrArg (· ++ [p]) h.processes⟩

theorem blind_putProcess (n : Nat) (p : Process) : Blind (putProcess n p) Twins :=
  blind_modify fun _ _ h => ⟨h.kernel, h.tables, h.spaces, congrArg (·.set n p) h.processes⟩

theorem blind_takeSpace (n : Nat) : Blind (takeSpace n) Twins := by
  refine Blind.bindGet (fun _ _ h => by rw [h.space?_eq]) fun _ => ?_
  refine (blind_orUnknown _).bind fun s => Blind.bind (blind_modify fun _ _ h => ?_)
    fun _ => blind_pure s
  exact ⟨h.kernel, h.tables, congrArg (·.set n none) h.spaces, h.processes⟩

/-- Working on a space with a name, on twin machines. -/
theorem Twins.onSpace (h : m.Twins m') {x : SpaceM α} {name : SpaceName}
    (hx : ∀ s, m.space? name = some s → Agrees x ⟨m.kernel, s⟩ ⟨m'.kernel, s⟩
      (fun _ => Workspace.Twins []) fun _ => Workspace.Twins []) :
    Indifferent (Machine.onSpace name x) m m' := by
  simp only [Agrees, Machine.onSpace, h.space?_eq]
  cases hs : m.space? name with
  | none => exact ⟨rfl, h⟩
  | some s =>
      rcases (hx s hs).cases with ⟨a, w, w', heq, heq', hw⟩ | ⟨e, w, w', heq, heq', hw⟩
      · simp only [heq, heq', hw.1]
        exact ⟨trivial, (h.putSpace name w.space).withKernel hw.2⟩
      · simp only [heq, heq', hw.1]
        exact ⟨trivial, (h.putSpace name w.space).withKernel hw.2⟩

/-- **Requests to a space** in custody: what is read is in its own frames. -/
theorem agrees_answerSpace {w w' : Workspace} (hw : Workspace.Twins [] w w')
    (hused : ∀ f ∈ w.space.frames, w.kernel.allocator.isInUse f = true) (r : SpaceRequest) :
    Agrees (answerSpace r) w w' (fun _ => Workspace.Twins []) fun _ => Workspace.Twins [] := by
  have hblind : ∀ {x : SpaceM Reply}, Blind x (Workspace.Twins []) →
      Agrees x w w' (fun _ => Workspace.Twins []) fun _ => Workspace.Twins [] :=
    fun hx => hx w w' hw
  cases r with
  | read a count =>
      have hread := AddressSpace.read_congr
        (fun f hf => hw.2.contents_eq (Or.inl (hused f hf))) a count
      unfold answerSpace
      refine Agrees.bindSpace hw.1 (Agrees.bindGet (by rw [hread]) ?_)
      split
      · exact blind_pure _ w w' hw
      · exact blind_throw _ w w' hw
  | declareRegion a size permission =>
      exact hblind ((AddressSpace.blind_declareRegion _ _ _).bind fun _ =>
        Blind.space.bind fun _ => blind_pure _)
  | prepareLoad =>
      exact hblind (AddressSpace.blind_prepareLoad.bind fun _ =>
        Blind.space.bind fun _ => blind_pure _)
  | completeLoad =>
      exact hblind ((Blind.modifySpace _).bind fun _ => Blind.space.bind fun _ => blind_pure _)
  | load segments => exact hblind ((Program.blind_load segments).bind fun _ => blind_pure _)
  | activate =>
      exact hblind (Blind.space.bind fun _ =>
        (Blind.onKernel (Kernel.blind_invalidate _)).bind fun _ => blind_pure _)
  | deactivate =>
      exact hblind (Blind.space.bind fun _ =>
        (Blind.onKernel (Kernel.blind_invalidate _)).bind fun _ => blind_pure _)
  | write a bytes =>
      exact hblind (Blind.space.bind fun s =>
        (Blind.onKernel (AddressSpace.blind_writeFrom s a 0 bytes)).bind fun _ => blind_pure _)
  | stackPointer => exact hblind (Blind.space.bind fun _ => blind_pure _)
  | coverage a => exact hblind (Blind.space.bind fun _ => blind_pure _)
  | physical a => exact hblind (Blind.space.bind fun _ => blind_pure _)
  | lookup a => exact hblind (Blind.space.bind fun _ => blind_pure _)
  | inspect => exact hblind (Blind.space.bind fun _ => blind_pure _)

/-! ### Every request -/

theorem blind_answerCache (r : CacheRequest) :
    Blind (answerCache r) (Kernel.Twins []) := by
  have hlook : ∀ {f : Kernel → Reply}, (∀ k memory, f { k with memory } = f k) →
      Blind (do return f (← get) : KernelM Reply) (Kernel.Twins []) := by
    intro f hf
    refine Blind.bindGet ?_ fun _ => blind_pure _
    rintro k _ ⟨memory, rfl, -⟩
    rw [hf]
  have hdrop : Blind Kernel.invalidateAll (Kernel.Twins []) :=
    Kernel.blind_change (fun _ _ => rfl) (fun _ => rfl) fun _ _ h => h
  cases r with
  | reserveSpaceId => exact Kernel.blind_freshSpace.bind fun _ => blind_pure _
  | insert e => exact (Kernel.blind_cacheMapping e).bind fun _ => blind_pure _
  | lookup space a => exact hlook fun _ _ => rfl
  | invalidate space => exact (Kernel.blind_invalidate space).bind fun _ => hlook fun _ _ => rfl
  | invalidateAll => exact hdrop.bind fun _ => hlook fun _ _ => rfl
  | entries => exact hlook fun _ _ => rfl

theorem blind_createTable (capacity : Nat) : Blind (createTable capacity) Twins := by
  refine Blind.bind (blind_onKernel (Kernel.blind_orFail _)) fun t => ?_
  refine Blind.bind (blind_onKernel (Kernel.blind_claim _)) fun _ => Blind.bind ?_ fun _ =>
    blind_pure _
  intro m m' h
  exact ⟨congrArg List.length h.tables, h.kernel, congrArg (· ++ [some t]) h.tables, h.spaces,
    h.processes⟩

theorem blind_answerFault (who : Faulter) (access : Access) (a : VirtAddr) :
    Blind (answerFault who access a) Twins := by
  refine Blind.bindGet (fun _ _ h => by rw [h.current?_eq]) fun _ => ?_
  refine (blind_orUnknown _).bind fun c =>
    (blind_onKernel (PageFault.blind_handle access a c)).bind fun p => ?_
  refine Blind.bind (blind_modify fun m m' h => ?_) fun _ => ?_
  · unfold putCurrent
    split
    · exact h.putSpace _ _
    · exact h
  · obtain ⟨outcome, c'⟩ := p
    cases outcome with
    | error e => exact blind_onKernel (Kernel.blind_fail e)
    | ok _ => cases c' <;> exact blind_pure _

theorem blind_answerProcess (n : Nat) (r : ProcessRequest) : Blind (answerProcess n r) Twins := by
  have hafter : ∀ {x : KernelM Process}, Blind x (Kernel.Twins []) → Blind (do
      let p ← (x : MachineM Process)
      putProcess n p
      return Reply.process p) Twins :=
    fun hx => (blind_onKernel hx).bind fun p => (blind_putProcess n p).bind fun _ => blind_pure _
  refine (blind_process n).bind fun p => ?_
  cases r with
  | run => exact hafter ((Process.blind_invalidate p).bind fun _ => blind_pure _)
  | preempt => exact hafter ((Process.blind_invalidate p).bind fun _ => blind_pure _)
  | exit status => exact hafter (Process.blind_exit p status)
  | setState state => exact (blind_putProcess n _).bind fun _ => blind_pure _
  | inspect => exact blind_pure _
  | killOnFault e =>
      exact (blind_onKernel (Process.blind_killOnFault p e)).bind fun q =>
        (blind_putProcess n q.2).bind fun _ => blind_pure _

/-- Forking a process in custody. -/
theorem Twins.fork (h : m.Twins m') (hc : Custody m.kernel m.live held tally) (n : Nat) :
    Indifferent (fork n) m m' := by
  unfold Machine.fork process
  rw [bind_assoc]
  refine Agrees.bindGet (by rw [h.processes]) ?_
  cases hp : m.processes[n]? with
  | none => exact ⟨rfl, h⟩
  | some p =>
      have hblind : Agrees p.fork m.kernel m'.kernel (fun _ => Kernel.Twins [])
          fun _ => Kernel.Twins [] := by
        cases hs : p.space with
        | none =>
            exact Process.blind_fork p (fun s hs' => by rw [hs] at hs'; cases hs') _ _ h.kernel
        | some s =>
            have hused : ∀ f ∈ s.frames, m.kernel.allocator.isInUse f = true := fun f hf =>
              hc.isInUse (mem_live_of_process (List.mem_of_getElem? hp) hs) hf
            have hfork : Blind p.fork (Kernel.Twins s.frames) :=
              Process.blind_fork p fun s' hs' => by rw [hs] at hs'; cases hs'; rfl
            exact (hfork m.kernel m'.kernel (h.kernel.know hused)).mono
              (fun _ _ _ hk => hk.forget) fun _ _ _ hk => hk.forget
      exact (h.onKernel hblind).bind fun child t t' ht =>
        ((blind_addProcess child).bind fun _ => blind_pure _) t t' ht

theorem Twins.duplicateSpace (h : m.Twins m') (hc : Custody m.kernel m.live held tally)
    (name : SpaceName) : Indifferent (answer (.duplicateSpace name)) m m' := by
  unfold answer
  refine Agrees.bindGet (by rw [h.space?_eq]) ?_
  cases hs : m.space? name with
  | none => exact ⟨rfl, h⟩
  | some s =>
      have hused : ∀ f ∈ s.frames, m.kernel.allocator.isInUse f = true := fun f hf =>
        hc.isInUse (mem_live_of_space? hs) hf
      have hduplicate := (AddressSpace.blind_duplicate s _ _ (h.kernel.know hused)).mono
        (fun _ _ _ hk => hk.forget) fun _ _ _ hk => hk.forget
      exact (h.onKernel hduplicate).bind fun copy t t' ht =>
        ((blind_addSpace copy).bind fun _ => blind_pure _) t t' ht

theorem Twins.forkCall (h : m.Twins m') (hc : Custody m.kernel m.live held tally) (n : Nat) :
    Indifferent (forkCall n) m m' := by
  -- `forkCall` looks at the result itself, so the cases are those of `fork`
  simp only [Agrees, Machine.forkCall]
  rcases (h.fork hc n).cases with
    ⟨a, t, t', heq, heq', ht⟩ | ⟨_ | ⟨e | halt⟩, t, t', heq, heq', ht⟩
  all_goals
    simp only [heq, heq']
    exact ⟨trivial, ht⟩

/-- **Every request on behalf of programs** is answered the same by twins, and leaves twins. -/
theorem Twins.answer (h : m.Twins m') (hc : Custody m.kernel m.live held tally) {r : Request}
    (hr : r.isOfPrograms = true) : Indifferent (answer r) m m' := by
  cases r with
  | frames r => cases hr
  | table n r => cases hr
  | cache r => exact h.onKernel (blind_answerCache r _ _ h.kernel)
  | createTable capacity => exact blind_createTable capacity m m' h
  | createSpace =>
      exact Blind.bind (blind_onKernel AddressSpace.blind_create)
        (fun s => (blind_addSpace s).bind fun _ => blind_pure _) m m' h
  | duplicateSpace name => exact h.duplicateSpace hc name
  | destroySpace n =>
      exact Blind.bind (blind_takeSpace n)
        (fun s => (blind_onKernel (AddressSpace.blind_destroy s)).bind fun _ => blind_pure _) m m' h
  | space name r =>
      refine h.onSpace fun s hs => ?_
      have hw : Workspace.Twins [] ⟨m.kernel, s⟩ ⟨m'.kernel, s⟩ := ⟨rfl, h.kernel⟩
      exact agrees_answerSpace hw (fun f hf => hc.isInUse (mem_live_of_space? hs) hf) r
  | fault who access a => exact blind_answerFault who access a m m' h
  | startProgram segments entryPoint =>
      exact Blind.bind (blind_onKernel (Program.blind_start segments entryPoint))
        (fun p => (blind_addProcess p).bind fun _ => blind_pure _) m m' h
  | createProcess n entryPoint stackPointer =>
      exact Blind.bind (blind_takeSpace n) (fun s =>
        (blind_onKernel (Process.blind_create s entryPoint stackPointer)).bind fun p =>
          (blind_addProcess p).bind fun _ => blind_pure _) m m' h
  | forkWith n space =>
      exact Blind.bind (blind_process n) (fun parent => (blind_takeSpace space).bind fun s =>
        (blind_onKernel (Process.blind_forkWith parent s)).bind fun child =>
          (blind_addProcess child).bind fun _ => blind_pure _) m m' h
  | fork n => exact (h.fork hc n).bind fun child t t' ht => blind_pure _ t t' ht
  | forkCall n => exact h.forkCall hc n
  | process n r => exact blind_answerProcess n r m m' h

/-- One request, with what came of it. -/
theorem Twins.step (h : m.Twins m') (hm : m.IsOrderly) {r : Request}
    (hr : r.isOfPrograms = true) :
    (m'.step r).1 = (m.step r).1 ∧ (m.step r).2.Twins (m'.step r).2 := by
  obtain ⟨held, tally, hc⟩ := hm
  unfold Machine.step
  rcases (h.answer hc hr).cases with ⟨a, t, t', heq, heq', ht⟩ | ⟨e, t, t', heq, heq', ht⟩
  · rw [heq, heq']
    exact ⟨rfl, ht⟩
  · rw [heq, heq']
    exact ⟨rfl, ht⟩

/-- Requests on behalf of programs keep a machine orderly. -/
theorem IsOrderly.step_of_programs (hm : m.IsOrderly) {r : Request} (hr : r.isOfPrograms = true)
    (alive : hasHalted (m.step r).1 = false) : (m.step r).2.IsOrderly := by
  refine hm.next (fun held => ?_) alive
  cases r with
  | frames r => cases hr
  | table n r => cases hr
  | _ => trivial

/-- **No stale data.**  Two machines that are the same but for the bytes of frames that are not in
use serve any requests on behalf of programs with the same outcomes, down to every byte that is
read, and they are again the same but for the bytes of frames that are not in use.  Of the first
machine it is asked that the frames in use are those of its spaces and those that callers hold,
which is so at every point of a history. -/
theorem serve_eq_of_twins :
    ∀ {rs : List Request} {m m' : Machine}, m.IsOrderly → m.Twins m' →
      (∀ r ∈ rs, r.isOfPrograms = true) →
      (m'.serve rs).1 = (m.serve rs).1 ∧ (m.serve rs).2.Twins (m'.serve rs).2 := by
  intro rs
  induction rs with
  | nil =>
      intro m m' _ h _
      exact ⟨rfl, h⟩
  | cons r rest ih =>
      intro m m' hm h hrs
      have hr := hrs r List.mem_cons_self
      obtain ⟨hsame, hafter⟩ := h.step hm hr
      rw [serve_cons, serve_cons, hsame]
      by_cases halted : hasHalted (m.step r).1 = true
      · rw [if_pos halted, if_pos halted]
        exact ⟨rfl, hafter⟩
      · rw [if_neg halted, if_neg halted]
        have hrest := ih (hm.step_of_programs hr (Bool.eq_false_iff.mpr halted)) hafter
          fun r' hr' => hrs r' (List.mem_cons_of_mem _ hr')
        exact ⟨congrArg (List.cons _) hrest.1, hrest.2⟩

end Machine

namespace History

/-- Every point of a history is orderly. -/
theorem Run.isOrderly {m : Machine} (fresh : m.IsFresh) {rs : List Request} {h : History}
    (run : Run ⟨m, []⟩ rs h) : h.machine.IsOrderly := by
  obtain ⟨room, -, hc⟩ := run.inCustody (inCustody_of_isFresh fresh)
  exact ⟨_, _, hc⟩

/-- Over sixteen frames a program is started, and somebody has left bytes in the next free frame.
The program is forked, so that its child is given this frame, and parent and child are read, written
and ended; all comes out as if the frame had been clean. -/
theorem serve_eq_of_twins_sixteen_frames :
    ∃ rs₀ h m' rs, Run ⟨sixteenFrames, []⟩ rs₀ h ∧ h.machine.Twins m' ∧
      m'.kernel.memory.contents ⟨6, by decide⟩ = Contents.zero.overwrite 0 [9, 9, 9] ∧
      rs.length = 7 ∧
      (⟨6, by decide⟩ : Frame) ∈ (h.machine.serve (rs.take 3)).2.live.flatMap AddressSpace.frames ∧
      (m'.serve rs).1 = (h.machine.serve rs).1 ∧
      (h.machine.serve rs).2.Twins (m'.serve rs).2 := by
  have started : Run ⟨sixteenFrames, []⟩ _ _ :=
    Run.start.next (.startProgram [⟨⟨0x1000, by decide⟩, [1, 2, 3], 8, ⟨true, true, false⟩⟩]
      ⟨0x1000, by decide⟩) trivial (by decide +kernel)
  let rs : List Request := [.fork 0, .space (.process 1) (.read ⟨0x1000, by decide⟩ 8),
    .fault (.owner (.process 1)) .write ⟨0x6fffffffe000, by decide⟩,
    .space (.process 1) (.write ⟨0x1000, by decide⟩ [7]),
    .space (.process 0) (.read ⟨0x1000, by decide⟩ 8), .process 1 (.exit 0),
    .duplicateSpace (.process 0)]
  obtain ⟨rs₀, h, run, hfree, htaken⟩ : ∃ rs₀ h, Run ⟨sixteenFrames, []⟩ rs₀ h ∧
      h.machine.kernel.allocator.isInUse ⟨6, by decide⟩ = false ∧
      (⟨6, by decide⟩ : Frame) ∈
        (h.machine.serve (rs.take 3)).2.live.flatMap AddressSpace.frames :=
    ⟨_, _, started, by decide +kernel, by decide +kernel⟩
  have htwins := Machine.twins_store hfree (Contents.zero.overwrite 0 [9, 9, 9])
  have hsame := Machine.serve_eq_of_twins (Run.isOrderly isFresh_sixteenFrames run) htwins
    (show ∀ r ∈ rs, r.isOfPrograms = true by decide)
  exact ⟨rs₀, h, _, rs, run, htwins, by simp, rfl, htaken, hsame.1, hsame.2⟩

end History

end DemandPaging
