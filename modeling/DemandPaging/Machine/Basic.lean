import DemandPaging.Machine.Request

/-!
# The machine

The whole machine: the kernel, the address spaces that belong to nobody in particular,
the processes with theirs, and page tables that stand alone.

**Steps.**  `Machine.answer` serves one request.  What comes out of it is a reply, or a
failure that leaves the machine as far as it got, or a halt, after which nothing is
served any more (`Machine.serve`).  A request that names something that does not exist is
turned away without touching the machine.
-/

namespace DemandPaging

/-- **Machines.** -/
structure Machine where
  kernel : Kernel
  tables : List (Option PageTable)
  spaces : List (Option AddressSpace)
  processes : List Process

/-- **Why a request is not answered.** -/
inductive Refusal where
  /-- It names something that does not exist. -/
  | unknownName
  /-- It ended early. -/
  | aborted (abort : Abort)

/-- **Operations on the machine.** -/
abbrev MachineM := EStateM Refusal Machine

namespace Machine

/-! ### Starting -/

/-- A machine that has just started over a layout.  `ignored` is where memory had to be cut
off for want of room for holes.  Unless the machine stays in its booting phase, the frame
map is built at once. -/
def start (window : VirtAddr) (layout : Layout) (ignored : Option Nat) (cacheSlots : Nat)
    (stayBooting : Bool) : Except Halt Machine :=
  let journal : Array Event := (ignored.map Event.holesExhausted).toArray
  match Allocator.start window layout with
  | .error h => .error h
  | .ok a =>
    if stayBooting then .ok ⟨{ Kernel.initial a cacheSlots with journal }, [], [], []⟩
    else
      match a.bootstrap layout with
      | .error h => .error h
      | .ok (a, ready) =>
        .ok ⟨{ Kernel.initial a cacheSlots with journal := journal.push ready }, [], [], []⟩

/-- The machine with its journal emptied. -/
def forgetJournal (m : Machine) : Machine := { m with kernel := m.kernel.forgetJournal }

/-! ### Reaching the parts -/

/-- A kernel operation, as one on the machine. -/
def onKernel {α : Type} (x : KernelM α) : MachineM α := fun m =>
  match x m.kernel with
  | .ok a k => .ok a { m with kernel := k }
  | .error e k => .error (.aborted e) { m with kernel := k }

instance : MonadLift KernelM MachineM := ⟨onKernel⟩

/-- What a name refers to, if anything. -/
def orUnknown {α : Type} : Option α → MachineM α
  | some a => pure a
  | none => throw .unknownName

/-- The space with a name. -/
def space? (m : Machine) : SpaceName → Option AddressSpace
  | .space n => (m.spaces[n]?).join
  | .process n => (m.processes[n]?).bind Process.space

/-- Replaces the space with a name. -/
def putSpace (m : Machine) (name : SpaceName) (s : AddressSpace) : Machine :=
  match name with
  | .space n => { m with spaces := m.spaces.set n (some s) }
  | .process n => { m with processes := m.processes.modify n fun p => { p with space := some s } }

/-- An operation on the space with a name. -/
def onSpace {α : Type} (name : SpaceName) (x : SpaceM α) : MachineM α := fun m =>
  match m.space? name with
  | none => .error .unknownName m
  | some s =>
    match x ⟨m.kernel, s⟩ with
    | .ok a w => .ok a { m.putSpace name w.space with kernel := w.kernel }
    | .error e w => .error (.aborted e) { m.putSpace name w.space with kernel := w.kernel }

/-- Adds a space and answers its number. -/
def addSpace (s : AddressSpace) : MachineM Nat :=
  modifyGet fun m => (m.spaces.length, { m with spaces := m.spaces ++ [some s] })

/-- Takes a space that belongs to nobody; its number stays empty. -/
def takeSpace (n : Nat) : MachineM AddressSpace := do
  let s ← orUnknown ((← get).space? (.space n))
  modify fun m => { m with spaces := m.spaces.set n none }
  return s

/-- The process with a number. -/
def process (n : Nat) : MachineM Process := do orUnknown (← get).processes[n]?

/-- Adds a process and answers its number. -/
def addProcess (p : Process) : MachineM Nat :=
  modifyGet fun m => (m.processes.length, { m with processes := m.processes ++ [p] })

/-- Replaces the process with a number. -/
def putProcess (n : Nat) (p : Process) : MachineM Unit :=
  modify fun m => { m with processes := m.processes.set n p }

/-! ### Frames -/

/-- Serves a request about frames. -/
def answerFrames : FrameRequest → KernelM Reply
  | .allocate count => return .frame (← Kernel.allocate count)
  | .allocateKernelPages count => return .address (← Kernel.allocateKernelPages count)
  | .free f => do Kernel.free f; return .done
  | .freeKernelPages a => do Kernel.freeKernelPages a; return .done
  | .reserve base length => do Kernel.reserve base length; return .done
  | .kernelAddress f => do
    return .address (some (← Kernel.orHalt ((← get).allocator.kernelAddress f)))
  | .isInitialized => return .flag (← get).allocator.isInitialized
  | .state f => return .frameState ((← get).allocator.state? f)
  | .entry f => do
    match (← get).allocator.entry? f with
    | none => return .frameEntry none
    | some e => return .frameEntry (some (e, ← Kernel.orHalt ((← get).allocator.kernelAddress f)))
  | .stretches => return .stretches (← get).allocator.stretches
  | .mapFrom firstFree totalSize => do
    Kernel.mapFrom firstFree totalSize
    return .stretches (← get).allocator.stretches
  | .bootstrap layout ignored => do
    Kernel.reportIgnored ignored
    Kernel.bootstrap layout
    return .stretches (← get).allocator.stretches
  | .poke a bytes => do Kernel.writeFrame a.frame a.offset bytes; return .done
  | .peek a count => return .bytes ((← get).memory.read a.frame a.offset count)
  | .zero f => do Kernel.zeroFrame f; return .done
  | .copy target source => do Kernel.copyFrame target source; return .done

/-! ### The mapping cache -/

/-- Serves a request about the mapping cache. -/
def answerCache : CacheRequest → KernelM Reply
  | .reserveSpaceId => return .number (← Kernel.freshSpace)
  | .insert e => return .number (← Kernel.cacheMapping e)
  | .lookup space a => return .cacheEntry ((← get).cache.lookup space a)
  | .invalidate space => do Kernel.invalidate space; return .flag (← get).cache.isEmpty
  | .invalidateAll => do Kernel.invalidateAll; return .flag (← get).cache.isEmpty
  | .entries => return .cacheEntries (← get).cache.entries

/-! ### Page tables -/

/-- Adds a stand-alone page table. -/
def createTable (capacity : Nat) : MachineM Reply := do
  let t ← Kernel.orFail (PageTable.withCapacity capacity)
  Kernel.claim capacity
  let n ← modifyGet fun m => (m.tables.length, { m with tables := m.tables ++ [some t] })
  return .tableCreated n t.capacity

/-- Serves a request about a page table. -/
def answerTable (n : Nat) (r : TableRequest) : MachineM Reply := do
  let t ← orUnknown ((← get).tables[n]?).join
  let put (t : Option PageTable) : MachineM Unit :=
    modify fun m => { m with tables := m.tables.set n t }
  match r with
  | .insert e =>
    let granted ← Kernel.ask (t.wanted e.page)
    let (t, grown) ← Kernel.orAbort (t.insert granted e)
    put (some t)
    match grown with
    | some slots => Kernel.record (.tableGrown slots)
    | none => pure ()
    return .occupancy t.size t.capacity
  | .lookup a => return .pageEntry (t.lookup a)
  | .update a frame flags =>
    let t := t.update a.page fun e => { e with frame, flags }
    put (some t)
    return .pageEntry (t.lookup a)
  | .setFlags p flags =>
    let (found, t) := t.setFlags p flags
    put (some t)
    return .flag found
  | .inspect => return .table t
  | .release =>
    t.release
    put none
    return .done

/-! ### Address spaces -/

/-- Serves a request about the space at hand. -/
def answerSpace : SpaceRequest → SpaceM Reply
  | .declareRegion a size permission => do
    AddressSpace.declareRegion a size permission
    let s ← SpaceM.space
    return .occupancy s.regions.size s.regions.capacity
  | .prepareLoad => do
    AddressSpace.prepareLoad
    return .bounds (← SpaceM.space).bounds
  | .completeLoad => do
    SpaceM.modifySpace AddressSpace.completeLoad
    return .pageEntries (← SpaceM.space).table.entries
  | .stackPointer => return .address (some (← SpaceM.space).stackPointer)
  | .load segments => return .address (some (← Program.load segments))
  | .activate => do (← SpaceM.space).activate; return .done
  | .deactivate => do (← SpaceM.space).deactivate; return .done
  | .coverage a => return .coverage ((← SpaceM.space).coverage a)
  | .physical a => return .physical ((← SpaceM.space).physical? a)
  | .lookup a => return .pageEntry ((← SpaceM.space).lookup a)
  | .inspect => return .space (← SpaceM.space)
  | .read a count => do
    match (← SpaceM.space).read (← get).kernel.memory a count with
    | .ok bytes => return .bytes bytes
    | .error abort => throw abort
  | .write a bytes => do (← SpaceM.space).write a bytes; return .done

/-- Who is running when a fault of `who` arrives. -/
def current? (m : Machine) : Faulter → Option Current
  | .nobody => some .idle
  | .bare => some .bare
  | .owner (.space n) => (m.space? (.space n)).map .within
  | .owner (.process n) =>
    (m.processes[n]?).map fun p => match p.space with
      | some s => .within s
      | none => .bare

/-- Takes note of what became of whoever faulted. -/
def putCurrent (m : Machine) (who : Faulter) (c : Current) : Machine :=
  match who, c with
  | .owner name, .within s => m.putSpace name s
  | _, _ => m

/-- Serves a page fault. -/
def answerFault (who : Faulter) (access : Access) (a : VirtAddr) : MachineM Reply := do
  let c ← orUnknown ((← get).current? who)
  let (outcome, c) ← PageFault.handle access a c
  modify fun m => m.putCurrent who c
  match outcome, c with
  | .error e, _ => Kernel.fail e
  | .ok (), .within s => return .resolved (s.lookup a) s.bounds
  | .ok (), _ => return .done

/-! ### Processes -/

/-- Serves a request about a process. -/
def answerProcess (n : Nat) (r : ProcessRequest) : MachineM Reply := do
  let p ← process n
  let after (x : KernelM Process) : MachineM Reply := do
    let p ← x
    putProcess n p
    return .process p
  match r with
  | .run => after p.run
  | .preempt => after p.preempt
  | .exit status => after (p.exit status)
  | .setState state => after (return { p with state })
  | .inspect => return .process p
  | .killOnFault e =>
    let (killed, p) ← p.killOnFault e
    putProcess n p
    return .killed killed p

/-- Forks a process and adds the child. -/
def fork (n : Nat) : MachineM (Nat × Process) := do
  let child ← (← process n).fork
  return (← addProcess child, child)

/-- Forks a process and answers as a system call does. -/
def forkCall (n : Nat) : MachineM Reply := fun m =>
  match fork n m with
  | .ok (_, child) m => .ok (.number (SystemCall.encode (.ok child.pid))) m
  | .error (.aborted (.failed e)) m => .ok (.number (SystemCall.encode (.error e))) m
  | .error r m => .error r m

/-! ### Requests -/

/-- Serves one request. -/
def answer : Request → MachineM Reply
  | .frames r => answerFrames r
  | .cache r => answerCache r
  | .createTable capacity => createTable capacity
  | .table n r => answerTable n r
  | .createSpace => do
    let s ← AddressSpace.create
    return .spaceCreated (← addSpace s) s.id
  | .duplicateSpace name => do
    let copy ← (← orUnknown ((← get).space? name)).duplicate
    return .spaceCreated (← addSpace copy) copy.id
  | .destroySpace n => do
    (← takeSpace n).destroy
    return .done
  | .space name r => onSpace name (answerSpace r)
  | .fault who access a => answerFault who access a
  | .startProgram segments entryPoint => do
    let p ← Program.start segments entryPoint
    return .processCreated (← addProcess p) p
  | .createProcess space entryPoint stackPointer => do
    let p ← Process.create (← takeSpace space) entryPoint stackPointer
    return .processCreated (← addProcess p) p
  | .forkWith n space => do
    let parent ← process n
    let child ← parent.forkWith (← takeSpace space)
    return .processCreated (← addProcess child) child
  | .fork n => do
    let (number, child) ← fork n
    return .processCreated number child
  | .forkCall n => forkCall n
  | .process n r => answerProcess n r

/-- **What came of a request**: its reply, or why there is none. -/
abbrev Outcome := Except Refusal Reply

/-- Serves one request: what came of it, and the machine afterwards. -/
def step (m : Machine) (r : Request) : Outcome × Machine :=
  match answer r m with
  | .ok reply m => (.ok reply, m)
  | .error refusal m => (.error refusal, m)

/-- Whether the machine has stopped with this outcome. -/
def hasHalted : Outcome → Bool
  | .error (.aborted (.halted _)) => true
  | _ => false

/-- Serves requests one after another until one stops the machine. -/
def serve (m : Machine) : List Request → List Outcome × Machine
  | [] => ([], m)
  | r :: rest =>
    let (o, m) := m.step r
    if hasHalted o then ([o], m)
    else
      let (os, m) := m.serve rest
      (o :: os, m)

end Machine

end DemandPaging
