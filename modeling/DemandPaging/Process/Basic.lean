import DemandPaging.Space.Basic

/-!
# Processes

A process is a program being run: an address space, where the program starts, and where
it stands in its life.  What the processor holds of a process are mappings in the
cache.  They are dropped when a process is put on the processor, when it is taken off,
and when it ends; in the last case before its frames go back to the allocator.

**Life.**  A process is new, then ready and running in turns, and terminated in the end,
with an exit status.  Ending takes the address space away.  Putting a process on the
processor and taking it off do not ask whether it has ended.
-/

namespace DemandPaging

/-- **Where a process stands in its life.** -/
inductive ProcessState where
  | new
  | ready
  | running
  | blocked
  | terminated
deriving DecidableEq

/-- The state, as a word. -/
def ProcessState.name : ProcessState → String
  | new => "New"
  | ready => "Ready"
  | running => "Running"
  | blocked => "Blocked"
  | terminated => "Terminated"

/-- **Processes.** -/
structure Process where
  pid : Nat
  state : ProcessState
  space : Option AddressSpace
  entryPoint : VirtAddr
  stackPointer : VirtAddr
  exitStatus : Option Int

namespace Process

/-- A new process in an address space. -/
def create (space : AddressSpace) (entryPoint stackPointer : VirtAddr) : KernelM Process := do
  let pid ← Kernel.freshPid
  Kernel.record (.processCreated pid)
  return { pid, state := .new, space := some space, entryPoint, stackPointer, exitStatus := none }

/-- A ready child in an address space, which starts where its parent does. -/
def forkWith (parent : Process) (space : AddressSpace) : KernelM Process := do
  let child ← create space parent.entryPoint parent.stackPointer
  return { child with state := .ready }

/-- Drops what is cached for the process, if it has an address space. -/
def invalidate (p : Process) : KernelM Unit :=
  match p.space with
  | some s => Kernel.invalidate s.id
  | none => pure ()

/-- Puts the process on the processor. -/
def run (p : Process) : KernelM Process := do
  p.invalidate
  return { p with state := .running }

/-- Takes the process off the processor. -/
def preempt (p : Process) : KernelM Process := do
  p.invalidate
  return { p with state := .ready }

/-- Takes the memory of a process away: first what is cached of it, then its frames. -/
def surrender (p : Process) : KernelM Unit :=
  match p.space with
  | some s => do
    s.deactivate
    s.destroy
  | none => pure ()

/-- Ends the process. -/
def exit (p : Process) (status : Int) : KernelM Process := do
  p.surrender
  Kernel.record (.processExited p.pid status)
  return { p with space := none, state := .terminated, exitStatus := some status }

/-- Ends the process if the error is fatal to it, and answers whether it did. -/
def killOnFault (p : Process) (e : MemoryError) : KernelM (Bool × Process) := do
  if e.isFatal then
    Kernel.record (.processFailed p.pid e)
    let p ← p.exit (-(e.number : Int))
    return (true, p)
  else return (false, p)

end Process

end DemandPaging
