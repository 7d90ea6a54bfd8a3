import DemandPaging.Process.Basic
import DemandPaging.Space.Duplicate

/-!
# Forking, and how system calls answer

Forking duplicates a process: the child gets a copy of its parent's memory and is ready to
run.  Programs learn the outcome of a system call as one signed 64-bit number: the value's
bits, or the negated number of the error.
-/

namespace DemandPaging

/-- A ready child of a process, in a copy of its memory. -/
def Process.fork (parent : Process) : KernelM Process :=
  match parent.space with
  | none => Kernel.fail .noAddressSpace
  | some s => do
    let copy ← s.duplicate
    let child ← parent.forkWith copy
    Kernel.record (.processForked parent.pid child.pid)
    return child

/-- **The answer of a system call**: the bits of a value read as a signed number, or the
number of the error below zero. -/
def SystemCall.encode : Except MemoryError Nat → Int
  | .ok value => (BitVec.ofNat 64 value).toInt
  | .error e => -(e.number : Int)

end DemandPaging
