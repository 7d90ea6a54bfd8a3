import DemandPaging.Process.Basic
import DemandPaging.Space.Bytes
import DemandPaging.Space.Load

/-!
# Programs

A program comes as a list of segments: where its bytes belong, how much memory they need,
and which permission that memory has.  Memory beyond the bytes reads as zero.

Loading declares every segment, backs them all with writable frames, writes the bytes in
list order, so that of two segments that overlap the later one wins, and ends by giving
every page its declared permission.  A program that cannot be loaded leaves no trace: the
space built for it is destroyed.
-/

namespace DemandPaging

/-- **Segments** of a program. -/
structure Segment where
  address : VirtAddr
  bytes : List UInt8
  /-- How much memory the segment needs; its bytes count even if they are more. -/
  memorySize : Nat
  permission : Permission

namespace Segment

/-- The size of the region a segment is declared as. -/
def size (g : Segment) : Nat := max g.memorySize g.bytes.length

end Segment

namespace Program

open SpaceM

/-- Declares the regions of segments. -/
def declareAll : List Segment → SpaceM Unit
  | [] => pure ()
  | g :: rest => do
    AddressSpace.declareRegion g.address g.size g.permission
    declareAll rest

/-- Writes the bytes of segments. -/
def writeAll : List Segment → SpaceM Unit
  | [] => pure ()
  | g :: rest => do
    (← space).write g.address g.bytes
    writeAll rest

/-- Loads a program into the space at hand and answers its initial stack pointer. -/
def load (segments : List Segment) : SpaceM VirtAddr := do
  declareAll segments
  AddressSpace.prepareLoad
  writeAll segments
  modifySpace AddressSpace.completeLoad
  return (← space).stackPointer

/-- A process that runs a program from an entry point. -/
def start (segments : List Segment) (entryPoint : VirtAddr) : KernelM Process := do
  let s ← AddressSpace.create
  match ← (load segments).attempt s with
  | (.ok stackPointer, s) =>
    let p ← Process.create s entryPoint stackPointer
    Kernel.record (.processLoaded p.pid entryPoint)
    return p
  | (.error e, s) =>
    s.destroy
    Kernel.fail e

end Program

end DemandPaging
