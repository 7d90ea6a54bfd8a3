import DemandPaging.Space.Basic

/-!
# Bytes of a space

The kernel reads and writes the memory of a program through the program's mappings,
page by page, whatever the permissions of the pages are.

A range is cut where pages end: each piece lies in one page, hence in one frame.  The
address of a piece is the start of the range plus what was done before it; moving past
the canonical half stops the kernel, which is a different end than finding a page without
mapping.  What was written before either of them stays written.
-/

namespace DemandPaging

namespace AddressSpace

/-- The next piece of a range: the frame it lies in, where in that frame it starts, and how
many of the `remaining` bytes it holds. -/
def piece (s : AddressSpace) (a : VirtAddr) (done remaining : Nat) :
    Except Abort (Frame × Nat × Nat) :=
  match a.add done with
  | .error h => .error (.halted h)
  | .ok b =>
    match s.lookup b with
    | none => .error (.failed (.addressingFault b))
    | some e => .ok (e.frame, b.offset, min remaining (pageSize - b.offset))

/-- A piece of a range that is not empty is not empty. -/
theorem piece_pos {s : AddressSpace} {a : VirtAddr} {done remaining : Nat}
    {p : Frame × Nat × Nat} (hp : s.piece a done remaining = .ok p) (h : 0 < remaining) :
    0 < p.2.2 := by
  unfold piece at hp
  split at hp
  · cases hp
  · next b _ =>
    split at hp
    · cases hp
    · cases hp
      have := b.offset_lt
      simp only
      omega

/-- Reads `remaining` bytes, `done` bytes after address `a`. -/
def readFrom (s : AddressSpace) (m : Memory) (a : VirtAddr) (done remaining : Nat) :
    Except Abort (List UInt8) :=
  if _h : remaining = 0 then .ok []
  else
    match _hp : s.piece a done remaining with
    | .error e => .error e
    | .ok p =>
      match s.readFrom m a (done + p.2.2) (remaining - p.2.2) with
      | .error e => .error e
      | .ok bytes => .ok (m.read p.1 p.2.1 p.2.2 ++ bytes)
termination_by remaining
decreasing_by
  have := piece_pos _hp (by omega)
  omega

/-- Reads `count` bytes at address `a`. -/
def read (s : AddressSpace) (m : Memory) (a : VirtAddr) (count : Nat) :
    Except Abort (List UInt8) :=
  s.readFrom m a 0 count

/-- Writes bytes, `done` bytes after address `a`. -/
def writeFrom (s : AddressSpace) (a : VirtAddr) (done : Nat) (bytes : List UInt8) :
    KernelM Unit :=
  if _h : bytes = [] then pure ()
  else
    match _hp : s.piece a done bytes.length with
    | .error e => throw e
    | .ok p => do
      Kernel.writeFrame p.1 p.2.1 (bytes.take p.2.2)
      s.writeFrom a (done + p.2.2) (bytes.drop p.2.2)
termination_by bytes.length
decreasing_by
  have hpos : 0 < bytes.length := List.length_pos_iff.2 _h
  have := piece_pos _hp hpos
  simp only [List.length_drop]
  omega

/-- Writes bytes at address `a`. -/
def write (s : AddressSpace) (a : VirtAddr) (bytes : List UInt8) : KernelM Unit :=
  s.writeFrom a 0 bytes

end AddressSpace

end DemandPaging
