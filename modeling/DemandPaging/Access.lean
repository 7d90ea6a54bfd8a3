/-!
# Accesses

What a program was doing when the processor found no usable mapping for an address.
The processor describes the access in an error code; only two of its bits matter for
deciding what to do about the fault.
-/

namespace DemandPaging

/-- **Accesses** that raise a page fault. -/
inductive Access where
  /-- A read or an instruction fetch, from a page without a mapping. -/
  | read
  /-- A write to a page without a mapping. -/
  | write
  /-- A write to a page whose mapping forbids writing. -/
  | readOnlyWrite
deriving DecidableEq

namespace Access

/-- The access an error code describes: bit 0 says that a mapping exists and
forbids the access, bit 1 that the access is a write. -/
def ofErrorCode (code : Nat) : Access :=
  if code.testBit 1 then
    if code.testBit 0 then readOnlyWrite else write
  else read

/-- The access, as a word. -/
def name : Access → String
  | read => "Read"
  | write => "Write"
  | readOnlyWrite => "ReadOnly"

end Access

end DemandPaging
