import DemandPaging.Address

/-!
# Failures

An operation can end early in two ways, and they are two types because they mean
different things.

* A `MemoryError` is an *answer*: the request could not be served, the caller learns
  why, and everything done so far stays as it is.  It may cost a process its life,
  never the kernel.
* A `Halt` is the *end*: the kernel found its own state or its arithmetic in a
  condition that it is written never to reach, and stops.  Nothing runs after it.

`Abort` is either of them; it is what the effectful operations of the library throw.
Each cause is a constructor, and its wording is in one function (`MemoryError.message`,
`Halt.message`), so that a statement about *which* failure arises never has to mention
a text.
-/

namespace DemandPaging

/-- **Memory errors**: requests that cannot be served. -/
inductive MemoryError where
  /-- No frame is left, or no room for the bookkeeping. -/
  | outOfMemory
  /-- The address is in no region, and not within reach of stack or heap. -/
  | addressingFault (address : VirtAddr)
  /-- The page does not permit the access. -/
  | protectionViolation (address : VirtAddr)
  /-- A fault was taken while no process was running. -/
  | noProcess
  /-- The process has no address space. -/
  | noAddressSpace
  /-- Every slot of the mapping cache is taken. -/
  | cacheFull
deriving DecidableEq

namespace MemoryError

/-- The number a program gets for running out of memory. -/
def outOfMemoryNumber : Nat := 12

/-- The number a program gets for every other failure. -/
def badAddressNumber : Nat := 14

/-- The error number reported to user space. -/
def number : MemoryError → Nat
  | outOfMemory => outOfMemoryNumber
  | _ => badAddressNumber

/-- Whether the process that caused the error is terminated for it. -/
def isFatal : MemoryError → Bool
  | addressingFault _ => true
  | protectionViolation _ => true
  | _ => false

/-- What is wrong, in words. -/
def message : MemoryError → String
  | outOfMemory => "Out of memory"
  | addressingFault a => s!"Segmentation fault at {hex a.val}"
  | protectionViolation a => s!"Write to read-only page at {hex a.val}"
  | noProcess => "Fault with no current process"
  | noAddressSpace => "Fault with no address space"
  | cacheFull => "Ran out of TLB entries"

/-- The kind of error, as a name. -/
def name : MemoryError → String
  | outOfMemory => "OutOfMemory"
  | addressingFault _ => "AddressingFault"
  | protectionViolation _ => "ProtectionViolation"
  | noProcess => "NoProcess"
  | noAddressSpace => "NoAddressSpace"
  | cacheFull => "TranslationCacheFull"

/-- The address the error is about, if it is about one. -/
def address? : MemoryError → Option VirtAddr
  | addressingFault a => some a
  | protectionViolation a => some a
  | _ => none

/-- The error with all its parts spelled out, for debugging. -/
def inspect (e : MemoryError) : String :=
  match e.address? with
  | some a => s!"{e.name}(VirtAddr({hex a.val}))"
  | none => e.name

/-- An error is fatal exactly when it is about an address. -/
theorem isFatal_eq_isSome_address? (e : MemoryError) : e.isFatal = e.address?.isSome := by
  cases e <;> rfl

end MemoryError

/-- **Halts**: conditions in which the kernel stops. -/
inductive Halt where
  /-- A sum left the word range. -/
  | sumOverflow
  /-- A product left the word range. -/
  | productOverflow
  /-- A difference of addresses would be negative. -/
  | differenceUnderflow
  /-- An address was moved into the gap between the canonical halves. -/
  | nonCanonical (sum : Nat)
  /-- A physical address would need more than 52 bits. -/
  | beyondPhysical
  /-- The end of a physical range left the word range. -/
  | physicalSumOverflow
  /-- A frame was given back before the frame map existed. -/
  | freedWhileBooting
  /-- A frame was given back that does not start an allocated block. -/
  | notBlockHead (frame : Frame)
  /-- A range of entries ends past the last one of a row of `length`. -/
  | rangeBeyondEnd (limit length : Nat)
  /-- An entry is looked for past the last one of a row of `length`. -/
  | indexBeyondEnd (index length : Nat)
  /-- An address given back as kernel pages is not frame aligned. -/
  | unalignedKernelPages
  /-- A reserved range holds a frame in use, at this kernel address. -/
  | reservedInUse (address : Nat)
  /-- A range was reserved before the frame map existed. -/
  | reservedWhileBooting
  /-- The frame map does not fit between its base and the top of memory. -/
  | mapOutOfRoom (frames : Nat) (base : PhysAddr)
  /-- No usable run of memory can hold the frame map. -/
  | mapWithoutRun (frames : Nat)
  /-- The frame map would cover frames that were handed out already. -/
  | mapOverStolen
  /-- The frame map exists already. -/
  | alreadyInitialized
  /-- The page has a mapping already. -/
  | alreadyMapped (page : Page)
  /-- A region was declared after loading had begun. -/
  | regionAfterLoad
deriving DecidableEq

/-- What the kernel says when it stops. -/
def Halt.message : Halt → String
  | sumOverflow => "attempt to add with overflow"
  | productOverflow => "attempt to multiply with overflow"
  | differenceUnderflow => "attempt to subtract with overflow"
  | nonCanonical sum =>
      "attempt to add resulted in non-canonical virtual address: " ++
        s!"VirtAddrNotValid({hex sum})"
  | beyondPhysical => "physical addresses must not have any bits in the range 52 to 64 set"
  | physicalSumOverflow => "called `Option::unwrap()` on a `None` value"
  | freedWhileBooting => "Cannot deallocate frames for boot frame allocator"
  | notBlockHead f =>
      s!"Freeing {hex f.start.val}, which is not the head of an allocated block"
  | rangeBeyondEnd limit n => s!"range end index {limit} out of range for slice of length {n}"
  | indexBeyondEnd i n => s!"index out of bounds: the len is {n} but the index is {i}"
  | unalignedKernelPages =>
      "free_kpages on an address that is not frame aligned: AddressNotAligned"
  | reservedInUse a => s!"Reserving in-use frame at {hex a}"
  | reservedWhileBooting => "Cannot reserve memory before the frame map exists"
  | mapOutOfRoom n base => s!"Frame map for {n} frames does not fit above {hex base.val}"
  | mapWithoutRun n => s!"Frame map for {n} frames does not fit in usable memory"
  | mapOverStolen => "Frame map would overlap stolen boot frames"
  | alreadyInitialized => "Frame allocator already initialized"
  | alreadyMapped p => s!"Page {hex p.start.val} is already mapped"
  | regionAfterLoad => "define_region after prepare_load"

/-- **Aborts**: the two ways an operation ends without its result. -/
inductive Abort where
  /-- The request failed; the caller may go on. -/
  | failed (error : MemoryError)
  /-- The kernel stopped. -/
  | halted (halt : Halt)
deriving DecidableEq

/-! ### Arithmetic on addresses

Moving an address past its range stops the kernel.  Which cause is named depends on
how the range was left. -/

/-- The sum of two words. -/
def Word.add (a b : Nat) : Except Halt Nat :=
  if a + b < wordLimit then .ok (a + b) else .error .sumOverflow

/-- The product of two words. -/
def Word.mul (a b : Nat) : Except Halt Nat :=
  if a * b < wordLimit then .ok (a * b) else .error .productOverflow

/-- The address `n` bytes further on. -/
def VirtAddr.add (a : VirtAddr) (n : Nat) : Except Halt VirtAddr :=
  match Word.add a.val n with
  | .error h => .error h
  | .ok sum =>
    match VirtAddr.ofNat? sum with
    | some b => .ok b
    | none => .error (.nonCanonical sum)

/-- How far `a` lies above `base`. -/
def VirtAddr.sub (a base : VirtAddr) : Except Halt Nat :=
  if base.val ≤ a.val then .ok (a.val - base.val) else .error .differenceUnderflow

/-- The physical address with this value. -/
def PhysAddr.ofNat (n : Nat) : Except Halt PhysAddr :=
  match PhysAddr.ofNat? n with
  | some a => .ok a
  | none => .error .beyondPhysical

/-- The physical address `n` bytes further on. -/
def PhysAddr.add (a : PhysAddr) (n : Nat) : Except Halt PhysAddr :=
  if a.val + n < wordLimit then PhysAddr.ofNat (a.val + n) else .error .physicalSumOverflow

/-- The first frame boundary that is not below `a`. -/
def PhysAddr.alignUp (a : PhysAddr) : Except Halt PhysAddr :=
  PhysAddr.ofNat (roundUp a.val pageSize)

theorem VirtAddr.add_eq_ok_iff {a b : VirtAddr} {n : Nat} :
    a.add n = .ok b ↔ b.val = a.val + n := by
  unfold VirtAddr.add Word.add
  by_cases hw : a.val + n < wordLimit
  · simp only [hw, if_true]
    by_cases hc : a.val + n < 0x800000000000 ∨
        0xffff800000000000 ≤ a.val + n ∧ a.val + n < 0x10000000000000000
    · simp only [VirtAddr.ofNat?, hc, dite_true, Except.ok.injEq]
      constructor
      · rintro rfl; rfl
      · intro h; exact VirtAddr.ext h.symm
    · simp only [VirtAddr.ofNat?, hc, dite_false, reduceCtorEq, false_iff]
      intro h
      have := b.canonical
      rw [h] at this
      exact hc this
  · simp only [hw, if_false, reduceCtorEq, false_iff]
    intro h
    have := b.canonical
    unfold wordLimit at hw
    omega

theorem PhysAddr.ofNat_eq_ok_iff {n : Nat} {a : PhysAddr} :
    PhysAddr.ofNat n = .ok a ↔ a.val = n := by
  unfold PhysAddr.ofNat PhysAddr.ofNat?
  by_cases h : n < 0x10000000000000
  · simp only [h, dite_true, Except.ok.injEq]
    constructor
    · rintro rfl; rfl
    · intro e; exact PhysAddr.ext e.symm
  · simp only [h, dite_false, reduceCtorEq, false_iff]
    intro e
    have := a.inRange
    omega

end DemandPaging
