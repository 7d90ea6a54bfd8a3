/-!
# Permissions and entry flags

A program asks for a `Permission`: some of reading, writing and executing.  A
mapping carries `EntryFlags`, the 64-bit word the processor reads.  This module
holds both and the one map between them, `Permission.flags`.

**A page without any permission is not present.**  The processor has no bit for
"readable": a present page can be read.  So asking for anything makes the page
present, asking for nothing leaves it absent, and every other combination collapses
onto the bits *writable* and *no-execute*.
-/

namespace DemandPaging

/-- **Permissions** a program declares for a range of its memory. -/
structure Permission where
  read : Bool
  write : Bool
  execute : Bool
deriving DecidableEq, Repr

namespace Permission

/-- Whether anything at all is permitted. -/
def any (p : Permission) : Bool := p.read || p.write || p.execute

/-- The three letters `rwx`, a dash for what is missing. -/
def text (p : Permission) : String :=
  String.ofList
    [if p.read then 'r' else '-', if p.write then 'w' else '-', if p.execute then 'x' else '-']

end Permission

/-- **Entry flags**: the control bits of one mapping, as one word. -/
structure EntryFlags where
  bits : BitVec 64
deriving DecidableEq

namespace EntryFlags

/-- Bit 0: the mapping may be used. -/
def present : EntryFlags := ⟨1⟩

/-- Bit 1: the page may be written. -/
def writable : EntryFlags := ⟨2⟩

/-- Bit 2: user programs may use the mapping. -/
def user : EntryFlags := ⟨4⟩

/-- Bit 63: nothing in the page may be executed. -/
def noExecute : EntryFlags := ⟨0x8000000000000000⟩

/-- The flags set in either word. -/
def union (f g : EntryFlags) : EntryFlags := ⟨f.bits ||| g.bits⟩

instance : Union EntryFlags := ⟨union⟩

/-- `g` when the condition holds, no flag otherwise. -/
def only (c : Bool) (g : EntryFlags) : EntryFlags := if c then g else ⟨0⟩

/-- Whether the mapping may be used at all. -/
def isPresent (f : EntryFlags) : Bool := f.bits.getLsbD 0

/-- Whether the mapping allows writing. -/
def isWritable (f : EntryFlags) : Bool := f.bits.getLsbD 1

/-- Whether the mapping forbids instruction fetches. -/
def isNoExecute (f : EntryFlags) : Bool := f.bits.getLsbD 63

/-- What a page gets while its contents are still being loaded. -/
def loading : EntryFlags := present ∪ writable ∪ user

/-- What a stack or heap page gets. -/
def segment : EntryFlags := loading ∪ noExecute

@[ext] theorem ext {f g : EntryFlags} (h : f.bits = g.bits) : f = g := by
  cases f; cases g; simp_all

@[simp] theorem union_bits (f g : EntryFlags) : (f ∪ g).bits = f.bits ||| g.bits := rfl

@[simp] theorem isPresent_loading : loading.isPresent = true := by decide
@[simp] theorem isWritable_loading : loading.isWritable = true := by decide
@[simp] theorem isPresent_segment : segment.isPresent = true := by decide
@[simp] theorem isWritable_segment : segment.isWritable = true := by decide
@[simp] theorem isNoExecute_segment : segment.isNoExecute = true := by decide

end EntryFlags

/-- The flags of a page with the declared permission. -/
def Permission.flags (p : Permission) : EntryFlags :=
  .user ∪ .only p.any .present ∪ .only p.write .writable ∪ .only (!p.execute) .noExecute

@[simp] theorem Permission.isPresent_flags (p : Permission) : p.flags.isPresent = p.any := by
  cases p with
  | mk r w x => cases r <;> cases w <;> cases x <;> decide

@[simp] theorem Permission.isWritable_flags (p : Permission) : p.flags.isWritable = p.write := by
  cases p with
  | mk r w x => cases r <;> cases w <;> cases x <;> decide

@[simp] theorem Permission.isNoExecute_flags (p : Permission) :
    p.flags.isNoExecute = !p.execute := by
  cases p with
  | mk r w x => cases r <;> cases w <;> cases x <;> decide

end DemandPaging
