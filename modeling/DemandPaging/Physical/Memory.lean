import DemandPaging.Address
import Std.Data.HashMap

/-!
# The contents of physical memory

Memory is a map from frames to their bytes.  Only frames that were ever written are
stored; all others hold zeroes, as the machine does when it is switched on.

**Nothing here clears memory.**  Handing a frame out and taking it back leave its bytes
alone, so a frame comes with whatever its last user left in it, and whoever passes it on
to a program has to zero it first.

The view of memory is `Memory.contents`, the bytes of one frame, and `Memory.byte` below
it; every operation is pinned down by what it does to that view.
-/

namespace DemandPaging

/-- **Contents** of one frame. -/
abbrev Contents := Vector UInt8 4096

namespace Contents

/-- A frame of zeroes. -/
def zero : Contents := Vector.replicate 4096 0

/-- The byte at an offset, if the frame reaches that far. -/
def get? (data : Contents) (offset : Nat) : Option UInt8 := data[offset]?

/-- The byte at an offset. -/
def byte (data : Contents) (offset : Nat) : UInt8 := (data.get? offset).getD 0

/-- The `count` bytes from `offset` on. -/
def slice (data : Contents) (offset count : Nat) : List UInt8 :=
  (List.range count).map fun i => data.byte (offset + i)

/-- The contents with `bytes` written over those from `offset` on. -/
def overwrite (data : Contents) (offset : Nat) (bytes : List UInt8) : Contents :=
  let source := bytes.toArray
  Vector.ofFn fun i =>
    if offset ≤ i.val then (source[i.val - offset]?).getD (data.byte i) else data.byte i

@[simp] theorem byte_zero (offset : Nat) : zero.byte offset = 0 := by
  unfold byte get? zero
  by_cases h : offset < 4096 <;> simp [h]

theorem byte_overwrite (data : Contents) {offset i : Nat} (bytes : List UInt8) (h : i < 4096) :
    (data.overwrite offset bytes).byte i =
      if offset ≤ i then bytes[i - offset]?.getD (data.byte i) else data.byte i := by
  simp [overwrite, byte, get?, h]

@[simp] theorem length_slice (data : Contents) (offset count : Nat) :
    (data.slice offset count).length = count := by
  simp [slice]

end Contents

/-- **Physical memory.** -/
structure Memory where
  written : Std.HashMap Nat Contents

namespace Memory

/-- Memory in which every byte is zero. -/
def blank : Memory := ⟨∅⟩

/-- The bytes of a frame. -/
def contents (m : Memory) (f : Frame) : Contents := m.written.getD f.index .zero

/-- The byte at an offset into a frame. -/
def byte (m : Memory) (f : Frame) (offset : Nat) : UInt8 := (m.contents f).byte offset

/-- Replaces the bytes of a frame. -/
def store (m : Memory) (f : Frame) (data : Contents) : Memory := ⟨m.written.insert f.index data⟩

/-- Fills a frame with zeroes. -/
def zero (m : Memory) (f : Frame) : Memory := m.store f .zero

/-- Copies the bytes of frame `source` over those of frame `target`. -/
def copy (m : Memory) (target source : Frame) : Memory := m.store target (m.contents source)

/-- Writes bytes into a frame, from an offset on. -/
def write (m : Memory) (f : Frame) (offset : Nat) (bytes : List UInt8) : Memory :=
  m.store f ((m.contents f).overwrite offset bytes)

/-- Reads bytes of a frame, from an offset on. -/
def read (m : Memory) (f : Frame) (offset count : Nat) : List UInt8 :=
  (m.contents f).slice offset count

@[simp] theorem contents_blank (f : Frame) : blank.contents f = .zero := by
  simp [blank, contents]

@[simp] theorem contents_store (m : Memory) (f g : Frame) (data : Contents) :
    (m.store f data).contents g = if f = g then data else m.contents g := by
  simp only [store, contents, Std.HashMap.getD_insert, beq_iff_eq]
  by_cases h : f = g
  · simp [h]
  · have : f.index ≠ g.index := fun e => h (Frame.ext e)
    simp [h, this]

@[simp] theorem contents_zero (m : Memory) (f g : Frame) :
    (m.zero f).contents g = if f = g then .zero else m.contents g := by
  simp [zero]

@[simp] theorem contents_copy (m : Memory) (target source g : Frame) :
    (m.copy target source).contents g =
      if target = g then m.contents source else m.contents g := by
  simp [copy]

@[simp] theorem contents_write (m : Memory) (f g : Frame) (offset : Nat) (bytes : List UInt8) :
    (m.write f offset bytes).contents g =
      if f = g then (m.contents f).overwrite offset bytes else m.contents g := by
  simp [write]

end Memory

end DemandPaging
