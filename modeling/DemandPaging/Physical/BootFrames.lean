import DemandPaging.Failure

/-!
# Frames before the frame map

The frame map lives in physical memory, so some frames are needed before there is a map
to account for them.  They are *stolen*: taken one after another from the bottom of the
first usable run, and never given back.  Once the frame map is built, everything stolen
lies below its first free frame.
-/

namespace DemandPaging

/-- **Boot frames**: the part of the first usable run that has not been stolen. -/
structure BootFrames where
  /-- The next frame to be stolen; a frame boundary. -/
  next : PhysAddr
  /-- Nothing at or above this address is stolen. -/
  limit : PhysAddr
  /-- How many frames have been stolen. -/
  stolen : Nat
deriving DecidableEq

namespace BootFrames

/-- The frames of `[firstFree, limit)`. -/
def between (firstFree limit : PhysAddr) : Except Halt BootFrames :=
  match firstFree.alignUp with
  | .error h => .error h
  | .ok next => .ok ⟨next, limit, 0⟩

/-- How many frames are left. -/
def remaining (b : BootFrames) : Nat := (b.limit.val - b.next.val) / pageSize

/-- Steals `count` contiguous frames and answers the first, or `none` if they do not fit
below the limit.  A count whose bytes are no machine word stops the kernel. -/
def steal (b : BootFrames) (count : Nat) : Except Halt (Option Frame × BootFrames) :=
  if count = 0 then .ok (none, b)
  else
    match Word.mul count pageSize with
    | .error h => .error h
    | .ok bytes =>
      if h : b.next.val + bytes ≤ b.limit.val then
        .ok (some b.next.frame,
          { b with
            next := ⟨b.next.val + bytes, Nat.lt_of_le_of_lt h b.limit.inRange⟩
            stolen := b.stolen + count })
      else .ok (none, b)

/-- Stolen frames are gone for good: giving one back stops the kernel. -/
def free (_ : BootFrames) (_ : Frame) : Except Halt BootFrames := .error .freedWhileBooting

@[simp] theorem steal_zero (b : BootFrames) : b.steal 0 = .ok (none, b) := rfl

end BootFrames

end DemandPaging
