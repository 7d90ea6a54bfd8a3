import DemandPaging.Proofs.Phases
import DemandPaging.Proofs.Rollback
import Mathlib.Data.List.Perm.Basic
import Mathlib.Data.List.ReduceOption

/-!
# Taking back undoes handing out

Blocks are handed out one after another, by frame or by kernel address, and some requests are
refused.  Then everything is taken back, in an order of its own.  This module says that no step of
it stops the kernel, that the allocator is the one from before, and that the same requests would
get the same answers again (`Allocator.IsReachable.undone_in_any_order`).

**What is lent.**  There is nothing to say about orders.  At each point the map follows the blocks
that are lent, beside those it followed in the beginning, and it has fixed nothing
(`Allocator.Lends`).  Handing out adds one block and taking back removes one, wherever it stands in
the list, since lists of blocks are meant up to permutation.  This determines the allocator
(`Allocator.Lends.unique`): when nothing is lent any more, it is the first one.

**Names.**  A block is taken back under the name that it was handed out under, its first frame or
the address of that frame in the window.  The window does not move, so names stay valid whatever
happens in between.
-/

namespace DemandPaging

/-- **Demands**: the two ways to ask for `count` consecutive frames. -/
inductive Demand where
  | frames (count : Nat)
  | kernelPages (count : Nat)

/-- **Grants**: what a block is named that was handed out. -/
inductive Grant where
  | frames (head : Frame)
  | kernelPages (address : VirtAddr)
deriving DecidableEq

namespace Allocator

/-! ### Handing out and taking back, many times -/

/-- Answers a demand. -/
def meet (a : Allocator) : Demand → Except Halt (Option Grant × Allocator)
  | .frames count =>
    match a.allocate count with
    | .error h => .error h
    | .ok (f, a) => .ok (f.map .frames, a)
  | .kernelPages count =>
    match a.allocateKernelPages count with
    | .error h => .error h
    | .ok (address, a) => .ok (address.map .kernelPages, a)

/-- Answers demands one after another. -/
def meetAll (a : Allocator) : List Demand → Except Halt (List (Option Grant) × Allocator)
  | [] => .ok ([], a)
  | d :: rest =>
    match a.meet d with
    | .error h => .error h
    | .ok (answer, a) =>
      match a.meetAll rest with
      | .error h => .error h
      | .ok (answers, a) => .ok (answer :: answers, a)

/-- Takes the block back that was granted under this name. -/
def takeBack (a : Allocator) : Grant → Except Halt Allocator
  | .frames f => a.free f
  | .kernelPages address => a.freeKernelPages address

/-- Takes blocks back one after another. -/
def takeAllBack (a : Allocator) : List Grant → Except Halt Allocator
  | [] => .ok a
  | g :: rest =>
    match a.takeBack g with
    | .error h => .error h
    | .ok a => a.takeAllBack rest

/-! ### Names of blocks -/

variable {a a' a₁ a₂ : Allocator} {m m' : FrameMap} {live lent lent' : List Block} {b : Block}
  {f : Frame} {g : Grant} {count : Nat}

/-- The grant names the block: by its first frame, or by where the kernel sees that. -/
def Names (a : Allocator) : Grant → Block → Prop
  | .frames f, b => f = b.head
  | .kernelPages address, b => a.kernelAddress b.head = .ok address

/-- Giving kernel pages back is giving back the frame that the kernel sees there. -/
theorem freeKernelPages_of_kernelAddress {address : VirtAddr}
    (h : a.kernelAddress f = .ok address) : a.freeKernelPages address = a.free f := by
  have hval := VirtAddr.add_eq_ok_iff.mp h
  have hoffset : address.sub a.window = .ok f.start.val := by
    rw [VirtAddr.sub, if_pos (by omega), hval, Nat.add_sub_cancel_left]
  have hphysical : PhysAddr.ofNat f.start.val = .ok f.start := PhysAddr.ofNat_eq_ok_iff.mpr rfl
  have haligned : f.start.offset = 0 := Nat.mul_mod_left _ _
  simp only [freeKernelPages, hoffset, hphysical, if_pos haligned, Frame.frame_start]

/-- Under either name the block at its head is taken back. -/
theorem Names.takeBack_eq (h : a.Names g b) : a.takeBack g = a.free b.head := by
  cases g with
  | frames f => exact congrArg a.free h
  | kernelPages address => exact freeKernelPages_of_kernelAddress h

theorem kernelAddress_congr (h : a'.window = a.window) (f : Frame) :
    a'.kernelAddress f = a.kernelAddress f := congrArg (VirtAddr.add · f.start.val) h

/-- Names depend on nothing but the window. -/
theorem Names.of_window_eq (h : a.Names g b) (hwindow : a'.window = a.window) : a'.Names g b := by
  cases g with
  | frames f => exact h
  | kernelPages address => exact (kernelAddress_congr hwindow b.head).trans h

/-! ### What is lent -/

theorem outline_fst (a : Allocator) : a.outline.1 = a.window := by
  unfold outline
  split <;> rfl

/-- **Lending**: `a'` is `a`, except that it has handed out the blocks `lent`, beside the blocks
`live` that are not touched. -/
structure Lends (a : Allocator) (live lent : List Block) (a' : Allocator) : Prop where
  ledger : ∃ m, a'.source = .mapped m ∧ a'.Oversees m ∧ m.Follows (lent ++ live)
  outline : a'.outline = a.outline

namespace Lends

theorem window (h : a.Lends live lent a') : a'.window = a.window := by
  rw [← outline_fst, ← outline_fst, h.outline]

theorem perm (h : a.Lends live lent a') (hp : lent.Perm lent') : a.Lends live lent' a' where
  ledger := by
    obtain ⟨m, hm, hoversees, hfollows⟩ := h.ledger
    exact ⟨m, hm, hoversees, hfollows.perm (hp.append_right live)⟩
  outline := h.outline

/-- **What is lent determines the allocator.** -/
theorem unique (h₁ : a.Lends live lent a₁) (h₂ : a.Lends live lent a₂) : a₂ = a₁ := by
  obtain ⟨m₁, hm₁, -, hfollows₁⟩ := h₁.ledger
  obtain ⟨m₂, hm₂, -, hfollows₂⟩ := h₂.ledger
  exact eq_of_follows hm₁ hm₂ hfollows₁ hfollows₂ (h₂.outline.trans h₁.outline.symm)

/-- Another map, with other blocks and the same fixed frames. -/
theorem withMap (h : a.Lends live lent a₁) (hm : a₁.source = .mapped m)
    (follows : m'.Follows (lent' ++ live)) (ground : m'.outline = m.outline) :
    a.Lends live lent' (a₁.withMap m') where
  ledger := by
    obtain ⟨m₁, hm₁, hoversees, -⟩ := h.ledger
    cases hm.symm.trans hm₁
    have hsize : m'.size = m.size := by
      simpa only [FrameMap.outline, List.length_map, FrameMap.length_states]
        using congrArg List.length ground
    exact ⟨m', rfl, hoversees.withMap ⟨_, follows⟩ hsize, follows⟩
  outline :=
    calc
      (a₁.withMap m').outline = (a₁.window, m'.outline) := rfl
      _ = (a₁.window, m.outline) := by rw [ground]
      _ = a₁.outline := (outline_mapped hm).symm
      _ = a.outline := h.outline

/-- Frames that are handed out are lent. -/
theorem allocate (h : a.Lends live lent a₁) (taken : a₁.allocate count = .ok (some f, a₂)) :
    a.Lends live (⟨f, count⟩ :: lent) a₂ := by
  obtain ⟨m, hm, -, hfollows⟩ := h.ledger
  rw [allocate_mapped hm] at taken
  rcases FrameMap.allocate_cases hfollows.counted count with
    ⟨f', hgrant, hpos, hfree, -⟩ | ⟨hrefuse, -⟩
  · rw [hgrant] at taken
    cases taken
    exact h.withMap hm (hfollows.occupy hpos hfree) (FrameMap.outline_occupy hfree)
  · rw [hrefuse] at taken
    cases taken

/-- **Handing out.**  Every demand is answered: it is refused and nothing has changed, or one more
block is lent and the answer names it. -/
theorem meet (h : a.Lends live lent a₁) (d : Demand) :
    ∃ answer a₂, a₁.meet d = .ok (answer, a₂) ∧
      (answer = none ∧ a₂ = a₁ ∨
        ∃ g b, answer = some g ∧ a.Names g b ∧ a.Lends live (b :: lent) a₂) := by
  obtain ⟨m, hm, hoversees, -⟩ := h.ledger
  have answers : ∀ count, ∃ answer a₂, a₁.allocate count = .ok (answer, a₂) :=
    fun count => ⟨_, _, allocate_mapped hm count⟩
  cases d with
  | frames count =>
      obtain ⟨answer, a₂, hallocate⟩ := answers count
      refine ⟨answer.map .frames, a₂, by simp only [Allocator.meet, hallocate], ?_⟩
      cases answer with
      | none => exact Or.inl ⟨rfl, allocate_eq_none hallocate⟩
      | some f => exact Or.inr ⟨.frames f, ⟨f, count⟩, rfl, rfl, h.allocate hallocate⟩
  | kernelPages count =>
      obtain ⟨answer, a₂, hallocate⟩ := answers count
      simp only [Allocator.meet, allocateKernelPages, hallocate]
      cases answer with
      | none => exact ⟨none, a₂, rfl, Or.inl ⟨rfl, allocate_eq_none hallocate⟩⟩
      | some f =>
          -- the window reaches whatever the map hands out
          obtain ⟨address, haddress⟩ := sees_iff.mp (hoversees.sees_allocate hm hallocate)
          have hseen := (kernelAddress_congr (window_allocate hallocate) f).trans haddress
          have hnames : a.Names (.kernelPages address) ⟨f, count⟩ :=
            (kernelAddress_congr h.window f).symm.trans haddress
          simp only [hseen]
          exact ⟨_, a₂, rfl, Or.inr ⟨_, _, rfl, hnames, h.allocate hallocate⟩⟩

/-- **Taking back.**  A block that is lent is taken back under its name. -/
theorem takeBack (h : a.Lends live (b :: lent) a₁) (names : a.Names g b) :
    ∃ a₂, a₁.takeBack g = .ok a₂ ∧ a.Lends live lent a₂ := by
  obtain ⟨m, hm, -, hfollows⟩ := h.ledger
  have hback : a₁.takeBack g = .ok (a₁.withMap (m.vacate b.head.index b.count)) := by
    rw [(names.of_window_eq h.window).takeBack_eq, free_mapped hm,
      hfollows.free_head List.mem_cons_self]
    rfl
  exact ⟨_, hback, h.withMap hm hfollows.vacate hfollows.outline_vacate⟩

/-- **Handing out, many times**, by induction on the demands: what is lent in the end are the
blocks that the answers name. -/
theorem meetAll :
    ∀ (demands : List Demand) {lent : List Block} {a₁ : Allocator}, a.Lends live lent a₁ →
      ∃ answers a₂ blocks, a₁.meetAll demands = .ok (answers, a₂) ∧
        answers.reduceOption.Forall₂ a.Names blocks ∧ a.Lends live (blocks ++ lent) a₂
  | [], _, a₁, h => ⟨[], a₁, [], rfl, .nil, h⟩
  | d :: rest, lent, a₁, h => by
      obtain ⟨answer, a₂, hmeet, hanswer⟩ := h.meet d
      simp only [Allocator.meetAll, hmeet]
      rcases hanswer with ⟨rfl, rfl⟩ | ⟨g, b, rfl, hnames, hlent⟩
      · obtain ⟨answers, a₃, blocks, hrest, hall, hlent⟩ := h.meetAll rest
        refine ⟨none :: answers, a₃, blocks, by simp only [hrest], ?_, hlent⟩
        rwa [List.reduceOption_cons_of_none]
      · obtain ⟨answers, a₃, blocks, hrest, hall, hlent⟩ := hlent.meetAll rest
        refine ⟨some g :: answers, a₃, b :: blocks, by simp only [hrest], ?_, ?_⟩
        · rw [List.reduceOption_cons_of_some]
          exact .cons hnames hall
        · exact hlent.perm List.perm_middle

/-- **Taking back, many times**, by induction on the names. -/
theorem takeAllBack {grants : List Grant} {blocks : List Block}
    (names : grants.Forall₂ a.Names blocks) :
    ∀ {a₁ : Allocator}, a.Lends live (blocks ++ lent) a₁ →
      ∃ a₂, a₁.takeAllBack grants = .ok a₂ ∧ a.Lends live lent a₂ := by
  induction names with
  | nil => exact fun h => ⟨_, rfl, h⟩
  | cons hname _ ih =>
      intro a₁ h
      obtain ⟨a₂, hback, h₂⟩ := h.takeBack hname
      simp only [Allocator.takeAllBack, hback]
      exact ih h₂

end Lends

/-- Nothing is lent in the beginning. -/
theorem IsReachable.exists_lends_nil (h : a.IsReachable) (hm : a.source = .mapped m) :
    ∃ live, a.Lends live [] a := by
  have hoversees := h.oversees hm
  obtain ⟨live, hfollows⟩ := hoversees.follows
  exact ⟨live, ⟨m, hm, hoversees, hfollows⟩, rfl⟩

/-- **Taking back undoes handing out.**  Over a map all demands are answered.  Whatever has been
handed out is taken back, in any order, without stopping the kernel.  Then the allocator is the one
from before, and the same demands get the same answers again. -/
theorem IsReachable.undone_in_any_order (h : a.IsReachable) (hm : a.source = .mapped m)
    (demands : List Demand) :
    ∃ answers later, a.meetAll demands = .ok (answers, later) ∧
      ∀ order : List Grant, order.Perm answers.reduceOption →
        ∃ restored, later.takeAllBack order = .ok restored ∧ restored = a ∧
          restored.meetAll demands = .ok (answers, later) := by
  obtain ⟨live, hnothing⟩ := h.exists_lends_nil hm
  obtain ⟨answers, later, blocks, hmeet, hnames, hlent⟩ := hnothing.meetAll demands
  refine ⟨answers, later, hmeet, fun order hperm => ?_⟩
  -- the blocks in the order in which their names come
  obtain ⟨reordered, hordered, hblocks⟩ := List.perm_comp_forall₂ hperm hnames
  have hlent' := hlent.perm (hblocks.symm.append_right [])
  obtain ⟨restored, hback, hkept⟩ := hlent'.takeAllBack hordered
  obtain rfl := hkept.unique hnothing
  exact ⟨_, hback, rfl, hmeet⟩

/-- Sixteen frames, of which two to four and those from six on are free: of four demands one is too
large, and the blocks are taken back in an order that is neither theirs nor its reverse. -/
theorem undone_in_any_order_sixteen_frames :
    ∃ a later : Allocator, a.IsReachable ∧
      a.meetAll [.frames 2, .kernelPages 11, .kernelPages 3, .frames 1] =
        .ok ([some (.frames ⟨2, by decide⟩), none,
          some (.kernelPages ⟨0xffff800000006000, by decide⟩), some (.frames ⟨4, by decide⟩)],
          later) ∧
      later.freeFrames + 6 = a.freeFrames ∧
      later.takeAllBack [.kernelPages ⟨0xffff800000006000, by decide⟩, .frames ⟨2, by decide⟩,
        .frames ⟨4, by decide⟩] = .ok a := by
  have reachable := History.isReachable_sixteenFrames
  obtain ⟨answers, later, hmeet, hundo⟩ := reachable.undone_in_any_order rfl
    [.frames 2, .kernelPages 11, .kernelPages 3, .frames 1]
  have answered : History.sixteenFrames.kernel.allocator.meetAll
      [.frames 2, .kernelPages 11, .kernelPages 3, .frames 1] =
      .ok ([some (.frames ⟨2, by decide⟩), none,
        some (.kernelPages ⟨0xffff800000006000, by decide⟩), some (.frames ⟨4, by decide⟩)],
        History.sixteenFrames.kernel.allocator.withMap
          ⟨[.fixed, .fixed, .inUse true 2, .inUse false 2, .inUse true 1, .fixed, .inUse true 3,
            .inUse false 3, .inUse false 3, .free, .free, .free, .free, .free, .free, .free], 7,
            by decide⟩) := by cbv
  rw [answered] at hmeet
  cases hmeet
  obtain ⟨_, hback, rfl, -⟩ := hundo [.kernelPages ⟨0xffff800000006000, by decide⟩,
    .frames ⟨2, by decide⟩, .frames ⟨4, by decide⟩] (by decide)
  exact ⟨_, _, reachable, answered, rfl, hback⟩

end Allocator

end DemandPaging
