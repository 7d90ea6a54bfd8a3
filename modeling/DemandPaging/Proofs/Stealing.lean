import DemandPaging.Proofs.Custody
import DemandPaging.Proofs.Tiling
import DemandPaging.Proofs.UsableMemory

/-!
# Stealing frames

Before there is a frame map, frames are stolen upward from the end of the kernel image.  Nothing is
kept about them but the address of the next one, the limit, and how many there were.  This is enough
to say exactly what any sequence of calls does (`BootFrames.between_exact`): the blocks that are
handed out lie one on top of the other, from the first frame boundary on.

**Two ways to see what is left.**  A call compares bytes: it succeeds if the end of the block is
not above the limit.  `BootFrames.remaining` counts frames: it divides what is left between the
next frame and the limit.  The two agree, also where the limit is no frame boundary or lies below
the first frame (`BootFrames.fits_iff`).  Therefore a call that succeeds is known by its count
alone, and so is what it leaves (`BootFrames.past`).

**Along a sequence** of calls only the blocks matter that were handed out, and not the calls that
were refused in between.  `BootFrames.Bumps` says what the blocks say about the state, and each
call adds one block to it or none.
-/

namespace DemandPaging

/-! ### Blocks on top of each other -/

/-- **Stacked blocks**: the first begins with frame `first`, and each other one where the one before
it ends. -/
def Block.Stacked : Nat → List Block → Prop
  | _, [] => True
  | first, b :: rest => b.head.index = first ∧ Stacked (first + b.count) rest

namespace Block.Stacked

variable {first : Nat} {blocks : List Block}

/-- Together the blocks hold the frames from the first on. -/
theorem holds_iff (h : Stacked first blocks) (i : Nat) :
    (∃ b ∈ blocks, b.Holds i) ↔ first ≤ i ∧ i < first + frameTotal blocks := by
  induction blocks generalizing first with
  | nil =>
      simp only [List.not_mem_nil, false_and, exists_false, frameTotal_nil, false_iff]
      omega
  | cons b rest ih =>
      obtain ⟨hhead, hrest⟩ := h
      simp only [List.mem_cons, exists_eq_or_imp, ih hrest, frameTotal_cons]
      unfold Block.Holds
      rw [hhead]
      omega

/-- No two of them share a frame. -/
theorem apart (h : Stacked first blocks) : blocks.Pairwise Block.Apart := by
  induction blocks generalizing first with
  | nil => exact List.Pairwise.nil
  | cons b rest ih =>
      obtain ⟨hhead, hrest⟩ := h
      refine List.pairwise_cons.mpr ⟨fun c hc i hb hheld => ?_, ih hrest⟩
      have habove := ((hrest.holds_iff i).mp ⟨c, hc, hheld⟩).1
      have hbelow := hb.2
      omega

end Block.Stacked

namespace BootFrames

variable {b b' b₁ b₂ : BootFrames} {blocks : List Block} {m n : Nat}

/-! ### One call -/

/-- A block fits below the limit exactly if it has no more frames than are left. -/
theorem fits_iff (hpos : 0 < n) :
    b.next.val + n * pageSize ≤ b.limit.val ↔ n ≤ b.remaining := by
  unfold remaining pageSize
  omega

/-- The boot frames after `n` of those that are left were stolen. -/
def past (b : BootFrames) (n : Nat) (h : n ≤ b.remaining) : BootFrames where
  next := ⟨b.next.val + n * pageSize, by
    have hnext := b.next.inRange
    have hlimit := b.limit.inRange
    unfold remaining pageSize at h
    unfold pageSize
    omega⟩
  limit := b.limit
  stolen := b.stolen + n

/-- **A block of frames that are left** is handed out. -/
theorem steal_of_le (hpos : 0 < n) (h : n ≤ b.remaining) :
    b.steal n = .ok (some b.next.frame, b.past n h) := by
  have hfits : b.next.val + n * pageSize ≤ b.limit.val := (fits_iff hpos).mpr h
  have hword : Word.mul n pageSize = .ok (n * pageSize) := by
    have hlimit := b.limit.inRange
    unfold Word.mul wordLimit
    exact if_pos (by omega)
  unfold steal
  rw [if_neg (Nat.ne_of_gt hpos)]
  simp only [hword, dif_pos hfits]
  rfl

/-- **Any other block** is refused, which changes nothing. -/
theorem steal_of_not (hword : n * pageSize < wordLimit)
    (h : ¬ (0 < n ∧ n ≤ b.remaining)) : b.steal n = .ok (none, b) := by
  rcases Nat.eq_zero_or_pos n with rfl | hpos
  · rfl
  · have hfits : ¬ b.next.val + n * pageSize ≤ b.limit.val :=
      fun hfits => h ⟨hpos, (fits_iff hpos).mp hfits⟩
    have hbytes : Word.mul n pageSize = .ok (n * pageSize) := if_pos hword
    unfold steal
    rw [if_neg (Nat.ne_of_gt hpos)]
    simp only [hbytes, dif_neg hfits]

/-- What a block that was handed out says about the state before and after. -/
theorem steal_eq_some_iff {f : Frame} :
    b.steal n = .ok (some f, b') ↔
      ∃ h : n ≤ b.remaining, 0 < n ∧ f = b.next.frame ∧ b' = b.past n h := by
  constructor
  · intro hsteal
    rcases steal_eq_ok hsteal with ⟨hnone, -⟩ | ⟨hpos, -, hnext, hbelow, -⟩
    · cases hnone
    · have hleft : n ≤ b.remaining := (fits_iff hpos).mp (hnext ▸ hbelow)
      rw [steal_of_le hpos hleft] at hsteal
      cases hsteal
      exact ⟨hleft, hpos, rfl, rfl⟩
  · rintro ⟨h, hpos, rfl, rfl⟩
    exact steal_of_le hpos h

/-! ### One call or two -/

theorem remaining_past (h : n ≤ b.remaining) :
    (b.past n h).remaining = b.remaining - n := by
  show (b.limit.val - (b.next.val + n * 4096)) / 4096 = (b.limit.val - b.next.val) / 4096 - n
  omega

theorem past_past (hm : m ≤ b.remaining) (hn : n ≤ (b.past m hm).remaining)
    (h : m + n ≤ b.remaining) : (b.past m hm).past n hn = b.past (m + n) h := by
  have hnext : b.next.val + m * pageSize + n * pageSize = b.next.val + (m + n) * pageSize := by
    rw [Nat.add_mul, Nat.add_assoc]
  simp only [past, hnext, Nat.add_assoc]

/-- The next frame after `n` more. -/
theorem index_past (h : n ≤ b.remaining) :
    (b.past n h).next.frame.index = b.next.frame.index + n := by
  show (b.next.val + n * 4096) / 4096 = b.next.val / 4096 + n
  omega

/-- **Splits**: stealing two blocks one after the other is stealing both in one call. -/
structure Splits (b : BootFrames) : Prop where
  joined : ∀ m n f g b₁ b₂, b.steal m = .ok (some f, b₁) → b₁.steal n = .ok (some g, b₂) →
    b.steal (m + n) = .ok (some f, b₂) ∧
      ∀ i, Block.Holds ⟨f, m + n⟩ i ↔ Block.Holds ⟨f, m⟩ i ∨ Block.Holds ⟨g, n⟩ i
  parted : ∀ m n f b₂, 0 < m → 0 < n → b.steal (m + n) = .ok (some f, b₂) →
    ∃ g b₁, b.steal m = .ok (some f, b₁) ∧ b₁.steal n = .ok (some g, b₂)

theorem splits (b : BootFrames) : b.Splits where
  joined m n f g b₁ b₂ hm hn := by
    obtain ⟨hleft, hpos, rfl, rfl⟩ := steal_eq_some_iff.mp hm
    obtain ⟨hleft', hpos', rfl, rfl⟩ := steal_eq_some_iff.mp hn
    have hboth : m + n ≤ b.remaining := by
      have hrest := remaining_past hleft
      omega
    refine ⟨?_, fun i => ?_⟩
    · rw [steal_of_le (Nat.add_pos_left hpos n) hboth, past_past hleft hleft' hboth]
    · simp only [Block.Holds, index_past]
      omega
  parted m n f b₂ hpos hpos' hboth := by
    obtain ⟨hleft, -, rfl, rfl⟩ := steal_eq_some_iff.mp hboth
    have hm : m ≤ b.remaining := by omega
    have hn : n ≤ (b.past m hm).remaining := by
      rw [remaining_past]
      omega
    exact ⟨_, b.past m hm, steal_of_le hpos hm, by
      rw [steal_of_le hpos' hn, past_past hm hn hleft]⟩

/-! ### Sequences of calls -/

/-- **Calls** to the boot frames. -/
inductive Call where
  | steal (count : Nat)
  /-- The call by which page tables are given frames: one at a time. -/
  | allocateFrame

/-- How many frames are asked for. -/
def Call.count : Call → Nat
  | .steal count => count
  | .allocateFrame => 1

/-- Serves a call. -/
def answer (b : BootFrames) : Call → Except Halt (Option Frame × BootFrames)
  | .steal count => b.steal count
  | .allocateFrame => b.steal 1

/-- Serves calls one after another, unless one stops the kernel. -/
def answerAll (b : BootFrames) : List Call → Except Halt (List (Option Frame) × BootFrames)
  | [] => .ok ([], b)
  | c :: rest =>
    match b.answer c with
    | .error h => .error h
    | .ok (f, b₁) => (b₁.answerAll rest).map fun r => (f :: r.1, r.2)

/-- The blocks that were handed out, in the order of the calls. -/
def granted : List Call → List (Option Frame) → List Block
  | c :: calls, some f :: answers => ⟨f, c.count⟩ :: granted calls answers
  | _ :: calls, none :: answers => granted calls answers
  | _, _ => []

theorem answer_eq (b : BootFrames) (c : Call) : b.answer c = b.steal c.count := by
  cases c <;> rfl

/-- A call after others is served in the state that these leave. -/
theorem answerAll_concat {calls : List Call} {answers : List (Option Frame)} {c : Call}
    {f : Option Frame} (hcalls : b.answerAll calls = .ok (answers, b₁))
    (hc : b₁.answer c = .ok (f, b₂)) : b.answerAll (calls ++ [c]) = .ok (answers ++ [f], b₂) := by
  induction calls generalizing b answers with
  | nil =>
      cases hcalls
      rw [List.nil_append, answerAll, hc]
      rfl
  | cons d rest ih =>
      rw [answerAll] at hcalls
      rw [List.cons_append, answerAll]
      cases hd : b.answer d with
      | error h =>
          rw [hd] at hcalls
          cases hcalls
      | ok r =>
          rw [hd] at hcalls
          cases hrest : r.2.answerAll rest with
          | error h =>
              simp only [hrest, Except.map] at hcalls
              cases hcalls
          | ok s =>
              simp only [hrest, Except.map, Except.ok.injEq, Prod.mk.injEq] at hcalls
              obtain ⟨rfl, rfl⟩ := hcalls
              simp only [ih hrest, Except.map, List.cons_append]

/-- **Bumps**: the blocks that were handed out between two states, and what they say about the
states. -/
structure Bumps (b : BootFrames) (blocks : List Block) (b' : BootFrames) : Prop where
  stacked : Block.Stacked b.next.frame.index blocks
  nonempty : ∀ c ∈ blocks, 0 < c.count
  /-- There were enough frames for all of them. -/
  room : frameTotal blocks ≤ b.remaining
  next : b'.next.val = b.next.val + pageSize * frameTotal blocks
  limit : b'.limit = b.limit
  stolen : b'.stolen = b.stolen + frameTotal blocks

namespace Bumps

theorem nil (b : BootFrames) : b.Bumps [] b :=
  ⟨trivial, fun _ hc => absurd hc List.not_mem_nil, Nat.zero_le _, rfl, rfl, rfl⟩

/-- A block in front of others. -/
theorem cons (hpos : 0 < n) (hleft : n ≤ b.remaining) (h : (b.past n hleft).Bumps blocks b') :
    b.Bumps (⟨b.next.frame, n⟩ :: blocks) b' where
  stacked := ⟨rfl, index_past hleft ▸ h.stacked⟩
  nonempty := List.forall_mem_cons.mpr ⟨hpos, h.nonempty⟩
  room := by
    have hroom := h.room
    rw [remaining_past] at hroom
    show n + frameTotal blocks ≤ b.remaining
    omega
  next := by
    rw [h.next, frameTotal_cons, Nat.mul_add, ← Nat.add_assoc, Nat.mul_comm pageSize n]
    rfl
  limit := h.limit
  stolen := by
    rw [h.stolen, frameTotal_cons, ← Nat.add_assoc]
    rfl

/-- What is left has dropped by the frames of the blocks. -/
theorem remaining (h : b.Bumps blocks b') : b'.remaining + frameTotal blocks = b.remaining := by
  have hroom := h.room
  unfold BootFrames.remaining pageSize at hroom ⊢
  rw [h.limit, h.next]
  unfold pageSize
  omega

/-- No frame of the blocks reaches above the limit. -/
theorem below (h : b.Bumps blocks b') {c : Block} (hc : c ∈ blocks) {i : Nat} (hi : c.Holds i) :
    (i + 1) * pageSize ≤ b.limit.val := by
  have hheld := (h.stacked.holds_iff i).mp ⟨c, hc, hi⟩
  have hroom := h.room
  have hindex : b.next.frame.index = b.next.val / 4096 := rfl
  unfold BootFrames.remaining pageSize at hroom
  unfold pageSize
  omega

end Bumps

/-- **A sequence of calls** hands out blocks, whatever is asked for. -/
theorem exists_bumps : ∀ (calls : List Call) (b : BootFrames),
    (∀ c ∈ calls, c.count * pageSize < wordLimit) →
      ∃ answers b', b.answerAll calls = .ok (answers, b') ∧ answers.length = calls.length ∧
        b.Bumps (granted calls answers) b'
  | [], b, _ => ⟨[], b, rfl, rfl, .nil b⟩
  | c :: rest, b, words => by
      obtain ⟨hword, hwords⟩ := List.forall_mem_cons.mp words
      by_cases hfits : 0 < c.count ∧ c.count ≤ b.remaining
      · obtain ⟨hpos, hleft⟩ := hfits
        obtain ⟨answers, b', hrest, hlength, hbumps⟩ := exists_bumps rest (b.past _ hleft) hwords
        refine ⟨some b.next.frame :: answers, b', ?_, congrArg (· + 1) hlength,
          hbumps.cons hpos hleft⟩
        rw [answerAll, answer_eq, steal_of_le hpos hleft]
        simp only [hrest, Except.map]
      · obtain ⟨answers, b', hrest, hlength, hbumps⟩ := exists_bumps rest b hwords
        refine ⟨none :: answers, b', ?_, congrArg (· + 1) hlength, hbumps⟩
        rw [answerAll, answer_eq, steal_of_not hword hfits]
        simp only [hrest, Except.map]

/-- **Stealing is exact.**  Let the first free address round up to a physical address, and let any
calls be made whose bytes are a machine word each.  All of them are answered.  The blocks that they
were granted are stacked on the first frame boundary; none is empty, no two share a frame, and
every frame of them lies below the limit.  The next frame is as many frames above that boundary as
were stolen, which is how many the blocks have, and what is left has dropped by the same number.
One more call is granted exactly if it asks for at least one frame and no more than are left, and
changes nothing otherwise; and two blocks may be stolen in one call or in two. -/
theorem between_exact {firstFree limit : PhysAddr} {calls : List Call}
    (inRange : roundUp firstFree.val pageSize < 0x10000000000000)
    (words : ∀ c ∈ calls, c.count * pageSize < wordLimit) :
    ∃ b₀ answers b, between firstFree limit = .ok b₀ ∧ b₀.answerAll calls = .ok (answers, b) ∧
      answers.length = calls.length ∧
      Block.Stacked (blocksFor firstFree.val pageSize) (granted calls answers) ∧
      (∀ c ∈ granted calls answers, 0 < c.count) ∧
      (granted calls answers).Pairwise Block.Apart ∧
      (∀ c ∈ granted calls answers, ∀ i, c.Holds i → (i + 1) * pageSize ≤ limit.val) ∧
      b.next.val = roundUp firstFree.val pageSize + pageSize * b.stolen ∧
      b.stolen = frameTotal (granted calls answers) ∧
      b.remaining + frameTotal (granted calls answers) = b₀.remaining ∧
      (∀ c : Call, c.count * pageSize < wordLimit →
        ∃ f b', b₀.answerAll (calls ++ [c]) = .ok (answers ++ [f], b') ∧
          (f.isSome = true ↔ 1 ≤ c.count ∧ c.count ≤ b.remaining) ∧ (f = none → b' = b)) ∧
      b.Splits := by
  obtain ⟨next, hnext, hval⟩ := PhysAddr.exists_ofNat inRange
  have hbetween : between firstFree limit = .ok ⟨next, limit, 0⟩ := by
    unfold between PhysAddr.alignUp
    rw [hnext]
  obtain ⟨answers, b, hanswers, hlength, hbumps⟩ := exists_bumps calls ⟨next, limit, 0⟩ words
  have hindex : next.frame.index = blocksFor firstFree.val pageSize := by
    show next.val / pageSize = _
    rw [hval]
    exact Nat.mul_div_cancel _ (by decide)
  have hstolen : b.stolen = frameTotal (granted calls answers) :=
    hbumps.stolen.trans (Nat.zero_add _)
  refine ⟨_, answers, b, hbetween, hanswers, hlength, hindex ▸ hbumps.stacked, hbumps.nonempty,
    hbumps.stacked.apart, fun c hc i => hbumps.below hc, ?_, hstolen, hbumps.remaining, ?_,
    b.splits⟩
  · rw [hbumps.next, hstolen, ← hval]
  · intro c hword
    by_cases hfits : 0 < c.count ∧ c.count ≤ b.remaining
    · have hgranted := (b.answer_eq c).trans (steal_of_le hfits.1 hfits.2)
      exact ⟨_, _, answerAll_concat hanswers hgranted, iff_of_true rfl hfits, nofun⟩
    · have hrefused := (b.answer_eq c).trans (steal_of_not hword hfits)
      exact ⟨_, _, answerAll_concat hanswers hrefused, iff_of_false Bool.false_ne_true hfits,
        fun _ => rfl⟩

/-- Three frames between two addresses that are no frame boundaries.  Stealing none of them is
refused, two are stolen in one call, then two more are refused and one is stolen, and no further
call is granted. -/
theorem between_exact_three_frames :
    ∃ b₀ b calls answers, between ⟨0x1801, by decide⟩ ⟨0x5fff, by decide⟩ = .ok b₀ ∧
      b₀.remaining = 3 ∧ calls = [.steal 0, .steal 2, .steal 2, .allocateFrame] ∧
      answers = [none, some ⟨2, by decide⟩, none, some ⟨4, by decide⟩] ∧
      b₀.answerAll calls = .ok (answers, b) ∧ b.next.val = 0x5000 ∧ b.stolen = 3 ∧
      Block.Stacked 2 [⟨⟨2, by decide⟩, 2⟩, ⟨⟨4, by decide⟩, 1⟩] ∧
      ∀ c : Call, c.count * pageSize < wordLimit →
        ∃ b', b₀.answerAll (calls ++ [c]) = .ok (answers ++ [none], b') := by
  have hbetween : between ⟨0x1801, by decide⟩ ⟨0x5fff, by decide⟩ =
      .ok ⟨⟨0x2000, by decide⟩, ⟨0x5fff, by decide⟩, 0⟩ := rfl
  have hanswers : answerAll ⟨⟨0x2000, by decide⟩, ⟨0x5fff, by decide⟩, 0⟩
      [.steal 0, .steal 2, .steal 2, .allocateFrame] =
      .ok ([none, some ⟨2, by decide⟩, none, some ⟨4, by decide⟩],
        ⟨⟨0x5000, by decide⟩, ⟨0x5fff, by decide⟩, 3⟩) := rfl
  obtain ⟨b₀, answers, b, hbetween', hanswers', -, hstacked, -, -, -, -, -, -, hmore, -⟩ :=
    @between_exact ⟨0x1801, by decide⟩ ⟨0x5fff, by decide⟩
      [.steal 0, .steal 2, .steal 2, .allocateFrame] (by decide)
      (by simp [Call.count, pageSize, wordLimit])
  obtain rfl := Except.ok.inj (hbetween.symm.trans hbetween')
  obtain ⟨rfl, rfl⟩ := Prod.mk.inj (Except.ok.inj (hanswers.symm.trans hanswers'))
  refine ⟨_, _, _, _, hbetween, rfl, rfl, rfl, hanswers, rfl, rfl, hstacked, fun c hword => ?_⟩
  obtain ⟨f, b', hserved, hgranted, -⟩ := hmore c hword
  have hnone : f = none := by
    refine Option.not_isSome_iff_eq_none.mp fun hsome => ?_
    obtain ⟨hpos, hleft⟩ := hgranted.mp hsome
    exact absurd (Nat.le_trans hpos hleft) (by decide)
  exact ⟨b', hnone ▸ hserved⟩

end BootFrames

end DemandPaging
