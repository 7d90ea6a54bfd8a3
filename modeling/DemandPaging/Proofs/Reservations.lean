import DemandPaging.Proofs.Phases
import Mathlib.Data.Finset.Card
import Mathlib.Order.Interval.Finset.Nat

/-!
# Reserving, exactly

A range of bytes is reserved, and what becomes fixed are frames.  The base is rounded down, the end
is rounded up, and what lies behind the end of the map is left out.  So the frames of a range are
those that share a byte with it (`SharesByte`), wherever it begins and ends
(`Allocator.ReservesExactly`).

**An empty range that begins within a frame is the exception.**  It shares a byte with no frame, and
yet its frame is fixed, or stops the kernel if it is in use: the end is the base, and rounds up to
the end of the frame (`not_forall_reserves_exactly`).  What is reserved then is what a range of one
byte reserves, and this is the only exception (`Allocator.IsReachable.reserves_exactly`).
-/

namespace DemandPaging

/-- Frame number `i` shares a byte with `[base, base + length)`. -/
def SharesByte (i base length : Nat) : Prop :=
  ∃ byte, base ≤ byte ∧ byte < base + length ∧ i * pageSize ≤ byte ∧ byte < (i + 1) * pageSize

section SharedBytes

variable {i base length : Nat}

theorem sharesByte_iff_lt :
    SharesByte i base length ↔
      max base (i * pageSize) < min (base + length) ((i + 1) * pageSize) := by
  constructor
  · rintro ⟨byte, hbase, htop, hfirst, hlast⟩
    omega
  · intro hlt
    exact ⟨max base (i * pageSize), by omega, by omega, by omega, by omega⟩

instance : Decidable (SharesByte i base length) := decidable_of_iff' _ sharesByte_iff_lt

/-- What rounding down and up amounts to, unless the range is empty and begins within a frame. -/
theorem sharesByte_iff (h : 0 < length ∨ pageSize ∣ base) :
    SharesByte i base length ↔ base / pageSize ≤ i ∧ i * pageSize < base + length := by
  rw [sharesByte_iff_lt]
  unfold pageSize at *
  omega

end SharedBytes

namespace FrameMap

variable {m m' : FrameMap}

/-! ### The set of free frames -/

/-- The numbers of the free frames. -/
def freeSet (m : FrameMap) : Finset Nat :=
  (Finset.range m.size).filter fun i => m.states[i]? = some .free

theorem mem_freeSet {i : Nat} : i ∈ m.freeSet ↔ m.states[i]? = some .free := by
  simp only [freeSet, Finset.mem_filter, Finset.mem_range, and_iff_right_iff_imp]
  intro hfree
  rw [← length_states]
  exact (List.getElem?_eq_some_iff.mp hfree).1

theorem card_freeSet (m : FrameMap) : m.freeSet.card = m.entries.countP FrameEntry.isFree := by
  have hstates : (List.range m.size).map (m.states[·]?) = m.states.map some := by
    refine List.ext_getElem? fun i => ?_
    by_cases hi : i < m.size <;> simp [hi]
  calc
    m.freeSet.card = (List.range m.size).countP fun i => m.states[i]? = some .free := by
          rw [List.countP_eq_length_filter]
          rfl
    _ = (m.states.map some).countP (· = some .free) := by
          rw [← hstates, List.countP_map]
          rfl
    _ = m.entries.countP FrameEntry.isFree := by
          rw [List.countP_map, states, List.countP_map]
          exact List.countP_congr fun e _ => by simp

/-- **Fixing frames**: `m'` is `m`, except that the free frames among those that are touched are
fixed, and no longer counted. -/
structure Fixes (m : FrameMap) (touched : Nat → Prop) [DecidablePred touched] (m' : FrameMap) :
    Prop where
  fixed : ∀ i, m.states[i]? = some .free → touched i → m'.entries[i]? = some .fixed
  kept : ∀ i, (m.states[i]? = some .free → ¬ touched i) → m'.entries[i]? = m.entries[i]?
  counted : m'.freeCount + (m.freeSet.filter touched).card = m.freeCount

variable {live : List Block} {window : VirtAddr} {base : PhysAddr} {length : Nat}

/-- A frame in use within the rounded range stops the kernel, and nothing else does. -/
theorem reserve_eq_error_iff (hword : base.val + length < wordLimit) :
    (∃ halt, m.reserve window base length = .error halt) ↔
      ∃ (i : Nat) (e : FrameEntry), m.entries[i]? = some e ∧ e.isInUse = true ∧
        base.val / pageSize ≤ i ∧ i * pageSize < base.val + length := by
  have hslice : ∀ (i : Nat) (e : FrameEntry), m.entries[i]? = some e →
      (base.val / pageSize ≤ i ∧ i < base.val / pageSize +
          (min (blocksFor (base.val + length) pageSize) m.size - base.val / pageSize) ↔
        base.val / pageSize ≤ i ∧ i * pageSize < base.val + length) := by
    intro i e hi
    have hlt : i < m.size := (List.getElem?_eq_some_iff.mp hi).1
    unfold blocksFor pageSize
    omega
  simp only [reserve, Word.add, if_pos hword]
  cases hfound : (m.slice (base.val / pageSize)
      (min (blocksFor (base.val + length) pageSize) m.size - base.val / pageSize)).findIdx?
        FrameEntry.isInUse with
  | none =>
      refine iff_of_false ?_ ?_
      · rintro ⟨halt, herror⟩
        cases herror
      · rintro ⟨i, e, hi, huse, hrange⟩
        obtain ⟨hlow, hhigh⟩ := (hslice i e hi).mpr hrange
        have hidle := List.findIdx?_eq_none_iff.mp hfound e (mem_slice.mpr ⟨i, hlow, hhigh, hi⟩)
        rw [huse] at hidle
        cases hidle
  | some j =>
      refine iff_of_true ⟨_, rfl⟩ ?_
      obtain ⟨hj, huse, -⟩ := List.findIdx?_eq_some_iff_getElem.mp hfound
      obtain ⟨i, hlow, hhigh, hi⟩ := mem_slice.mp (List.getElem_mem hj)
      exact ⟨i, _, hi, huse, (hslice i _ hi).mp ⟨hlow, hhigh⟩⟩

/-- A reservation that does not stop the kernel fixes the free frames of the rounded range. -/
theorem Follows.fixes_reserve (h : m.Follows live)
    (hreserve : m.reserve window base length = .ok m') {touched : Nat → Prop}
    [DecidablePred touched] (htouched : ∀ i, touched i ↔
      base.val / pageSize ≤ i ∧ i * pageSize < base.val + length) :
    m.Fixes touched m' where
  fixed i hfree htouch := by
    rw [getElem?_reserve hreserve, h.state_eq_free_iff.mp hfree, Option.map_some,
      if_pos ((htouched i).mp htouch)]
    rfl
  kept i hspared := by
    rw [getElem?_reserve hreserve]
    cases hentry : m.entries[i]? with
    | none => rfl
    | some e =>
        rw [Option.map_some]
        split
        · next hrange =>
            have hbusy : ¬ e.isFree = true := by
              rw [FrameEntry.isFree_iff]
              intro hfree
              refine hspared ?_ ((htouched i).mpr hrange)
              rw [getElem?_states, hentry, Option.map_some, hfree]
            rw [fix, if_neg hbusy]
        · rfl
  counted := by
    have hleft : m'.freeSet = m.freeSet.filter fun i => ¬ touched i := by
      ext i
      rw [Finset.mem_filter, mem_freeSet, mem_freeSet, state_reserve_eq_free_iff hreserve,
        htouched]
    calc
      m'.freeCount + (m.freeSet.filter touched).card
          = (m.freeSet.filter fun i => ¬ touched i).card + (m.freeSet.filter touched).card := by
            rw [(h.reserve hreserve).counted, ← card_freeSet, hleft]
      _ = m.freeSet.card := by
            rw [Nat.add_comm, Finset.card_filter_add_card_filter_not]
      _ = m.freeCount := by rw [card_freeSet, h.counted]

/-- Only the frame that a range ends in matters, not where in it. -/
theorem reserve_congr {length' : Nat} (hword : base.val + length < wordLimit)
    (hword' : base.val + length' < wordLimit)
    (hlast : blocksFor (base.val + length) pageSize = blocksFor (base.val + length') pageSize) :
    m.reserve window base length = m.reserve window base length' := by
  simp only [reserve, Word.add, if_pos hword, if_pos hword', hlast]

/-- An empty range within a frame reserves what its first byte would. -/
theorem reserve_zero_eq (h : ¬ pageSize ∣ base.val) :
    m.reserve window base 0 = m.reserve window base 1 := by
  have hrange := base.inRange
  have hword : ∀ n ≤ 1, base.val + n < wordLimit := by
    intro n hn
    unfold wordLimit
    omega
  refine reserve_congr (hword 0 (Nat.zero_le 1)) (hword 1 (Nat.le_refl 1)) ?_
  unfold blocksFor
  unfold pageSize at *
  omega

end FrameMap

namespace Allocator

variable {a : Allocator} {m : FrameMap}

/-- **Exact reservations.**  The kernel stops exactly over a frame in use that shares a byte with
the range.  Otherwise the free frames that do are fixed, and nothing else changes. -/
structure ReservesExactly (a : Allocator) (m : FrameMap) (base : PhysAddr) (length : Nat) :
    Prop where
  stops_iff : (∃ halt, a.reserve base length = .error halt) ↔
    ∃ (i : Nat) (e : FrameEntry), m.entries[i]? = some e ∧ e.isInUse = true ∧
      SharesByte i base.val length
  fixes : ∀ a', a.reserve base length = .ok a' → ∃ m', a' = a.withMap m' ∧
    m.Fixes (SharesByte · base.val length) m' ∧
    a'.freeFrames + (m.freeSet.filter (SharesByte · base.val length)).card = a.freeFrames

theorem Oversees.reservesExactly (h : a.Oversees m) (hm : a.source = .mapped m) {base : PhysAddr}
    {length : Nat} (hword : base.val + length < wordLimit)
    (hregular : 0 < length ∨ pageSize ∣ base.val) : a.ReservesExactly m base length where
  stops_iff := by
    have hstops : (∃ halt, a.reserve base length = .error halt) ↔
        ∃ halt, m.reserve a.window base length = .error halt := by
      rw [reserve_mapped hm]
      cases m.reserve a.window base length <;> simp [Except.map]
    rw [hstops, FrameMap.reserve_eq_error_iff hword]
    simp only [sharesByte_iff hregular]
  fixes a' hreserve := by
    obtain ⟨live, hfollows⟩ := h.follows
    obtain ⟨m', hdone, rfl⟩ := reserve_mapped_eq_ok hm hreserve
    have htouched : ∀ i, SharesByte i base.val length ↔
        base.val / pageSize ≤ i ∧ i * pageSize < base.val + length :=
      fun i => sharesByte_iff hregular
    have hfixes := hfollows.fixes_reserve hdone htouched
    exact ⟨m', rfl, hfixes, (freeFrames_mapped hm).symm ▸ hfixes.counted⟩

/-- **Reserving is exact**, for every range whose end is a machine word, unless it is empty and
begins within a frame.  Then it does what the range of one byte does. -/
theorem IsReachable.reserves_exactly (h : a.IsReachable) (hm : a.source = .mapped m)
    (base : PhysAddr) (length : Nat) (hword : base.val + length < wordLimit) :
    (0 < length ∨ pageSize ∣ base.val → a.ReservesExactly m base length) ∧
      (¬ pageSize ∣ base.val → a.reserve base 0 = a.reserve base 1) := by
  refine ⟨(h.oversees hm).reservesExactly hm hword, fun hunaligned => ?_⟩
  rw [reserve_mapped hm, reserve_mapped hm, FrameMap.reserve_zero_eq hunaligned]

/-- Sixteen frames with a hole at frame five.  The range from the middle of frame four to the first
byte of frame six fixes frames four and six. -/
theorem reserves_exactly_sixteen_frames :
    ∃ (a : Allocator) (m : FrameMap) (a' : Allocator), a.IsReachable ∧ a.source = .mapped m ∧
      a.ReservesExactly m ⟨0x4800, by decide⟩ 0x1801 ∧
      a.reserve ⟨0x4800, by decide⟩ 0x1801 = .ok a' ∧
      a'.freeFrames + ({4, 6} : Finset Nat).card = a.freeFrames := by
  have reachable := History.isReachable_sixteenFrames
  have exactly :=
    (reachable.reserves_exactly rfl ⟨0x4800, by decide⟩ 0x1801 (by decide)).1 (Or.inl (by decide))
  have done : History.sixteenFrames.kernel.allocator.reserve ⟨0x4800, by decide⟩ 0x1801 =
      .ok (History.sixteenFrames.kernel.allocator.withMap
        ⟨[.fixed, .fixed, .free, .free, .fixed, .fixed, .fixed, .free, .free, .free, .free, .free,
          .free, .free, .free, .free], 11, by decide⟩) := by cbv
  obtain ⟨m', -, -, hcounted⟩ := exactly.fixes _ done
  exact ⟨_, _, _, reachable, rfl, exactly, done, hcounted⟩

/-- **An empty range fixes a frame** if it begins within it. -/
theorem not_forall_reserves_exactly :
    ¬ ∀ (a : Allocator) (m : FrameMap), a.IsReachable → a.source = .mapped m →
      ∀ (base : PhysAddr) (length : Nat), base.val + length < wordLimit →
        a.ReservesExactly m base length := by
  intro hall
  have done : History.sixteenFrames.kernel.allocator.reserve ⟨0x2800, by decide⟩ 0 =
      .ok (History.sixteenFrames.kernel.allocator.withMap
        ⟨[.fixed, .fixed, .fixed, .free, .free, .fixed, .free, .free, .free, .free, .free, .free,
          .free, .free, .free, .free], 12, by decide⟩) := by cbv
  obtain ⟨m', hm', hfixes, -⟩ := (hall _ _ History.isReachable_sixteenFrames rfl
    ⟨0x2800, by decide⟩ 0 (by decide)).fixes _ done
  cases hm'
  have hkept := hfixes.kept 2 fun _ => by decide
  cases hkept

end Allocator

end DemandPaging
