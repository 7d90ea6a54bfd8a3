import DemandPaging.Physical.FrameMap
import Mathlib.Data.List.Pairwise

/-!
# Blocks of frames

The frame map has no list of the blocks it has handed out: `FrameMap.free` believes the
block size that it finds in an entry.  This module puts such a list beside the map and
says when the two agree (`FrameMap.Follows`), and shows that every operation on the map is
one on the list.

**One invariant.**  `Follows` says what each entry is in terms of the list: the frames of
a listed block carry its size, its first frame and no other is marked, and no frame is in
use without a listed block.  Giving a block back clears exactly its own frames because of
the first half; that no neighbour was overlapped is because blocks are handed out where all
frames are free, and a free frame is in no listed block.

**Nothing is left behind.**  `Follows` also says that the entry of a frame in no block carries
neither mark nor size.  Handing out does not look at them, so nothing else would notice a block
that came back without its entries being reset.

**First fit** is characterised once, by the least start of a run of free frames
(`FrameMap.firstFit_spec`); nothing below looks at the scan again.
-/

namespace DemandPaging

/-- **Blocks**: `count` consecutive frames from `head` on. -/
structure Block where
  head : Frame
  count : Nat
deriving DecidableEq

namespace Block

/-- Frame number `i` belongs to the block. -/
def Holds (b : Block) (i : Nat) : Prop := b.head.index ≤ i ∧ i < b.head.index + b.count

instance (b : Block) (i : Nat) : Decidable (b.Holds i) := inferInstanceAs (Decidable (_ ∧ _))

/-- No frame belongs to both blocks. -/
def Apart (b c : Block) : Prop := ∀ i, b.Holds i → ¬ c.Holds i

theorem Apart.symm {b c : Block} (h : b.Apart c) : c.Apart b :=
  fun i hc hb => h i hb hc

instance : Std.Symm Apart := ⟨fun _ _ => Apart.symm⟩

theorem holds_head {b : Block} (h : 0 < b.count) : b.Holds b.head.index :=
  ⟨Nat.le_refl _, by omega⟩

/-! ### Disjoint blocks -/

section Disjoint

variable {blocks : List Block} {b c : Block}

/-- A frame lies in one block at most. -/
theorem eq_of_holds (apart : blocks.Pairwise Apart) (hb : b ∈ blocks) (hc : c ∈ blocks) {i : Nat}
    (hbi : b.Holds i) (hci : c.Holds i) : b = c := by
  by_contra hne
  exact apart.forall hb hc hne i hbi hci

theorem nodup (apart : blocks.Pairwise Apart) (nonempty : ∀ b ∈ blocks, 0 < b.count) :
    blocks.Nodup := by
  refine apart.imp_of_mem fun {c d} hc _ hapart heq => ?_
  subst heq
  have hheld := holds_head (nonempty c hc)
  exact hapart c.head.index hheld hheld

/-- A block is the only one with its head. -/
theorem perm_cons_filter (apart : blocks.Pairwise Apart) (nonempty : ∀ b ∈ blocks, 0 < b.count)
    (hb : b ∈ blocks) : blocks.Perm (b :: blocks.filter fun c => c.head ≠ b.head) := by
  have herase : blocks.erase b = blocks.filter fun c => c.head ≠ b.head := by
    rw [(nodup apart nonempty).erase_eq_filter]
    refine List.filter_congr fun c hc => ?_
    by_cases hhead : c.head = b.head
    · have hcb : c = b := by
        refine eq_of_holds apart hc hb (holds_head (nonempty c hc)) ?_
        rw [hhead]
        exact holds_head (nonempty b hb)
      simp [hcb]
    · have hcb : c ≠ b := fun heq => hhead (congrArg Block.head heq)
      simp [hhead, hcb]
  rw [← herase]
  exact List.perm_cons_erase hb

end Disjoint

end Block

namespace FrameMap

/-! ### Runs of free frames -/

/-- The frames `[start, start + count)` all exist and are free. -/
def FreeRun (states : List FrameState) (start count : Nat) : Prop :=
  ∀ i, start ≤ i → i < start + count → states[i]? = some .free

theorem freeRun_zero (states : List FrameState) (start : Nat) : FreeRun states start 0 := by
  intro i hlow hhigh
  omega

theorem FreeRun.le_length {states : List FrameState} {start count : Nat}
    (h : FreeRun states start count) (hpos : 0 < count) : start + count ≤ states.length := by
  have hlast := h (start + count - 1) (by omega) (by omega)
  obtain ⟨hlt, -⟩ := List.getElem?_eq_some_iff.mp hlast
  omega

/-- **First fit, from the middle of the scan.**  `start` and `run` describe the run of free
frames that the scan is in; no run of `count` free frames starts before it. -/
theorem firstFit_spec (m : FrameMap) (count : Nat) :
    ∀ (rest : List FrameEntry) (start run : Nat), m.entries.drop (start + run) = rest →
      run < count → FreeRun m.states start run → (∀ t < start, ¬ FreeRun m.states t count) →
      match firstFit count rest start run with
      | some s => FreeRun m.states s count ∧ ∀ t < s, ¬ FreeRun m.states t count
      | none => ∀ t, ¬ FreeRun m.states t count := by
  intro rest
  induction rest with
  | nil =>
      intro start run hdrop hrun _ hbefore t hfree
      have hend : m.size ≤ start + run := List.drop_eq_nil_iff.mp hdrop
      have hfits := hfree.le_length (by omega)
      rw [length_states] at hfits
      exact hbefore t (by omega) hfree
  | cons e rest ih =>
      intro start run hdrop hrun hsofar hbefore
      have hentry : m.states[start + run]? = some e.state := by
        rw [getElem?_states, ← List.head?_drop, hdrop]
        rfl
      have htail : m.entries.drop (start + run + 1) = rest := by
        rw [← List.tail_drop, hdrop]
        rfl
      unfold firstFit
      by_cases hfree : e.isFree = true
      · -- the run grows by one frame, and is long enough or goes on
        have hgrown : FreeRun m.states start (run + 1) := by
          intro i hlow hhigh
          by_cases hlast : i = start + run
          · rw [hlast, hentry, (FrameEntry.isFree_iff e).mp hfree]
          · exact hsofar i hlow (by omega)
        rw [if_pos hfree]
        by_cases hfull : run + 1 = count
        · rw [if_pos hfull]
          exact ⟨hfull ▸ hgrown, hbefore⟩
        · rw [if_neg hfull]
          exact ih start (run + 1) htail (by omega) hgrown hbefore
      · -- every run that starts up to here would contain this frame
        rw [if_neg hfree]
        refine ih (start + run + 1) 0 htail (by omega) (freeRun_zero _ _) ?_
        intro t ht hrunAt
        by_cases hold : t < start
        · exact hbefore t hold hrunAt
        · have hhere := hrunAt (start + run) (by omega) (by omega)
          rw [hentry, Option.some.injEq] at hhere
          exact hfree ((FrameEntry.isFree_iff e).mpr hhere)

/-- A search from the beginning finds the least start of a run of `count` free frames. -/
theorem firstFit_eq_some {m : FrameMap} {count s : Nat} (hpos : 0 < count)
    (h : firstFit count m.entries 0 0 = some s) :
    FreeRun m.states s count ∧ ∀ t < s, ¬ FreeRun m.states t count := by
  have hspec := firstFit_spec m count m.entries 0 0 rfl hpos (freeRun_zero _ _)
    (fun t ht => absurd ht (Nat.not_lt_zero t))
  rwa [h] at hspec

/-- A search from the beginning fails only if there is no run of `count` free frames. -/
theorem firstFit_eq_none {m : FrameMap} {count : Nat} (hpos : 0 < count)
    (h : firstFit count m.entries 0 0 = none) (t : Nat) : ¬ FreeRun m.states t count := by
  have hspec := firstFit_spec m count m.entries 0 0 rfl hpos (freeRun_zero _ _)
    (fun t ht => absurd ht (Nat.not_lt_zero t))
  rw [h] at hspec
  exact hspec t

/-! ### Counting free frames -/

theorem length_slice {m : FrameMap} {first count : Nat} (h : first + count ≤ m.size) :
    (m.slice first count).length = count := by
  unfold size at h
  simp only [slice, List.length_take, List.length_drop]
  omega

/-- The entries in a slice are those of its frames. -/
theorem mem_slice {m : FrameMap} {first count : Nat} {e : FrameEntry} :
    e ∈ m.slice first count ↔
      ∃ i, first ≤ i ∧ i < first + count ∧ m.entries[i]? = some e := by
  rw [List.mem_iff_getElem?]
  simp only [slice, List.getElem?_take, List.getElem?_drop]
  constructor
  · rintro ⟨j, hj⟩
    split at hj
    · exact ⟨first + j, by omega, by omega, hj⟩
    · cases hj
  · rintro ⟨i, hlow, hhigh, hi⟩
    refine ⟨i - first, ?_⟩
    rw [if_pos (by omega), show first + (i - first) = i by omega, hi]

/-- What every entry has and the update leaves to its entries, every entry has afterwards. -/
theorem forall_mem_updateRange {m : FrameMap} {first count : Nat}
    {f : Nat → FrameEntry → FrameEntry} {freeCount : Nat} {P : FrameEntry → Prop}
    (h : ∀ e ∈ m.entries, P e) (hf : ∀ i e, P e → P (f i e)) :
    ∀ e ∈ (m.updateRange first count f freeCount).entries, P e := by
  intro e he
  obtain ⟨i, hi⟩ := List.mem_iff_getElem?.mp he
  rw [getElem?_updateRange, Option.map_eq_some_iff] at hi
  obtain ⟨old, hold, rfl⟩ := hi
  have hmem := h old (List.mem_of_getElem? hold)
  split
  · exact hf i old hmem
  · exact hmem

/-- What an update of a range does to the number of free frames is decided inside the
range. -/
theorem countP_updateRange (m : FrameMap) (first count : Nat)
    (f : Nat → FrameEntry → FrameEntry) (freeCount : Nat) :
    (m.updateRange first count f freeCount).entries.countP FrameEntry.isFree +
        (m.slice first count).countP FrameEntry.isFree =
      m.entries.countP FrameEntry.isFree +
        ((m.slice first count).mapIdx fun j e => f (first + j) e).countP FrameEntry.isFree := by
  have hsplit : m.entries.take first ++ m.slice first count ++
      m.entries.drop (first + count) = m.entries := by
    rw [slice, List.append_assoc, ← List.drop_drop, List.take_append_drop,
      List.take_append_drop]
  have hcount := congrArg (List.countP FrameEntry.isFree) hsplit
  simp only [List.countP_append] at hcount
  simp only [updateRange, List.countP_append]
  omega

/-- The entries of a run of free frames are free. -/
theorem FreeRun.isFree {m : FrameMap} {start count i : Nat} (h : FreeRun m.states start count)
    (hlow : start ≤ i) (hhigh : i < start + count) :
    ∃ e, m.entries[i]? = some e ∧ e.isFree = true := by
  have hstate := h i hlow hhigh
  rw [getElem?_states, Option.map_eq_some_iff] at hstate
  obtain ⟨e, hentry, hstate⟩ := hstate
  exact ⟨e, hentry, (FrameEntry.isFree_iff e).mpr hstate⟩

theorem FreeRun.le_size {m : FrameMap} {start count : Nat} (h : FreeRun m.states start count)
    (hpos : 0 < count) : start + count ≤ m.size := by
  have hfits := h.le_length hpos
  rwa [length_states] at hfits

theorem FreeRun.countP_slice {m : FrameMap} {start count : Nat}
    (h : FreeRun m.states start count) (hpos : 0 < count) :
    (m.slice start count).countP FrameEntry.isFree = count := by
  have hall : ∀ e ∈ m.slice start count, e.isFree = true := by
    intro e he
    obtain ⟨i, hlow, hhigh, hi⟩ := mem_slice.mp he
    obtain ⟨e', hentry, hfree⟩ := h.isFree hlow hhigh
    rw [hi, Option.some.injEq] at hentry
    exact hentry ▸ hfree
  rw [List.countP_eq_length.mpr hall, length_slice (h.le_size hpos)]

/-- A run of free frames is no longer than there are free frames. -/
theorem FreeRun.le_countP {m : FrameMap} {start count : Nat} (h : FreeRun m.states start count)
    (hpos : 0 < count) : count ≤ m.entries.countP FrameEntry.isFree := by
  have hsub : (m.slice start count).Sublist m.entries :=
    (List.take_sublist _ _).trans (List.drop_sublist _ _)
  calc
    count = (m.slice start count).countP FrameEntry.isFree := (h.countP_slice hpos).symm
    _ ≤ m.entries.countP FrameEntry.isFree := hsub.countP_le

/-! ### The map and its blocks -/

/-- **The map follows a list of blocks**: the list is exactly what is handed out. -/
structure Follows (m : FrameMap) (live : List Block) : Prop where
  nonempty : ∀ b ∈ live, 0 < b.count
  apart : live.Pairwise Block.Apart
  /-- The frames of a block carry its size, and the first one is marked. -/
  recorded : ∀ b ∈ live, ∀ i, b.Holds i →
    m.entries[i]? = some (.inUse (i == b.head.index) b.count)
  /-- No frame is in use without a block. -/
  accounted : ∀ i isHead n, m.entries[i]? = some (.inUse isHead n) → ∃ b ∈ live, b.Holds i
  /-- A frame in no block carries nothing of one. -/
  reset : ∀ e ∈ m.entries, e.IsReset
  counted : m.freeCount = m.entries.countP FrameEntry.isFree

/-- No frame that is fixed in `m` is anything else in `m'`. -/
structure KeepsFixed (m m' : FrameMap) : Prop where
  size : m'.size = m.size
  fixed : ∀ i : Nat, m.states[i]? = some .fixed → m'.states[i]? = some .fixed

namespace KeepsFixed

theorem refl (m : FrameMap) : KeepsFixed m m := ⟨rfl, fun _ h => h⟩

theorem trans {m₁ m₂ m₃ : FrameMap} (h₁ : KeepsFixed m₁ m₂) (h₂ : KeepsFixed m₂ m₃) :
    KeepsFixed m₁ m₃ :=
  ⟨h₂.size.trans h₁.size, fun i h => h₂.fixed i (h₁.fixed i h)⟩

end KeepsFixed

namespace Follows

variable {m : FrameMap} {live : List Block} {b : Block}

/-- The order of the list does not matter. -/
theorem perm {live' : List Block} (h : m.Follows live) (hp : live.Perm live') :
    m.Follows live' where
  nonempty c hc := h.nonempty c (hp.mem_iff.mpr hc)
  apart := (hp.pairwise_iff Block.Apart.symm).mp h.apart
  recorded c hc := h.recorded c (hp.mem_iff.mpr hc)
  accounted i isHead n hi := by
    obtain ⟨c, hc, hholds⟩ := h.accounted i isHead n hi
    exact ⟨c, hp.mem_iff.mp hc, hholds⟩
  reset := h.reset
  counted := h.counted

/-- Blocks lie inside the map. -/
theorem limit_le_size (h : m.Follows live) (hb : b ∈ live) :
    b.head.index + b.count ≤ m.size := by
  have hpos := h.nonempty b hb
  have hlast := h.recorded b hb (b.head.index + b.count - 1) ⟨by omega, by omega⟩
  obtain ⟨hlt, -⟩ := List.getElem?_eq_some_iff.mp hlast
  unfold size
  omega

/-- The blocks of a longer list, one of them taken out. -/
theorem apart_head (h : m.Follows (b :: live)) {c : Block} (hc : c ∈ live) : b.Apart c :=
  (List.pairwise_cons.mp h.apart).1 c hc

/-- A frame of a block is in use. -/
theorem state_eq (h : m.Follows live) (hb : b ∈ live) {i : Nat} (hi : b.Holds i) :
    m.states[i]? = some .inUse := by
  rw [getElem?_states, h.recorded b hb i hi]
  rfl

/-- The entry of a frame in no block is told by the state. -/
theorem getElem?_eq_of_state (h : m.Follows live) {e : FrameEntry} (he : e.IsReset)
    (hidle : e.state ≠ .inUse) {i : Nat} (hstate : m.states[i]? = some e.state) :
    m.entries[i]? = some e := by
  rw [getElem?_states, Option.map_eq_some_iff] at hstate
  obtain ⟨e', hentry, hstate⟩ := hstate
  rw [hentry, he.eq (h.reset e' (List.mem_of_getElem? hentry)) hidle hstate]

/-- A frame is free exactly if its entry is that of a free frame without a trace of a block. -/
theorem state_eq_free_iff (h : m.Follows live) {i : Nat} :
    m.states[i]? = some .free ↔ m.entries[i]? = some .free := by
  constructor
  · exact h.getElem?_eq_of_state FrameEntry.isReset_free (by decide)
  · intro hentry
    rw [getElem?_states, hentry]
    rfl

/-- A frame is fixed exactly if its entry is that of a fixed frame without a trace of a block. -/
theorem state_eq_fixed_iff (h : m.Follows live) {i : Nat} :
    m.states[i]? = some .fixed ↔ m.entries[i]? = some .fixed := by
  constructor
  · exact h.getElem?_eq_of_state FrameEntry.isReset_fixed (by decide)
  · intro hentry
    rw [getElem?_states, hentry]
    rfl

/-- A free frame is in no block. -/
theorem not_holds_of_free (h : m.Follows live) (hb : b ∈ live) {i : Nat}
    (hi : m.states[i]? = some .free) : ¬ b.Holds i := by
  intro hholds
  rw [h.state_eq hb hholds] at hi
  cases hi

end Follows

/-! ### Handing out -/

theorem getElem?_occupy {m : FrameMap} {first count : Nat} (h : FreeRun m.states first count)
    (i : Nat) :
    (m.occupy first count).entries[i]? =
      if first ≤ i ∧ i < first + count then some (.inUse (i == first) count)
      else m.entries[i]? := by
  rw [occupy, getElem?_updateRange]
  by_cases hin : first ≤ i ∧ i < first + count
  · obtain ⟨e, hentry, -⟩ := h.isFree hin.1 hin.2
    simp [hentry, hin, FrameEntry.inUse]
  · simp [hin]

/-- No state changes but that of the frames handed out. -/
theorem state_occupy {m : FrameMap} {first count : Nat} (h : FreeRun m.states first count)
    (i : Nat) :
    (m.occupy first count).states[i]? =
      if first ≤ i ∧ i < first + count then some .inUse
      else m.states[i]? := by
  rw [getElem?_states, getElem?_occupy h, getElem?_states]
  split <;> rfl

/-- **What handing out can do.**  Either it answers the head of the lowest run of free frames
that is long enough and makes that run a block, or there is no such run and nothing
changes. -/
theorem allocate_cases {m : FrameMap} (counted : m.freeCount = m.entries.countP FrameEntry.isFree)
    (count : Nat) :
    (∃ f : Frame, m.allocate count = (some f, m.occupy f.index count) ∧ 0 < count ∧
        FreeRun m.states f.index count ∧ ∀ t < f.index, ¬ FreeRun m.states t count) ∨
      m.allocate count = (none, m) ∧ (count = 0 ∨ ∀ t, ¬ FreeRun m.states t count) := by
  unfold allocate
  by_cases hrefused : count = 0 ∨ m.freeCount < count
  · right
    rw [if_pos hrefused]
    refine ⟨rfl, ?_⟩
    by_cases hzero : count = 0
    · exact Or.inl hzero
    · right
      intro t hfree
      have := hfree.le_countP (by omega)
      omega
  · rw [if_neg hrefused]
    have hpos : 0 < count := by omega
    cases hfit : firstFit count m.entries 0 0 with
    | none => exact Or.inr ⟨rfl, Or.inr (firstFit_eq_none hpos hfit)⟩
    | some s =>
        obtain ⟨hfree, hleast⟩ := firstFit_eq_some hpos hfit
        have hlt : s < 0x10000000000 := by
          have hfits := hfree.le_size hpos
          have := m.entriesInRange
          unfold size at hfits
          omega
        left
        refine ⟨⟨s, hlt⟩, ?_, hpos, hfree, hleast⟩
        simp [Frame.ofIndex?, hlt]

/-- A single frame is refused only if none is free. -/
theorem allocate_one_eq_none_iff {m : FrameMap}
    (counted : m.freeCount = m.entries.countP FrameEntry.isFree) :
    m.allocate 1 = (none, m) ↔ m.freeCount = 0 := by
  rcases allocate_cases counted 1 with ⟨f, halloc, -, hfree, -⟩ | ⟨halloc, hnone⟩
  · have := hfree.le_countP (by omega)
    constructor
    · intro hnone
      rw [halloc] at hnone
      cases hnone
    · intro hzero
      omega
  · refine ⟨fun _ => ?_, fun _ => halloc⟩
    rw [counted, List.countP_eq_zero]
    intro e he hfree
    obtain ⟨i, hi⟩ := List.mem_iff_getElem?.mp he
    have hnorun := hnone.resolve_left (by omega) i
    refine hnorun fun j hlow hhigh => ?_
    rw [show j = i by omega, getElem?_states, hi]
    exact congrArg some ((FrameEntry.isFree_iff e).mp hfree)

theorem Follows.occupy {m : FrameMap} {live : List Block} (h : m.Follows live) {f : Frame}
    {count : Nat} (hpos : 0 < count) (hfree : FreeRun m.states f.index count) :
    (m.occupy f.index count).Follows (⟨f, count⟩ :: live) where
  nonempty := by
    intro b hb
    rcases List.mem_cons.mp hb with rfl | hb
    · exact hpos
    · exact h.nonempty b hb
  apart := by
    refine List.pairwise_cons.mpr ⟨fun c hc i hi => ?_, h.apart⟩
    exact h.not_holds_of_free hc (hfree i hi.1 hi.2)
  recorded := by
    intro b hb i hi
    rw [getElem?_occupy hfree]
    rcases List.mem_cons.mp hb with rfl | hb
    · exact if_pos hi
    · rw [if_neg, h.recorded b hb i hi]
      intro hin
      exact h.not_holds_of_free hb (hfree i hin.1 hin.2) hi
  accounted := by
    intro i isHead n hi
    rw [getElem?_occupy hfree] at hi
    split at hi
    · next hin => exact ⟨_, List.mem_cons_self, hin⟩
    · obtain ⟨c, hc, hholds⟩ := h.accounted i isHead n hi
      exact ⟨c, List.mem_cons_of_mem _ hc, hholds⟩
  reset := forall_mem_updateRange h.reset fun _ _ _ => FrameEntry.isReset_inUse _ _
  counted := by
    have htaken := countP_updateRange m f.index count (fun i _ => .inUse (i == f.index) count)
      (m.freeCount - count)
    have hnone : ((m.slice f.index count).mapIdx fun j _ =>
        FrameEntry.inUse (f.index + j == f.index) count).countP FrameEntry.isFree = 0 := by
      rw [List.countP_eq_zero]
      intro e he
      obtain ⟨j, hj, rfl⟩ := List.mem_mapIdx.mp he
      exact Bool.false_ne_true
    rw [hnone, hfree.countP_slice hpos] at htaken
    show m.freeCount - count = _
    rw [h.counted]
    unfold FrameMap.occupy
    omega

theorem keepsFixed_occupy {m : FrameMap} {first count : Nat}
    (hfree : FreeRun m.states first count) : KeepsFixed m (m.occupy first count) where
  size := size_updateRange _ _ _ _ _
  fixed := by
    intro i hi
    rw [state_occupy hfree, if_neg, hi]
    intro hin
    rw [hfree i hin.1 hin.2] at hi
    cases hi

/-! ### Taking back -/

theorem getElem?_vacate (m : FrameMap) (b : Block) (i : Nat) :
    (m.vacate b.head.index b.count).entries[i]? =
      if b.Holds i then m.entries[i]?.map fun _ => .free else m.entries[i]? := by
  rw [vacate, getElem?_updateRange]
  by_cases hin : b.head.index ≤ i ∧ i < b.head.index + b.count
  · simp [hin, Block.Holds]
  · simp [hin, Block.Holds]

/-- No state changes but that of the frames taken back. -/
theorem state_vacate (m : FrameMap) (b : Block) (i : Nat) :
    (m.vacate b.head.index b.count).states[i]? =
      if b.Holds i then m.states[i]?.map fun _ => .free else m.states[i]? := by
  rw [getElem?_states, getElem?_vacate, getElem?_states]
  split
  · rw [Option.map_map, Option.map_map]
    rfl
  · rfl

/-- The head of a listed block is taken back, and with it the frames of that block. -/
theorem Follows.free_head {m : FrameMap} {live : List Block} (h : m.Follows live) {b : Block}
    (hb : b ∈ live) : m.free b.head = .ok (m.vacate b.head.index b.count) := by
  have hhead := h.recorded b hb b.head.index (Block.holds_head (h.nonempty b hb))
  have hfits := h.limit_le_size hb
  simp [free, entry?, hhead, hfits]

/-- Whatever is not the head of a listed block stops the kernel. -/
theorem Follows.free_eq_error_iff {m : FrameMap} {live : List Block} (h : m.Follows live)
    (f : Frame) : m.free f = .error (.notBlockHead f) ↔ ∀ b ∈ live, b.head ≠ f := by
  constructor
  · rintro hfree b hb rfl
    rw [h.free_head hb] at hfree
    cases hfree
  · intro hnone
    unfold free
    split
    · rfl
    · next e hentry =>
        rw [if_neg]
        rintro ⟨hstate, hmark⟩
        have hinUse : m.entries[f.index]? = some (.inUse true e.blockSize) := by
          obtain ⟨state, isHead, n⟩ := e
          cases hstate
          cases hmark
          exact hentry
        obtain ⟨b, hb, hholds⟩ := h.accounted f.index true e.blockSize hinUse
        have hrecorded := h.recorded b hb f.index hholds
        rw [hinUse, Option.some.injEq, FrameEntry.mk.injEq] at hrecorded
        have hhead : f.index = b.head.index := by simpa using hrecorded.2.1
        exact absurd (Frame.ext hhead.symm) (hnone b hb)

theorem Follows.vacate {m : FrameMap} {live : List Block} {b : Block}
    (h : m.Follows (b :: live)) : (m.vacate b.head.index b.count).Follows live where
  nonempty c hc := h.nonempty c (List.mem_cons_of_mem _ hc)
  apart := (List.pairwise_cons.mp h.apart).2
  recorded := by
    intro c hc i hi
    rw [getElem?_vacate, if_neg fun hbi => h.apart_head hc i hbi hi]
    exact h.recorded c (List.mem_cons_of_mem _ hc) i hi
  accounted := by
    intro i isHead n hi
    rw [getElem?_vacate] at hi
    split at hi
    · cases hentry : m.entries[i]? <;> simp [hentry] at hi
    · next hout =>
        obtain ⟨c, hc, hholds⟩ := h.accounted i isHead n hi
        rcases List.mem_cons.mp hc with rfl | hc
        · exact absurd hholds hout
        · exact ⟨c, hc, hholds⟩
  reset := forall_mem_updateRange h.reset fun _ _ _ => FrameEntry.isReset_free
  counted := by
    have hback := countP_updateRange m b.head.index b.count (fun _ _ => .free)
      (m.freeCount + b.count)
    have hbusy : (m.slice b.head.index b.count).countP FrameEntry.isFree = 0 := by
      rw [List.countP_eq_zero]
      intro e he
      obtain ⟨i, hlow, hhigh, hi⟩ := mem_slice.mp he
      rw [h.recorded b List.mem_cons_self i ⟨hlow, hhigh⟩, Option.some.injEq] at hi
      rw [← hi]
      exact Bool.false_ne_true
    have hcleared : ((m.slice b.head.index b.count).mapIdx fun _ _ =>
        FrameEntry.free).countP FrameEntry.isFree = b.count := by
      rw [List.countP_eq_length.mpr, List.length_mapIdx,
        length_slice (h.limit_le_size List.mem_cons_self)]
      intro e he
      obtain ⟨j, hj, rfl⟩ := List.mem_mapIdx.mp he
      rfl
    rw [hbusy, hcleared] at hback
    show m.freeCount + b.count = _
    rw [h.counted]
    exact hback.symm

/-- **What taking back can do.**  Either the frame is the head of a listed block, and this block
goes, or the kernel stops, with the one halt that is about block heads. -/
theorem Follows.free_cases {m : FrameMap} {live : List Block} (h : m.Follows live) (f : Frame) :
    (∃ b ∈ live, b.head = f ∧ m.free f = .ok (m.vacate b.head.index b.count)) ∨
      m.free f = .error (.notBlockHead f) := by
  by_cases hhead : ∃ b ∈ live, b.head = f
  · obtain ⟨b, hb, rfl⟩ := hhead
    exact Or.inl ⟨b, hb, rfl, h.free_head hb⟩
  · refine Or.inr ((h.free_eq_error_iff f).mpr fun b hb hf => ?_)
    exact hhead ⟨b, hb, hf⟩

/-- If the kernel is not stopped, then the frame was the head of a listed block. -/
theorem Follows.exists_of_free {m m' : FrameMap} {live : List Block} (h : m.Follows live)
    {f : Frame} (hfree : m.free f = .ok m') :
    ∃ b ∈ live, b.head = f ∧ m' = m.vacate b.head.index b.count := by
  rcases h.free_cases f with ⟨b, hb, hhead, hback⟩ | hstop
  · rw [hfree, Except.ok.injEq] at hback
    exact ⟨b, hb, hhead, hback⟩
  · rw [hfree] at hstop
    cases hstop

theorem Follows.free {m m' : FrameMap} {live : List Block} (h : m.Follows live) {f : Frame}
    (hfree : m.free f = .ok m') : m'.Follows (live.filter fun b => b.head ≠ f) := by
  obtain ⟨b, hb, rfl, rfl⟩ := h.exists_of_free hfree
  exact (h.perm (Block.perm_cons_filter h.apart h.nonempty hb)).vacate

theorem Follows.keepsFixed_vacate {m : FrameMap} {live : List Block} {b : Block}
    (h : m.Follows live) (hb : b ∈ live) :
    KeepsFixed m (m.vacate b.head.index b.count) where
  size := size_updateRange _ _ _ _ _
  fixed := by
    intro i hi
    rw [state_vacate, if_neg, hi]
    intro hholds
    rw [h.state_eq hb hholds] at hi
    cases hi

/-! ### Reserving -/

@[simp] theorem fix_eq_inUse_iff (e : FrameEntry) (isHead : Bool) (n : Nat) :
    fix e = .inUse isHead n ↔ e = .inUse isHead n := by
  obtain ⟨state, isHead', n'⟩ := e
  cases state <;> simp [fix, FrameEntry.isFree]

@[simp] theorem isFree_fix (e : FrameEntry) : (fix e).isFree = false := by
  obtain ⟨state, isHead, n⟩ := e
  cases state <;> rfl

/-- Fixing a frame changes its state alone, so an entry that is reset stays reset. -/
theorem isReset_fix {e : FrameEntry} (h : e.IsReset) : (fix e).IsReset := by
  obtain ⟨state, isHead, n⟩ := e
  cases state <;> simp_all [fix, FrameEntry.isFree, FrameEntry.IsReset]

/-- What fixing does to the state of a frame. -/
theorem state_fix (e : FrameEntry) :
    (fix e).state = if e.state = .free then .fixed else e.state := by
  obtain ⟨state, isHead, n⟩ := e
  cases state <;> rfl

/-- A reservation that does not stop the kernel fixes the free frames of one range. -/
theorem reserve_eq_ok {m m' : FrameMap} {window : VirtAddr} {base : PhysAddr} {length : Nat}
    (h : m.reserve window base length = .ok m') :
    ∃ first count, first = base.val / pageSize ∧
      count = min (blocksFor (base.val + length) pageSize) m.size - first ∧
      m' = m.updateRange first count (fun _ => fix)
        (m.freeCount - (m.slice first count).countP FrameEntry.isFree) := by
  unfold reserve Word.add at h
  split at h
  · cases h
  · next top htop =>
      split at htop
      · cases htop
        simp only at h
        split at h
        · cases h
        · cases h
          exact ⟨_, _, rfl, rfl, rfl⟩
      · cases htop

/-- A reservation fixes the free frames that share a byte with the range, and the frame of its
base, and changes nothing else. -/
theorem getElem?_reserve {m m' : FrameMap} {window : VirtAddr} {base : PhysAddr} {length : Nat}
    (h : m.reserve window base length = .ok m') (i : Nat) :
    m'.entries[i]? = m.entries[i]?.map fun e =>
      if base.val / pageSize ≤ i ∧ i * pageSize < base.val + length then fix e else e := by
  obtain ⟨first, count, rfl, rfl, rfl⟩ := reserve_eq_ok h
  rw [getElem?_updateRange]
  by_cases hi : i < m.entries.length
  · have hrange : i < base.val / pageSize +
          (min (blocksFor (base.val + length) pageSize) m.size - base.val / pageSize) ↔
        base.val / pageSize ≤ i ∧ i * pageSize < base.val + length ∨ i < base.val / pageSize := by
      unfold blocksFor size pageSize
      omega
    congr 1
    funext e
    refine if_congr ?_ rfl rfl
    rw [hrange]
    omega
  · rw [List.getElem?_eq_none (by omega)]
    rfl

/-- A reservation leaves the frames in use as they are. -/
theorem getElem?_reserve_eq_inUse_iff {m m' : FrameMap} {window : VirtAddr} {base : PhysAddr}
    {length : Nat} (h : m.reserve window base length = .ok m') {i : Nat} {isHead : Bool}
    {n : Nat} :
    m'.entries[i]? = some (.inUse isHead n) ↔ m.entries[i]? = some (.inUse isHead n) := by
  rw [getElem?_reserve h]
  cases m.entries[i]? with
  | none => simp
  | some e =>
      simp only [Option.map_some, Option.some.injEq]
      split <;> simp

/-- What a reservation does to the states of the frames. -/
theorem state_reserve {m m' : FrameMap} {window : VirtAddr} {base : PhysAddr} {length : Nat}
    (h : m.reserve window base length = .ok m') (i : Nat) :
    m'.states[i]? = m.states[i]?.map fun s =>
      if (base.val / pageSize ≤ i ∧ i * pageSize < base.val + length) ∧ s = .free then .fixed
      else s := by
  rw [getElem?_states, getElem?_reserve h, getElem?_states, Option.map_map, Option.map_map]
  congr 1
  funext e
  by_cases htouch : base.val / pageSize ≤ i ∧ i * pageSize < base.val + length
  · rw [Function.comp_apply, Function.comp_apply, if_pos htouch, state_fix]
    simp only [htouch, and_self, true_and]
  · rw [Function.comp_apply, Function.comp_apply, if_neg htouch, if_neg fun hs => htouch hs.1]

/-- A frame is free after a reservation exactly if it was, and the range does not touch it. -/
theorem state_reserve_eq_free_iff {m m' : FrameMap} {window : VirtAddr} {base : PhysAddr}
    {length : Nat} (h : m.reserve window base length = .ok m') {i : Nat} :
    m'.states[i]? = some .free ↔ m.states[i]? = some .free ∧
      ¬ (base.val / pageSize ≤ i ∧ i * pageSize < base.val + length) := by
  rw [state_reserve h]
  cases m.states[i]? with
  | none => simp
  | some s =>
      simp only [Option.map_some, Option.some.injEq]
      split
      · next htouch => simp [htouch]
      · next hkept => exact ⟨fun hs => ⟨hs, fun htouch => hkept ⟨htouch, hs⟩⟩, fun hs => hs.1⟩

theorem Follows.reserve {m m' : FrameMap} {live : List Block} (h : m.Follows live)
    {window : VirtAddr} {base : PhysAddr} {length : Nat}
    (hreserve : m.reserve window base length = .ok m') : m'.Follows live where
  nonempty := h.nonempty
  apart := h.apart
  recorded b hb i hi :=
    (getElem?_reserve_eq_inUse_iff hreserve).mpr (h.recorded b hb i hi)
  accounted i isHead n hi :=
    h.accounted i isHead n ((getElem?_reserve_eq_inUse_iff hreserve).mp hi)
  reset := by
    obtain ⟨first, count, -, -, rfl⟩ := reserve_eq_ok hreserve
    exact forall_mem_updateRange h.reset fun _ _ he => isReset_fix he
  counted := by
    obtain ⟨first, count, -, -, rfl⟩ := reserve_eq_ok hreserve
    have hfixed := countP_updateRange m first count (fun _ => fix)
      (m.freeCount - (m.slice first count).countP FrameEntry.isFree)
    have hnone : ((m.slice first count).mapIdx fun _ => fix).countP FrameEntry.isFree = 0 := by
      rw [List.countP_eq_zero]
      intro e he
      obtain ⟨j, hj, rfl⟩ := List.mem_mapIdx.mp he
      simp
    rw [hnone] at hfixed
    have hcounted := h.counted
    show m.freeCount - _ = _
    omega

theorem keepsFixed_reserve {m m' : FrameMap} {window : VirtAddr} {base : PhysAddr} {length : Nat}
    (h : m.reserve window base length = .ok m') : KeepsFixed m m' where
  size := by
    obtain ⟨first, count, -, -, rfl⟩ := reserve_eq_ok h
    exact size_updateRange _ _ _ _ _
  fixed := by
    intro i hi
    rw [state_reserve h, hi]
    simp

end FrameMap

end DemandPaging
