import DemandPaging.Kernel
import DemandPaging.Proofs.Bootstrap

/-!
# Frames in flight

A frame is taken before the page table is asked to take the mapping, and the table may have to grow
for it.  If the heap refuses the room, the frame goes back, filled with zeroes.  This module is
about that way there and back, and about the heap, which decides.

**There and back.**  A frame just taken is the head of a block of its own.  So it can go back
wherever there is a frame map (`Allocator.free_taken_cases`), and a map that follows its blocks is
then the same as before (`Allocator.GivesBack.eq_self`).  While booting it cannot, and the kernel
stops.

**What is kept.**  Frames that are not free are in nobody's way: neither taking a frame nor giving
it back makes one of them free, and only a free frame is filled with zeroes (`Allocator.Keeps`).
-/

namespace DemandPaging

/-! ### The heap -/

namespace Kernel

variable {k k' : Kernel} {room : Nat}

/-- **A generous heap** grants every request that is still to come. -/
def IsGenerous (k : Kernel) : Prop := ∀ b ∈ k.heap, b = true

theorem IsGenerous.grants (h : k.IsGenerous) (room : Nat) : k.grants room = true := by
  unfold Kernel.grants
  cases hheap : k.heap with
  | nil => simp
  | cons b rest => simp [h b (hheap ▸ List.mem_cons_self)]

/-- With no answer left, everything is granted. -/
theorem IsGenerous.of_heap_eq_nil (h : k.heap = []) : k.IsGenerous := by
  unfold IsGenerous
  rw [h]
  intro b hb
  cases hb

/-- What is granted stays granted as long as answers are used up and none is added. -/
theorem IsGenerous.of_suffix (h : k.IsGenerous) (hsuffix : k'.heap <:+ k.heap) : k'.IsGenerous :=
  fun b hb => h b (hsuffix.subset hb)

theorem heap_asked_suffix (k : Kernel) (room : Nat) : (k.asked room).heap <:+ k.heap := by
  unfold asked
  dsimp only
  split
  · exact List.suffix_refl _
  · exact List.tail_suffix _

/-- A refusal is the next answer of the heap. -/
theorem heap_eq_of_refused (h : k.grants room = false) :
    k.heap = false :: (k.asked room).heap := by
  unfold grants at h
  obtain ⟨hroom, hanswer⟩ := Bool.or_eq_false_iff.mp h
  have hne : room ≠ 0 := by simpa using hroom
  unfold asked
  rw [if_neg hne]
  cases hheap : k.heap with
  | nil =>
      rw [hheap] at hanswer
      cases hanswer
  | cons b rest =>
      rw [hheap] at hanswer
      exact congrArg (· :: rest) hanswer

end Kernel

/-! ### Taking one frame -/

namespace FrameMap

variable {m m' : FrameMap} {f : Frame} {count : Nat}

/-- What is handed out was free, and the lowest that was, whatever else the map says. -/
theorem allocate_eq_some (h : m.allocate count = (some f, m')) :
    0 < count ∧ FreeRun m.states f.index count ∧ (∀ t < f.index, ¬ FreeRun m.states t count) ∧
      m' = m.occupy f.index count := by
  unfold allocate at h
  split at h
  · cases h
  · next hcount =>
      have hpos : 0 < count := by omega
      cases hfit : firstFit count m.entries 0 0 with
      | none =>
          rw [hfit] at h
          cases h
      | some s =>
          rw [hfit] at h
          simp only [Option.bind_some, Frame.ofIndex?] at h
          split at h
          · cases h
          · next g hg =>
              cases h
              split at hg
              · cases hg
                obtain ⟨hfree, hleast⟩ := firstFit_eq_some hpos hfit
                exact ⟨hpos, hfree, hleast, rfl⟩
              · cases hg

/-- A single frame just handed out is taken back. -/
theorem free_occupy (h : FreeRun m.states f.index 1) :
    (m.occupy f.index 1).free f = .ok ((m.occupy f.index 1).vacate f.index 1) := by
  have hhead := getElem?_occupy h f.index
  rw [if_pos ⟨Nat.le_refl _, Nat.lt_succ_self _⟩, beq_self_eq_true] at hhead
  have hfits : f.index + 1 ≤ (m.occupy f.index 1).size := by
    have hsize : (m.occupy f.index 1).size = m.size := size_updateRange ..
    rw [hsize]
    exact h.le_size Nat.one_pos
  simp [free, entry?, hhead, hfits]

/-- There and back, no frame has another state. -/
theorem state_vacate_occupy (h : FreeRun m.states f.index 1) (i : Nat) :
    ((m.occupy f.index 1).vacate f.index 1).states[i]? = m.states[i]? := by
  have hback := state_vacate (m.occupy f.index 1) ⟨f, 1⟩ i
  rw [state_occupy h] at hback
  by_cases hin : f.index ≤ i ∧ i < f.index + 1
  · rw [if_pos hin, if_pos (show Block.Holds ⟨f, 1⟩ i from hin)] at hback
    rw [h i hin.1 hin.2]
    exact hback
  · rwa [if_neg hin, if_neg (show ¬ Block.Holds ⟨f, 1⟩ i from hin)] at hback

/-- **There and back** a map is the same, as the entry of a free frame carries neither mark nor
size. -/
theorem Follows.vacate_occupy {blocks : List Block} (h : m.Follows blocks)
    (hfree : FreeRun m.states f.index 1) : (m.occupy f.index 1).vacate f.index 1 = m := by
  have hentry : ∀ i : Nat,
      ((m.occupy f.index 1).vacate f.index 1).entries[i]? = m.entries[i]? := by
    intro i
    have hback := getElem?_vacate (m.occupy f.index 1) ⟨f, 1⟩ i
    rw [getElem?_occupy hfree] at hback
    by_cases hin : f.index ≤ i ∧ i < f.index + 1
    · rw [if_pos hin, if_pos (show Block.Holds ⟨f, 1⟩ i from hin)] at hback
      rw [h.state_eq_free_iff.mp (hfree i hin.1 hin.2)]
      exact hback
    · rwa [if_neg hin, if_neg (show ¬ Block.Holds ⟨f, 1⟩ i from hin)] at hback
  have hentries := List.ext_getElem? hentry
  have hcount : ((m.occupy f.index 1).vacate f.index 1).freeCount = m.freeCount := by
    have hsome := hfree.le_countP Nat.one_pos
    rw [← h.counted] at hsome
    show m.freeCount - 1 + 1 = m.freeCount
    omega
  generalize (m.occupy f.index 1).vacate f.index 1 = m' at hentries hcount
  cases m
  cases m'
  cases hentries
  cases hcount
  rfl

end FrameMap

namespace Allocator

variable {a₀ a a' : Allocator} {m : FrameMap} {f g : Frame}

/-- A refused allocation changes nothing. -/
theorem allocate_eq_none {a a' : Allocator} {count : Nat}
    (h : a.allocate count = .ok (none, a')) : a' = a := by
  unfold allocate at h
  split at h
  · next b hsource =>
      split at h
      · cases h
      · next f b' hsteal =>
          cases h
          unfold BootFrames.steal at hsteal
          split at hsteal
          · cases hsteal
            rw [← hsource]
          · split at hsteal
            · cases hsteal
            · split at hsteal
              · cases hsteal
              · cases hsteal
                rw [← hsource]
  · next m hsource =>
      simp only [Except.ok.injEq, Prod.mk.injEq] at h
      obtain ⟨hnone, rfl⟩ := h
      have hmap : (m.allocate count).2 = m := by
        unfold FrameMap.allocate at hnone ⊢
        split
        · rfl
        · next hsearch =>
            rw [if_neg hsearch] at hnone
            split at hnone
            · rfl
            · cases hnone
      rw [hmap, ← hsource]

/-- Asking for one frame never stops the kernel. -/
theorem allocate_one (a : Allocator) : ∃ f a', a.allocate 1 = .ok (f, a') := by
  unfold allocate
  split
  · next b _ =>
      have hbytes : Word.mul 1 pageSize = .ok 4096 := rfl
      unfold BootFrames.steal
      rw [if_neg Nat.one_ne_zero, hbytes]
      by_cases hroom : b.next.val + 4096 ≤ b.limit.val
      · simp [hroom]
      · simp [hroom]
  · exact ⟨_, _, rfl⟩

/-- One frame comes out of a frame map, or it is stolen. -/
theorem taken_cases (taken : a₀.allocate 1 = .ok (some f, a)) :
    (∃ m, a₀.source = .mapped m ∧ FrameMap.FreeRun m.states f.index 1 ∧
      a = a₀.withMap (m.occupy f.index 1)) ∨
    a₀.isInitialized = false ∧ ∃ b, a.source = .booting b := by
  unfold allocate at taken
  split at taken
  · next b hsource =>
      refine Or.inr ⟨by rw [isInitialized, hsource], ?_⟩
      split at taken
      · cases taken
      · cases taken
        exact ⟨_, rfl⟩
  · next m hsource =>
      cases hallocate : m.allocate 1 with
      | mk found m' =>
          simp only [hallocate] at taken
          cases taken
          obtain ⟨-, hfree, -, rfl⟩ := FrameMap.allocate_eq_some hallocate
          exact Or.inl ⟨m, hsource, hfree, rfl⟩

/-- No frame that is taken ends the booting phase, or begins one. -/
theorem isInitialized_of_taken (taken : a₀.allocate 1 = .ok (some f, a)) :
    a.isInitialized = a₀.isInitialized := by
  rcases taken_cases taken with ⟨m, hm, -, rfl⟩ | ⟨hbooting, b, hb⟩
  · rw [isInitialized, isInitialized, hm]
    rfl
  · rw [hbooting, isInitialized, hb]

/-! ### Giving it back -/

/-- **Giving back** a frame, or trying to: while booting, nothing comes of it. -/
def GivesBack (a : Allocator) (f : Frame) (a' : Allocator) : Prop :=
  a.free f = .ok a' ∨ a.free f = .error .freedWhileBooting ∧ a' = a

/-- **A frame just taken goes back**, unless the kernel is still booting. -/
theorem free_taken_cases (taken : a₀.allocate 1 = .ok (some f, a)) :
    (∃ a', a.free f = .ok a') ∨ a.free f = .error .freedWhileBooting := by
  rcases taken_cases taken with ⟨m, -, hfree, rfl⟩ | ⟨-, b, hsource⟩
  · have hback := free_mapped (source_withMap a₀ (m.occupy f.index 1)) f
    rw [FrameMap.free_occupy hfree] at hback
    exact Or.inl ⟨_, hback⟩
  · refine Or.inr ?_
    rw [free, hsource]
    rfl

/-- Whoever is booting when something is given back is booting still. -/
theorem booting_of_free_eq_error (h : a.free f = .error .freedWhileBooting) :
    a.isInitialized = false := by
  unfold free FrameMap.free at h
  unfold isInitialized
  split at h
  · rfl
  · split at h
    · next herror =>
        split at herror
        · cases h
          cases herror
        · split at herror
          · split at herror
            · cases herror
            · cases h
              cases herror
          · cases h
            cases herror
    · cases h

/-- Over a frame map the block is dissolved again. -/
theorem GivesBack.eq_withMap (back : a.GivesBack f a') (source : a₀.source = .mapped m)
    (taken : a₀.allocate 1 = .ok (some f, a)) :
    FrameMap.FreeRun m.states f.index 1 ∧
      a' = a₀.withMap ((m.occupy f.index 1).vacate f.index 1) := by
  rcases taken_cases taken with ⟨m', hsource, hfree, rfl⟩ | ⟨hbooting, -⟩
  · cases source.symm.trans hsource
    refine ⟨hfree, ?_⟩
    have hback := free_mapped (source_withMap a₀ (m.occupy f.index 1)) f
    rw [FrameMap.free_occupy hfree] at hback
    rcases back with hok | ⟨herror, -⟩
    · rw [hback] at hok
      exact (Except.ok.inj hok).symm
    · rw [hback] at herror
      cases herror
  · rw [isInitialized, source] at hbooting
    cases hbooting

/-- Nor does one that goes back. -/
theorem GivesBack.isInitialized (back : a.GivesBack f a')
    (taken : a₀.allocate 1 = .ok (some f, a)) : a'.isInitialized = a₀.isInitialized := by
  rcases taken_cases taken with ⟨m, hm, -, -⟩ | ⟨hbooting, b, hb⟩
  · obtain ⟨-, rfl⟩ := back.eq_withMap hm taken
    rw [Allocator.isInitialized, Allocator.isInitialized, hm]
    rfl
  · rcases back with hok | ⟨-, rfl⟩
    · rw [free, hb] at hok
      cases hok
    · rw [hbooting, Allocator.isInitialized, hb]

/-- **There and back** the allocator is the same, if its map follows its blocks. -/
theorem GivesBack.eq_self {blocks : List Block} (back : a.GivesBack f a')
    (source : a₀.source = .mapped m) (follows : m.Follows blocks)
    (taken : a₀.allocate 1 = .ok (some f, a)) : a' = a₀ := by
  obtain ⟨hfree, rfl⟩ := back.eq_withMap source taken
  rw [follows.vacate_occupy hfree, withMap_self source]

/-- **Kept frames**: there is a frame map, and it does not have the frame as free. -/
def Keeps (a : Allocator) (f : Frame) : Prop :=
  a.isInitialized = true ∧ a.state? f ≠ some .free

theorem keeps_mapped (source : a.source = .mapped m) :
    a.Keeps g ↔ m.states[g.index]? ≠ some .free := by
  unfold Keeps
  rw [isInitialized, source, state?_mapped source]
  simp

/-- A kept frame is not the one that is taken, and stays kept. -/
theorem Keeps.of_taken (h : a₀.Keeps g) (taken : a₀.allocate 1 = .ok (some f, a)) :
    g ≠ f ∧ a.Keeps g := by
  rcases taken_cases taken with ⟨m, hsource, hfree, rfl⟩ | ⟨hbooting, -⟩
  · rw [keeps_mapped hsource] at h
    refine ⟨?_, (keeps_mapped (source_withMap a₀ _)).mpr ?_⟩
    · rintro rfl
      exact h (hfree g.index (Nat.le_refl _) (Nat.lt_succ_self _))
    · rw [FrameMap.state_occupy hfree]
      split
      · simp
      · exact h
  · exact absurd (h.1.symm.trans hbooting) (by decide)

/-- A kept frame stays kept when another one goes back. -/
theorem Keeps.of_givesBack (h : a₀.Keeps g) (taken : a₀.allocate 1 = .ok (some f, a))
    (back : a.GivesBack f a') : a'.Keeps g := by
  rcases taken_cases taken with ⟨m, hsource, -, -⟩ | ⟨hbooting, -⟩
  · obtain ⟨hfree, rfl⟩ := back.eq_withMap hsource taken
    rw [keeps_mapped hsource] at h
    rw [keeps_mapped (source_withMap a₀ _), FrameMap.state_vacate_occupy hfree]
    exact h
  · exact absurd (h.1.symm.trans hbooting) (by decide)

end Allocator

end DemandPaging
