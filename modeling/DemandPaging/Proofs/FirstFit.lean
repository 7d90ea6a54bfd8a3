import DemandPaging.Proofs.Phases

/-!
# First fit, exactly

A block is handed out where the lowest run of free frames begins that is long enough.  This says
which frame is answered, when none is, and what changes, for every reachable map and every count
(`Allocator.IsReachable.first_fit_exact`).

* **Least** is meant over all frames that begin such a run, not over maximal runs: a block goes to
  the bottom of its run.
* **The shortcut.**  A request for more frames than are free is refused without a search.  That
  agrees with the search because the count of free frames is exact, and a run of free frames is no
  longer than there are free frames.  The converse does not hold: there may be enough free frames
  and no run of them, and then it is the search that fails.
-/

namespace DemandPaging

namespace FrameMap

variable {m : FrameMap} {s t count : Nat}

/-- **The lowest fit**: `count` free frames begin at frame `s`, and at no lower frame. -/
structure IsLowestFit (m : FrameMap) (count s : Nat) : Prop where
  free : FreeRun m.states s count
  least : ∀ t < s, ¬ FreeRun m.states t count

theorem IsLowestFit.unique (h : m.IsLowestFit count s) (h' : m.IsLowestFit count t) : s = t := by
  rcases Nat.lt_trichotomy s t with hlt | heq | hgt
  · exact absurd h.free (h'.least s hlt)
  · exact heq
  · exact absurd h'.free (h.least t hgt)

/-- **Taking frames**: `m'` is `m`, except that the frames `[s, s + count)` are one block. -/
structure Takes (m : FrameMap) (s count : Nat) (m' : FrameMap) : Prop where
  inside : ∀ i, s ≤ i → i < s + count → m'.entries[i]? = some (.inUse (i == s) count)
  outside : ∀ i, i < s ∨ s + count ≤ i → m'.entries[i]? = m.entries[i]?
  counted : m'.freeCount + count = m.freeCount

theorem takes_occupy (counted : m.freeCount = m.entries.countP FrameEntry.isFree)
    (hpos : 0 < count) (hfree : FreeRun m.states s count) :
    m.Takes s count (m.occupy s count) where
  inside i hlow hhigh := by rw [getElem?_occupy hfree, if_pos ⟨hlow, hhigh⟩]
  outside i hout := by
    rw [getElem?_occupy hfree, if_neg]
    omega
  counted := by
    have hroom : count ≤ m.freeCount := counted ▸ hfree.le_countP hpos
    exact Nat.sub_add_cancel hroom

/-- The shortcut refuses only what the search would not find. -/
theorem not_freeRun_of_freeCount_lt (counted : m.freeCount = m.entries.countP FrameEntry.isFree)
    (hfew : m.freeCount < count) (s : Nat) : ¬ FreeRun m.states s count := by
  intro hfree
  have hroom := hfree.le_countP (Nat.zero_lt_of_lt hfew)
  omega

end FrameMap

namespace Allocator

variable {a : Allocator} {m : FrameMap}

/-- **First fit is exact.**  The frame answered is the one at which the lowest fit begins, and there
is no answer exactly if nothing was asked for or nothing fits; too high a count is refused without
a search, when nothing fits.  What was answered is a block from then on and no other entry changes,
and a refusal changes nothing. -/
theorem IsReachable.first_fit_exact (h : a.IsReachable) (hm : a.source = .mapped m) (count : Nat) :
    ∃ answer a', a.allocate count = .ok (answer, a') ∧
      (∀ s, answer.map Frame.index = some s ↔ 0 < count ∧ m.IsLowestFit count s) ∧
      (answer = none ↔ count = 0 ∨ ∀ s, ¬ FrameMap.FreeRun m.states s count) ∧
      (m.freeCount < count → ∀ s, ¬ FrameMap.FreeRun m.states s count) ∧
      (∀ f, answer = some f → ∃ m', a' = a.withMap m' ∧ m.Takes f.index count m' ∧
        a'.freeFrames + count = a.freeFrames) ∧
      (answer = none → a' = a) := by
  have hcounted := (h.oversees hm).counted
  refine ⟨_, _, allocate_mapped hm count, ?_⟩
  rcases FrameMap.allocate_cases hcounted count with
    ⟨f, hgrant, hpos, hfree, hleast⟩ | ⟨hrefuse, hnone⟩
  · have hfit : m.IsLowestFit count f.index := ⟨hfree, hleast⟩
    have htakes := FrameMap.takes_occupy hcounted hpos hfree
    rw [hgrant]
    refine ⟨fun s => ⟨?_, fun ⟨_, hs⟩ => congrArg some (hfit.unique hs)⟩, ?_,
      FrameMap.not_freeRun_of_freeCount_lt hcounted, ?_, fun hnone => by cases hnone⟩
    · rintro ⟨⟩
      exact ⟨hpos, hfit⟩
    · refine iff_of_false (fun hnone => by cases hnone) ?_
      rintro (hzero | hnone)
      · omega
      · exact hnone f.index hfree
    · rintro g ⟨⟩
      exact ⟨_, rfl, htakes, (freeFrames_mapped hm).symm ▸ htakes.counted⟩
  · rw [hrefuse]
    refine ⟨fun s => iff_of_false (fun hsome => by cases hsome) ?_, iff_of_true rfl hnone,
      FrameMap.not_freeRun_of_freeCount_lt hcounted, ?_, fun _ => withMap_self hm⟩
    · rintro ⟨hpos, hfit⟩
      exact hnone.elim (by omega) fun hnone => hnone s hfit.free
    · intro f hsome
      cases hsome

/-- Sixteen frames, of which two to four and those from six on are free: four frames are too long
for the lower run and begin at frame six, and for eleven there is no place although thirteen are
free. -/
theorem first_fit_exact_sixteen_frames :
    ∃ (a : Allocator) (m : FrameMap), a.IsReachable ∧ a.source = .mapped m ∧ m.freeCount = 13 ∧
      m.IsLowestFit 4 6 ∧ ∀ s, ¬ FrameMap.FreeRun m.states s 11 := by
  have reachable := History.isReachable_sixteenFrames
  obtain ⟨four, _, hfour, hfit, -⟩ := reachable.first_fit_exact rfl 4
  obtain ⟨eleven, _, heleven, -, hnone, -⟩ := reachable.first_fit_exact rfl 11
  have answered : History.sixteenFrames.kernel.allocator.allocate 4 =
      .ok (some ⟨6, by decide⟩, History.sixteenFrames.kernel.allocator.withMap
        ⟨[.fixed, .fixed, .free, .free, .free, .fixed, .inUse true 4, .inUse false 4,
          .inUse false 4, .inUse false 4, .free, .free, .free, .free, .free, .free], 9,
          by decide⟩) := by cbv
  have refused : History.sixteenFrames.kernel.allocator.allocate 11 =
      .ok (none, History.sixteenFrames.kernel.allocator) := by cbv
  rw [answered] at hfour
  rw [refused] at heleven
  cases hfour
  cases heleven
  exact ⟨_, _, reachable, rfl, rfl, ((hfit 6).mp rfl).2, (hnone.mp rfl).resolve_left (by decide)⟩

end Allocator

end DemandPaging
