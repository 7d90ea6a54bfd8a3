import DemandPaging.Proofs.Bootstrap

/-!
# What a survey of memory finds

A layout is all that is left of the firmware's list when frames are handed out, so whatever
has to be true of the frames of a layout has to be read off the list once and for all.
`Layout.Sound` says it: between the first free frame and the top, a frame that no hole
touches lies in one usable range of the list, and all boundaries are frame boundaries.

**The invariant of the survey** is that what has been covered so far is a sound layout
(`Layout.Survey.Sound`), together with one clause about the beginning: until a usable frame
has been found, nothing is covered and there are no holes.  That is why the first free frame
may still be moved up then, and only then.
-/

namespace DemandPaging

/-- Frame number `i` lies wholly inside a range, and the range is usable. -/
def MemoryRange.HasFrame (r : MemoryRange) (i : Nat) : Prop :=
  r.usable = true ∧ r.base ≤ i * pageSize ∧ (i + 1) * pageSize ≤ r.base + r.length

/-- The frames of a range begin and end on frame boundaries inside it. -/
theorem MemoryRange.frameSpan_eq_ok {r : MemoryRange} {start stop : Nat}
    (h : r.frameSpan = .ok (start, stop)) :
    pageSize ∣ start ∧ pageSize ∣ stop ∧ r.base ≤ start ∧ stop ≤ r.base + r.length := by
  unfold frameSpan at h
  split at h
  · cases h
  · next first hfirst =>
      split at h
      · cases h
      · next top htop =>
          cases h
          obtain ⟨-, rfl⟩ := Word.roundUp?_eq_some_iff.mp hfirst
          unfold Word.add at htop
          split at htop
          · cases htop
            unfold roundUp pageSize
            exact ⟨Nat.dvd_mul_left _ _, Nat.dvd_mul_left _ _, by omega, by omega⟩
          · cases htop

theorem PhysAddr.alignUp_eq_ok {a b : PhysAddr} (h : a.alignUp = .ok b) :
    a.val ≤ b.val ∧ pageSize ∣ b.val := by
  have hval := PhysAddr.ofNat_eq_ok_iff.mp h
  rw [hval]
  unfold roundUp pageSize
  exact ⟨by omega, Nat.dvd_mul_left _ _⟩

/-- A frame boundary stays where it is. -/
theorem PhysAddr.alignUp_of_dvd {a b : PhysAddr} (haligned : pageSize ∣ a.val)
    (h : a.alignUp = .ok b) : b = a := by
  refine PhysAddr.ext ?_
  rw [PhysAddr.ofNat_eq_ok_iff.mp h]
  unfold pageSize at haligned
  unfold roundUp pageSize
  omega

namespace Layout

/-! ### Sound layouts -/

/-- **Sound layouts** for a list of ranges and a kernel image that ends at `kernelEnd`. -/
structure Sound (l : Layout) (kernelEnd : PhysAddr) (ranges : List MemoryRange) : Prop where
  aboveKernel : kernelEnd.val ≤ l.firstFree.val
  firstFree_aligned : pageSize ∣ l.firstFree.val
  totalSize_aligned : pageSize ∣ l.totalSize
  firstFree_le : l.firstFree.val ≤ l.totalSize
  hole_aligned : ∀ h ∈ l.holes, pageSize ∣ h.base.val ∧ pageSize ∣ h.length
  hole_inside : ∀ h ∈ l.holes, l.firstFree.val ≤ h.base.val ∧ h.base.val + h.length ≤ l.totalSize
  ascending : l.holes.Pairwise fun h h' => h.base.val + h.length ≤ h'.base.val
  /-- Outside the holes there are usable frames only. -/
  usable : ∀ i, l.firstFree.val ≤ i * pageSize → i * pageSize < l.totalSize →
    (∃ h ∈ l.holes, h.Touches i) ∨ ∃ r ∈ ranges, r.HasFrame i

namespace Sound

variable {l : Layout} {kernelEnd firstFree : PhysAddr} {ranges : List MemoryRange}

/-- Nothing covered yet. -/
theorem blank (habove : kernelEnd.val ≤ firstFree.val) (haligned : pageSize ∣ firstFree.val) :
    Sound ⟨firstFree, firstFree.val, []⟩ kernelEnd ranges where
  aboveKernel := habove
  firstFree_aligned := haligned
  totalSize_aligned := haligned
  firstFree_le := Nat.le_refl _
  hole_aligned hole hmem := by cases hmem
  hole_inside hole hmem := by cases hmem
  ascending := List.Pairwise.nil
  usable i hlow hhigh := absurd hhigh (Nat.not_lt.mpr hlow)

/-- Frames that are usable go on top. -/
theorem extend (h : l.Sound kernelEnd ranges) {stop : Nat} (hstop : pageSize ∣ stop)
    (hle : l.totalSize ≤ stop)
    (hframes : ∀ i, l.totalSize ≤ i * pageSize → i * pageSize < stop →
      ∃ r ∈ ranges, r.HasFrame i) :
    Sound { l with totalSize := stop } kernelEnd ranges where
  aboveKernel := h.aboveKernel
  firstFree_aligned := h.firstFree_aligned
  totalSize_aligned := hstop
  firstFree_le := Nat.le_trans h.firstFree_le hle
  hole_aligned := h.hole_aligned
  hole_inside hole hmem :=
    ⟨(h.hole_inside hole hmem).1, Nat.le_trans (h.hole_inside hole hmem).2 hle⟩
  ascending := h.ascending
  usable i hlow hhigh := by
    by_cases hold : i * pageSize < l.totalSize
    · exact h.usable i hlow hold
    · exact Or.inr (hframes i (Nat.not_lt.mp hold) hhigh)

/-- A hole goes on top. -/
theorem extendOver (h : l.Sound kernelEnd ranges) {base : PhysAddr} {gap : Nat}
    (hbase : base.val = l.totalSize) (hgap : pageSize ∣ gap) :
    Sound { l with totalSize := l.totalSize + gap, holes := l.holes ++ [⟨base, gap⟩] } kernelEnd
      ranges where
  aboveKernel := h.aboveKernel
  firstFree_aligned := h.firstFree_aligned
  totalSize_aligned := Nat.dvd_add h.totalSize_aligned hgap
  firstFree_le := Nat.le_trans h.firstFree_le (Nat.le_add_right _ _)
  hole_aligned := by
    intro hole hmem
    rcases List.mem_append.mp hmem with hold | hlast
    · exact h.hole_aligned hole hold
    · obtain rfl := List.mem_singleton.mp hlast
      exact ⟨hbase ▸ h.totalSize_aligned, hgap⟩
  hole_inside := by
    intro hole hmem
    rcases List.mem_append.mp hmem with hold | hlast
    · obtain ⟨hlow, hhigh⟩ := h.hole_inside hole hold
      exact ⟨hlow, Nat.le_trans hhigh (Nat.le_add_right _ _)⟩
    · obtain rfl := List.mem_singleton.mp hlast
      exact ⟨hbase ▸ h.firstFree_le, Nat.le_of_eq (by rw [hbase])⟩
  ascending := by
    refine List.pairwise_append.mpr ⟨h.ascending, List.pairwise_singleton _ _, ?_⟩
    intro hole hold new hnew
    obtain rfl := List.mem_singleton.mp hnew
    exact hbase ▸ (h.hole_inside hole hold).2
  usable := by
    intro i hlow hhigh
    change i * pageSize < l.totalSize + gap at hhigh
    by_cases hold : i * pageSize < l.totalSize
    · rcases h.usable i hlow hold with ⟨hole, hmem, htouch⟩ | hfound
      · exact Or.inl ⟨hole, List.mem_append_left _ hmem, htouch⟩
      · exact Or.inr hfound
    · refine Or.inl ⟨_, List.mem_append_right _ List.mem_cons_self, ?_⟩
      simp only [Hole.Touches, hbase]
      unfold pageSize at *
      omega

end Sound

/-! ### The invariant of the survey -/

namespace Survey

variable {s s' : Survey} {kernelEnd : PhysAddr} {ranges : List MemoryRange} {r : MemoryRange}
  {start stop : Nat}

/-- What has been covered so far, as a layout. -/
def sofar (s : Survey) : Layout := ⟨s.firstFree, s.covered, s.holes⟩

/-- **Sound surveys.** -/
structure Sound (s : Survey) (kernelEnd : PhysAddr) (ranges : List MemoryRange) : Prop where
  sofar : s.sofar.Sound kernelEnd ranges
  unfound : s.found = false → s.covered = s.firstFree.val ∧ s.holes = []

theorem sound_initial {firstFree : PhysAddr} (h : kernelEnd.alignUp = .ok firstFree) :
    (initial firstFree).Sound kernelEnd ranges := by
  obtain ⟨habove, haligned⟩ := PhysAddr.alignUp_eq_ok h
  exact ⟨.blank habove haligned, fun _ => ⟨rfl, rfl⟩⟩

/-- Moving the first free frame up over a gap at the beginning. -/
theorem Sound.lift (h : s.Sound kernelEnd ranges) (hstart : pageSize ∣ start)
    (hlift : s.lift start = .ok s') :
    s'.Sound kernelEnd ranges ∧ (s'.covered = s.covered ∨ s'.covered = start) := by
  unfold Survey.lift at hlift
  split at hlift
  · next hgap =>
      simp only [Bool.and_eq_true, Bool.not_eq_true', decide_eq_true_eq] at hgap
      obtain ⟨hunfound, hlt⟩ := hgap
      obtain ⟨hcovered, hholes⟩ := h.unfound hunfound
      split at hlift
      · cases hlift
      · next a ha =>
          cases hlift
          obtain rfl := PhysAddr.ofNat_eq_ok_iff.mp ha
          have habove : kernelEnd.val ≤ s.firstFree.val := h.sofar.aboveKernel
          refine ⟨⟨?_, fun _ => ⟨rfl, hholes⟩⟩, Or.inr rfl⟩
          simp only [Survey.sofar, hholes]
          exact .blank (by omega) hstart
  · cases hlift
    exact ⟨h, Or.inl rfl⟩

theorem hasFrame_of_span (husable : r.usable = true) (hspan : r.frameSpan = .ok (start, stop))
    {i : Nat} (hlow : start ≤ i * pageSize) (hhigh : i * pageSize < stop) : r.HasFrame i := by
  obtain ⟨-, hstop, hbase, htop⟩ := MemoryRange.frameSpan_eq_ok hspan
  refine ⟨husable, by omega, ?_⟩
  unfold pageSize at *
  omega

/-- Covering the frames of a usable range, with a hole for the gap below them. -/
theorem Sound.cover (h : s.Sound kernelEnd ranges) (hr : r ∈ ranges) (husable : r.usable = true)
    (hspan : r.frameSpan = .ok (start, stop)) (hnew : s.covered < stop) (hspace : start < stop)
    (hcover : s.cover start stop = .ok (.extended s')) : s'.Sound kernelEnd ranges := by
  obtain ⟨hstart, hstop, -, -⟩ := MemoryRange.frameSpan_eq_ok hspan
  have husableFrom : ∀ i, start ≤ i * pageSize → i * pageSize < stop →
      ∃ r ∈ ranges, r.HasFrame i :=
    fun i hlow hhigh => ⟨r, hr, hasFrame_of_span husable hspan hlow hhigh⟩
  unfold Survey.cover at hcover
  split at hcover
  · next hgap =>
      split at hcover
      · cases hcover
      · next base hbase =>
          split at hcover
          · cases hcover
            have hover := h.sofar.extendOver (PhysAddr.ofNat_eq_ok_iff.mp hbase)
              (Nat.dvd_sub hstart h.sofar.totalSize_aligned)
            have hreach : s.sofar.totalSize + (start - s.covered) = start :=
              Nat.add_sub_cancel' (Nat.le_of_lt hgap)
            refine ⟨hover.extend hstop ?_ ?_, fun hf => by cases hf⟩
            · exact Nat.le_trans (Nat.le_of_eq hreach) (Nat.le_of_lt hspace)
            · intro i hlow hhigh
              exact husableFrom i (Nat.le_trans (Nat.le_of_eq hreach.symm) hlow) hhigh
          · cases hcover
  · next hnogap =>
      cases hcover
      refine ⟨h.sofar.extend hstop (Nat.le_of_lt hnew) fun i hlow hhigh => ?_,
        fun hf => by cases hf⟩
      exact husableFrom i (Nat.le_trans (Nat.not_lt.mp hnogap) hlow) hhigh

/-- **What one usable range keeps.** -/
theorem Sound.advance (h : s.Sound kernelEnd ranges) (hr : r ∈ ranges)
    (husable : r.usable = true) (hspan : r.frameSpan = .ok (start, stop))
    (hadvance : s.advance start stop = .ok (.extended s')) : s'.Sound kernelEnd ranges := by
  unfold Survey.advance at hadvance
  split at hadvance
  · cases hadvance
    exact h
  · next hnew =>
      split at hadvance
      · cases hadvance
      · next s₁ hlift =>
          obtain ⟨h₁, hcovered⟩ := h.lift (MemoryRange.frameSpan_eq_ok hspan).1 hlift
          exact h₁.cover hr husable hspan (by omega) (by omega) hadvance

/-- **What a survey keeps**, by induction on the ranges still to be read. -/
theorem Sound.scan :
    ∀ {rest : List MemoryRange} {s s' : Survey} {ignored : Option Nat},
      s.Sound kernelEnd ranges → rest ⊆ ranges → s.scan rest = .ok (s', ignored) →
      s'.Sound kernelEnd ranges := by
  intro rest
  induction rest with
  | nil =>
      intro s s' ignored h _ hscan
      cases hscan
      exact h
  | cons r rest ih =>
      intro s s' ignored h hsub hscan
      obtain ⟨hr, hrest⟩ := List.cons_subset.mp hsub
      unfold Survey.scan at hscan
      split at hscan
      · next husable =>
          split at hscan
          · cases hscan
          · next start stop hspan =>
              split at hscan
              · cases hscan
              · next s₁ hadvance => exact ih (h.advance hr husable hspan hadvance) hrest hscan
              · cases hscan
                exact h
      · exact ih h hrest hscan

end Survey

/-- **A layout read off a list of ranges is sound for it.** -/
theorem sound_of_ofRanges {ranges : List MemoryRange} {kernelEnd : PhysAddr} {l : Layout}
    (h : ofRanges ranges kernelEnd = .ok (some l)) : l.Sound kernelEnd ranges := by
  unfold ofRanges survey at h
  split at h
  · cases h
  · next firstFree haligned =>
      split at h
      · cases h
      · next s ignored hscan =>
          have hsound : s.Sound kernelEnd ranges :=
            (Survey.sound_initial haligned).scan (List.Subset.refl _) hscan
          simp only [Except.map, Except.ok.injEq, Survey.layout?] at h
          split at h
          · cases h
            exact hsound.sofar
          · cases h

end Layout

end DemandPaging
