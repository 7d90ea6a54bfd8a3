import DemandPaging.Proofs.Tiling

/-!
# The survey loses no frame and gains none

A frame lost by the survey is silent waste, and a frame gained hands out firmware memory.
`Layout.Sound` rules out the second for any list of ranges.  The first needs the list to be
sorted: a survey only ever moves up, so a range that comes too late is lost.  Then a layout
is exactly what the list says (`Layout.ofRanges_exact`), with one way to lose memory left,
which is that there are more gaps than holes.

**The invariant** (`Layout.Survey.Exact`) is about the usable frames of the whole list, those
of unread ranges included: one that is not covered lies in a range that is still unread.  What
is still unread begins no lower than the range being read, so whatever lies between the
covered memory and this range is usable in no range at all, and may become a hole or be left
below the first free frame.
-/

namespace DemandPaging

/-! ### The frames of one range -/

namespace MemoryRange

variable {r : MemoryRange} {start stop : Nat}

/-- Below the end of physical memory the frames of a range can be computed. -/
theorem exists_frameSpan (h : r.base + r.length < 0x10000000000000) :
    r.frameSpan =
      .ok (roundUp r.base pageSize, (r.base + r.length) / pageSize * pageSize) := by
  have hstart : Word.roundUp? r.base pageSize = some (roundUp r.base pageSize) := by
    refine Word.roundUp?_eq_some_iff.mpr ⟨?_, rfl⟩
    unfold roundUp pageSize wordLimit
    omega
  have htop : Word.add r.base r.length = .ok (r.base + r.length) := by
    unfold Word.add wordLimit
    rw [if_pos (by omega)]
  simp only [frameSpan, hstart, htop]

/-- The frames of a range begin at the first frame boundary in it, and no frame that the
range holds is left out. -/
theorem le_of_frameSpan (h : r.frameSpan = .ok (start, stop)) {i : Nat}
    (hbase : r.base ≤ i * pageSize) : start ≤ i * pageSize := by
  unfold frameSpan at h
  split at h
  · cases h
  · next first hfirst =>
      split at h
      · cases h
      · cases h
        obtain ⟨-, rfl⟩ := Word.roundUp?_eq_some_iff.mp hfirst
        unfold roundUp pageSize at *
        omega

theorem HasFrame.lt_of_frameSpan {i : Nat} (hframe : r.HasFrame i)
    (h : r.frameSpan = .ok (start, stop)) : i * pageSize < stop := by
  obtain ⟨-, -, htop⟩ := hframe
  unfold frameSpan at h
  split at h
  · cases h
  · split at h
    · cases h
    · next top hsum =>
        cases h
        unfold Word.add at hsum
        split at hsum
        · cases hsum
          unfold pageSize at *
          omega
        · cases hsum

end MemoryRange

namespace Layout

/-! ### Usable frames -/

/-- **Usable frames**: at or above the end of the kernel image, rounded up to a frame, and
wholly inside one usable range. -/
def IsUsable (ranges : List MemoryRange) (kernelEnd : PhysAddr) (i : Nat) : Prop :=
  roundUp kernelEnd.val pageSize ≤ i * pageSize ∧ ∃ r ∈ ranges, r.HasFrame i

/-- The usable ranges are listed by where they begin; the others may stand anywhere. -/
def InOrder (ranges : List MemoryRange) : Prop :=
  (ranges.filter MemoryRange.usable).Pairwise fun r r' => r.base ≤ r'.base

variable {ranges rest : List MemoryRange} {r : MemoryRange} {kernelEnd : PhysAddr}
  {start stop : Nat}

theorem InOrder.tail (h : InOrder (r :: rest)) : InOrder rest := by
  unfold InOrder at h ⊢
  rw [List.filter_cons] at h
  split at h
  · exact (List.pairwise_cons.mp h).2
  · exact h

/-- Frames of the range being read, and of those behind it, lie no lower than where it
starts. -/
theorem InOrder.start_le (h : InOrder (r :: rest)) (husable : r.usable = true)
    (hspan : r.frameSpan = .ok (start, stop)) {i : Nat}
    (hframe : ∃ r' ∈ r :: rest, r'.HasFrame i) : start ≤ i * pageSize := by
  obtain ⟨r', hmem, husable', hbase, -⟩ := hframe
  refine MemoryRange.le_of_frameSpan hspan (Nat.le_trans ?_ hbase)
  rcases List.mem_cons.mp hmem with rfl | hmem
  · exact Nat.le_refl _
  · unfold InOrder at h
    rw [List.filter_cons_of_pos husable] at h
    exact List.rel_of_pairwise_cons h (List.mem_filter.mpr ⟨hmem, husable'⟩)

/-! ### The invariant of the survey -/

namespace Survey

variable {s s' : Survey}

/-- **Exact surveys**, with the ranges that are still unread. -/
structure Exact (s : Survey) (kernelEnd : PhysAddr) (ranges unread : List MemoryRange) :
    Prop where
  inOrder : InOrder unread
  unread_subset : unread ⊆ ranges
  above : roundUp kernelEnd.val pageSize ≤ s.firstFree.val
  unfound : s.found = false →
    s.covered = s.firstFree.val ∧ s.covered = roundUp kernelEnd.val pageSize
  first : s.found = true → IsUsable ranges kernelEnd (s.firstFree.val / pageSize)
  lowest : ∀ i, IsUsable ranges kernelEnd i → s.firstFree.val ≤ i * pageSize
  /-- What is not covered is still to be read. -/
  read : ∀ i, IsUsable ranges kernelEnd i →
    i * pageSize < s.covered ∨ ∃ r ∈ unread, r.HasFrame i
  unusable : ∀ hole ∈ s.holes, ∀ i, hole.Holds (i * pageSize) → ¬ IsUsable ranges kernelEnd i
  few : s.holes.length ≤ maxHoles

theorem exact_initial {firstFree : PhysAddr} (hinOrder : InOrder ranges)
    (hfirst : firstFree.val = roundUp kernelEnd.val pageSize) :
    (initial firstFree).Exact kernelEnd ranges ranges where
  inOrder := hinOrder
  unread_subset := List.Subset.refl _
  above := Nat.le_of_eq hfirst.symm
  unfound _ := ⟨rfl, hfirst⟩
  first hfound := by cases hfound
  lowest i h := hfirst ▸ h.1
  read i h := Or.inr h.2
  unusable hole hmem := by cases hmem
  few := Nat.zero_le _

theorem Exact.passes (h : s.Exact kernelEnd ranges (r :: rest)) (hunusable : r.usable = false) :
    s.Exact kernelEnd ranges rest where
  inOrder := h.inOrder.tail
  unread_subset := (List.cons_subset.mp h.unread_subset).2
  above := h.above
  unfound := h.unfound
  first := h.first
  lowest := h.lowest
  read i hi := by
    rcases h.read i hi with hlow | ⟨r', hmem, hframe⟩
    · exact Or.inl hlow
    · rcases List.mem_cons.mp hmem with rfl | hmem
      · exact absurd hframe.1 (by simp [hunusable])
      · exact Or.inr ⟨r', hmem, hframe⟩
  unusable := h.unusable
  few := h.few

/-- Covering everything up to `bound` leaves only later ranges unread. -/
theorem Exact.read_upTo (h : s.Exact kernelEnd ranges (r :: rest))
    (hspan : r.frameSpan = .ok (start, stop)) {bound : Nat} (hcovered : s.covered ≤ bound)
    (hstop : stop ≤ bound ∨ stop ≤ start) (i : Nat) (hi : IsUsable ranges kernelEnd i) :
    i * pageSize < bound ∨ ∃ r ∈ rest, r.HasFrame i := by
  rcases h.read i hi with hlow | ⟨r', hmem, hframe⟩
  · exact Or.inl (Nat.lt_of_lt_of_le hlow hcovered)
  · rcases List.mem_cons.mp hmem with rfl | hmem
    · have hlow := MemoryRange.le_of_frameSpan hspan hframe.2.1
      have hhigh := hframe.lt_of_frameSpan hspan
      exact Or.inl (by omega)
    · exact Or.inr ⟨r', hmem, hframe⟩

/-- Nothing between the covered memory and the range being read is usable. -/
theorem Exact.gap_unusable (h : s.Exact kernelEnd ranges (r :: rest)) (husable : r.usable = true)
    (hspan : r.frameSpan = .ok (start, stop)) {i : Nat} (hlow : s.covered ≤ i * pageSize)
    (hi : IsUsable ranges kernelEnd i) : start ≤ i * pageSize := by
  rcases h.read i hi with hcovered | hunread
  · exact absurd hcovered (Nat.not_lt.mpr hlow)
  · exact h.inOrder.start_le husable hspan hunread

theorem isUsable_of_span (hr : r ∈ ranges) (husable : r.usable = true)
    (hspan : r.frameSpan = .ok (start, stop)) {first : Nat} (haligned : pageSize ∣ first)
    (habove : roundUp kernelEnd.val pageSize ≤ first) (hlow : start ≤ first)
    (hhigh : first < stop) : IsUsable ranges kernelEnd (first / pageSize) := by
  have hfirst : first / pageSize * pageSize = first := Nat.div_mul_cancel haligned
  exact ⟨hfirst.symm ▸ habove, r, hr,
    hasFrame_of_span husable hspan (hfirst.symm ▸ hlow) (hfirst.symm ▸ hhigh)⟩

/-- **What one usable range keeps.** -/
theorem Exact.reads (h : s.Exact kernelEnd ranges (r :: rest)) (husable : r.usable = true)
    (hspan : r.frameSpan = .ok (start, stop)) (hreads : s.Reads start stop (.extended s')) :
    s'.Exact kernelEnd ranges rest := by
  obtain ⟨hr, hrest⟩ := List.cons_subset.mp h.unread_subset
  obtain ⟨hstart, -, -, -⟩ := MemoryRange.frameSpan_eq_ok hspan
  have habove := h.above
  cases hreads with
  | skipped nothing =>
      exact ⟨h.inOrder.tail, hrest, h.above, h.unfound, h.first, h.lowest,
        h.read_upTo hspan (Nat.le_refl _) nothing, h.unusable, h.few⟩
  | opened new nonempty unfound gap first_val =>
      obtain ⟨-, hkernel⟩ := h.unfound unfound
      refine ⟨h.inOrder.tail, hrest, ?_, fun hf => (by cases hf), fun _ => ?_, ?_,
        h.read_upTo hspan (Nat.le_of_lt new) (Or.inl (Nat.le_refl _)), h.unusable, h.few⟩
      · simp only [first_val]
        omega
      · simp only [first_val]
        exact isUsable_of_span hr husable hspan hstart (by omega) (Nat.le_refl _) nonempty
      · intro i hi
        simp only [first_val]
        exact h.gap_unusable husable hspan (hkernel ▸ hi.1) hi
  | joined new nonempty touch =>
      refine ⟨h.inOrder.tail, hrest, h.above, fun hf => (by cases hf), fun _ => ?_, h.lowest,
        h.read_upTo hspan (Nat.le_of_lt new) (Or.inl (Nat.le_refl _)), h.unusable, h.few⟩
      cases hfound : s.found with
      | true => exact h.first hfound
      | false =>
          obtain ⟨hfirst, hkernel⟩ := h.unfound hfound
          have haligned : pageSize ∣ s.firstFree.val := by
            rw [← hfirst, hkernel]
            exact Nat.dvd_mul_left _ _
          exact isUsable_of_span hr husable hspan haligned h.above (hfirst ▸ touch)
            (hfirst ▸ new)
  | spanned new nonempty found gap room base_val =>
      refine ⟨h.inOrder.tail, hrest, h.above, fun hf => (by cases hf), fun _ => h.first found,
        h.lowest, h.read_upTo hspan (Nat.le_of_lt new) (Or.inl (Nat.le_refl _)), ?_, ?_⟩
      · refine List.forall_mem_append.mpr ⟨h.unusable, fun hole hmem i hheld hi => ?_⟩
        obtain rfl := List.mem_singleton.mp hmem
        obtain ⟨hlow, hhigh⟩ := hheld
        simp only [base_val] at hlow hhigh
        have := h.gap_unusable husable hspan hlow hi
        omega
      · simpa using Nat.succ_le_of_lt room

/-- A survey of ranges below the end of physical memory does not stop the kernel. -/
theorem exists_scan :
    ∀ {rest : List MemoryRange} (s : Survey),
      (∀ r ∈ rest, r.usable = true → r.base + r.length < 0x10000000000000) →
      ∃ s' ignored, s.scan rest = .ok (s', ignored) := by
  intro rest
  induction rest with
  | nil => exact fun s _ => ⟨s, none, rfl⟩
  | cons r rest ih =>
      intro s htops
      obtain ⟨htop, htops⟩ := List.forall_mem_cons.mp htops
      unfold Survey.scan
      split
      · next husable =>
          simp only [MemoryRange.exists_frameSpan (htop husable)]
          have hstop : (r.base + r.length) / pageSize * pageSize < 0x10000000000000 :=
            Nat.lt_of_le_of_lt (Nat.div_mul_le_self _ _) (htop husable)
          obtain ⟨step, hadvance⟩ := s.exists_advance (roundUp r.base pageSize) hstop
          simp only [hadvance]
          cases step with
          | extended s₁ => exact ih s₁ htops
          | exhausted => exact ⟨s, some s.covered, rfl⟩
      · exact ih s htops

/-- A survey passes over what is not usable. -/
theorem scan_filter :
    ∀ {rest : List MemoryRange} (s : Survey),
      s.scan (rest.filter MemoryRange.usable) = s.scan rest := by
  intro rest
  induction rest with
  | nil => exact fun _ => rfl
  | cons r rest ih =>
      intro s
      cases husable : r.usable with
      | false =>
          rw [List.filter_cons_of_neg (by simp [husable]), ih]
          simp [Survey.scan, husable]
      | true =>
          rw [List.filter_cons_of_pos husable]
          simp only [Survey.scan, husable, if_true, ih]

end Survey

/-! ### Exact layouts -/

/-- **Exact layouts** for a list of ranges, with the runs of the layout. -/
structure Exact (l : Layout) (kernelEnd : PhysAddr) (ranges : List MemoryRange)
    (runs : List Run) : Prop where
  /-- The first free frame is the lowest usable one. -/
  first : ∃ i, l.firstFree.val = i * pageSize ∧ IsUsable ranges kernelEnd i
  lowest : ∀ i, IsUsable ranges kernelEnd i → l.firstFree.val ≤ i * pageSize
  totalSize_aligned : pageSize ∣ l.totalSize
  hole_aligned : ∀ hole ∈ l.holes,
    pageSize ∣ hole.base.val ∧ pageSize ∣ hole.base.val + hole.length
  few : l.holes.length ≤ maxHoles
  spaced : l.Spaced
  tiled : l.TiledBy runs
  /-- Between the first free frame and the top, the runs hold the usable frames. -/
  usable_iff : ∀ i, l.firstFree.val ≤ i * pageSize → i * pageSize < l.totalSize →
    ((∃ run ∈ runs, run.HasFrame i) ↔ IsUsable ranges kernelEnd i)
  /-- Memory is only ignored for want of holes. -/
  ignored : ∀ i, IsUsable ranges kernelEnd i → l.totalSize ≤ i * pageSize →
    l.holes.length = maxHoles

variable {l : Layout} {s : Survey} {unread : List MemoryRange}

/-- The top of a spaced layout is the end of a usable frame. -/
theorem Spaced.exists_top (h : l.Spaced) (hsound : l.Sound kernelEnd ranges) :
    ∃ r ∈ ranges, r.usable = true ∧ l.totalSize ≤ r.base + r.length := by
  have hnonempty := h.nonempty
  have hfirstFree := hsound.firstFree_aligned
  have htop := hsound.totalSize_aligned
  have hlast : (l.totalSize / pageSize - 1) * pageSize + pageSize = l.totalSize := by
    unfold pageSize at *
    omega
  rcases hsound.usable (l.totalSize / pageSize - 1) (by unfold pageSize at *; omega)
    (by unfold pageSize at *; omega) with ⟨hole, hmem, -, hbelow⟩ | ⟨r, hmem, husable, -, hend⟩
  · -- no hole reaches as far as the last frame
    obtain ⟨-, hend⟩ := h.hole_between hole hmem
    obtain ⟨hbase, hlength⟩ := hsound.hole_aligned hole hmem
    unfold pageSize at *
    omega
  · refine ⟨r, hmem, husable, ?_⟩
    unfold pageSize at *
    omega

/-- An exact survey that has read its list, or has run out of holes, ends with an exact
layout. -/
theorem Survey.Exact.layout (h : s.Exact kernelEnd ranges unread) (hfound : s.found = true)
    (hend : unread = [] ∨ maxHoles ≤ s.holes.length ∧ s.found = true)
    (hsound : s.sofar.Sound kernelEnd ranges) (hspaced : s.sofar.Spaced) {runs : List Run}
    (hruns : s.sofar.usableRuns = .ok runs) (htiled : s.sofar.TiledBy runs) :
    s.sofar.Exact kernelEnd ranges runs := by
  refine ⟨?_, h.lowest, hsound.totalSize_aligned, ?_, h.few, hspaced, htiled, ?_, ?_⟩
  · exact ⟨_, (Nat.div_mul_cancel hsound.firstFree_aligned).symm, h.first hfound⟩
  · intro hole hmem
    obtain ⟨hbase, hlength⟩ := hsound.hole_aligned hole hmem
    exact ⟨hbase, Nat.dvd_add hbase hlength⟩
  · intro i hlow hhigh
    rw [htiled.hasFrame_iff hsound hruns]
    constructor
    · rintro ⟨-, -, huntouched⟩
      refine ⟨Nat.le_trans h.above hlow, ?_⟩
      rcases hsound.usable i hlow hhigh with ⟨hole, hmem, htouch⟩ | husable
      · exact absurd htouch (huntouched hole hmem)
      · exact husable
    · intro hi
      exact ⟨hlow, hhigh, fun hole hmem htouch =>
        h.unusable hole hmem i ((hsound.touches_iff hmem).mp htouch) hi⟩
  · intro i hi hhigh
    rcases hend with rfl | ⟨hfull, -⟩
    · rcases h.read i hi with hcovered | ⟨r, hmem, -⟩
      · exact absurd hcovered (Nat.not_lt.mpr hhigh)
      · cases hmem
    · exact Nat.le_antisymm h.few hfull

/-- **The survey is exact.**  For every list whose usable ranges are listed by where they
begin and end below the end of physical memory, the survey comes to an end.  It finds a
layout exactly if there is a usable frame, the layout is exact for the list, and ranges that
are not usable make no difference to it. -/
theorem ofRanges_exact (inOrder : InOrder ranges)
    (tops : ∀ r ∈ ranges, r.usable = true → r.base + r.length < 0x10000000000000)
    (kernel : kernelEnd.val < 0x10000000000000 - 4096) :
    ∃ result, ofRanges ranges kernelEnd = .ok result ∧
      (result = none ↔ ∀ i, ¬ IsUsable ranges kernelEnd i) ∧
      (∀ l, result = some l →
        ∃ runs, l.usableRuns = .ok runs ∧ l.Exact kernelEnd ranges runs) ∧
      ∀ ranges', ranges'.filter MemoryRange.usable = ranges.filter MemoryRange.usable →
        ofRanges ranges' kernelEnd = .ok result := by
  obtain ⟨firstFree, hfirst, hval⟩ :=
    PhysAddr.exists_ofNat (n := roundUp kernelEnd.val pageSize)
      (by unfold roundUp pageSize; omega)
  obtain ⟨s, ignored, hscan⟩ := Survey.exists_scan (Survey.initial firstFree) tops
  have hresult : ∀ ranges', ranges'.filter MemoryRange.usable =
      ranges.filter MemoryRange.usable → ofRanges ranges' kernelEnd = .ok s.layout? := by
    intro ranges' hsame
    have hscan' : (Survey.initial firstFree).scan ranges' = .ok (s, ignored) := by
      rw [← Survey.scan_filter, hsame, Survey.scan_filter, hscan]
    simp only [ofRanges, survey, PhysAddr.alignUp, hfirst, hscan', Except.map]
  obtain ⟨unread, hexact, hend⟩ :=
    Survey.scan_keeps (fun s unread => s.Exact kernelEnd ranges unread)
      (fun hunusable h => h.passes hunusable)
      (fun husable hspan hreads h => h.reads husable hspan hreads)
      (Survey.exact_initial inOrder hval) hscan
  refine ⟨s.layout?, hresult ranges rfl, ?_, ?_, hresult⟩
  · cases hfound : s.found with
    | true =>
        simp only [Survey.layout?, hfound, if_true, reduceCtorEq, false_iff]
        exact fun hnone => hnone _ (hexact.first hfound)
    | false =>
        simp only [Survey.layout?, hfound, Bool.false_eq_true, if_false, true_iff]
        intro i hi
        obtain rfl := hend.resolve_right fun h => by simp [hfound] at h
        rcases hexact.read i hi with hcovered | ⟨r, hmem, -⟩
        · obtain ⟨-, hkernel⟩ := hexact.unfound hfound
          exact absurd hi.1 (Nat.not_le.mpr (hkernel ▸ hcovered))
        · cases hmem
  · intro l hl
    have hofRanges : ofRanges ranges kernelEnd = .ok (some l) := by rw [hresult ranges rfl, hl]
    have hsound := sound_of_ofRanges hofRanges
    have hspaced := spaced_of_ofRanges hofRanges
    obtain ⟨r, hmem, husable, htop⟩ := hspaced.exists_top hsound
    obtain ⟨runs, hruns, htiled⟩ := hspaced.tiled (Nat.lt_of_le_of_lt htop (tops r hmem husable))
    unfold Survey.layout? at hl
    split at hl
    · next hfound =>
        obtain rfl : s.sofar = l := Option.some.inj hl
        exact ⟨runs, hruns, hexact.layout hfound hend hsound hspaced hruns htiled⟩
    · cases hl

/-- Two ranges that overlap, one between them and the next that holds no whole frame, and one
that is not usable: the runs begin at frame one, because the kernel image ends in frame zero,
and the part of a frame at the end of each range is left out. -/
theorem ofRanges_exact_sixteen_frames :
    ∃ l runs,
      ofRanges [⟨0, 0x2800, true⟩, ⟨0x1000, 0x3800, true⟩, ⟨0x5001, 0x1ffe, true⟩,
        ⟨0x4800, 0x2800, false⟩, ⟨0x7000, 0x9000, true⟩] ⟨0x800, by decide⟩ = .ok (some l) ∧
      l.holes = [⟨⟨0x4000, by decide⟩, 0x3000⟩] ∧
      l.Exact ⟨0x800, by decide⟩
        [⟨0, 0x2800, true⟩, ⟨0x1000, 0x3800, true⟩, ⟨0x5001, 0x1ffe, true⟩,
          ⟨0x4800, 0x2800, false⟩, ⟨0x7000, 0x9000, true⟩] runs := by
  let ranges : List MemoryRange :=
    [⟨0, 0x2800, true⟩, ⟨0x1000, 0x3800, true⟩, ⟨0x5001, 0x1ffe, true⟩, ⟨0x4800, 0x2800, false⟩,
      ⟨0x7000, 0x9000, true⟩]
  let l : Layout := ⟨⟨0x1000, by decide⟩, 0x10000, [⟨⟨0x4000, by decide⟩, 0x3000⟩]⟩
  have surveyed : ofRanges ranges ⟨0x800, by decide⟩ = .ok (some l) := by cbv
  have inOrder : InOrder ranges := by simp [InOrder, ranges]
  have kernel : PhysAddr.val ⟨0x800, by decide⟩ < 0x10000000000000 - 4096 := by decide
  obtain ⟨result, hresult, -, hlayout, -⟩ := ofRanges_exact inOrder (by simp [ranges]) kernel
  obtain rfl : some l = result := Except.ok.inj (surveyed.symm.trans hresult)
  obtain ⟨runs, -, hexact⟩ := hlayout l rfl
  exact ⟨l, runs, surveyed, rfl, hexact⟩

end Layout

end DemandPaging
