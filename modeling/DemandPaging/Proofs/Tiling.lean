import DemandPaging.Proofs.Survey

/-!
# Runs and holes tile memory

A layout names its holes only; its runs are what lies between.  For the two to tile the memory
from the first free frame to the top, no two holes may touch and none may lie at either end,
and that is a matter of how the survey places them: it makes a hole only where usable frames
end below it and others begin above it (`Layout.spaced_of_ofRanges`).  The firmware's list
need not be sorted for this.

**What a range can do to a survey** is said once (`Layout.Survey.Reads`): nothing, open the
layout further up, join what is covered, span a gap with a hole, or find that no hole is left.
Anything that is kept under these five is kept by a whole survey
(`Layout.Survey.scan_keeps`).
-/

namespace DemandPaging

/-- An address lies in the run. -/
def Run.Holds (run : Run) (x : Nat) : Prop := run.start.val ≤ x ∧ x < run.limit.val

/-- Frame number `i` lies wholly in the run. -/
def Run.HasFrame (run : Run) (i : Nat) : Prop :=
  run.start.val ≤ i * pageSize ∧ (i + 1) * pageSize ≤ run.limit.val

/-- An address lies in the hole. -/
def Hole.Holds (hole : Hole) (x : Nat) : Prop :=
  hole.base.val ≤ x ∧ x < hole.base.val + hole.length

theorem PhysAddr.exists_ofNat {n : Nat} (h : n < 0x10000000000000) :
    ∃ a, PhysAddr.ofNat n = .ok a ∧ a.val = n :=
  ⟨⟨n, h⟩, PhysAddr.ofNat_eq_ok_iff.mpr rfl, rfl⟩

namespace Layout

/-! ### Spaced layouts -/

/-- **Spaced layouts**: there is usable memory at both ends and between any two holes. -/
structure Spaced (l : Layout) : Prop where
  nonempty : l.firstFree.val < l.totalSize
  hole_nonempty : ∀ hole ∈ l.holes, 0 < hole.length
  hole_between : ∀ hole ∈ l.holes,
    l.firstFree.val < hole.base.val ∧ hole.base.val + hole.length < l.totalSize
  ascending : l.holes.Pairwise fun hole hole' => hole.base.val + hole.length < hole'.base.val

/-- **Tilings**: the runs, together with the holes, are the memory from the first free frame
to the top, each address once, and the booting phase ends with the first of them. -/
structure TiledBy (l : Layout) (runs : List Run) : Prop where
  run_nonempty : ∀ run ∈ runs, run.start.val < run.limit.val
  ascending : runs.Pairwise fun run run' => run.limit.val < run'.start.val
  apart : ∀ run ∈ runs, ∀ hole ∈ l.holes,
    run.limit.val ≤ hole.base.val ∨ hole.base.val + hole.length ≤ run.start.val
  covers : ∀ x, l.firstFree.val ≤ x ∧ x < l.totalSize ↔
    (∃ run ∈ runs, run.Holds x) ∨ ∃ hole ∈ l.holes, hole.Holds x
  boots : ∃ first rest, runs = first :: rest ∧ first.start = l.firstFree ∧
    l.bootLimit = .ok first.limit

section Tilings

variable {top firstFree limit : PhysAddr} {hole : Hole} {holes : List Hole} {runs : List Run}

/-- What lies above the first hole is spaced. -/
theorem Spaced.above (h : Spaced ⟨firstFree, top.val, hole :: holes⟩)
    (hlimit : limit.val = hole.base.val + hole.length) : Spaced ⟨limit, top.val, holes⟩ where
  nonempty := hlimit ▸ (h.hole_between hole List.mem_cons_self).2
  hole_nonempty hole' hmem := h.hole_nonempty hole' (List.mem_cons_of_mem _ hmem)
  hole_between hole' hmem :=
    ⟨hlimit ▸ List.rel_of_pairwise_cons h.ascending hmem,
      (h.hole_between hole' (List.mem_cons_of_mem _ hmem)).2⟩
  ascending := (List.pairwise_cons.mp h.ascending).2

theorem bootLimit_nil : bootLimit ⟨firstFree, top.val, []⟩ = .ok top := by
  simp [bootLimit, Layout.top, PhysAddr.ofNat_eq_ok_iff.mpr (rfl : top.val = top.val)]

theorem bootLimit_cons : bootLimit ⟨firstFree, top.val, hole :: holes⟩ = .ok hole.base := by
  simp [bootLimit, Layout.top, PhysAddr.ofNat_eq_ok_iff.mpr (rfl : top.val = top.val)]

/-- Memory without holes is one run. -/
theorem tiledBy_single (h : firstFree.val < top.val) :
    TiledBy ⟨firstFree, top.val, []⟩ [⟨firstFree, top⟩] where
  run_nonempty := by simpa using h
  ascending := List.pairwise_singleton _ _
  apart run _ hole hmem := by cases hmem
  covers x := by simp [Run.Holds]
  boots := ⟨_, [], rfl, rfl, bootLimit_nil⟩

/-- The run below the first hole goes in front of a tiling of what is above the hole. -/
theorem TiledBy.below (h : Spaced ⟨firstFree, top.val, hole :: holes⟩)
    (hlimit : limit.val = hole.base.val + hole.length)
    (htiled : TiledBy ⟨limit, top.val, holes⟩ runs) :
    TiledBy ⟨firstFree, top.val, hole :: holes⟩ (⟨firstFree, hole.base⟩ :: runs) := by
  obtain ⟨hbase, hend⟩ := h.hole_between hole List.mem_cons_self
  have hlength : 0 < hole.length := h.hole_nonempty hole List.mem_cons_self
  have habove : ∀ run ∈ runs, limit.val ≤ run.start.val := fun run hmem =>
    ((htiled.covers run.start.val).mpr
      (Or.inl ⟨run, hmem, Nat.le_refl _, htiled.run_nonempty run hmem⟩)).1
  have hholes : ∀ hole' ∈ holes, limit.val < hole'.base.val := fun hole' hmem =>
    hlimit ▸ List.rel_of_pairwise_cons h.ascending hmem
  refine ⟨?_, ?_, ?_, ?_, ⟨_, runs, rfl, rfl, bootLimit_cons⟩⟩
  · exact List.forall_mem_cons.mpr ⟨hbase, htiled.run_nonempty⟩
  · refine List.pairwise_cons.mpr ⟨fun run hmem => ?_, htiled.ascending⟩
    have := habove run hmem
    show hole.base.val < run.start.val
    omega
  · refine List.forall_mem_cons.mpr ⟨?_, fun run hmem => ?_⟩
    · refine List.forall_mem_cons.mpr ⟨Or.inl (Nat.le_refl _), fun hole' hmem => Or.inl ?_⟩
      have := hholes hole' hmem
      show hole.base.val ≤ hole'.base.val
      omega
    · exact List.forall_mem_cons.mpr
        ⟨Or.inr (hlimit ▸ habove run hmem), fun hole' => htiled.apart run hmem hole'⟩
  · intro x
    have hcovers : limit.val ≤ x ∧ x < top.val ↔ _ := htiled.covers x
    simp only [List.mem_cons, exists_eq_or_imp]
    rw [or_or_or_comm, ← hcovers]
    -- below the hole, in the hole, or above it
    simp only [Run.Holds, Hole.Holds]
    change firstFree.val < hole.base.val at hbase
    change hole.base.val + hole.length < top.val at hend
    omega

/-- The runs between the boundaries of a spaced layout, by induction on its holes. -/
theorem Spaced.runsBetween :
    ∀ {holes : List Hole} {firstFree : PhysAddr}, Spaced ⟨firstFree, top.val, holes⟩ →
      ∃ runs, Layout.runsBetween (boundaries ⟨firstFree, top.val, holes⟩ top) = .ok runs ∧
        TiledBy ⟨firstFree, top.val, holes⟩ runs := by
  intro holes
  induction holes with
  | nil =>
      intro firstFree h
      have hlt : firstFree.val < top.val := h.nonempty
      exact ⟨[⟨firstFree, top⟩], by simp [boundaries, Layout.runsBetween, hlt],
        tiledBy_single hlt⟩
  | cons hole holes ih =>
      intro firstFree h
      obtain ⟨hbase, hend⟩ := h.hole_between hole List.mem_cons_self
      change firstFree.val < hole.base.val at hbase
      change hole.base.val + hole.length < top.val at hend
      have hinRange := top.inRange
      obtain ⟨limit, hlimitOk, hlimit⟩ :=
        PhysAddr.exists_ofNat (n := hole.base.val + hole.length) (by omega)
      have hholeLimit : hole.limit = .ok limit := by
        unfold Hole.limit PhysAddr.add wordLimit
        rw [if_pos (by omega), hlimitOk]
      obtain ⟨runs, hruns, htiled⟩ := ih (h.above hlimit)
      simp only [boundaries] at hruns
      refine ⟨⟨firstFree, hole.base⟩ :: runs, ?_, htiled.below h hlimit⟩
      simp [boundaries, Layout.runsBetween, hholeLimit, hruns, hbase]

end Tilings

variable {l : Layout} {kernelEnd : PhysAddr} {ranges : List MemoryRange} {runs : List Run}

/-- **The usable runs of a spaced layout can be computed, and tile it with the holes.** -/
theorem Spaced.tiled (h : l.Spaced) (htop : l.totalSize < 0x10000000000000) :
    ∃ runs, l.usableRuns = .ok runs ∧ l.TiledBy runs := by
  obtain ⟨top, htopOk, hval⟩ := PhysAddr.exists_ofNat htop
  obtain ⟨firstFree, totalSize, holes⟩ := l
  obtain rfl : top.val = totalSize := hval
  obtain ⟨runs, hruns, htiled⟩ := Spaced.runsBetween h
  refine ⟨runs, ?_, htiled⟩
  simp only [usableRuns, Layout.top, htopOk]
  exact hruns

theorem mem_of_mem_runsBetween {run : Run} :
    ∀ {bs : List (Except Halt PhysAddr × PhysAddr)} {runs : List Run},
      Layout.runsBetween bs = .ok runs → run ∈ runs → (.ok run.start, run.limit) ∈ bs := by
  intro bs
  induction bs with
  | nil =>
      intro runs h hmem
      cases h
      cases hmem
  | cons boundary rest ih =>
      intro runs h hmem
      obtain ⟨start | start, limit⟩ := boundary
      · cases h
      · unfold Layout.runsBetween at h
        split at h
        · cases h
        · next rs hrs =>
            cases h
            split at hmem
            · rcases List.mem_cons.mp hmem with rfl | hmem
              · exact List.mem_cons_self
              · exact List.mem_cons_of_mem _ (ih hrs hmem)
            · exact List.mem_cons_of_mem _ (ih hrs hmem)

/-- Runs of a sound layout begin and end on frame boundaries. -/
theorem Sound.usableRuns_aligned (h : l.Sound kernelEnd ranges) (hruns : l.usableRuns = .ok runs)
    {run : Run} (hrun : run ∈ runs) : pageSize ∣ run.start.val ∧ pageSize ∣ run.limit.val := by
  unfold usableRuns at hruns
  split at hruns
  · cases hruns
  · next top htop =>
      obtain ⟨hstart, hlimit⟩ := List.of_mem_zip (mem_of_mem_runsBetween hruns hrun)
      constructor
      · rcases List.mem_cons.mp hstart with hfirst | hhole
        · rw [Except.ok.inj hfirst]
          exact h.firstFree_aligned
        · obtain ⟨hole, hmem, heq⟩ := List.mem_map.mp hhole
          unfold Hole.limit PhysAddr.add at heq
          split at heq
          · rw [PhysAddr.ofNat_eq_ok_iff.mp heq]
            exact Nat.dvd_add (h.hole_aligned hole hmem).1 (h.hole_aligned hole hmem).2
          · cases heq
      · rcases List.mem_append.mp hlimit with hhole | hlast
        · obtain ⟨hole, hmem, heq⟩ := List.mem_map.mp hhole
          exact heq ▸ (h.hole_aligned hole hmem).1
        · rw [List.mem_singleton.mp hlast, PhysAddr.ofNat_eq_ok_iff.mp htop]
          exact h.totalSize_aligned

/-- An aligned hole touches the frames whose first address it holds. -/
theorem Sound.touches_iff (h : l.Sound kernelEnd ranges) {hole : Hole} (hmem : hole ∈ l.holes)
    {i : Nat} : hole.Touches i ↔ hole.Holds (i * pageSize) := by
  obtain ⟨hbase, -⟩ := h.hole_aligned hole hmem
  unfold Hole.Touches Hole.Holds
  unfold pageSize at *
  omega

/-- **Frame by frame**, the runs are what no hole touches. -/
theorem TiledBy.hasFrame_iff (h : l.TiledBy runs) (hsound : l.Sound kernelEnd ranges)
    (hruns : l.usableRuns = .ok runs) {i : Nat} :
    (∃ run ∈ runs, run.HasFrame i) ↔
      l.firstFree.val ≤ i * pageSize ∧ i * pageSize < l.totalSize ∧
        ∀ hole ∈ l.holes, ¬ hole.Touches i := by
  constructor
  · rintro ⟨run, hmem, hlow, hhigh⟩
    have hheld : run.Holds (i * pageSize) := ⟨hlow, by unfold pageSize at *; omega⟩
    obtain ⟨hfirst, hlast⟩ := (h.covers _).mpr (Or.inl ⟨run, hmem, hheld⟩)
    refine ⟨hfirst, hlast, fun hole hhole htouch => ?_⟩
    obtain ⟨hbase, hlimit⟩ := (hsound.touches_iff hhole).mp htouch
    obtain ⟨-, hbelow⟩ := hheld
    rcases h.apart run hmem hole hhole with hapart | hapart <;> omega
  · rintro ⟨hfirst, hlast, huntouched⟩
    rcases (h.covers _).mp ⟨hfirst, hlast⟩ with ⟨run, hmem, hlow, hhigh⟩ | ⟨hole, hmem, hheld⟩
    · obtain ⟨-, haligned⟩ := hsound.usableRuns_aligned hruns hmem
      exact ⟨run, hmem, hlow, by unfold pageSize at *; omega⟩
    · exact absurd ((hsound.touches_iff hmem).mpr hheld) (huntouched hole hmem)

/-- Runs end below the top of memory. -/
theorem TiledBy.limit_le (h : l.TiledBy runs) {run : Run} (hmem : run ∈ runs) :
    run.limit.val ≤ l.totalSize := by
  have hnonempty := h.run_nonempty run hmem
  have hlast := ((h.covers (run.limit.val - 1)).mpr
    (Or.inl ⟨run, hmem, Nat.le_sub_one_of_lt hnonempty, Nat.sub_one_lt_of_lt hnonempty⟩)).2
  omega

/-! ### What a range does to a survey -/

namespace Survey

variable {s s' : Survey} {start stop : Nat} {step : Step}

/-- **What usable frames `[start, stop)` can do to a survey.** -/
inductive Reads (s : Survey) (start stop : Nat) : Step → Prop where
  /-- There is nothing in them that is not covered. -/
  | skipped (nothing : stop ≤ s.covered ∨ stop ≤ start) : Reads s start stop (.extended s)
  /-- They are the first ones found and lie above the kernel image. -/
  | opened (new : s.covered < stop) (nonempty : start < stop) (unfound : s.found = false)
      (gap : s.covered < start) {first : PhysAddr} (first_val : first.val = start) :
      Reads s start stop
        (.extended { s with firstFree := first, covered := stop, found := true })
  /-- They begin in what is covered, or right above it. -/
  | joined (new : s.covered < stop) (nonempty : start < stop) (touch : start ≤ s.covered) :
      Reads s start stop (.extended { s with covered := stop, found := true })
  /-- There is a gap below them, which becomes a hole. -/
  | spanned (new : s.covered < stop) (nonempty : start < stop) (found : s.found = true)
      (gap : s.covered < start) (room : s.holes.length < maxHoles) {base : PhysAddr}
      (base_val : base.val = s.covered) :
      Reads s start stop
        (.extended
          { s with
            holes := s.holes ++ [⟨base, start - s.covered⟩], covered := stop, found := true })
  /-- There is a gap below them, and no hole is left for it. -/
  | exhausted (new : s.covered < stop) (nonempty : start < stop) (found : s.found = true)
      (gap : s.covered < start) (full : maxHoles ≤ s.holes.length) :
      Reads s start stop .exhausted

theorem reads_of_cover (new : s.covered < stop) (nonempty : start < stop)
    (started : s.found = true ∨ start ≤ s.covered) (h : s.cover start stop = .ok step) :
    s.Reads start stop step := by
  unfold cover at h
  split at h
  · next hgap =>
      have hfound : s.found = true := started.resolve_right (Nat.not_le.mpr hgap)
      split at h
      · cases h
      · next base hbase =>
          split at h
          · next hroom =>
              cases h
              exact .spanned new nonempty hfound hgap hroom (PhysAddr.ofNat_eq_ok_iff.mp hbase)
          · next hfull =>
              cases h
              exact .exhausted new nonempty hfound hgap (Nat.not_lt.mp hfull)
  · next hnogap =>
      cases h
      exact .joined new nonempty (Nat.not_lt.mp hnogap)

theorem reads_of_advance (h : s.advance start stop = .ok step) : s.Reads start stop step := by
  unfold advance at h
  split at h
  · next hnothing =>
      cases h
      exact .skipped hnothing
  · next hsomething =>
      obtain ⟨hnew, hnonempty⟩ := not_or.mp hsomething
      rw [Nat.not_le] at hnew hnonempty
      unfold lift at h
      by_cases hopen : s.found = false ∧ s.covered < start
      · obtain ⟨hunfound, hgap⟩ := hopen
        simp only [hunfound, hgap, Bool.not_false, decide_true, Bool.and_self, if_true] at h
        cases hfirst : PhysAddr.ofNat start with
        | error e => simp [hfirst] at h
        | ok first =>
            simp only [hfirst, cover, Nat.lt_irrefl, if_false] at h
            cases h
            exact .opened hnew hnonempty hunfound hgap (PhysAddr.ofNat_eq_ok_iff.mp hfirst)
      · have hstarted : s.found = true ∨ start ≤ s.covered := by
          rw [not_and_or, Bool.not_eq_false, Nat.not_lt] at hopen
          exact hopen
        rw [if_neg (by simpa using hopen)] at h
        exact reads_of_cover hnew hnonempty hstarted h

theorem exists_lift (s : Survey) (hstart : start < 0x10000000000000) :
    ∃ s', s.lift start = .ok s' ∧ (s'.covered = s.covered ∨ s'.covered = start) := by
  obtain ⟨first, hfirst, -⟩ := PhysAddr.exists_ofNat hstart
  simp only [lift, hfirst]
  split
  · exact ⟨_, rfl, Or.inr rfl⟩
  · exact ⟨s, rfl, Or.inl rfl⟩

theorem exists_cover (s : Survey) (hcovered : s.covered < 0x10000000000000) :
    ∃ step, s.cover start stop = .ok step := by
  obtain ⟨base, hbase, -⟩ := PhysAddr.exists_ofNat hcovered
  simp only [cover, hbase]
  split
  · split <;> exact ⟨_, rfl⟩
  · exact ⟨_, rfl⟩

/-- Below the end of physical memory reading frames does not stop the kernel. -/
theorem exists_advance (s : Survey) (start : Nat) (hstop : stop < 0x10000000000000) :
    ∃ step, s.advance start stop = .ok step := by
  unfold advance
  split
  · exact ⟨_, rfl⟩
  · next hsomething =>
      obtain ⟨hnew, hnonempty⟩ := not_or.mp hsomething
      have hstart : start < 0x10000000000000 := by omega
      obtain ⟨s₁, hlift, hcovered⟩ := exists_lift s hstart
      simp only [hlift]
      exact exists_cover s₁ (by omega)

/-- **What the five keep, a survey keeps**, by induction on the ranges still to be read.  A
survey that leaves ranges unread has run out of holes. -/
theorem scan_keeps (Keeps : Survey → List MemoryRange → Prop)
    (passes : ∀ {s r rest}, r.usable = false → Keeps s (r :: rest) → Keeps s rest)
    (reads : ∀ {s s' r rest start stop}, r.usable = true → r.frameSpan = .ok (start, stop) →
      s.Reads start stop (.extended s') → Keeps s (r :: rest) → Keeps s' rest) :
    ∀ {rest : List MemoryRange} {s s' : Survey} {ignored : Option Nat}, Keeps s rest →
      s.scan rest = .ok (s', ignored) →
      ∃ unread, Keeps s' unread ∧
        (unread = [] ∨ maxHoles ≤ s'.holes.length ∧ s'.found = true) := by
  intro rest
  induction rest with
  | nil =>
      intro s s' ignored h hscan
      cases hscan
      exact ⟨[], h, Or.inl rfl⟩
  | cons r rest ih =>
      intro s s' ignored h hscan
      unfold Survey.scan at hscan
      split at hscan
      · next husable =>
          split at hscan
          · cases hscan
          · next start stop hspan =>
              split at hscan
              · cases hscan
              · next s₁ hadvance =>
                  exact ih (reads husable hspan (reads_of_advance hadvance) h) hscan
              · next hadvance =>
                  cases hscan
                  cases reads_of_advance hadvance with
                  | exhausted _ _ found _ full => exact ⟨r :: rest, h, Or.inr ⟨full, found⟩⟩
      · next hunusable => exact ih (passes (by simpa using hunusable) h) hscan

/-! ### Surveys leave space between holes -/

/-- **Spaced surveys.** -/
structure Spaced (s : Survey) : Prop where
  unfound : s.found = false → s.covered = s.firstFree.val ∧ s.holes = []
  found : s.found = true → s.sofar.Spaced

theorem spaced_initial {firstFree : PhysAddr} : (initial firstFree).Spaced :=
  ⟨fun _ => ⟨rfl, rfl⟩, fun hfound => by cases hfound⟩

/-- More usable memory at the top. -/
theorem spaced_grown {l : Layout} (h : l.Spaced) (hstop : l.totalSize < stop) :
    Layout.Spaced { l with totalSize := stop } where
  nonempty := Nat.lt_trans h.nonempty hstop
  hole_nonempty := h.hole_nonempty
  hole_between hole hmem :=
    ⟨(h.hole_between hole hmem).1, Nat.lt_trans (h.hole_between hole hmem).2 hstop⟩
  ascending := h.ascending

/-- A hole at the top, and usable memory above it. -/
theorem spaced_spanned {l : Layout} (h : l.Spaced) (hgap : l.totalSize < start)
    (hstop : start < stop) {base : PhysAddr} (hbase : base.val = l.totalSize) :
    Layout.Spaced
      { l with totalSize := stop, holes := l.holes ++ [⟨base, start - l.totalSize⟩] } := by
  have hgrown := spaced_grown h (Nat.lt_trans hgap hstop)
  refine ⟨hgrown.nonempty, ?_, ?_, ?_⟩
  · refine List.forall_mem_append.mpr ⟨h.hole_nonempty, fun hole hmem => ?_⟩
    obtain rfl := List.mem_singleton.mp hmem
    exact Nat.sub_pos_of_lt hgap
  · refine List.forall_mem_append.mpr ⟨hgrown.hole_between, fun hole hmem => ?_⟩
    obtain rfl := List.mem_singleton.mp hmem
    have hlow := h.nonempty
    simp only [hbase]
    exact ⟨hlow, by omega⟩
  · refine List.pairwise_append.mpr ⟨h.ascending, List.pairwise_singleton _ _, ?_⟩
    intro hole hmem hole' hlast
    obtain rfl := List.mem_singleton.mp hlast
    exact hbase ▸ (h.hole_between hole hmem).2

theorem Spaced.reads (h : s.Spaced) (hreads : s.Reads start stop (.extended s')) :
    s'.Spaced := by
  cases hreads with
  | skipped => exact h
  | opened _ nonempty unfound _ first_val =>
      obtain ⟨-, hholes⟩ := h.unfound unfound
      refine ⟨fun hf => (by cases hf), fun _ => ⟨first_val ▸ nonempty, ?_, ?_, ?_⟩⟩
      · simp [sofar, hholes]
      · simp [sofar, hholes]
      · simp [sofar, hholes]
  | joined new =>
      refine ⟨fun hf => (by cases hf), fun _ => ?_⟩
      cases hfound : s.found with
      | false =>
          obtain ⟨hcovered, hholes⟩ := h.unfound hfound
          refine ⟨?_, ?_, ?_, ?_⟩
          · exact hcovered ▸ new
          · simp [sofar, hholes]
          · simp [sofar, hholes]
          · simp [sofar, hholes]
      | true => exact spaced_grown (h.found hfound) new
  | spanned _ nonempty found gap _ base_val =>
      exact ⟨fun hf => (by cases hf), fun _ => spaced_spanned (h.found found) gap nonempty base_val⟩

end Survey

/-- A survey that ends with a layout has found a usable frame, and the layout is what is
covered. -/
theorem ofRanges_eq_some (h : ofRanges ranges kernelEnd = .ok (some l)) :
    ∃ firstFree s ignored, kernelEnd.alignUp = .ok firstFree ∧
      (Survey.initial firstFree).scan ranges = .ok (s, ignored) ∧ s.found = true ∧
      l = s.sofar := by
  unfold ofRanges survey at h
  split at h
  · cases h
  · next firstFree haligned =>
      split at h
      · cases h
      · next s ignored hscan =>
          simp only [Except.map, Except.ok.injEq, Survey.layout?] at h
          split at h
          · next hfound =>
              cases h
              exact ⟨firstFree, s, ignored, haligned, hscan, hfound, rfl⟩
          · cases h

/-- **A layout read off a list of ranges is spaced.** -/
theorem spaced_of_ofRanges (h : ofRanges ranges kernelEnd = .ok (some l)) : l.Spaced := by
  obtain ⟨firstFree, s, ignored, -, hscan, hfound, rfl⟩ := ofRanges_eq_some h
  obtain ⟨-, hspaced, -⟩ :=
    Survey.scan_keeps (fun s _ => s.Spaced) (fun _ hs => hs)
      (fun _ _ hreads hs => hs.reads hreads) Survey.spaced_initial hscan
  exact hspaced.found hfound

end Layout

end DemandPaging
