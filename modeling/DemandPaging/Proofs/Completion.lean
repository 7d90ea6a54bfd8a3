import DemandPaging.Proofs.Asides
import DemandPaging.Proofs.Overlaps

/-!
# Completing a load

Completing a load goes through the regions in the order of declaration, and through the pages of
each, and sets the flags of every page on its way.  It looks each page up anew, passes over those
that are not mapped, and overwrites what an earlier region has set.  What comes of it is a change
of each entry by itself: the entry gets the flags of the last region that covers its page, and
keeps its own if there is none (`AddressSpace.completeLoad_table`).

**The loop.**  Pages that have been passed are described by the set of them, whatever their order
and number: setting one page after another is setting all pages of the list at once
(`PageTable.setFlagsEach_eq`).  So the inner loop over the pages of a region is one pass over the
table, and the outer loop is a sequence of such passes, of which an entry remembers the last that
reached it (`AddressSpace.applyPermissions_eq`).

**Nothing else.**  As the entries are changed one by one and only in their flags, every slot holds
the page and the frame that it held.  The kernel is not asked for anything, so the frame map, the
bytes of the frames and the mapping cache are what they were, and completing once more finds all
flags set (`Machine.completion_exact`).
-/

namespace DemandPaging

/-- Two changes that agree on the values of a row are the same to it. -/
theorem Slots.map_congr {α : Type} {s : Slots α} {f g : α → α} (h : ∀ a ∈ s.values, f a = g a) :
    s.map f = s.map g := by
  unfold Slots.map
  refine congrArg Slots.mk (List.map_congr_left fun c hc => ?_)
  cases c with
  | none => rfl
  | some a => exact congrArg some (h a (List.mem_filterMap.mpr ⟨_, hc, rfl⟩))

namespace PageTable

/-! ### Setting flags page by page -/

/-- Changes every entry. -/
def mapEntries (t : PageTable) (f : PageEntry → PageEntry) : PageTable :=
  ⟨{ t.toPageRow with slots := t.slots.map f }, (Slots.size_map ..).trans t.sized⟩

/-- Sets the flags of one page after another, and passes over those that are not mapped. -/
def setFlagsEach (t : PageTable) (ps : List Page) (flags : EntryFlags) : PageTable :=
  ps.foldl (fun t p => (t.setFlags p flags).2) t

/-- **The loop**: sets the flags of each page of each region, in the order of declaration. -/
def permitEach (t : PageTable) (rs : List Region) : PageTable :=
  rs.foldl (fun t r => t.setFlagsEach r.pages r.flags) t

theorem mapEntries_congr {t : PageTable} {f g : PageEntry → PageEntry}
    (h : ∀ e ∈ t.entries, f e = g e) : t.mapEntries f = t.mapEntries g := by
  unfold mapEntries
  simp only [Slots.map_congr h]

theorem mapEntries_id (t : PageTable) : (t.mapEntries fun e => e) = t := by
  simp [mapEntries, Slots.map]

theorem mapEntries_mapEntries (t : PageTable) (f g : PageEntry → PageEntry) :
    (t.mapEntries f).mapEntries g = t.mapEntries fun e => g (f e) := by
  simp [mapEntries, Slots.map, Function.comp_def]

/-- Setting the flags of a page changes the entries of this page, if there are any. -/
theorem setFlags_eq_mapEntries (t : PageTable) (p : Page) (flags : EntryFlags) :
    (t.setFlags p flags).2 = t.mapEntries fun e => if e.page = p then { e with flags } else e := by
  cases hfind : t.find? p with
  | some e =>
      rw [setFlags_eq_update hfind]
      rfl
  | none =>
      have hother : ∀ e ∈ t.entries, e = if e.page = p then { e with flags } else e := by
        intro e he
        rw [PageRow.find?_eq_entries_find?, List.find?_eq_none] at hfind
        rw [if_neg]
        simpa using hfind e he
      have hsame : (t.setFlags p flags).2 = t := by
        unfold setFlags PageRow.setFlags
        simp only [hfind]
      rw [hsame]
      exact t.mapEntries_id.symm.trans (mapEntries_congr hother)

/-- **Setting page after page** is setting all pages of the list at once. -/
theorem setFlagsEach_eq (flags : EntryFlags) :
    ∀ (ps : List Page) (t : PageTable), t.setFlagsEach ps flags =
      t.mapEntries fun e => if e.page ∈ ps then { e with flags } else e
  | [], t => by simpa [setFlagsEach] using t.mapEntries_id.symm
  | p :: rest, t => by
      show ((t.setFlags p flags).2).setFlagsEach rest flags = _
      rw [setFlagsEach_eq flags rest, setFlags_eq_mapEntries, mapEntries_mapEntries]
      refine mapEntries_congr fun e _ => ?_
      by_cases hp : e.page = p
      · -- an entry whose flags are set once more has the same flags afterwards
        have hmem : e.page ∈ p :: rest := hp ▸ List.mem_cons_self
        rw [if_pos hp, if_pos hmem]
        exact ite_self _
      · rw [if_neg hp]
        simp only [List.mem_cons, hp, false_or]

end PageTable

/-- The entry with the flags of the last region that covers its page, or with its own. -/
def RegionList.settle (l : RegionList) (e : PageEntry) : PageEntry :=
  { e with flags := ((l.lastCovering? e.page).map Region.flags).getD e.flags }

namespace AddressSpace

variable {s s' : AddressSpace} {p : Page}

/-! ### The loop over the regions -/

/-- The inner loop sets the flags of all pages that the region covers. -/
theorem setFlagsEach_pages (t : PageTable) (r : Region) :
    t.setFlagsEach r.pages r.flags = t.setFlagsWhere r.covers r.flags := by
  rw [PageTable.setFlagsEach_eq]
  simp only [Region.mem_pages_iff]
  rfl

/-- The passes over the table are the loop over regions and pages. -/
theorem applyPermissions_eq_permitEach (t : PageTable) (rs : List Region) :
    applyPermissions t rs = t.permitEach rs := by
  unfold applyPermissions PageTable.permitEach
  simp only [setFlagsEach_pages]

/-- **After some of the regions** each entry has the flags that the last of them set, and its own if
none of them covers its page. -/
theorem applyPermissions_eq :
    ∀ (rs : List Region) (t : PageTable), applyPermissions t rs = t.mapEntries fun e =>
      { e with flags :=
          rs.foldl (fun flags r => if r.covers e.page then r.flags else flags) e.flags }
  | [], t => t.mapEntries_id.symm
  | r :: rest, t => by
      show applyPermissions (t.setFlagsWhere r.covers r.flags) rest = _
      rw [applyPermissions_eq rest]
      refine (t.mapEntries_mapEntries _ _).trans (PageTable.mapEntries_congr fun e _ => ?_)
      rw [List.foldl_cons]
      split <;> rfl

/-- **Completing** changes each entry by itself. -/
theorem completeLoad_table (s : AddressSpace) :
    s.completeLoad.table = s.table.mapEntries s.regions.settle := by
  refine (applyPermissions_eq s.regions.regions s.table).trans
    (PageTable.mapEntries_congr fun e _ => ?_)
  rw [foldl_flags]
  rfl

/-- Flags that have been set are not set to anything else. -/
theorem completeLoad_completeLoad (s : AddressSpace) :
    s.completeLoad.completeLoad = s.completeLoad := by
  have htable : s.completeLoad.completeLoad.table = s.completeLoad.table := by
    rw [completeLoad_table s.completeLoad, completeLoad_table s, PageTable.mapEntries_mapEntries]
    refine PageTable.mapEntries_congr fun e _ => ?_
    show s.regions.settle (s.regions.settle e) = s.regions.settle e
    unfold RegionList.settle
    cases s.regions.lastCovering? e.page <;> rfl
  exact congrArg (fun t => { s with table := t }) htable

/-! ### Completions -/

/-- **Completions**: what a space is after its load was completed. -/
structure IsCompletion (s s' : AddressSpace) : Prop where
  /-- The table is what the loop over regions and pages makes of it. -/
  loop : s'.table = s.table.permitEach s.regions.regions
  id : s'.id = s.id
  regions : s'.regions = s.regions
  bounds : s'.bounds = s.bounds
  loaded : s'.loaded = s.loaded
  inUse : s'.table.inUse = s.table.inUse
  /-- Every slot that was empty is empty, and every other one has the page and the frame it had. -/
  slots : s'.table.slots.cells.map (Option.map fun e => (e.page, e.frame)) =
    s.table.slots.cells.map (Option.map fun e => (e.page, e.frame))
  /-- The last region wins. -/
  covered : ∀ p e, s.table.find? p = some e → (∃ r ∈ s.regions.regions, r.covers p = true) →
    ∃ r, s.regions.IsLast p.start r ∧ s'.table.find? p = some { e with flags := r.flags }
  uncovered : ∀ p, (∀ r ∈ s.regions.regions, r.covers p = false) →
    s'.table.find? p = s.table.find? p
  unmapped : ∀ p, s.table.find? p = none ↔ s'.table.find? p = none
  /-- The bytes of each page, in whatever memory. -/
  contents : ∀ m p, ((s'.view m).pages p).map Prod.snd = ((s.view m).pages p).map Prod.snd

/-- A page that some region covers has the flags of the last of them. -/
theorem find?_completeLoad_of_covered {e : PageEntry} (mapped : s.table.find? p = some e)
    (covered : ∃ r ∈ s.regions.regions, r.covers p = true) :
    ∃ r, s.regions.IsLast p.start r ∧
      s.completeLoad.table.find? p = some { e with flags := r.flags } := by
  have hpage : p.start.page = p := p.page_start
  obtain ⟨r, hr, hcovers⟩ := covered
  obtain ⟨-, last, hlast⟩ := RegionList.exists_first_last
    ⟨r, hr, (r.contains_eq_covers p.start).trans (hpage.symm ▸ hcovers)⟩
  have hfind := find?_completeLoad_of_isLast hlast (hpage.symm ▸ mapped)
  rw [hpage] at hfind
  exact ⟨last, hlast, hfind⟩

/-- A page that no region covers keeps its entry. -/
theorem find?_completeLoad_of_uncovered
    (uncovered : ∀ r ∈ s.regions.regions, r.covers p = false) :
    s.completeLoad.table.find? p = s.table.find? p := by
  have hnone : s.regions.lastCovering? p = none := by
    refine List.find?_eq_none.mpr fun r hr => ?_
    rw [uncovered r (List.mem_reverse.mp hr)]
    exact Bool.false_ne_true
  rw [find?_completeLoad, hnone]
  exact Option.map_id'

theorem isCompletion_completeLoad (s : AddressSpace) : s.IsCompletion s.completeLoad where
  loop := applyPermissions_eq_permitEach s.table s.regions.regions
  id := rfl
  regions := rfl
  bounds := rfl
  loaded := rfl
  inUse := by
    rw [completeLoad_table]
    rfl
  slots := by
    rw [completeLoad_table]
    unfold PageTable.mapEntries Slots.map
    rw [List.map_map]
    refine List.map_congr_left fun c _ => ?_
    cases c <;> rfl
  covered _ _ := find?_completeLoad_of_covered
  uncovered _ := find?_completeLoad_of_uncovered
  unmapped p := by
    rw [find?_completeLoad, Option.map_eq_none_iff]
  contents m p := by
    rw [view_completeLoad]
    show Option.map Prod.snd (Option.map _ _) = _
    rw [Option.map_map]
    rfl

end AddressSpace

/-- A run ends with a space of some name that passes a test, if the space of that name does. -/
theorem History.Run.exists_named {start h : History} {rs : List Request} (run : Run start rs h)
    (name : SpaceName) (test : AddressSpace → Bool)
    (hany : (h.machine.space? name).any test = true) :
    ∃ rs h s, Run start rs h ∧ h.machine.space? name = some s ∧ test s = true := by
  obtain ⟨s, named, hs⟩ := (Option.any_eq_true _ _).mp hany
  exact ⟨rs, h, s, run, named, hs⟩

namespace Machine

variable {m : Machine} {name : SpaceName} {s : AddressSpace}

/-- Replacing a space twice is replacing it by the second. -/
theorem putSpace_putSpace (m : Machine) (name : SpaceName) (s t : AddressSpace) :
    (m.putSpace name s).putSpace name t = m.putSpace name t := by
  cases name with
  | space n => simp [putSpace]
  | process n =>
      simp only [putSpace, List.modify_modify_eq]
      rfl

/-- Completing the load of a space replaces the space and does nothing else to the machine. -/
theorem step_completeLoad (named : m.space? name = some s) :
    m.step (.space name .completeLoad) =
      (.ok (.pageEntries s.completeLoad.table.entries), m.putSpace name s.completeLoad) := by
  have hanswer : m.answer (.space name .completeLoad) =
      .ok (.pageEntries s.completeLoad.table.entries) (m.putSpace name s.completeLoad) := by
    show onSpace name (answerSpace .completeLoad) m = _
    unfold onSpace
    rw [named]
    cases name <;> rfl
  unfold step
  rw [hanswer]

/-- **Completing a load.**  In any machine, let the load of any space be completed.  That answers,
and the space is then a completion of what it was: each mapped page that some region covers has the
flags of the last region, in the order of declaration, that covers it, every other mapped page has
the flags it had, and the pages that are mapped, their frames and slots, their bytes, the bounds and
the regions are what they were.  The kernel is untouched, with the frame map, the memory and the
mapping cache in it, and so is everything else in the machine.  Completing the load a second time
gives the same answer and the same machine. -/
theorem completion_exact (named : m.space? name = some s) :
    ∃ s' m', m.step (.space name .completeLoad) = (.ok (.pageEntries s'.table.entries), m') ∧
      s.IsCompletion s' ∧ m'.space? name = some s' ∧ m' = m.putSpace name s' ∧
      m'.kernel = m.kernel ∧ m'.tables = m.tables ∧
      (∀ other, other ≠ name → m'.space? other = m.space? other) ∧
      m'.step (.space name .completeLoad) = (.ok (.pageEntries s'.table.entries), m') := by
  have hnamed : (m.putSpace name s.completeLoad).space? name = some s.completeLoad :=
    space?_putSpace_self named _
  refine ⟨s.completeLoad, m.putSpace name s.completeLoad, step_completeLoad named,
    s.isCompletion_completeLoad, hnamed, rfl, kernel_putSpace m name _, ?_,
    fun other hne => space?_putSpace_of_ne hne _, ?_⟩
  · cases name <;> rfl
  · rw [step_completeLoad hnamed, s.completeLoad_completeLoad, putSpace_putSpace]

/-- Two regions over sixteen frames that share a page, where the first may be read and the second
written too.  Of the three pages two have been touched: completing makes the shared one writable,
and the third is still not there. -/
theorem completion_exact_sixteen_frames :
    ∃ (rs : List Request) (h : History) (s s' : AddressSpace) (m' : Machine),
      History.Run ⟨History.sixteenFrames, []⟩ rs h ∧ h.machine.space? (.space 0) = some s ∧
      s.table.entries.map (fun e => (e.page.index, e.flags)) =
        [(1, ⟨0x8000000000000005⟩), (2, ⟨0x8000000000000005⟩)] ∧
      h.machine.step (.space (.space 0) .completeLoad) =
        (.ok (.pageEntries s'.table.entries), m') ∧ m'.kernel = h.machine.kernel ∧
      s'.table.entries.map (fun e => (e.page.index, e.flags)) =
        [(1, ⟨0x8000000000000005⟩), (2, ⟨0x8000000000000007⟩)] ∧
      s'.table.find? ⟨3, by decide⟩ = none ∧
      m'.step (.space (.space 0) .completeLoad) = (.ok (.pageEntries s'.table.entries), m') := by
  have declared : History.Run ⟨History.sixteenFrames, []⟩ _ _ :=
    ((History.Run.start.next .createSpace trivial (by decide +kernel)).next
      (.space (.space 0) (.declareRegion ⟨0x1000, by decide⟩ 0x2000 ⟨true, false, false⟩)) trivial
        (by decide +kernel)).next
      (.space (.space 0) (.declareRegion ⟨0x2000, by decide⟩ 0x2000 ⟨true, true, false⟩)) trivial
        (by decide +kernel)
  have touched : History.Run ⟨History.sixteenFrames, []⟩ _ _ :=
    (declared.next (.fault (.owner (.space 0)) .read ⟨0x1008, by decide⟩) trivial
      (by decide +kernel)).next (.fault (.owner (.space 0)) .read ⟨0x2008, by decide⟩) trivial
        (by decide +kernel)
  obtain ⟨rs, h, s, run, named, hs⟩ := touched.exists_named (.space 0)
    (fun s => decide (s.table.entries.map (fun e => (e.page.index, e.flags)) =
        [(1, ⟨0x8000000000000005⟩), (2, ⟨0x8000000000000005⟩)] ∧
      (s.table.permitEach s.regions.regions).entries.map (fun e => (e.page.index, e.flags)) =
        [(1, ⟨0x8000000000000005⟩), (2, ⟨0x8000000000000007⟩)] ∧
      s.table.find? ⟨3, by decide⟩ = none)) (by decide +kernel)
  obtain ⟨hbefore, hloop, hthird⟩ := of_decide_eq_true hs
  obtain ⟨s', m', hstep, hcompletion, -, -, hkernel, -, -, hagain⟩ := completion_exact named
  rw [← hcompletion.loop] at hloop
  exact ⟨rs, h, s, s', m', run, named, hbefore, hstep, hkernel, hloop,
    (hcompletion.unmapped _).mp hthird, hagain⟩

end Machine

end DemandPaging
