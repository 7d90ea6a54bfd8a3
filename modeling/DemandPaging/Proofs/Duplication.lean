import DemandPaging.Proofs.Ownership

/-!
# Faithful duplicates

A duplicate of a space is built on two routes.  If the source was loaded, the load is prepared
once more; then the pages of the source are copied over, wherever they came from.  What results
is a faithful copy in frames of its own, and frames suffice for it exactly if they suffice for
the pages of the source (`History.duplicate_faithful`).

**Why the first route maps nothing too much.**  A space that has been prepared keeps all pages
of its load, through every fault and every growth, and its regions are closed.  So the pages of
the second preparation are among those of the source (`AddressSpace.mem_copiedPages_iff`).  A
space whose preparation failed half way is another matter: nothing is claimed of it.

**Why the threshold is exact.**  Frames are neither lost nor found while the copy is made.  If it
is complete it has as many frames as the source; if frames ran out, all that were free are in the
remnant, and a page of the source is missing there.  The heap is asked twice, before the copying
begins (`AddressSpace.CopyFits`): the table of the copy never has to grow, as it has as many slots
as that of the source.
-/

namespace DemandPaging

namespace PageTable

variable {t t' : PageTable}

/-- A table has at most as many mappings as one that maps all its pages. -/
theorem length_le_of_maps (h : t.WellFormed)
    (hsub : ∀ p, (t.find? p).isSome = true → (t'.find? p).isSome = true) :
    t.entries.length ≤ t'.entries.length := by
  have hpages : t.entries.map PageEntry.page ⊆ t'.entries.map PageEntry.page := by
    intro p hp
    exact PageRow.mem_pages_iff.mpr (hsub p (PageRow.mem_pages_iff.mp hp))
  simpa using h.pages.length_le_of_subset hpages

/-- A table has fewer mappings if it lacks a page. -/
theorem length_lt_of_maps (h : t.WellFormed)
    (hsub : ∀ p, (t.find? p).isSome = true → (t'.find? p).isSome = true)
    (hp : ¬ (t.find? p).isSome = true) (hp' : (t'.find? p).isSome = true) :
    t.entries.length < t'.entries.length := by
  have hnodup : (p :: t.entries.map PageEntry.page).Nodup :=
    List.nodup_cons.mpr ⟨fun hmem => hp (PageRow.mem_pages_iff.mp hmem), h.pages⟩
  have hpages : p :: t.entries.map PageEntry.page ⊆ t'.entries.map PageEntry.page := by
    refine List.cons_subset.mpr ⟨PageRow.mem_pages_iff.mpr hp', fun q hq => ?_⟩
    exact PageRow.mem_pages_iff.mpr (hsub q (PageRow.mem_pages_iff.mp hq))
  have hlength := hnodup.length_le_of_subset hpages
  rwa [List.length_cons, List.length_map, List.length_map] at hlength

theorem length_entries_le_capacity (t : PageTable) : t.entries.length ≤ t.capacity := by
  rw [← t.sized]
  exact List.length_filterMap_le _ _

end PageTable

namespace AddressSpace

/-- **Duplicates**: what a copy has of its source, and what making it did to the kernel. -/
structure IsDuplicate (source copy : AddressSpace) (k k' : Kernel) : Prop where
  id : copy.id = k.nextSpace
  /-- The regions in the order of their declaration, and the room of their list. -/
  regions : copy.regions = source.regions
  loaded : copy.loaded = source.loaded
  bounds : copy.bounds = source.bounds
  capacity : copy.table.capacity = source.table.capacity
  maps_iff : ∀ p, (copy.table.find? p).isSome = true ↔ (source.table.find? p).isSome = true
  /-- Each page has the flags and the bytes it has in the source. -/
  pages : ∀ p e, source.table.find? p = some e → ∃ e', copy.table.find? p = some e' ∧
    e'.flags = e.flags ∧ k'.memory.contents e'.frame = k.memory.contents e.frame
  taken : ∀ f ∈ copy.frames, k.allocator.state? f = some .free
  /-- The bytes of the source stay the same. -/
  untouched : ∀ f ∈ source.frames, k'.memory.contents f = k.memory.contents f

/-- The heap has room for the list of regions and the page table of a copy. -/
def CopyFits (source : AddressSpace) (k : Kernel) : Prop :=
  k.grants source.regions.capacity = true ∧
    (k.asked source.regions.capacity).grants source.table.capacity = true

variable {k : Kernel} {live : List AddressSpace} {held : List Block} {tally : Tally}
  {source : AddressSpace}

theorem CopyFits.of_generous (h : k.IsGenerous) : source.CopyFits k :=
  ⟨h.grants _, (h.of_suffix (k.heap_asked_suffix _)).grants _⟩

/-- The pages of a copy are those of its source, if what was loaded has been prepared. -/
theorem mem_copiedPages_iff (hready : source.loaded = true → source.IsPrepared) (p : Page) :
    p ∈ copiedPages source ↔ (source.table.find? p).isSome = true := by
  unfold copiedPages replayedPages
  rw [List.mem_append, PageRow.mem_pages_iff]
  constructor
  · rintro (hp | hp)
    · by_cases hloaded : source.loaded = true
      · rw [if_pos hloaded] at hp
        exact (hready hloaded).2 p hp
      · rw [if_neg hloaded] at hp
        cases hp
    · exact hp
  · exact Or.inr

/-- Where a copy starts from: the shell of the source, under a number of its own. -/
def workspace (source : AddressSpace) (k : Kernel) : Workspace :=
  ⟨{ k with nextSpace := k.nextSpace + 1 }, source.shell k.nextSpace⟩

theorem custody_workspace (h : Custody k live held tally) (source : AddressSpace) :
    Custody (source.workspace k).kernel ((source.workspace k).space :: live) held tally :=
  h.add rfl rfl

theorem not_maps_workspace (p : Page) : ¬ (source.workspace k).Maps p := by
  unfold Workspace.Maps
  rw [← PageRow.mem_pages_iff]
  simp [workspace, shell]

/-- On the way to a copy all frames are taken from the free ones. -/
theorem freeFrames_workspace (h : Custody k live held tally) {w : Workspace}
    (hpath : (source.workspace k).Path w) :
    w.kernel.allocator.freeFrames + w.space.table.entries.length = k.allocator.freeFrames := by
  have hcost := (custody_workspace h source).freeFrames_path hpath
  simpa [workspace, shell] using hcost

/-- A complete copy has as many mappings as its source. -/
theorem length_of_isCopy (h : Custody k live held tally) (hs : source ∈ live)
    (hready : source.loaded = true → source.IsPrepared) {w : Workspace}
    (hpath : (source.workspace k).Path w) (hcopy : IsCopy source (source.workspace k) w) :
    w.space.table.entries.length = source.table.entries.length := by
  have hmaps : ∀ p, w.Maps p ↔ (source.table.find? p).isSome = true := by
    intro p
    rw [hcopy.filled.maps_iff, mem_copiedPages_iff hready, or_iff_right (not_maps_workspace p)]
  have htable := ((custody_workspace h source).path hpath).tables w.space List.mem_cons_self
  refine Nat.le_antisymm ?_ ?_
  · exact PageTable.length_le_of_maps htable fun p => (hmaps p).mp
  · exact PageTable.length_le_of_maps (h.tables source hs) fun p => (hmaps p).mpr

/-- **A complete copy is a duplicate.** -/
theorem isDuplicate_of_isCopy (h : Custody k live held tally) (hs : source ∈ live)
    (hready : source.loaded = true → source.IsPrepared) {w : Workspace}
    (hpath : (source.workspace k).Path w) (hcopy : IsCopy source (source.workspace k) w) :
    source.IsDuplicate w.space k w.kernel := by
  have hgrows := hpath.grows
  have hlength := length_of_isCopy h hs hready hpath hcopy
  -- the frames of the copy are its own
  have hnodup := ((custody_workspace h source).path hpath).nodup_frames
  rw [List.flatMap_cons, List.nodup_append] at hnodup
  have hown : ∀ f ∈ source.frames, f ∉ w.space.frames := by
    intro f hf hcopied
    exact hnodup.2.2 f hcopied f (List.mem_flatMap.mpr ⟨source, hs, hf⟩) rfl
  have hseparate : w.Separate source.table.entries :=
    ⟨hnodup.1, fun e he => hown e.frame (List.mem_map_of_mem he)⟩
  refine
    { id := hgrows.id, regions := hcopy.filled.regions, loaded := hcopy.loaded,
      bounds := hcopy.bounds, capacity := ?_, maps_iff := ?_, pages := ?_, taken := ?_,
      untouched := fun f hf => hgrows.untouched f (hown f hf) (Or.inl (h.keeps hs hf)) }
  · have hcapacity : (source.workspace k).space.table.capacity = source.table.capacity := by
      simp [workspace, shell]
    have hroom := source.table.length_entries_le_capacity
    rw [hgrows.capacity (by rw [hlength, hcapacity]; exact hroom), hcapacity]
  · intro p
    show w.Maps p ↔ _
    rw [hcopy.filled.maps_iff, mem_copiedPages_iff hready, or_iff_right (not_maps_workspace p)]
  · intro p e hp
    obtain ⟨hmem, rfl⟩ := PageRow.mem_of_find? hp
    exact hcopy.pages (fun d hd => h.keeps hs (List.mem_map_of_mem hd)) hseparate
      (h.tables source hs).pages e hmem
  · intro f hf
    rcases ((custody_workspace h source).takesFree hpath).taken f hf with hold | hfree
    · simp [workspace, shell, frames] at hold
    · exact hfree

/-- A table that is full on the way to a copy has as many mappings as its source, at least. -/
theorem length_le_of_cramped {n : Nat} {w : Workspace}
    (cramped : (source.workspace k).Cramped n w) :
    source.table.entries.length ≤ w.space.table.entries.length := by
  have hcapacity : (source.workspace k).space.table.capacity = source.table.capacity := by
    simp [workspace, shell]
  rw [cramped.full, cramped.capacity, hcapacity]
  exact Nat.le_trans source.table.length_entries_le_capacity
    (PageRow.le_iterate_grownCapacity n _)

/-- A duplicate has as many mappings as its source. -/
theorem IsDuplicate.length_eq {copy : AddressSpace} {k' : Kernel}
    (h : source.IsDuplicate copy k k') (hsource : source.table.WellFormed)
    (hcopy : copy.table.WellFormed) : copy.table.entries.length = source.table.entries.length :=
  Nat.le_antisymm (PageTable.length_le_of_maps hcopy fun p => (h.maps_iff p).mp)
    (PageTable.length_le_of_maps hsource fun p => (h.maps_iff p).mpr)

/-- If a copy cannot be completed, there were fewer frames than the source has pages. -/
theorem freeFrames_lt_of_starved (h : Custody k live held tally)
    (hready : source.loaded = true → source.IsPrepared) {w : Workspace}
    (hpath : (source.workspace k).Path w) {e : Abort}
    (hstarved : Starved (copiedPages source) (source.workspace k) e w) :
    k.allocator.freeFrames < source.table.entries.length := by
  have hcustody := (custody_workspace h source).path hpath
  -- the remnant lacks a page of the source
  have hfewer : w.space.table.entries.length < source.table.entries.length := by
    obtain ⟨p, hp, hmissing⟩ := hstarved.missing
    refine PageTable.length_lt_of_maps (hcustody.tables w.space List.mem_cons_self) (fun q hq => ?_)
      hmissing ((mem_copiedPages_iff hready p).mp hp)
    rcases hstarved.maps q hq with hold | hcopied
    · exact absurd hold (not_maps_workspace q)
    · exact (mem_copiedPages_iff hready q).mp hcopied
  have hcost := freeFrames_workspace h hpath
  cases hstarved.shortage with
  | frames hexhausted =>
      -- all frames that were free are in the remnant now
      have hnone := hcustody.freeFrames_eq_zero hexhausted
      omega
  | room cramped => exact absurd hfewer (Nat.not_lt.mpr (length_le_of_cramped cramped))
  | stranded cramped _ => exact absurd hfewer (Nat.not_lt.mpr (length_le_of_cramped cramped))

/-- **Duplicating**: with room for the list and the table, and a frame for each page of the source,
the answer is a duplicate, and otherwise memory runs out. -/
theorem ends_duplicate (h : Custody k live held tally) (hs : source ∈ live)
    (hready : source.loaded = true → source.IsPrepared) :
    Ends source.duplicate k
      (fun copy k' => (source.CopyFits k ∧
        source.table.entries.length ≤ k.allocator.freeFrames) ∧ source.IsDuplicate copy k k')
      fun e _ => ¬ (source.CopyFits k ∧
        source.table.entries.length ≤ k.allocator.freeFrames) ∧ e = .failed .outOfMemory := by
  unfold duplicate CopyFits
  rw [ends_bind, Kernel.ends_claim]
  split
  case isFalse hrefused => exact ⟨fun hfits => hrefused hfits.1.1, rfl⟩
  case isTrue hlist =>
  rw [ends_bind, Kernel.ends_claim]
  split
  case isFalse hrefused => exact ⟨fun hfits => hrefused hfits.1.2, rfl⟩
  case isTrue htable =>
  replace h := (h.asked source.regions.capacity).asked source.table.capacity
  unfold Kernel.freshSpace
  simp only [ends_bind, ends_modifyGet]
  rw [SpaceM.ends_attempt]
  refine Ends.mono (walks_copyFrom (w := source.workspace _) source rfl rfl) ?_ ?_
  · rintro _ w ⟨hpath, hcopy⟩
    have hlength := length_of_isCopy h hs hready hpath hcopy
    have hcost : _ = k.allocator.freeFrames := freeFrames_workspace h hpath
    have hdup := isDuplicate_of_isCopy h hs hready hpath hcopy
    simp only [ends_bind, Kernel.ends_record, ends_pure]
    refine ⟨⟨⟨hlist, htable⟩, by omega⟩, ?_⟩
    -- what the heap is asked, and what is reported afterwards, changes no bytes
    exact ⟨hdup.id, hdup.regions, hdup.loaded, hdup.bounds, hdup.capacity, hdup.maps_iff,
      hdup.pages, hdup.taken, hdup.untouched⟩
  · rintro e w ⟨hpath, -, hstarved⟩
    have hfew := freeFrames_lt_of_starved h hready hpath hstarved
    change k.allocator.freeFrames < _ at hfew
    have hcustody := (custody_workspace h source).path hpath
    obtain rfl := hstarved.shortage.of_built hcustody.isInitialized
    simp only [ends_bind, Kernel.ends_record, Kernel.ends_fail]
    exact Ends.mono (hcustody.record (e := .duplicationFailed .outOfMemory) rfl).ends_destroy
      (fun _ _ _ => ⟨fun hfits => absurd hfew (Nat.not_lt.mpr hfits.2), trivial⟩)
      fun _ _ h' => h'.elim

end AddressSpace

/-- **Forking** gives the child a duplicate of its parent's space. -/
theorem Process.ends_fork_duplicate {k : Kernel} {live : List AddressSpace} {held : List Block}
    {tally : Tally} (h : Custody k live held tally) {parent : Process} {s : AddressSpace}
    (hspace : parent.space = some s) (hs : s ∈ live) (hready : s.loaded = true → s.IsPrepared) :
    Ends parent.fork k (fun child k' => ∃ copy, child.space = some copy ∧ s.IsDuplicate copy k k')
      fun _ _ => True := by
  unfold fork
  simp only [hspace, ends_bind]
  refine Ends.mono (AddressSpace.ends_duplicate h hs hready) ?_ fun _ _ _ => trivial
  rintro copy k₁ ⟨-, hdup⟩
  unfold forkWith create Kernel.freshPid
  simp only [ends_bind, ends_modifyGet, Kernel.ends_record, ends_pure]
  exact ⟨copy, rfl, hdup.id, hdup.regions, hdup.loaded, hdup.bounds, hdup.capacity, hdup.maps_iff,
    hdup.pages, hdup.taken, hdup.untouched⟩

/-- Duplicating a space with a name puts the copy behind all others. -/
theorem Machine.ends_duplicateSpace {m : Machine} {name : SpaceName} {s : AddressSpace}
    (hs : m.space? name = some s) {ok : AddressSpace → Kernel → Prop} {ab : Abort → Kernel → Prop}
    (h : Ends s.duplicate m.kernel ok ab) :
    Ends (answer (.duplicateSpace name)) m
      (fun reply m' => ∃ copy, reply = .spaceCreated m.spaces.length copy.id ∧
        m'.spaces = m.spaces ++ [some copy] ∧ m'.processes = m.processes ∧ ok copy m'.kernel)
      fun e m' => ∃ abort, e = .aborted abort ∧ ab abort m'.kernel := by
  unfold answer
  simp only [ends_bind, ends_get, ends_orUnknown, hs, liftM_eq, ends_onKernel, ends_addSpace,
    ends_pure]
  exact Ends.mono h (fun copy k' hok => ⟨copy, rfl, rfl, trivial, hok⟩)
    fun e k' hab => ⟨e, rfl, hab⟩

/-- A space behind all others changes no name. -/
theorem Machine.space?_of_append {m m' : Machine} {copy : AddressSpace}
    (hspaces : m'.spaces = m.spaces ++ [some copy]) (hprocesses : m'.processes = m.processes) :
    m'.space? (.space m.spaces.length) = some copy ∧
      ∀ name s, m.space? name = some s → m'.space? name = some s := by
  constructor
  · simp [space?, hspaces]
  · intro name s hs
    cases name with
    | space n =>
        have hcell : m.spaces[n]? = some (some s) := Option.join_eq_some_iff.mp hs
        obtain ⟨hlt, -⟩ := List.getElem?_eq_some_iff.mp hcell
        simp only [space?, hspaces]
        rw [List.getElem?_append_left hlt, hcell]
        rfl
    | process n =>
        simp only [space?, hprocesses]
        exact hs

/-- The space that an event says was prepared, and its number of pages. -/
def Event.preparation? : Event → Option (SpaceId × Nat)
  | .prepared i n => some (i, n)
  | _ => none

namespace History

variable {start h : History} {rs : List Request} {s : AddressSpace}

/-! ### Preparations are remembered -/

/-- Preparing a space, if it succeeds, is on record. -/
theorem hasPrepared_next {name : SpaceName} {reply : Reply}
    (hs : h.machine.space? name = some s)
    (done : (h.machine.step (.space name .prepareLoad)).1 = .ok reply) :
    (h.next (.space name .prepareLoad)).machine.kernel.HasPrepared s.id := by
  have hends : Ends (Machine.answer (.space name .prepareLoad)) h.machine
      (fun _ m => m.kernel.HasPrepared s.id) fun _ _ => True := by
    refine Machine.ends_onSpace (fun s' hs' => ?_) trivial
    obtain rfl : s' = s := Option.some.inj (hs'.symm.trans hs)
    unfold Machine.answerSpace
    simp only [ends_bind]
    refine Ends.mono (AddressSpace.walks_prepareLoad.and AddressSpace.ends_prepareLoad) ?_
      fun _ _ _ => trivial
    rintro _ w ⟨⟨hpath, -⟩, hprepared⟩
    exact hpath.grows.id ▸ hprepared
  unfold next
  unfold Machine.step at done ⊢
  cases hanswer : h.machine.answer (.space name .prepareLoad) with
  | ok reply' m' => exact hends.of_ok hanswer
  | error e m' =>
      rw [hanswer] at done
      cases done

/-- What was prepared once has been prepared for good. -/
theorem Run.hasPrepared (run : Run start rs h) {tally : Tally} (hc : start.InCustody tally)
    {i : SpaceId} (hi : start.machine.kernel.HasPrepared i) :
    h.machine.kernel.HasPrepared i := by
  have hrecalled : start.InCustody { tally with prepared := [i] } := by
    refine ⟨hc.follows, hc.conserved, hc.tables, hc.numbered, hc.distinct, hc.prepared, ?_⟩
    rintro j hj
    obtain rfl := List.mem_singleton.mp hj
    exact hi
  obtain ⟨room', -, hc'⟩ := run.inCustody hrecalled
  exact hc'.remembered i List.mem_cons_self

/-- **Preparations are remembered**: however a run goes on after the load of a space has been
prepared, that it was stays on record. -/
theorem Run.hasPrepared_of_prepareLoad {m : Machine} (fresh : m.IsFresh) {rs' : List Request}
    (run : Run ⟨m, []⟩ rs start) {name : SpaceName} (hs : start.machine.space? name = some s)
    {reply : Reply} (done : (start.machine.step (.space name .prepareLoad)).1 = .ok reply)
    (later : Run (start.next (.space name .prepareLoad)) rs' h) :
    h.machine.kernel.HasPrepared s.id := by
  have alive : Machine.hasHalted (start.machine.step (.space name .prepareLoad)).1 = false := by
    rw [done]
    rfl
  have prepared := run.next (.space name .prepareLoad) trivial alive
  obtain ⟨room, -, hc⟩ := prepared.inCustody (inCustody_of_isFresh fresh)
  exact later.hasPrepared hc (hasPrepared_next hs done)

/-! ### Duplicating at any time -/

/-- **Faithful duplicates.**  At any point of a history from a fresh machine let `s` be a space
that is not loaded, or whose preparation has succeeded at some time, whatever has happened to it
since.  Where the heap has room for a list of regions and a page table more, duplicating it
succeeds exactly if there are as many free frames as it has pages; it fails for want of memory
otherwise.  The new space is a duplicate of `s` with a number that no space has, and `s` is still
there as it was. -/
theorem duplicate_faithful {m : Machine} (fresh : m.IsFresh) (run : Run ⟨m, []⟩ rs h)
    {name : SpaceName} (hs : h.machine.space? name = some s)
    (ready : s.loaded = false ∨ h.machine.kernel.HasPrepared s.id) :
    ((∃ reply, (h.machine.step (.duplicateSpace name)).1 = .ok reply) ↔
      s.CopyFits h.machine.kernel ∧
        s.table.entries.length ≤ h.machine.kernel.allocator.freeFrames) ∧
    (∀ refusal, (h.machine.step (.duplicateSpace name)).1 = .error refusal →
      refusal = .aborted (.failed .outOfMemory)) ∧
    ∀ reply m', h.machine.step (.duplicateSpace name) = (.ok reply, m') →
      ∃ copy, reply = .spaceCreated h.machine.spaces.length copy.id ∧
        m'.space? (.space h.machine.spaces.length) = some copy ∧ m'.space? name = some s ∧
        (∀ t ∈ h.machine.live, t.id ≠ copy.id) ∧
        s.IsDuplicate copy h.machine.kernel m'.kernel := by
  obtain ⟨room, -, hc⟩ := run.inCustody (inCustody_of_isFresh fresh)
  have hlive := Machine.mem_live_of_space? hs
  -- custody keeps what was reported as prepared prepared
  have hready : s.loaded = true → s.IsPrepared := by
    intro hloaded
    rcases ready with hnot | hprepared
    · rw [hnot] at hloaded
      cases hloaded
    · exact (hc.prepared s.id hprepared).2 s hlive rfl
  have hends := Machine.ends_duplicateSpace hs (AddressSpace.ends_duplicate hc hlive hready)
  cases hanswer : h.machine.answer (.duplicateSpace name) with
  | ok reply m' =>
      obtain ⟨copy, rfl, hspaces, hprocesses, henough, hdup⟩ := hends.of_ok hanswer
      obtain ⟨hcopy, hnames⟩ := Machine.space?_of_append hspaces hprocesses
      have hstep : h.machine.step (.duplicateSpace name) =
          (.ok (.spaceCreated h.machine.spaces.length copy.id), m') := by
        simp only [Machine.step, hanswer]
      rw [hstep]
      refine ⟨⟨fun _ => henough, fun _ => ⟨_, rfl⟩⟩, ?_, ?_⟩
      · rintro refusal ⟨⟩
      · rintro reply m'' ⟨⟩
        refine ⟨copy, rfl, hcopy, hnames name s hs, fun t ht => ?_, hdup⟩
        rw [hdup.id]
        exact Nat.ne_of_lt (hc.numbered t ht)
  | error refusal m' =>
      obtain ⟨abort, rfl, hfew, rfl⟩ := hends.of_error hanswer
      have hstep : h.machine.step (.duplicateSpace name) =
          (.error (.aborted (.failed .outOfMemory)), m') := by
        simp only [Machine.step, hanswer]
      rw [hstep]
      refine ⟨⟨?_, fun henough => absurd henough hfew⟩, ?_, ?_⟩
      · rintro ⟨reply, ⟨⟩⟩
      · rintro refusal ⟨⟩
        rfl
      · rintro reply m'' ⟨⟩

/-- Duplicating over sixteen frames: a space of one region is prepared, written to and completed,
and its stack grows by a page.  The duplicate has all four pages. -/
theorem duplicate_faithful_sixteen_frames :
    ∃ rs h s copy m', Run ⟨sixteenFrames, []⟩ rs h ∧ h.machine.space? (.space 0) = some s ∧
      s.table.entries.length = 4 ∧ h.machine.kernel.allocator.freeFrames = 9 ∧
      h.machine.step (.duplicateSpace (.space 0)) = (.ok (.spaceCreated 1 2), m') ∧
      m'.space? (.space 1) = some copy ∧ s.IsDuplicate copy h.machine.kernel m'.kernel := by
  have declared : Run ⟨sixteenFrames, []⟩ _ _ :=
    (Run.start.next .createSpace trivial (by decide +kernel)).next
      (.space (.space 0) (.declareRegion ⟨0x1000, by decide⟩ 0x1000 ⟨true, true, false⟩)) trivial
        (by decide +kernel)
  have loaded : Run ⟨sixteenFrames, []⟩ _ _ :=
    ((declared.next (.space (.space 0) .prepareLoad) trivial (by decide +kernel)).next
      (.space (.space 0) (.write ⟨0x1004, by decide⟩ [1, 2, 3])) trivial (by decide +kernel)).next
      (.space (.space 0) .completeLoad) trivial (by decide +kernel)
  obtain ⟨rs, h, run, hspace, hfree, hnumbers, hheap, hprepared⟩ : ∃ rs h,
      Run ⟨sixteenFrames, []⟩ rs h ∧
      (h.machine.space? (.space 0)).map (fun s => (s.id, s.table.entries.length)) = some (1, 4) ∧
      h.machine.kernel.allocator.freeFrames = 9 ∧
      (h.machine.spaces.length, h.machine.kernel.nextSpace) = (1, 2) ∧ h.machine.kernel.heap = [] ∧
      h.machine.kernel.journal.toList.filterMap Event.preparation? = [(1, 3)] :=
    ⟨_, _, loaded.next (.fault (.owner (.space 0)) .write ⟨0x6fffffffe000, by decide⟩) trivial
      (by decide +kernel), by decide +kernel, by decide +kernel, by decide +kernel,
      by decide +kernel, by decide +kernel⟩
  have hgenerous : h.machine.kernel.IsGenerous := .of_heap_eq_nil hheap
  obtain ⟨s, hs, hsource⟩ := Option.map_eq_some_iff.mp hspace
  obtain ⟨hid, hlength⟩ := Prod.mk.inj hsource
  obtain ⟨hspaces, hnext⟩ := Prod.mk.inj hnumbers
  have hready : h.machine.kernel.HasPrepared s.id := by
    obtain ⟨e, he, hpair⟩ := List.mem_filterMap.mp (hprepared ▸ List.mem_singleton_self (1, 3))
    unfold Event.preparation? at hpair
    split at hpair
    · cases hpair
      exact ⟨3, Array.mem_toList_iff.mp (hid ▸ he)⟩
    · cases hpair
  obtain ⟨hiff, -, hsuccess⟩ := duplicate_faithful isFresh_sixteenFrames run hs (Or.inr hready)
  obtain ⟨reply, hreply⟩ := hiff.mpr
    ⟨.of_generous hgenerous, by rw [hlength, hfree]; decide⟩
  have hstep : h.machine.step (.duplicateSpace (.space 0)) =
      (.ok reply, (h.machine.step (.duplicateSpace (.space 0))).2) := by rw [← hreply]
  obtain ⟨copy, rfl, hcopy, -, -, hdup⟩ := hsuccess reply _ hstep
  rw [hspaces, hdup.id, hnext] at hstep
  rw [hspaces] at hcopy
  exact ⟨rs, h, s, copy, _, run, hs, hlength, hfree, hstep, hcopy, hdup⟩

end History

end DemandPaging
