import DemandPaging.PageFault
import DemandPaging.Proofs.LiveSpaces
import DemandPaging.Proofs.Views

/-!
# Page faults, exactly

What a fault does, case by case.  `Backing` says where the mapping comes from that a fault at a
covered address ends with: it is there already, or a free frame is mapped now.  `Resolution` lists
the six ends of a fault: three refusals that change nothing, a page table without room, a cache
without a slot, and a cached mapping.  Reports apart, an end determines the space and the kernel
completely (`ends_resolve`), so whatever is to be known about faults is read off these cases.

**Without room** in the page table the frame that was taken goes back.  While booting it cannot, and
that stops the kernel (`Stranded`).  There is no other way in which a fault does.

**As seen by the program** a fault is a function of the view (`View.fault`), unless frames, room or
cache slots run out.  No other space has a say in it.
-/

namespace DemandPaging

namespace Workspace

/-- The workspace after stack or heap have grown to a page. -/
def grow (w : Workspace) (p : Page) (c : Coverage) : Workspace :=
  { w with space := w.space.grow p c }

/-- The workspace with another cache. -/
def withCache (w : Workspace) (c : MappingCache) : Workspace :=
  w.withKernel { w.kernel with cache := c }

/-- Reports do not matter for the cache. -/
theorem Quiet.withCache {w w' : Workspace} (h : w.Quiet w') (c : MappingCache) :
    (w.withCache c).Quiet (w'.withCache c) :=
  ⟨h.space, congrArg (fun k : Kernel => { k with cache := c }) h.kernel⟩

end Workspace

namespace AddressSpace

variable {s : AddressSpace} {p : Page} {c : Coverage}

/-- Growing changes the bounds at most. -/
theorem grow_eq (s : AddressSpace) (p : Page) (c : Coverage) :
    s.grow p c = { s with bounds := (s.grow p c).bounds } := by
  unfold grow
  split
  · rfl
  · split <;> rfl
  · split <;> rfl

@[simp] theorem table_grow : (s.grow p c).table = s.table := by rw [grow_eq]

@[simp] theorem id_grow : (s.grow p c).id = s.id := by rw [grow_eq]

@[simp] theorem regions_grow : (s.grow p c).regions = s.regions := by rw [grow_eq]

@[simp] theorem loaded_grow : (s.grow p c).loaded = s.loaded := by rw [grow_eq]

end AddressSpace

/-- Whether it is a space that is running, and one that passes a test. -/
def Current.passes (c : Current) (test : AddressSpace → Bool) : Bool :=
  match c with
  | .within s => test s
  | _ => false

namespace PageFault

open SpaceM

variable {access : Access} {a : VirtAddr} {c : Coverage} {w w₁ : Workspace} {e : PageEntry}
  {r : Except MemoryError Unit}

/-! ### The cases -/

/-- **Backing**: the mapping behind a covered address, and the workspace once there is one. -/
inductive Backing (a : VirtAddr) (c : Coverage) (w : Workspace) : PageEntry → Workspace → Prop where
  | found {e : PageEntry} (mapped : w.space.table.find? a.page = some e) : Backing a c w e w
  | made {f : Frame} {rest : Allocator} {t : PageTable} {grown : Option Nat}
      (unmapped : w.space.table.find? a.page = none) (room : w.HasRoom a.page)
      (taken : w.kernel.allocator.allocate 1 = .ok (some f, rest))
      (inserted : w.space.table.insert true ⟨a.page, f, c.flags⟩ = .ok (t, grown)) :
      Backing a c w ⟨a.page, f, c.flags⟩ ((w.install a.page rest f t).grow a.page c)

/-- The flags that decide about an access: those of the mapping, or those that it would get. -/
def flagsBehind (w : Workspace) (a : VirtAddr) (c : Coverage) : EntryFlags :=
  ((w.space.table.find? a.page).map PageEntry.flags).getD c.flags

/-- **Resolutions**: how a fault ends, and with which workspace. -/
inductive Resolution (access : Access) (a : VirtAddr) (w : Workspace) :
    Except MemoryError Unit → Workspace → Prop where
  | uncovered (h : w.space.coverage a = none) :
      Resolution access a w (.error (.addressingFault a)) w
  | forbidden {c : Coverage} (covered : w.space.coverage a = some c)
      (h : permits (flagsBehind w a c) access = false) :
      Resolution access a w (.error (.protectionViolation a)) w
  | starved {c : Coverage} (covered : w.space.coverage a = some c)
      (unmapped : w.space.table.find? a.page = none)
      (permitted : permits (flagsBehind w a c) access = true) (h : w.IsExhausted) :
      Resolution access a w (.error .outOfMemory) w
  | cramped {c : Coverage} {f : Frame} {rest back : Allocator}
      (covered : w.space.coverage a = some c) (unmapped : w.space.table.find? a.page = none)
      (permitted : permits (flagsBehind w a c) access = true) (h : ¬ w.HasRoom a.page)
      (taken : w.kernel.allocator.allocate 1 = .ok (some f, rest))
      (returned : rest.free f = .ok back) :
      Resolution access a w (.error .outOfMemory) (w.turnBack a.page back f)
  | full {c : Coverage} {e : PageEntry} {w₁ : Workspace} (covered : w.space.coverage a = some c)
      (backing : Backing a c w e w₁) (permitted : permits (flagsBehind w a c) access = true)
      (refused : w₁.kernel.cache.slotFor? ⟨w₁.space.id, a.page, e.frame, e.flags⟩ = none) :
      Resolution access a w (.error .cacheFull) w₁
  | cached {c : Coverage} {e : PageEntry} {w₁ : Workspace} {slot : Nat} {cache : MappingCache}
      (covered : w.space.coverage a = some c) (backing : Backing a c w e w₁)
      (permitted : permits (flagsBehind w a c) access = true)
      (placed : w₁.kernel.cache.insert ⟨w₁.space.id, a.page, e.frame, e.flags⟩ =
        .ok (slot, cache)) :
      Resolution access a w (.ok ()) (w₁.withCache cache)

/-- **Stranded**: there is no room for the mapping, and the frame that was taken cannot go back.
Nothing has been cached. -/
structure Stranded (a : VirtAddr) (w : Workspace) (k : Kernel) : Prop where
  cramped : ¬ w.HasRoom a.page
  stuck : ∃ f rest, w.kernel.allocator.allocate 1 = .ok (some f, rest) ∧
    rest.free f = .error .freedWhileBooting
  cache : k.cache = w.kernel.cache

/-- Only while booting is a frame stranded. -/
theorem Stranded.booting {k : Kernel} (h : Stranded a w k) :
    w.kernel.allocator.isInitialized = false := by
  obtain ⟨f, rest, taken, hstuck⟩ := h.stuck
  have hbooting := Allocator.booting_of_free_eq_error hstuck
  rcases Allocator.taken_cases taken with ⟨m, -, -, rfl⟩ | ⟨hbefore, -⟩
  · cases hbooting
  · exact hbefore

/-- Only where the heap refuses is a frame stranded. -/
theorem Stranded.not_generous {k : Kernel} (h : Stranded a w k) : ¬ w.kernel.IsGenerous :=
  fun hgenerous => h.cramped (.of_generous hgenerous a.page)

/-- Whether there is room does not depend on reports. -/
theorem hasRoom_quiet (h : w.Quiet w₁) (p : Page) : w₁.HasRoom p ↔ w.HasRoom p := by
  unfold Workspace.HasRoom Kernel.grants
  rw [h.space, h.heap]

theorem Stranded.of_quiet {k : Kernel} (h : Stranded a w₁ k) (hquiet : w.Quiet w₁) :
    Stranded a w k := by
  obtain ⟨hcramped, hstuck, hcache⟩ := h
  rw [hasRoom_quiet hquiet] at hcramped
  rw [hquiet.allocator] at hstuck
  exact ⟨hcramped, hstuck, hcache.trans hquiet.cache⟩

/-- **Handling**: a write to a page held read-only is refused at once, all else is resolved. -/
inductive Handling (access : Access) (a : VirtAddr) (w : Workspace) :
    Except MemoryError Unit → Workspace → Prop where
  | refused (h : access = .readOnlyWrite) :
      Handling access a w (.error (.protectionViolation a)) w
  | resolved (h : access ≠ .readOnlyWrite) {r : Except MemoryError Unit} {w₁ : Workspace}
      (resolution : Resolution access a w r w₁) : Handling access a w r w₁

/-- **Handling with reports** before and after it. -/
def Handles (access : Access) (a : VirtAddr) (w : Workspace) (r : Except MemoryError Unit)
    (w' : Workspace) : Prop :=
  ∃ w₁ w₂, w.Quiet w₁ ∧ Handling access a w₁ r w₂ ∧ w₂.Quiet w'

namespace Backing

/-- The space maps the page as it says, and every other page as before. -/
theorem find? (h : Backing a c w e w₁) (q : Page) :
    w₁.space.table.find? q = if a.page = q then some e else w.space.table.find? q := by
  cases h with
  | found mapped =>
      split
      · next hq => rw [← hq, mapped]
      · rfl
  | made unmapped room taken inserted =>
      show ((w.install _ _ _ _).space.grow a.page c).table.find? q = _
      rw [AddressSpace.table_grow]
      exact PageTable.find?_insert inserted q

/-- Its flags are those that decided about the access. -/
theorem flags (h : Backing a c w e w₁) : e.flags = flagsBehind w a c := by
  unfold flagsBehind
  cases h with
  | found mapped => rw [mapped]; rfl
  | made unmapped room taken inserted => rw [unmapped]; rfl

/-- What no mapping changes. -/
theorem same (h : Backing a c w e w₁) : w₁.space.id = w.space.id ∧
    w₁.space.regions = w.space.regions ∧ w₁.space.loaded = w.space.loaded ∧
    w₁.kernel.cache = w.kernel.cache := by
  cases h with
  | found mapped => exact ⟨rfl, rfl, rfl, rfl⟩
  | made unmapped room taken inserted =>
      exact ⟨AddressSpace.id_grow, AddressSpace.regions_grow, AddressSpace.loaded_grow, rfl⟩

end Backing

/-! ### Every fault is one of the cases -/

theorem ends_checkAccess (flags : EntryFlags) :
    Ends (onKernel (checkAccess access flags a)) w
      (fun _ w' => w' = w ∧ permits flags access = true)
      (fun e w' => e = .failed (.protectionViolation a) ∧ permits flags access = false ∧
        w.Quiet w') := by
  unfold checkAccess
  simp only [ends_onKernel, ends_ite, ends_bind, Kernel.ends_record, Kernel.ends_fail, ends_pure]
  split
  · next h => exact ⟨trivial, h⟩
  · next h => exact ⟨trivial, by simpa using h, .report w (.forbidden access a)⟩

theorem ends_backing (covered : w.space.coverage a = some c) :
    Ends (backing access a c) w
      (fun b w' => ∃ e w₁, Backing a c w e w₁ ∧ w₁.Quiet w' ∧ b = (e.frame, e.flags) ∧
        (w₁ = w ∨ permits e.flags access = true))
      (fun e w' => (∃ error w₁, e = .failed error ∧ Resolution access a w (.error error) w₁ ∧
        w₁.Quiet w') ∨ e = .halted .freedWhileBooting ∧ Stranded a w w'.kernel) := by
  unfold backing
  simp only [ends_bind, ends_space]
  split
  · next e hlookup =>
      simp only [liftM_eq, ends_bind, ends_onKernel, Kernel.ends_record, ends_pure]
      exact ⟨e, w, .found hlookup, .report w (.alreadyMapped a.page), rfl, Or.inl rfl⟩
  · next hlookup =>
      have hunmapped : w.space.table.find? a.page = none := hlookup
      have hflags : flagsBehind w a c = c.flags := by
        unfold flagsBehind
        rw [hunmapped]
        rfl
      unfold bringIn
      simp only [liftM_eq, ends_bind]
      refine Ends.mono (ends_checkAccess c.flags) ?_ ?_
      · rintro _ w' ⟨rfl, hpermitted⟩
        rw [ends_reporting]
        unfold AddressSpace.mapCovered
        rw [ends_bind]
        refine Ends.mono (AddressSpace.ends_mapZeroed c.flags hunmapped) ?_ ?_
        · rintro f _ ⟨rest, t, grown, room, taken, inserted, rfl⟩
          have hquiet := Workspace.Quiet.reportGrowth (w'.install a.page rest f t) grown
          simp only [ends_bind, ends_modifySpace, ends_onKernel, Kernel.ends_record, ends_pure]
          refine ⟨_, _, .made hunmapped room taken inserted, ⟨?_, ?_⟩, rfl, Or.inr hpermitted⟩
          · rw [hquiet.space]
            rfl
          · exact hquiet.kernel
        · intro e w₂ hfails
          have hpermitted' := hflags ▸ hpermitted
          cases hfails with
          | exhausted hexhausted =>
              exact Or.inl ⟨_, _, rfl, .starved covered hunmapped hpermitted' hexhausted,
                .report _ _⟩
          | cramped hcramped taken back =>
              exact Or.inl ⟨_, _, rfl, .cramped covered hunmapped hpermitted' hcramped taken back,
                .report _ _⟩
          | stranded hcramped taken back => exact Or.inr ⟨rfl, hcramped, ⟨_, _, taken, back⟩, rfl⟩
      · rintro e w' ⟨rfl, hforbidden, hquiet⟩
        exact Or.inl ⟨_, _, rfl, .forbidden covered (hflags ▸ hforbidden), hquiet⟩

theorem ends_fillCache (e : PageEntry) :
    Ends (fillCache a e.frame e.flags) w
      (fun _ w' => ∃ slot cache,
        w.kernel.cache.insert ⟨w.space.id, a.page, e.frame, e.flags⟩ = .ok (slot, cache) ∧
        (w.withCache cache).Quiet w')
      (fun error w' => error = .failed .cacheFull ∧
        w.kernel.cache.slotFor? ⟨w.space.id, a.page, e.frame, e.flags⟩ = none ∧ w.Quiet w') := by
  unfold fillCache
  simp only [ends_bind, ends_space, ends_discard, ends_reporting]
  unfold Kernel.cacheMapping
  simp only [ends_onKernel, ends_bind, ends_get, Kernel.ends_orFail, ends_modify,
    Kernel.ends_record, ends_pure]
  cases hinsert : w.kernel.cache.insert ⟨w.space.id, a.page, e.frame, e.flags⟩ with
  | error error =>
      obtain ⟨hrefused, rfl⟩ := MappingCache.insert_eq_error_iff.mp hinsert
      exact ⟨rfl, hrefused, .report w (.cacheFull a)⟩
  | ok placed => exact ⟨placed.1, placed.2, rfl, .report (w.withCache placed.2) _⟩

/-- **Resolving a fault** ends in one of the cases, unless a frame is stranded. -/
theorem ends_resolve :
    Ends (resolve access a) w
      (fun _ w' => ∃ w₁, Resolution access a w (.ok ()) w₁ ∧ w₁.Quiet w')
      (fun e w' => (∃ error w₁, e = .failed error ∧ Resolution access a w (.error error) w₁ ∧
        w₁.Quiet w') ∨ e = .halted .freedWhileBooting ∧ Stranded a w w'.kernel) := by
  unfold resolve
  simp only [ends_bind, ends_space]
  cases hcoverage : w.space.coverage a with
  | none =>
      simp only [liftM_eq, ends_bind, ends_onKernel, Kernel.ends_record, Kernel.ends_fail]
      exact Or.inl ⟨_, w, rfl, .uncovered hcoverage, .report w (.uncovered a)⟩
  | some c =>
      simp only [liftM_eq, ends_bind]
      refine Ends.mono (ends_backing hcoverage) ?_ ?_
      · rintro _ w₂ ⟨e, w₁, hbacking, hquiet, rfl, hchecked⟩
        refine Ends.mono (ends_checkAccess e.flags) ?_ ?_
        · rintro _ w₃ ⟨rfl, hpermitted⟩
          rw [hbacking.flags] at hpermitted
          refine Ends.mono (ends_fillCache e) ?_ ?_
          · rintro _ w₄ ⟨slot, cache, hplaced, hquiet'⟩
            rw [hquiet.cache, hquiet.space] at hplaced
            exact ⟨_, .cached hcoverage hbacking hpermitted hplaced,
              (hquiet.withCache cache).trans hquiet'⟩
          · rintro error w₄ ⟨rfl, hrefused, hquiet'⟩
            rw [hquiet.cache, hquiet.space] at hrefused
            exact Or.inl ⟨_, w₁, rfl, .full hcoverage hbacking hpermitted hrefused,
              hquiet.trans hquiet'⟩
        · rintro error w₃ ⟨rfl, hforbidden, hquiet'⟩
          -- a mapping that is refused now was there before, since a new one has been checked
          rcases hchecked with rfl | hpermitted
          · rw [hbacking.flags] at hforbidden
            exact Or.inl ⟨_, w₁, rfl, .forbidden hcoverage hforbidden, hquiet.trans hquiet'⟩
          · rw [hforbidden] at hpermitted
            cases hpermitted
      · exact fun _ _ h => h

/-- **Handling a fault** ends in one of the cases, unless a frame is stranded. -/
theorem ends_handle_within (access : Access) (a : VirtAddr) (s : AddressSpace) {k : Kernel} :
    Ends (handle access a (.within s)) k
      (fun p k' => ∃ s', p.2 = .within s' ∧ Handles access a ⟨k, s⟩ p.1 ⟨k', s'⟩)
      fun e k' => e = .halted .freedWhileBooting ∧ Stranded a ⟨k, s⟩ k' := by
  have hreport := Workspace.Quiet.report ⟨k, s⟩ (.faulted access a)
  unfold handle
  simp only [ends_bind, Kernel.ends_record, ends_ite, ends_pure]
  split
  · next h => exact ⟨s, rfl, _, _, hreport, .refused h, .report _ (.readOnlyWrite a)⟩
  · next h =>
      rw [ends_attempt]
      refine Ends.mono ends_resolve ?_ ?_
      · rintro _ w' ⟨w₁, hresolution, hquiet⟩
        exact ⟨w'.space, rfl, _, w₁, hreport, .resolved h hresolution, hquiet⟩
      · rintro e w' (⟨error, w₁, rfl, hresolution, hquiet⟩ | ⟨rfl, hstranded⟩)
        · exact ⟨w'.space, rfl, _, w₁, hreport, .resolved h hresolution, hquiet⟩
        · exact ⟨rfl, hstranded.of_quiet hreport⟩

/-! ### Reports put last -/

/-- Reports before a mapping was made could as well come after it. -/
theorem Backing.ofQuiet (hquiet : w.Quiet w₁) (h : Backing a c w₁ e w') :
    ∃ w₂, Backing a c w e w₂ ∧ w₂.Quiet w' := by
  cases h with
  | found mapped => exact ⟨w, .found (hquiet.space ▸ mapped), hquiet⟩
  | @made f rest t grown unmapped room taken inserted =>
      refine ⟨_, .made (hquiet.space ▸ unmapped) ((hasRoom_quiet hquiet a.page).mp room)
        (hquiet.allocator ▸ taken) (hquiet.space ▸ inserted), ⟨?_, ?_⟩⟩
      · show AddressSpace.grow { w₁.space with table := t } a.page c = _
        rw [hquiet.space]
        rfl
      · show { w₁.kernel.asked (w₁.space.table.wanted a.page) with
            allocator := rest, memory := w₁.kernel.memory.zero f, journal := #[] } = _
        rw [hquiet.space]
        exact congrArg (fun k : Kernel => { k.asked (w.space.table.wanted a.page) with
          allocator := rest, memory := k.memory.zero f }) hquiet.kernel

/-- Which flags decide does not depend on reports. -/
theorem flagsBehind_quiet (h : w.Quiet w₁) (a : VirtAddr) (c : Coverage) :
    flagsBehind w₁ a c = flagsBehind w a c := by
  unfold flagsBehind
  rw [h.space]

/-- Reports before a fault was resolved could as well come after it. -/
theorem Resolution.ofQuiet (hquiet : w.Quiet w₁) (h : Resolution access a w₁ r w') :
    ∃ w₂, Resolution access a w r w₂ ∧ w₂.Quiet w' := by
  have hspace := hquiet.space
  cases h with
  | uncovered h => exact ⟨w, .uncovered (hspace ▸ h), hquiet⟩
  | forbidden covered h =>
      rw [flagsBehind_quiet hquiet] at h
      exact ⟨w, .forbidden (hspace ▸ covered) h, hquiet⟩
  | starved covered unmapped permitted h =>
      rw [flagsBehind_quiet hquiet] at permitted
      refine ⟨w, .starved (hspace ▸ covered) (hspace ▸ unmapped) permitted ?_, hquiet⟩
      unfold Workspace.IsExhausted at h ⊢
      rwa [hquiet.allocator] at h
  | @cramped c f rest back covered unmapped permitted h taken returned =>
      rw [flagsBehind_quiet hquiet] at permitted
      refine ⟨_, .cramped (hspace ▸ covered) (hspace ▸ unmapped) permitted
        ((hasRoom_quiet hquiet a.page).not.mp h) (hquiet.allocator ▸ taken) returned, hspace, ?_⟩
      show { w₁.kernel.asked (w₁.space.table.wanted a.page) with
          allocator := back, memory := w₁.kernel.memory.zero f, journal := #[] } = _
      rw [hquiet.space]
      exact congrArg (fun k : Kernel => { k.asked (w.space.table.wanted a.page) with
        allocator := back, memory := k.memory.zero f }) hquiet.kernel
  | full covered backing permitted refused =>
      rw [flagsBehind_quiet hquiet] at permitted
      obtain ⟨w₂, backing', hafter⟩ := backing.ofQuiet hquiet
      rw [hafter.cache, hafter.space] at refused
      exact ⟨w₂, .full (hspace ▸ covered) backing' permitted refused, hafter⟩
  | @cached c e _ slot cache covered backing permitted placed =>
      rw [flagsBehind_quiet hquiet] at permitted
      obtain ⟨w₂, backing', hafter⟩ := backing.ofQuiet hquiet
      rw [hafter.cache, hafter.space] at placed
      exact ⟨_, .cached (hspace ▸ covered) backing' permitted placed, hafter.withCache cache⟩

/-- **Handling with its reports put last.** -/
theorem Handles.handling (h : Handles access a w r w') :
    ∃ w₁, Handling access a w r w₁ ∧ w₁.Quiet w' := by
  obtain ⟨w₁, w₂, hbefore, hhandling, hafter⟩ := h
  cases hhandling with
  | refused h => exact ⟨w, .refused h, hbefore.trans hafter⟩
  | resolved h resolution =>
      obtain ⟨w₃, resolution', hquiet⟩ := resolution.ofQuiet hbefore
      exact ⟨w₃, .resolved h resolution', hquiet.trans hafter⟩

/-- Reports before handling make no difference. -/
theorem Handles.ofQuiet (hquiet : w.Quiet w₁) (h : Handles access a w₁ r w') :
    Handles access a w r w' := by
  obtain ⟨w₂, w₃, hbefore, hhandling, hafter⟩ := h
  exact ⟨w₂, w₃, hquiet.trans hbefore, hhandling, hafter⟩

end PageFault

/-- **A fault within a space**: what came of it is answered, and the machine has what the space has
become, unless a frame is stranded. -/
theorem Machine.ends_answerFault_within {m : Machine} {name : SpaceName} {s : AddressSpace}
    (hs : m.space? name = some s) (access : Access) (a : VirtAddr) :
    Ends (answerFault (.owner name) access a) m
      (fun reply m' => ∃ k s', reply = .resolved (s'.lookup a) s'.bounds ∧
        m' = putSpace { m with kernel := k } name s' ∧
        PageFault.Handles access a ⟨m.kernel, s⟩ (.ok ()) ⟨k, s'⟩)
      fun e m' => (∃ error k s', e = .aborted (.failed error) ∧
        m' = putSpace { m with kernel := k } name s' ∧
        PageFault.Handles access a ⟨m.kernel, s⟩ (.error error) ⟨k, s'⟩) ∨
        ∃ k, e = .aborted (.halted .freedWhileBooting) ∧ m' = { m with kernel := k } ∧
          PageFault.Stranded a ⟨m.kernel, s⟩ k := by
  unfold answerFault
  simp only [ends_bind, ends_get, ends_orUnknown, current?_owner hs, liftM_eq, ends_onKernel,
    ends_modify]
  refine Ends.mono (PageFault.ends_handle_within access a s) ?_ ?_
  · rintro ⟨outcome, c⟩ k ⟨s', rfl, hhandles⟩
    cases outcome with
    | ok _ => exact ⟨k, s', rfl, rfl, hhandles⟩
    | error e =>
        refine Or.inl ⟨e, k, s', rfl, ?_, hhandles⟩
        cases name <;> rfl
  · rintro e k ⟨rfl, hstranded⟩
    exact Or.inr ⟨k, rfl, rfl, hstranded⟩

/-- Over a frame map no frame is stranded. -/
theorem Machine.ends_answerFault_built {m : Machine} {name : SpaceName} {s : AddressSpace}
    (built : m.kernel.allocator.isInitialized = true) (hs : m.space? name = some s)
    (access : Access) (a : VirtAddr) :
    Ends (answerFault (.owner name) access a) m
      (fun reply m' => ∃ k s', reply = .resolved (s'.lookup a) s'.bounds ∧
        m' = putSpace { m with kernel := k } name s' ∧
        PageFault.Handles access a ⟨m.kernel, s⟩ (.ok ()) ⟨k, s'⟩)
      fun e m' => ∃ error k s', e = .aborted (.failed error) ∧
        m' = putSpace { m with kernel := k } name s' ∧
        PageFault.Handles access a ⟨m.kernel, s⟩ (.error error) ⟨k, s'⟩ := by
  refine Ends.mono (ends_answerFault_within hs access a) (fun _ _ h => h) fun e m' h => ?_
  refine h.resolve_right ?_
  rintro ⟨k, -, -, hstranded⟩
  exact absurd (built.symm.trans hstranded.booting) (by decide)

/-! ### Faults as they can be seen -/

namespace View

/-- A space without pages of which the same can be seen otherwise. -/
def outline (v : View) : AddressSpace :=
  { AddressSpace.new 0 with regions := v.regions, bounds := v.bounds, loaded := v.loaded }

/-- Why an address may be touched, if it may. -/
def coverage (v : View) (a : VirtAddr) : Option Coverage := v.outline.coverage a

/-- The view after the page of a covered address has been brought in. -/
def bringIn (v : View) (p : Page) (c : Coverage) : View :=
  { v.provide c.flags [p] with bounds := (v.outline.grow p c).bounds }

/-- The view once there is a mapping for a covered address. -/
def touched (v : View) (p : Page) (c : Coverage) : View :=
  match v.pages p with
  | some _ => v
  | none => v.bringIn p c

/-- The flags that decide about an access to a covered address. -/
def flagsBehind (v : View) (p : Page) (c : Coverage) : EntryFlags :=
  ((v.pages p).map Prod.fst).getD c.flags

/-- **Faults**, as far as frames, room and cache slots suffice. -/
def fault (access : Access) (a : VirtAddr) (v : View) : Except MemoryError Unit × View :=
  if access = .readOnlyWrite then (.error (.protectionViolation a), v)
  else
    match v.coverage a with
    | none => (.error (.addressingFault a), v)
    | some c =>
      if PageFault.permits (v.flagsBehind a.page c) access then (.ok (), v.touched a.page c)
      else (.error (.protectionViolation a), v)

end View

namespace AddressSpace

/-- How stack and heap grow depends on their bounds alone. -/
theorem bounds_grow_congr {s t : AddressSpace} (h : s.bounds = t.bounds) (p : Page)
    (c : Coverage) : (s.grow p c).bounds = (t.grow p c).bounds := by
  cases c with
  | region r => exact h
  | stack =>
      simp only [grow, h]
      split <;> simp [h]
  | heap =>
      simp only [grow, h]
      split <;> simp [h]

end AddressSpace

namespace PageFault

variable {access : Access} {a : VirtAddr} {c : Coverage} {w w₁ : Workspace} {e : PageEntry}
  {r : Except MemoryError Unit}

/-- What can be seen once there is a mapping. -/
theorem Backing.view (h : Backing a c w e w₁) (hnodup : w₁.space.frames.Nodup) :
    w₁.view = w.view.touched a.page c := by
  unfold View.touched
  cases h with
  | found mapped => simp [Workspace.view, AddressSpace.view, mapped]
  | @made f rest t grown unmapped room taken inserted =>
      have hframes : (w.install a.page rest f t).space.frames.Nodup := by
        simpa only [Workspace.grow, AddressSpace.frames, AddressSpace.table_grow] using hnodup
      have hseen := Workspace.view_install inserted hframes
      have hnone : w.view.pages a.page = none := by
        simp [Workspace.view, AddressSpace.view, unmapped]
      rw [hnone]
      show ((w.install a.page rest f t).space.grow a.page c).view _ = _
      rw [AddressSpace.grow_eq]
      refine View.ext rfl ?_ rfl ?_
      · exact AddressSpace.bounds_grow_congr (s := (w.install a.page rest f t).space)
          (t := w.view.outline) rfl a.page c
      · show (w.install a.page rest f t).view.pages = (w.view.provide c.flags [a.page]).pages
        exact congrArg View.pages hseen

/-- Which flags decide can be seen. -/
theorem flagsBehind_view (w : Workspace) (a : VirtAddr) (c : Coverage) :
    w.view.flagsBehind a.page c = flagsBehind w a c := by
  simp only [View.flagsBehind, flagsBehind, Workspace.view, AddressSpace.view, Option.map_map]
  rfl

/-- **What can be seen of a fault** is a function of what could be seen before, unless frames, room
or cache slots run out. -/
theorem Handling.view (h : Handling access a w r w₁) (hnodup : w₁.space.frames.Nodup) :
    r = .error .outOfMemory ∨ r = .error .cacheFull ∨ (r, w₁.view) = w.view.fault access a := by
  have hflags := flagsBehind_view w a
  have hcoverage : w.view.coverage a = w.space.coverage a := rfl
  unfold View.fault
  cases h with
  | refused h => rw [if_pos h]; exact Or.inr (Or.inr rfl)
  | resolved h resolution =>
      rw [if_neg h, hcoverage]
      cases resolution with
      | uncovered hnone => rw [hnone]; exact Or.inr (Or.inr rfl)
      | forbidden covered hforbidden =>
          simp only [covered, hflags, hforbidden]
          exact Or.inr (Or.inr rfl)
      | starved covered unmapped permitted hexhausted => exact Or.inl rfl
      | cramped covered unmapped permitted h taken returned => exact Or.inl rfl
      | full covered backing permitted refused => exact Or.inr (Or.inl rfl)
      | cached covered backing permitted placed =>
          simp only [covered, hflags, permitted, if_true]
          exact Or.inr (Or.inr (congrArg _ (backing.view hnodup)))

theorem Handles.view (h : Handles access a w r w₁) (hnodup : w₁.space.frames.Nodup) :
    r = .error .outOfMemory ∨ r = .error .cacheFull ∨ (r, w₁.view) = w.view.fault access a := by
  obtain ⟨w₂, w₃, hbefore, hhandling, hafter⟩ := h
  have hview := hhandling.view (hafter.space ▸ hnodup)
  rwa [← hafter.view, hbefore.view] at hview

end PageFault

end DemandPaging
