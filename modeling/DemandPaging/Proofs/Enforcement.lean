import DemandPaging.Proofs.Coherence
import DemandPaging.Proofs.Duplication
import DemandPaging.Proofs.Image

/-!
# Declared permissions are enforced

What a program declares about its pages is what it gets, from its start to its end, and what its
children get, and theirs.  Four paths write flags: preparing a load, completing it, faults and
duplicating, and where segments share a page they do not even agree on which one counts.  That they
agree in the end is a property of spaces, and one that lasts (`AddressSpace.Obeys`).

**Why faults do no harm.**  A fault takes the flags of a new page from the *first* region at the
address, not from the last one.  But a loaded space has every page of its regions mapped already, so
the only pages that faults bring in are those of stack and heap, on which no region has a say.
-/

namespace DemandPaging

namespace Program

variable {segments : List Segment} {p : Page}

/-- Pages in no segment have the flags of stack and heap. -/
theorem flagsAt_of_none (h : lastCovering? segments p = none) : flagsAt segments p = .segment := by
  unfold flagsAt
  rw [h]
  rfl

theorem flagsAt_of_some {g : Segment} (h : lastCovering? segments p = some g) :
    flagsAt segments p = g.flags := by
  unfold flagsAt
  rw [h]
  rfl

end Program

namespace AddressSpace

variable {segments : List Segment} {s : AddressSpace}

/-- Stack and heap pages have the flags of stack and heap. -/
theorem flags_of_growthCoverage {b : Bounds} {p : Page} {c : Coverage}
    (h : growthCoverage b p = some c) : c.flags = .segment := by
  cases c with
  | stack => rfl
  | heap => rfl
  | region r =>
      unfold growthCoverage at h
      split at h
      · cases h
      · split at h
        · cases h
        · split at h
          · split at h <;> cases h
          · cases h

/-- **Obedience**: the space has declared the segments, has every page of its load, and every page
has the flags of the last segment that covers it. -/
structure Obeys (segments : List Segment) (s : AddressSpace) : Prop where
  declared : Program.Declares segments s.regions.regions
  prepared : s.IsPrepared
  flags : ∀ p e, s.table.find? p = some e → e.flags = Program.flagsAt segments p

namespace Obeys

/-- A page that some segment covers is covered by a region. -/
theorem any_covers (h : s.Obeys segments) {p : Page} {g : Segment}
    (hg : Program.lastCovering? segments p = some g) :
    s.regions.regions.any (·.covers p) = true := by
  have hcovers : g.covers p = true := by simpa using List.find?_some hg
  rw [h.declared.any_covers, List.any_eq_true]
  exact ⟨g, List.mem_reverse.mp (List.mem_of_find?_eq_some hg), hcovers⟩

/-- And it is mapped. -/
theorem mapped (h : s.Obeys segments) {p : Page} {g : Segment}
    (hg : Program.lastCovering? segments p = some g) : ∃ e, s.table.find? p = some e :=
  Option.isSome_iff_exists.mp
    (h.prepared.2 p (mem_loadPages_iff.mpr (Or.inl (h.any_covers hg))))

/-- So its addresses may be touched. -/
theorem coverage_ne_none (h : s.Obeys segments) {a : VirtAddr} {g : Segment}
    (hg : Program.lastCovering? segments a.page = some g) : s.coverage a ≠ none := by
  obtain ⟨r, hr, hcovers⟩ := List.any_eq_true.mp (h.any_covers hg)
  unfold coverage RegionList.find?
  cases hfind : s.regions.regions.find? (·.contains a) with
  | some r => exact Option.some_ne_none _
  | none =>
      have hnot := List.find?_eq_none.mp hfind r hr
      rw [r.contains_eq_covers] at hnot
      exact absurd hcovers hnot

/-- A page that is not mapped is in no segment. -/
theorem flagsAt_of_unmapped (h : s.Obeys segments) {p : Page} (hp : s.table.find? p = none) :
    Program.flagsAt segments p = .segment := by
  cases hlast : Program.lastCovering? segments p with
  | none => exact Program.flagsAt_of_none hlast
  | some g =>
      obtain ⟨e, he⟩ := h.mapped hlast
      rw [hp] at he
      cases he

/-- The address of a page that is not mapped is covered by stack or heap, if at all. -/
theorem flags_of_coverage (h : s.Obeys segments) {a : VirtAddr} {c : Coverage}
    (hp : s.table.find? a.page = none) (hc : s.coverage a = some c) : c.flags = .segment := by
  unfold coverage at hc
  split at hc
  · next r hr =>
      -- a region at the address would have had its page mapped
      have hcontains : r.contains a = true := by simpa using List.find?_some hr
      rw [r.contains_eq_covers] at hcontains
      have hany : s.regions.regions.any (·.covers a.page) = true :=
        List.any_eq_true.mpr ⟨r, List.mem_of_find?_eq_some hr, hcontains⟩
      have hmapped := h.prepared.2 a.page (mem_loadPages_iff.mpr (Or.inl hany))
      rw [hp] at hmapped
      cases hmapped
  · split at hc
    · exact flags_of_growthCoverage hc
    · cases hc

end Obeys

/-- The image of a program obeys it. -/
theorem obeys_of_isImage {m : Memory} (h : Program.IsImage segments s m) : s.Obeys segments := by
  refine ⟨h.declared, ⟨h.loaded, fun p hp => ?_⟩, h.flags⟩
  rw [h.maps_iff, ← List.any_eq_true, ← h.declared.any_covers]
  exact mem_loadPages_iff.mp hp

/-- A duplicate obeys what its source obeys. -/
theorem IsDuplicate.obeys {copy : AddressSpace} {k k' : Kernel} (h : s.IsDuplicate copy k k')
    (hs : s.Obeys segments) : copy.Obeys segments := by
  refine ⟨h.regions ▸ hs.declared, ⟨h.loaded.trans hs.prepared.1, fun p hp => ?_⟩, ?_⟩
  · rw [h.regions] at hp
    exact (h.maps_iff p).mpr (hs.prepared.2 p hp)
  · intro p e' he'
    obtain ⟨e, he⟩ := Option.isSome_iff_exists.mp ((h.maps_iff p).mp (by rw [he']; rfl))
    obtain ⟨d, hd, hflags, -⟩ := h.pages p e he
    obtain rfl := Option.some.inj (he'.symm.trans hd)
    rw [hflags, hs.flags p e he]

end AddressSpace

namespace PageFault

variable {access : Access} {a : VirtAddr} {c : Coverage} {w w' : Workspace} {e : PageEntry}
  {r : Except MemoryError Unit} {segments : List Segment}

/-- Bringing in a page does not change what a space obeys. -/
theorem Backing.obeys (h : Backing a c w e w') (hc : w.space.coverage a = some c)
    (hs : w.space.Obeys segments) : w'.space.Obeys segments := by
  obtain ⟨-, hregions, hloaded, -⟩ := h.same
  refine ⟨hregions ▸ hs.declared, ⟨hloaded.trans hs.prepared.1, fun p hp => ?_⟩, ?_⟩
  · rw [hregions] at hp
    obtain ⟨d, hd⟩ := Option.isSome_iff_exists.mp (hs.prepared.2 p hp)
    rw [h.extends hd]
    rfl
  · intro p d hd
    rw [h.find? p] at hd
    split at hd
    · next hpage =>
        obtain rfl := Option.some.inj hd
        subst hpage
        cases h with
        | found mapped => exact hs.flags _ _ mapped
        | made unmapped room taken inserted =>
            rw [hs.flagsAt_of_unmapped unmapped]
            exact hs.flags_of_coverage unmapped hc
    · exact hs.flags p d hd

/-- **A fault does not change what a space obeys.** -/
theorem Handles.obeys (h : Handles access a w r w') (hs : w.space.Obeys segments) :
    w'.space.Obeys segments := by
  obtain ⟨w₁, w₂, hbefore, hhandling, hafter⟩ := h
  rw [hafter.space]
  rw [← hbefore.space] at hs
  cases hhandling with
  | refused _ => exact hs
  | resolved _ resolution =>
      cases resolution with
      | uncovered _ => exact hs
      | forbidden _ _ => exact hs
      | starved _ _ _ _ => exact hs
      | cramped _ _ _ _ _ _ => exact hs
      | full covered backing _ _ => exact backing.obeys covered hs
      | cached covered backing _ _ => exact backing.obeys covered hs

/-- **Writing where the last segment forbids it is refused.** -/
theorem Handles.protected (h : Handles access a w r w') (hs : w.space.Obeys segments)
    (hwrite : access ≠ .read) {g : Segment}
    (hg : Program.lastCovering? segments a.page = some g) (hreadOnly : g.permission.write = false) :
    r = .error (.protectionViolation a) := by
  obtain ⟨w₁, w₂, hbefore, hhandling, -⟩ := h
  rw [← hbefore.space] at hs
  obtain ⟨e, he⟩ := hs.mapped hg
  have hforbidden : ∀ c, permits (flagsBehind w₁ a c) .write = false := by
    intro c
    unfold permits flagsBehind
    rw [he]
    simp [hs.flags _ e he, Program.flagsAt_of_some hg, Segment.flags, hreadOnly]
  cases hhandling with
  | refused _ => rfl
  | resolved hreadOnlyWrite resolution =>
      cases access with
      | read => exact absurd rfl hwrite
      | readOnlyWrite => exact absurd rfl hreadOnlyWrite
      | write =>
          cases resolution with
          | uncovered hnone => exact absurd hnone (hs.coverage_ne_none hg)
          | forbidden _ _ => rfl
          | starved _ unmapped _ _ =>
              rw [he] at unmapped
              cases unmapped
          | cramped _ unmapped _ _ _ _ =>
              rw [he] at unmapped
              cases unmapped
          | full _ _ permitted _ =>
              rw [hforbidden] at permitted
              cases permitted
          | cached _ _ permitted _ =>
              rw [hforbidden] at permitted
              cases permitted

end PageFault

/-- **A child obeys what its parent obeys.** -/
theorem Process.ends_fork_obeys {k : Kernel} {live : List AddressSpace} {held : List Block}
    {tally : Tally} (h : Custody k live held tally) {parent : Process} {segments : List Segment}
    (hparent : ∀ s, parent.space = some s → s ∈ live ∧ s.Obeys segments) :
    Ends parent.fork k (fun child _ => ∀ s, child.space = some s → s.Obeys segments)
      fun _ _ => True := by
  cases hspace : parent.space with
  | none =>
      unfold fork
      rw [hspace]
      trivial
  | some s =>
      obtain ⟨hlive, hobeys⟩ := hparent s hspace
      refine Ends.mono (ends_fork_duplicate h hspace hlive fun _ => hobeys.prepared) ?_
        fun _ _ _ => trivial
      rintro child k₁ ⟨copy, hcopy, hdup⟩ s' hs'
      obtain rfl := Option.some.inj (hcopy.symm.trans hs')
      exact hdup.obeys hobeys

namespace Machine

variable {m m' : Machine} {n i : Nat} {p q : Process} {segments : List Segment} {r : Request}
  {held : List Block} {tally : Tally}

/-- **Obedient processes**: there is a process with the number, and as long as it has a space that
obeys the segments. -/
structure Obeys (m : Machine) (n : Nat) (segments : List Segment) : Prop where
  lt : n < m.processes.length
  space : ∀ p s, m.processes[n]? = some p → p.space = some s → s.Obeys segments

/-- A process that joins the others with an obedient space is obedient. -/
theorem obeys_of_join (processes : m'.processes = m.processes ++ [p])
    (hp : ∀ s, p.space = some s → s.Obeys segments) : m'.Obeys m.processes.length segments := by
  refine ⟨by simp [processes], fun q s hq hs => hp s ?_⟩
  rw [processes, List.getElem?_concat_length] at hq
  exact Option.some.inj hq ▸ hs

namespace Obeys

theorem join (h : m.Obeys n segments) (processes : m'.processes = m.processes ++ [p]) :
    m'.Obeys n segments := by
  refine ⟨by rw [processes, List.length_append]; exact Nat.lt_add_right _ h.lt, fun q s hq => ?_⟩
  rw [processes, List.getElem?_append_left h.lt] at hq
  exact h.space q s hq

/-- Replacing a process by one that obeys what it obeyed does no harm. -/
theorem replace (h : m.Obeys n segments) (found : m.processes[i]? = some p)
    (processes : m'.processes = m.processes.set i q)
    (hq : (∀ s, p.space = some s → s.Obeys segments) →
      ∀ s, q.space = some s → s.Obeys segments) : m'.Obeys n segments := by
  refine ⟨by rw [processes, List.length_set]; exact h.lt, fun x s hx hs => ?_⟩
  rw [processes] at hx
  by_cases hin : i = n
  · subst hin
    rw [List.getElem?_set_self h.lt] at hx
    exact hq (fun s => h.space p s found) s (Option.some.inj hx ▸ hs)
  · rw [List.getElem?_set_ne hin] at hx
    exact h.space x s hx hs

/-- **What one turn keeps.** -/
theorem turn (h : m.Obeys n segments) (hturn : Turn m r m') : m'.Obeys n segments := by
  cases hturn with
  | idle processes _ => exact ⟨processes ▸ h.lt, processes ▸ h.space⟩
  | started _ _ processes _ => exact h.join processes
  | forked _ _ _ _ processes _ => exact h.join processes
  | faulted found within handled processes =>
      refine h.replace found processes fun hold s' hs' => ?_
      cases hs'
      exact handled.obeys (hold _ within)
  | kept found space _ processes _ =>
      exact h.replace found processes fun hold s hs => hold s (space ▸ hs)
  | ended found space processes _ =>
      refine h.replace found processes fun _ s hs => ?_
      rw [space] at hs
      cases hs

end Obeys

/-- **A program that was started is obeyed.** -/
theorem Turn.obeys_started {entryPoint : VirtAddr}
    (hturn : Turn m (.startProgram segments entryPoint) m')
    (hc : Custody m.kernel m.live held tally)
    (joins : m'.processes.length = m.processes.length + 1) :
    m'.Obeys m.processes.length segments := by
  cases hturn with
  | idle processes _ =>
      rw [processes] at joins
      omega
  | started made _ processes _ =>
      obtain ⟨s, hs, -, -, himage, -⟩ := (Program.ends_start hc segments entryPoint).of_ok made
      refine obeys_of_join processes fun s' hs' => ?_
      obtain rfl := Option.some.inj (hs.symm.trans hs')
      exact AddressSpace.obeys_of_isImage himage
  | forked asked _ _ _ _ _ => rcases asked with hr | hr <;> cases hr

/-- **What a process obeys, its child obeys.** -/
theorem Turn.obeys_forked (hturn : Turn m r m') (asked : r = .fork n ∨ r = .forkCall n)
    (hc : Custody m.kernel m.live held tally) (hparent : m.Obeys n segments)
    (joins : m'.processes.length = m.processes.length + 1) :
    m'.Obeys m.processes.length segments := by
  cases hturn with
  | idle processes _ =>
      rw [processes] at joins
      omega
  | @forked _ n' parent child _ asked' found made _ processes _ =>
      obtain rfl : n' = n := by
        rcases asked with rfl | rfl <;> rcases asked' with heq | heq <;> cases heq <;> rfl
      refine obeys_of_join processes ?_
      have hends := Process.ends_fork_obeys hc fun s hs =>
        ⟨mem_live_of_process (List.mem_of_getElem? found) hs, hparent.space parent s found hs⟩
      exact hends.of_ok made
  | started _ _ _ _ => rcases asked with hr | hr <;> cases hr
  | faulted _ _ _ _ => rcases asked with hr | hr <;> cases hr
  | kept _ _ _ _ _ => rcases asked with hr | hr <;> cases hr
  | ended _ _ _ _ => rcases asked with hr | hr <;> cases hr

end Machine

namespace History

variable {start h : History} {rs : List Request} {n : Nat} {segments : List Segment}

/-- One process more after the request. -/
def Joins (h : History) (r : Request) : Prop :=
  (h.next r).machine.processes.length = h.machine.processes.length + 1

instance (h : History) (r : Request) : Decidable (h.Joins r) :=
  inferInstanceAs (Decidable (_ = _))

/-- **Lineage**: the process with the number runs the program of the segments, having been started
with it or forked from a process that runs it, and nothing but turns of processes has happened. -/
inductive Lineage (start : History) : History → Nat → List Segment → Prop where
  | started {rs : List Request} {h : History} (run : Run start rs h)
      (turns : ∀ r ∈ rs, r.isOfProcesses = true) (segments : List Segment) (entryPoint : VirtAddr)
      (alive : Machine.hasHalted (h.machine.step (.startProgram segments entryPoint)).1 = false)
      (joins : h.Joins (.startProgram segments entryPoint)) :
      Lineage start (h.next (.startProgram segments entryPoint)) h.machine.processes.length segments
  | forked {h : History} {n : Nat} {segments : List Segment} (lineage : Lineage start h n segments)
      {r : Request} (asked : r = .fork n ∨ r = .forkCall n)
      (alive : Machine.hasHalted (h.machine.step r).1 = false) (joins : h.Joins r) :
      Lineage start (h.next r) h.machine.processes.length segments
  | later {h : History} {n : Nat} {segments : List Segment} (lineage : Lineage start h n segments)
      (r : Request) (turn : r.isOfProcesses = true) (permitted : h.Permits r)
      (alive : Machine.hasHalted (h.machine.step r).1 = false) :
      Lineage start (h.next r) n segments

/-- The turns of a lineage are a run. -/
theorem Lineage.run (lineage : Lineage start h n segments) :
    ∃ rs, Run start rs h ∧ ∀ r ∈ rs, r.isOfProcesses = true := by
  have hnext : ∀ {rs h r}, Run start rs h → (∀ r ∈ rs, r.isOfProcesses = true) →
      r.isOfProcesses = true → h.Permits r → Machine.hasHalted (h.machine.step r).1 = false →
      ∃ rs', Run start rs' (h.next r) ∧ ∀ r ∈ rs', r.isOfProcesses = true := by
    intro rs h r run turns hr permitted alive
    refine ⟨rs ++ [r], run.next r permitted alive, fun x hx => ?_⟩
    rcases List.mem_append.mp hx with hx | hx
    · exact turns x hx
    · exact List.mem_singleton.mp hx ▸ hr
  induction lineage with
  | started run turns segments entryPoint alive joins => exact hnext run turns rfl trivial alive
  | @forked h n segments lineage r asked alive joins ih =>
      obtain ⟨rs, run, turns⟩ := ih
      rcases asked with rfl | rfl
      · exact hnext run turns rfl trivial alive
      · exact hnext run turns rfl trivial alive
  | later _ r turn permitted alive ih =>
      obtain ⟨rs, run, turns⟩ := ih
      exact hnext run turns turn permitted alive

/-- **What a lineage obeys**, by induction on its turns. -/
theorem Lineage.obeys {m : Machine} (fresh : m.IsFresh) (lineage : Lineage ⟨m, []⟩ h n segments) :
    h.machine.Obeys n segments := by
  induction lineage with
  | started run turns segments entryPoint alive joins =>
      obtain ⟨room, -, hc⟩ := run.inCustody (inCustody_of_isFresh fresh)
      exact (Machine.turn_step rfl).obeys_started hc joins
  | forked lineage asked alive joins ih =>
      obtain ⟨rs, run, -⟩ := lineage.run
      obtain ⟨room, -, hc⟩ := run.inCustody (inCustody_of_isFresh fresh)
      rcases asked with rfl | rfl
      · exact (Machine.turn_step rfl).obeys_forked (Or.inl rfl) hc ih joins
      · exact (Machine.turn_step rfl).obeys_forked (Or.inr rfl) hc ih joins
  | later lineage r turn permitted alive ih => exact ih.turn (Machine.turn_step turn)

/-- **Enforcement** of what segments declare on process number `n` with space `s`. -/
structure Enforces (h : History) (segments : List Segment) (n : Nat) (s : AddressSpace) : Prop where
  /-- The regions of the space are those of the segments, in their order. -/
  declared : Program.Declares segments s.regions.regions
  /-- A page has the flags of the last segment that covers it, or those of stack and heap. -/
  mapped : ∀ q e, s.table.find? q = some e → e.flags = Program.flagsAt segments q
  /-- And so has whatever is cached of it. -/
  cached : ∀ e ∈ h.machine.kernel.cache.entries, e.space = s.id →
    e.flags = Program.flagsAt segments e.page
  /-- A write is refused where the last segment is not writable. -/
  refused : ∀ a g, Program.lastCovering? segments a.page = some g → g.permission.write = false →
    ∀ access, access ≠ .read →
      (h.machine.step (.fault (.owner (.process n)) access a)).1 =
        .error (.aborted (.failed (.protectionViolation a)))
  /-- And no page like that is cached as writable. -/
  readOnly : ∀ e ∈ h.machine.kernel.cache.entries, e.space = s.id →
    ∀ g, Program.lastCovering? segments e.page = some g → g.permission.write = false →
      e.isWritable = false
  /-- What is in no segment is not executable, -/
  noExecute : ∀ q e, (∀ g ∈ segments, g.covers q = false) → s.table.find? q = some e →
    e.flags.isNoExecute = true
  /-- nor cached as executable. -/
  noExecuteCached : ∀ e ∈ h.machine.kernel.cache.entries, e.space = s.id →
    (∀ g ∈ segments, g.covers e.page = false) → e.flags.isNoExecute = true

/-- Where the flags are those of the segments, what is in none of them is not executable. -/
theorem isNoExecute_of_uncovered {q : Page} {flags : EntryFlags}
    (hflags : flags = Program.flagsAt segments q) (hq : ∀ g ∈ segments, g.covers q = false) :
    flags.isNoExecute = true := by
  have hnone : Program.lastCovering? segments q = none := by
    unfold Program.lastCovering?
    simpa using hq
  rw [hflags, Program.flagsAt_of_none hnone]
  exact EntryFlags.isNoExecute_segment

/-- **Permissions are enforced.**  Let a process run a program with which it was started, or its
parent, or the parent of that, and let nothing but turns of processes have happened since a fresh
machine that had nothing cached.  As long as the process has a space, what the segments of the
program declare is enforced on it. -/
theorem Lineage.enforced {m : Machine} (fresh : m.IsFresh) (cold : m.kernel.cache.entries = [])
    (lineage : Lineage ⟨m, []⟩ h n segments) {p : Process} {s : AddressSpace}
    (hp : h.machine.processes[n]? = some p) (hs : p.space = some s) :
    h.Enforces segments n s := by
  have hobeys := (lineage.obeys fresh).space p s hp hs
  obtain ⟨rs, run, turns⟩ := lineage.run
  obtain ⟨room, -, hc⟩ := run.inCustody (inCustody_of_isFresh fresh)
  have hcoherent := run.coherent turns (coherent_of_isFresh fresh cold)
  have hname : h.machine.space? (.process n) = some s := by simp [Machine.space?, hp, hs]
  have hcached : ∀ e ∈ h.machine.kernel.cache.entries, e.space = s.id →
      e.flags = Program.flagsAt segments e.page := by
    intro e he hid
    obtain ⟨p', hp', -, s', hs', hid', hpage⟩ := hcoherent.backed e he
    -- the number tells whose mapping it is
    obtain rfl : s' = s := List.inj_on_of_nodup_map hc.distinct
      (Machine.mem_live_of_process hp' hs') (Machine.mem_live_of_space? hname) (hid'.trans hid)
    exact hobeys.flags _ _ hpage
  refine
    { declared := hobeys.declared, mapped := hobeys.flags, cached := hcached
      refused := fun a g hg hwrite access haccess => ?_
      readOnly := fun e he hid g hg hwrite => ?_
      noExecute := fun q e hq he => isNoExecute_of_uncovered (hobeys.flags q e he) hq
      noExecuteCached := fun e he hid hq => isNoExecute_of_uncovered (hcached e he hid) hq }
  · have hrefused : ∀ {r k s'}, PageFault.Handles access a ⟨h.machine.kernel, s⟩ r ⟨k, s'⟩ →
        r = .error (.protectionViolation a) := fun hhandles =>
      hhandles.protected hobeys haccess hg hwrite
    rcases Machine.step_cases (r := .fault (.owner (.process n)) access a)
      (Machine.ends_answerFault_built hc.isInitialized hname access a) with
      ⟨_, _, -, _, _, -, -, hhandles⟩ | ⟨_, _, hstep, e, _, _, rfl, -, hhandles⟩
    · cases hrefused hhandles
    · cases hrefused hhandles
      rw [hstep]
  · rw [CacheEntry.isWritable, hcached e he hid, Program.flagsAt_of_some hg]
    simpa [Segment.flags] using hwrite

/-- Enforcement over sixteen frames, on a grandchild of a process whose segments share both their
pages: its ancestors ended, it has touched the page that the second segment is the last to cover,
and a page of its heap.  To the other page, which the third segment made read-only, it may not
write. -/
theorem Lineage.enforced_sixteen_frames :
    ∃ h s, Lineage ⟨sixteenFrames, []⟩ h 2 threeSegments ∧
      h.machine.space? (.process 2) = some s ∧ h.Enforces threeSegments 2 s ∧
      h.machine.kernel.cache.entries.map (fun e => (e.space, e.page.index, e.flags.isWritable)) =
        [(s.id, 2, true), (s.id, 3, true)] ∧
      (h.machine.step (.fault (.owner (.process 2)) .write ⟨0x1006, by decide⟩)).1 =
        .error (.aborted (.failed (.protectionViolation ⟨0x1006, by decide⟩))) := by
  have started : Lineage ⟨sixteenFrames, []⟩ _ _ threeSegments :=
    .started .start (by simp) threeSegments ⟨0x1004, by decide⟩ (by decide +kernel)
      (by decide +kernel)
  have forked : Lineage ⟨sixteenFrames, []⟩ _ _ threeSegments :=
    .forked (.forked started (Or.inl rfl) (by decide +kernel) (by decide +kernel)) (Or.inr rfl)
      (by decide +kernel) (by decide +kernel)
  have alone : Lineage ⟨sixteenFrames, []⟩ _ _ threeSegments :=
    (forked.later (.process 0 (.exit 0)) rfl trivial (by decide +kernel)).later
      (.process 1 (.exit 0)) rfl trivial (by decide +kernel)
  obtain ⟨h, n, lineage, hn, hspace, hcache⟩ : ∃ h n,
      Lineage ⟨sixteenFrames, []⟩ h n threeSegments ∧ n = 2 ∧
      (h.machine.space? (.process 2)).map AddressSpace.id = some 3 ∧
      h.machine.kernel.cache.entries.map (fun e => (e.space, e.page.index, e.flags.isWritable)) =
        [(3, 2, true), (3, 3, true)] :=
    ⟨_, _, (alone.later (.fault (.owner (.process 2)) .write ⟨0x2000, by decide⟩) rfl trivial
      (by decide +kernel)).later (.fault (.owner (.process 2)) .write ⟨0x3000, by decide⟩) rfl
        trivial (by decide +kernel), by decide +kernel, by decide +kernel, by decide +kernel⟩
  subst hn
  obtain ⟨s, hs, hid⟩ := Option.map_eq_some_iff.mp hspace
  obtain ⟨p, hp, hps⟩ := Option.bind_eq_some_iff.mp hs
  have henforces := lineage.enforced isFresh_sixteenFrames (by decide) hp hps
  refine ⟨h, s, lineage, hs, henforces, hid ▸ hcache, ?_⟩
  exact henforces.refused ⟨0x1006, by decide⟩ ⟨⟨0x1006, by decide⟩, [7], 0, ⟨true, false, false⟩⟩
    rfl rfl .write (by decide)

end History

end DemandPaging
