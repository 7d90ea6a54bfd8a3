import DemandPaging.Proofs.Asides
import DemandPaging.Proofs.Coherence

/-!
# The cache under a schedule

There is one cache for all processes, and nothing in it is ever replaced.  What keeps one process
from using up the slots of another is that the kernel drops what is cached for a process when it
leaves the processor.  As long as one process at a time is on the processor, and only that one
faults, the cache is its own (`History.cache_of_running`).

**Watching.**  Neither the machine nor its requests say who is on the processor, since a process
may be put there and taken away in any state.  A `Watch` follows the outcomes and keeps this in
mind, together with the pages that the process has touched since it was put there.

**Counting.**  A fault finds no slot only if each slot holds a page of its own.  All these pages are
of one space, so they differ; the faulting page is not among them, or else its slot would be taken
again; and each of them has been touched under the watch.
-/

namespace DemandPaging

/-! ### Slots of the cache -/

namespace MappingCache

variable {c c' : MappingCache} {e : CacheEntry} {i : Nat}

theorem capacity_insert (h : c.insert e = .ok (i, c')) : c'.capacity = c.capacity := by
  obtain ⟨-, rfl⟩ := insert_eq_ok_iff.mp h
  exact Slots.size_place _ _ _

/-- **Refused mappings** are not cached yet, and every slot is taken. -/
theorem full_of_slotFor?_eq_none (h : c.slotFor? e = none) :
    e.key ∉ c.entries.map CacheEntry.key ∧ c.entries.length = c.capacity := by
  unfold slotFor? at h
  obtain ⟨hindex, hfree⟩ := Option.or_eq_none_iff.mp h
  exact ⟨key_not_mem_of_index? hindex, Slots.length_values_of_full hfree⟩

end MappingCache

theorem Process.capacity_dropFrom (p : Process) (c : MappingCache) :
    (p.dropFrom c).capacity = c.capacity := by
  unfold dropFrom
  split
  · exact MappingCache.capacity_invalidate c _
  · rfl

namespace PageFault

variable {access : Access} {a : VirtAddr} {w w' : Workspace} {error : MemoryError}

/-- Only a fault that succeeds caches anything. -/
theorem Handling.cache_of_error (h : Handling access a w (.error error) w') :
    w'.kernel.cache = w.kernel.cache := by
  cases h with
  | refused _ => rfl
  | resolved _ resolution =>
      cases resolution with
      | uncovered _ => rfl
      | forbidden _ _ => rfl
      | starved _ _ _ _ => rfl
      | cramped _ _ _ _ _ _ => rfl
      | full _ backing _ _ => exact backing.same.2.2.2

/-- A fault that finds the cache full has a mapping to cache and no slot for it. -/
theorem Handling.slotFor?_of_full (h : Handling access a w (.error .cacheFull) w') :
    ∃ e : CacheEntry, e.key = (w.space.id, a.page) ∧ w.kernel.cache.slotFor? e = none := by
  cases h with
  | resolved _ resolution =>
      cases resolution with
      | full _ backing _ refused =>
          obtain ⟨hid, -, -, hcache⟩ := backing.same
          rw [hcache, hid] at refused
          exact ⟨_, rfl, refused⟩

theorem Handles.cache_of_error (h : Handles access a w (.error error) w') :
    w'.kernel.cache = w.kernel.cache := by
  obtain ⟨w₁, w₂, hbefore, hhandling, hafter⟩ := h
  rw [hafter.cache, hhandling.cache_of_error, hbefore.cache]

theorem Handles.slotFor?_of_full (h : Handles access a w (.error .cacheFull) w') :
    ∃ e : CacheEntry, e.key = (w.space.id, a.page) ∧ w.kernel.cache.slotFor? e = none := by
  obtain ⟨w₁, w₂, hbefore, hhandling, -⟩ := h
  have hslot := hhandling.slotFor?_of_full
  rwa [hbefore.space, hbefore.cache] at hslot

end PageFault

/-! ### Leaving the processor -/

/-- Whether the process has left the processor with this reply. -/
def ProcessRequest.leaves : ProcessRequest → Reply → Bool
  | .preempt, _ => true
  | .exit _, _ => true
  | .killOnFault _, .killed killed _ => killed
  | _, _ => false

theorem Process.ends_killOnFault_killed (p : Process) (e : MemoryError) {k : Kernel} :
    Ends (p.killOnFault e) k (fun q k' => q.1 = true → k'.cache = p.dropFrom k.cache)
      fun _ _ => True := by
  unfold killOnFault
  simp only [ends_ite, ends_bind, Kernel.ends_record, ends_pure]
  split
  · exact Ends.mono (ends_exit_cache p _) (fun _ _ h _ => h.2) fun _ _ _ => trivial
  · exact fun h => by cases h

/-- Who leaves the processor leaves nothing in the cache. -/
theorem Machine.ends_leave {m : Machine} (n : Nat) (r : ProcessRequest) :
    Ends (answer (.process n r)) m
      (fun reply m' => r.leaves reply = true → ∃ p, m.processes[n]? = some p ∧
        m'.kernel.cache = p.dropFrom m.kernel.cache)
      fun _ _ => True := by
  show Ends (answerProcess n r) m _ _
  unfold answerProcess
  rw [ends_bind]
  refine ends_process (fun p hp => ?_) trivial
  cases r with
  | preempt =>
      simp only [Process.preempt, ends_bind, liftM_eq, ends_onKernel, ends_putProcess, ends_pure]
      exact Ends.mono p.ends_invalidate_cache (fun _ k hk _ => ⟨p, hp, hk⟩) fun _ _ _ => trivial
  | exit status =>
      simp only [ends_bind, liftM_eq, ends_onKernel, ends_putProcess, ends_pure]
      exact Ends.mono (p.ends_exit_cache status) (fun _ k hk _ => ⟨p, hp, hk.2⟩)
        fun _ _ _ => trivial
  | killOnFault e =>
      simp only [ends_bind, liftM_eq, ends_onKernel, ends_putProcess, ends_pure]
      exact Ends.mono (p.ends_killOnFault_killed e) (fun q k hk hkilled => ⟨p, hp, hk hkilled⟩)
        fun _ _ _ => trivial
  | run =>
      simp only [Process.run, ends_bind, liftM_eq, ends_onKernel, ends_putProcess, ends_pure]
      exact Ends.mono p.ends_invalidate_cache (fun _ k hk _ => ⟨p, hp, hk⟩) fun _ _ _ => trivial
  | setState state => exact fun h => by cases h
  | inspect => exact fun h => by cases h

/-! ### Watching -/

/-- **Watches**: who is on the processor, and at which pages it has successfully faulted since it
was put there. -/
structure Watch where
  running : Option Nat
  touched : List Page

namespace Watch

/-- Nobody is on the processor. -/
def idle : Watch := ⟨none, []⟩

/-- **Scheduled requests**: those about processes, except that a process is put on the processor
only if nobody is there, and that only the process on the processor faults. -/
def admits (w : Watch) : Request → Bool
  | .process _ .run => w.running.isNone
  | .fault (.owner (.process n)) _ _ => w.running == some n
  | r => r.isOfProcesses

/-- The watch after a request with this outcome. -/
def after (w : Watch) : Request → Machine.Outcome → Watch
  | .process n .run, .ok _ => ⟨some n, []⟩
  | .process n r, .ok reply => if r.leaves reply ∧ w.running = some n then idle else w
  | .fault _ _ a, .ok _ => { w with touched := a.page :: w.touched }
  | _, _ => w

theorem isOfProcesses_of_admits {w : Watch} {r : Request} (h : w.admits r = true) :
    r.isOfProcesses = true := by
  unfold admits at h
  split at h
  · rfl
  · rfl
  · exact h

end Watch

/-- **Schedules**: runs of scheduled requests, and the watch at their end. -/
inductive Schedule (start : History) : List Request → History → Watch → Prop where
  | start : Schedule start [] start .idle
  | next {rs : List Request} {h : History} {w : Watch} (schedule : Schedule start rs h w)
      (r : Request) (permitted : h.Permits r) (admitted : w.admits r = true)
      (alive : Machine.hasHalted (h.machine.step r).1 = false) :
      Schedule start (rs ++ [r]) (h.next r) (w.after r (h.machine.step r).1)

theorem Schedule.run {start h : History} {rs : List Request} {w : Watch}
    (schedule : Schedule start rs h w) : History.Run start rs h := by
  induction schedule with
  | start => exact .start
  | next _ r permitted _ alive ih => exact ih.next r permitted alive

namespace Machine

variable {m m' : Machine} {w : Watch} {n slots : Nat} {r : Request} {access : Access}
  {a : VirtAddr}

/-- Whether there was no slot left in the cache. -/
def isCacheFull : Outcome → Bool
  | .error (.aborted (.failed .cacheFull)) => true
  | _ => false

theorem isCacheFull_iff {outcome : Outcome} :
    isCacheFull outcome = true ↔ outcome = .error (.aborted (.failed .cacheFull)) := by
  unfold isCacheFull
  split
  · simp
  · next hnot => simpa using hnot

/-- A fault for which there is no slot has a mapping of its own space to cache. -/
theorem cacheFull_of_step
    (hfull : (m.step (.fault (.owner (.process n)) access a)).1 =
      .error (.aborted (.failed .cacheFull))) :
    ∃ s, m.space? (.process n) = some s ∧
      ∃ e : CacheEntry, e.key = (s.id, a.page) ∧ m.kernel.cache.slotFor? e = none := by
  have hends : Ends (answerFault (.owner (.process n)) access a) m (fun _ _ => True) fun e _ =>
      e = .aborted (.failed .cacheFull) → ∃ s, m.space? (.process n) = some s ∧
        ∃ e : CacheEntry, e.key = (s.id, a.page) ∧ m.kernel.cache.slotFor? e = none := by
    cases hs : m.space? (.process n) with
    | some s =>
        refine Ends.mono (ends_answerFault_within hs access a) (fun _ _ _ => trivial) ?_
        rintro _ _ (⟨error, k, s', rfl, -, hhandles⟩ | ⟨k, rfl, -, -⟩) herror
        · cases herror
          exact ⟨s, rfl, hhandles.slotFor?_of_full⟩
        · cases herror
    | none =>
        unfold answerFault
        cases hp : m.processes[n]? with
        | none =>
            simp only [ends_bind, ends_get, ends_orUnknown, current?, hp]
            exact fun herror => by cases herror
        | some p =>
            have hbare : p.space = none := by
              rw [space?, hp] at hs
              exact hs
            simp only [ends_bind, ends_get, ends_orUnknown, current?, hp, Option.map_some, hbare,
              liftM_eq, ends_onKernel, ends_modify]
            refine Ends.mono (PageFault.ends_handle_bare access a) ?_ fun _ _ hfalse => hfalse.elim
            rintro ⟨outcome, c⟩ k ⟨rfl, -, houtcome⟩
            cases outcome with
            | ok _ => trivial
            | error error =>
                intro herror
                cases herror
                exact absurd rfl houtcome
  rcases step_cases (r := .fault (.owner (.process n)) access a) hends with
    ⟨reply, m', hstep, -⟩ | ⟨e, m', hstep, hslot⟩
  · rw [hstep] at hfull
    cases hfull
  · rw [hstep] at hfull
    exact hslot (Except.error.inj hfull)

/-- **Confined caches**: what is cached is of the space of the process on the processor, and of a
page that it has touched under the watch. -/
structure Confined (m : Machine) (slots : Nat) (w : Watch) : Prop where
  own : ∀ e ∈ m.kernel.cache.entries, ∃ n s, w.running = some n ∧
    m.space? (.process n) = some s ∧ s.id = e.space
  touched : ∀ e ∈ m.kernel.cache.entries, e.page ∈ w.touched
  single : (m.kernel.cache.entries.map CacheEntry.key).Nodup
  capacity : m.kernel.cache.capacity = slots

namespace Confined

/-- If nothing is cached, that is so under every watch. -/
theorem of_empty (hempty : m.kernel.cache.entries = [])
    (hcapacity : m.kernel.cache.capacity = slots) (w : Watch) : m.Confined slots w where
  own := by simp [hempty]
  touched := by simp [hempty]
  single := by simp [hempty]
  capacity := hcapacity

theorem empty_of_idle (h : m.Confined slots w) (hidle : w.running = none) :
    m.kernel.cache.entries = [] := by
  refine List.eq_nil_iff_forall_not_mem.mpr fun e he => ?_
  obtain ⟨n, s, hrunning, -⟩ := h.own e he
  rw [hidle] at hrunning
  cases hrunning

/-- All that is cached is of one space. -/
theorem own_of_running (h : m.Confined slots w) (hrunning : w.running = some n) {e : CacheEntry}
    (he : e ∈ m.kernel.cache.entries) : ∃ s, m.space? (.process n) = some s ∧ s.id = e.space := by
  obtain ⟨n', s, hrunning', hs, hid⟩ := h.own e he
  obtain rfl := Option.some.inj (hrunning.symm.trans hrunning')
  exact ⟨s, hs, hid⟩

/-- Losing mappings does no harm, as long as the process on the processor keeps its space. -/
theorem sublist (h : m.Confined slots w)
    (hsub : m'.kernel.cache.entries.Sublist m.kernel.cache.entries)
    (hcapacity : m'.kernel.cache.capacity = m.kernel.cache.capacity)
    (hspaces : ∀ e ∈ m'.kernel.cache.entries, ∀ n s, w.running = some n →
      m.space? (.process n) = some s → s.id = e.space →
      ∃ s', m'.space? (.process n) = some s' ∧ s'.id = s.id) : m'.Confined slots w where
  own e he := by
    obtain ⟨n, s, hrunning, hs, hid⟩ := h.own e (hsub.subset he)
    obtain ⟨s', hs', hid'⟩ := hspaces e he n s hrunning hs hid
    exact ⟨n, s', hrunning, hs', hid'.trans hid⟩
  touched e he := h.touched e (hsub.subset he)
  single := (hsub.map _).nodup h.single
  capacity := hcapacity.trans h.capacity

/-- Neither does a change of anything but the cache and the processes. -/
theorem idle (h : m.Confined slots w) (hprocesses : m'.processes = m.processes)
    (hcache : m'.kernel.cache = m.kernel.cache) : m'.Confined slots w := by
  refine h.sublist (hcache ▸ .refl _) (hcache ▸ rfl) fun e _ n s _ hs _ => ⟨s, ?_, rfl⟩
  simp only [space?, hprocesses]
  exact hs

/-- Neither does a process joining the others. -/
theorem join (h : m.Confined slots w) {p : Process} (hcache : m'.kernel.cache = m.kernel.cache)
    (hprocesses : m'.processes = m.processes ++ [p]) : m'.Confined slots w := by
  refine h.sublist (hcache ▸ .refl _) (hcache ▸ rfl) fun e _ n s _ hs _ => ⟨s, ?_, rfl⟩
  obtain ⟨q, hq, hspace⟩ := Option.bind_eq_some_iff.mp hs
  obtain ⟨hlt, -⟩ := List.getElem?_eq_some_iff.mp hq
  simp only [space?, hprocesses, List.getElem?_append_left hlt, hq]
  exact hspace

/-- Touching a page does no harm either. -/
theorem touch (h : m.Confined slots w) (p : Page) :
    m.Confined slots { w with touched := p :: w.touched } :=
  ⟨h.own, fun e he => List.mem_cons_of_mem p (h.touched e he), h.single, h.capacity⟩

/-- **Turns other than faults** leave the cache confined under the same watch. -/
theorem turn (h : m.Confined slots w) (hturn : Turn m r m')
    (hr : ∀ who access a, r ≠ .fault who access a) : m'.Confined slots w := by
  cases hturn with
  | idle processes cache => exact h.idle processes cache
  | started made running processes cache => exact h.join cache processes
  | forked asked found made running processes cache => exact h.join cache processes
  | faulted found within handled processes => exact absurd rfl (hr _ _ _)
  | @kept n r p q m' found space exitStatus processes cache =>
      have hspaces : ∀ n' s, m.space? (.process n') = some s →
          m'.space? (.process n') = some s := by
        intro n' s hs
        simp only [space?, processes] at hs ⊢
        by_cases hn : n = n'
        · subst hn
          rw [List.getElem?_set_self (List.getElem?_eq_some_iff.mp found).1]
          rw [found] at hs
          exact space.trans hs
        · rw [List.getElem?_set_ne hn]
          exact hs
      rcases cache with hcache | hcache
      · exact h.sublist (hcache ▸ .refl _) (hcache ▸ rfl) fun e _ n' s _ hs _ =>
          ⟨s, hspaces n' s hs, rfl⟩
      · exact h.sublist (hcache ▸ p.dropFrom_sublist _) (hcache ▸ p.capacity_dropFrom _)
          fun e _ n' s _ hs _ => ⟨s, hspaces n' s hs, rfl⟩
  | @ended n r p q m' found space processes cache =>
      refine h.sublist (cache ▸ p.dropFrom_sublist _) (cache ▸ p.capacity_dropFrom _) ?_
      intro e he n' s _ hs hid
      rw [cache] at he
      have hn : n ≠ n' := by
        rintro rfl
        rw [space?, found] at hs
        -- what was cached for the process that ended has been dropped
        exact (Process.mem_dropFrom he).2 s hs hid
      refine ⟨s, ?_, rfl⟩
      simp only [space?, processes, List.getElem?_set_ne hn] at hs ⊢
      exact hs

/-- **A fault of the process on the processor** caches a page of its space, if it succeeds. -/
theorem fault (h : m.Confined slots w) (hrunning : w.running = some n) :
    (m.step (.fault (.owner (.process n)) access a)).2.Confined slots
      (w.after (.fault (.owner (.process n)) access a)
        (m.step (.fault (.owner (.process n)) access a)).1) := by
  cases hs : m.space? (.process n) with
  | none =>
      -- without a space nothing happens to the cache
      have hkept : (m.step (.fault (.owner (.process n)) access a)).2.Confined slots w := by
        cases turn_step (m := m) (r := .fault (.owner (.process n)) access a) rfl with
        | idle processes cache => exact h.idle processes cache
        | forked asked _ _ _ _ _ => rcases asked with hasked | hasked <;> cases hasked
        | faulted found within handled processes =>
            rw [space?, found] at hs
            exact absurd (within.symm.trans hs) (by simp)
      cases (m.step (.fault (.owner (.process n)) access a)).1 with
      | ok reply => exact hkept.touch a.page
      | error refusal => exact hkept
  | some s =>
      have hspace : ∀ k s', (putSpace { m with kernel := k } (.process n) s').space? (.process n) =
          some s' := fun k s' => space?_putSpace_self ((space?_withKernel m k).trans hs) s'
      -- a fault that caches nothing
      have hsame : ∀ {k s'}, s'.id = s.id → k.cache = m.kernel.cache →
          (putSpace { m with kernel := k } (.process n) s').Confined slots w := by
        intro k s' hid hcache
        refine h.sublist (hcache ▸ .refl _) (hcache ▸ rfl) fun e _ n' t hrunning' ht _ => ?_
        obtain rfl := Option.some.inj (hrunning.symm.trans hrunning')
        obtain rfl := Option.some.inj (hs.symm.trans ht)
        exact ⟨s', hspace k s', hid⟩
      rcases step_cases (r := .fault (.owner (.process n)) access a)
          (ends_answerFault_within hs access a) with
        ⟨_, _, hstep, k, s', rfl, rfl, hhandles⟩ |
        ⟨_, _, hstep, ⟨error, k, s', rfl, rfl, hhandles⟩ | ⟨k, rfl, rfl, hstranded⟩⟩
      · rw [hstep]
        obtain ⟨hid, hcache | ⟨d, i, -, placed⟩⟩ := hhandles.cache
        · exact (hsame hid hcache).touch a.page
        · refine
            { own := fun e he => ⟨n, s', hrunning, hspace k s', hid.trans ?_⟩
              touched := fun e he => ?_
              single := MappingCache.nodup_keys_insert placed h.single
              capacity := (MappingCache.capacity_insert placed).trans h.capacity }
          · rcases MappingCache.mem_of_insert placed he with rfl | hold
            · rfl
            · obtain ⟨t, ht, htid⟩ := h.own_of_running hrunning hold
              obtain rfl := Option.some.inj (hs.symm.trans ht)
              exact htid
          · rcases MappingCache.mem_of_insert placed he with rfl | hold
            · exact List.mem_cons_self
            · exact List.mem_cons_of_mem _ (h.touched e hold)
      · rw [hstep]
        exact hsame hhandles.cache.1 hhandles.cache_of_error
      · rw [hstep]
        refine h.sublist (hstranded.cache ▸ .refl _) (hstranded.cache ▸ rfl)
          fun e _ n' t _ ht _ => ?_
        exact ⟨t, (space?_withKernel m k).trans ht, rfl⟩

/-- **A request to a process** gives the processor away only with an empty cache, and is the only
one to do so. -/
theorem process (h : m.Confined slots w) (r : ProcessRequest)
    (hadmitted : w.admits (.process n r) = true) :
    (m.step (.process n r)).2.Confined slots
      (w.after (.process n r) (m.step (.process n r)).1) := by
  have hkept : (m.step (.process n r)).2.Confined slots w :=
    h.turn (turn_step rfl) fun _ _ _ hr => by cases hr
  rcases step_cases (ends_leave (m := m) n r) with ⟨reply, m', hstep, hleave⟩ | ⟨e, m', hstep, -⟩
  · rw [hstep] at hkept ⊢
    have hleft : r.leaves reply = true → w.running = some n → m'.Confined slots .idle := by
      intro hleaves hrunning
      obtain ⟨p, hp, hcache⟩ := hleave hleaves
      refine of_empty ?_ hkept.capacity _
      rw [hcache]
      refine List.eq_nil_iff_forall_not_mem.mpr fun e he => ?_
      obtain ⟨hmem, hothers⟩ := Process.mem_dropFrom he
      obtain ⟨s, hs, hid⟩ := h.own_of_running hrunning hmem
      rw [space?, hp] at hs
      exact hothers s hs hid
    have hafter : ∀ w', w' = (if r.leaves reply ∧ w.running = some n then Watch.idle else w) →
        m'.Confined slots w' := by
      rintro _ rfl
      split
      · next hboth => exact hleft hboth.1 hboth.2
      · exact hkept
    cases r with
    | run =>
        have hidle : w.running = none := Option.isNone_iff_eq_none.mp hadmitted
        exact of_empty (hkept.empty_of_idle hidle) hkept.capacity _
    | _ => exact hafter _ rfl
  · rw [hstep] at hkept ⊢
    cases r <;> exact hkept

/-- **What one scheduled request keeps.** -/
theorem step (h : m.Confined slots w) (hadmitted : w.admits r = true) :
    (m.step r).2.Confined slots (w.after r (m.step r).1) := by
  have hr := Watch.isOfProcesses_of_admits hadmitted
  cases r with
  | fault who access a =>
      cases who with
      | nobody => cases hr
      | bare => cases hr
      | owner name =>
          cases name with
          | space n => cases hr
          | process n => exact h.fault (beq_iff_eq.mp hadmitted)
  | process n r => exact h.process r hadmitted
  | _ => exact h.turn (turn_step hr) fun _ _ _ hr => by cases hr

/-- **A cache that is full** holds as many pages as it has slots, all of them touched, and not the
one that faults. -/
theorem full (h : m.Confined slots w) (hrunning : w.running = some n)
    (hfull : (m.step (.fault (.owner (.process n)) access a)).1 =
      .error (.aborted (.failed .cacheFull))) :
    ∃ ps : List Page, ps.Nodup ∧ ps.length = slots ∧ a.page ∉ ps ∧ ∀ p ∈ ps, p ∈ w.touched := by
  obtain ⟨s, hs, d, hkey, hslot⟩ := cacheFull_of_step hfull
  obtain ⟨hmissing, hlength⟩ := MappingCache.full_of_slotFor?_eq_none hslot
  have hown : ∀ e ∈ m.kernel.cache.entries, e.key = (s.id, e.page) := by
    intro e he
    obtain ⟨t, ht, hid⟩ := h.own_of_running hrunning he
    obtain rfl := Option.some.inj (hs.symm.trans ht)
    rw [CacheEntry.key, hid]
  have hkeys : m.kernel.cache.entries.map CacheEntry.key =
      (m.kernel.cache.entries.map CacheEntry.page).map (Prod.mk s.id) := by
    rw [List.map_map]
    exact List.map_congr_left hown
  have hsingle := h.single
  rw [hkeys] at hsingle hmissing
  refine ⟨m.kernel.cache.entries.map CacheEntry.page, hsingle.of_map _, ?_, fun hmem => ?_, ?_⟩
  · rw [List.length_map, hlength, h.capacity]
  · rw [hkey] at hmissing
    exact hmissing (List.mem_map_of_mem hmem)
  · intro p hp
    obtain ⟨e, he, rfl⟩ := List.mem_map.mp hp
    exact h.touched e he

end Confined

end Machine

variable {start h : History} {rs₀ rs : List Request} {w : Watch}

/-- **What a schedule keeps**, by induction on its requests. -/
theorem Schedule.confined (schedule : Schedule start rs h w)
    (cold : start.machine.kernel.cache.entries = []) :
    h.machine.Confined start.machine.kernel.cache.capacity w := by
  induction schedule with
  | start => exact .of_empty cold rfl _
  | next _ r _ admitted _ ih => exact ih.step admitted

namespace History

/-- **The cache belongs to the process on the processor.**  From any point of a history at which
nothing is cached, let programs be started, processes be forked, put on the processor and taken off
it, fault, end and be killed, whether or not the single requests succeed, such that a process is put
on the processor only when nobody is there, and only the process there faults.  Then everything that
is cached is of the space of the process on the processor, and of no other space; nothing is cached
while nobody is there; and a fault fails for want of a slot only if the process has successfully
faulted, since it was put there, at as many other pages as there are slots. -/
theorem cache_of_running {m : Machine} (fresh : m.IsFresh) (before : Run ⟨m, []⟩ rs₀ start)
    (cold : start.machine.kernel.cache.entries = []) (schedule : Schedule start rs h w) :
    (∀ e ∈ h.machine.kernel.cache.entries, ∃ n s, w.running = some n ∧
      h.machine.space? (.process n) = some s ∧ s.id = e.space ∧
      ∀ t ∈ h.machine.live, t.id = e.space → t = s) ∧
    (w.running = none → h.machine.kernel.cache.entries = []) ∧
    ∀ n access a, w.running = some n →
      (h.machine.step (.fault (.owner (.process n)) access a)).1 =
        .error (.aborted (.failed .cacheFull)) →
      ∃ ps : List Page, ps.Nodup ∧ ps.length = start.machine.kernel.cache.capacity ∧
        a.page ∉ ps ∧ ∀ p ∈ ps, p ∈ w.touched := by
  have hconfined := schedule.confined cold
  obtain ⟨_, -, hstart⟩ := before.inCustody (inCustody_of_isFresh fresh)
  obtain ⟨_, -, hc⟩ := schedule.run.inCustody hstart
  refine ⟨fun e he => ?_, hconfined.empty_of_idle, fun n access a => hconfined.full⟩
  obtain ⟨n, s, hrunning, hs, hid⟩ := hconfined.own e he
  refine ⟨n, s, hrunning, hs, hid, fun t ht hsame => ?_⟩
  exact List.inj_on_of_nodup_map hc.distinct ht (Machine.mem_live_of_space? hs)
    (hsame.trans hid.symm)

/-- A schedule over sixteen frames and a cache of two slots: a child takes both slots and leaves
the processor, then its parent takes both.  Its third page finds no slot, and it is the two pages
touched before that are in the way. -/
theorem cache_of_running_sixteen_frames :
    ∃ rs h w, Schedule ⟨sixteenFrames, []⟩ rs h w ∧ rs.length = 9 ∧ w.running = some 0 ∧
      h.machine.kernel.cache.entries.map CacheEntry.space = [1, 1] ∧
      (∀ e ∈ h.machine.kernel.cache.entries, ∃ n s, w.running = some n ∧
        h.machine.space? (.process n) = some s ∧ s.id = e.space) ∧
      (h.machine.step (.fault (.owner (.process 0)) .write ⟨0x6fffffffd000, by decide⟩)).1 =
        .error (.aborted (.failed .cacheFull)) ∧
      ∃ ps : List Page, ps.Nodup ∧ ps.length = 2 ∧ ∀ p ∈ ps, p ∈ w.touched := by
  let touch (n : Nat) (a : VirtAddr) : Request := .fault (.owner (.process n)) .write a
  have forked : Schedule ⟨sixteenFrames, []⟩ _ _ _ :=
    (Schedule.start.next (.startProgram [⟨⟨0x1000, by decide⟩, [1, 2, 3], 8, ⟨true, true, false⟩⟩]
      ⟨0x1000, by decide⟩) trivial (by decide +kernel) (by decide +kernel)).next (.fork 0) trivial
        (by decide +kernel) (by decide +kernel)
  have childDone : Schedule ⟨sixteenFrames, []⟩ _ _ _ :=
    (((forked.next (.process 1 .run) trivial (by decide +kernel) (by decide +kernel)).next
      (touch 1 ⟨0x1000, by decide⟩) trivial (by decide +kernel) (by decide +kernel)).next
      (touch 1 ⟨0x6fffffffe000, by decide⟩) trivial (by decide +kernel) (by decide +kernel)).next
      (.process 1 .preempt) trivial (by decide +kernel) (by decide +kernel)
  obtain ⟨rs, h, w, schedule, hlength, hrunning, hspaces, hfull⟩ : ∃ rs h w,
      Schedule ⟨sixteenFrames, []⟩ rs h w ∧ rs.length = 9 ∧ w.running = some 0 ∧
      h.machine.kernel.cache.entries.map CacheEntry.space = [1, 1] ∧
      Machine.isCacheFull (h.machine.step (touch 0 ⟨0x6fffffffd000, by decide⟩)).1 = true :=
    ⟨_, _, _, ((childDone.next (.process 0 .run) trivial (by decide +kernel)
      (by decide +kernel)).next (touch 0 ⟨0x1000, by decide⟩) trivial (by decide +kernel)
      (by decide +kernel)).next (touch 0 ⟨0x6fffffffe000, by decide⟩) trivial (by decide +kernel)
      (by decide +kernel), rfl, by decide +kernel, by decide +kernel, by decide +kernel⟩
  obtain ⟨hown, -, hcount⟩ := cache_of_running isFresh_sixteenFrames .start (by decide) schedule
  have houtcome := Machine.isCacheFull_iff.mp hfull
  obtain ⟨ps, hnodup, hslots, -, htouched⟩ := hcount 0 _ _ hrunning houtcome
  refine ⟨rs, h, w, schedule, hlength, hrunning, hspaces, fun e he => ?_, houtcome, ps, hnodup,
    hslots, htouched⟩
  obtain ⟨n, s, hn, hs, hid, -⟩ := hown e he
  exact ⟨n, s, hn, hs, hid⟩

end History

end DemandPaging
