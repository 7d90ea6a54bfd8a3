import DemandPaging.Proofs.Ownership
import DemandPaging.Proofs.Turns

/-!
# Coherence of the mapping cache

The processor believes the cache without asking.  So whatever is cached has to be what the page
table of a process says that is still there, and no frame may be given back while it is cached
(`History.run_coherent`).

**Where staleness could come from.**  Page tables of processes only ever gain mappings, so the
mapping of a fault is true from then on.  A process that ends takes its table away; it is the only
turn that does, and it drops what was cached first.  Numbers of spaces are not used twice, so no
other process is mistaken for the one that a mapping was cached for.
-/

namespace DemandPaging

namespace Slots

variable {α : Type} {s : Slots α} {i : Nat}

/-- Placing over a value puts the new one in its stead. -/
theorem values_replace {a : α} (h : s.cells[i]? = some (some a)) (b : α) :
    ∃ before after, s.values = before ++ a :: after ∧
      (s.place i b).values = before ++ b :: after := by
  cases s with
  | mk cells =>
    simp only [values, place] at h ⊢
    obtain ⟨hlt, hcell⟩ := List.getElem?_eq_some_iff.mp h
    have hsplit : cells = cells.take i ++ some a :: cells.drop (i + 1) := by
      rw [← hcell, List.getElem_cons_drop, List.take_append_drop]
    refine ⟨(cells.take i).filterMap id, (cells.drop (i + 1)).filterMap id, ?_, ?_⟩
    · conv_lhs => rw [hsplit]
      simp
    · rw [List.set_eq_take_append_cons_drop, if_pos hlt]
      simp

theorem getElem?_of_index? {p : α → Bool} (h : s.index? p = some i) :
    ∃ a, s.cells[i]? = some (some a) ∧ p a = true := by
  unfold index? at h
  obtain ⟨hlt, hany, -⟩ := List.findIdx?_eq_some_iff_getElem.mp h
  cases hcell : s.cells[i] with
  | none =>
      rw [hcell] at hany
      cases hany
  | some a =>
      rw [hcell] at hany
      exact ⟨a, by rw [List.getElem?_eq_getElem hlt, hcell], hany⟩

theorem forall_of_index?_eq_none {p : α → Bool} (h : s.index? p = none) :
    ∀ a ∈ s.values, p a = false := by
  unfold index? at h
  rw [List.findIdx?_eq_none_iff] at h
  intro a ha
  obtain ⟨c, hc, hca⟩ := List.mem_filterMap.mp ha
  have hnot := h c hc
  rw [show c = some a from hca] at hnot
  simpa using hnot

end Slots

/-- What a cached mapping is found by. -/
def CacheEntry.key (e : CacheEntry) : SpaceId × Page := (e.space, e.page)

namespace MappingCache

variable {c c' : MappingCache} {d e : CacheEntry} {i : Nat}

theorem insert_eq_ok_iff : c.insert e = .ok (i, c') ↔
    c.slotFor? e = some i ∧ c' = ⟨c.slots.place i e⟩ := by
  unfold insert
  cases c.slotFor? e with
  | none => simp
  | some j =>
      simp only [Except.ok.injEq, Prod.mk.injEq, Option.some.injEq]
      constructor
      · rintro ⟨rfl, rfl⟩
        exact ⟨rfl, rfl⟩
      · rintro ⟨rfl, rfl⟩
        exact ⟨rfl, rfl⟩

/-- A mapping for which no slot is found among those that are taken is not cached yet. -/
theorem key_not_mem_of_index? (h : c.slots.index? (·.isFor e.space e.page) = none) :
    e.key ∉ c.entries.map CacheEntry.key := by
  intro hmem
  obtain ⟨d, hd, hkey⟩ := List.mem_map.mp hmem
  have hnot := Slots.forall_of_index?_eq_none h d hd
  rw [CacheEntry.key, CacheEntry.key, Prod.mk.injEq] at hkey
  simp [CacheEntry.isFor, hkey] at hnot

/-- **Caching a mapping** puts it in the stead of the one there was for the page, or among the
others if there was none. -/
theorem insert_eq_ok (h : c.insert e = .ok (i, c')) :
    (∃ before d after, c.entries = before ++ d :: after ∧ c'.entries = before ++ e :: after ∧
      d.key = e.key) ∨
    ∃ before after, c.entries = before ++ after ∧ c'.entries = before ++ e :: after ∧
      e.key ∉ c.entries.map CacheEntry.key := by
  obtain ⟨hslot, rfl⟩ := insert_eq_ok_iff.mp h
  unfold slotFor? at hslot
  cases hindex : c.slots.index? (·.isFor e.space e.page) with
  | some j =>
      obtain ⟨d, hcell, hfor⟩ := Slots.getElem?_of_index? hindex
      rw [hindex] at hslot
      cases hslot
      obtain ⟨before, after, hold, hnew⟩ := Slots.values_replace hcell e
      refine Or.inl ⟨before, d, after, hold, hnew, ?_⟩
      simpa [CacheEntry.isFor, CacheEntry.key] using hfor
  | none =>
      rw [hindex, Option.none_or] at hslot
      obtain ⟨before, after, hold, hnew⟩ :=
        Slots.values_place (Slots.getElem?_of_firstFree? hslot) e
      exact Or.inr ⟨before, after, hold, hnew, key_not_mem_of_index? hindex⟩

theorem mem_of_insert (h : c.insert e = .ok (i, c')) (hd : d ∈ c'.entries) :
    d = e ∨ d ∈ c.entries := by
  rcases insert_eq_ok h with ⟨before, x, after, hold, hnew, -⟩ | ⟨before, after, hold, hnew, -⟩
  · rw [hnew] at hd
    rw [hold]
    simp only [List.mem_append, List.mem_cons] at hd ⊢
    tauto
  · rw [hnew] at hd
    rw [hold]
    simp only [List.mem_append, List.mem_cons] at hd ⊢
    tauto

/-- No page of a space is cached twice. -/
theorem nodup_keys_insert (h : c.insert e = .ok (i, c'))
    (hnodup : (c.entries.map CacheEntry.key).Nodup) : (c'.entries.map CacheEntry.key).Nodup := by
  rcases insert_eq_ok h with
    ⟨before, x, after, hold, hnew, hkey⟩ | ⟨before, after, hold, hnew, hkey⟩
  · rw [hnew, List.map_append, List.map_cons, ← hkey, ← List.map_cons, ← List.map_append, ← hold]
    exact hnodup
  · have hperm : c'.entries.Perm (e :: c.entries) := by
      rw [hnew, hold]
      exact List.perm_middle
    rw [(hperm.map CacheEntry.key).nodup_iff, List.map_cons, List.nodup_cons]
    exact ⟨hkey, hnodup⟩

end MappingCache

namespace Process

variable {p : Process} {e : CacheEntry}

/-- **Backing a cached mapping**: the process has not ended, and the page table of its space says
the same as the cache. -/
def Backs (p : Process) (e : CacheEntry) : Prop :=
  p.exitStatus = none ∧ ∃ s, p.space = some s ∧ s.id = e.space ∧
    s.table.find? e.page = some ⟨e.page, e.frame, e.flags⟩

/-- What is left after dropping was there before, and belongs to others. -/
theorem mem_dropFrom {c : MappingCache} (h : e ∈ (p.dropFrom c).entries) :
    e ∈ c.entries ∧ ∀ s, p.space = some s → s.id ≠ e.space := by
  unfold dropFrom at h
  split at h
  · next s hs =>
      rw [MappingCache.entries_invalidate, List.mem_filter] at h
      refine ⟨h.1, fun t ht => ?_⟩
      obtain rfl := Option.some.inj (hs.symm.trans ht)
      intro heq
      simp [heq] at h
  · next hs =>
      refine ⟨h, fun t ht => ?_⟩
      rw [hs] at ht
      cases ht

theorem dropFrom_sublist (p : Process) (c : MappingCache) :
    (p.dropFrom c).entries.Sublist c.entries := by
  unfold dropFrom
  split
  · rw [MappingCache.entries_invalidate]
    exact List.filter_sublist
  · exact List.Sublist.refl _

end Process

namespace PageFault

variable {access : Access} {a : VirtAddr} {c : Coverage} {w w' : Workspace} {e d : PageEntry}
  {r : Except MemoryError Unit} {p : Page}

/-- Bringing in a page leaves all mappings in place. -/
theorem Backing.extends (h : Backing a c w e w') (hp : w.space.table.find? p = some d) :
    w'.space.table.find? p = some d := by
  rw [h.find? p]
  split
  · next hpage =>
      cases h with
      | found mapped => exact mapped.symm.trans (hpage ▸ hp)
      | made unmapped room taken inserted =>
          rw [hpage, hp] at unmapped
          cases unmapped
  · exact hp

/-- **A fault leaves all mappings in place.** -/
theorem Handling.extends (h : Handling access a w r w') (hp : w.space.table.find? p = some d) :
    w'.space.table.find? p = some d := by
  cases h with
  | refused _ => exact hp
  | resolved _ resolution =>
      cases resolution with
      | uncovered _ => exact hp
      | forbidden _ _ => exact hp
      | starved _ _ _ _ => exact hp
      | cramped _ _ _ _ _ _ => exact hp
      | full _ backing _ _ => exact backing.extends hp
      | cached _ backing _ _ => exact backing.extends hp

/-- **A fault caches at most what the page table says.** -/
theorem Handling.cache (h : Handling access a w r w') : w'.space.id = w.space.id ∧
    (w'.kernel.cache = w.kernel.cache ∨ ∃ e slot, w'.space.table.find? a.page = some e ∧
      w.kernel.cache.insert ⟨w.space.id, a.page, e.frame, e.flags⟩ =
        .ok (slot, w'.kernel.cache)) := by
  cases h with
  | refused _ => exact ⟨rfl, Or.inl rfl⟩
  | resolved _ resolution =>
      cases resolution with
      | uncovered _ => exact ⟨rfl, Or.inl rfl⟩
      | forbidden _ _ => exact ⟨rfl, Or.inl rfl⟩
      | starved _ _ _ _ => exact ⟨rfl, Or.inl rfl⟩
      | cramped _ _ _ _ _ _ => exact ⟨rfl, Or.inl rfl⟩
      | full _ backing _ _ => exact ⟨backing.same.1, Or.inl backing.same.2.2.2⟩
      | @cached c e w₁ slot cache _ backing _ placed =>
          obtain ⟨hid, -, -, hcache⟩ := backing.same
          rw [hid, hcache] at placed
          have hfind := backing.find? a.page
          rw [if_pos rfl] at hfind
          exact ⟨hid, Or.inr ⟨e, slot, hfind, placed⟩⟩

theorem Handles.extends (h : Handles access a w r w') (hp : w.space.table.find? p = some d) :
    w'.space.table.find? p = some d := by
  obtain ⟨w₁, w₂, hbefore, hhandling, hafter⟩ := h
  rw [hafter.space]
  exact hhandling.extends (hbefore.space ▸ hp)

theorem Handles.cache (h : Handles access a w r w') : w'.space.id = w.space.id ∧
    (w'.kernel.cache = w.kernel.cache ∨ ∃ e slot, w'.space.table.find? a.page = some e ∧
      w.kernel.cache.insert ⟨w.space.id, a.page, e.frame, e.flags⟩ =
        .ok (slot, w'.kernel.cache)) := by
  obtain ⟨w₁, w₂, hbefore, hhandling, hafter⟩ := h
  have hcache := hhandling.cache
  rw [hbefore.space, hbefore.cache] at hcache
  rw [hafter.space, hafter.cache]
  exact hcache

end PageFault

/-- Spaces that share a frame are one. -/
theorem Custody.eq_of_shared {k : Kernel} {live : List AddressSpace} {held : List Block}
    {tally : Tally} (h : Custody k live held tally) {s t : AddressSpace} (hs : s ∈ live)
    (ht : t ∈ live) {f : Frame} (hfs : f ∈ s.frames) (hft : f ∈ t.frames) : s = t := by
  have hapart := (List.nodup_flatMap.mp h.nodup_frames).2
  have hsymm : Std.Symm (Function.onFun List.Disjoint AddressSpace.frames) :=
    ⟨fun _ _ hdisjoint _ hft hfs => hdisjoint hfs hft⟩
  by_contra hne
  exact hapart.forall hs ht hne hfs hft

/-- A member of a list is still there after another one has been replaced. -/
theorem eq_or_mem_set {α : Type} {l : List α} {n : Nat} {a b : α} (h : l[n]? = some a)
    (hb : b ∈ l) (c : α) : b = a ∨ b ∈ l.set n c := by
  obtain ⟨i, hi⟩ := List.mem_iff_getElem?.mp hb
  by_cases hin : n = i
  · subst hin
    exact Or.inl (Option.some.inj (hi.symm.trans h))
  · refine Or.inr (List.mem_iff_getElem?.mpr ⟨i, ?_⟩)
    rw [List.getElem?_set_ne hin, hi]

namespace Machine

variable {m m' : Machine} {n : Nat} {p q : Process} {e : CacheEntry} {r : Request}

/-- **Coherent machines**: everything cached is backed by a process, and cached once. -/
structure Coherent (m : Machine) : Prop where
  backed : ∀ e ∈ m.kernel.cache.entries, ∃ p ∈ m.processes, p.Backs e
  single : (m.kernel.cache.entries.map CacheEntry.key).Nodup
  /-- Who has a space has not ended. -/
  running : ∀ p ∈ m.processes, p.space ≠ none → p.exitStatus = none

/-- Replacing a process does no harm to what another one backs. -/
theorem backed_set (found : m.processes[n]? = some p) (hkeep : p.Backs e → q.Backs e)
    (h : ∃ x ∈ m.processes, x.Backs e) : ∃ x ∈ m.processes.set n q, x.Backs e := by
  obtain ⟨x, hx, hbacks⟩ := h
  rcases eq_or_mem_set found hx q with rfl | hmem
  · obtain ⟨hlt, -⟩ := List.getElem?_eq_some_iff.mp found
    exact ⟨q, List.mem_set hlt q, hkeep hbacks⟩
  · exact ⟨x, hmem, hbacks⟩

theorem running_set (h : m.Coherent) (hq : q.space ≠ none → q.exitStatus = none) :
    ∀ x ∈ m.processes.set n q, x.space ≠ none → x.exitStatus = none := by
  intro x hx
  rcases List.mem_or_eq_of_mem_set hx with hold | rfl
  · exact h.running x hold
  · exact hq

namespace Coherent

/-- A process joining the others does no harm. -/
theorem join (h : m.Coherent) (hcache : m'.kernel.cache = m.kernel.cache)
    (hprocesses : m'.processes = m.processes ++ [p]) (hp : p.exitStatus = none) :
    m'.Coherent where
  backed e he := by
    obtain ⟨x, hx, hbacks⟩ := h.backed e (hcache ▸ he)
    exact ⟨x, hprocesses ▸ List.mem_append_left _ hx, hbacks⟩
  single := hcache ▸ h.single
  running x hx hspace := by
    rw [hprocesses, List.mem_append, List.mem_singleton] at hx
    rcases hx with hx | rfl
    · exact h.running x hx hspace
    · exact hp

/-- A fault keeps everything that is cached true, and what it caches is true. -/
theorem fault (h : m.Coherent) (found : m.processes[n]? = some p) {s s' : AddressSpace}
    (within : p.space = some s) {access : Access} {a : VirtAddr} {outcome : Except MemoryError Unit}
    (handled : PageFault.Handles access a ⟨m.kernel, s⟩ outcome ⟨m'.kernel, s'⟩)
    (processes : m'.processes = m.processes.set n { p with space := some s' }) : m'.Coherent := by
  obtain ⟨hid, hcache⟩ := handled.cache
  have hmem : p ∈ m.processes := List.mem_of_getElem? found
  have hrunning : p.exitStatus = none := h.running p hmem (by simp [within])
  have hkept : ∀ e ∈ m.kernel.cache.entries, ∃ x ∈ m'.processes, x.Backs e := by
    intro e he
    rw [processes]
    refine backed_set found ?_ (h.backed e he)
    rintro ⟨-, t, ht, htid, hpage⟩
    obtain rfl := Option.some.inj (within.symm.trans ht)
    exact ⟨hrunning, s', rfl, hid.trans htid, handled.extends hpage⟩
  have hrunning' : ∀ x ∈ m'.processes, x.space ≠ none → x.exitStatus = none := by
    rw [processes]
    exact running_set h fun _ => hrunning
  rcases hcache with hsame | ⟨d, slot, hfind, placed⟩
  · exact ⟨fun e he => hkept e (hsame ▸ he), hsame ▸ h.single, hrunning'⟩
  · refine ⟨fun e he => ?_, MappingCache.nodup_keys_insert placed h.single, hrunning'⟩
    rcases MappingCache.mem_of_insert placed he with rfl | hold
    · have hnew : { p with space := some s' } ∈ m'.processes :=
        processes ▸ List.mem_set (List.getElem?_eq_some_iff.mp found).1 _
      refine ⟨_, hnew, hrunning, s', rfl, hid, ?_⟩
      rw [hfind, ← (PageRow.mem_of_find? hfind).2]
    · exact hkept e hold

/-- **What one turn keeps.** -/
theorem turn (h : m.Coherent) (hturn : Turn m r m') : m'.Coherent := by
  cases hturn with
  | idle processes cache =>
      exact ⟨processes ▸ cache ▸ h.backed, cache ▸ h.single, processes ▸ h.running⟩
  | started made running processes cache => exact h.join cache processes running
  | forked asked found made running processes cache => exact h.join cache processes running
  | faulted found within handled processes => exact h.fault found within handled processes
  | @kept n r p q m' found space exitStatus processes cache =>
      have hkeep : ∀ e, p.Backs e → q.Backs e := fun e hp => by
        unfold Process.Backs
        rw [space, exitStatus]
        exact hp
      have hsub : m'.kernel.cache.entries.Sublist m.kernel.cache.entries := by
        rcases cache with hcache | hcache
        · rw [hcache]
        · rw [hcache]
          exact p.dropFrom_sublist _
      refine ⟨fun e he => ?_, (hsub.map _).nodup h.single, ?_⟩
      · rw [processes]
        exact backed_set found (hkeep e) (h.backed e (hsub.subset he))
      · rw [processes]
        refine running_set h ?_
        rw [space, exitStatus]
        exact h.running p (List.mem_of_getElem? found)
  | @ended n r p q m' found space processes cache =>
      refine ⟨fun e he => ?_, ?_, ?_⟩
      · rw [cache] at he
        obtain ⟨hold, hothers⟩ := Process.mem_dropFrom he
        rw [processes]
        refine backed_set found ?_ (h.backed e hold)
        -- what the process itself had backed is not cached any more
        rintro ⟨-, s, hs, hid, -⟩
        exact absurd hid (hothers s hs)
      · rw [cache]
        exact ((p.dropFrom_sublist _).map _).nodup h.single
      · rw [processes]
        exact running_set h fun hne => absurd space hne

end Coherent

end Machine

namespace History

variable {start h : History} {rs : List Request}

/-- **What a run of processes keeps**, by induction on its requests. -/
theorem Run.coherent (run : Run start rs h) (turns : ∀ r ∈ rs, r.isOfProcesses = true)
    (hstart : start.machine.Coherent) : h.machine.Coherent := by
  induction run with
  | start => exact hstart
  | next _ r _ _ ih =>
      have hbefore := ih fun r' hr' => turns r' (List.mem_append_left _ hr')
      exact hbefore.turn (Machine.turn_step (turns r (by simp)))

/-- A fresh machine that has nothing cached is coherent. -/
theorem coherent_of_isFresh {m : Machine} (fresh : m.IsFresh) (cold : m.kernel.cache.entries = []) :
    m.Coherent where
  backed := by simp [cold]
  single := by simp [cold]
  running p hp hspace := by
    -- there is no space yet, so nobody has one
    obtain ⟨s, hs⟩ := Option.ne_none_iff_exists'.mp hspace
    have hlive := Machine.mem_live_of_process hp hs
    rw [fresh.empty] at hlive
    cases hlive

/-- **Coherence.**  Let a fresh machine have nothing cached, and let programs be started, processes
be forked, put on the processor and taken off it, fault, end and be killed, and frames be taken and
given back by others, in any order and whether or not the single requests succeed.  Then everything
that is cached carries the number of the space of a process that has not ended, and of no other
space; the page table of that space says the same about the page; the frame is in use, by that
space alone; and no page of a space is cached twice. -/
theorem run_coherent {m : Machine} (fresh : m.IsFresh) (cold : m.kernel.cache.entries = [])
    (run : Run ⟨m, []⟩ rs h) (turns : ∀ r ∈ rs, r.isOfProcesses = true) :
    (∀ e ∈ h.machine.kernel.cache.entries, ∃ p ∈ h.machine.processes, ∃ s,
      p.exitStatus = none ∧ p.space = some s ∧ s.id = e.space ∧
      s.table.find? e.page = some ⟨e.page, e.frame, e.flags⟩ ∧
      h.machine.kernel.allocator.entry? e.frame = some (.inUse true 1) ∧
      ∀ t ∈ h.machine.live, t.id = e.space ∨ e.frame ∈ t.frames → t = s) ∧
    (h.machine.kernel.cache.entries.map CacheEntry.key).Nodup := by
  have hcoherent := run.coherent turns (coherent_of_isFresh fresh cold)
  obtain ⟨room, -, hc⟩ := run.inCustody (inCustody_of_isFresh fresh)
  obtain ⟨map, howned⟩ := hc.owned
  refine ⟨fun e he => ?_, hcoherent.single⟩
  obtain ⟨p, hp, hrunning, s, hs, hid, hpage⟩ := hcoherent.backed e he
  have hlive := Machine.mem_live_of_process hp hs
  have hframe : e.frame ∈ s.frames :=
    List.mem_map.mpr ⟨_, (PageRow.mem_of_find? hpage).1, rfl⟩
  refine ⟨p, hp, s, hrunning, hs, hid, hpage, ?_, fun t ht hshared => ?_⟩
  · rw [Allocator.entry?, howned.source]
    exact howned.single e.frame (List.mem_flatMap.mpr ⟨s, hlive, hframe⟩)
  · rcases hshared with hsame | hmapped
    · exact List.inj_on_of_nodup_map hc.distinct ht hlive (hsame.trans hid.symm)
    · exact hc.eq_of_shared ht hlive hmapped hframe

/-- Coherence over sixteen frames and a cache of two slots: a process and its child fault until the
cache is full, the child ends, and a second child is given its frames.  What is cached in the end is
a mapping of the first process and one of the second child, to a frame of the first one. -/
theorem run_coherent_sixteen_frames :
    ∃ rs h, Run ⟨sixteenFrames, []⟩ rs h ∧ rs.length = 8 ∧
      h.machine.kernel.cache.entries.map (fun e => (e.key.1, e.frame)) =
        [(1, ⟨2, by decide⟩), (3, ⟨6, by decide⟩)] ∧
      (∀ e ∈ h.machine.kernel.cache.entries, ∃ p ∈ h.machine.processes, p.Backs e ∧
        h.machine.kernel.allocator.entry? e.frame = some (.inUse true 1)) ∧
      (h.machine.kernel.cache.entries.map CacheEntry.key).Nodup := by
  let touch (n : Nat) (a : VirtAddr) : Request := .fault (.owner (.process n)) .write a
  have forked : Run ⟨sixteenFrames, []⟩ _ _ :=
    (Run.start.next (.startProgram [⟨⟨0x1000, by decide⟩, [1, 2, 3], 8, ⟨true, true, false⟩⟩]
      ⟨0x1000, by decide⟩) trivial (by decide +kernel)).next (.fork 0) trivial (by decide +kernel)
  have full : Run ⟨sixteenFrames, []⟩ _ _ :=
    ((forked.next (touch 0 ⟨0x1000, by decide⟩) trivial (by decide +kernel)).next
      (touch 1 ⟨0x1000, by decide⟩) trivial (by decide +kernel)).next
      (touch 1 ⟨0x6fffffffe000, by decide⟩) trivial (by decide +kernel)
  have run : Run ⟨sixteenFrames, []⟩ _ _ :=
    ((full.next (.process 1 (.exit 0)) trivial (by decide +kernel)).next (.fork 0) trivial
      (by decide +kernel)).next (touch 2 ⟨0x1000, by decide⟩) trivial (by decide +kernel)
  obtain ⟨hbacked, hsingle⟩ := run_coherent isFresh_sixteenFrames (by decide) run (by decide)
  refine ⟨_, _, run, rfl, by decide +kernel, fun e he => ?_, hsingle⟩
  obtain ⟨p, hp, s, hrunning, hs, hid, hpage, hframe, -⟩ := hbacked e he
  exact ⟨p, hp, ⟨hrunning, s, hs, hid, hpage⟩, hframe⟩

end History

end DemandPaging
