import DemandPaging.Proofs.Schedules

/-!
# Looking mappings up

What the processor finds in the cache after the kernel has cached a mapping: that mapping for its
page, and for every other page what it would have found before (`MappingCache.find?_insert`).  This
holds of any cache, also of one that has come to hold a page twice, because a mapping goes over the
first one of its page.

**Slots.**  Whether a mapping can be cached depends on its page alone (`MappingCache.HasSlot`), and
not on where it leads.
-/

namespace DemandPaging

namespace Slots

variable {α : Type} {s : Slots α} {i : Nat} {a : α} {p : α → Bool}

/-- The first value with a property is in the first slot with one. -/
theorem find?_of_index? {b : α} (h : s.index? p = some i) (hb : s.cells[i]? = some (some b)) :
    s.find? p = some b := by
  cases s with
  | mk cells =>
    simp only [index?, find?] at h hb ⊢
    induction cells generalizing i with
    | nil => cases h
    | cons c rest ih =>
        rw [List.findIdx?_cons] at h
        split at h
        · next hc =>
            cases h
            obtain rfl := Option.some.inj hb
            rw [List.findSome?_cons, Option.filter_some, if_pos (by simpa using hc)]
        · next hc =>
            obtain ⟨j, hj, rfl⟩ := Option.map_eq_some_iff.mp h
            have hskip : c.filter p = none := by
              cases c with
              | none => rfl
              | some d => simpa using hc
            rw [List.findSome?_cons, hskip]
            exact ih hj hb

/-- **What is placed** where its like was found, or else into the first free slot, is found there
from then on. -/
theorem index?_place (h : (s.index? p).or s.firstFree? = some i) (ha : p a = true) :
    i < s.cells.length ∧ (s.place i a).index? p = some i := by
  obtain ⟨hlt, hbefore⟩ : i < s.cells.length ∧
      ∀ j < i, ∀ c, s.cells[j]? = some c → c.any p = false := by
    cases hindex : s.index? p with
    | some j =>
        rw [hindex] at h
        cases h
        obtain ⟨hlt, -, hnot⟩ := List.findIdx?_eq_some_iff_getElem.mp hindex
        refine ⟨hlt, fun j hj c hc => ?_⟩
        obtain ⟨_, rfl⟩ := List.getElem?_eq_some_iff.mp hc
        simpa using hnot j hj
    | none =>
        rw [hindex, Option.none_or] at h
        obtain ⟨hlt, -⟩ := List.getElem?_eq_some_iff.mp (getElem?_of_firstFree? h)
        refine ⟨hlt, fun j _ c hc => ?_⟩
        simpa using List.findIdx?_eq_none_iff.mp hindex c (List.mem_of_getElem? hc)
  refine ⟨hlt, List.findIdx?_eq_some_iff_getElem.mpr ⟨by simpa [place] using hlt, ?_, ?_⟩⟩
  · simpa [place] using ha
  · intro j hj
    simp only [place, List.getElem_set_ne (Nat.ne_of_gt hj)]
    simpa using hbefore j hj _ (List.getElem?_eq_getElem (Nat.lt_trans hj hlt))

/-- A value without the property is not found, and neither was the one in its stead. -/
theorem find?_place_of_not (hold : ∀ b, s.cells[i]? = some (some b) → p b = false)
    (ha : p a = false) : (s.place i a).find? p = s.find? p := by
  cases s with
  | mk cells =>
    simp only [place, find?] at hold ⊢
    induction cells generalizing i with
    | nil => rfl
    | cons c rest ih =>
        cases i with
        | zero =>
            have hskip : c.filter p = none := by
              cases c with
              | none => rfl
              | some b => simpa using hold b rfl
            rw [List.set_cons_zero, List.findSome?_cons, List.findSome?_cons, hskip,
              Option.filter_some, ha]
            rfl
        | succ i =>
            rw [List.set_cons_succ, List.findSome?_cons, List.findSome?_cons, ih hold]

end Slots

theorem CacheEntry.isFor_iff {e : CacheEntry} {space : SpaceId} {p : Page} :
    e.isFor space p = true ↔ e.space = space ∧ e.page = p := by
  simp [isFor]

namespace MappingCache

variable {c c' : MappingCache} {e : CacheEntry} {i : Nat} {space : SpaceId} {p : Page}

/-- Whether a mapping of the page could be cached: it is cached already, or a slot is free. -/
def HasSlot (c : MappingCache) (space : SpaceId) (p : Page) : Prop :=
  (c.find? space p).isSome = true ∨ c.size < c.capacity

/-- A mapping that was cached is found in its slot. -/
theorem index?_insert (h : c.insert e = .ok (i, c')) : c'.slots.cells[i]? = some (some e) ∧
    c'.slots.index? (·.isFor e.space e.page) = some i := by
  obtain ⟨hslot, rfl⟩ := insert_eq_ok_iff.mp h
  obtain ⟨hlt, hindex⟩ := Slots.index?_place hslot (CacheEntry.isFor_iff.mpr ⟨rfl, rfl⟩)
  exact ⟨List.getElem?_set_self hlt, hindex⟩

/-- **What is found after a mapping was cached**: the mapping itself, and all others as before. -/
theorem find?_insert (h : c.insert e = .ok (i, c')) (space : SpaceId) (p : Page) :
    c'.find? space p = if e.space = space ∧ e.page = p then some e else c.find? space p := by
  have hnot : ∀ d : CacheEntry, ¬ (d.space = space ∧ d.page = p) → d.isFor space p = false :=
    fun d hd => Bool.eq_false_iff.mpr (mt CacheEntry.isFor_iff.mp hd)
  split
  · next hkey =>
      obtain ⟨rfl, rfl⟩ := hkey
      obtain ⟨hcell, hindex⟩ := index?_insert h
      exact Slots.find?_of_index? hindex hcell
  · next hkey =>
      obtain ⟨hslot, rfl⟩ := insert_eq_ok_iff.mp h
      refine Slots.find?_place_of_not (fun d hcell => ?_) (hnot e hkey)
      -- a mapping that is replaced is of the same page
      unfold slotFor? at hslot
      cases hindex : c.slots.index? (·.isFor e.space e.page) with
      | some j =>
          rw [hindex] at hslot
          cases hslot
          obtain ⟨d', hcell', hd⟩ := Slots.getElem?_of_index? hindex
          obtain rfl : d' = d := by simpa using hcell'.symm.trans hcell
          obtain ⟨hspace, hpage⟩ := CacheEntry.isFor_iff.mp hd
          rw [← hspace, ← hpage] at hkey
          exact hnot d' hkey
      | none =>
          rw [hindex, Option.none_or] at hslot
          rw [Slots.getElem?_of_firstFree? hslot] at hcell
          cases hcell

/-- Caching a mapping once more changes nothing. -/
theorem insert_again (h : c.insert e = .ok (i, c')) : c'.insert e = .ok (i, c') := by
  obtain ⟨-, hindex⟩ := index?_insert h
  refine insert_eq_ok_iff.mpr ⟨by rw [slotFor?, hindex, Option.some_or], ?_⟩
  obtain ⟨-, rfl⟩ := insert_eq_ok_iff.mp h
  simp only [Slots.place, List.set_set]

/-- Where there is a slot, one is found. -/
theorem HasSlot.slotFor?_ne_none (h : c.HasSlot e.space e.page) : c.slotFor? e ≠ none := by
  intro hnone
  obtain ⟨hmissing, hfull⟩ := full_of_slotFor?_eq_none hnone
  rcases h with hcached | hroom
  · obtain ⟨d, hd⟩ := Option.isSome_iff_exists.mp hcached
    rw [find?_eq_entries_find?] at hd
    have hkey : d.key = e.key := by
      simpa [CacheEntry.isFor, CacheEntry.key] using List.find?_some hd
    exact hmissing (List.mem_map.mpr ⟨d, List.mem_of_find?_eq_some hd, hkey⟩)
  · exact absurd hfull (Nat.ne_of_lt hroom)

/-- And where none is found, there is none. -/
theorem not_hasSlot (h : c.slotFor? e = none) : ¬ c.HasSlot e.space e.page :=
  fun hslot => hslot.slotFor?_ne_none h

end MappingCache

end DemandPaging
