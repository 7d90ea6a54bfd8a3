import DemandPaging.Proofs.Caching
import Mathlib.Data.Finset.Card

/-!
# The mapping cache as a bounded map

A `BoundedMap` is a finite map with at most so many keys.  It takes a new key only while it has
fewer, and the value of a key it has at any time.  The mapping cache is such a map from spaces
and pages to mappings, under any sequence of requests (`Kernel.cache_isMapOf`): what is found is
what was cached last and not dropped since, and a mapping is refused for no other reason than
that there are as many others as slots.

**Holes.**  Dropping the mappings of a space leaves holes between those of others.  A page that
is cached behind a hole must not be cached again in the hole.  It is not, because its own slot is
looked for in the whole row before any free one is.
-/

namespace DemandPaging

/-- **Bounded maps**: maps from keys to values with at most `n` keys. -/
structure BoundedMap (κ α : Type) (n : Nat) where
  find : κ → Option α
  keys : Finset κ
  mem_keys : ∀ k, k ∈ keys ↔ (find k).isSome = true
  bounded : keys.card ≤ n

namespace BoundedMap

variable {κ α : Type} {n : Nat} {m : BoundedMap κ α n} {k : κ} {a : α}

/-- The map without keys. -/
def empty : BoundedMap κ α n where
  find _ := none
  keys := ∅
  mem_keys := by simp
  bounded := by simp

/-- The map without the keys that have a property. -/
def remove (m : BoundedMap κ α n) (p : κ → Bool) : BoundedMap κ α n where
  find k := if p k then none else m.find k
  keys := m.keys.filter fun k => p k = false
  mem_keys k := by
    rw [Finset.mem_filter, m.mem_keys]
    cases p k <;> simp
  bounded := (Finset.card_filter_le _ _).trans m.bounded

/-- Whether the map can take a value for a key: it has the key, or may have one key more. -/
def HasRoom (m : BoundedMap κ α n) (k : κ) : Prop := k ∈ m.keys ∨ m.keys.card < n

/-- What has no room is a new key where there are as many keys as there may be. -/
theorem not_hasRoom_iff : ¬ m.HasRoom k ↔ k ∉ m.keys ∧ m.keys.card = n := by
  have hbounded := m.bounded
  unfold HasRoom
  rw [not_or]
  refine and_congr_right fun _ => ?_
  omega

variable [DecidableEq κ]

instance : Decidable (m.HasRoom k) := inferInstanceAs (Decidable (_ ∨ _))

/-- Sets the value of a key, if the map can take it. -/
def put (m : BoundedMap κ α n) (k : κ) (a : α) : BoundedMap κ α n :=
  if h : m.HasRoom k then
    { find := Function.update m.find k (some a)
      keys := insert k m.keys
      mem_keys := fun j => by
        rw [Finset.mem_insert, m.mem_keys, Function.update_apply]
        split <;> simp_all
      bounded := by
        rcases h with hkey | hroom
        · rw [Finset.insert_eq_of_mem hkey]
          exact m.bounded
        · exact (Finset.card_insert_le _ _).trans hroom }
  else m

theorem find_put (h : m.HasRoom k) (j : κ) :
    (m.put k a).find j = if j = k then some a else m.find j := by
  unfold put
  rw [dif_pos h]
  exact Function.update_apply _ _ _ _

theorem put_of_not_hasRoom (h : ¬ m.HasRoom k) : m.put k a = m := by
  unfold put
  rw [dif_neg h]

end BoundedMap

namespace Slots

variable {α : Type} {s : Slots α} {i : Nat} {p : α → Bool}

/-- Clearing empties the slots of the values with the property. -/
theorem getElem?_clear (s : Slots α) (p : α → Bool) (i : Nat) : (s.clear p).cells[i]? =
    (s.cells[i]?).map fun cell => cell.filter fun a => !p a := by
  simp [clear]

/-- Slots before the first free one are taken. -/
theorem not_free_of_lt (h : s.firstFree? = some i) {j : Nat} (hj : j < i) :
    s.cells[j]? ≠ some none := by
  unfold firstFree? at h
  obtain ⟨hlt, -, hbefore⟩ := List.findIdx?_eq_some_iff_getElem.mp h
  intro hnone
  obtain ⟨hj', hcell⟩ := List.getElem?_eq_some_iff.mp hnone
  simpa [hcell] using hbefore j hj

end Slots

namespace MappingCache

/-- **Cache maps**: what a cache of `n` slots is to its users. -/
abbrev Map (n : Nat) := BoundedMap (SpaceId × Page) CacheEntry n

/-- What a request about the cache does to the map. -/
def Map.after {n : Nat} (m : Map n) : CacheRequest → Map n
  | .insert e => m.put e.key e
  | .invalidate space => m.remove fun k => k.1 == space
  | .invalidateAll => .empty
  | .reserveSpaceId => m
  | .lookup _ _ => m
  | .entries => m

/-- A mapping for which a slot is found has one. -/
theorem hasSlot_of_slotFor? {c : MappingCache} {e : CacheEntry} {i : Nat}
    (h : c.slotFor? e = some i) : c.HasSlot e.space e.page := by
  obtain ⟨j, c', hinsert⟩ : ∃ j c', c.insert e = .ok (j, c') :=
    ⟨i, _, insert_eq_ok_iff.mpr ⟨h, rfl⟩⟩
  rcases insert_eq_ok hinsert with
    ⟨before, d, after, hold, -, hkey⟩ | ⟨before, after, hold, hnew, -⟩
  · have hd : d ∈ c.entries := hold ▸ List.mem_append_right _ List.mem_cons_self
    refine Or.inl ?_
    rw [find?_eq_entries_find?, List.find?_isSome]
    exact ⟨d, hd, CacheEntry.isFor_iff.mpr (Prod.ext_iff.mp hkey)⟩
  · -- with the new mapping there are no more than fit
    refine Or.inr ?_
    have hfits : c'.entries.length ≤ c'.capacity := List.length_filterMap_le _ _
    rw [capacity_insert hinsert, hnew] at hfits
    rw [size, hold]
    simpa [Nat.lt_iff_add_one_le, Nat.add_assoc] using hfits

/-- **Agreement** of a cache with a map. -/
structure Agrees {n : Nat} (c : MappingCache) (m : Map n) : Prop where
  capacity : c.capacity = n
  single : (c.entries.map CacheEntry.key).Nodup
  find : ∀ space p, c.find? space p = m.find (space, p)

namespace Agrees

variable {n : Nat} {c c' : MappingCache} {m : Map n} {e : CacheEntry} {space : SpaceId} {i : Nat}

/-- The keys of the map are those of the mappings that are cached. -/
theorem mem_keys_iff (h : c.Agrees m) (k : SpaceId × Page) :
    k ∈ c.entries.map CacheEntry.key ↔ k ∈ m.keys := by
  rw [m.mem_keys, ← h.find, find?_eq_entries_find?, List.find?_isSome, List.mem_map]
  refine exists_congr fun e => and_congr_right fun _ => ?_
  rw [CacheEntry.isFor_iff, CacheEntry.key, Prod.ext_iff]

/-- There are as many keys as mappings. -/
theorem card_keys (h : c.Agrees m) : m.keys.card = c.size := by
  have hkeys : m.keys = (c.entries.map CacheEntry.key).toFinset := by
    ext k
    rw [List.mem_toFinset, h.mem_keys_iff]
  rw [hkeys, List.toFinset_card_of_nodup h.single, List.length_map, size]

theorem hasRoom_iff (h : c.Agrees m) : m.HasRoom e.key ↔ c.HasSlot e.space e.page := by
  unfold BoundedMap.HasRoom HasSlot
  rw [m.mem_keys, CacheEntry.key, ← h.find, h.card_keys, h.capacity]

/-- **A mapping is refused** exactly if the map has no room for it. -/
theorem slotFor?_eq_none_iff (h : c.Agrees m) : c.slotFor? e = none ↔ ¬ m.HasRoom e.key := by
  rw [h.hasRoom_iff]
  refine ⟨not_hasSlot, fun hno => Option.eq_none_iff_forall_ne_some.mpr fun i hi => hno ?_⟩
  exact hasSlot_of_slotFor? hi

theorem insert (h : c.Agrees m) (hinsert : c.insert e = .ok (i, c')) :
    c'.Agrees (m.put e.key e) where
  capacity := (capacity_insert hinsert).trans h.capacity
  single := nodup_keys_insert hinsert h.single
  find space p := by
    have hroom : m.HasRoom e.key :=
      h.hasRoom_iff.mpr (hasSlot_of_slotFor? (insert_eq_ok_iff.mp hinsert).1)
    rw [find?_insert hinsert, m.find_put hroom, ← h.find, CacheEntry.key]
    simp only [Prod.ext_iff, eq_comm]

theorem invalidate (h : c.Agrees m) (space : SpaceId) :
    (c.invalidate space).Agrees (m.remove fun k => k.1 == space) where
  capacity := (capacity_invalidate c space).trans h.capacity
  single := by
    rw [entries_invalidate]
    exact h.single.sublist (List.filter_sublist.map _)
  find other p := by
    show _ = if _ then _ else _
    rw [← h.find, find?_eq_entries_find?, find?_eq_entries_find?, entries_invalidate,
      List.find?_filter]
    by_cases hother : other = space
    · subst hother
      simpa [CacheEntry.isFor, List.find?_eq_none] using fun d _ hd heq => absurd heq hd
    · have hne : (other == space) = false := by simpa using hother
      simp only [hne]
      refine congrArg (c.entries.find? ·) (funext fun d => ?_)
      rw [Bool.eq_iff_iff]
      by_cases hd : d.space = other
      · simp [CacheEntry.isFor, hd, hother]
      · simp [CacheEntry.isFor, hd]

theorem invalidateAll (h : c.Agrees m) : c.invalidateAll.Agrees (.empty : Map n) where
  capacity := (Slots.size_clear _ _).trans h.capacity
  single := by
    rw [entries_invalidateAll]
    exact List.nodup_nil
  find space p := by
    rw [find?_eq_entries_find?, entries_invalidateAll]
    rfl

theorem empty (n : Nat) : (MappingCache.empty n).Agrees (.empty : Map n) where
  capacity := capacity_empty n
  single := by
    rw [entries_empty]
    exact List.nodup_nil
  find space p := by
    rw [find?_eq_entries_find?, entries_empty]
    rfl

end Agrees

/-- **The slot for a mapping**: the one with the mapping of its page, or else, if there is no
such slot, the first free one. -/
def IsSlotFor (c : MappingCache) (e : CacheEntry) (i : Nat) : Prop :=
  (∃ d, c.slots.cells[i]? = some (some d) ∧ d.key = e.key) ∨
    e.key ∉ c.entries.map CacheEntry.key ∧ c.slots.cells[i]? = some none ∧
      ∀ j < i, c.slots.cells[j]? ≠ some none

theorem isSlotFor_of_slotFor? {c : MappingCache} {e : CacheEntry} {i : Nat}
    (h : c.slotFor? e = some i) : c.IsSlotFor e i := by
  unfold slotFor? at h
  cases hindex : c.slots.index? (·.isFor e.space e.page) with
  | some j =>
      rw [hindex] at h
      cases h
      obtain ⟨d, hcell, hd⟩ := Slots.getElem?_of_index? hindex
      exact Or.inl ⟨d, hcell, Prod.ext_iff.mpr (CacheEntry.isFor_iff.mp hd)⟩
  | none =>
      rw [hindex, Option.none_or] at h
      exact Or.inr ⟨key_not_mem_of_index? hindex, Slots.getElem?_of_firstFree? h,
        fun _ => Slots.not_free_of_lt h⟩

/-- **Caches that are a map**: what is found in them, and what each request does. -/
structure IsMapOf {n : Nat} (c : MappingCache) (m : Map n) : Prop where
  slots : c.slots.cells.length = n
  single : (c.entries.map CacheEntry.key).Nodup
  keys : ∀ k, k ∈ c.entries.map CacheEntry.key ↔ k ∈ m.keys
  size : c.size = m.keys.card
  lookup : ∀ space a, c.lookup space a = m.find (space, a.page)
  own : ∀ k e, m.find k = some e → e.key = k
  refused_iff : ∀ e, c.insert e = .error .cacheFull ↔ e.key ∉ m.keys ∧ m.keys.card = n
  /-- A mapping that is refused leaves the whole kernel as it is. -/
  refused : ∀ e, e.key ∉ m.keys → m.keys.card = n → ∀ k : Kernel, k.cache = c →
    Machine.answerCache (.insert e) k = .error (.failed .cacheFull) k
  /-- Any other mapping goes into its slot and changes no other one. -/
  insert : ∀ e, e.key ∈ m.keys ∨ m.keys.card < n → ∃ i, c.IsSlotFor e i ∧
    c.insert e = .ok (i, ⟨⟨c.slots.cells.set i (some e)⟩⟩)
  /-- Dropping the mappings of a space empties their slots. -/
  invalidate_own : ∀ (space : SpaceId) (i : Nat) (d : CacheEntry),
    c.slots.cells[i]? = some (some d) → d.space = space →
      (c.invalidate space).slots.cells[i]? = some none
  /-- All other slots, free ones among them, stay what they are. -/
  invalidate_other : ∀ (space : SpaceId) (i : Nat),
    (∀ d, c.slots.cells[i]? = some (some d) → d.space ≠ space) →
      (c.invalidate space).slots.cells[i]? = c.slots.cells[i]?
  invalidateAll : c.invalidateAll = .empty n

namespace Agrees

variable {n : Nat} {c : MappingCache} {m : Map n}

theorem insert_eq_error_iff (h : c.Agrees m) (e : CacheEntry) :
    c.insert e = .error .cacheFull ↔ e.key ∉ m.keys ∧ m.keys.card = n := by
  rw [MappingCache.insert_eq_error_iff, h.slotFor?_eq_none_iff, BoundedMap.not_hasRoom_iff,
    and_iff_left rfl]

theorem exists_insert (h : c.Agrees m) {e : CacheEntry}
    (hroom : e.key ∈ m.keys ∨ m.keys.card < n) :
    ∃ i, c.IsSlotFor e i ∧ c.insert e = .ok (i, ⟨⟨c.slots.cells.set i (some e)⟩⟩) := by
  cases hslot : c.slotFor? e with
  | none => exact absurd hroom (h.slotFor?_eq_none_iff.mp hslot)
  | some i => exact ⟨i, isSlotFor_of_slotFor? hslot, insert_eq_ok_iff.mpr ⟨hslot, rfl⟩⟩

theorem answer_refused {k : Kernel} {e : CacheEntry}
    (h : k.cache.insert e = .error .cacheFull) :
    Machine.answerCache (.insert e) k = .error (.failed .cacheFull) k := by
  have hends : Ends (Machine.answerCache (.insert e)) k (fun _ _ => False)
      fun abort k' => abort = .failed .cacheFull ∧ k' = k := by
    unfold Machine.answerCache Kernel.cacheMapping
    simp only [ends_bind, ends_get, Kernel.ends_orFail, h, and_self]
  cases hanswer : Machine.answerCache (.insert e) k with
  | ok reply k' => exact (hends.of_ok hanswer).elim
  | error abort k' =>
      obtain ⟨rfl, rfl⟩ := hends.of_error hanswer
      rfl

theorem isMapOf (h : c.Agrees m) : c.IsMapOf m where
  slots := h.capacity
  single := h.single
  keys := h.mem_keys_iff
  size := h.card_keys.symm
  lookup space a := h.find space a.page
  own k e hk := by
    rw [← h.find, find?_eq_entries_find?] at hk
    have hfor := List.find?_some (p := fun d : CacheEntry => d.isFor k.1 k.2) hk
    exact Prod.ext_iff.mpr (CacheEntry.isFor_iff.mp hfor)
  refused_iff := h.insert_eq_error_iff
  refused e hkey hfull k hk :=
    answer_refused (hk ▸ (h.insert_eq_error_iff e).mpr ⟨hkey, hfull⟩)
  insert e hroom := h.exists_insert hroom
  invalidate_own space i d hcell hd := by
    rw [MappingCache.invalidate, Slots.getElem?_clear, hcell]
    simp [hd]
  invalidate_other space i hother := by
    rw [MappingCache.invalidate, Slots.getElem?_clear]
    cases hcell : c.slots.cells[i]? with
    | none => rfl
    | some cell =>
        cases cell with
        | none => rfl
        | some d => simp [hother d hcell]
  invalidateAll := by
    unfold MappingCache.invalidateAll MappingCache.empty Slots.clear Slots.empty
    rw [← h.capacity, MappingCache.capacity, Slots.size, ← List.map_const']
    simp

end Agrees

end MappingCache

namespace Kernel

/-- The kernel after a request about its cache, answered or not. -/
def afterCache (k : Kernel) (r : CacheRequest) : Kernel :=
  match Machine.answerCache r k with
  | .ok _ k => k
  | .error _ k => k

/-- **A request keeps the agreement** between the cache and the map. -/
theorem agrees_afterCache {k : Kernel} {n : Nat} {m : MappingCache.Map n}
    (h : k.cache.Agrees m) (r : CacheRequest) : (k.afterCache r).cache.Agrees (m.after r) := by
  have hends : Ends (Machine.answerCache r) k (fun _ k' => k'.cache.Agrees (m.after r))
      fun _ k' => k'.cache.Agrees (m.after r) := by
    cases r with
    | reserveSpaceId => exact h
    | insert e =>
        unfold Machine.answerCache cacheMapping
        simp only [ends_bind, ends_get, ends_orFail, ends_modify, ends_record, ends_pure]
        split
        · next placed hinsert => exact h.insert hinsert
        · next hrefused =>
            have hslot := (MappingCache.insert_eq_error_iff.mp hrefused).1
            show k.cache.Agrees (m.put e.key e)
            rwa [BoundedMap.put_of_not_hasRoom (h.slotFor?_eq_none_iff.mp hslot)]
    | lookup space a => exact h
    | invalidate space => exact h.invalidate space
    | invalidateAll => exact h.invalidateAll
    | entries => exact h
  unfold afterCache
  cases hanswer : Machine.answerCache r k with
  | ok reply k' => exact hends.of_ok hanswer
  | error abort k' => exact hends.of_error hanswer

/-- **Requests keep the agreement**, however many. -/
theorem agrees_foldl_afterCache {k : Kernel} {n : Nat} {m : MappingCache.Map n}
    (h : k.cache.Agrees m) (rs : List CacheRequest) :
    (rs.foldl afterCache k).cache.Agrees (rs.foldl MappingCache.Map.after m) := by
  induction rs generalizing k m with
  | nil => exact h
  | cons r rs ih => exact ih (agrees_afterCache h r)

/-- **The cache is a bounded map** with as many keys at most as the kernel began with slots, under
all requests about it. -/
theorem cache_isMapOf (a : Allocator) (n : Nat) (rs : List CacheRequest) :
    (rs.foldl afterCache (initial a n)).cache.IsMapOf
      (rs.foldl MappingCache.Map.after (.empty : MappingCache.Map n)) :=
  (agrees_foldl_afterCache (.empty n) rs).isMapOf

end Kernel

end DemandPaging
