import DemandPaging.Proofs.Overlaps
import Mathlib.Logic.Function.Iterate

/-!
# Region lists only append

A region list keeps its room in a number beside the regions, asks for more by doubling it, and is
copied with its room.  This says what comes of any sequence of pushes and copies, with pushes going
on at a list and at its copies, and with a heap that may refuse room at any point
(`RegionList.Family.run_appendsOnly`).

**Who holds what.**  What a list holds can be said without looking at a list.  Read what has been
done backwards: what was pushed to a list is what was pushed under its own number, until one comes
to the copy that made the list, and from there on what was pushed to its origin
(`RegionList.pushedTo`).

**Room.**  How much room a list has hangs on what it began with and on how many regions it holds,
and not on where it was copied or refused: it is the first of `initial`, `grownCapacity initial`, …
that is enough (`RegionList.IsRoomFor`).  A copy takes over the number with the regions, so this is
an invariant of each list by itself (`RegionList.Holds`), and induction along the calls carries it
through the family.

**On its own.**  What a call does to a list that exists is a function of that list and the call
(`RegionList.undergo`).  So pushes to another list, be it the origin or a copy, cannot matter.
-/

namespace DemandPaging

namespace RegionList

variable {l : RegionList} {willing : Bool} {rs : List Region} {initial n room : Nat}

/-! ### What a list tells -/

/-- The greatest end is an end, and no end is above it. -/
theorem highestEnd?_eq_some_iff {e : Nat} : l.highestEnd? = some e ↔
    (∃ r ∈ l.regions, r.limit = e) ∧ ∀ r ∈ l.regions, r.limit ≤ e := by
  unfold highestEnd?
  rw [List.max?_eq_some_iff, List.mem_map, List.forall_mem_map]

/-- **What a list tells** that holds the regions `rs`. -/
structure Tells (l : RegionList) (rs : List Region) : Prop where
  regions : l.regions = rs
  size : l.size = rs.length
  isEmpty : l.isEmpty = true ↔ rs = []
  /-- The region found is the first that contains the address. -/
  find_some : ∀ a r, l.find? a = some r ↔ r.contains a = true ∧
    ∃ before after, rs = before ++ r :: after ∧ ∀ r' ∈ before, r'.contains a = false
  find_none : ∀ a, l.find? a = none ↔ ∀ r ∈ rs, r.contains a = false
  highest_some : ∀ e, l.highestEnd? = some e ↔ (∃ r ∈ rs, r.limit = e) ∧ ∀ r ∈ rs, r.limit ≤ e
  highest_none : l.highestEnd? = none ↔ rs = []

theorem tells_regions (l : RegionList) : l.Tells l.regions where
  regions := rfl
  size := rfl
  isEmpty := List.isEmpty_iff
  find_some _ _ := find?_eq_some_iff
  find_none a := by
    rw [find?, List.find?_eq_none]
    simp only [Bool.not_eq_true]
  highest_some _ := highestEnd?_eq_some_iff
  highest_none := by
    rw [highestEnd?, List.max?_eq_none_iff, List.map_eq_nil_iff]

/-! ### Room -/

/-- **Room for `n` regions** in a list that began with room for `initial`: enlarged until it is
enough, and no further. -/
def IsRoomFor (initial n room : Nat) : Prop :=
  ∃ k, room = grownCapacity^[k] initial ∧ n ≤ room ∧ ∀ j < k, grownCapacity^[j] initial < n

namespace IsRoomFor

theorem zero (initial : Nat) : IsRoomFor initial 0 initial :=
  ⟨0, rfl, Nat.zero_le _, fun _ hj => absurd hj (Nat.not_lt_zero _)⟩

theorem le (h : IsRoomFor initial n room) : n ≤ room := by
  obtain ⟨_, -, hle, -⟩ := h
  exact hle

/-- Where there is room for one more it stays. -/
theorem succ (h : IsRoomFor initial n room) (hlt : n < room) : IsRoomFor initial (n + 1) room := by
  obtain ⟨k, hroom, -, hbefore⟩ := h
  exact ⟨k, hroom, hlt, fun j hj => Nat.lt_succ_of_lt (hbefore j hj)⟩

/-- Where there is none it is enlarged once. -/
theorem grown (h : IsRoomFor initial n n) : IsRoomFor initial (n + 1) (grownCapacity n) := by
  obtain ⟨k, hroom, -, hbefore⟩ := h
  refine ⟨k + 1, ?_, lt_grownCapacity n, fun j hj => ?_⟩
  · rw [Function.iterate_succ_apply', ← hroom]
  · rcases Nat.lt_succ_iff_lt_or_eq.mp hj with hlt | rfl
    · exact Nat.lt_succ_of_lt (hbefore j hlt)
    · exact hroom ▸ Nat.lt_succ_self n

end IsRoomFor

/-- **Holding**: the regions of the list are `rs`, and the room kept beside them is what doubling
from `initial` has come to and a heap has granted. -/
structure Holds (l : RegionList) (initial : Nat) (rs : List Region) : Prop where
  regions : l.regions = rs
  room : IsRoomFor initial rs.length l.capacity
  bytes : l.capacity * entrySize ≤ largestAllocation

namespace Holds

theorem withCapacity (h : withCapacity initial = .ok l) : l.Holds initial [] := by
  obtain ⟨hbytes, rfl⟩ := withCapacity_eq_ok_iff.mp h
  exact ⟨rfl, .zero initial, hbytes⟩

theorem size (h : l.Holds initial rs) : l.size = rs.length := congrArg List.length h.regions

/-- The room never falls behind: a list that is not full has some left. -/
theorem ne_capacity_iff (h : l.Holds initial rs) : l.size ≠ l.capacity ↔ l.size < l.capacity := by
  have hle := h.room.le
  rw [h.size]
  omega

theorem push (h : l.Holds initial rs)
    (granted : l.size ≠ l.capacity ∨ Grants willing (grownCapacity l.capacity)) (r : Region) :
    (l.push r).Holds initial (rs ++ [r]) := by
  have hregions : (l.push r).regions = rs ++ [r] := congrArg (· ++ [r]) h.regions
  have hlength : (rs ++ [r]).length = rs.length + 1 := List.length_append
  have hroom := h.room
  by_cases hfull : l.size = l.capacity
  · have hcapacity : (l.push r).capacity = grownCapacity l.capacity := if_pos hfull
    have hgrants := granted.resolve_left (not_not_intro hfull)
    rw [← h.size, hfull] at hroom
    refine ⟨hregions, ?_, hcapacity ▸ hgrants.2⟩
    rw [hlength, hcapacity, ← h.size, hfull]
    exact hroom.grown
  · have hcapacity : (l.push r).capacity = l.capacity := if_neg hfull
    have hlt := h.ne_capacity_iff.mp hfull
    rw [h.size] at hlt
    refine ⟨hregions, ?_, hcapacity ▸ h.bytes⟩
    rw [hlength, hcapacity]
    exact hroom.succ hlt

theorem push_eq (h : l.Holds initial rs) (r : Region) : l.push r =
    if l.size < l.capacity then ⟨l.regions ++ [r], l.capacity⟩
    else ⟨l.regions ++ [r], max (2 * l.capacity) initialCapacity⟩ := by
  by_cases hfull : l.size = l.capacity
  · have hroom : ¬ l.size < l.capacity := fun hlt => h.ne_capacity_iff.mpr hlt hfull
    rw [RegionList.push, if_pos hfull, if_neg hroom, grownCapacity, Nat.mul_comm]
  · rw [RegionList.push, if_neg hfull, if_pos (h.ne_capacity_iff.mp hfull)]

theorem tryPush_eq (h : l.Holds initial rs) (willing : Bool) (r : Region) : l.tryPush willing r =
    if l.size < l.capacity ∨ willing = true ∧
        max (2 * l.capacity) initialCapacity * entrySize ≤ largestAllocation then .ok (l.push r)
    else .error .outOfMemory := by
  have hgrants : Grants willing (grownCapacity l.capacity) ↔ willing = true ∧
      max (2 * l.capacity) initialCapacity * entrySize ≤ largestAllocation := by
    have hpos : grownCapacity l.capacity ≠ 0 :=
      Nat.ne_of_gt (Nat.zero_lt_of_lt (lt_grownCapacity l.capacity))
    rw [Grants, or_iff_left hpos, grownCapacity, Nat.mul_comm l.capacity]
  rw [RegionList.tryPush_eq]
  exact if_congr (or_congr h.ne_capacity_iff hgrants) rfl rfl

end Holds

/-- **Doubling**: how much room a list has that began with room for `initial`, and what pushing and
copying make of it. -/
structure Doubles (l : RegionList) (initial : Nat) : Prop where
  fits : l.size ≤ l.capacity
  room : IsRoomFor initial l.size l.capacity
  /-- To double the room is arithmetic on machine words. -/
  word : 2 * l.capacity < wordLimit
  push : ∀ r, l.push r =
    if l.size < l.capacity then ⟨l.regions ++ [r], l.capacity⟩
    else ⟨l.regions ++ [r], max (2 * l.capacity) initialCapacity⟩
  /-- A full list is not pushed to if the heap refuses it the room. -/
  tryPush : ∀ willing r, l.tryPush willing r =
    if l.size < l.capacity ∨ willing = true ∧
        max (2 * l.capacity) initialCapacity * entrySize ≤ largestAllocation then .ok (l.push r)
    else .error .outOfMemory
  /-- A copy has the regions and the room of its origin. -/
  duplicate : ∀ willing, l.duplicate willing =
    if willing = true ∨ l.capacity = 0 then .ok l else .error .outOfMemory

theorem Holds.doubles (h : l.Holds initial rs) : l.Doubles initial where
  fits := h.size ▸ h.room.le
  room := h.size ▸ h.room
  word := by
    have hbytes := h.bytes
    unfold entrySize largestAllocation at hbytes
    unfold wordLimit
    omega
  push := h.push_eq
  tryPush := h.tryPush_eq
  duplicate willing := by
    -- what the list has was granted once, so only the heap can refuse as much again
    rw [RegionList.duplicate_eq]
    exact if_congr (and_iff_left h.bytes) rfl rfl

/-! ### Calls, and a list by itself -/

/-- **Calls** on lists that are numbered in the order in which they came to be.  The heap may be
willing at one call and unwilling at the next. -/
inductive Call where
  | push (list : Nat) (region : Region) (willing : Bool)
  | duplicate (list : Nat) (willing : Bool)

/-- Whether the call pushes to list number `n`. -/
def Call.pushesTo (n : Nat) : Call → Bool
  | .push m _ _ => m == n
  | .duplicate _ _ => false

/-- List number `n`, which is `l` before the call, after it. -/
def undergo (n : Nat) (l : RegionList) : Call → RegionList
  | .push m r willing =>
    if m = n then
      match l.tryPush willing r with
      | .error _ => l
      | .ok l => l
    else l
  | .duplicate _ _ => l

theorem undergo_of_not_pushesTo {c : Call} (h : ¬ c.pushesTo n = true) : undergo n l c = l := by
  cases c with
  | push m r willing => exact if_neg (by simpa [Call.pushesTo] using h)
  | duplicate m willing => rfl

/-- Only pushes to the list matter. -/
theorem foldl_undergo_filter (cs : List Call) (n : Nat) (l : RegionList) :
    (cs.filter (·.pushesTo n)).foldl (undergo n) l = cs.foldl (undergo n) l := by
  have hskip : (fun l c => if c.pushesTo n = true then undergo n l c else l) = undergo n := by
    funext l c
    by_cases hc : c.pushesTo n = true
    · rw [if_pos hc]
    · rw [if_neg hc, undergo_of_not_pushesTo hc]
  rw [List.foldl_filter, hskip]

/-- A call leaves a list alone or appends to it. -/
theorem undergo_cases (n : Nat) (l : RegionList) (c : Call) :
    undergo n l c = l ∨ ∃ r, undergo n l c = l.push r := by
  cases c with
  | push m r willing =>
      by_cases hm : m = n
      · rw [undergo, if_pos hm, tryPush_eq]
        by_cases hgranted : l.size ≠ l.capacity ∨ Grants willing (grownCapacity l.capacity)
        · rw [if_pos hgranted]
          exact Or.inr ⟨r, rfl⟩
        · rw [if_neg hgranted]
          exact Or.inl rfl
      · exact Or.inl (if_neg hm)
  | duplicate m willing => exact Or.inl rfl

/-- Nothing is taken from a list or inserted into it. -/
theorem regions_prefix_undergo (n : Nat) (l : RegionList) (c : Call) :
    l.regions <+: (undergo n l c).regions := by
  rcases undergo_cases n l c with hsame | ⟨r, hpush⟩
  · exact hsame.symm ▸ List.prefix_rfl
  · exact hpush.symm ▸ List.prefix_append l.regions [r]

theorem regions_prefix_foldl_undergo (cs : List Call) (n : Nat) (l : RegionList) :
    l.regions <+: (cs.foldl (undergo n) l).regions := by
  induction cs generalizing l with
  | nil => exact List.prefix_rfl
  | cons c cs ih => exact (regions_prefix_undergo n l c).trans (ih _)

/-! ### Families -/

/-- **Changes**: what calls that were not refused have done. -/
inductive Change where
  | pushed (list : Nat) (region : Region)
  | copied (origin copy : Nat)

/-- **What was pushed to a list**, the latest change being the first of the list: before it was
copied from its origin, what was pushed to that. -/
def pushedTo : Nat → List Change → List Region
  | _, [] => []
  | n, .pushed m r :: earlier => if m = n then pushedTo n earlier ++ [r] else pushedTo n earlier
  | n, .copied origin copy :: earlier => pushedTo (if copy = n then origin else n) earlier

/-- **Families**: a list and the copies made of it, of each other and so on, with the changes that
led to them. -/
structure Family where
  lists : List RegionList
  changes : List Change

namespace Family

variable {f : Family} {c : Call}

/-- The family of one list. -/
def founded (l : RegionList) : Family := ⟨[l], []⟩

/-- The family after a call.  A call that is refused changes nothing. -/
def after (f : Family) : Call → Family
  | .push n r willing =>
    match f.lists[n]? with
    | none => f
    | some l =>
      match l.tryPush willing r with
      | .error _ => f
      | .ok l => ⟨f.lists.set n l, .pushed n r :: f.changes⟩
  | .duplicate n willing =>
    match f.lists[n]? with
    | none => f
    | some l =>
      match l.duplicate willing with
      | .error _ => f
      | .ok copy => ⟨f.lists ++ [copy], .copied n f.lists.length :: f.changes⟩

/-- The family after calls, one after another. -/
def run (f : Family) (cs : List Call) : Family := cs.foldl after f

/-- **Steps**: what a call can do. -/
inductive Step (f : Family) : Call → Family → Prop where
  | unchanged (c : Call) : Step f c f
  | pushed {n : Nat} {l : RegionList} {r : Region} {willing : Bool} (list : f.lists[n]? = some l)
      (granted : l.size ≠ l.capacity ∨ Grants willing (grownCapacity l.capacity)) :
      Step f (.push n r willing) ⟨f.lists.set n (l.push r), .pushed n r :: f.changes⟩
  | copied {n : Nat} {l : RegionList} {willing : Bool} (list : f.lists[n]? = some l) :
      Step f (.duplicate n willing) ⟨f.lists ++ [l], .copied n f.lists.length :: f.changes⟩

/-- **Inversion.**  A call makes one of the steps. -/
theorem step_after (f : Family) (c : Call) : f.Step c (f.after c) := by
  cases c with
  | push n r willing =>
      cases hlist : f.lists[n]? with
      | none =>
          simp only [after, hlist]
          exact .unchanged _
      | some l =>
          simp only [after, hlist, tryPush_eq]
          by_cases hgranted : l.size ≠ l.capacity ∨ Grants willing (grownCapacity l.capacity)
          · simp only [if_pos hgranted]
            exact .pushed hlist hgranted
          · simp only [if_neg hgranted]
            exact .unchanged _
  | duplicate n willing =>
      cases hlist : f.lists[n]? with
      | none =>
          simp only [after, hlist]
          exact .unchanged _
      | some l =>
          simp only [after, hlist, duplicate_eq]
          by_cases hgranted : Grants willing l.capacity
          · simp only [if_pos hgranted]
            exact .copied hlist
          · simp only [if_neg hgranted]
            exact .unchanged _

/-- **Keeping**: each list of the family holds what was pushed to it. -/
def Keeps (f : Family) (initial : Nat) : Prop :=
  ∀ (n : Nat) (l : RegionList), f.lists[n]? = some l → l.Holds initial (pushedTo n f.changes)

theorem keeps_founded (h : withCapacity initial = .ok l) : (founded l).Keeps initial := by
  intro n l' hlist
  obtain rfl : l' = l := List.mem_singleton.mp (List.mem_of_getElem? hlist)
  exact .withCapacity h

theorem Keeps.step {f' : Family} (h : f.Keeps initial) (hstep : f.Step c f') :
    f'.Keeps initial := by
  cases hstep with
  | unchanged => exact h
  | @pushed n l r willing hlist hgranted =>
      intro m l' hlist'
      simp only [List.getElem?_set] at hlist'
      by_cases hm : n = m
      · subst hm
        rw [if_pos rfl, if_pos (List.getElem?_eq_some_iff.mp hlist).1] at hlist'
        cases hlist'
        rw [pushedTo, if_pos rfl]
        exact (h n l hlist).push hgranted r
      · rw [if_neg hm] at hlist'
        rw [pushedTo, if_neg hm]
        exact h m l' hlist'
  | @copied n l willing hlist =>
      intro m l' hlist'
      rw [pushedTo]
      rcases Nat.lt_or_ge m f.lists.length with hm | hm
      · rw [List.getElem?_append_left hm] at hlist'
        rw [if_neg (Nat.ne_of_gt hm)]
        exact h m l' hlist'
      · have hlt := (List.getElem?_eq_some_iff.mp hlist').1
        rw [List.length_append, List.length_singleton] at hlt
        obtain rfl : m = f.lists.length := by omega
        rw [List.getElem?_concat_length] at hlist'
        cases hlist'
        rw [if_pos rfl]
        exact h n l hlist

theorem Keeps.run (h : f.Keeps initial) (cs : List Call) : (f.run cs).Keeps initial := by
  induction cs generalizing f with
  | nil => exact h
  | cons c cs ih => exact ih (h.step (f.step_after c))

/-- A step that is no push to a list leaves it alone. -/
theorem Step.getElem?_of_not_pushesTo {f' : Family} (hstep : f.Step c f')
    (hc : ¬ c.pushesTo n = true) (hn : n < f.lists.length) : f'.lists[n]? = f.lists[n]? := by
  cases hstep with
  | unchanged => rfl
  | pushed list granted => exact List.getElem?_set_ne (by simpa [Call.pushesTo] using hc)
  | copied list => exact List.getElem?_append_left hn

/-- **A list is on its own**: what becomes of it hangs on no other. -/
theorem getElem?_after (h : f.lists[n]? = some l) (c : Call) :
    (f.after c).lists[n]? = some (undergo n l c) := by
  have hn : n < f.lists.length := (List.getElem?_eq_some_iff.mp h).1
  by_cases hc : c.pushesTo n = true
  · cases c with
    | push m r willing =>
        obtain rfl : m = n := by simpa [Call.pushesTo] using hc
        simp only [after, h, undergo, if_true]
        cases l.tryPush willing r with
        | error e => exact h
        | ok l' => exact List.getElem?_set_self hn
    | duplicate m willing => cases hc
  · rw [undergo_of_not_pushesTo hc, (f.step_after c).getElem?_of_not_pushesTo hc hn, h]

theorem getElem?_run (h : f.lists[n]? = some l) (cs : List Call) :
    (f.run cs).lists[n]? = some (cs.foldl (undergo n) l) := by
  induction cs generalizing f l with
  | nil => exact h
  | cons c cs ih => exact ih (getElem?_after h c)

/-! ### Appending only -/

/-- **Families that only append**, of lists that began with room for `initial`. -/
structure AppendsOnly (f : Family) (initial : Nat) : Prop where
  /-- Each list tells what was pushed to it, and to its origins before. -/
  tells : ∀ (n : Nat) (l : RegionList), f.lists[n]? = some l → l.Tells (pushedTo n f.changes)
  doubles : ∀ l ∈ f.lists, l.Doubles initial
  /-- A push that is granted changes the one list. -/
  pushed : ∀ (n : Nat) (l l' : RegionList) (r : Region) (willing : Bool), f.lists[n]? = some l →
    l.tryPush willing r = .ok l' → (f.after (.push n r willing)).lists = f.lists.set n l'
  /-- A copy that is granted is a new list. -/
  copied : ∀ (n : Nat) (l l' : RegionList) (willing : Bool), f.lists[n]? = some l →
    l.duplicate willing = .ok l' → (f.after (.duplicate n willing)).lists = f.lists ++ [l']
  /-- Later calls put regions behind those of a list, and do nothing else to them. -/
  kept : ∀ (n : Nat) (l : RegionList) (cs : List Call), f.lists[n]? = some l →
    ∃ l' : RegionList, (f.run cs).lists[n]? = some l' ∧ l.regions <+: l'.regions
  /-- Of later calls only those count that push to the list itself. -/
  apart : ∀ n < f.lists.length, ∀ cs : List Call,
    (f.run cs).lists[n]? = (f.run (cs.filter (·.pushesTo n))).lists[n]?

theorem Keeps.appendsOnly (h : f.Keeps initial) : f.AppendsOnly initial where
  tells n l hlist := (h n l hlist).regions ▸ l.tells_regions
  doubles l hl := by
    obtain ⟨n, hlist⟩ := List.mem_iff_getElem?.mp hl
    exact (h n l hlist).doubles
  pushed n l l' r willing hlist hpush := by simp only [after, hlist, hpush]
  copied n l l' willing hlist hcopy := by simp only [after, hlist, hcopy]
  kept n l cs hlist := ⟨_, getElem?_run hlist cs, regions_prefix_foldl_undergo cs n l⟩
  apart n hn cs := by
    have hlist := List.getElem?_eq_getElem hn
    rw [getElem?_run hlist, getElem?_run hlist, foldl_undergo_filter]

/-- **Region lists only append.**  Begin with one list, with any room that the heap grants, none
included.  After any calls, whether or not the heap was willing at each of them, every list there
is holds what was pushed to it in order, behind what had been pushed to its origin when it was
copied. -/
theorem run_appendsOnly (h : withCapacity initial = .ok l) (cs : List Call) :
    ((founded l).run cs).AppendsOnly initial :=
  ((keeps_founded h).run cs).appendsOnly

/-- The region of one page that may be read. -/
def onePage (i : Nat) (h : i < userPageCount) : Region := ⟨.user i h, 1, ⟨true, false, false⟩, h⟩

/-- A copy is made of a list of one region, and then something else is pushed to each of the two,
at first with an unwilling heap. -/
def twoLists : List Call :=
  [.push 0 (onePage 7 (by decide)) true, .duplicate 0 true, .push 1 (onePage 2 (by decide)) false,
    .push 1 (onePage 5 (by decide)) true, .push 0 (onePage 9 (by decide)) true]

/-- Both lists were full and have been enlarged, and what the unwilling heap refused is in
neither. -/
theorem run_appendsOnly_two_lists : ∃ l, withCapacity 1 = .ok l ∧
    ((founded l).run twoLists).AppendsOnly 1 ∧ ((founded l).run twoLists).lists =
      [⟨[onePage 7 (by decide), onePage 9 (by decide)], 4⟩,
        ⟨[onePage 7 (by decide), onePage 5 (by decide)], 4⟩] :=
  ⟨⟨[], 1⟩, by cbv, run_appendsOnly (by cbv) twoLists, by cbv⟩

end Family

end RegionList

end DemandPaging
