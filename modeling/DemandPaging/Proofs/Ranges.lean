import DemandPaging.Proofs.Shortage
import DemandPaging.Proofs.Transfers

/-!
# Ranges of user memory

Kernel access to the memory of a program goes through a range of addresses, one after another, and
stops at the first that is not mapped.  For the spaces there can be, this module says when that is,
with what the access fails, and which bytes have been stored by then.

**Only the lower half is ever mapped.**  Regions lie in it, stack and heap begin in it, and growth
stays between the two (`AddressSpace.IsReachable.isLow`).  So a range can be followed, mapped
address by mapped address, to the end of user space at most.

**The end of user space** is not an address.  A range that is mapped right up to it and goes on from
there stops the kernel instead of failing with an addressing fault
(`History.not_forall_addressingFault`).  Everywhere else the first address that is not mapped
is reported as such, and what comes before it has been transferred (`History.run_transfers`).
-/

namespace DemandPaging

/-! ### The lower half -/

theorem index_initialStackPage_lt : initialStackPage.index < userPageCount := by decide

/-- All four bounds are in the lower half. -/
structure Bounds.IsLow (b : Bounds) : Prop where
  stackLow : b.stackLow.index < userPageCount
  stackHigh : b.stackHigh.index < userPageCount
  heapLow : b.heapLow.index < userPageCount
  heapHigh : b.heapHigh.index < userPageCount

namespace Bounds.IsLow

variable {b : Bounds} {p : Page}

theorem unset : Bounds.unset.IsLow := ⟨by decide, by decide, by decide, by decide⟩

theorem withStack (h : b.IsLow) : b.withStack.IsLow :=
  ⟨index_initialStackPage_lt, index_initialStackPage_lt, h.heapLow, h.heapHigh⟩

/-- Pages between the bounds are in the lower half. -/
theorem index_lt (h : b.IsLow) (hp : b.Spans p ∨ b.InGap p) : p.index < userPageCount := by
  have hstack := h.stackHigh
  have hlow := h.stackLow
  have hheap := h.heapHigh
  unfold Bounds.Spans Bounds.InGap at hp
  omega

theorem claim (h : b.IsLow) (hp : b.InGap p) : (b.claim p).IsLow := by
  have hlow := h.index_lt (Or.inr hp)
  unfold Bounds.claim
  split
  · exact ⟨hlow, h.stackHigh, h.heapLow, h.heapHigh⟩
  · exact ⟨h.stackLow, h.stackHigh, h.heapLow, hlow⟩

end Bounds.IsLow

namespace AddressSpace

variable {s s' : AddressSpace} {a : VirtAddr} {p : Page}

/-- Regions are in the lower half. -/
theorem index_lt_of_any_covers {l : RegionList} (h : l.regions.any (·.covers p) = true) :
    p.index < userPageCount := by
  obtain ⟨r, hr, hcovers⟩ := List.any_eq_true.mp h
  simp only [Region.covers, decide_eq_true_eq] at hcovers
  exact Nat.lt_of_lt_of_le hcovers.2 r.inUserHalf

theorem index_initialHeapPage_lt (l : RegionList) :
    (initialHeapPage l).index < userPageCount := by
  unfold initialHeapPage
  split
  · next e _ =>
      split
      · next h => exact page_lt_userPageCount h
      · exact defaultHeapPage_lt_userPageCount
  · exact defaultHeapPage_lt_userPageCount

/-- And so are the pages of a load. -/
theorem index_lt_of_mem_loadPages {l : RegionList} (h : p ∈ loadPages l) :
    p.index < userPageCount := by
  rcases mem_loadPages_iff.mp h with hcovers | rfl | rfl
  · exact index_lt_of_any_covers hcovers
  · exact index_initialStackPage_lt
  · exact index_initialHeapPage_lt l

/-- **Low**: what is mapped lies in the lower half, and so do the bounds. -/
structure IsLow (s : AddressSpace) : Prop where
  mapped : ∀ p, s.Maps p → p.index < userPageCount
  bounds : s.bounds.IsLow

theorem isLow_new (id : SpaceId) : (new id).IsLow where
  mapped p hp := index_lt_of_any_covers ((isOpen_new id).mapped p hp)
  bounds := .unset

theorem IsLow.change (h : s.IsLow) (hchange : Change s s') : s'.IsLow := by
  constructor
  · intro p hp
    cases hchange with
    | kept regions loaded bounds maps_iff => exact h.mapped p ((maps_iff p).mp hp)
    | declared fresh r changed =>
        subst changed
        exact h.mapped p hp
    | gained a c gains =>
        rcases (gains.maps_iff p).mp hp with hold | rfl
        · exact h.mapped p hold
        · -- the page of a covered address
          rcases gains.cases with ⟨-, ⟨r, hr, hcontains⟩ | hspans⟩ | ⟨-, hgap, -⟩
          · exact index_lt_of_any_covers (any_covers_of_contains hr hcontains)
          · exact h.bounds.index_lt (Or.inl hspans)
          · exact h.bounds.index_lt (Or.inr hgap)
    | copied regions loaded bounds maps_iff =>
        have hcopied := (maps_iff p).mp hp
        unfold copiedPages replayedPages at hcopied
        rcases List.mem_append.mp hcopied with hload | hold
        · split at hload
          · exact index_lt_of_mem_loadPages hload
          · cases hload
        · exact h.mapped p (PageRow.mem_pages_iff.mp hold)
  · rcases hchange.bounds_cases with hsame | ⟨p, hgap, hclaim⟩
    · rw [hsame]
      exact h.bounds
    · rw [hclaim]
      exact h.bounds.claim hgap

/-- **Only the lower half is mapped**, in every space there can be. -/
theorem IsReachable.isLow (h : s.IsReachable) : s.IsLow := by
  refine h.invariant isLow_new fun s s' hs hshift => ?_
  cases hshift with
  | changed change => exact hs.change change
  | @prepared k k' prepared =>
      obtain ⟨-, hfilled, -⟩ := walks_prepareLoad.of_ok prepared
      have hbounds : s'.bounds = _ := ends_prepareLoad_bounds.of_ok prepared
      refine ⟨fun p hp => ?_, ?_⟩
      · exact ((hfilled.maps_iff p).mp hp).elim (hs.mapped p) index_lt_of_mem_loadPages
      · have hheap := index_initialHeapPage_lt s.regions
        rw [hbounds]
        exact ⟨index_initialStackPage_lt, index_initialStackPage_lt, hheap, hheap⟩
  | @starved k k' e starved =>
      obtain ⟨-, -, hstarved⟩ := walks_prepareLoad.of_error starved
      obtain ⟨-, hhalfway⟩ := ends_prepareLoad_halfway.of_error starved
      refine ⟨fun p hp => (hstarved.maps p hp).elim (hs.mapped p) index_lt_of_mem_loadPages, ?_⟩
      cases hhalfway with
      | early bounds missing =>
          rw [show s'.bounds = s.bounds from bounds]
          exact hs.bounds
      | late bounds mapped missing =>
          rw [show s'.bounds = s.bounds.withStack from bounds]
          exact hs.bounds.withStack

end AddressSpace

/-- In a table without pages twice an entry is found under its page. -/
theorem PageTable.WellFormed.find?_of_mem {t : PageTable} (h : t.WellFormed) {e : PageEntry}
    (he : e ∈ t.entries) : t.find? e.page = some e := by
  have hmapped := PageRow.mem_pages_iff.mp (List.mem_map_of_mem he)
  obtain ⟨d, hd⟩ := Option.isSome_iff_exists.mp hmapped
  obtain ⟨hmem, hpage⟩ := PageRow.mem_of_find? hd
  rw [hd, List.inj_on_of_nodup_map h.pages hmem he hpage]

/-! ### Following a range -/

namespace VirtAddr

variable {a : VirtAddr} {n : Nat}

/-- The end of user space is not an address. -/
theorem val_ne_userSpaceEnd (b : VirtAddr) : b.val ≠ userSpaceEnd := by
  intro h
  have hcanonical := b.canonical
  unfold userSpaceEnd at h
  omega

theorem val_lt_of_page_lt {b : VirtAddr} (h : b.page.index < userPageCount) :
    b.val < userSpaceEnd := by
  rw [page_index] at h
  unfold userPageCount at h
  unfold userSpaceEnd
  omega

/-- Below that end every number is an address. -/
theorem exists_add (h : a.val + n < userSpaceEnd) : ∃ b, a.add n = .ok b :=
  ⟨⟨a.val + n, Or.inl h⟩, add_eq_ok_iff.mpr rfl⟩

/-- Moving right to the end stops the kernel. -/
theorem add_userSpaceEnd (h : a.val + n = userSpaceEnd) :
    a.add n = .error (.nonCanonical userSpaceEnd) := by
  unfold add Word.add
  rw [h]
  rfl

end VirtAddr

/-- Where the first obstacle is, everything before is clear. -/
theorem View.obstacle?_eq_some {v : View} {a : VirtAddr} :
    ∀ {n start i : Nat} {e : Abort}, v.obstacle? a start n = some (i, e) →
      ∃ j < n, i = start + j ∧ v.obstacleAt? a i = some e ∧
        ∀ k < j, v.obstacleAt? a (start + k) = none := by
  intro n
  induction n with
  | zero =>
      intro start i e h
      cases h
  | succ n ih =>
      intro start i e h
      cases hfirst : v.obstacleAt? a start with
      | some d =>
          rw [obstacle?_of_first hfirst (Nat.succ_pos n)] at h
          cases h
          exact ⟨0, Nat.succ_pos n, rfl, hfirst, fun k hk => absurd hk (Nat.not_lt_zero k)⟩
      | none =>
          have hskip : v.obstacle? a start (n + 1) = v.obstacle? a (start + 1) n := by
            unfold obstacle?
            rw [List.range'_succ, List.findSome?_cons, hfirst]
            rfl
          rw [hskip] at h
          obtain ⟨j, hj, rfl, he, hbefore⟩ := ih h
          refine ⟨j + 1, Nat.succ_lt_succ hj, by omega, he, fun k hk => ?_⟩
          cases k with
          | zero => exact hfirst
          | succ k =>
              have hclear := hbefore k (by omega)
              rwa [show start + (k + 1) = start + 1 + k by omega]

namespace AddressSpace

variable {s : AddressSpace} {a : VirtAddr} {i j n : Nat} {e d : Abort}

/-- Every one of the `n` addresses from `a` on is mapped. -/
def MapsRange (s : AddressSpace) (a : VirtAddr) (n : Nat) : Prop :=
  ∀ i < n, ∃ b : VirtAddr, b.val = a.val + i ∧ s.Maps b.page

/-- **Where a range stops**: at the first address that is not mapped, with an addressing fault, or
at the end of user space, where there is no address. -/
inductive StopsAt (s : AddressSpace) (a : VirtAddr) (i : Nat) : Abort → Prop where
  | unmapped (before : s.MapsRange a i) (b : VirtAddr) (here : b.val = a.val + i)
      (missing : ¬ s.Maps b.page) : StopsAt s a i (.failed (.addressingFault b))
  | ended (before : s.MapsRange a i) (here : a.val + i = userSpaceEnd) :
      StopsAt s a i (.halted (.nonCanonical userSpaceEnd))

namespace StopsAt

/-- A range that stops is not mapped to its end. -/
theorem not_mapsRange (h : s.StopsAt a i e) (hi : i < n) : ¬ s.MapsRange a n := by
  intro hrange
  obtain ⟨b, hb, hmapped⟩ := hrange i hi
  cases h with
  | unmapped before b' here missing =>
      obtain rfl : b' = b := VirtAddr.ext (here.trans hb.symm)
      exact missing hmapped
  | ended before here => exact VirtAddr.val_ne_userSpaceEnd b (hb.trans here)

theorem before (h : s.StopsAt a i e) : s.MapsRange a i := by
  cases h with
  | unmapped before b here missing => exact before
  | ended before here => exact before

/-- A range stops in one place, for one reason. -/
theorem unique (h : s.StopsAt a i e) (h' : s.StopsAt a j d) : j = i ∧ d = e := by
  have hplace : j = i := by
    rcases Nat.lt_trichotomy i j with hlt | heq | hgt
    · exact absurd h'.before (h.not_mapsRange hlt)
    · exact heq.symm
    · exact absurd h.before (h'.not_mapsRange hgt)
  subst hplace
  refine ⟨rfl, ?_⟩
  cases h with
  | unmapped before b here missing =>
      cases h' with
      | unmapped before' b' here' missing' =>
          obtain rfl : b' = b := VirtAddr.ext (here'.trans here.symm)
          rfl
      | ended before' here' =>
          exact absurd (here.trans here') (VirtAddr.val_ne_userSpaceEnd b)
  | ended before here =>
      cases h' with
      | unmapped before' b' here' missing' =>
          exact absurd (here'.trans here) (VirtAddr.val_ne_userSpaceEnd b')
      | ended before' here' => rfl

end StopsAt

theorem obstacleAt?_eq_none_iff (m : Memory) :
    (s.view m).obstacleAt? a i = none ↔ ∃ b : VirtAddr, b.val = a.val + i ∧ s.Maps b.page := by
  unfold View.obstacleAt?
  cases hadd : a.add i with
  | error halt =>
      simp only [reduceCtorEq, false_iff]
      rintro ⟨b, hb, -⟩
      cases hadd.symm.trans (VirtAddr.add_eq_ok_iff.mpr hb)
  | ok b =>
      have hb := VirtAddr.add_eq_ok_iff.mp hadd
      simp only [ite_eq_left_iff, reduceCtorEq, imp_false, Decidable.not_not, view,
        Option.isSome_map]
      constructor
      · exact fun hmapped => ⟨b, hb, hmapped⟩
      · rintro ⟨b', hb', hmapped⟩
        obtain rfl : b' = b := VirtAddr.ext (hb'.trans hb.symm)
        exact hmapped

/-- What is in the way behind mapped addresses is an address without mapping, or the end of user
space: the addresses before it are in the lower half. -/
theorem IsLow.stopsAt (hlow : s.IsLow) {m : Memory} (before : s.MapsRange a i)
    (hstop : (s.view m).obstacleAt? a i = some e) : s.StopsAt a i e := by
  unfold View.obstacleAt? at hstop
  cases hadd : a.add i with
  | ok b =>
      simp only [hadd, view, Option.isSome_map] at hstop
      split at hstop
      · cases hstop
      · next hmissing =>
          obtain rfl := Option.some.inj hstop
          exact .unmapped before b (VirtAddr.add_eq_ok_iff.mp hadd) hmissing
  | error halt =>
      simp only [hadd, Option.some.injEq] at hstop
      subst hstop
      -- the address before is mapped, hence below the end of user space
      have hle : a.val + i ≤ userSpaceEnd := by
        cases i with
        | zero =>
            cases hadd.symm.trans (VirtAddr.add_eq_ok_iff.mpr (show a.val = a.val + 0 from rfl))
        | succ j =>
            obtain ⟨b, hb, hmapped⟩ := before j (Nat.lt_succ_self j)
            have hlt := VirtAddr.val_lt_of_page_lt (hlow.mapped b.page hmapped)
            omega
      have hend : a.val + i = userSpaceEnd := by
        refine Nat.le_antisymm hle (Nat.not_lt.mp fun hlt => ?_)
        obtain ⟨b, hb⟩ := VirtAddr.exists_add hlt
        cases hadd.symm.trans hb
      obtain rfl := Except.error.inj (hadd.symm.trans (VirtAddr.add_userSpaceEnd hend))
      exact .ended before hend

/-- **Obstacles of a range** of a low space: there is none, or one where the range stops. -/
theorem IsLow.obstacle?_cases (hlow : s.IsLow) (m : Memory) (a : VirtAddr) (n : Nat) :
    (s.view m).obstacle? a 0 n = none ∧ s.MapsRange a n ∨
      ∃ i e, (s.view m).obstacle? a 0 n = some (i, e) ∧ i < n ∧ s.StopsAt a i e := by
  cases hfirst : (s.view m).obstacle? a 0 n with
  | none =>
      refine Or.inl ⟨rfl, fun i hi => (obstacleAt?_eq_none_iff m).mp ?_⟩
      have hclear := List.findSome?_eq_none_iff.mp hfirst i (List.mem_range'_1.mpr (by omega))
      simpa using hclear
  | some stop =>
      obtain ⟨i, e⟩ := stop
      obtain ⟨j, hj, hi, hstop, hbefore⟩ := View.obstacle?_eq_some hfirst
      obtain rfl : i = j := hi.trans (Nat.zero_add j)
      have hrange : s.MapsRange a i := by
        intro k hk
        have hclear := hbefore k hk
        rw [Nat.zero_add] at hclear
        exact (obstacleAt?_eq_none_iff m).mp hclear
      exact Or.inr ⟨i, e, rfl, hj, hlow.stopsAt hrange hstop⟩

theorem IsLow.stopsAt_of_obstacle? (hlow : s.IsLow) {m : Memory}
    (hfirst : (s.view m).obstacle? a 0 n = some (i, e)) : s.StopsAt a i e := by
  rcases hlow.obstacle?_cases m a n with ⟨hnone, -⟩ | ⟨j, d, hsome, -, hstop⟩
  · cases hfirst.symm.trans hnone
  · cases hfirst.symm.trans hsome
    exact hstop

/-! ### What is stored -/

/-- **Stored**: the bytes are behind the addresses from `a` on, no other byte of memory has changed,
and nothing but memory. -/
structure Stores (s : AddressSpace) (a : VirtAddr) (bytes : List UInt8) (k k' : Kernel) :
    Prop where
  stored : ∀ i (hi : i < bytes.length), ∃ (b : VirtAddr) (e : PageEntry), b.val = a.val + i ∧
    s.table.find? b.page = some e ∧ k'.memory.byte e.frame b.offset = bytes[i]
  others : ∀ (f : Frame) (offset : Nat), offset < 4096 →
    (∀ i < bytes.length, ∀ (b : VirtAddr) (e : PageEntry), b.val = a.val + i →
      s.table.find? b.page = some e → ¬ (e.frame = f ∧ b.offset = offset)) →
    k'.memory.byte f offset = k.memory.byte f offset
  kernel : k' = { k with memory := k'.memory }

/-- What is seen to be stored in a page is the contents of its frame. -/
theorem contents_of_view {bytes : List UInt8} {m m' : Memory} {p : Page} {e : PageEntry}
    (hview : s.view m' = (s.view m).store a.val bytes) (he : s.table.find? p = some e) :
    m'.contents e.frame = (m.contents e.frame).patch p.start.val a.val bytes := by
  have hpage := congrFun (congrArg View.pages hview) p
  simp only [view, View.store, he, Option.map_some, Option.some.injEq, Prod.mk.injEq,
    true_and] at hpage
  exact hpage

/-- What is seen to be stored is stored. -/
theorem stores_of_view {bytes : List UInt8} {k k' : Kernel} (htable : s.table.WellFormed)
    (hrange : s.MapsRange a bytes.length)
    (hview : s.view k'.memory = (s.view k.memory).store a.val bytes)
    (hgrows : Workspace.Grows ⟨k, s⟩ ⟨k', s⟩)
    (hkernel : k' = { k with memory := k'.memory }) : s.Stores a bytes k k' := by
  -- frames of others are not written to, as the heap is not asked
  have hheap : k'.heap = k.heap := by rw [hkernel]
  have huntouched : ∀ f, f ∉ s.frames → k'.memory.contents f = k.memory.contents f :=
    fun f hf => hgrows.untouched f hf (Or.inr hheap)
  refine ⟨fun i hi => ?_, fun f offset hoffset hfree => ?_, hkernel⟩
  · obtain ⟨b, hb, hmapped⟩ := hrange i hi
    obtain ⟨e, he⟩ := Option.isSome_iff_exists.mp hmapped
    refine ⟨b, e, hb, he, ?_⟩
    have hsplit := b.page_start_add_offset
    unfold Memory.byte
    rw [contents_of_view hview he, Contents.byte_patch _ _ _ _ b.offset_lt, hsplit,
      if_pos (by omega), show b.val - a.val = i by omega, List.getElem?_eq_getElem hi,
      Option.getD_some]
  · by_cases hf : f ∈ s.frames
    · obtain ⟨e, he, rfl⟩ := List.mem_map.mp hf
      have hfound := htable.find?_of_mem he
      unfold Memory.byte
      rw [contents_of_view hview hfound, Contents.byte_patch _ _ _ _ hoffset]
      split
      · next hle =>
          -- an address of the range would be one of the page
          rw [List.getElem?_eq_none, Option.getD_none]
          refine Nat.not_lt.mp fun hlt => ?_
          refine hfree _ hlt (e.page.address offset hoffset) e ?_ ?_ ⟨rfl, ?_⟩
          · show e.page.index * 4096 + offset = _
            simp only [Page.start_val] at hle ⊢
            omega
          · rw [Page.page_address]
            exact hfound
          · exact Page.offset_address _ _
      · rfl
    · unfold Memory.byte
      rw [huntouched f hf]

/-- **Reading** answers if the range is mapped, and fails where it stops. -/
theorem IsLow.read_cases (hlow : s.IsLow) (m : Memory) (a : VirtAddr) (n : Nat) :
    s.MapsRange a n ∧ (∃ bytes, s.read m a n = .ok bytes) ∨
      ∃ i e, i < n ∧ s.StopsAt a i e ∧ s.read m a n = .error e := by
  rw [read_eq]
  unfold View.read
  rcases hlow.obstacle?_cases m a n with ⟨hnone, hrange⟩ | ⟨i, e, hsome, hi, hstop⟩
  · rw [hnone]
    exact Or.inl ⟨hrange, _, rfl⟩
  · rw [hsome]
    exact Or.inr ⟨i, e, hi, hstop, rfl⟩

/-- **Writing** answers if the range is mapped, and fails where it stops; what has been stored is
what comes before. -/
theorem IsLow.write_cases (hlow : s.IsLow) (hnodup : s.frames.Nodup)
    (htable : s.table.WellFormed) (a : VirtAddr) (bytes : List UInt8) (k : Kernel) :
    s.MapsRange a bytes.length ∧ (∃ k', s.write a bytes k = .ok () k' ∧ s.Stores a bytes k k') ∨
      ∃ i e, i < bytes.length ∧ s.StopsAt a i e ∧
        ∃ k', s.write a bytes k = .error e k' ∧ s.Stores a (bytes.take i) k k' := by
  have hwalk := wanders_writeFrom s a 0 bytes (w := ⟨k, s⟩) rfl
  unfold Wanders Walks at hwalk
  rw [SpaceM.ends_onKernel] at hwalk
  have hends := hwalk.and (ends_writeFrom hnodup bytes)
  cases hwrite : s.write a bytes k with
  | ok u k' =>
      obtain ⟨⟨hpath, -⟩, hnone, hview, hkernel⟩ := hends.of_ok hwrite
      rcases hlow.obstacle?_cases k.memory a bytes.length with ⟨-, hrange⟩ | ⟨i, e, hsome, -⟩
      · exact Or.inl ⟨hrange, k', rfl, stores_of_view htable hrange hview hpath.grows hkernel⟩
      · cases hnone.symm.trans hsome
  | error e k' =>
      obtain ⟨⟨hpath, -⟩, i, hfirst, hview, hkernel⟩ := hends.of_error hwrite
      rw [Nat.zero_add] at hfirst
      rcases hlow.obstacle?_cases k.memory a bytes.length with ⟨hnone, -⟩ | ⟨j, d, hsome, hj, hstop⟩
      · cases hnone.symm.trans hfirst
      · cases hfirst.symm.trans hsome
        have hlength : (bytes.take i).length = i := List.length_take_of_le (Nat.le_of_lt hj)
        refine Or.inr ⟨i, e, hj, hstop, k', rfl,
          stores_of_view htable ?_ hview hpath.grows hkernel⟩
        rw [hlength]
        exact hstop.before

/-- An outcome that depends on whether the range stops tells whether it does, and why. -/
theorem outcome_iff {answered : Prop} {failed : Abort → Prop}
    (hcases : s.MapsRange a n ∧ answered ∨ ∃ i e, i < n ∧ s.StopsAt a i e ∧ failed e)
    (hone : ∀ e, failed e → ¬ answered) (hunique : ∀ e d, failed e → failed d → d = e) :
    (answered ↔ s.MapsRange a n) ∧ ∀ e, failed e ↔ ∃ i < n, s.StopsAt a i e := by
  rcases hcases with ⟨hrange, hanswered⟩ | ⟨i, e, hi, hstop, hfailed⟩
  · refine ⟨iff_of_true hanswered hrange, fun e => iff_of_false (fun hfailed => ?_) ?_⟩
    · exact hone e hfailed hanswered
    · rintro ⟨i, hi, hstop⟩
      exact hstop.not_mapsRange hi hrange
  · refine ⟨iff_of_false (hone e hfailed) (hstop.not_mapsRange hi), fun d => ?_⟩
    constructor
    · intro hfailed'
      rw [hunique e d hfailed hfailed']
      exact ⟨i, hi, hstop⟩
    · rintro ⟨j, hj, hstop'⟩
      rw [(hstop.unique hstop').2]
      exact hfailed

end AddressSpace

namespace History

variable {h : History} {rs : List Request} {s : AddressSpace}

/-- The spaces of a machine that was fresh map the lower half only. -/
theorem run_isLow {m : Machine} (fresh : m.IsFresh) (run : Run ⟨m, []⟩ rs h)
    (hs : s ∈ h.machine.live) : s.IsLow := by
  have hstart : AllReachable m.live := by
    rw [fresh.empty]
    exact List.forall_mem_nil _
  exact (run.reachable hstart s hs).isLow

/-- **Transfers.**  Take any space of any machine that has been running since it was fresh, and any
range of addresses.  Reading answers exactly if every address of the range is mapped, and fails
exactly where the range stops; so does writing.  What has been written is all bytes, or those before
the address where the range stops, and no other byte of memory has changed. -/
theorem run_transfers {m : Machine} (fresh : m.IsFresh) (run : Run ⟨m, []⟩ rs h)
    (hs : s ∈ h.machine.live) (a : VirtAddr) :
    (∀ memory n, ((∃ bytes, s.read memory a n = .ok bytes) ↔ s.MapsRange a n) ∧
      ∀ e, s.read memory a n = .error e ↔ ∃ i < n, s.StopsAt a i e) ∧
    (∀ k bytes, ((∃ k', s.write a bytes k = .ok () k') ↔ s.MapsRange a bytes.length) ∧
      ∀ e, (∃ k', s.write a bytes k = .error e k') ↔ ∃ i < bytes.length, s.StopsAt a i e) ∧
    (∀ k bytes k', s.write a bytes k = .ok () k' → s.Stores a bytes k k') ∧
    ∀ k bytes e k' i, s.write a bytes k = .error e k' → s.StopsAt a i e →
      s.Stores a (bytes.take i) k k' := by
  obtain ⟨room, -, hc⟩ := run.inCustody (inCustody_of_isFresh fresh)
  have hlow := run_isLow fresh run hs
  have hwrite := hlow.write_cases (Custody.nodup_of_mem hc hs) (hc.tables s hs) a
  refine ⟨fun memory n => ?_, fun k bytes => ?_, fun k bytes k' hok => ?_,
    fun k bytes e k' i herror hstop => ?_⟩
  · refine AddressSpace.outcome_iff (hlow.read_cases memory a n) ?_ ?_
    · rintro e herror ⟨bytes, hok⟩
      cases herror.symm.trans hok
    · intro e d he hd
      cases hd.symm.trans he
      rfl
  · refine AddressSpace.outcome_iff ((hwrite bytes k).imp ?_ ?_) ?_ ?_
    · exact fun ⟨hrange, k', hok, _⟩ => ⟨hrange, k', hok⟩
    · exact fun ⟨i, e, hi, hstop, k', herror, _⟩ => ⟨i, e, hi, hstop, k', herror⟩
    · rintro e ⟨k', herror⟩ ⟨k'', hok⟩
      cases herror.symm.trans hok
    · rintro e d ⟨k', he⟩ ⟨k'', hd⟩
      cases hd.symm.trans he
      rfl
  · rcases hwrite bytes k with ⟨-, k'', hok', hstores⟩ | ⟨i, e, -, -, k'', herror, -⟩
    · cases hok.symm.trans hok'
      exact hstores
    · cases hok.symm.trans herror
  · rcases hwrite bytes k with ⟨-, k'', hok, -⟩ | ⟨j, d, -, hstop', k'', herror', hstores⟩
    · cases herror.symm.trans hok
    · cases herror.symm.trans herror'
      rw [(hstop.unique hstop').1] at hstores
      exact hstores

/-- A space over sixteen frames whose only region is the last page of user space: a range that
leaves the first page of its heap finds the next one missing, and one that leaves the region finds
no address there. -/
theorem exists_last_page_sixteen_frames :
    ∃ rs h s, Run ⟨sixteenFrames, []⟩ rs h ∧ s ∈ h.machine.live ∧
      (s.view h.machine.kernel.memory).obstacle? ⟨0x10000ff0, by decide⟩ 0 32 =
        some (16, .failed (.addressingFault ⟨0x10001000, by decide⟩)) ∧
      (s.view h.machine.kernel.memory).obstacle? ⟨0x7ffffffffff0, by decide⟩ 0 32 =
        some (16, .halted (.nonCanonical userSpaceEnd)) := by
  have run : Run ⟨sixteenFrames, []⟩ _ _ :=
    ((Run.start.next .createSpace trivial (by decide +kernel)).next
      (.space (.space 0) (.declareRegion ⟨0x7ffffffff000, by decide⟩ 0x1000 ⟨true, true, false⟩))
        trivial (by decide +kernel)).next (.space (.space 0) .prepareLoad) trivial
          (by decide +kernel)
  exact ⟨_, _, _, run, List.mem_cons_self, by decide +kernel, by decide +kernel⟩

/-- Writing over sixteen frames, across the end of the heap: half of the bytes have been stored when
the access fails.  Reading across the end of user space stops the kernel. -/
theorem run_transfers_sixteen_frames :
    ∃ rs h s k', Run ⟨sixteenFrames, []⟩ rs h ∧ s ∈ h.machine.live ∧
      s.write ⟨0x10000ff0, by decide⟩ (List.replicate 32 7) h.machine.kernel =
        .error (.failed (.addressingFault ⟨0x10001000, by decide⟩)) k' ∧
      s.Stores ⟨0x10000ff0, by decide⟩ (List.replicate 16 7) h.machine.kernel k' ∧
      s.read h.machine.kernel.memory ⟨0x7ffffffffff0, by decide⟩ 32 =
        .error (.halted (.nonCanonical userSpaceEnd)) := by
  obtain ⟨rs, h, s, run, hs, hheap, htop⟩ := exists_last_page_sixteen_frames
  have hlow := run_isLow isFresh_sixteenFrames run hs
  have hheap := hlow.stopsAt_of_obstacle? hheap
  have htop := hlow.stopsAt_of_obstacle? htop
  obtain ⟨-, hwrites, -, hstores⟩ :=
    run_transfers isFresh_sixteenFrames run hs ⟨0x10000ff0, by decide⟩
  obtain ⟨hreads, -⟩ := run_transfers isFresh_sixteenFrames run hs ⟨0x7ffffffffff0, by decide⟩
  obtain ⟨k', hk'⟩ := ((hwrites h.machine.kernel (List.replicate 32 7)).2 _).mpr
    ⟨16, by decide, hheap⟩
  exact ⟨rs, h, s, k', run, hs, hk', hstores _ _ _ _ _ hk' hheap,
    ((hreads h.machine.kernel.memory 32).2 _).mpr ⟨16, by decide, htop⟩⟩

/-- **Not every failing access is an addressing fault.**  Where the last page of user space is
mapped, reading across the end of it is none. -/
theorem not_forall_addressingFault :
    ¬ ∀ (m : Machine) (rs : List Request) (h : History), m.IsFresh → Run ⟨m, []⟩ rs h →
      ∀ s ∈ h.machine.live, ∀ (a : VirtAddr) (n : Nat) (e : Abort),
        s.read h.machine.kernel.memory a n = .error e →
          ∃ b, e = .failed (.addressingFault b) := by
  intro hall
  obtain ⟨rs, h, s, run, hs, -, htop⟩ := exists_last_page_sixteen_frames
  have hread : s.read h.machine.kernel.memory ⟨0x7ffffffffff0, by decide⟩ 32 =
      .error (.halted (.nonCanonical userSpaceEnd)) := by
    rw [AddressSpace.read_eq]
    unfold View.read
    rw [htop]
  obtain ⟨b, hb⟩ := hall _ rs h isFresh_sixteenFrames run s hs _ _ _ hread
  cases hb

end History

end DemandPaging
