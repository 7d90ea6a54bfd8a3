import DemandPaging.Proofs.Views

/-!
# The pages that a range touches

A region is declared for a range of bytes, and its pages are those that the range touches: from
the page that the first byte lies in to the next page boundary after the last byte.  Both ends are
numbers, and whether the region exists depends on the second one alone.  It exists exactly if that
end is not above user space (`Region.declare_exact`).

**Three word operations.**  The declaration never computes the end as it is defined.  It adds the
offset of the address to the size, rounds this up, and adds the first address of the page, and
each of the three may leave the word range.  Whatever leaves it would have ended above user space,
so nothing is refused for the detour; and rounding the size with the offset in it gives the same
end as rounding the sum, because the first address of a page is a multiple of the page size.

**Every page is an address.**  A region may end where user space does, which is no canonical
address, but the pages before that end are.  Stepping from the base to each of them never leaves
the canonical half (`Region.mapM_advance`).
-/

namespace DemandPaging

/-- The page `n` pages further on, by the arithmetic of addresses, which may stop the kernel. -/
def Page.advance (p : Page) (n : Nat) : Except Halt Page := do
  let bytes ← Word.mul n pageSize
  let a ← p.start.add bytes
  return a.page

namespace Region

variable {a : VirtAddr} {size : Nat} {permission : Permission} {r : Region}

/-! ### The end of a range -/

/-- Folding the offset of an address into the size does not move the end of the last page. -/
theorem page_start_add_roundUp (a : VirtAddr) (size : Nat) :
    a.page.start.val + roundUp (size + a.offset) pageSize = roundUp (a.val + size) pageSize := by
  rw [← a.page_start_add_offset, Page.start_val]
  generalize a.page.index = i
  unfold roundUp pageSize
  omega

/-- A span is what it is rounded up to, unless this is no machine word. -/
theorem span?_of_lt (h : roundUp (size + a.offset) pageSize < wordLimit) :
    span? a size = some (roundUp (size + a.offset) pageSize) := by
  have hsum : size + a.offset < wordLimit := by
    unfold roundUp pageSize at h
    omega
  unfold span?
  rw [Word.add?_eq_some_iff.mpr ⟨hsum, rfl⟩]
  exact Word.roundUp?_eq_some_iff.mpr ⟨h, rfl⟩

/-- **A range that ends in user space**, or with it, has a region. -/
theorem exists_declare (h : roundUp (a.val + size) pageSize ≤ userSpaceEnd) :
    ∃ r, declare a size permission = .ok r := by
  rw [← page_start_add_roundUp] at h
  have hword : roundUp (size + a.offset) pageSize < wordLimit := by
    unfold userSpaceEnd at h
    unfold wordLimit
    omega
  unfold declare
  rw [span?_of_lt hword]
  exact ⟨_, dif_pos h⟩

/-- **A range that does not** is refused, whether its span is a machine word or not. -/
theorem declare_of_lt (h : userSpaceEnd < roundUp (a.val + size) pageSize) :
    declare a size permission = .error (.addressingFault a) := by
  unfold declare
  split
  · rfl
  · next len hspan =>
      rw [← page_start_add_roundUp, ← span?_eq_some hspan] at h
      exact dif_neg (Nat.not_le_of_lt h)

/-- A region begins with the page of the address, and ends where the range does. -/
theorem of_declare (h : declare a size permission = .ok r) :
    r.base = a.page ∧ r.limit = roundUp (a.val + size) pageSize ∧ r.permission = permission := by
  unfold declare at h
  split at h
  · cases h
  · next len hspan =>
      split at h
      · cases h
        have hlen := span?_eq_some hspan
        refine ⟨rfl, ?_, rfl⟩
        rw [← page_start_add_roundUp, ← hlen]
        show _ + len / pageSize * pageSize = _
        rw [Nat.div_mul_cancel]
        · rfl
        · exact hlen ▸ Nat.dvd_mul_left _ _
      · cases h

/-! ### The pages of a region -/

/-- Stepping to a page of the region stays in the user half. -/
theorem advance_base {i : Nat} (h : i < r.pageCount) : r.base.advance i = .ok (r.page i h) := by
  have huser := r.inUserHalf
  have hbytes : Word.mul i pageSize = .ok (i * pageSize) := by
    unfold Word.mul wordLimit pageSize
    exact if_pos (by omega)
  have hsum : r.base.start.add (i * pageSize) = .ok (r.page i h).start := by
    rw [VirtAddr.add_eq_ok_iff]
    show (r.base.index + i) * 4096 = r.base.index * 4096 + i * 4096
    exact Nat.add_mul _ _ _
  unfold Page.advance
  simp only [hbytes, hsum, bind, Except.bind, pure, Except.pure, Page.page_start]

/-- Stepping to one page after another, from a number on. -/
theorem mapM_advance_from (r : Region) :
    ∀ (i n : Nat) (h : i + n ≤ r.pageCount),
      (List.range' i n).mapM r.base.advance = .ok (r.pagesFrom i n h)
  | _, 0, _ => rfl
  | i, n + 1, h => by
      rw [List.range'_succ, List.mapM_cons, advance_base (lt_pageCount h),
        mapM_advance_from r (i + 1) n (rest_le_pageCount h)]
      rfl

/-- **The pages can all be reached** from the base by the arithmetic of addresses. -/
theorem mapM_advance (r : Region) :
    (List.range r.pageCount).mapM r.base.advance = .ok r.pages := by
  rw [List.range_eq_range']
  exact mapM_advance_from r 0 r.pageCount _

/-- Pages come in ascending order, none of them twice. -/
theorem pairwise_pagesFrom (r : Region) :
    ∀ (i n : Nat) (h : i + n ≤ r.pageCount),
      (r.pagesFrom i n h).Pairwise fun p q => p.index < q.index
  | _, 0, _ => .nil
  | i, n + 1, h => by
      refine List.pairwise_cons.mpr ⟨fun q hq => ?_, pairwise_pagesFrom r (i + 1) n _⟩
      have hlow := ((mem_pagesFrom r (rest_le_pageCount h)).mp hq).1
      show r.base.index + i < q.index
      omega

/-- A page is one of the region's if its first address is in the region. -/
theorem mem_pages_iff_start {p : Page} :
    p ∈ r.pages ↔ r.start.val ≤ p.start.val ∧ p.start.val < r.limit := by
  rw [mem_pages_iff, ← p.page_start, ← contains_eq_covers, p.page_start]
  exact decide_eq_true_iff

/-- **Extents**: a region that is made of the pages from one number to another. -/
structure HasExtent (r : Region) (first past : Nat) : Prop where
  start : r.start.val = first
  limit : r.limit = past
  contains_iff : ∀ a : VirtAddr, r.contains a = true ↔ first ≤ a.val ∧ a.val < past
  /-- No step from the base to a page stops the kernel. -/
  steps : (List.range r.pageCount).mapM r.base.advance = .ok r.pages
  /-- The pages of the extent, and no others, in ascending order and each of them once. -/
  mem_pages : ∀ p : Page, p ∈ r.pages ↔ first ≤ p.start.val ∧ p.start.val < past
  ascending : r.pages.Pairwise fun p q => p.index < q.index
  contains_iff_page : ∀ a : VirtAddr, r.contains a = true ↔ a.page ∈ r.pages

/-- Each region has the extent between its first address and its end. -/
theorem hasExtent (r : Region) : r.HasExtent r.start.val r.limit where
  start := rfl
  limit := rfl
  contains_iff _ := decide_eq_true_iff
  steps := r.mapM_advance
  mem_pages _ := mem_pages_iff_start
  ascending := r.pairwise_pagesFrom 0 r.pageCount _
  contains_iff_page a := by rw [contains_eq_covers, mem_pages_iff]

/-- **Declaring a region.**  Let the range of `size` bytes from `a` on be widened to whole pages:
down to the page of `a`, and up to the next page boundary.  The declaration is an addressing fault
at `a` exactly if the second end is above user space.  Otherwise there is a region, which begins
and ends with the widened range and contains the addresses in it; its pages are those of the range,
in ascending order and each of them once; and it contains an address exactly if the page of the
address is among them.  This is so for addresses in both halves, and for sizes of any magnitude. -/
theorem declare_exact (a : VirtAddr) (size : Nat) (permission : Permission) :
    (declare a size permission = .error (.addressingFault a) ↔
      userSpaceEnd < roundUp (a.val + size) pageSize) ∧
    (roundUp (a.val + size) pageSize ≤ userSpaceEnd →
      ∃ r, declare a size permission = .ok r ∧ r.permission = permission ∧
        r.HasExtent (a.val / pageSize * pageSize) (roundUp (a.val + size) pageSize)) := by
  refine ⟨⟨fun hrefused => ?_, declare_of_lt⟩, fun hlimit => ?_⟩
  · by_contra hlow
    obtain ⟨r, hr⟩ : ∃ r, declare a size permission = .ok r :=
      exists_declare (Nat.le_of_not_lt hlow)
    cases hr.symm.trans hrefused
  · obtain ⟨r, hr⟩ : ∃ r, declare a size permission = .ok r := exists_declare hlimit
    obtain ⟨hbase, hend, hpermission⟩ := of_declare hr
    have hstart : r.start.val = a.val / pageSize * pageSize := congrArg (·.start.val) hbase
    refine ⟨r, hr, hpermission, ?_⟩
    rw [← hstart, ← hend]
    exact r.hasExtent

/-- A range that begins three bytes before a page boundary and ends with user space: it has two
pages.  With one byte more it is refused, and so is a range of the upper half whose end is no
machine word. -/
theorem declare_exact_end_of_user_space :
    roundUp (0x7fffffffeffd + 0x1003) pageSize ≤ userSpaceEnd ∧
    (∃ r, declare ⟨0x7fffffffeffd, by decide⟩ 0x1003 ⟨true, true, false⟩ = .ok r ∧
      r.HasExtent 0x7fffffffe000 userSpaceEnd ∧
      r.pages = [⟨0x7fffffffe, by decide⟩, ⟨0x7ffffffff, by decide⟩]) ∧
    declare ⟨0x7fffffffeffd, by decide⟩ 0x1004 ⟨true, true, false⟩ =
      .error (.addressingFault ⟨0x7fffffffeffd, by decide⟩) ∧
    declare ⟨0xffff800000000123, by decide⟩ 0xffffffffffffffff ⟨true, true, false⟩ =
      .error (.addressingFault ⟨0xffff800000000123, by decide⟩) := by
  have hlimit : roundUp (0x7fffffffeffd + 0x1003) pageSize ≤ userSpaceEnd := by decide
  obtain ⟨r, hr, -, hextent⟩ :=
    (declare_exact ⟨0x7fffffffeffd, by decide⟩ 0x1003 ⟨true, true, false⟩).2 hlimit
  have hpages : (declare ⟨0x7fffffffeffd, by decide⟩ 0x1003 ⟨true, true, false⟩).map pages =
      .ok [⟨0x7fffffffe, by decide⟩, ⟨0x7ffffffff, by decide⟩] := by decide +kernel
  rw [hr] at hpages
  refine ⟨hlimit, ⟨r, hr, hextent, Except.ok.inj hpages⟩, ?_, ?_⟩
  · exact (declare_exact _ _ _).1.mpr (by decide)
  · exact (declare_exact _ _ _).1.mpr (by decide)

end Region

end DemandPaging
