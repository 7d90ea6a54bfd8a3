import DemandPaging.Proofs.Ranges
import DemandPaging.Proofs.Tenure

/-!
# What is written is what is read

The kernel cuts a range into pieces, and every piece lies somewhere else in physical memory.
None of this shows.  Bytes that have been written are read back as they were, all other bytes
of the space read as before, and what is read is what one would find by translating one
address after another (`AddressSpace.read_eq_ok_iff`).

**Where distinct frames are needed.**  Reading back takes only that the last piece written to a
frame is not overwritten by a later one, and that other bytes read as before takes the same: no
two pages of the space lie in one frame.  No single operation ensures this.  It is part of what
a run keeps (`History.run_reads_back`).
-/

namespace DemandPaging

/-- The byte at the translation of an address. -/
theorem Memory.byte_address (m : Memory) (f : Frame) (b : VirtAddr) :
    m.byte (f.address b.offset b.offset_lt).frame (f.address b.offset b.offset_lt).offset =
      m.byte f b.offset := by
  have hoffset := b.offset_lt
  unfold pageSize at hoffset
  refine congrArg₂ m.byte (Frame.ext ?_) ?_
  · show (f.index * 4096 + b.offset) / 4096 = f.index
    omega
  · show (f.index * 4096 + b.offset) % 4096 = b.offset
    omega

namespace View

variable {v : View} {a b : VirtAddr} {bytes : List UInt8} {i n : Nat}

/-- In a range without obstacle nothing is in the way of any byte. -/
theorem obstacleAt?_of_lt (h : v.obstacle? a 0 n = none) (hi : i < n) :
    v.obstacleAt? a i = none := by
  have hclear := List.findSome?_eq_none_iff.mp h i (List.mem_range'_1.mpr (by omega))
  simpa using hclear

/-- A byte after bytes have been stored from address `n` on. -/
theorem byteAt_store (hb : a.add i = .ok b) :
    (v.store n bytes).byteAt a i =
      ((v.pages b.page).map fun c =>
        if n ≤ b.val then bytes[b.val - n]?.getD (c.2.byte b.offset)
        else c.2.byte b.offset).getD 0 := by
  have hsplit := b.page_start_add_offset
  unfold byteAt
  rw [hb]
  simp only [store, Option.map_map]
  congr 2
  funext c
  simp only [Function.comp, Contents.byte_patch _ _ _ _ b.offset_lt, hsplit]

/-- Where bytes have been stored they are seen. -/
theorem byteAt_store_self (hfree : v.obstacleAt? a i = none) (hi : i < bytes.length) :
    (v.store a.val bytes).byteAt a i = bytes[i] := by
  unfold obstacleAt? at hfree
  split at hfree
  · cases hfree
  · next b hb =>
      have hval := VirtAddr.add_eq_ok_iff.mp hb
      obtain ⟨c, hc⟩ : ∃ c, v.pages b.page = some c := by
        simpa [Option.ne_none_iff_exists'] using hfree
      rw [byteAt_store hb, hc, Option.map_some, Option.getD_some, if_pos (by omega),
        show b.val - a.val = i by omega, List.getElem?_eq_getElem hi, Option.getD_some]

/-- Elsewhere what was there is seen. -/
theorem byteAt_store_of_apart (hapart : a.val + i < n ∨ n + bytes.length ≤ a.val + i) :
    (v.store n bytes).byteAt a i = v.byteAt a i := by
  cases hb : a.add i with
  | error e => simp only [byteAt, hb]
  | ok b =>
      have hval := VirtAddr.add_eq_ok_iff.mp hb
      rw [byteAt_store hb]
      unfold byteAt
      rw [hb]
      congr 2
      funext c
      split
      · rw [List.getElem?_eq_none (by omega), Option.getD_none]
      · rfl

/-- **Reading back** a range that bytes have been stored in. -/
theorem read_store_self (h : v.obstacle? a 0 bytes.length = none) :
    (v.store a.val bytes).read a bytes.length = .ok bytes := by
  unfold read
  rw [obstacle?_store, h]
  refine congrArg Except.ok (List.ext_getElem (by simp) fun i hi hi' => ?_)
  rw [List.getElem_map, List.getElem_range', Nat.zero_add, Nat.one_mul]
  exact byteAt_store_self (obstacleAt?_of_lt h hi') hi'

/-- A range apart from the one that bytes have been stored in reads as before. -/
theorem read_store_of_apart {count : Nat}
    (hapart : a.val + count ≤ n ∨ n + bytes.length ≤ a.val) :
    (v.store n bytes).read a count = v.read a count := by
  unfold read
  rw [obstacle?_store]
  have hsame : (List.range' 0 count).map ((v.store n bytes).byteAt a) =
      (List.range' 0 count).map (v.byteAt a) := by
    refine List.map_congr_left fun i hi => byteAt_store_of_apart ?_
    have hlt := (List.mem_range'_1.mp hi).2
    omega
  rw [hsame]

end View

namespace AddressSpace

variable {s : AddressSpace} {m : Memory} {a b : VirtAddr} {bytes : List UInt8}

/-- **Byte by byte**: the bytes are those of physical memory at the translations of the
addresses from `a` on. -/
def SeesBytes (s : AddressSpace) (m : Memory) (a : VirtAddr) (bytes : List UInt8) : Prop :=
  ∀ i (hi : i < bytes.length), ∃ (b : VirtAddr) (p : PhysAddr), b.val = a.val + i ∧
    s.physical? b = some p ∧ m.byte p.frame p.offset = bytes[i]

theorem physical?_eq_some_iff {p : PhysAddr} :
    s.physical? a = some p ↔
      ∃ e, s.table.find? a.page = some e ∧ e.frame.address a.offset a.offset_lt = p := by
  simp only [physical?, lookup, PageRow.lookup, Option.map_eq_some_iff]

/-- The byte that is seen at a mapped address. -/
theorem byteAt_view {i : Nat} (hb : a.add i = .ok b) {e : PageEntry}
    (he : s.table.find? b.page = some e) :
    (s.view m).byteAt a i = m.byte e.frame b.offset := by
  simp only [View.byteAt, hb, view, he, Option.map_some, Option.getD_some, Memory.byte]

/-- **What a read answers.**  It answers bytes exactly if they are those that are found byte by
byte. -/
theorem read_eq_ok_iff {n : Nat} :
    s.read m a n = .ok bytes ↔ bytes.length = n ∧ s.SeesBytes m a bytes := by
  constructor
  · intro h
    rw [read_eq] at h
    unfold View.read at h
    split at h
    · cases h
    · next hnone =>
        cases h
        refine ⟨by simp, fun i hi => ?_⟩
        rw [List.length_map, List.length_range'] at hi
        obtain ⟨b, hb, hmapped⟩ :=
          (obstacleAt?_eq_none_iff m).mp (View.obstacleAt?_of_lt hnone hi)
        obtain ⟨e, he⟩ := Option.isSome_iff_exists.mp hmapped
        refine ⟨b, _, hb, physical?_eq_some_iff.mpr ⟨e, he, rfl⟩, ?_⟩
        rw [List.getElem_map, List.getElem_range', Nat.zero_add, Nat.one_mul,
          byteAt_view (VirtAddr.add_eq_ok_iff.mpr hb) he]
        exact m.byte_address e.frame b
  · rintro ⟨rfl, hsees⟩
    rw [read_eq]
    unfold View.read
    have hclear : ∀ i < bytes.length, (s.view m).obstacleAt? a (0 + i) = none := by
      intro i hi
      obtain ⟨b, p, hb, hphysical, -⟩ := hsees i hi
      obtain ⟨e, he, -⟩ := physical?_eq_some_iff.mp hphysical
      rw [Nat.zero_add]
      exact (obstacleAt?_eq_none_iff m).mpr ⟨b, hb, Option.isSome_iff_exists.mpr ⟨e, he⟩⟩
    rw [View.obstacle?_eq_none hclear]
    refine congrArg Except.ok (List.ext_getElem (by simp) fun i hi hi' => ?_)
    obtain ⟨b, p, hb, hphysical, hbyte⟩ := hsees i hi'
    obtain ⟨e, he, rfl⟩ := physical?_eq_some_iff.mp hphysical
    rw [List.getElem_map, List.getElem_range', Nat.zero_add, Nat.one_mul,
      byteAt_view (VirtAddr.add_eq_ok_iff.mpr hb) he]
    exact (m.byte_address e.frame b).symm.trans hbyte

/-- A write to a range without obstacle answers. -/
theorem write_of_obstacle? {k : Kernel} (hnodup : s.frames.Nodup)
    (h : (s.view k.memory).obstacle? a 0 bytes.length = none) :
    ∃ k', s.write a bytes k = .ok () k' := by
  cases hwrite : s.write a bytes k with
  | ok u k' => exact ⟨k', rfl⟩
  | error e k' =>
      obtain ⟨i, hsome, -⟩ := (ends_writeFrom hnodup bytes).of_error hwrite
      cases h.symm.trans hsome

/-- **Write, then read.**  In a space that maps no frame twice, what has been written is read
back, and a range apart from it reads as before. -/
theorem read_write (hnodup : s.frames.Nodup) {k k' : Kernel} (h : s.write a bytes k = .ok () k') :
    s.read k'.memory a bytes.length = .ok bytes ∧
      ∀ b n, b.val + n ≤ a.val ∨ a.val + bytes.length ≤ b.val →
        s.read k'.memory b n = s.read k.memory b n := by
  obtain ⟨hnone, hview, -⟩ := (ends_writeFrom hnodup bytes).of_ok h
  rw [Nat.add_zero] at hview
  refine ⟨?_, fun b n hapart => ?_⟩
  · rw [read_eq, hview]
    exact View.read_store_self hnone
  · rw [read_eq, read_eq, hview]
    exact View.read_store_of_apart hapart

end AddressSpace

namespace History

variable {h : History} {rs : List Request} {s : AddressSpace}

/-- **Write, then read**, in any space of any machine that has been running since it was blank.
After a write that answers, the same range reads what was written, and every range apart from
it reads as before; and whatever a read answers is what is found byte by byte. -/
theorem run_reads_back {m : Machine} (blank : m.IsBlank) (run : Run ⟨m, []⟩ rs h)
    (hs : s ∈ h.machine.live) :
    (∀ (k k' : Kernel) (a : VirtAddr) (bytes : List UInt8), s.write a bytes k = .ok () k' →
      s.read k'.memory a bytes.length = .ok bytes ∧
        ∀ b n, b.val + n ≤ a.val ∨ a.val + bytes.length ≤ b.val →
          s.read k'.memory b n = s.read k.memory b n) ∧
      ∀ memory a n bytes, s.read memory a n = .ok bytes →
        bytes.length = n ∧ s.SeesBytes memory a bytes := by
  have hnodup : s.frames.Nodup := (run.tenure blank).nodup_frames hs
  exact ⟨fun _ _ _ _ => AddressSpace.read_write hnodup,
    fun _ _ _ _ => AddressSpace.read_eq_ok_iff.mp⟩

/-- A space over sixteen frames with two neighbouring pages in the frames one and three: the first
is brought in while booting, the other over the map. -/
theorem exists_scattered_sixteen_frames :
    ∃ rs h s, Run ⟨bootingSixteenFrames, []⟩ rs h ∧ s ∈ h.machine.live ∧
      s.physical? ⟨0x1fff, by decide⟩ = some ⟨0x1fff, by decide⟩ ∧
      s.physical? ⟨0x2000, by decide⟩ = some ⟨0x3000, by decide⟩ ∧
      (s.view h.machine.kernel.memory).obstacle? ⟨0x1ffc, by decide⟩ 0 8 = none := by
  have booting : Run ⟨bootingSixteenFrames, []⟩ _ _ :=
    ((Run.start.next .createSpace trivial (by decide +kernel)).next
      (.space (.space 0) (.declareRegion ⟨0x1000, by decide⟩ 0x2000 ⟨true, true, false⟩))
        trivial (by decide +kernel)).next
      (.fault (.owner (.space 0)) .write ⟨0x1004, by decide⟩) trivial (by decide +kernel)
  have run : Run ⟨bootingSixteenFrames, []⟩ _ _ :=
    (booting.next (.frames (.bootstrap sixteenFramesLayout none)) trivial (by decide +kernel)).next
      (.fault (.owner (.space 0)) .write ⟨0x2004, by decide⟩) trivial (by decide +kernel)
  obtain ⟨rs, h, s, run, hs, hfacts⟩ := run.exists_space
    (fun h s => decide (s.physical? ⟨0x1fff, by decide⟩ = some ⟨0x1fff, by decide⟩ ∧
      s.physical? ⟨0x2000, by decide⟩ = some ⟨0x3000, by decide⟩ ∧
      (s.view h.machine.kernel.memory).obstacle? ⟨0x1ffc, by decide⟩ 0 8 = none))
    (by decide +kernel)
  exact ⟨rs, h, s, run, hs, of_decide_eq_true hfacts⟩

/-- Eight bytes across two pages that are not neighbours in memory. -/
theorem run_reads_back_sixteen_frames :
    ∃ rs h s k', Run ⟨bootingSixteenFrames, []⟩ rs h ∧ s ∈ h.machine.live ∧
      s.physical? ⟨0x1fff, by decide⟩ = some ⟨0x1fff, by decide⟩ ∧
      s.physical? ⟨0x2000, by decide⟩ = some ⟨0x3000, by decide⟩ ∧
      s.write ⟨0x1ffc, by decide⟩ [1, 2, 3, 4, 5, 6, 7, 8] h.machine.kernel = .ok () k' ∧
      s.read k'.memory ⟨0x1ffc, by decide⟩ 8 = .ok [1, 2, 3, 4, 5, 6, 7, 8] ∧
      s.SeesBytes k'.memory ⟨0x1ffc, by decide⟩ [1, 2, 3, 4, 5, 6, 7, 8] := by
  obtain ⟨rs, h, s, run, hs, hlow, hhigh, hnone⟩ := exists_scattered_sixteen_frames
  obtain ⟨hreads, hsees⟩ := run_reads_back isBlank_bootingSixteenFrames run hs
  obtain ⟨k', hwrite⟩ : ∃ k', s.write ⟨0x1ffc, by decide⟩ [1, 2, 3, 4, 5, 6, 7, 8]
      h.machine.kernel = .ok () k' :=
    AddressSpace.write_of_obstacle? ((run.tenure isBlank_bootingSixteenFrames).nodup_frames hs)
      hnone
  have hread := (hreads _ k' _ _ hwrite).1
  exact ⟨rs, h, s, k', run, hs, hlow, hhigh, hwrite, hread, (hsees _ _ _ _ hread).2⟩

end History

end DemandPaging
