import DemandPaging.Proofs.Views
import DemandPaging.Space.Bytes

/-!
# Transfers of bytes

Bytes of a space are read and written piece by piece, and where a piece ends is a matter of pages.
Seen from the program a range is just addresses one after another.  This module says what reading
and writing come to in these terms: either no address of the range is in the way, and then all
bytes are transferred, or there is a first one, and then those before it are (`View.read`,
`View.write`).

**Obstacles.**  An address is in the way if it has no mapping, or if there is no such address.
The two are different aborts (`View.obstacleAt?`), and both can only come up where a page begins.
-/

namespace DemandPaging

namespace Page

/-- The address `offset` bytes into a page. -/
def address (p : Page) (offset : Nat) (h : offset < 4096) : VirtAddr where
  val := p.index * 4096 + offset
  canonical := by have := p.canonical; omega

@[simp] theorem page_address (p : Page) {offset : Nat} (h : offset < 4096) :
    (p.address offset h).page = p := by
  apply Page.ext
  show (p.index * 4096 + offset) / 4096 = p.index
  omega

@[simp] theorem offset_address (p : Page) {offset : Nat} (h : offset < 4096) :
    (p.address offset h).offset = offset := by
  show (p.index * 4096 + offset) % 4096 = offset
  omega

end Page

namespace Contents

theorem ext_byte {c d : Contents} (h : ∀ i < 4096, c.byte i = d.byte i) : c = d := by
  refine Vector.ext fun i hi => ?_
  have hbyte := h i hi
  simpa [byte, get?, hi] using hbyte

/-- The contents of a page that starts at address `base`, after bytes have been stored from
address `n` on. -/
def patch (c : Contents) (base n : Nat) (bytes : List UInt8) : Contents :=
  c.overwrite (n - base) (bytes.drop (base - n))

theorem byte_patch (c : Contents) (base n : Nat) (bytes : List UInt8) {i : Nat} (h : i < 4096) :
    (c.patch base n bytes).byte i =
      if n ≤ base + i then bytes[base + i - n]?.getD (c.byte i) else c.byte i := by
  unfold patch
  rw [byte_overwrite _ _ h, List.getElem?_drop]
  by_cases hn : n ≤ base + i
  · have hle : n - base ≤ i := by omega
    have hindex : base - n + (i - (n - base)) = base + i - n := by omega
    rw [if_pos hle, if_pos hn, hindex]
  · have hlt : ¬ n - base ≤ i := by omega
    rw [if_neg hlt, if_neg hn]

@[simp] theorem patch_nil (c : Contents) (base n : Nat) : c.patch base n [] = c := by
  refine ext_byte fun i hi => ?_
  rw [byte_patch _ _ _ _ hi]
  split <;> rfl

/-- Bytes stored after a page or before it do not change it. -/
theorem patch_of_apart {c : Contents} {base n : Nat} {bytes : List UInt8}
    (h : base + 4096 ≤ n ∨ n + bytes.length ≤ base) : c.patch base n bytes = c := by
  refine ext_byte fun i hi => ?_
  rw [byte_patch _ _ _ _ hi]
  split
  · rw [List.getElem?_eq_none (by omega)]
    rfl
  · rfl

theorem patch_append (c : Contents) (base n : Nat) (xs ys : List UInt8) :
    c.patch base n (xs ++ ys) = (c.patch base n xs).patch base (n + xs.length) ys := by
  refine ext_byte fun i hi => ?_
  rw [byte_patch _ _ _ _ hi, byte_patch _ _ _ _ hi, byte_patch _ _ _ _ hi]
  by_cases hfirst : base + i < n
  · rw [if_neg (by omega), if_neg (by omega), if_neg (by omega)]
  · by_cases hsecond : base + i < n + xs.length
    · rw [if_pos (by omega), if_neg (by omega), if_pos (by omega),
        List.getElem?_append_left (by omega)]
    · have hindex : base + i - n - xs.length = base + i - (n + xs.length) := by omega
      have hnone : xs[base + i - n]? = none := List.getElem?_eq_none (by omega)
      rw [if_pos (by omega), if_pos (by omega), if_pos (by omega),
        List.getElem?_append_right (by omega), hindex, hnone]
      rfl

end Contents

namespace View

variable {v : View} {a : VirtAddr}

/-- What is in the way of the byte `i` bytes after `a`. -/
def obstacleAt? (v : View) (a : VirtAddr) (i : Nat) : Option Abort :=
  match a.add i with
  | .error h => some (.halted h)
  | .ok b => if (v.pages b.page).isSome then none else some (.failed (.addressingFault b))

/-- The first obstacle among `n` bytes, from the one `start` bytes after `a` on, and where it
is. -/
def obstacle? (v : View) (a : VirtAddr) (start n : Nat) : Option (Nat × Abort) :=
  (List.range' start n).findSome? fun i => (v.obstacleAt? a i).map fun e => (i, e)

/-- The byte `i` bytes after `a`. -/
def byteAt (v : View) (a : VirtAddr) (i : Nat) : UInt8 :=
  match a.add i with
  | .error _ => 0
  | .ok b => ((v.pages b.page).map fun c => c.2.byte b.offset).getD 0

/-- **Reading** a range, in terms of what can be seen. -/
def read (v : View) (a : VirtAddr) (count : Nat) : Except Abort (List UInt8) :=
  match v.obstacle? a 0 count with
  | some (_, e) => .error e
  | none => .ok ((List.range' 0 count).map (v.byteAt a))

/-- The view after bytes have been stored from address `n` on, wherever that is mapped. -/
def store (v : View) (n : Nat) (bytes : List UInt8) : View :=
  { v with pages := fun p => (v.pages p).map fun c => (c.1, c.2.patch p.start.val n bytes) }

/-- **Writing** to a range, in terms of what can be seen: what comes before an obstacle is
written. -/
def write (v : View) (a : VirtAddr) (bytes : List UInt8) : Except Abort Unit × View :=
  match v.obstacle? a 0 bytes.length with
  | some (i, e) => (.error e, v.store a.val (bytes.take i))
  | none => (.ok (), v.store a.val bytes)

@[simp] theorem store_nil (v : View) (n : Nat) : v.store n [] = v := by
  simp [store]

theorem store_append (v : View) (n : Nat) (xs ys : List UInt8) :
    v.store n (xs ++ ys) = (v.store n xs).store (n + xs.length) ys := by
  refine View.ext rfl rfl rfl (funext fun p => ?_)
  show (v.pages p).map _ = ((v.pages p).map _).map _
  rw [Option.map_map]
  refine Option.map_congr fun c _ => ?_
  simp only [Function.comp, Contents.patch_append]

/-- Storing bytes puts nothing in the way and clears nothing away. -/
theorem obstacle?_store (v : View) (n : Nat) (bytes : List UInt8) (a : VirtAddr)
    (start count : Nat) :
    (v.store n bytes).obstacle? a start count = v.obstacle? a start count := by
  simp [obstacle?, obstacleAt?, store]

theorem obstacle?_append (v : View) (a : VirtAddr) (start m n : Nat) :
    v.obstacle? a start (m + n) = (v.obstacle? a start m).or (v.obstacle? a (start + m) n) := by
  unfold obstacle?
  rw [← List.findSome?_append, List.range'_append_1]

theorem obstacle?_eq_none {start n : Nat} (h : ∀ i < n, v.obstacleAt? a (start + i) = none) :
    v.obstacle? a start n = none := by
  unfold obstacle?
  rw [List.findSome?_eq_none_iff]
  intro i hi
  obtain ⟨hle, hlt⟩ := List.mem_range'_1.mp hi
  have hfree := h (i - start) (by omega)
  rw [Nat.add_sub_cancel' hle] at hfree
  rw [hfree]
  rfl

theorem obstacle?_of_first {start n : Nat} {e : Abort} (h : v.obstacleAt? a start = some e)
    (hn : 0 < n) : v.obstacle? a start n = some (start, e) := by
  obtain ⟨m, rfl⟩ := Nat.exists_eq_add_of_lt hn
  unfold obstacle?
  rw [Nat.zero_add, List.range'_succ, List.findSome?_cons, h]
  rfl

end View

namespace AddressSpace

variable {s : AddressSpace} {a : VirtAddr} {done remaining : Nat}

/-- A piece lies in one page, from the address at hand on. -/
theorem piece_eq_ok {p : Frame × Nat × Nat} (h : s.piece a done remaining = .ok p) :
    ∃ b e, a.add done = .ok b ∧ s.table.find? b.page = some e ∧
      p = (e.frame, b.offset, min remaining (pageSize - b.offset)) := by
  unfold piece at h
  split at h
  · cases h
  · next b hb =>
      split at h
      · cases h
      · next e he =>
          cases h
          exact ⟨b, e, hb, he, rfl⟩

/-- A piece that cannot be had is one whose first byte is not there. -/
theorem obstacleAt?_of_piece (m : Memory) {e : Abort} (h : s.piece a done remaining = .error e) :
    (s.view m).obstacleAt? a done = some e := by
  unfold piece at h
  unfold View.obstacleAt?
  cases hadd : a.add done with
  | error halt =>
      simp only [hadd] at h
      exact congrArg some (Except.error.inj h)
  | ok b =>
      simp only [hadd] at h
      cases hfind : s.table.find? b.page with
      | none =>
          simp only [lookup, PageRow.lookup, hfind] at h
          simpa [view, hfind] using Except.error.inj h
      | some e =>
          simp only [lookup, PageRow.lookup, hfind] at h
          cases h

/-- The addresses of a piece, one after another. -/
theorem add_of_piece {b : VirtAddr} (hb : a.add done = .ok b) {i : Nat}
    (hi : b.offset + i < 4096) : a.add (done + i) = .ok (b.page.address (b.offset + i) hi) := by
  rw [VirtAddr.add_eq_ok_iff] at hb ⊢
  have hsplit := b.page_start_add_offset
  show b.page.index * 4096 + (b.offset + i) = _
  simp only [Page.start_val] at hsplit
  omega

/-- Nothing is in the way in a piece. -/
theorem obstacle?_of_piece (m : Memory) {p : Frame × Nat × Nat}
    (h : s.piece a done remaining = .ok p) : (s.view m).obstacle? a done p.2.2 = none := by
  obtain ⟨b, e, hb, he, rfl⟩ := piece_eq_ok h
  refine View.obstacle?_eq_none fun i hi => ?_
  have hin : b.offset + i < 4096 := by simp only [pageSize] at hi; omega
  simp [View.obstacleAt?, add_of_piece hb hin, view, he]

/-- The bytes of a piece are those of its frame. -/
theorem read_of_piece (m : Memory) {p : Frame × Nat × Nat}
    (h : s.piece a done remaining = .ok p) :
    m.read p.1 p.2.1 p.2.2 = (List.range' done p.2.2).map ((s.view m).byteAt a) := by
  obtain ⟨b, e, hb, he, rfl⟩ := piece_eq_ok h
  simp only [Memory.read, Contents.slice, List.range'_eq_map_range, List.map_map]
  refine List.map_congr_left fun i hi => ?_
  have hin : b.offset + i < 4096 := by
    have := List.mem_range.mp hi
    simp only [pageSize] at this
    omega
  simp [View.byteAt, add_of_piece hb hin, view, he]

theorem piece_le {p : Frame × Nat × Nat} (h : s.piece a done remaining = .ok p) :
    p.2.2 ≤ remaining := by
  obtain ⟨b, e, -, -, rfl⟩ := piece_eq_ok h
  exact Nat.min_le_left _ _

/-- What is in the way of a range is in the way behind its first piece. -/
theorem obstacle?_behind_piece (m : Memory) {p : Frame × Nat × Nat}
    (h : s.piece a done remaining = .ok p) :
    (s.view m).obstacle? a done remaining =
      (s.view m).obstacle? a (done + p.2.2) (remaining - p.2.2) := by
  have hle := piece_le h
  rw [← Nat.add_sub_cancel' hle, View.obstacle?_append, obstacle?_of_piece m h, Option.none_or,
    Nat.add_sub_cancel' hle]

/-! ### Reading -/

/-- A range of which the first piece cannot be had. -/
theorem readFrom_of_error {m : Memory} {e : Abort} (h : s.piece a done remaining = .error e)
    (hremaining : remaining ≠ 0) : s.readFrom m a done remaining = .error e := by
  rw [readFrom, dif_neg hremaining]
  split
  · next e' h' => rw [h] at h'; cases h'; rfl
  · next p h' => rw [h] at h'; cases h'

/-- The first piece of a range, then the rest. -/
theorem readFrom_of_ok {m : Memory} {p : Frame × Nat × Nat}
    (h : s.piece a done remaining = .ok p) (hremaining : remaining ≠ 0) :
    s.readFrom m a done remaining =
      (s.readFrom m a (done + p.2.2) (remaining - p.2.2)).map (m.read p.1 p.2.1 p.2.2 ++ ·) := by
  rw [readFrom, dif_neg hremaining]
  split
  · next e h' => rw [h] at h'; cases h'
  · next p' h' =>
      rw [h] at h'
      cases h'
      cases s.readFrom m a (done + p.2.2) (remaining - p.2.2) <;> rfl

/-- Reading piece after piece, by induction on what remains. -/
theorem readFrom_eq (s : AddressSpace) (m : Memory) (a : VirtAddr) (done remaining : Nat) :
    s.readFrom m a done remaining =
      match (s.view m).obstacle? a done remaining with
      | some (_, e) => .error e
      | none => .ok ((List.range' done remaining).map ((s.view m).byteAt a)) := by
  induction remaining using Nat.strongRecOn generalizing done with
  | ind remaining ih =>
      by_cases hremaining : remaining = 0
      · subst hremaining
        rw [readFrom, dif_pos rfl]
        rfl
      · cases hpiece : s.piece a done remaining with
        | error e =>
            rw [readFrom_of_error hpiece hremaining,
              View.obstacle?_of_first (obstacleAt?_of_piece m hpiece) (by omega)]
        | ok p =>
            have hpos := piece_pos hpiece (by omega)
            have hle := piece_le hpiece
            rw [readFrom_of_ok hpiece hremaining, obstacle?_behind_piece m hpiece,
              ih (remaining - p.2.2) (by omega)]
            cases (s.view m).obstacle? a (done + p.2.2) (remaining - p.2.2) with
            | some stop => rfl
            | none =>
                have hsplit : List.range' done remaining =
                    List.range' done p.2.2 ++ List.range' (done + p.2.2) (remaining - p.2.2) := by
                  rw [List.range'_append_1, Nat.add_sub_cancel' hle]
                simp only [Except.map, read_of_piece m hpiece, hsplit, List.map_append]

/-- **Reading** answers what can be seen. -/
theorem read_eq (s : AddressSpace) (m : Memory) (a : VirtAddr) (count : Nat) :
    s.read m a count = (s.view m).read a count :=
  s.readFrom_eq m a 0 count

/-! ### Writing -/

/-- A piece is stored where it can be seen. -/
theorem view_write_piece {m : Memory} {p : Frame × Nat × Nat} {bytes : List UInt8}
    (hnodup : s.frames.Nodup) (h : s.piece a done remaining = .ok p)
    (hlength : bytes.length ≤ p.2.2) :
    s.view (m.write p.1 p.2.1 bytes) = (s.view m).store (a.val + done) bytes := by
  obtain ⟨b, e, hb, he, rfl⟩ := piece_eq_ok h
  have hval : b.page.index * 4096 + b.offset = a.val + done :=
    b.page_start_add_offset.trans (VirtAddr.add_eq_ok_iff.mp hb)
  have hoffset : b.offset < 4096 := b.offset_lt
  simp only [pageSize] at hlength
  refine View.ext rfl rfl rfl (funext fun q => ?_)
  show (s.table.find? q).map _ = ((s.table.find? q).map _).map _
  rw [Option.map_map]
  refine Option.map_congr fun d hd => ?_
  simp only [Function.comp, Memory.contents_write, Page.start_val, ← hval, Prod.mk.injEq, true_and]
  by_cases hq : b.page = q
  · subst hq
    obtain rfl : e = d := Option.some.inj (he.symm.trans hd)
    rw [if_pos rfl, Contents.patch, Nat.add_sub_cancel_left,
      Nat.sub_eq_zero_of_le (Nat.le_add_right _ _), List.drop_zero]
  · -- in another page nothing is stored, and it lies in another frame
    have hframe := PageTable.frame_ne hnodup he hd hq
    have hindex : b.page.index ≠ q.index := fun heq => hq (Page.ext heq)
    rw [if_neg hframe, Contents.patch_of_apart (by omega)]

/-- A range of which the first piece cannot be had. -/
theorem writeFrom_of_error {bytes : List UInt8} {e : Abort}
    (h : s.piece a done bytes.length = .error e) (hbytes : bytes ≠ []) :
    s.writeFrom a done bytes = throw e := by
  rw [writeFrom, dif_neg hbytes]
  split
  · next e' h' => rw [h] at h'; cases h'; rfl
  · next p h' => rw [h] at h'; cases h'

/-- The first piece of a range, then the rest. -/
theorem writeFrom_of_ok {bytes : List UInt8} {p : Frame × Nat × Nat}
    (h : s.piece a done bytes.length = .ok p) (hbytes : bytes ≠ []) :
    s.writeFrom a done bytes = (do
      Kernel.writeFrame p.1 p.2.1 (bytes.take p.2.2)
      s.writeFrom a (done + p.2.2) (bytes.drop p.2.2)) := by
  rw [writeFrom, dif_neg hbytes]
  split
  · next e h' => rw [h] at h'; cases h'
  · next p' h' => rw [h] at h'; cases h'; rfl

/-- Writing piece after piece, by induction on what remains.  Nothing but memory changes. -/
theorem ends_writeFrom (hnodup : s.frames.Nodup) (bytes : List UInt8) {k : Kernel} :
    Ends (s.writeFrom a done bytes) k
      (fun _ k' => (s.view k.memory).obstacle? a done bytes.length = none ∧
        s.view k'.memory = (s.view k.memory).store (a.val + done) bytes ∧
        k' = { k with memory := k'.memory })
      (fun e k' => ∃ i, (s.view k.memory).obstacle? a done bytes.length = some (done + i, e) ∧
        s.view k'.memory = (s.view k.memory).store (a.val + done) (bytes.take i) ∧
        k' = { k with memory := k'.memory }) := by
  induction hn : bytes.length using Nat.strongRecOn generalizing done bytes k with
  | ind n ih =>
      subst hn
      by_cases hbytes : bytes = []
      · subst hbytes
        rw [writeFrom, dif_pos rfl]
        exact ⟨rfl, (View.store_nil _ _).symm, rfl⟩
      · have hlength : 0 < bytes.length := List.length_pos_iff.mpr hbytes
        cases hpiece : s.piece a done bytes.length with
        | error e =>
            rw [writeFrom_of_error hpiece hbytes]
            have hfirst := View.obstacle?_of_first (obstacleAt?_of_piece k.memory hpiece) hlength
            exact ⟨0, hfirst, by simp, rfl⟩
        | ok p =>
            have hpos := piece_pos hpiece hlength
            have hle := piece_le hpiece
            have htake : (bytes.take p.2.2).length = p.2.2 := by simp [Nat.min_eq_left hle]
            have hview := view_write_piece (m := k.memory) hnodup hpiece (Nat.le_of_eq htake)
            rw [writeFrom_of_ok hpiece hbytes, obstacle?_behind_piece k.memory hpiece]
            unfold Kernel.writeFrame
            simp only [ends_bind, ends_modify]
            have hless : (bytes.drop p.2.2).length < bytes.length := by
              rw [List.length_drop]
              omega
            have hrest := @ih _ hless (done + p.2.2) (bytes.drop p.2.2)
              { k with memory := k.memory.write p.1 p.2.1 (bytes.take p.2.2) } rfl
            simp only [hview, View.obstacle?_store, List.length_drop] at hrest
            -- what the rest stores is stored behind the piece
            have hstore : ∀ data, ((s.view k.memory).store (a.val + done) (bytes.take p.2.2)).store
                (a.val + (done + p.2.2)) data =
                  (s.view k.memory).store (a.val + done) (bytes.take p.2.2 ++ data) := by
              intro data
              rw [View.store_append, htake, Nat.add_assoc]
            refine Ends.mono hrest ?_ ?_
            · rintro _ k' ⟨hnone, hview', hk'⟩
              refine ⟨hnone, ?_, hk'⟩
              rw [hview', hstore, List.take_append_drop]
            · rintro e k' ⟨i, hstop, hview', hk'⟩
              refine ⟨p.2.2 + i, by rw [hstop, Nat.add_assoc], ?_, hk'⟩
              rw [hview', hstore, List.take_add]

/-- **Writing** changes what can be seen, and nothing but memory. -/
theorem ends_write (hnodup : s.frames.Nodup) (a : VirtAddr) (bytes : List UInt8) {k : Kernel} :
    Ends (s.write a bytes) k
      (fun _ k' => (s.view k.memory).write a bytes = (.ok (), s.view k'.memory) ∧
        k' = { k with memory := k'.memory })
      (fun e k' => (s.view k.memory).write a bytes = (.error e, s.view k'.memory) ∧
        k' = { k with memory := k'.memory }) := by
  refine Ends.mono (ends_writeFrom hnodup bytes) ?_ ?_
  · rintro _ k' ⟨hnone, hview, hk'⟩
    exact ⟨by rw [View.write, hnone, hview, Nat.add_zero], hk'⟩
  · rintro e k' ⟨i, hstop, hview, hk'⟩
    exact ⟨by rw [View.write, hstop, hview, Nat.zero_add, Nat.add_zero], hk'⟩

end AddressSpace

end DemandPaging
