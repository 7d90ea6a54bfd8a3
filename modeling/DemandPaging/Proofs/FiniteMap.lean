import DemandPaging.Proofs.Custody
import Mathlib.Data.List.Induction

/-!
# Page tables as finite maps

A page table is a row of slots with two counters, and it is used as a map from pages to frames
and flags.  `Books` are what somebody would write down who watched its edits and never saw the
row: the map, the pages in the order of their arrival, and how many slots there must be by now.
Whatever is done to a row, it agrees with the books (`PageRow.edits_agree`), and so do both
counters, of which nothing is supposed.

**Packed rows.**  Nothing is ever taken out of a table that is in use.  So the taken slots come
first, the first free slot has the number of mappings for its number, and when there is none
the slot that comes next is the first one that growing adds.  This is why choosing the slot
before the table grows, by the number of slots noted then, chooses the same one.

**One entry for a page.**  Changing the entry of a page is written as a pass over all slots.
As no page has two entries, the pass changes one slot (`PageRow.Agrees.update_eq_set`).
-/

namespace DemandPaging

namespace Slots

variable {α : Type} {as : List α} {n : Nat}

/-- **Packed rows**: some values, and `n` empty slots after them. -/
def packed (as : List α) (n : Nat) : Slots α := ⟨as.map some ++ List.replicate n none⟩

theorem getElem?_packed {i : Nat} {a : α} :
    (packed as n).cells[i]? = some (some a) ↔ as[i]? = some a := by
  unfold packed
  rcases Nat.lt_or_ge i as.length with hlt | hge
  · rw [List.getElem?_append_left (by simpa using hlt), List.getElem?_map]
    cases as[i]? <;> simp
  · rw [List.getElem?_append_right (by simpa using hge), List.getElem?_replicate,
      List.getElem?_eq_none hge]
    split <;> simp

@[simp] theorem values_packed : (packed as n).values = as := by
  simp [packed, values, List.filterMap_append, List.filterMap_map]

@[simp] theorem size_packed : (packed as n).size = as.length + n := by simp [packed, size]

theorem map_packed (f : α → α) : (packed as n).map f = packed (as.map f) n := by
  simp [packed, map]

theorem extend_packed (m : Nat) : (packed as n).extend m = packed as (n + m) := by
  simp [packed, extend, List.replicate_append_replicate]

/-- The first free slot of a packed row comes right after the values. -/
theorem firstFree?_packed : (packed as n).firstFree? = if n = 0 then none else some as.length := by
  unfold packed firstFree?
  cases n with
  | zero => simp
  | succ n =>
      have hvalues : List.findIdx? (Option.isNone ∘ some) as = none := by simp
      simp [List.findIdx?_append, hvalues, List.replicate_succ, List.findIdx?_cons]

theorem place_packed (a : α) : (packed as (n + 1)).place as.length a = packed (as ++ [a]) n := by
  simp [packed, place, List.replicate_succ]

end Slots

namespace PageRow

/-- **Edits**: what can be done to a row that is in use.  For an insertion it is given whether room
is granted, should it be asked for. -/
inductive Edit where
  | insert (e : PageEntry) (granted : Bool)
  | setFlags (p : Page) (flags : EntryFlags)
  | overwrite (a : VirtAddr) (frame : Frame) (flags : EntryFlags)
  | lookup (a : VirtAddr)

/-- The row after an edit, unless the edit stops the kernel.  An insertion that fails leaves the row
as it was. -/
def edit (r : PageRow) : Edit → Except Halt PageRow
  | .insert e granted =>
    match r.insert granted e with
    | .ok (r', _) => .ok r'
    | .error (.failed _) => .ok r
    | .error (.halted h) => .error h
  | .setFlags p flags => .ok (r.setFlags p flags).2
  | .overwrite a frame flags => .ok (r.update a.page fun e => { e with frame, flags })
  | .lookup _ => .ok r

/-- The row after one edit upon another, the first of a list first. -/
def edits (r : PageRow) (es : List Edit) : Except Halt PageRow := es.foldlM edit r

/-- **Books** of a row, kept by one who sees its edits only. -/
structure Books where
  /-- The frame and the flags recorded last for a page. -/
  recorded : Page → Option (Frame × EntryFlags)
  /-- The pages, in the order in which they were inserted. -/
  pages : List Page
  /-- How many slots there are. -/
  room : Nat

namespace Books

/-- The number of slots after `n` of them were all taken. -/
def doubled (n : Nat) : Nat := if n = 0 then 64 else 2 * n

theorem lt_doubled (n : Nat) : n < doubled n := by
  unfold doubled
  split <;> omega

theorem doubled_eq (n : Nat) : grownCapacity n = doubled n := by
  unfold grownCapacity doubled initialCapacity
  rw [Nat.mul_comm]

/-- Every slot is taken. -/
def IsFull (b : Books) : Prop := b.pages.length = b.room

instance (b : Books) : Decidable b.IsFull := inferInstanceAs (Decidable (_ = _))

/-- How many slots there are once there is one for another page. -/
def nextRoom (b : Books) : Nat := if b.IsFull then doubled b.room else b.room

/-- A new page is turned away if each slot is taken and no room is granted. -/
def Refuses (b : Books) (e : PageEntry) (granted : Bool) : Prop :=
  e.page ∉ b.pages ∧ b.IsFull ∧ granted = false

instance (b : Books) (e : PageEntry) (granted : Bool) : Decidable (b.Refuses e granted) :=
  inferInstanceAs (Decidable (_ ∧ _ ∧ _))

/-- Enters a page. -/
def add (b : Books) (e : PageEntry) : Books where
  recorded := Function.update b.recorded e.page (some (e.frame, e.flags))
  pages := b.pages ++ [e.page]
  room := b.nextRoom

/-- Enters an edit. -/
def enter (b : Books) : Edit → Books
  | .insert e granted => if b.Refuses e granted then b else b.add e
  | .setFlags p flags =>
    { b with recorded :=
        Function.update b.recorded p ((b.recorded p).map fun r => (r.1, flags)) }
  | .overwrite a frame flags =>
    { b with recorded :=
        Function.update b.recorded a.page ((b.recorded a.page).map fun _ => (frame, flags)) }
  | .lookup _ => b

theorem enter_insert (b : Books) (e : PageEntry) (granted : Bool) :
    b.enter (.insert e granted) = if b.Refuses e granted then b else b.add e := rfl

/-- The books of a row that began with `room` empty slots. -/
def of (room : Nat) (es : List Edit) : Books := es.foldl enter ⟨fun _ => none, [], room⟩

theorem of_append (room : Nat) (es : List Edit) (e : Edit) :
    of room (es ++ [e]) = (of room es).enter e := by
  simp [of]

end Books

/-- **Agreement** of a row with books. -/
structure Agrees (r : PageRow) (b : Books) : Prop where
  packed : r = ⟨.packed r.entries (b.room - b.pages.length), b.room, b.pages.length⟩
  fits : b.pages.length ≤ b.room
  pages : r.entries.map PageEntry.page = b.pages
  single : b.pages.Nodup
  recorded : ∀ p, b.recorded p = (r.find? p).map fun e => (e.frame, e.flags)

namespace Agrees

variable {r r' : PageRow} {b : Books} {p : Page} {e : PageEntry} {f : PageEntry → PageEntry}
  {granted : Bool}

theorem length_entries (h : r.Agrees b) : r.entries.length = b.pages.length := by
  rw [← h.pages, List.length_map]

theorem slots (h : r.Agrees b) : r.slots = .packed r.entries (b.room - b.pages.length) :=
  congrArg PageRow.slots h.packed

theorem capacity (h : r.Agrees b) : r.capacity = b.room := congrArg PageRow.capacity h.packed

theorem inUse (h : r.Agrees b) : r.inUse = b.pages.length := congrArg PageRow.inUse h.packed

/-- **There are as many slots as are noted.** -/
theorem sized (h : r.Agrees b) : r.slots.size = r.capacity := by
  rw [h.capacity, h.slots, Slots.size_packed, h.length_entries]
  exact Nat.add_sub_cancel' h.fits

/-- The books are full exactly if the counters say so. -/
theorem isFull_iff (h : r.Agrees b) : b.IsFull ↔ r.size = r.capacity := by
  rw [Books.IsFull, size, h.inUse, h.capacity]

/-- A page is in the books exactly if it is mapped. -/
theorem find?_eq_none_iff (h : r.Agrees b) : r.find? p = none ↔ p ∉ b.pages := by
  rw [← h.pages, mem_pages_iff]
  cases r.find? p <;> simp

/-- The first free slot comes after those that are taken. -/
theorem firstFree? (h : r.Agrees b) :
    r.slots.firstFree? = if b.IsFull then none else some b.pages.length := by
  have hfits := h.fits
  rw [h.slots, Slots.firstFree?_packed, h.length_entries]
  refine if_congr ?_ rfl rfl
  unfold Books.IsFull
  omega

/-- There is a slot for another page then. -/
theorem lt_nextRoom (h : r.Agrees b) : b.pages.length < b.nextRoom := by
  have hfits := h.fits
  have hgrown := Books.lt_doubled b.room
  unfold Books.nextRoom
  split
  · omega
  · next hsome => exact Nat.lt_of_le_of_ne hfits hsome

/-- Growing leaves a packed row with an empty slot at its end. -/
theorem grow_eq (h : r.Agrees b) (hfull : b.IsFull) :
    r.grow = ⟨.packed r.entries (b.nextRoom - b.pages.length), b.nextRoom, b.pages.length⟩ := by
  have hgrown := Books.lt_doubled b.room
  have hslots := slots_grow h.sized
  rw [h.slots, h.capacity, Slots.extend_packed, Books.doubled_eq] at hslots
  have hroom : b.room - b.pages.length + (Books.doubled b.room - b.room) =
      b.nextRoom - b.pages.length := by
    have hcount : b.pages.length = b.room := hfull
    rw [Books.nextRoom, if_pos hfull]
    omega
  rw [hroom] at hslots
  have hcapacity : grownCapacity r.capacity = b.nextRoom := by
    rw [h.capacity, Books.doubled_eq, Books.nextRoom, if_pos hfull]
  rw [PageRow.mk.injEq]
  exact ⟨hslots, hcapacity, h.inUse⟩

/-- The row with a mapping behind the others, and room for it. -/
theorem place_packed (h : r.Agrees b) {row : PageRow} (e : PageEntry)
    (hrow : row = ⟨.packed r.entries (b.nextRoom - b.pages.length), b.nextRoom, b.pages.length⟩) :
    row.place b.pages.length e =
      ⟨.packed (r.entries ++ [e]) (b.nextRoom - (b.pages.length + 1)), b.nextRoom,
        b.pages.length + 1⟩ := by
  have hroom := h.lt_nextRoom
  rw [hrow, ← Nat.sub_add_cancel (Nat.sub_pos_of_lt hroom), ← h.length_entries]
  unfold place
  rw [Slots.place_packed, Nat.sub_sub]

/-- **Inserting a page** that is not in the books puts it behind the others. -/
theorem insert_eq (h : r.Agrees b) (hnew : e.page ∉ b.pages) (hroom : ¬ b.Refuses e granted) :
    r.insert granted e =
      .ok (⟨.packed (r.entries ++ [e]) (b.nextRoom - (b.pages.length + 1)), b.nextRoom,
          b.pages.length + 1⟩,
        if b.IsFull then some (Books.doubled b.room) else none) := by
  rw [PageRow.insert_eq h.sized, h.find?_eq_none_iff.mpr hnew, h.firstFree?]
  by_cases hfull : b.IsFull
  · -- the slot past those that were noted is the first one that growing adds
    have hgranted : granted = true := by
      cases granted with
      | true => rfl
      | false => exact absurd ⟨hnew, hfull, rfl⟩ hroom
    have hnoted : r.capacity = b.pages.length := h.capacity.trans hfull.symm
    simp only [if_pos hfull, if_pos hgranted]
    rw [hnoted, h.place_packed e (h.grow_eq hfull), h.grow_eq hfull]
    rw [Books.nextRoom, if_pos hfull]
  · have hsame : b.nextRoom = b.room := if_neg hfull
    simp only [if_neg hfull]
    rw [h.place_packed e (hsame ▸ h.packed)]

/-- **A new page is turned away** as the books say, and nothing is done. -/
theorem insert_eq_of_refuses (h : r.Agrees b) (hrefuses : b.Refuses e granted) :
    r.insert granted e = .error (.failed .outOfMemory) := by
  obtain ⟨hnew, hfull, rfl⟩ := hrefuses
  rw [PageRow.insert_eq h.sized, h.find?_eq_none_iff.mpr hnew, h.firstFree?]
  simp [hfull]

/-- **A page is inserted a second time** by nobody who goes on. -/
theorem insert_eq_of_mem (h : r.Agrees b) (hold : e.page ∈ b.pages) :
    r.insert granted e = .error (.halted (.alreadyMapped e.page)) := by
  rw [PageRow.insert_eq h.sized]
  cases hfind : r.find? e.page with
  | none => exact absurd hold (h.find?_eq_none_iff.mp hfind)
  | some d => rfl

theorem add (h : r.Agrees b) (hnew : e.page ∉ b.pages) {grown : Option Nat}
    (hinsert : r.insert granted e = .ok (r', grown)) : r'.Agrees (b.add e) := by
  have hroom := h.lt_nextRoom
  have hgranted : ¬ b.Refuses e granted := by
    intro hrefuses
    cases (h.insert_eq_of_refuses hrefuses).symm.trans hinsert
  have hsized : PageTable.insert ⟨r, h.sized⟩ granted e =
      .ok (⟨r', sized_insert h.sized hinsert⟩, grown) := PageTable.insert_eq_ok_iff.mpr hinsert
  have hfind := PageTable.find?_insert hsized
  rw [h.insert_eq hnew hgranted] at hinsert
  cases hinsert
  have hentries : entries ⟨.packed (r.entries ++ [e]) (b.nextRoom - (b.pages.length + 1)),
      b.nextRoom, b.pages.length + 1⟩ = r.entries ++ [e] := Slots.values_packed
  refine ⟨?_, ?_, ?_, ?_, fun p => ?_⟩
  · rw [hentries]
    simp [Books.add]
  · show (b.pages ++ [e.page]).length ≤ _
    rw [List.length_append]
    exact hroom
  · rw [hentries, List.map_append, h.pages]
    rfl
  · exact List.nodup_append_comm.mp (List.nodup_cons.mpr ⟨hnew, h.single⟩)
  · rw [hfind p]
    simp only [Books.add, Function.update_apply, h.recorded p, eq_comm (a := p)]
    split <;> rfl

/-- **Changing the entry of a page**, but not its page, changes what is recorded of it. -/
theorem update (h : r.Agrees b) (hf : ∀ e, (f e).page = e.page)
    {g : Frame × EntryFlags → Frame × EntryFlags}
    (hg : ∀ e, ((f e).frame, (f e).flags) = g (e.frame, e.flags)) :
    (r.update p f).Agrees
      { b with recorded := Function.update b.recorded p ((b.recorded p).map g) } := by
  have hpages : ((r.update p f).entries.map PageEntry.page) = b.pages := by
    rw [entries_update, List.map_map, ← h.pages]
    refine List.map_congr_left fun e _ => ?_
    simp only [Function.comp_apply]
    split
    · exact hf e
    · rfl
  refine ⟨?_, h.fits, hpages, h.single, fun q => ?_⟩
  · rw [entries_update, ← Slots.map_packed, ← h.slots, ← h.inUse, ← h.capacity]
    rfl
  · rw [find?_update r p q f hf]
    simp only [Function.update_apply, h.recorded]
    by_cases hq : p = q
    · subst hq
      cases r.find? p with
      | none => simp
      | some e => simp [hg]
    · simp [hq, Ne.symm hq]

/-- The entry of a page is in one slot, and changing it changes that slot. -/
theorem update_eq_set (h : r.Agrees b) (hp : p ∈ b.pages) (f : PageEntry → PageEntry) :
    ∃ i e, r.slots.cells[i]? = some (some e) ∧ e.page = p ∧
      r.update p f = { r with slots := ⟨r.slots.cells.set i (some (f e))⟩ } := by
  rw [← h.pages] at hp
  obtain ⟨i, hlt, hpage⟩ := List.mem_iff_getElem.mp hp
  have hlt' : i < r.entries.length := by simpa using hlt
  have hcell : r.slots.cells[i]? = some (some r.entries[i]) := by
    rw [h.slots, Slots.getElem?_packed]
    exact List.getElem?_eq_getElem hlt'
  rw [List.getElem_map] at hpage
  refine ⟨i, r.entries[i], hcell, hpage, ?_⟩
  unfold PageRow.update Slots.map
  congr 2
  refine List.ext_getElem? fun j => ?_
  rw [List.getElem?_map, List.getElem?_set]
  split
  · next hij =>
      subst hij
      rw [hcell, if_pos (List.getElem?_eq_some_iff.mp hcell).1]
      simp [hpage]
  · next hij =>
      cases hother : r.slots.cells[j]? with
      | none => rfl
      | some c =>
          cases c with
          | none => rfl
          | some d =>
              -- no other slot has an entry of the page
              have hd : r.entries[j]? = some d := by
                rwa [h.slots, Slots.getElem?_packed] at hother
              have hne : d.page ≠ p := by
                rintro rfl
                obtain ⟨hj, rfl⟩ := List.getElem?_eq_some_iff.mp hd
                have hsingle : (r.entries.map PageEntry.page).Nodup := h.pages ▸ h.single
                refine hij ((List.getElem?_inj (by simpa using hlt') hsingle).mp ?_)
                rw [List.getElem?_map, List.getElem?_map, hd, List.getElem?_eq_getElem hlt']
                exact congrArg some hpage
              simp [hne]

/-- Changing the entry of a page that has none changes nothing. -/
theorem update_of_not_mem (h : r.Agrees b) (hp : p ∉ b.pages) (f : PageEntry → PageEntry) :
    r.update p f = r := by
  have hsame : (r.entries.map fun e => if e.page = p then f e else e) = r.entries := by
    refine (List.map_congr_left fun e he => if_neg ?_).trans (List.map_id _)
    rintro rfl
    exact hp (h.pages ▸ List.mem_map_of_mem he)
  unfold PageRow.update
  rw [h.slots, Slots.map_packed, hsame, ← h.slots]

/-- Setting flags is changing the entry of the page, and answers whether it is in the books. -/
theorem setFlags_eq (h : r.Agrees b) (p : Page) (flags : EntryFlags) :
    r.setFlags p flags = (decide (p ∈ b.pages), r.update p fun e => { e with flags }) := by
  unfold setFlags
  cases hfind : r.find? p with
  | none =>
      have hp := h.find?_eq_none_iff.mp hfind
      rw [h.update_of_not_mem hp, decide_eq_false hp]
  | some d =>
      have hp : p ∈ b.pages := by
        by_contra hp
        rw [h.find?_eq_none_iff.mpr hp] at hfind
        cases hfind
      rw [decide_eq_true hp]

/-- **What an insertion comes to**, one case for each way in which it ends. -/
theorem edit_insert (h : r.Agrees b) (e : PageEntry) (granted : Bool) :
    (e.page ∈ b.pages ∧ r.edit (.insert e granted) = .error (.alreadyMapped e.page)) ∨
      (b.Refuses e granted ∧ r.edit (.insert e granted) = .ok r) ∨
      (e.page ∉ b.pages ∧ ¬ b.Refuses e granted ∧
        ∃ r', r.edit (.insert e granted) = .ok r' ∧ r'.Agrees (b.add e)) := by
  unfold PageRow.edit
  by_cases hold : e.page ∈ b.pages
  · exact Or.inl ⟨hold, by simp only [h.insert_eq_of_mem hold]⟩
  · refine Or.inr ?_
    by_cases hrefuses : b.Refuses e granted
    · exact Or.inl ⟨hrefuses, by simp only [h.insert_eq_of_refuses hrefuses]⟩
    · have hinsert := h.insert_eq hold hrefuses
      exact Or.inr ⟨hold, hrefuses, _, by simp only [hinsert], h.add hold hinsert⟩

/-- **Agreement is kept** by every edit. -/
theorem edit (h : r.Agrees b) {x : Edit} (hx : r.edit x = .ok r') : r'.Agrees (b.enter x) := by
  cases x with
  | insert e granted =>
      rw [Books.enter_insert]
      rcases h.edit_insert e granted with ⟨-, herror⟩ | ⟨hrefuses, hok⟩ | ⟨-, hroom, s, hok, hs⟩
      · cases hx.symm.trans herror
      · cases hx.symm.trans hok
        rwa [if_pos hrefuses]
      · cases hx.symm.trans hok
        rwa [if_neg hroom]
  | setFlags p flags =>
      cases hx
      rw [h.setFlags_eq]
      exact h.update (f := fun e => { e with flags }) (g := fun r => (r.1, flags))
        (fun _ => rfl) fun _ => rfl
  | overwrite a frame flags =>
      cases hx
      exact h.update (f := fun e => { e with frame, flags }) (g := fun _ => (frame, flags))
        (fun _ => rfl) fun _ => rfl
  | lookup a =>
      cases hx
      exact h

end Agrees

theorem agrees_blank (room : Nat) : (blank room).Agrees (Books.of room []) where
  packed := by
    rw [entries_blank]
    rfl
  fits := Nat.zero_le _
  pages := by
    rw [entries_blank]
    rfl
  single := List.nodup_nil
  recorded p := by
    rw [find?_eq_entries_find?, entries_blank]
    rfl

theorem edits_append (r : PageRow) (es : List Edit) (e : Edit) :
    r.edits (es ++ [e]) = r.edits es >>= fun r => r.edit e := by
  unfold edits
  rw [List.foldlM_append]
  simp

/-- **Rows agree with their books**, whatever is done to them. -/
theorem edits_agree {room : Nat} {es : List Edit} {r : PageRow}
    (h : (blank room).edits es = .ok r) : r.Agrees (Books.of room es) := by
  induction es using List.reverseRecOn generalizing r with
  | nil =>
      cases h
      exact agrees_blank room
  | append_singleton es e ih =>
      rw [edits_append] at h
      cases hes : (blank room).edits es with
      | error halt =>
          rw [hes] at h
          cases h
      | ok s =>
          rw [hes] at h
          rw [Books.of_append]
          exact (ih hes).edit h

/-- **Edits go through** exactly as long as no page is inserted that is in the books. -/
theorem edits_ok_iff (room : Nat) (es : List Edit) :
    (∃ r, (blank room).edits es = .ok r) ↔ (Books.of room es).pages.Nodup := by
  induction es using List.reverseRecOn with
  | nil => exact ⟨fun _ => List.nodup_nil, fun _ => ⟨_, rfl⟩⟩
  | append_singleton es x ih =>
      constructor
      · rintro ⟨r, hr⟩
        exact (edits_agree hr).single
      · intro hnodup
        rw [Books.of_append] at hnodup
        have hbefore : (Books.of room es).pages.Nodup := by
          cases x with
          | insert e granted =>
              rw [Books.enter_insert] at hnodup
              split at hnodup
              · exact hnodup
              · exact (List.nodup_append.mp hnodup).1
          | setFlags p flags => exact hnodup
          | overwrite a frame flags => exact hnodup
          | lookup a => exact hnodup
        obtain ⟨r, hr⟩ := ih.mpr hbefore
        rw [edits_append, hr]
        cases x with
        | insert e granted =>
            rcases (edits_agree hr).edit_insert e granted with
              ⟨hold, -⟩ | ⟨-, hok⟩ | ⟨-, -, r', hok, -⟩
            · have hadded : ¬ (Books.of room es).Refuses e granted := fun hrefuses =>
                hrefuses.1 hold
              rw [Books.enter_insert, if_neg hadded] at hnodup
              exact absurd hold (List.nodup_cons.mp (List.nodup_append_comm.mp hnodup)).1
            · exact ⟨r, hok⟩
            · exact ⟨r', hok⟩
        | setFlags p flags => exact ⟨_, rfl⟩
        | overwrite a frame flags => exact ⟨_, rfl⟩
        | lookup a => exact ⟨_, rfl⟩

/-- **Insertions** into a row. -/
structure Insertion (r : PageRow) (e : PageEntry) (r' : PageRow) (grown : Option Nat) : Prop where
  /-- The row grows only if each slot is taken. -/
  growth : grown = if r.size = r.capacity then some (Books.doubled r.capacity) else none
  capacity : r'.capacity = grown.getD r.capacity
  size : r'.size = r.size + 1
  /-- The slot is the first free one, or the first one past those that were noted. -/
  cells : r'.slots.cells = (r.slots.cells ++ List.replicate (r'.capacity - r.capacity) none).set
    (r.slots.firstFree?.getD r.capacity) (some e)
  entries : r'.entries = r.entries ++ [e]
  /-- No entry is lost or moved. -/
  kept : ∀ (i : Nat) (d : PageEntry),
    r.slots.cells[i]? = some (some d) → r'.slots.cells[i]? = some (some d)

/-- **Rows that are the map** written down in books: what is found in them, how the mappings
lie in their slots, and what each edit does. -/
structure IsMapOf (r : PageRow) (b : Books) : Prop where
  lookup : ∀ a, r.lookup a = (b.recorded a.page).map fun m => ⟨a.page, m.1, m.2⟩
  /-- Nothing is recorded of a page that was never inserted, and of no other. -/
  recorded : ∀ p, b.recorded p = none ↔ p ∉ b.pages
  single : (r.entries.map PageEntry.page).Nodup
  /-- The entries stand in the order in which they were inserted. -/
  order : r.entries.map PageEntry.page = b.pages
  /-- Both counters are right. -/
  counted : r.size = r.entries.length
  capacity : r.slots.cells.length = r.capacity ∧ r.capacity = b.room ∧ r.size ≤ r.capacity
  insert_halts : ∀ e granted halt, r.insert granted e = .error (.halted halt) ↔
    e.page ∈ b.pages ∧ halt = .alreadyMapped e.page
  insert_fails : ∀ e granted error, r.insert granted e = .error (.failed error) ↔
    e.page ∉ b.pages ∧ r.size = r.capacity ∧ granted = false ∧ error = .outOfMemory
  insert : ∀ e granted, e.page ∉ b.pages → (r.size = r.capacity → granted = true) →
    ∃ r' grown, r.insert granted e = .ok (r', grown) ∧ r.Insertion e r' grown
  setFlags_absent : ∀ p flags, ((r.setFlags p flags).1 = false ↔ p ∉ b.pages) ∧
    (p ∉ b.pages → (r.setFlags p flags).2 = r)
  /-- Setting flags changes one slot, and there only the flags. -/
  setFlags : ∀ p flags, p ∈ b.pages → ∃ i e, r.slots.cells[i]? = some (some e) ∧ e.page = p ∧
    r.setFlags p flags =
      (true, { r with slots := ⟨r.slots.cells.set i (some { e with flags })⟩ })
  overwrite_absent : ∀ a frame flags, a.page ∉ b.pages →
    r.edit (.overwrite a frame flags) = .ok r
  /-- Overwriting changes one slot. -/
  overwrite : ∀ a frame flags, a.page ∈ b.pages →
    ∃ i e, r.slots.cells[i]? = some (some e) ∧ e.page = a.page ∧
      r.edit (.overwrite a frame flags) =
        .ok { r with slots := ⟨r.slots.cells.set i (some ⟨a.page, frame, flags⟩)⟩ }

namespace Agrees

variable {r r' : PageRow} {b : Books} {e : PageEntry} {granted : Bool}

theorem lookup (h : r.Agrees b) (a : VirtAddr) :
    r.lookup a = (b.recorded a.page).map fun m => ⟨a.page, m.1, m.2⟩ := by
  rw [lookup_eq_find?, h.recorded]
  cases hfind : r.find? a.page with
  | none => rfl
  | some e =>
      obtain ⟨-, hpage⟩ := mem_of_find? hfind
      simp [← hpage]

theorem insert_halts (h : r.Agrees b) (e : PageEntry) (granted : Bool) (halt : Halt) :
    r.insert granted e = .error (.halted halt) ↔
      e.page ∈ b.pages ∧ halt = .alreadyMapped e.page := by
  constructor
  · intro hhalts
    by_cases hold : e.page ∈ b.pages
    · cases (h.insert_eq_of_mem hold).symm.trans hhalts
      exact ⟨hold, rfl⟩
    · by_cases hrefuses : b.Refuses e granted
      · cases (h.insert_eq_of_refuses hrefuses).symm.trans hhalts
      · cases (h.insert_eq hold hrefuses).symm.trans hhalts
  · rintro ⟨hold, rfl⟩
    exact h.insert_eq_of_mem hold

theorem insert_fails (h : r.Agrees b) (e : PageEntry) (granted : Bool) (error : MemoryError) :
    r.insert granted e = .error (.failed error) ↔
      e.page ∉ b.pages ∧ r.size = r.capacity ∧ granted = false ∧ error = .outOfMemory := by
  rw [← h.isFull_iff]
  constructor
  · intro hfails
    by_cases hold : e.page ∈ b.pages
    · cases (h.insert_eq_of_mem hold).symm.trans hfails
    · by_cases hrefuses : b.Refuses e granted
      · cases (h.insert_eq_of_refuses hrefuses).symm.trans hfails
        exact ⟨hold, hrefuses.2.1, hrefuses.2.2, rfl⟩
      · cases (h.insert_eq hold hrefuses).symm.trans hfails
  · rintro ⟨hnew, hfull, hrefused, rfl⟩
    exact h.insert_eq_of_refuses ⟨hnew, hfull, hrefused⟩

/-- The slots after an insertion, as they are written when the slot was chosen before. -/
theorem insert_cells (h : r.Agrees b) (hnew : e.page ∉ b.pages) {grown : Option Nat}
    (hinsert : r.insert granted e = .ok (r', grown)) :
    r'.slots.cells = (r.slots.cells ++ List.replicate (r'.capacity - r.capacity) none).set
      (r.slots.firstFree?.getD r.capacity) (some e) := by
  have hagrees := h.add hnew hinsert
  have hfits := h.fits
  have hroom := h.lt_nextRoom
  have hslot : r.slots.firstFree?.getD r.capacity = r.entries.length := by
    rw [h.firstFree?, h.length_entries, h.capacity]
    by_cases hfull : b.IsFull
    · rw [if_pos hfull, Option.getD_none]
      exact hfull.symm
    · rw [if_neg hfull, Option.getD_some]
  have hcells : r.slots.extend (r'.capacity - r.capacity) =
      .packed r.entries (b.nextRoom - (b.pages.length + 1) + 1) := by
    rw [h.slots, Slots.extend_packed, hagrees.capacity, h.capacity]
    have hgrows : b.room ≤ b.nextRoom := by
      have hgrown := Books.lt_doubled b.room
      unfold Books.nextRoom
      split <;> omega
    congr 1
    show b.room - b.pages.length + (b.nextRoom - b.room) = _
    omega
  have hplaced : r'.slots = .packed (r.entries ++ [e]) (b.nextRoom - (b.pages.length + 1)) := by
    have hgranted : ¬ b.Refuses e granted := by
      intro hrefuses
      cases (h.insert_eq_of_refuses hrefuses).symm.trans hinsert
    cases (h.insert_eq hnew hgranted).symm.trans hinsert
    rfl
  rw [hslot, hplaced]
  calc (Slots.packed (r.entries ++ [e]) _).cells
      = ((Slots.packed r.entries _).place r.entries.length e).cells := by rw [Slots.place_packed]
    _ = (r.slots.extend _).cells.set r.entries.length (some e) := by
      rw [hcells]
      rfl

/-- **Each insertion of a new page** for which there is room goes through. -/
theorem insertion (h : r.Agrees b) (hnew : e.page ∉ b.pages)
    (hroom : r.size = r.capacity → granted = true) :
    ∃ r' grown, r.insert granted e = .ok (r', grown) ∧ r.Insertion e r' grown := by
  have hgranted : ¬ b.Refuses e granted := by
    rintro ⟨-, hfull, hrefused⟩
    rw [hroom (h.isFull_iff.mp hfull)] at hrefused
    cases hrefused
  have hinsert := h.insert_eq hnew hgranted
  have hagrees := h.add hnew hinsert
  refine ⟨_, _, hinsert, ?_, ?_, ?_, h.insert_cells hnew hinsert, Slots.values_packed, ?_⟩
  · exact if_congr h.isFull_iff (by rw [h.capacity]) rfl
  · rw [h.capacity]
    show b.nextRoom = _
    unfold Books.nextRoom
    split <;> rfl
  · show b.pages.length + 1 = r.inUse + 1
    rw [h.inUse]
  · intro i d hd
    rw [h.slots, Slots.getElem?_packed] at hd
    refine Slots.getElem?_packed.mpr ?_
    rw [List.getElem?_append_left (List.getElem?_eq_some_iff.mp hd).1, hd]

/-- **A row is the map** that its books describe. -/
theorem isMapOf (h : r.Agrees b) : r.IsMapOf b where
  lookup := h.lookup
  recorded p := by
    rw [h.recorded, Option.map_eq_none_iff, h.find?_eq_none_iff]
  single := h.pages ▸ h.single
  order := h.pages
  counted := h.inUse.trans h.length_entries.symm
  capacity := by
    refine ⟨h.sized, h.capacity, ?_⟩
    rw [h.capacity, size, h.inUse]
    exact h.fits
  insert_halts := h.insert_halts
  insert_fails := h.insert_fails
  insert _ _ hnew hroom := h.insertion hnew hroom
  setFlags_absent p flags := by
    rw [h.setFlags_eq]
    exact ⟨decide_eq_false_iff_not, fun hp => h.update_of_not_mem hp _⟩
  setFlags p flags hp := by
    obtain ⟨i, e, hcell, hpage, hset⟩ := h.update_eq_set hp fun e => { e with flags }
    exact ⟨i, e, hcell, hpage, by rw [h.setFlags_eq, decide_eq_true hp, hset]⟩
  overwrite_absent a frame flags hp := congrArg Except.ok (h.update_of_not_mem hp _)
  overwrite a frame flags hp := by
    obtain ⟨i, e, hcell, hpage, hset⟩ := h.update_eq_set hp fun e => { e with frame, flags }
    refine ⟨i, e, hcell, hpage, congrArg Except.ok ?_⟩
    rw [hset, hpage]

end Agrees

/-- **Rows are finite maps.**  A row that began with any number of slots, none included, withstands
a list of edits exactly if no page is inserted twice in it, whatever room is granted on the way,
and is then the map that its books describe.  In particular the slots are as many as are noted, the
next insertion stops the kernel exactly if the page is in the books, and it fails exactly if the
page is new, each slot is taken and no room is granted. -/
theorem edits_isMapOf (room : Nat) (es : List Edit) :
    ((∃ r, (blank room).edits es = .ok r) ↔ (Books.of room es).pages.Nodup) ∧
      ∀ r, (blank room).edits es = .ok r → r.IsMapOf (Books.of room es) :=
  ⟨edits_ok_iff room es, fun _ hr => (edits_agree hr).isMapOf⟩

/-- Three pages in a row that began with one slot, with changes between the insertions.  One of them
is refused the room at first. -/
def Edit.threePages : List Edit :=
  [.insert ⟨⟨7, by decide⟩, ⟨20, by decide⟩, .loading⟩ false,
    .insert ⟨⟨2, by decide⟩, ⟨24, by decide⟩, .loading⟩ false,
    .insert ⟨⟨2, by decide⟩, ⟨21, by decide⟩, .loading⟩ true,
    .setFlags ⟨7, by decide⟩ .segment,
    .overwrite ⟨0x2fff, by decide⟩ ⟨30, by decide⟩ .present,
    .insert ⟨⟨5, by decide⟩, ⟨22, by decide⟩, .loading⟩ true,
    .lookup ⟨0x7000, by decide⟩]

/-- The row has doubled twice, the first page is still in the first slot, with its flags changed,
and the second one has the frame that was written over the first. -/
theorem edits_isMapOf_three_pages : ∃ r : PageRow,
    (blank 1).edits Edit.threePages = .ok r ∧ r.IsMapOf (Books.of 1 Edit.threePages) ∧
      r.slots.cells = [some ⟨⟨7, by decide⟩, ⟨20, by decide⟩, .segment⟩,
        some ⟨⟨2, by decide⟩, ⟨30, by decide⟩, .present⟩,
        some ⟨⟨5, by decide⟩, ⟨22, by decide⟩, .loading⟩, none] :=
  ⟨_, rfl, (edits_isMapOf 1 Edit.threePages).2 _ rfl, rfl⟩

end PageRow

end DemandPaging
