import DemandPaging.Proofs.Growth
import Mathlib.Logic.Function.Iterate

/-!
# Mapping page after page

Preparing a space for load and copying one map many pages, one after another.  Each page takes a
frame, and some take room from the heap, for a table that has to grow.  Either all of them are
mapped in the end, or frames or room have run out and one of the pages is still missing.  `Fills`
says this for a list of pages, together with what is not done: no page outside the list is mapped.

**Putting lists together.**  An operation that fills one list followed by one that fills
another fills both (`Fills.append`).  That is the only argument about the loops; which pages
the lists have is a matter of the definitions.
-/

namespace DemandPaging

/-! ### Room in the page table -/

/-- Growing makes a table larger. -/
theorem PageRow.le_iterate_grownCapacity (n capacity : Nat) :
    capacity ≤ grownCapacity^[n] capacity := by
  induction n with
  | zero => exact Nat.le_refl _
  | succ n ih =>
      rw [Function.iterate_succ_apply']
      exact Nat.le_trans ih (Nat.le_of_lt (lt_grownCapacity _))

namespace PageTable

variable {t t' : PageTable} {p : Page} {e : PageEntry} {grown : Option Nat}

/-- For a new page room is wanted exactly if the table is full. -/
theorem wanted_eq (h : t.find? p = none) :
    t.wanted p =
      if t.entries.length = t.capacity then PageRow.grownCapacity t.capacity else 0 := by
  unfold PageRow.wanted
  rw [h]
  cases hfree : t.slots.firstFree? with
  | none =>
      have hfull : t.entries.length = t.slots.size := Slots.length_values_of_full hfree
      rw [if_pos (hfull.trans t.sized)]
  | some i =>
      have hlt : t.entries.length < t.slots.size := Slots.length_values_lt hfree
      rw [t.sized] at hlt
      rw [if_neg (Nat.ne_of_lt hlt)]

/-- Room is wanted only by a full table. -/
theorem full_of_wanted (h : t.wanted p ≠ 0) : t.entries.length = t.capacity := by
  unfold PageRow.wanted at h
  split at h
  · next hfree => exact (Slots.length_values_of_full hfree).trans t.sized
  · exact absurd rfl h

/-- A table grows for a mapping exactly if room is wanted for it. -/
theorem capacity_insert_eq (h : t.insert true e = .ok (t', grown)) :
    t'.capacity = if t.wanted e.page = 0 then t.capacity else PageRow.grownCapacity t.capacity := by
  unfold PageRow.wanted
  obtain ⟨hnone, ⟨i, hfree, hplace, -⟩ | ⟨hfree, -, hplace, -⟩⟩ :=
    PageRow.insert_cases t.sized (insert_eq_ok_iff.mp h)
  · simp only [hnone, hfree, if_true]
    rw [hplace]
    rfl
  · simp only [hnone, hfree, if_neg (PageRow.grownCapacity_ne_zero _)]
    rw [hplace]
    rfl

/-- So it is exactly the full tables that grow. -/
theorem capacity_insert_full (h : t.insert true e = .ok (t', grown)) :
    t'.capacity =
      if t.entries.length = t.capacity then PageRow.grownCapacity t.capacity else t.capacity := by
  rw [capacity_insert_eq h, wanted_eq (find?_eq_none_of_insert h)]
  by_cases hfull : t.entries.length = t.capacity
  · rw [if_pos hfull, if_pos hfull, if_neg (PageRow.grownCapacity_ne_zero _)]
  · rw [if_neg hfull, if_neg hfull, if_pos rfl]

/-- What is recorded needed no room, or had it granted. -/
theorem room_of_insert {granted : Bool} (h : t.insert granted e = .ok (t', grown)) :
    t.wanted e.page = 0 ∨ granted = true := by
  by_contra hneither
  obtain ⟨hwanted, hgranted⟩ := not_or.mp hneither
  have herror : t.insert granted e = .error (.failed .outOfMemory) :=
    insert_eq_error_iff.mpr (Or.inr ⟨hwanted, Bool.eq_false_iff.mpr hgranted, rfl⟩)
  rw [h] at herror
  cases herror

end PageTable

namespace Workspace

variable {w w₁ w₂ : Workspace} {m n : Nat}

/-- **Widening**: the table has grown `n` times, and each time the heap has granted the room. -/
structure Widens (n : Nat) (w w' : Workspace) : Prop where
  capacity : w'.space.table.capacity = PageRow.grownCapacity^[n] w.space.table.capacity
  heap : w'.kernel.heap = w.kernel.heap.drop n
  granted : ∀ i < n, w.kernel.heap[i]? ≠ some false

/-- **Cramped**: the table has grown `n` times and is full, and the heap refuses to let it grow once
more. -/
structure Cramped (n : Nat) (w w' : Workspace) : Prop where
  capacity : w'.space.table.capacity = PageRow.grownCapacity^[n] w.space.table.capacity
  refused : w.kernel.heap[n]? = some false
  full : w'.space.table.entries.length = w'.space.table.capacity

theorem Widens.of_eq (hcapacity : w₁.space.table.capacity = w.space.table.capacity)
    (hheap : w₁.kernel.heap = w.kernel.heap) : w.Widens 0 w₁ :=
  ⟨hcapacity, hheap, fun _ hi => absurd hi (Nat.not_lt_zero _)⟩

/-- Growing on, `n` times after `m` times. -/
theorem Widens.trans (h : Widens m w w₁) (h' : Widens n w₁ w₂) : Widens (n + m) w w₂ where
  capacity := by rw [h'.capacity, h.capacity, Function.iterate_add_apply]
  heap := by rw [h'.heap, h.heap, List.drop_drop, Nat.add_comm]
  granted i hi := by
    by_cases hm : i < m
    · exact h.granted i hm
    · have hlater := h'.granted (i - m) (by omega)
      rwa [h.heap, List.getElem?_drop, Nat.add_sub_cancel' (Nat.le_of_not_lt hm)] at hlater

theorem Cramped.after (h' : Cramped n w₁ w₂) (h : Widens m w w₁) : Cramped (n + m) w w₂ where
  capacity := by rw [h'.capacity, h.capacity, Function.iterate_add_apply]
  refused := by
    have hrefused := h'.refused
    rwa [h.heap, List.getElem?_drop, Nat.add_comm] at hrefused
  full := h'.full

/-- A generous heap leaves no table cramped. -/
theorem Cramped.not_generous (h : Cramped n w w₁) : ¬ w.kernel.IsGenerous := fun hgenerous =>
  Bool.false_ne_true (hgenerous false (List.mem_of_getElem? h.refused))

theorem HasRoom.of_generous (h : w.kernel.IsGenerous) (p : Page) : w.HasRoom p := h.grants _

variable {p : Page} {flags : EntryFlags} {f : Frame} {a : Allocator} {t : PageTable}
  {grown : Option Nat}

/-- One page more. -/
theorem widens_install (room : w.HasRoom p)
    (inserted : w.space.table.insert true ⟨p, f, flags⟩ = .ok (t, grown)) :
    ∃ n, w.Widens n (w.install p a f t) := by
  have hcapacity := PageTable.capacity_insert_eq inserted
  have hheap : (w.install p a f t).kernel.heap =
      if w.space.table.wanted p = 0 then w.kernel.heap else w.kernel.heap.tail := rfl
  by_cases hwanted : w.space.table.wanted p = 0
  · rw [if_pos hwanted] at hcapacity hheap
    exact ⟨0, .of_eq hcapacity hheap⟩
  · rw [if_neg hwanted] at hcapacity hheap
    refine ⟨1, hcapacity, hheap.trans List.drop_one.symm, fun i hi => ?_⟩
    obtain rfl : i = 0 := by omega
    rintro hrefused
    unfold HasRoom Kernel.grants at room
    rw [beq_eq_false_iff_ne.mpr hwanted, Bool.false_or, List.headD_eq_head?_getD,
      List.head?_eq_getElem?, hrefused] at room
    cases room

/-- One page less than was asked for. -/
theorem cramped_turnBack (cramped : ¬ w.HasRoom p) : w.Cramped 0 (w.turnBack p a f) := by
  have hrefused := Kernel.heap_eq_of_refused (Bool.eq_false_iff.mpr cramped)
  have hwanted : w.space.table.wanted p ≠ 0 := by
    intro hzero
    unfold HasRoom at cramped
    rw [hzero] at cramped
    exact cramped rfl
  refine ⟨rfl, ?_, PageTable.full_of_wanted hwanted⟩
  rw [hrefused]
  rfl

end Workspace

/-! ### Lists of pages -/

/-- **Shortage**: why a page could not be mapped.  No frame is left, or the page table is cramped.
A frame that would have to go back while booting stops the kernel. -/
inductive Shortage (w w' : Workspace) : Abort → Prop where
  | frames (exhausted : w'.IsExhausted) : Shortage w w' (.failed .outOfMemory)
  | room {n : Nat} (cramped : w.Cramped n w') : Shortage w w' (.failed .outOfMemory)
  | stranded {n : Nat} (cramped : w.Cramped n w')
      (booting : w'.kernel.allocator.isInitialized = false) :
      Shortage w w' (.halted .freedWhileBooting)

/-- **Filled**: the pages of the list have been mapped, and no others. -/
structure Filled (ps : List Page) (w w' : Workspace) : Prop where
  regions : w'.space.regions = w.space.regions
  maps_iff : ∀ p, w'.Maps p ↔ w.Maps p ∨ p ∈ ps
  widens : ∃ n, w.Widens n w'

/-- **Starved**: frames or room have run out, and a page of the list has no mapping. -/
structure Starved (ps : List Page) (w : Workspace) (e : Abort) (w' : Workspace) : Prop where
  shortage : Shortage w w' e
  maps : ∀ p, w'.Maps p → w.Maps p ∨ p ∈ ps
  missing : ∃ p ∈ ps, ¬ w'.Maps p

/-- **Fills.**  The operation maps the pages of the list, or frames or room run out on the way. -/
def Fills {α : Type} (x : SpaceM α) (w : Workspace) (ps : List Page) : Prop :=
  Walks x w (fun _ w' => Filled ps w w') (Starved ps w)

variable {α β : Type} {w w₁ w₂ : Workspace} {ps qs : List Page}

namespace Shortage

variable {e : Abort}

/-- Running short after the table has grown. -/
theorem after {n : Nat} (h' : Shortage w₁ w₂ e) (h : w.Widens n w₁) : Shortage w w₂ e := by
  cases h' with
  | frames exhausted => exact .frames exhausted
  | room cramped => exact .room (cramped.after h)
  | stranded cramped booting => exact .stranded (cramped.after h) booting

/-- Where the heap is generous, it is frames that have run out. -/
theorem of_generous (h : Shortage w w₁ e) (generous : w.kernel.IsGenerous) :
    e = .failed .outOfMemory ∧ w₁.IsExhausted := by
  cases h with
  | frames exhausted => exact ⟨rfl, exhausted⟩
  | room cramped => exact absurd generous cramped.not_generous
  | stranded cramped _ => exact absurd generous cramped.not_generous

/-- Over a frame map a shortage is a failure. -/
theorem of_built (h : Shortage w w₁ e) (built : w₁.kernel.allocator.isInitialized = true) :
    e = .failed .outOfMemory := by
  cases h with
  | frames _ => rfl
  | room _ => rfl
  | stranded _ booting => exact absurd (built.symm.trans booting) (by decide)

end Shortage

theorem Filled.refl (w : Workspace) : Filled [] w w :=
  ⟨rfl, fun p => by simp, 0, .of_eq rfl rfl⟩

theorem Filled.append (h : Filled ps w w₁) (h' : Filled qs w₁ w₂) : Filled (ps ++ qs) w w₂ where
  regions := h'.regions.trans h.regions
  maps_iff p := by rw [h'.maps_iff, h.maps_iff, List.mem_append, or_assoc]
  widens := by
    obtain ⟨m, hm⟩ := h.widens
    obtain ⟨n, hn⟩ := h'.widens
    exact ⟨n + m, hm.trans hn⟩

/-- Running short for the second of two lists. -/
theorem Starved.after {e : Abort} (h' : Starved qs w₁ e w₂) (h : Filled ps w w₁) :
    Starved (ps ++ qs) w e w₂ where
  shortage := by
    obtain ⟨n, hn⟩ := h.widens
    exact h'.shortage.after hn
  maps p hp := by
    rw [List.mem_append, ← or_assoc, ← h.maps_iff]
    exact h'.maps p hp
  missing := by
    obtain ⟨p, hp, hmissing⟩ := h'.missing
    exact ⟨p, List.mem_append_right _ hp, hmissing⟩

/-- Running short for the first of two lists. -/
theorem Starved.before {e : Abort} (h : Starved ps w e w₁) (qs : List Page) :
    Starved (ps ++ qs) w e w₁ where
  shortage := h.shortage
  maps p hp := by
    rw [List.mem_append, ← or_assoc]
    exact Or.inl (h.maps p hp)
  missing := by
    obtain ⟨p, hp, hmissing⟩ := h.missing
    exact ⟨p, List.mem_append_left _ hp, hmissing⟩

/-- The table is the same, and so are the regions and what the heap has to say. -/
theorem Filled.of_eq (hregions : w₁.space.regions = w.space.regions)
    (htable : w₁.space.table = w.space.table) (hheap : w₁.kernel.heap = w.kernel.heap) :
    Filled [] w w₁ :=
  ⟨hregions, fun p => by simp [Workspace.Maps, htable], 0, .of_eq (by rw [htable]) hheap⟩

namespace Fills

/-- Filling one list, then another. -/
theorem append {x : SpaceM α} {f : α → SpaceM β} (h : Fills x w ps)
    (hf : ∀ a w₁, w.Path w₁ → Filled ps w w₁ → Fills (f a) w₁ qs) :
    Fills (x >>= f) w (ps ++ qs) := by
  refine Walks.bind (h.mono (fun _ _ _ h₁ => h₁) fun _ _ _ hstarved => hstarved.before qs)
    fun a w₁ hpath h₁ => ?_
  exact (hf a w₁ hpath h₁).mono (fun _ _ _ h₂ => h₁.append h₂) fun _ _ _ hstarved =>
    hstarved.after h₁

/-- What maps nothing may come before. -/
theorem after {x : SpaceM α} {f : α → SpaceM β} (h : Fills x w [])
    (hf : ∀ a w₁, w.Path w₁ → Filled [] w w₁ → Fills (f a) w₁ ps) : Fills (x >>= f) w ps :=
  h.append hf

theorem pure (a : α) : Fills (Pure.pure a) w [] := Walks.pure (Filled.refl w)

end Fills

/-- The workspace after it was reported that the table has grown, if it has. -/
def Workspace.reportGrowth (w : Workspace) : Option Nat → Workspace
  | none => w
  | some n => w.report (.tableGrown n)

namespace AddressSpace

open SpaceM

/-- **Recording a mapping** of a page that has none takes room in the table, or fails for want of
it. -/
theorem ends_addEntry {e : PageEntry} (unmapped : w.space.table.find? e.page = none) :
    Ends (addEntry e) w
      (fun _ w' => ∃ t grown, w.HasRoom e.page ∧
        w.space.table.insert true e = .ok (t, grown) ∧
        w' = ((w.withKernel (w.kernel.asked (w.space.table.wanted e.page))).withTable
          t).reportGrowth grown)
      (fun abort w' => abort = .failed .outOfMemory ∧ ¬ w.HasRoom e.page ∧
        w' = w.withKernel (w.kernel.asked (w.space.table.wanted e.page))) := by
  unfold addEntry
  simp only [liftM_eq, ends_bind, ends_space, ends_onKernel, Kernel.ends_ask, Kernel.ends_orAbort]
  cases hinsert : w.space.table.insert (w.kernel.grants (w.space.table.wanted e.page)) e with
  | error abort =>
      rcases PageTable.insert_eq_error_iff.mp hinsert with ⟨hmapped, -⟩ | ⟨-, hrefused, rfl⟩
      · rw [unmapped] at hmapped
        cases hmapped
      · exact ⟨rfl, Bool.eq_false_iff.mp hrefused, rfl⟩
  | ok inserted =>
      obtain ⟨t, grown⟩ := inserted
      have hroom : w.HasRoom e.page := (PageTable.room_of_insert hinsert).elim
        (fun hzero => by rw [Workspace.HasRoom, hzero]; rfl) fun hgranted => hgranted
      have htrue := PageTable.insert_true_of_insert hinsert
      simp only [ends_modifySpace]
      cases grown with
      | none => exact ⟨t, none, hroom, htrue, rfl⟩
      | some n => exact ⟨t, some n, hroom, htrue, rfl⟩

/-- **How mapping a page fails**: no frame is left, or there is no room for the mapping and the
frame goes back, which stops the kernel while it is booting. -/
inductive MapFails (p : Page) (w : Workspace) : Abort → Workspace → Prop where
  | exhausted (h : w.IsExhausted) : MapFails p w (.failed .outOfMemory) w
  | cramped {f : Frame} {a a' : Allocator} (h : ¬ w.HasRoom p)
      (taken : w.kernel.allocator.allocate 1 = .ok (some f, a)) (back : a.free f = .ok a') :
      MapFails p w (.failed .outOfMemory) (w.turnBack p a' f)
  | stranded {f : Frame} {a : Allocator} (h : ¬ w.HasRoom p)
      (taken : w.kernel.allocator.allocate 1 = .ok (some f, a))
      (back : a.free f = .error .freedWhileBooting) :
      MapFails p w (.halted .freedWhileBooting) (w.turnBack p a f)

/-- **Mapping a page**, exactly: a frame is taken and the heap has room, or it fails. -/
theorem ends_mapZeroed {p : Page} (flags : EntryFlags) (hp : w.space.table.find? p = none) :
    Ends (mapZeroed p flags) w
      (fun f w' => ∃ a t grown, w.HasRoom p ∧ w.kernel.allocator.allocate 1 = .ok (some f, a) ∧
        w.space.table.insert true ⟨p, f, flags⟩ = .ok (t, grown) ∧
        w' = (w.install p a f t).reportGrowth grown)
      (MapFails p w) := by
  obtain ⟨found, a, htaken⟩ := w.kernel.allocator.allocate_one
  unfold mapZeroed Kernel.allocate Kernel.zeroFrame
  simp only [liftM_eq, ends_bind, ends_onKernel, Kernel.ends_orHalt, ends_get, ends_modify,
    ends_pure, htaken]
  cases found with
  | none =>
      -- a refused allocation leaves the kernel as it was
      obtain rfl := Allocator.allocate_eq_none htaken
      exact .exhausted ⟨_, htaken⟩
  | some f =>
      simp only [ends_bind, ends_onKernel, ends_modify, ends_cleaningUp, ends_pure]
      refine Ends.mono (ends_addEntry (e := ⟨p, f, flags⟩) hp) ?_ ?_
      · rintro _ w' ⟨t, grown, hroom, hinsert, rfl⟩
        exact ⟨a, t, grown, hroom, rfl, hinsert, rfl⟩
      · rintro e w' ⟨rfl, hcramped, rfl⟩
        unfold Kernel.free
        simp only [ends_bind, ends_get, Kernel.ends_orHalt, ends_modify]
        rcases Allocator.free_taken_cases htaken with ⟨a', hback⟩ | hback
        · simp only [Workspace.withKernel, Kernel.asked, hback]
          exact .cramped hcramped htaken hback
        · simp only [Workspace.withKernel, Kernel.asked, hback]
          exact .stranded hcramped htaken hback

/-- Mapping a page that has no mapping. -/
theorem walks_mapZeroed {p : Page} {flags : EntryFlags} (hp : ¬ w.Maps p) :
    Walks (mapZeroed p flags) w
      (fun f w' => Filled [p] w w' ∧
        (∀ q, w'.space.table.find? q =
          if p = q then some ⟨p, f, flags⟩ else w.space.table.find? q) ∧
        w'.space.loaded = w.space.loaded ∧ w'.kernel.memory = w.kernel.memory.zero f)
      (Starved [p] w) := by
  have hnone : w.space.table.find? p = none := by simpa [Workspace.Maps] using hp
  refine Ends.mono (ends_mapZeroed flags hnone) ?_ ?_
  · rintro f w' ⟨a, t, grown, room, taken, inserted, rfl⟩
    have hmove := (Workspace.Move.mapped p flags f a t grown room taken inserted).path
    have hfilled : Filled [p] w (w.install p a f t) := by
      refine ⟨rfl, fun q => ?_, Workspace.widens_install room inserted⟩
      show (t.find? q).isSome = true ↔ _
      rw [PageTable.find?_insert inserted]
      by_cases hq : p = q
      · simp [hq]
      · simp [hq, Workspace.Maps, Ne.symm hq]
    have hfind := PageTable.find?_insert inserted
    -- a table that was enlarged is reported
    cases grown with
    | none => exact ⟨hmove, hfilled, hfind, rfl, rfl⟩
    | some n =>
        have hreport := Workspace.Move.reported (w := w.install p a f t) (.tableGrown n) rfl
        exact ⟨hmove.trans hreport.path, hfilled.append (.of_eq rfl rfl rfl), hfind, rfl, rfl⟩
  · intro e w' hfails
    cases hfails with
    | exhausted h =>
        exact ⟨.refl w, fun hbreak => hbreak, .frames h, fun q hq => Or.inl hq, p,
          List.mem_singleton_self p, hp⟩
    | @cramped f a a' h taken back =>
        have hmove := (Workspace.Move.refused p f a a' h taken (Or.inl back)).path
        exact ⟨hmove, fun hbreak => hbreak, .room (Workspace.cramped_turnBack h),
          fun q hq => Or.inl hq, p, List.mem_singleton_self p, hp⟩
    | @stranded f a h taken back =>
        have hmove := (Workspace.Move.refused p f a a h taken (Or.inr ⟨back, rfl⟩)).path
        exact ⟨hmove, fun hbreak => hbreak,
          .stranded (Workspace.cramped_turnBack h) (Allocator.booting_of_free_eq_error back),
          fun q hq => Or.inl hq, p, List.mem_singleton_self p, hp⟩

theorem fills_ensureMapped (p : Page) (flags : EntryFlags) :
    Fills (ensureMapped p flags) w [p] := by
  unfold ensureMapped
  refine Walks.bindSpace ?_
  cases hfind : w.space.table.find? p with
  | some e =>
      refine Walks.pure ⟨rfl, fun q => ⟨Or.inl, ?_⟩, 0, .of_eq rfl rfl⟩
      rintro (hq | hq)
      · exact hq
      · obtain rfl := List.mem_singleton.mp hq
        simp [Workspace.Maps, hfind]
  | none =>
      have hp : ¬ w.Maps p := by simp [Workspace.Maps, hfind]
      exact Walks.bind ((walks_mapZeroed hp).mono (fun _ _ _ h => h.1) (fun _ _ _ h => h))
        fun _ _ _ h => Walks.pure h

theorem fills_backPagesFrom (r : Region) :
    ∀ (i n : Nat) (h : i + n ≤ r.pageCount) {w : Workspace},
      Fills (backPagesFrom r i n h) w (r.pagesFrom i n h)
  | _, 0, _, _ => Fills.pure ()
  | i, n + 1, h, _ =>
      Fills.append (fills_ensureMapped (r.page i (by omega)) .loading) fun _ _ _ _ =>
        fills_backPagesFrom r (i + 1) n (by omega)

theorem fills_backRegions :
    ∀ (rs : List Region) {w : Workspace}, Fills (backRegions rs) w (rs.flatMap Region.pages)
  | [], _ => Fills.pure ()
  | r :: rest, _ =>
      Fills.append (fills_backPagesFrom r 0 r.pageCount (by omega)) fun _ _ _ _ =>
        fills_backRegions rest

/-- Changing the bounds, or beginning to load, maps nothing. -/
theorem fills_settle {f : AddressSpace → AddressSpace} (bounds : Bounds) (loaded : Bool)
    (hf : f w.space = { w.space with bounds, loaded })
    (hkept : w.space.loaded = true → loaded = true) : Fills (modifySpace f) w [] := by
  refine Walks.modifySpace ?_ ?_
  · rw [hf]
    exact (Workspace.Move.settled bounds loaded hkept).path
  · rw [hf]
    exact .of_eq rfl rfl rfl

/-- **Preparing for load** maps the pages of the load, and then the space is prepared; or one
of these pages has no mapping, and frames or room have run out. -/
theorem walks_prepareLoad :
    Walks prepareLoad w
      (fun _ w' => Filled (loadPages w.space.regions) w w' ∧ w'.space.IsPrepared)
      (Starved (loadPages w.space.regions) w) := by
  unfold prepareLoad
  refine Walks.bind (Q := fun _ w₁ => Filled [] w w₁ ∧ w₁.space.loaded = true)
    (Walks.modifySpace (Workspace.Move.settled _ true fun _ => rfl).path
      ⟨.of_eq rfl rfl rfl, rfl⟩) ?_
  rintro _ w₁ - ⟨h₁, hloaded⟩
  -- regions cannot change any more, so the pages of the load are the same to the end
  have hprepared : ∀ {w'}, w₁.Path w' → Filled (loadPages w.space.regions) w₁ w' →
      w'.space.IsPrepared := by
    intro w' hpath h
    refine ⟨hpath.grows.loaded hloaded, fun p hp => (h.maps_iff p).mpr (Or.inr ?_)⟩
    rwa [h.regions, h₁.regions] at hp
  refine Walks.mono (Q := fun _ w' => Filled (loadPages w.space.regions) w₁ w')
    (R := Starved (loadPages w.space.regions) w₁) (Walks.bindSpace ?_)
    (fun _ w' hpath h => ⟨h₁.append h, hprepared hpath h⟩)
    (fun e w' _ h => h.after h₁)
  rw [h₁.regions]
  refine Fills.append (fills_backRegions _) fun _ w₂ hpath₂ h₂ => ?_
  refine Fills.append (fills_ensureMapped initialStackPage .segment) fun _ w₃ hpath₃ h₃ => ?_
  refine Fills.after (fills_settle _ _ rfl fun hl => hl) fun _ w₄ hpath₄ h₄ => Walks.bindSpace ?_
  have hregions : w₄.space.regions = w.space.regions :=
    (h₄.regions.trans (h₃.regions.trans h₂.regions)).trans h₁.regions
  rw [hregions]
  refine Fills.append (fills_ensureMapped _ _) fun _ w₅ hpath₅ h₅ => ?_
  refine Fills.after (fills_settle _ _ rfl fun hl => hl) fun _ w₆ hpath₆ h₆ => Walks.bindSpace ?_
  have hpath : w₁.Path w₆ :=
    hpath₂.trans (hpath₃.trans (hpath₄.trans (hpath₅.trans hpath₆)))
  have hfilled := h₂.append (h₃.append (h₄.append (h₅.append h₆)))
  have hdone := hprepared hpath hfilled
  exact ⟨(Workspace.Move.prepared _ hdone).path, .of_eq rfl rfl rfl⟩

/-- A successful preparation is reported. -/
theorem ends_prepareLoad :
    Ends prepareLoad w (fun _ w' => w'.kernel.HasPrepared w'.space.id) fun _ _ => True := by
  unfold prepareLoad
  refine Ends.last fun _ _ => Ends.last fun _ _ => Ends.last fun _ _ => Ends.last fun _ _ => ?_
  refine Ends.last fun _ _ => Ends.last fun _ _ => Ends.last fun _ _ => Ends.last fun _ w₁ => ?_
  -- what is left is the report
  exact ⟨w₁.space.table.size, Array.mem_push_self⟩

end AddressSpace

end DemandPaging
