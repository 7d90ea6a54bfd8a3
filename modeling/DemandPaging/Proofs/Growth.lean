import DemandPaging.Proofs.Moves
import Mathlib.Data.List.Nodup

/-!
# What grows along a path

Moves never take anything away from a space.  Whatever sequence of them has been made, the
space has the number it had, the pages that were mapped are mapped to the same frames, and
once it is loaded it stays loaded and keeps its regions.  And moves stay at home: the bytes of
a frame that the space does not map in the end are what they were, unless the frame is free and
was filled with zeroes for a page that could not be mapped in the end.
-/

namespace DemandPaging

/-- The frames a space maps. -/
def AddressSpace.frames (s : AddressSpace) : List Frame := s.table.entries.map PageEntry.frame

namespace PageTable

/-- Changing flags everywhere is seen at every page. -/
theorem find?_recoloured {t t' : PageTable} {flags : PageEntry → EntryFlags}
    (h : t'.entries = t.entries.map fun e => { e with flags := flags e }) (p : Page) :
    t'.find? p = (t.find? p).map fun e => { e with flags := flags e } := by
  rw [PageRow.find?_eq_entries_find?, PageRow.find?_eq_entries_find?, h, List.find?_map]
  rfl

/-- Different pages have different frames, if no frame is mapped twice. -/
theorem frame_ne {t : PageTable} {p q : Page} {e d : PageEntry}
    (hnodup : (t.entries.map PageEntry.frame).Nodup) (hp : t.find? p = some e)
    (hq : t.find? q = some d) (hne : p ≠ q) : e.frame ≠ d.frame := by
  obtain ⟨hep, rfl⟩ := PageRow.mem_of_find? hp
  obtain ⟨hdq, rfl⟩ := PageRow.mem_of_find? hq
  intro hframe
  exact hne (congrArg PageEntry.page (List.inj_on_of_nodup_map hnodup hep hdq hframe))

/-- A table that has an empty slot is not enlarged for a mapping. -/
theorem capacity_insert {t t' : PageTable} {granted : Bool} {e : PageEntry} {grown : Option Nat}
    (h : t.insert granted e = .ok (t', grown)) (hroom : t'.entries.length ≤ t.capacity) :
    t'.capacity = t.capacity := by
  have hlength := (perm_entries_insert h).length_eq
  obtain ⟨-, ⟨i, -, hplace, -⟩ | ⟨hfree, -⟩⟩ :=
    PageRow.insert_cases t.sized (insert_eq_ok_iff.mp h)
  · rw [hplace]
    rfl
  · -- without an empty slot there is one mapping in every slot, and one more does not fit
    have hfull : t.entries.length = t.slots.size := Slots.length_values_of_full hfree
    rw [t.sized] at hfull
    rw [List.length_cons] at hlength
    omega

end PageTable

namespace Workspace

/-- The frames are the same under other flags. -/
theorem frames_recoloured {w : Workspace} {t : PageTable} {flags : PageEntry → EntryFlags}
    (same : t.entries = w.space.table.entries.map fun e => { e with flags := flags e }) :
    (w.withTable t).space.frames = w.space.frames := by
  show t.entries.map PageEntry.frame = w.space.table.entries.map PageEntry.frame
  rw [same, List.map_map]
  rfl

/-- **Growth** of a space, and of the kernel with it. -/
structure Grows (w w' : Workspace) : Prop where
  id : w'.space.id = w.space.id
  loaded : w.space.loaded = true → w'.space.loaded = true
  regions : w.space.loaded = true → w'.space.regions = w.space.regions
  /-- A mapped page stays mapped to its frame. -/
  find? : ∀ p e, w.space.table.find? p = some e →
    ∃ e', w'.space.table.find? p = some e' ∧ e'.frame = e.frame
  frames : w.space.frames.Sublist w'.space.frames
  /-- A table in which there is room to the end is not enlarged. -/
  capacity : w'.space.table.entries.length ≤ w.space.table.capacity →
    w'.space.table.capacity = w.space.table.capacity
  /-- Answers of the heap are used up, and none is added. -/
  heap : w'.kernel.heap <:+ w.kernel.heap
  kept : ∀ f, w.kernel.allocator.Keeps f → w'.kernel.allocator.Keeps f
  /-- Bytes change only in frames that the space maps, and in free ones if the heap was asked. -/
  untouched : ∀ f, f ∉ w'.space.frames →
    w.kernel.allocator.Keeps f ∨ w'.kernel.heap = w.kernel.heap →
    w'.kernel.memory.contents f = w.kernel.memory.contents f

namespace Grows

variable {w w₁ w₂ : Workspace}

/-- No mapping is lost. -/
theorem length_le (h : w.Grows w₁) :
    w.space.table.entries.length ≤ w₁.space.table.entries.length := by
  simpa [AddressSpace.frames] using h.frames.length_le

theorem refl (w : Workspace) : w.Grows w where
  id := rfl
  loaded h := h
  regions _ := rfl
  find? _ e h := ⟨e, h, rfl⟩
  frames := List.Sublist.refl _
  capacity _ := rfl
  heap := List.suffix_refl _
  kept _ hf := hf
  untouched _ _ _ := rfl

theorem trans (h : w.Grows w₁) (h' : w₁.Grows w₂) : w.Grows w₂ where
  id := h'.id.trans h.id
  loaded hl := h'.loaded (h.loaded hl)
  regions hl := (h'.regions (h.loaded hl)).trans (h.regions hl)
  find? p e hp := by
    obtain ⟨e₁, hp₁, hf₁⟩ := h.find? p e hp
    obtain ⟨e₂, hp₂, hf₂⟩ := h'.find? p e₁ hp₁
    exact ⟨e₂, hp₂, hf₂.trans hf₁⟩
  frames := h.frames.trans h'.frames
  capacity hroom := by
    have h₁ := h.capacity (Nat.le_trans h'.length_le hroom)
    exact (h'.capacity (h₁ ▸ hroom)).trans h₁
  heap := h'.heap.trans h.heap
  kept f hf := h'.kept f (h.kept f hf)
  untouched f hf hcalm := by
    have hcalm₁ : w.kernel.allocator.Keeps f ∨ w₁.kernel.heap = w.kernel.heap := by
      refine hcalm.imp_right fun hsame => h.heap.eq_of_length_le ?_
      rw [← hsame]
      exact h'.heap.length_le
    have hcalm₂ : w₁.kernel.allocator.Keeps f ∨ w₂.kernel.heap = w₁.kernel.heap := by
      refine hcalm.imp (h.kept f) fun hsame => h'.heap.eq_of_length_le ?_
      rw [hsame]
      exact h.heap.length_le
    exact (h'.untouched f hf hcalm₂).trans
      (h.untouched f (fun hold => hf (h'.frames.subset hold)) hcalm₁)

/-- Moves that leave the table alone. -/
theorem of_table_eq (hid : w₁.space.id = w.space.id)
    (hloaded : w.space.loaded = true → w₁.space.loaded = true)
    (hregions : w.space.loaded = true → w₁.space.regions = w.space.regions)
    (htable : w₁.space.table = w.space.table) (hheap : w₁.kernel.heap <:+ w.kernel.heap)
    (hkept : ∀ f, w.kernel.allocator.Keeps f → w₁.kernel.allocator.Keeps f)
    (huntouched : ∀ f, f ∉ w.space.frames →
      w.kernel.allocator.Keeps f ∨ w₁.kernel.heap = w.kernel.heap →
      w₁.kernel.memory.contents f = w.kernel.memory.contents f) : w.Grows w₁ where
  id := hid
  loaded := hloaded
  regions := hregions
  find? p e hp := ⟨e, by rw [htable, hp], rfl⟩
  frames := by
    have hframes : w₁.space.frames = w.space.frames :=
      congrArg (fun t => t.entries.map PageEntry.frame) htable
    exact hframes ▸ List.Sublist.refl _
  capacity _ := by rw [htable]
  heap := hheap
  kept := hkept
  untouched f hf := by
    refine huntouched f ?_
    unfold AddressSpace.frames at hf ⊢
    rwa [htable] at hf

/-- Moves that change neither the table, nor frames, nor bytes. -/
theorem of_kernel_eq (hid : w₁.space.id = w.space.id)
    (hloaded : w.space.loaded = true → w₁.space.loaded = true)
    (hregions : w.space.loaded = true → w₁.space.regions = w.space.regions)
    (htable : w₁.space.table = w.space.table) (hheap : w₁.kernel.heap <:+ w.kernel.heap)
    (hallocator : w₁.kernel.allocator = w.kernel.allocator)
    (hmemory : w₁.kernel.memory = w.kernel.memory) : w.Grows w₁ :=
  .of_table_eq hid hloaded hregions htable hheap (fun _ hf => hallocator ▸ hf)
    fun _ _ _ => by rw [hmemory]

/-- A page more. -/
theorem install {p : Page} {flags : EntryFlags} {f : Frame} {a : Allocator} {t : PageTable}
    {grown : Option Nat} (taken : w.kernel.allocator.allocate 1 = .ok (some f, a))
    (h : w.space.table.insert true ⟨p, f, flags⟩ = .ok (t, grown)) :
    w.Grows (w.install p a f t) := by
  obtain ⟨before, after, hold, hnew⟩ := PageTable.entries_insert h
  have hframes : (w.install p a f t).space.frames =
      before.map PageEntry.frame ++ f :: after.map PageEntry.frame := by
    show t.entries.map PageEntry.frame = _
    rw [hnew, List.map_append, List.map_cons]
  refine ⟨rfl, fun hl => hl, fun _ => rfl, ?_, ?_, PageTable.capacity_insert h,
    w.kernel.heap_asked_suffix _, fun _ hg => (hg.of_taken taken).2, ?_⟩
  · exact fun q e hq => ⟨e, PageTable.find?_insert_of_eq_some h hq, rfl⟩
  · rw [hframes]
    unfold AddressSpace.frames
    rw [hold, List.map_append]
    exact List.Sublist.append (List.Sublist.refl _) (List.sublist_cons_self _ _)
  · intro g hg _
    rw [hframes, List.mem_append, List.mem_cons] at hg
    show (w.kernel.memory.zero f).contents g = _
    rw [Memory.contents_zero, if_neg]
    rintro rfl
    exact hg (Or.inr (Or.inl rfl))

/-- A page less than was asked for.  Only the frame that comes back has other bytes. -/
theorem turnBack {p : Page} {f : Frame} {a a' : Allocator} (cramped : ¬ w.HasRoom p)
    (taken : w.kernel.allocator.allocate 1 = .ok (some f, a)) (back : a.GivesBack f a') :
    w.Grows (w.turnBack p a' f) := by
  refine .of_table_eq rfl (fun hl => hl) (fun _ => rfl) rfl (w.kernel.heap_asked_suffix _)
    (fun g hg => hg.of_givesBack taken back) fun g _ hcalm => ?_
  show (w.kernel.memory.zero f).contents g = _
  rw [Memory.contents_zero, if_neg]
  rintro rfl
  rcases hcalm with hkept | hsame
  · exact (hkept.of_taken taken).1 rfl
  · -- the heap has answered
    have hanswer := congrArg List.length (Kernel.heap_eq_of_refused (Bool.eq_false_iff.mpr cramped))
    rw [← hsame, List.length_cons] at hanswer
    exact absurd hanswer (Nat.ne_of_lt (Nat.lt_succ_self _))

/-- Other flags. -/
theorem recolour {t : PageTable} {flags : PageEntry → EntryFlags}
    (same : t.entries = w.space.table.entries.map fun e => { e with flags := flags e })
    (room : t.capacity = w.space.table.capacity) : w.Grows (w.withTable t) := by
  have hframes := frames_recoloured same
  refine ⟨rfl, fun hl => hl, fun _ => rfl, ?_, ?_, fun _ => room, List.suffix_refl _,
    fun _ hf => hf, fun _ _ _ => rfl⟩
  · intro p e hp
    refine ⟨{ e with flags := flags e }, ?_, rfl⟩
    show t.find? p = _
    rw [PageTable.find?_recoloured same, hp]
    rfl
  · exact hframes ▸ List.Sublist.refl _

end Grows

variable {w w' : Workspace}

/-- **What one move grows.** -/
theorem Move.grows (h : w.Move w') : w.Grows w' := by
  cases h with
  | reported e other => exact .of_kernel_eq rfl id (fun _ => rfl) rfl (List.suffix_refl _) rfl rfl
  | prepared n done => exact .of_kernel_eq rfl id (fun _ => rfl) rfl (List.suffix_refl _) rfl rfl
  | asked room =>
      exact .of_kernel_eq rfl id (fun _ => rfl) rfl (w.kernel.heap_asked_suffix room) rfl rfl
  | mapped p flags f a t grown room taken inserted => exact .install taken inserted
  | refused p f a a' cramped taken back => exact .turnBack cramped taken back
  | recoloured t flags same room count => exact .recolour same room
  | settled bounds loaded kept =>
      exact .of_kernel_eq rfl kept (fun _ => rfl) rfl (List.suffix_refl _) rfl rfl
  | declared r open' =>
      refine .of_kernel_eq rfl id (fun hl => ?_) rfl (List.suffix_refl _) rfl rfl
      rw [open'] at hl
      cases hl
  | stored e data own =>
      refine .of_table_eq rfl id (fun _ => rfl) rfl (List.suffix_refl _) (fun _ hf => hf)
        fun f hf _ => ?_
      show (w.kernel.memory.store e.frame data).contents f = _
      rw [Memory.contents_store, if_neg]
      rintro rfl
      exact hf (List.mem_map_of_mem own)
  | cached e slot c own placed =>
      exact .of_kernel_eq rfl id (fun _ => rfl) rfl (List.suffix_refl _) rfl rfl
  | dropped => exact .of_kernel_eq rfl id (fun _ => rfl) rfl (List.suffix_refl _) rfl rfl

/-- **What a path grows**, by induction on its moves. -/
theorem Path.grows (h : w.Path w') : w.Grows w' := by
  induction h with
  | refl => exact .refl w
  | tail _ hmove ih => exact ih.trans hmove.grows

/-- Mapped pages stay mapped. -/
theorem Grows.maps (h : w.Grows w') {p : Page} (hp : w.Maps p) : w'.Maps p := by
  obtain ⟨e, he⟩ := Option.isSome_iff_exists.mp hp
  obtain ⟨e', he', -⟩ := h.find? p e he
  exact Option.isSome_iff_exists.mpr ⟨e', he'⟩

/-- A prepared space stays prepared. -/
theorem Grows.isPrepared (h : w.Grows w') (hp : w.space.IsPrepared) : w'.space.IsPrepared := by
  refine ⟨h.loaded hp.1, fun p hpage => ?_⟩
  rw [h.regions hp.1] at hpage
  exact h.maps (hp.2 p hpage)

end Workspace

end DemandPaging
