import DemandPaging.Proofs.Filling

/-!
# What can be seen of a space

A program sees its addresses: which of its pages are mapped, with which permission, and the bytes
in them.  It does not see which frames these bytes lie in, nor the number of its space.  A `View`
is a space without what cannot be seen, and this module says what the operations of a load do to
it.

**Why views.**  Frames are handed out in an order that depends on everybody, so two runs that are
to be compared hardly ever agree on frames.  They can agree on views, and what a program is
answered depends on the view of its space alone, as long as there are frames and cache slots.

**What has to be excluded.**  Two pages in one frame would show a change of one in the other.  So
everything here is said on the condition that no two pages of the space share a frame in the end
(`Shows`).  Operations never give frames back, hence the condition holds at every point before.
-/

namespace DemandPaging

/-- **Views**: what a program can see of its space. -/
@[ext] structure View where
  regions : RegionList
  bounds : Bounds
  loaded : Bool
  /-- The flags and the bytes of each mapped page. -/
  pages : Page → Option (EntryFlags × Contents)

namespace RegionList

/-- The flags of a page while its space is being loaded: region pages are writable, all others
are pages of stack or heap. -/
def loadFlags (l : RegionList) (p : Page) : EntryFlags :=
  if l.regions.any (·.covers p) then .loading else .segment

/-- **Declared flags** of a page: those of the last region that covers it, or those of stack and
heap if there is none. -/
def declaredFlags (l : RegionList) (p : Page) : EntryFlags :=
  ((l.lastCovering? p).map Region.flags).getD .segment

end RegionList

namespace View

/-- The view with pages mapped to zeroes, except those that are mapped already. -/
def provide (v : View) (flags : EntryFlags) (ps : List Page) : View :=
  { v with pages := fun p => (v.pages p).or (if p ∈ ps then some (flags, .zero) else none) }

/-- The view prepared for load: the pages of the load are there, and stack and heap begin with
one page each. -/
def prepared (v : View) : View where
  regions := v.regions
  bounds :=
    let heap := AddressSpace.initialHeapPage v.regions
    ⟨initialStackPage, initialStackPage, heap, heap⟩
  loaded := true
  pages p := (v.pages p).or
    (if p ∈ AddressSpace.loadPages v.regions then some (v.regions.loadFlags p, .zero) else none)

/-- The view with the load completed: covered pages have the flags of the last region that
covers them. -/
def completed (v : View) : View :=
  { v with pages := fun p => (v.pages p).map fun c =>
      (((v.regions.lastCovering? p).map Region.flags).getD c.1, c.2) }

@[simp] theorem provide_nil (v : View) (flags : EntryFlags) : v.provide flags [] = v := by
  simp [provide]

theorem provide_append (v : View) (flags : EntryFlags) (ps qs : List Page) :
    v.provide flags (ps ++ qs) = (v.provide flags ps).provide flags qs := by
  refine View.ext rfl rfl rfl (funext fun p => ?_)
  by_cases hp : p ∈ ps
  · simp [provide, hp]
  · simp [provide, hp]

/-- Nothing is provided where everything is mapped. -/
theorem provide_of_mapped {v : View} {ps : List Page} (h : ∀ p ∈ ps, (v.pages p).isSome = true)
    (flags : EntryFlags) : v.provide flags ps = v := by
  refine View.ext rfl rfl rfl (funext fun p => ?_)
  by_cases hp : p ∈ ps
  · obtain ⟨c, hc⟩ := Option.isSome_iff_exists.mp (h p hp)
    simp [provide, hc]
  · simp [provide, hp]

end View

namespace Region

/-- The pages from a number on, by their distance from the base. -/
theorem mem_pagesFrom (r : Region) :
    ∀ {i n : Nat} (h : i + n ≤ r.pageCount) {p : Page},
      p ∈ r.pagesFrom i n h ↔ r.base.index + i ≤ p.index ∧ p.index < r.base.index + i + n
  | i, 0, h, p => by
      simp only [pagesFrom, List.not_mem_nil, false_iff]
      omega
  | i, n + 1, h, p => by
      have hfirst : p = r.page i (lt_pageCount h) ↔ p.index = r.base.index + i :=
        ⟨fun heq => heq ▸ rfl, fun heq => Page.ext heq⟩
      rw [pagesFrom, List.mem_cons, hfirst, mem_pagesFrom r (rest_le_pageCount h)]
      omega

/-- The pages of a region are those that it covers. -/
theorem mem_pages_iff {r : Region} {p : Page} : p ∈ r.pages ↔ r.covers p = true := by
  unfold pages covers
  rw [mem_pagesFrom, decide_eq_true_iff]
  simp only [Nat.add_zero]

end Region

namespace AddressSpace

/-- What can be seen of a space in memory `m`. -/
def view (s : AddressSpace) (m : Memory) : View where
  regions := s.regions
  bounds := s.bounds
  loaded := s.loaded
  pages p := (s.table.find? p).map fun e => (e.flags, m.contents e.frame)

/-- What can be seen of a space depends on the bytes of its own frames alone. -/
theorem view_congr {s : AddressSpace} {m m' : Memory}
    (h : ∀ f ∈ s.frames, m'.contents f = m.contents f) : s.view m' = s.view m := by
  refine View.ext rfl rfl rfl (funext fun p => ?_)
  refine Option.map_congr fun e he => ?_
  rw [h e.frame (List.mem_map_of_mem (PageRow.mem_of_find? he).1)]

theorem mem_loadPages_iff {l : RegionList} {p : Page} :
    p ∈ loadPages l ↔ l.regions.any (·.covers p) = true ∨ p = initialStackPage ∨
      p = initialHeapPage l := by
  simp only [loadPages, List.mem_append, List.mem_flatMap, Region.mem_pages_iff, List.any_eq_true,
    List.mem_cons, List.not_mem_nil, or_false]

end AddressSpace

namespace View

/-- The view with the first page of the stack. -/
def withStack (v : View) : View :=
  { v.provide .segment [initialStackPage] with
    bounds := { v.bounds with stackLow := initialStackPage, stackHigh := initialStackPage } }

/-- The view with the first page of the heap. -/
def withHeap (v : View) : View :=
  let heap := AddressSpace.initialHeapPage v.regions
  { v.provide .segment [heap] with bounds := { v.bounds with heapLow := heap, heapHigh := heap } }

/-- Preparing, step by step: region pages first, then the stack page, then the heap page. -/
theorem prepared_eq (v : View) :
    v.prepared = (({ v with loaded := true }.provide .loading
      (v.regions.regions.flatMap Region.pages)).withStack).withHeap := by
  refine View.ext rfl rfl rfl (funext fun p => ?_)
  have hload := AddressSpace.mem_loadPages_iff (l := v.regions) (p := p)
  have hregion : p ∈ v.regions.regions.flatMap Region.pages ↔
      v.regions.regions.any (·.covers p) = true := by
    simp only [List.mem_flatMap, Region.mem_pages_iff, List.any_eq_true]
  simp only [prepared, withStack, withHeap, provide, hload, hregion, RegionList.loadFlags,
    List.mem_singleton]
  generalize v.regions.regions.any (·.covers p) = covered
  cases v.pages p with
  | some c => rfl
  | none =>
      cases covered with
      | true => simp
      | false => by_cases hstack : p = initialStackPage <;> simp [hstack]

end View

namespace Workspace

/-- What can be seen of the space at hand. -/
def view (w : Workspace) : View := w.space.view w.kernel.memory

/-- **Quiet** changes: reports, and nothing else. -/
structure Quiet (w w' : Workspace) : Prop where
  space : w'.space = w.space
  kernel : w'.kernel.forgetJournal = w.kernel.forgetJournal

variable {w w₁ w₂ : Workspace}

namespace Quiet

theorem refl (w : Workspace) : w.Quiet w := ⟨rfl, rfl⟩

theorem trans (h : w.Quiet w₁) (h' : w₁.Quiet w₂) : w.Quiet w₂ :=
  ⟨h'.space.trans h.space, h'.kernel.trans h.kernel⟩

theorem report (w : Workspace) (e : Event) : w.Quiet (w.report e) := ⟨rfl, rfl⟩

theorem reportGrowth (w : Workspace) (grown : Option Nat) : w.Quiet (w.reportGrowth grown) := by
  cases grown with
  | none => exact .refl w
  | some n => exact .report w (.tableGrown n)

theorem allocator (h : w.Quiet w₁) : w₁.kernel.allocator = w.kernel.allocator :=
  show w₁.kernel.forgetJournal.allocator = _ from h.kernel ▸ rfl

theorem memory (h : w.Quiet w₁) : w₁.kernel.memory = w.kernel.memory :=
  show w₁.kernel.forgetJournal.memory = _ from h.kernel ▸ rfl

theorem cache (h : w.Quiet w₁) : w₁.kernel.cache = w.kernel.cache :=
  show w₁.kernel.forgetJournal.cache = _ from h.kernel ▸ rfl

theorem heap (h : w.Quiet w₁) : w₁.kernel.heap = w.kernel.heap :=
  show w₁.kernel.forgetJournal.heap = _ from h.kernel ▸ rfl

/-- Reports cannot be seen. -/
theorem view (h : w.Quiet w₁) : w₁.view = w.view := by
  unfold Workspace.view
  rw [h.space, h.memory]

end Quiet

variable {p : Page} {flags : EntryFlags} {f : Frame} {a : Allocator} {t : PageTable}
  {grown : Option Nat}

/-- One frame more. -/
theorem perm_frames_install (inserted : w.space.table.insert true ⟨p, f, flags⟩ = .ok (t, grown)) :
    (w.install p a f t).space.frames.Perm (f :: w.space.frames) := by
  show (t.entries.map PageEntry.frame).Perm (f :: w.space.table.entries.map PageEntry.frame)
  exact (PageTable.perm_entries_insert inserted).map PageEntry.frame

/-- A page mapped to zeroes in a frame that the space had not mapped before. -/
theorem view_install (inserted : w.space.table.insert true ⟨p, f, flags⟩ = .ok (t, grown))
    (hnodup : (w.install p a f t).space.frames.Nodup) :
    (w.install p a f t).view = w.view.provide flags [p] := by
  have hfresh : f ∉ w.space.frames :=
    (List.nodup_cons.mp ((perm_frames_install inserted).nodup_iff.mp hnodup)).1
  have hnone : w.space.table.find? p = none := PageTable.find?_eq_none_of_insert inserted
  refine View.ext rfl rfl rfl (funext fun q => ?_)
  show (t.find? q).map (fun e => (e.flags, (w.kernel.memory.zero f).contents e.frame)) =
    ((w.space.table.find? q).map fun e => (e.flags, w.kernel.memory.contents e.frame)).or _
  rw [PageTable.find?_insert inserted]
  by_cases hq : p = q
  · subst hq
    simp [hnone]
  · cases hfind : w.space.table.find? q with
    | none => simp [hq, Ne.symm hq]
    | some e =>
        have hne : f ≠ e.frame := by
          rintro rfl
          exact hfresh (List.mem_map_of_mem (PageRow.mem_of_find? hfind).1)
        simp [hq, hne]

end Workspace

/-- **Shows.**  If the operation answers, the space has the frames it had, and what can be seen of
it has become `f` of what could be seen before. -/
def Shows {α : Type} (x : SpaceM α) (w : Workspace) (f : View → View) : Prop :=
  Ends x w (fun _ w' => w.space.frames.Sublist w'.space.frames ∧
    (w'.space.frames.Nodup → w'.view = f w.view)) fun _ _ => True

namespace Shows

variable {α β : Type} {w : Workspace} {x : SpaceM α} {f g : View → View}

/-- One operation after another. -/
theorem bind {y : α → SpaceM β} (h : Shows x w f) (hy : ∀ a w₁, Shows (y a) w₁ g) :
    Shows (x >>= y) w fun v => g (f v) := by
  unfold Shows
  rw [ends_bind]
  refine Ends.mono h (fun a w₁ h₁ => ?_) fun _ _ _ => trivial
  refine Ends.mono (hy a w₁) (fun b w₂ h₂ => ⟨h₁.1.trans h₂.1, fun hnodup => ?_⟩) fun _ _ h => h
  rw [h₂.2 hnodup, h₁.2 (hnodup.sublist h₂.1)]

theorem pure (a : α) : Shows (Pure.pure a) w id := ⟨List.Sublist.refl _, fun _ => rfl⟩

theorem bindSpace {y : AddressSpace → SpaceM α} (h : Shows (y w.space) w f) :
    Shows (SpaceM.space >>= y) w f := h

theorem record (e : Event) : Shows (SpaceM.onKernel (Kernel.record e)) w id :=
  ⟨List.Sublist.refl _, fun _ => rfl⟩

theorem congr (h : Shows x w f) (heq : f w.view = g w.view) : Shows x w g :=
  Ends.mono h (fun _ _ h₁ => ⟨h₁.1, fun hnodup => (h₁.2 hnodup).trans heq⟩) fun _ _ h => h

/-- Changing the space, but not its frames. -/
theorem modifySpace {f : AddressSpace → AddressSpace}
    (hframes : w.space.frames.Sublist (f w.space).frames)
    (hview : (f w.space).view w.kernel.memory = g w.view) :
    Shows (SpaceM.modifySpace f) w g :=
  ⟨hframes, fun _ => hview⟩

end Shows

namespace AddressSpace

open SpaceM

variable {w : Workspace}

theorem shows_ensureMapped (p : Page) (flags : EntryFlags) :
    Shows (ensureMapped p flags) w fun v => v.provide flags [p] := by
  unfold ensureMapped
  refine Shows.bindSpace ?_
  cases hfind : w.space.table.find? p with
  | some e =>
      refine (Shows.pure ()).congr (View.provide_of_mapped (fun q hq => ?_) flags).symm
      obtain rfl := List.mem_singleton.mp hq
      simp [Workspace.view, view, hfind]
  | none =>
      refine Shows.bind (Ends.mono (ends_mapZeroed flags hfind) ?_ fun _ _ _ => trivial)
        fun _ _ => Shows.pure ()
      rintro f w' ⟨a, t, grown, -, taken, inserted, rfl⟩
      have hquiet := Workspace.Quiet.reportGrowth (w.install p a f t) grown
      rw [hquiet.view, hquiet.space]
      exact ⟨(Workspace.Grows.install taken inserted).frames, Workspace.view_install inserted⟩

theorem shows_backPagesFrom (r : Region) :
    ∀ (i n : Nat) (h : i + n ≤ r.pageCount) {w : Workspace},
      Shows (backPagesFrom r i n h) w fun v => v.provide .loading (r.pagesFrom i n h)
  | _, 0, _, w => (Shows.pure ()).congr (View.provide_nil w.view .loading).symm
  | i, n + 1, h, w =>
      ((shows_ensureMapped (r.page i (by omega)) .loading).bind fun _ _ =>
        shows_backPagesFrom r (i + 1) n (by omega)).congr
          (View.provide_append w.view .loading [r.page i (by omega)] _).symm

theorem shows_backRegions :
    ∀ (rs : List Region) {w : Workspace},
      Shows (backRegions rs) w fun v => v.provide .loading (rs.flatMap Region.pages)
  | [], w => (Shows.pure ()).congr (View.provide_nil w.view .loading).symm
  | r :: rest, w =>
      ((shows_backPagesFrom r 0 r.pageCount (by omega)).bind fun _ _ =>
        shows_backRegions rest).congr (View.provide_append w.view .loading r.pages _).symm

/-- **Preparing for load**, as far as it can be seen. -/
theorem shows_prepareLoad : Shows prepareLoad w View.prepared := by
  unfold prepareLoad
  refine Shows.congr (f := fun v => (({ v with loaded := true }.provide .loading
    (v.regions.regions.flatMap Region.pages)).withStack).withHeap) ?_ (View.prepared_eq _).symm
  refine Shows.bind (f := fun v => { v with loaded := true })
    (g := fun v =>
      ((v.provide .loading (v.regions.regions.flatMap Region.pages)).withStack).withHeap)
    (Shows.modifySpace (.refl _) rfl) fun _ w₁ => Shows.bindSpace ?_
  refine Shows.bind (f := fun v => v.provide .loading (v.regions.regions.flatMap Region.pages))
    (g := fun v => v.withStack.withHeap) ((shows_backRegions _).congr rfl) fun _ w₂ => ?_
  -- the stack page is mapped first, and the bounds are set to it afterwards
  refine Shows.bind (shows_ensureMapped initialStackPage .segment) (fun _ w₃ => ?_)
    (g := fun v => View.withHeap { v with bounds :=
      { v.bounds with stackLow := initialStackPage, stackHigh := initialStackPage } })
  refine Shows.bind (g := View.withHeap) (Shows.modifySpace (.refl _) rfl) fun _ w₄ =>
    Shows.bindSpace ?_
  refine Shows.congr (Shows.bind (shows_ensureMapped (initialHeapPage w₄.space.regions) .segment)
    (fun _ w₅ => ?_) (g := fun v => { v with bounds :=
      { v.bounds with heapLow := initialHeapPage w₄.space.regions,
                      heapHigh := initialHeapPage w₄.space.regions } })) rfl
  exact Shows.bind (g := fun v => v) (Shows.modifySpace (.refl _) rfl) fun _ w₆ =>
    Shows.bindSpace (Shows.record _)

/-- The flags of the last of the regions that cover the page. -/
theorem foldl_flags (p : Page) :
    ∀ (rs : List Region) (flags : EntryFlags),
      rs.foldl (fun flags r => if r.covers p then r.flags else flags) flags =
        ((rs.reverse.find? (·.covers p)).map Region.flags).getD flags
  | [], _ => rfl
  | r :: rest, flags => by
      rw [List.foldl_cons, foldl_flags p rest, List.reverse_cons, List.find?_append]
      cases rest.reverse.find? (·.covers p) with
      | some r' => rfl
      | none => by_cases hr : r.covers p = true <;> simp [hr]

/-- Applying permissions region after region changes the flags of each page in turn. -/
theorem find?_applyPermissions (p : Page) :
    ∀ (rs : List Region) (t : PageTable),
      (applyPermissions t rs).find? p = (t.find? p).map fun e =>
        { e with flags :=
            rs.foldl (fun flags r => if r.covers p then r.flags else flags) e.flags }
  | [], t => by simp [applyPermissions]
  | r :: rest, t => by
      have hsame : (t.setFlagsWhere r.covers r.flags).entries = t.entries.map fun e =>
          { e with flags := if r.covers e.page then r.flags else e.flags } := by
        rw [PageTable.entries_setFlagsWhere]
        refine List.map_congr_left fun e _ => ?_
        split <;> rfl
      have hfirst : (t.setFlagsWhere r.covers r.flags).find? p = (t.find? p).map fun e =>
          { e with flags := if r.covers p then r.flags else e.flags } := by
        rw [PageTable.find?_recoloured hsame]
        refine Option.map_congr fun e he => ?_
        rw [(PageRow.mem_of_find? he).2]
      show (applyPermissions (t.setFlagsWhere r.covers r.flags) rest).find? p = _
      rw [find?_applyPermissions p rest, hfirst, Option.map_map]
      rfl

/-- Completing a load gives a mapped page the flags of the last region that covers it. -/
theorem find?_completeLoad (s : AddressSpace) (p : Page) :
    s.completeLoad.table.find? p = (s.table.find? p).map fun e =>
      { e with flags := ((s.regions.lastCovering? p).map Region.flags).getD e.flags } := by
  refine (find?_applyPermissions p s.regions.regions s.table).trans ?_
  simp only [foldl_flags]
  rfl

/-- **Completing a load**, as far as it can be seen. -/
theorem view_completeLoad (s : AddressSpace) (m : Memory) :
    s.completeLoad.view m = (s.view m).completed := by
  refine View.ext rfl rfl rfl (funext fun p => ?_)
  show ((applyPermissions s.table s.regions.regions).find? p).map _ = Option.map _ (Option.map _ _)
  rw [find?_applyPermissions, Option.map_map, Option.map_map]
  refine Option.map_congr fun e _ => ?_
  simp only [Function.comp, foldl_flags]
  rfl

end AddressSpace

end DemandPaging
