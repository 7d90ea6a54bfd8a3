import DemandPaging.Proofs.Filling

/-!
# Copying pages between spaces

A copy is made page by page, and while one page is copied nothing may happen to those that
have been copied already, nor to the source.  Both follow from one condition on the end
(`Workspace.Separate`): no two pages of the space share a frame, and no frame of the source is
among them.  Moves only ever add frames, so the condition at the end gives it for every point
before.  And the frames of the source must be kept (`Allocator.Keeps`), as a page that could not
be mapped leaves zeroes in a free frame.

`Copied` is what copying a list of pages does.  It has two halves, one for the pages of the list
and one for all others, and it is the second half that carries the induction: what was copied
first is one of the others from then on.
-/

namespace DemandPaging

/-- No two pages of the space share a frame, and none has a frame of the listed mappings. -/
def Workspace.Separate (w : Workspace) (es : List PageEntry) : Prop :=
  w.space.frames.Nodup ∧ ∀ e ∈ es, e.frame ∉ w.space.frames

variable {w w₁ w₂ : Workspace} {e : PageEntry} {es rest : List PageEntry}

theorem Workspace.Separate.before (h : w₁.Separate es) (hgrows : w.Grows w₁)
    (hsub : rest ⊆ es) : w.Separate rest :=
  ⟨h.1.sublist hgrows.frames, fun e he hold => h.2 e (hsub he) (hgrows.frames.subset hold)⟩

/-- Different pages have different frames. -/
theorem Workspace.Separate.frame_ne (h : w.Separate es) {p q : Page} {d : PageEntry}
    (hp : w.space.table.find? p = some e) (hq : w.space.table.find? q = some d) (hne : p ≠ q) :
    e.frame ≠ d.frame :=
  PageTable.frame_ne h.1 hp hq hne

/-- **Copied**: the listed pages have been taken over from elsewhere, with flags and bytes. -/
structure Copied (es : List PageEntry) (w w' : Workspace) : Prop where
  grows : w.Grows w'
  filled : Filled (es.map PageEntry.page) w w'
  loaded : w'.space.loaded = w.space.loaded
  /-- Each listed page has the listed flags, and the bytes of the listed frame. -/
  here : (∀ e ∈ es, w.kernel.allocator.Keeps e.frame) → w'.Separate es →
    (es.map PageEntry.page).Nodup → ∀ e ∈ es,
    ∃ e', w'.space.table.find? e.page = some e' ∧ e'.flags = e.flags ∧
      w'.kernel.memory.contents e'.frame = w.kernel.memory.contents e.frame
  /-- Every other page is what it was. -/
  elsewhere : w'.Separate es → ∀ p e, p ∉ es.map PageEntry.page →
    w.space.table.find? p = some e → w'.space.table.find? p = some e ∧
      w'.kernel.memory.contents e.frame = w.kernel.memory.contents e.frame

theorem Copied.nil (w : Workspace) : Copied [] w w where
  grows := .refl w
  filled := .refl w
  loaded := rfl
  here _ _ _ e he := by cases he
  elsewhere _ _ _ _ h := ⟨h, rfl⟩

/-- One page, then the rest. -/
theorem Copied.cons (h : Copied [e] w w₁) (h' : Copied rest w₁ w₂) :
    Copied (e :: rest) w w₂ where
  grows := h.grows.trans h'.grows
  filled := h.filled.append h'.filled
  loaded := h'.loaded.trans h.loaded
  here := by
    intro hkeeps hseparate hnodup d hd
    have hseparate₁ : w₁.Separate [e] := hseparate.before h'.grows (by simp)
    have hseparate₂ : w₂.Separate rest :=
      hseparate.before (.refl w₂) (List.subset_cons_self e rest)
    rw [List.map_cons, List.nodup_cons] at hnodup
    rcases List.mem_cons.mp hd with rfl | hd
    -- the first page is one of the others from then on
    · obtain ⟨e', hfind, hflags, hbytes⟩ :=
        h.here (fun c hc => hkeeps c (List.mem_singleton.mp hc ▸ List.mem_cons_self)) hseparate₁
          (List.nodup_singleton _) d List.mem_cons_self
      obtain ⟨hfind', hbytes'⟩ := h'.elsewhere hseparate₂ d.page e' hnodup.1 hfind
      exact ⟨e', hfind', hflags, hbytes'.trans hbytes⟩
    -- a later page is copied from bytes that copying the first has left alone
    · have hkept := hkeeps d (List.mem_cons_of_mem _ hd)
      obtain ⟨d', hfind, hflags, hbytes⟩ := h'.here
        (fun c hc => h.grows.kept _ (hkeeps c (List.mem_cons_of_mem _ hc))) hseparate₂ hnodup.2 d hd
      have hsource : d.frame ∉ w₁.space.frames := fun hold =>
        hseparate₂.2 d hd (h'.grows.frames.subset hold)
      exact ⟨d', hfind, hflags, hbytes.trans (h.grows.untouched _ hsource (Or.inl hkept))⟩
  elsewhere := by
    intro hseparate p d hp hfind
    rw [List.map_cons, List.mem_cons, not_or] at hp
    have hseparate₁ : w₁.Separate [e] := hseparate.before h'.grows (by simp)
    obtain ⟨hfind₁, hbytes₁⟩ := h.elsewhere hseparate₁ p d (by simpa using hp.1) hfind
    obtain ⟨hfind₂, hbytes₂⟩ := h'.elsewhere
      (hseparate.before (.refl w₂) (List.subset_cons_self e rest)) p d hp.2 hfind₁
    exact ⟨hfind₂, hbytes₂.trans hbytes₁⟩

namespace AddressSpace

open SpaceM

/-- The frame behind a page, new or not. -/
theorem walks_frameFor (p : Page) (flags : EntryFlags) :
    Walks (frameFor p flags) w
      (fun f w' => w.Grows w' ∧ Filled [p] w w' ∧ w'.space.loaded = w.space.loaded ∧
        (∃ d, w'.space.table.find? p = some d ∧ d.frame = f) ∧
        (∀ q, q ≠ p → w'.space.table.find? q = w.space.table.find? q) ∧
        ∀ g, g ≠ f → w'.kernel.memory.contents g = w.kernel.memory.contents g)
      (Starved [p] w) := by
  unfold frameFor
  refine Walks.bindSpace ?_
  cases hfind : w.space.table.find? p with
  | some d =>
      refine Walks.pure ⟨.refl w, ⟨rfl, fun q => ⟨Or.inl, ?_⟩, 0, .of_eq rfl rfl⟩, rfl,
        ⟨d, hfind, rfl⟩, fun _ _ => rfl, fun _ _ => rfl⟩
      rintro (hq | hq)
      · exact hq
      · obtain rfl := List.mem_singleton.mp hq
        simp [Workspace.Maps, hfind]
  | none =>
      have hp : ¬ w.Maps p := by simp [Workspace.Maps, hfind]
      refine (walks_mapZeroed hp).mono (fun f w' hpath h => ?_) (fun _ _ _ h => h)
      obtain ⟨hfilled, hentries, hloaded, hmemory⟩ := h
      refine ⟨hpath.grows, hfilled, hloaded, ⟨⟨p, f, flags⟩, ?_, rfl⟩, ?_, ?_⟩
      · rw [hentries, if_pos rfl]
      · intro q hq
        rw [hentries, if_neg (Ne.symm hq)]
      · intro g hg
        rw [hmemory, Memory.contents_zero, if_neg (Ne.symm hg)]

/-- Setting the flags of a mapped page changes its entry and no other. -/
theorem find?_setFlags {t : PageTable} {p : Page} {d : PageEntry} (h : t.find? p = some d)
    (flags : EntryFlags) (q : Page) :
    (t.setFlags p flags).2.find? q = if p = q then some { d with flags } else t.find? q := by
  have hupdate := PageRow.find?_update t.toPageRow p q (fun e => { e with flags }) fun _ => rfl
  rw [PageTable.setFlags_eq_update h]
  refine hupdate.trans ?_
  split
  · next hq => rw [← hq, h]; rfl
  · rfl

/-- Setting the flags of a mapped page is a move. -/
theorem move_setFlags {p : Page} {d : PageEntry} (h : w.space.table.find? p = some d)
    (flags : EntryFlags) : w.Move (w.withTable (w.space.table.setFlags p flags).2) := by
  rw [PageTable.setFlags_eq_update h]
  refine .recoloured _ (fun e => if e.page = p then flags else e.flags) ?_ rfl rfl
  rw [PageTable.entries_update]
  refine List.map_congr_left fun e _ => ?_
  split
  · rfl
  · rfl

/-- **Copying one page.** -/
theorem walks_copyEntry (e : PageEntry) :
    Walks (copyEntry e) w (fun _ w' => Copied [e] w w') (Starved [e.page] w) := by
  unfold copyEntry
  refine Walks.bind (walks_frameFor e.page e.flags) ?_
  rintro f w₁ - ⟨hgrows, hfilled, hloaded, ⟨d, hfind, rfl⟩, hentries, hbytes⟩
  obtain ⟨hmem, hpage⟩ := PageRow.mem_of_find? hfind
  have hstored := Workspace.Move.stored d (w₁.kernel.memory.contents e.frame) hmem
  have hflags := move_setFlags (w := w₁.store d.frame (w₁.kernel.memory.contents e.frame))
    hfind e.flags
  have hpath := hstored.path.trans hflags.path
  refine ⟨hpath, hgrows.trans hpath.grows, ⟨hfilled.regions, fun p => ?_, ?_⟩, hloaded, ?_, ?_⟩
  · rw [List.map_singleton, ← hfilled.maps_iff]
    show ((w₁.space.table.setFlags e.page e.flags).2.find? p).isSome = true ↔ _
    rw [find?_setFlags hfind]
    split
    · next hp => simp [Workspace.Maps, ← hp, hfind]
    · rfl
  · obtain ⟨n, hn⟩ := hfilled.widens
    have hcapacity : (w₁.space.table.setFlags e.page e.flags).2.capacity =
        w₁.space.table.capacity := by
      rw [PageTable.setFlags_eq_update hfind]
      rfl
    exact ⟨n, hcapacity.trans hn.capacity, hn.heap, hn.granted⟩
  · intro hkeeps hseparate _ c hc
    obtain rfl := List.mem_singleton.mp hc
    refine ⟨{ d with flags := c.flags }, ?_, rfl, ?_⟩
    · show (w₁.space.table.setFlags c.page c.flags).2.find? c.page = _
      rw [find?_setFlags hfind, if_pos rfl]
    · show (w₁.kernel.memory.store d.frame _).contents d.frame = _
      rw [Memory.contents_store, if_pos rfl]
      exact hgrows.untouched _ (fun hold => hseparate.2 c hc (hpath.grows.frames.subset hold))
        (Or.inl (hkeeps c hc))
  · intro hseparate p c hp hc
    have hne : p ≠ e.page := by simpa using hp
    have hc₁ : w₁.space.table.find? p = some c := (hentries p hne).trans hc
    have hframe : d.frame ≠ c.frame :=
      (hseparate.before hpath.grows (List.Subset.refl _)).frame_ne hfind hc₁ (Ne.symm hne)
    constructor
    · show (w₁.space.table.setFlags e.page e.flags).2.find? p = _
      rw [find?_setFlags hfind, if_neg (Ne.symm hne), hc₁]
    · show (w₁.kernel.memory.store d.frame _).contents c.frame = _
      rw [Memory.contents_store, if_neg hframe]
      exact hbytes c.frame (Ne.symm hframe)

/-- **Copying page after page**, by induction on the pages. -/
theorem walks_copyEntries :
    ∀ (es : List PageEntry) {w : Workspace},
      Walks (copyEntries es) w (fun _ w' => Copied es w w') (Starved (es.map PageEntry.page) w)
  | [], w => Walks.pure (.nil w)
  | e :: rest, w => by
      refine Walks.bind ((walks_copyEntry e).mono (fun _ _ _ h => h) fun _ _ _ hstarved =>
        hstarved.before (rest.map PageEntry.page)) fun _ w₁ _ h => ?_
      exact (walks_copyEntries rest).mono (fun _ _ _ h' => h.cons h') fun _ _ _ hstarved =>
        hstarved.after h.filled

/-- The pages that a copy maps because its source was prepared for load. -/
def replayedPages (source : AddressSpace) : List Page :=
  if source.loaded then loadPages source.regions else []

/-- The pages that a copy maps: those of the load, if there was one, and those of the source. -/
def copiedPages (source : AddressSpace) : List Page :=
  replayedPages source ++ source.table.entries.map PageEntry.page

/-- **Copies**: what the space at hand has of `source` after it was made a copy of it. -/
structure IsCopy (source : AddressSpace) (w w' : Workspace) : Prop where
  filled : Filled (copiedPages source) w w'
  bounds : w'.space.bounds = source.bounds
  loaded : w'.space.loaded = source.loaded
  pages : (∀ e ∈ source.table.entries, w.kernel.allocator.Keeps e.frame) →
    w'.Separate source.table.entries → (source.table.entries.map PageEntry.page).Nodup →
    ∀ e ∈ source.table.entries, ∃ e', w'.space.table.find? e.page = some e' ∧ e'.flags = e.flags ∧
      w'.kernel.memory.contents e'.frame = w.kernel.memory.contents e.frame

/-- Preparing a copy for load, if its source was. -/
theorem walks_replay {source : AddressSpace} (hfresh : w.space.loaded = false)
    (hregions : w.space.regions = source.regions) :
    Walks (if source.loaded then prepareLoad else pure ()) w
      (fun _ w' => Filled (replayedPages source) w w' ∧ w'.space.loaded = source.loaded)
      (Starved (replayedPages source) w) := by
  unfold replayedPages
  by_cases hloaded : source.loaded = true
  · rw [if_pos hloaded, if_pos hloaded, ← hregions]
    refine walks_prepareLoad.mono (fun _ w' _ h => ⟨h.1, ?_⟩) fun _ _ _ h => h
    rw [h.2.1, hloaded]
  · rw [if_neg hloaded, if_neg hloaded]
    refine Walks.pure ⟨.refl w, ?_⟩
    rw [hfresh]
    simpa using hloaded

/-- Making a space a copy, as a sequence of two parts. -/
theorem copyFrom_eq (source : AddressSpace) :
    copyFrom source = (if source.loaded then prepareLoad else pure ()) >>= fun _ =>
      copyEntries source.table.entries >>= fun _ =>
        modifySpace fun s => { s with bounds := source.bounds, loaded := source.loaded } := by
  unfold copyFrom
  split
  · rfl
  · rfl

/-- **Making a space a copy.** -/
theorem walks_copyFrom (source : AddressSpace) (hfresh : w.space.loaded = false)
    (hregions : w.space.regions = source.regions) :
    Walks (copyFrom source) w (fun _ w' => IsCopy source w w')
      (Starved (copiedPages source) w) := by
  rw [copyFrom_eq]
  refine Walks.bind ((walks_replay hfresh hregions).mono (fun _ _ _ h => h) fun _ _ _ hstarved =>
    hstarved.before (source.table.entries.map PageEntry.page)) ?_
  rintro _ w₁ hpath₁ ⟨hreplayed, hloaded₁⟩
  refine Walks.bind ((walks_copyEntries source.table.entries).mono (fun _ _ _ h => h)
    fun _ _ _ hstarved => hstarved.after hreplayed) fun _ w₂ hpath₂ hcopied => ?_
  have hloaded : w₂.space.loaded = source.loaded := hcopied.loaded.trans hloaded₁
  refine Walks.modifySpace
    (Workspace.Move.settled source.bounds source.loaded fun hl => hloaded ▸ hl).path ?_
  have hfilled := hreplayed.append hcopied.filled
  refine ⟨⟨hfilled.regions, hfilled.maps_iff, ?_⟩, rfl, rfl, fun hkeeps hseparate hnodup e he => ?_⟩
  · obtain ⟨n, hn⟩ := hfilled.widens
    exact ⟨n, hn.capacity, hn.heap, hn.granted⟩
  · obtain ⟨e', hfind, hflags, hbytes⟩ := hcopied.here
      (fun d hd => hpath₁.grows.kept _ (hkeeps d hd)) hseparate hnodup e he
    refine ⟨e', hfind, hflags, hbytes.trans
      (hpath₁.grows.untouched _ (fun hold => ?_) (Or.inl (hkeeps e he)))⟩
    exact hseparate.2 e he (hpath₂.grows.frames.subset hold)

end AddressSpace

end DemandPaging
