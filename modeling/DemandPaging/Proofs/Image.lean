import DemandPaging.Proofs.Ownership
import DemandPaging.Proofs.Transfers

/-!
# The image of a program

What a program that was started finds in its memory.  Its segments may come in any order, share
pages and overlap, begin in the middle of a page and have fewer bytes than memory or more.  The
image is nevertheless easy to say, page by page for what is mapped and with which permission, and
address by address for the bytes (`IsImage`): whoever comes last in the list wins, and what nobody
claims is zero.

**Why it is that easy.**  Once everything is mapped, the passes of a load act on pages without
looking at each other: storing bytes leaves flags alone, and giving permissions leaves bytes alone.
So the view of the loaded space is a composition of functions on views (`View.load`), and of each
page it says what a fold over the list of segments says.
-/

namespace DemandPaging

/-- Declaring regions one after another appends them. -/
theorem RegionList.regions_foldl_push (rs : List Region) (l : RegionList) :
    (rs.foldl push l).regions = l.regions ++ rs := by
  induction rs generalizing l with
  | nil => simp
  | cons r rest ih =>
      rw [List.foldl_cons, ih, regions_push, List.append_assoc, List.singleton_append]

namespace Segment

/-- Whether a page is one of the pages from the one in which the segment begins to the one in
which it ends. -/
def covers (g : Segment) (p : Page) : Bool :=
  decide (g.address.page.index ≤ p.index ∧ p.start.val < roundUp (g.address.val + g.size) pageSize)

/-- The flags of the segment's pages. -/
def flags (g : Segment) : EntryFlags := g.permission.flags

/-- The byte that the segment has for address number `n`, if it has one. -/
def byte? (g : Segment) (n : Nat) : Option UInt8 :=
  if g.address.val ≤ n then g.bytes[n - g.address.val]? else none

/-- The region of a segment, refused if it does not lie in the user half. -/
def region (g : Segment) : Except MemoryError Region :=
  Region.declare g.address g.size g.permission

/-- The region of a segment covers the pages of the segment, with its permission. -/
theorem region_eq_ok {g : Segment} {r : Region} (h : g.region = .ok r) :
    (∀ p, r.covers p = g.covers p) ∧ r.flags = g.flags := by
  unfold region Region.declare at h
  split at h
  · cases h
  · next len hspan =>
      split at h
      · cases h
        refine ⟨fun p => ?_, rfl⟩
        have hlen := Region.span?_eq_some hspan
        have hsplit := g.address.page_start_add_offset
        unfold Region.covers covers
        rw [decide_eq_decide]
        simp only [roundUp, pageSize, Page.start_val] at hlen hsplit ⊢
        omega
      · cases h

end Segment

namespace Program

/-- The last segment that covers a page. -/
def lastCovering? (segments : List Segment) (p : Page) : Option Segment :=
  segments.reverse.find? (·.covers p)

/-- The flags a page has after loading: those of the last segment that covers it, or those of stack
and heap if there is none. -/
def flagsAt (segments : List Segment) (p : Page) : EntryFlags :=
  ((lastCovering? segments p).map Segment.flags).getD .segment

/-- The byte at address number `n` after loading: that of the last segment that has one there. -/
def byteAt (segments : List Segment) (n : Nat) : UInt8 :=
  (segments.reverse.findSome? (·.byte? n)).getD 0

/-- **Declared**: the regions are those of the segments, one after another. -/
def Declares (segments : List Segment) (rs : List Region) : Prop :=
  List.Forall₂ (fun g r => g.region = .ok r) segments rs

namespace Declares

variable {segments : List Segment} {rs : List Region}

/-- Looking for a region that covers a page is looking for a segment that does. -/
theorem find?_eq (h : Declares segments rs) (p : Page) :
    (rs.find? (·.covers p)).map Region.flags =
      (segments.find? (·.covers p)).map Segment.flags := by
  induction h with
  | nil => rfl
  | @cons g r segments rs hregion _ ih =>
      obtain ⟨hcovers, hflags⟩ := Segment.region_eq_ok hregion
      rw [List.find?_cons, List.find?_cons, hcovers]
      cases g.covers p with
      | true => exact congrArg some hflags
      | false => exact ih

theorem any_covers (h : Declares segments rs) (p : Page) :
    rs.any (·.covers p) = segments.any (·.covers p) := by
  induction h with
  | nil => rfl
  | cons hregion _ ih => rw [List.any_cons, List.any_cons, (Segment.region_eq_ok hregion).1, ih]

/-- Declared flags are those of the last segment. -/
theorem declaredFlags_eq {l : RegionList} (h : Declares segments l.regions) (p : Page) :
    l.declaredFlags p = flagsAt segments p := by
  have hreverse : Declares segments.reverse l.regions.reverse := List.forall₂_reverse_iff.mpr h
  unfold RegionList.declaredFlags RegionList.lastCovering? flagsAt lastCovering?
  rw [hreverse.find?_eq]

end Declares

/-- **Images**: a space as it is when the program has just been loaded into it. -/
structure IsImage (segments : List Segment) (s : AddressSpace) (m : Memory) : Prop where
  declared : Declares segments s.regions.regions
  loaded : s.loaded = true
  /-- Mapped are the pages of the segments, and the first page of stack and heap. -/
  maps_iff : ∀ p, (s.table.find? p).isSome = true ↔ (∃ g ∈ segments, g.covers p = true) ∨
    p = initialStackPage ∨ p = AddressSpace.initialHeapPage s.regions
  flags : ∀ p e, s.table.find? p = some e → e.flags = flagsAt segments p
  bytes : ∀ (a : VirtAddr) (e : PageEntry), s.table.find? a.page = some e →
    (m.contents e.frame).byte a.offset = byteAt segments a.val

end Program

/-- In a new space no page can be seen. -/
theorem AddressSpace.pages_view_new (id : SpaceId) (m : Memory) (p : Page) :
    ((new id).view m).pages p = none := by
  simp [view, new, PageRow.find?_eq_entries_find?]

namespace View

/-- The view with regions declared. -/
def declare (v : View) (rs : List Region) : View :=
  { v with regions := rs.foldl RegionList.push v.regions }

/-- The view after the bytes of segments have been written one after another. -/
def storeAll (v : View) (segments : List Segment) : View :=
  segments.foldl (fun v g => v.store g.address.val g.bytes) v

/-- **Loading**, once the regions are declared. -/
def load (v : View) (segments : List Segment) : View :=
  (v.prepared.storeAll segments).completed

/-- The contents of a page that starts at address `base`, after segments have been written. -/
def patchAll (c : Contents) (base : Nat) (segments : List Segment) : Contents :=
  segments.foldl (fun c g => c.patch base g.address.val g.bytes) c

theorem patchAll_cons (c : Contents) (base : Nat) (g : Segment) (rest : List Segment) :
    patchAll c base (g :: rest) = patchAll (c.patch base g.address.val g.bytes) base rest := by
  unfold patchAll
  exact List.foldl_cons ..

theorem storeAll_cons (v : View) (g : Segment) (rest : List Segment) :
    v.storeAll (g :: rest) = (v.store g.address.val g.bytes).storeAll rest := rfl

theorem storeAll_eq :
    ∀ (segments : List Segment) (v : View), v.storeAll segments =
      { v with pages := fun p => (v.pages p).map fun c =>
          (c.1, patchAll c.2 p.start.val segments) }
  | [], v => by simp [storeAll, patchAll]
  | g :: rest, v => by
      rw [storeAll_cons, storeAll_eq rest]
      refine View.ext rfl rfl rfl (funext fun p => ?_)
      simp only [store, Option.map_map, patchAll_cons]
      rfl

/-- Of the segments written, the last one with a byte for an address decides. -/
theorem byte_patchAll (base : Nat) {i : Nat} (hi : i < 4096) :
    ∀ (segments : List Segment) (c : Contents), (patchAll c base segments).byte i =
      (segments.reverse.findSome? (·.byte? (base + i))).getD (c.byte i)
  | [], _ => rfl
  | g :: rest, c => by
      have hfirst : (c.patch base g.address.val g.bytes).byte i =
          (g.byte? (base + i)).getD (c.byte i) := by
        rw [Contents.byte_patch _ _ _ _ hi]
        unfold Segment.byte?
        split <;> rfl
      rw [patchAll_cons, byte_patchAll base hi rest, hfirst, List.reverse_cons,
        List.findSome?_append]
      cases rest.reverse.findSome? (·.byte? (base + i)) with
      | some b => rfl
      | none => cases hbyte : g.byte? (base + i) <;> simp [hbyte]

@[simp] theorem regions_load (v : View) (segments : List Segment) :
    (v.load segments).regions = v.regions := by
  rw [load, storeAll_eq]
  rfl

@[simp] theorem loaded_load (v : View) (segments : List Segment) :
    (v.load segments).loaded = true := by
  rw [load, storeAll_eq]
  rfl

/-- The pages of a view that had none before it was loaded. -/
theorem pages_load {v : View} (hempty : ∀ p, v.pages p = none) (segments : List Segment)
    (p : Page) : (v.load segments).pages p =
      if p ∈ AddressSpace.loadPages v.regions then
        some (v.regions.declaredFlags p, patchAll .zero p.start.val segments)
      else none := by
  unfold load completed
  rw [storeAll_eq]
  show Option.map _ (Option.map _ (v.prepared.pages p)) = _
  simp only [prepared, hempty, Option.none_or]
  split
  · -- a page that no region covers has the flags of stack and heap from the beginning
    have hflags : ((v.regions.lastCovering? p).map Region.flags).getD (v.regions.loadFlags p) =
        v.regions.declaredFlags p := by
      unfold RegionList.declaredFlags RegionList.loadFlags
      cases hlast : v.regions.lastCovering? p with
      | some r => rfl
      | none =>
          have huncovered : ¬ v.regions.regions.any (·.covers p) = true := by
            unfold RegionList.lastCovering? at hlast
            simp only [List.find?_eq_none, List.mem_reverse] at hlast
            rw [List.any_eq_true]
            rintro ⟨r, hr, hcovers⟩
            exact hlast r hr hcovers
          rw [if_neg huncovered]
    simp only [Option.map_some, hflags]
  · rfl

end View

namespace Program

open SpaceM

variable {w : Workspace} {segments : List Segment}

/-- Declaring regions one after another changes nothing but the regions. -/
theorem ends_declareAll :
    ∀ (segments : List Segment) {w : Workspace},
      Ends (declareAll segments) w
        (fun _ w' => ∃ rs, Declares segments rs ∧ w'.view = w.view.declare rs) fun _ _ => True
  | [], w => ⟨[], .nil, rfl⟩
  | g :: rest, w => by
      unfold declareAll AddressSpace.declareRegion
      simp only [liftM_eq, ends_bind, ends_space, ends_onKernel, ends_ite, Kernel.ends_halt,
        Kernel.ends_orFail, Kernel.ends_record, Kernel.ends_claim, ends_modifySpace]
      split
      · trivial
      · cases hregion : Region.declare g.address g.size g.permission with
        | error e => trivial
        | ok r =>
            dsimp only
            split
            · refine Ends.mono (ends_declareAll rest) ?_ fun _ _ _ => trivial
              rintro _ w' ⟨rs, hrest, hview⟩
              exact ⟨r :: rs, .cons hregion hrest, hview⟩
            · trivial

/-- Writing the bytes of segments one after another. -/
theorem shows_writeAll :
    ∀ (segments : List Segment) {w : Workspace},
      Shows (writeAll segments) w fun v => v.storeAll segments
  | [], _ => Shows.pure ()
  | g :: rest, w => by
      refine Shows.bindSpace (Shows.bind (f := fun v => v.store g.address.val g.bytes) ?_
        fun _ w₁ => shows_writeAll rest)
      unfold Shows
      rw [liftM_eq, ends_onKernel]
      by_cases hnodup : w.space.frames.Nodup
      · refine Ends.mono (AddressSpace.ends_write hnodup g.address g.bytes) ?_ fun _ _ _ => trivial
        rintro _ k ⟨hwrite, -⟩
        refine ⟨List.Sublist.refl _, fun _ => ?_⟩
        -- an answer means that nothing was in the way
        unfold View.write at hwrite
        split at hwrite
        · cases hwrite
        · exact (Prod.mk.inj hwrite).2.symm
      · unfold Ends
        cases w.space.write g.address g.bytes w.kernel with
        | ok _ k => exact ⟨List.Sublist.refl _, fun h => absurd h hnodup⟩
        | error _ k => trivial

/-- **Loading a program**, as far as it can be seen. -/
theorem ends_load (segments : List Segment) :
    Ends (load segments) w
      (fun stackPointer w' => stackPointer = userStackTop ∧ ∃ rs, Declares segments rs ∧
        (w'.space.frames.Nodup → w'.view = (w.view.declare rs).load segments))
      fun _ _ => True := by
  unfold load
  rw [ends_bind]
  refine Ends.mono (ends_declareAll segments) ?_ fun _ _ _ => trivial
  rintro _ w₁ ⟨rs, hdeclared, hview⟩
  have hanswer : Ends (do
      AddressSpace.prepareLoad
      writeAll segments
      modifySpace AddressSpace.completeLoad
      return (← space).stackPointer) w₁ (fun stackPointer _ => stackPointer = userStackTop)
        fun _ _ => True :=
    Ends.last fun _ _ => Ends.last fun _ _ => Ends.last fun _ _ => rfl
  have hshows : Shows (do
      AddressSpace.prepareLoad
      writeAll segments
      modifySpace AddressSpace.completeLoad
      return (← space).stackPointer) w₁ fun v => v.load segments := by
    refine Shows.bind (g := fun v => (v.storeAll segments).completed)
      AddressSpace.shows_prepareLoad fun _ w₂ => ?_
    refine Shows.bind (g := View.completed) (shows_writeAll segments) fun _ w₃ => ?_
    refine Shows.bind (g := id) (Shows.modifySpace ?_
      (AddressSpace.view_completeLoad w₃.space w₃.kernel.memory)) fun _ w₄ =>
        Shows.bindSpace (Shows.pure w₄.space.stackPointer)
    exact (AddressSpace.path_applyPermissions w₃.space.regions.regions (w := w₃)).grows.frames
  refine Ends.mono (hanswer.and hshows) ?_ fun _ _ _ => trivial
  rintro _ w' ⟨hstack, -, hafter⟩
  exact ⟨hstack, rs, hdeclared, fun hnodup => by rw [hafter hnodup, hview]⟩

/-- What a space is an image of can be read off its view. -/
theorem isImage_of_view {s : AddressSpace} {m : Memory} {v : View}
    (hdeclared : Declares segments v.regions.regions) (hempty : ∀ p, v.pages p = none)
    (h : s.view m = v.load segments) : IsImage segments s m := by
  have hregions : s.regions = v.regions :=
    (congrArg View.regions h).trans (View.regions_load v segments)
  have hpages : ∀ p, (s.table.find? p).map (fun e => (e.flags, m.contents e.frame)) =
      if p ∈ AddressSpace.loadPages v.regions then
        some (flagsAt segments p, View.patchAll .zero p.start.val segments)
      else none := by
    intro p
    rw [← hdeclared.declaredFlags_eq]
    exact (congrFun (congrArg View.pages h) p).trans (View.pages_load hempty segments p)
  have hmapped : ∀ {p e}, s.table.find? p = some e →
      (e.flags, m.contents e.frame) =
        (flagsAt segments p, View.patchAll .zero p.start.val segments) := by
    intro p e he
    have hpage := hpages p
    rw [he] at hpage
    split at hpage
    · exact Option.some.inj hpage
    · cases hpage
  refine
    { declared := hregions ▸ hdeclared
      loaded := (congrArg View.loaded h).trans (View.loaded_load v segments)
      maps_iff := fun p => ?_, flags := fun p e he => (Prod.mk.inj (hmapped he)).1
      bytes := fun a e he => ?_ }
  · have hsome := congrArg Option.isSome (hpages p)
    rw [Option.isSome_map] at hsome
    rw [hsome, hregions, ← List.any_eq_true, ← hdeclared.any_covers,
      ← AddressSpace.mem_loadPages_iff]
    split
    · next hmem => exact iff_of_true rfl hmem
    · next hmem => exact iff_of_false Bool.false_ne_true hmem
  · have hsplit := a.page_start_add_offset
    rw [(Prod.mk.inj (hmapped he)).2, View.byte_patchAll _ a.offset_lt, hsplit, Contents.byte_zero]
    rfl

/-- **Starting a program**: the process has its image, in frames that were free. -/
theorem ends_start {k : Kernel} {live : List AddressSpace} {held : List Block} {tally : Tally}
    (h : Custody k live held tally) (segments : List Segment) (entryPoint : VirtAddr) :
    Ends (start segments entryPoint) k
      (fun p k' => ∃ s, p.space = some s ∧ p.entryPoint = entryPoint ∧
        p.stackPointer = userStackTop ∧ IsImage segments s k'.memory ∧ s.table.WellFormed ∧
        k'.allocator.freeFrames + s.table.entries.length = k.allocator.freeFrames)
      fun _ _ => True := by
  unfold start
  rw [ends_bind]
  refine AddressSpace.ends_create (fun heap => ?_) fun _ => trivial
  have hnew : Custody { k with heap, nextSpace := k.nextSpace + 1 } (.new k.nextSpace :: live) held
      tally := (h.withHeap heap).add rfl rfl
  rw [ends_bind, ends_attempt]
  refine Ends.mono ((wanders_load segments).and (ends_load segments)) ?_ ?_
  · rintro stackPointer w ⟨⟨hpath, -⟩, rfl, rs, hdeclared, hview⟩
    have hcustody := hnew.path (w := ⟨_, _⟩) hpath
    have hcost := hnew.freeFrames_path (w := ⟨_, _⟩) hpath
    have hnodup := hcustody.nodup_frames
    rw [List.flatMap_cons, List.nodup_append] at hnodup
    have hregions := RegionList.regions_foldl_push rs .empty
    rw [RegionList.regions_empty, List.nil_append] at hregions
    have himage := isImage_of_view (v := ((AddressSpace.new k.nextSpace).view k.memory).declare rs)
      (hregions.symm ▸ hdeclared) (AddressSpace.pages_view_new k.nextSpace k.memory)
      (hview hnodup.1)
    unfold Process.create Kernel.freshPid
    simp only [ends_bind, ends_modifyGet, Kernel.ends_record, ends_pure]
    exact ⟨w.space, rfl, trivial, trivial, himage, hcustody.tables w.space List.mem_cons_self, by
      simpa [AddressSpace.new] using hcost⟩
  · rintro e w -
    cases e with
    | failed e =>
      exact Ends.last (f := fun _ => Kernel.fail e) fun _ _ => trivial
    | halted halt => trivial

end Program

namespace Machine

/-- Reading answers what can be seen at the address, one byte for one. -/
theorem step_read_byte {m : Machine} {name : SpaceName} {s : AddressSpace} {a : VirtAddr}
    {e : PageEntry} (hs : m.space? name = some s) (he : s.table.find? a.page = some e) :
    (m.step (.space name (.read a 1))).1 =
      .ok (.bytes [(m.kernel.memory.contents e.frame).byte a.offset]) := by
  have hadd : a.add 0 = .ok a := VirtAddr.add_eq_ok_iff.mpr rfl
  have hread : s.read m.kernel.memory a 1 =
      .ok [(m.kernel.memory.contents e.frame).byte a.offset] := by
    rw [AddressSpace.read_eq]
    simp [View.read, View.obstacle?, View.obstacleAt?, View.byteAt, hadd, AddressSpace.view, he]
  have hends : Ends (answer (.space name (.read a 1))) m
      (fun reply _ => reply = .bytes [(m.kernel.memory.contents e.frame).byte a.offset])
      fun _ _ => False := by
    refine (ends_onSpace_iff hs).mpr ?_
    unfold answerSpace
    simp only [ends_bind, SpaceM.ends_space, ends_get, hread, ends_pure]
  rcases step_cases hends with ⟨reply, m', hstep, rfl⟩ | ⟨_, _, _, hfalse⟩
  · rw [hstep]
  · exact hfalse.elim

end Machine

namespace History

variable {h : History} {rs : List Request}

/-- **The image of a program.**  Let starting a program succeed at some point of a history from a
fresh machine.  The new process has the entry point that was asked for, its stack begins at the
top of user memory, and its space is an image of the program: mapped are the pages of the segments
and the first page of stack and of heap, the flags of a page are those of the last segment that
covers it, and from every mapped address one reads the byte of the last segment that has one
there, or zero.  As many frames fewer are free as pages are mapped. -/
theorem startProgram_image {m : Machine} (fresh : m.IsFresh) (run : Run ⟨m, []⟩ rs h)
    {segments : List Segment} {entryPoint : VirtAddr} {reply : Reply} {m' : Machine}
    (done : h.machine.step (.startProgram segments entryPoint) = (.ok reply, m')) :
    ∃ p s, reply = .processCreated h.machine.processes.length p ∧
      m'.processes = h.machine.processes ++ [p] ∧ p.entryPoint = entryPoint ∧
      p.stackPointer = userStackTop ∧ p.space = some s ∧
      Program.IsImage segments s m'.kernel.memory ∧
      (∀ a : VirtAddr, (s.table.find? a.page).isSome = true →
        (m'.step (.space (.process h.machine.processes.length) (.read a 1))).1 =
          .ok (.bytes [Program.byteAt segments a.val])) ∧
      ∃ pages : List Page, pages.Nodup ∧ (∀ q, q ∈ pages ↔ (s.table.find? q).isSome = true) ∧
        m'.kernel.allocator.freeFrames + pages.length = h.machine.kernel.allocator.freeFrames := by
  obtain ⟨room, -, hc⟩ := run.inCustody (inCustody_of_isFresh fresh)
  have hends : Ends (Machine.answer (.startProgram segments entryPoint)) h.machine
      (fun reply m' => ∃ p s, reply = .processCreated h.machine.processes.length p ∧
        m'.processes = h.machine.processes ++ [p] ∧ p.entryPoint = entryPoint ∧
        p.stackPointer = userStackTop ∧ p.space = some s ∧
        Program.IsImage segments s m'.kernel.memory ∧ s.table.WellFormed ∧
        m'.kernel.allocator.freeFrames + s.table.entries.length =
          h.machine.kernel.allocator.freeFrames) fun _ _ => True := by
    unfold Machine.answer
    simp only [ends_bind, Machine.liftM_eq, Machine.ends_onKernel, Machine.ends_addProcess,
      ends_pure]
    refine Ends.mono (Program.ends_start hc segments entryPoint) ?_ fun _ _ _ => trivial
    rintro p k ⟨s, hs, hentry, hstack, himage, htable, hcost⟩
    exact ⟨p, s, rfl, rfl, hentry, hstack, hs, himage, htable, hcost⟩
  rcases Machine.step_cases hends with ⟨_, _, hstep, p, s, hreply, hprocesses, hentry, hstack, hs,
    himage, htable, hcost⟩ | ⟨_, _, hstep, -⟩
  · cases hstep.symm.trans done
    have hspace : m'.space? (.process h.machine.processes.length) = some s := by
      simp [Machine.space?, hprocesses, hs]
    refine ⟨p, s, hreply, hprocesses, hentry, hstack, hs, himage, fun a ha => ?_,
      s.table.entries.map PageEntry.page, htable.pages, fun q => PageRow.mem_pages_iff, ?_⟩
    · obtain ⟨e, he⟩ := Option.isSome_iff_exists.mp ha
      rw [Machine.step_read_byte hspace he, himage.bytes a e he]
    · rw [List.length_map]
      exact hcost
  · cases hstep.symm.trans done

/-- Three segments: the second begins in the last page of the first, and the third lies in the
middle of the first, with a byte but no memory of its own. -/
def threeSegments : List Segment :=
  [⟨⟨0x1004, by decide⟩, [1, 2, 3], 0x1000, ⟨true, false, true⟩⟩,
    ⟨⟨0x2002, by decide⟩, [4, 5], 1, ⟨true, true, false⟩⟩,
    ⟨⟨0x1006, by decide⟩, [7], 0, ⟨true, false, false⟩⟩]

/-- An image over sixteen frames, in memory that somebody else has left bytes in: three segments in
two pages, and a page for stack and heap each. -/
theorem startProgram_image_sixteen_frames :
    ∃ rs h p s m', Run ⟨sixteenFrames, []⟩ rs h ∧ rs.length = 3 ∧
      h.machine.step (.startProgram threeSegments ⟨0x1004, by decide⟩) =
        (.ok (.processCreated 0 p), m') ∧ p.space = some s ∧
      Program.IsImage threeSegments s m'.kernel.memory ∧
      (m'.step (.space (.process 0) (.read ⟨0x1005, by decide⟩ 1))).1 = .ok (.bytes [2]) ∧
      (m'.step (.space (.process 0) (.read ⟨0x1006, by decide⟩ 1))).1 = .ok (.bytes [7]) ∧
      (m'.step (.space (.process 0) (.read ⟨0x2001, by decide⟩ 1))).1 = .ok (.bytes [0]) ∧
      h.machine.kernel.allocator.freeFrames = 13 ∧ m'.kernel.allocator.freeFrames = 9 ∧
      ∃ pages : List Page, pages.Nodup ∧ pages.length = 4 ∧
        ∀ q, q ∈ pages ↔ (s.table.find? q).isSome = true := by
  have run : Run ⟨sixteenFrames, []⟩ _ _ :=
    ((Run.start.next (.frames (.allocate 1)) trivial (by decide +kernel)).next
      (.frames (.poke ⟨0x2000, by decide⟩ [9, 9, 9])) trivial (by decide +kernel)).next
      (.frames (.free ⟨2, by decide⟩)) ⟨⟨⟨2, by decide⟩, 1⟩, by decide +kernel, rfl⟩
        (by decide +kernel)
  obtain ⟨rs, h, run, hlength, hfree, hprocesses, hdone, hafter⟩ :
      ∃ rs h, Run ⟨sixteenFrames, []⟩ rs h ∧ rs.length = 3 ∧
        h.machine.kernel.allocator.freeFrames = 13 ∧ h.machine.processes.length = 0 ∧
        (h.machine.step (.startProgram threeSegments ⟨0x1004, by decide⟩)).1.isOk = true ∧
        (h.machine.step (.startProgram threeSegments
          ⟨0x1004, by decide⟩)).2.kernel.allocator.freeFrames = 9 :=
    ⟨_, _, run, rfl, by decide +kernel, by decide +kernel, by decide +kernel, by decide +kernel⟩
  obtain ⟨outcome, m', hstep⟩ : ∃ outcome m',
      h.machine.step (.startProgram threeSegments ⟨0x1004, by decide⟩) = (outcome, m') :=
    ⟨_, _, rfl⟩
  rw [hstep] at hdone hafter
  cases outcome with
  | error e => cases hdone
  | ok reply =>
      obtain ⟨p, s, rfl, -, -, -, hs, himage, hread, pages, hnodup, hpages, hcost⟩ :=
        startProgram_image isFresh_sixteenFrames run hstep
      simp only [hafter, hfree, hprocesses] at hcost hread
      have hmaps : ∀ g ∈ threeSegments, ∀ a : VirtAddr, g.covers a.page = true →
          (s.table.find? a.page).isSome = true :=
        fun g hg a ha => (himage.maps_iff a.page).mpr (Or.inl ⟨g, hg, ha⟩)
      rw [hprocesses] at hstep
      exact ⟨rs, h, p, s, m', run, hlength, hstep, hs, himage,
        hread _ (hmaps _ (List.mem_cons_self ..) _ (by decide)),
        hread _ (hmaps _ (List.mem_cons_self ..) _ (by decide)),
        hread _ (hmaps _ (List.mem_cons_self ..) _ (by decide)), hfree, hafter,
        pages, hnodup, by omega, hpages⟩

end History

end DemandPaging
