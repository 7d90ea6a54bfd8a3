import DemandPaging.Machine.Basic
import DemandPaging.Proofs.Filling

/-!
# All operations on a space are walks

The operations that were not looked at more closely elsewhere: declaring regions, writing,
loading a program, completing a load and resolving a fault, and in the end every request that
can be made of a space.
-/

namespace DemandPaging

open SpaceM

/-- **Wandering**: the operation walks, whatever it answers and whyever it aborts. -/
def Wanders {α : Type} (x : SpaceM α) (w : Workspace) : Prop :=
  Walks x w (fun _ _ => True) fun _ _ => True

variable {α β : Type} {w : Workspace} {x : SpaceM α}

theorem Walks.wanders {ok : α → Workspace → Prop} {ab : Abort → Workspace → Prop}
    (h : Walks x w ok ab) : Wanders x w :=
  h.mono (fun _ _ _ _ => trivial) fun _ _ _ _ => trivial

/-- Reporting a failure, other than by the report of a preparation. -/
theorem Walks.reporting {ok : α → Workspace → Prop} {e : Event}
    (h : Walks x w ok fun _ _ => True) (other : e.isPreparation = false) :
    Walks (x.reporting e) w ok fun _ _ => True := by
  unfold Walks
  rw [ends_reporting]
  refine Ends.mono h (fun _ _ h₁ => h₁) fun a w₁ h₁ => ?_
  cases a with
  | failed error =>
      exact ⟨h₁.1.trans (Workspace.Move.reported e other).path, h₁.2.1, trivial⟩
  | halted halt => exact h₁

namespace Wanders

theorem bind {f : α → SpaceM β} (h : Wanders x w) (hf : ∀ a w₁, Wanders (f a) w₁) :
    Wanders (x >>= f) w :=
  Walks.bind h fun a w₁ _ _ => hf a w₁

theorem pure (a : α) : Wanders (Pure.pure a) w := Walks.pure trivial

theorem fail (e : MemoryError) : Wanders (onKernel (Kernel.fail (α := α) e)) w :=
  ⟨.refl w, fun hbreak => hbreak, trivial⟩

theorem record {e : Event} (other : e.isPreparation = false) :
    Wanders (onKernel (Kernel.record e)) w := Walks.record other trivial

theorem bindSpace {f : AddressSpace → SpaceM α} (h : Wanders (f w.space) w) :
    Wanders (space >>= f) w := h

theorem bindGet {f : Workspace → SpaceM α} (h : Wanders (f w) w) : Wanders (get >>= f) w := h

end Wanders

namespace AddressSpace

theorem wanders_declareRegion (a : VirtAddr) (size : Nat) (permission : Permission) :
    Wanders (declareRegion a size permission) w := by
  unfold Wanders Walks declareRegion
  simp only [liftM_eq, ends_bind, ends_space, ends_onKernel, ends_ite, Kernel.ends_halt,
    Kernel.ends_orFail, Kernel.ends_record, ends_modifySpace]
  split
  · exact ⟨.refl w, fun hbreak => hbreak, trivial⟩
  · next hopen =>
      cases hdeclare : Region.declare a size permission with
      | error e => exact ⟨.refl w, fun hbreak => hbreak, trivial⟩
      | ok r =>
          have hasked : w.Path ((w.report (.regionDeclared r)).withKernel
              ((w.report (.regionDeclared r)).kernel.asked w.space.regions.wanted)) :=
            (Workspace.Move.reported _ rfl).path.trans (Workspace.Move.asked _).path
          simp only [Kernel.ends_claim]
          split
          · have hdeclared := Workspace.Move.declared
              (w := (w.report (.regionDeclared r)).withKernel
                ((w.report (.regionDeclared r)).kernel.asked w.space.regions.wanted)) r
              (Bool.eq_false_iff.mpr hopen)
            exact ⟨hasked.trans hdeclared.path, trivial⟩
          · exact ⟨hasked, fun hbreak => hbreak, trivial⟩

/-- Applying permissions region after region is a path. -/
theorem path_applyPermissions :
    ∀ (rs : List Region) {w : Workspace}, w.Path (w.withTable (applyPermissions w.space.table rs))
  | [], w => .refl w
  | r :: rest, w => by
      have hmove : w.Move (w.withTable (w.space.table.setFlagsWhere r.covers r.flags)) := by
        refine .recoloured _ (fun e => if r.covers e.page then r.flags else e.flags) ?_ rfl rfl
        rw [PageTable.entries_setFlagsWhere]
        refine List.map_congr_left fun e _ => ?_
        split
        · rfl
        · rfl
      exact hmove.path.trans (path_applyPermissions rest)

theorem wanders_completeLoad : Wanders (modifySpace completeLoad) w :=
  Walks.modifySpace (path_applyPermissions w.space.regions.regions) trivial

/-- The frame of a piece is one of the space's own. -/
theorem exists_of_piece {s : AddressSpace} {a : VirtAddr} {done remaining : Nat}
    {p : Frame × Nat × Nat} (h : s.piece a done remaining = .ok p) :
    ∃ e ∈ s.table.entries, e.frame = p.1 := by
  unfold piece at h
  split at h
  · cases h
  · split at h
    · cases h
    · next e hlookup =>
        cases h
        exact ⟨e, (PageRow.mem_of_find? hlookup).1, rfl⟩

theorem not_breaksOwnership_of_piece {s : AddressSpace} {a : VirtAddr} {done remaining : Nat}
    {e : Abort} (h : s.piece a done remaining = .error e) : ¬ e.BreaksOwnership := by
  unfold piece at h
  split at h
  · next halt hadd =>
      cases h
      exact VirtAddr.not_breaksOwnership_of_add hadd
  · split at h
    · cases h
      exact fun hbreak => hbreak
    · cases h

theorem not_breaksOwnership_of_readFrom {s : AddressSpace} {m : Memory} {a : VirtAddr}
    {done remaining : Nat} {e : Abort} (h : s.readFrom m a done remaining = .error e) :
    ¬ e.BreaksOwnership := by
  induction done, remaining using readFrom.induct s m a generalizing e with
  | case1 done =>
      rw [readFrom, dif_pos rfl] at h
      cases h
  | case2 done remaining hremaining e' hpiece =>
      rw [readFrom, dif_neg hremaining] at h
      split at h
      · next hpiece' =>
          cases h
          exact not_breaksOwnership_of_piece hpiece'
      · next p hpiece' =>
          rw [hpiece] at hpiece'
          cases hpiece'
  | case3 done remaining hremaining p hpiece e' hrest ih =>
      rw [readFrom, dif_neg hremaining] at h
      split at h
      · next hpiece' =>
          rw [hpiece] at hpiece'
          cases hpiece'
      · next p' hpiece' =>
          obtain rfl : p = p' := Except.ok.inj (hpiece.symm.trans hpiece')
          rw [hrest] at h
          cases h
          exact ih hrest
  | case4 done remaining hremaining p hpiece bytes hrest ih =>
      rw [readFrom, dif_neg hremaining] at h
      split at h
      · next hpiece' =>
          rw [hpiece] at hpiece'
          cases hpiece'
      · next p' hpiece' =>
          obtain rfl : p = p' := Except.ok.inj (hpiece.symm.trans hpiece')
          rw [hrest] at h
          cases h

/-- Writing piece after piece, by induction on the pieces. -/
theorem wanders_writeFrom (s : AddressSpace) (a : VirtAddr) (done : Nat) (bytes : List UInt8) :
    ∀ {w : Workspace}, w.space = s → Wanders (onKernel (s.writeFrom a done bytes)) w := by
  induction done, bytes using writeFrom.induct s a with
  | case1 done =>
      intro w _
      rw [writeFrom, dif_pos rfl]
      exact Walks.pure trivial
  | case2 done bytes hbytes e hpiece =>
      intro w _
      rw [writeFrom, dif_neg hbytes]
      split
      · next e' hpiece' =>
          exact ⟨.refl w, not_breaksOwnership_of_piece hpiece', trivial⟩
      · next p hpiece' =>
          rw [hpiece] at hpiece'
          cases hpiece'
  | case3 done bytes hbytes p hpiece ih =>
      intro w hw
      rw [writeFrom, dif_neg hbytes]
      split
      · next e hpiece' =>
          rw [hpiece] at hpiece'
          cases hpiece'
      · next p' hpiece' =>
          obtain rfl : p = p' := Except.ok.inj (hpiece.symm.trans hpiece')
          -- each piece lies in a frame of the space itself
          obtain ⟨e, hown, hframe⟩ := exists_of_piece hpiece
          rw [← hw] at hown
          have hmove := Workspace.Move.stored e
            ((w.kernel.memory.contents p.1).overwrite p.2.1 (bytes.take p.2.2)) hown
          rw [hframe] at hmove
          have hrest := ih (w := w.store p.1
            ((w.kernel.memory.contents p.1).overwrite p.2.1 (bytes.take p.2.2))) hw
          unfold Wanders Walks at hrest ⊢
          simp only [ends_onKernel, ends_bind, Kernel.writeFrame, ends_modify] at hrest ⊢
          exact Ends.mono hrest (fun _ _ h => ⟨hmove.path.trans h.1, trivial⟩)
            fun _ _ h => ⟨hmove.path.trans h.1, h.2⟩

end AddressSpace

namespace Program

theorem wanders_declareAll : ∀ (segments : List Segment) {w : Workspace},
    Wanders (declareAll segments) w
  | [], _ => .pure ()
  | g :: rest, _ =>
      .bind (AddressSpace.wanders_declareRegion g.address g.size g.permission) fun _ _ =>
        wanders_declareAll rest

theorem wanders_writeAll : ∀ (segments : List Segment) {w : Workspace},
    Wanders (writeAll segments) w
  | [], _ => .pure ()
  | g :: rest, w =>
      .bindSpace (.bind (AddressSpace.wanders_writeFrom w.space g.address 0 g.bytes rfl)
        fun _ _ => wanders_writeAll rest)

theorem wanders_load (segments : List Segment) : Wanders (load segments) w :=
  .bind (wanders_declareAll segments) fun _ _ =>
    .bind AddressSpace.walks_prepareLoad.wanders fun _ _ =>
      .bind (wanders_writeAll segments) fun _ _ =>
        .bind AddressSpace.wanders_completeLoad fun _ w₄ =>
          .bindSpace (.pure w₄.space.stackPointer)

end Program

namespace PageFault

theorem walks_checkAccess (access : Access) (flags : EntryFlags) (a : VirtAddr) :
    Walks (onKernel (checkAccess access flags a)) w (fun _ w' => w' = w) fun _ _ => True := by
  unfold Walks checkAccess
  simp only [ends_onKernel, ends_ite, ends_bind, Kernel.ends_record, Kernel.ends_fail, ends_pure]
  split
  · exact ⟨.refl w, trivial⟩
  · have hreport := Workspace.Move.reported (w := w) (.forbidden access a) rfl
    exact ⟨hreport.path, fun hbreak => hbreak, trivial⟩

/-- Growing stack or heap changes the bounds at most. -/
theorem move_grow (p : Page) (c : Coverage) :
    w.Move { w with space := w.space.grow p c } := by
  -- all branches are one move, with one bound changed or with none
  have hmove := fun b => Workspace.Move.settled (w := w) b w.space.loaded fun hl => hl
  unfold AddressSpace.grow
  split
  · exact hmove w.space.bounds
  · split
    · exact hmove _
    · exact hmove w.space.bounds
  · split
    · exact hmove _
    · exact hmove w.space.bounds

/-- The space maps the page to this frame, with these flags. -/
def Backs (p : Page) (b : Frame × EntryFlags) (w : Workspace) : Prop :=
  ⟨p, b.1, b.2⟩ ∈ w.space.table.entries

theorem walks_mapCovered {p : Page} {c : Coverage} (hp : ¬ w.Maps p) :
    Walks (AddressSpace.mapCovered p c) w (fun f => Backs p (f, c.flags)) fun _ _ => True := by
  unfold AddressSpace.mapCovered
  refine Walks.bind ((AddressSpace.walks_mapZeroed hp).mono (fun _ _ _ h => h)
    fun _ _ _ _ => trivial) ?_
  rintro f w₁ - ⟨-, hentries, -⟩
  refine Walks.bind (Walks.modifySpace (move_grow p c).path rfl) ?_
    (Q := fun _ w₂ => w₂.space = w₁.space.grow p c)
  rintro _ w₂ - hspace
  refine Walks.pure ?_
  -- growing leaves the table alone, so the new mapping is still in it
  have htable : w₂.space.table = w₁.space.table := by
    rw [hspace]
    unfold AddressSpace.grow
    split
    · rfl
    · split <;> rfl
    · split <;> rfl
  unfold Backs
  rw [htable]
  exact (PageRow.mem_of_find? ((hentries p).trans (if_pos rfl))).1

theorem walks_bringIn {access : Access} {a : VirtAddr} {c : Coverage} (ha : ¬ w.Maps a.page) :
    Walks (bringIn access a c) w (Backs a.page) fun _ _ => True := by
  unfold bringIn
  refine Walks.bind (walks_checkAccess access c.flags a) ?_
  rintro _ w₁ - rfl
  refine Walks.bind ((walks_mapCovered ha).reporting rfl) fun f w₂ _ hback => ?_
  exact Walks.bind (Walks.record (Q := fun _ => Backs a.page (f, c.flags)) rfl hback)
    fun _ w₃ _ hback₃ => Walks.pure hback₃

theorem walks_backing (access : Access) (a : VirtAddr) (c : Coverage) :
    Walks (backing access a c) w (Backs a.page) fun _ _ => True := by
  unfold backing
  refine Walks.bindSpace ?_
  split
  · next e hlookup =>
      obtain ⟨hmem, hpage⟩ := PageRow.mem_of_find? hlookup
      refine Walks.bind (Walks.record (Q := fun _ w' => w'.space = w.space) rfl rfl) ?_
      intro _ w₁ _ hspace
      refine Walks.pure ?_
      unfold Backs
      rw [hspace, ← hpage]
      exact hmem
  · next hlookup =>
      refine walks_bringIn ?_
      unfold Workspace.Maps
      rw [← PageRow.lookup_eq_find?]
      simp only [AddressSpace.lookup] at hlookup
      simp [hlookup]

theorem wanders_fillCache {a : VirtAddr} {f : Frame} {flags : EntryFlags}
    (h : Backs a.page (f, flags) w) : Wanders (fillCache a f flags) w := by
  unfold fillCache
  refine Wanders.bindSpace (Wanders.bind (Walks.reporting ?_ rfl) fun _ _ => .pure _)
  unfold Walks Kernel.cacheMapping
  simp only [ends_onKernel, ends_bind, ends_get, Kernel.ends_orFail, ends_modify,
    Kernel.ends_record, ends_pure]
  cases hinsert : w.kernel.cache.insert ⟨w.space.id, a.page, f, flags⟩ with
  | error e => exact ⟨.refl w, fun hbreak => hbreak, trivial⟩
  | ok placed =>
      -- what is cached is what the table says, and that is what the move asks for
      have hcached := Workspace.Move.cached ⟨a.page, f, flags⟩ placed.1 placed.2 h hinsert
      have hreport := Workspace.Move.reported
        (w := w.withKernel { w.kernel with cache := placed.2 }) (.cached placed.1 a.page f) rfl
      exact ⟨hcached.path.trans hreport.path, trivial⟩

theorem wanders_resolve (access : Access) (a : VirtAddr) : Wanders (resolve access a) w := by
  unfold resolve
  refine Wanders.bindSpace ?_
  split
  · exact Wanders.bind (.record rfl) fun _ _ => .fail _
  · next c _ =>
      refine Walks.bind (walks_backing access a c) ?_
      rintro ⟨f, flags⟩ w₁ - hback
      refine Walks.bind (walks_checkAccess access flags a) ?_
      rintro _ w₂ - rfl
      exact wanders_fillCache hback

end PageFault

/-- **Every request to a space walks.** -/
theorem Machine.wanders_answerSpace (r : SpaceRequest) : Wanders (Machine.answerSpace r) w := by
  cases r with
  | declareRegion a size permission =>
      exact .bind (AddressSpace.wanders_declareRegion a size permission) fun _ _ =>
        .bindSpace (.pure _)
  | prepareLoad =>
      exact .bind AddressSpace.walks_prepareLoad.wanders fun _ _ => .bindSpace (.pure _)
  | completeLoad => exact .bind AddressSpace.wanders_completeLoad fun _ _ => .bindSpace (.pure _)
  | stackPointer => exact .bindSpace (.pure _)
  | load segments => exact .bind (Program.wanders_load segments) fun _ _ => .pure _
  | activate => exact .bindSpace (.bind ⟨Workspace.Move.dropped.path, trivial⟩ fun _ _ => .pure _)
  | deactivate => exact .bindSpace (.bind ⟨Workspace.Move.dropped.path, trivial⟩ fun _ _ => .pure _)
  | coverage a => exact .bindSpace (.pure _)
  | physical a => exact .bindSpace (.pure _)
  | lookup a => exact .bindSpace (.pure _)
  | inspect => exact .bindSpace (.pure _)
  | read a count =>
      refine .bindSpace (.bindGet ?_)
      split
      · exact .pure _
      · next abort hread =>
          exact Walks.abort (AddressSpace.not_breaksOwnership_of_readFrom hread) trivial
  | write a bytes =>
      exact .bindSpace (.bind (AddressSpace.wanders_writeFrom w.space a 0 bytes rfl) fun _ _ =>
        .pure _)

end DemandPaging
