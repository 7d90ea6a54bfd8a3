import DemandPaging.Proofs.ErrorCodes
import DemandPaging.Proofs.Stages

/-!
# When the cache falls behind

Flags of a page are kept twice, in the page table and in what is cached of it, and completing a load
replaces them in the table alone.  So right after it the cache can say that a page may be written
which the table says may not (`Workspace.not_forall_cached_agree`).

**Completing is the only cause.**  Nothing else that can happen to a space changes the entry of a
page, once there is one (`AddressSpace.Extends`), and what a fault caches is what the table says by
then.  So whatever is cached of a space is confirmed by its page table, or the space was completed
after it was cached, and that changed the flags (`Workspace.Overtaken`).  The frame is right in any
case.

**How it is told.**  Completing gives the pages of regions the flags of the last region that covers
them, and no others.  What is cached falls behind exactly if its flags are not these.  Putting a
space on the processor, and taking it off, drops everything that is cached of it, and with that what
has fallen behind (`Workspace.Works.cached_after_completion`).
-/

namespace DemandPaging

namespace AddressSpace

variable {s s' s₁ : AddressSpace} {p : Page} {e : CacheEntry}

/-- **Confirming** what is cached: the page table says the same. -/
def Confirms (s : AddressSpace) (e : CacheEntry) : Prop :=
  s.table.find? e.page = some ⟨e.page, e.frame, e.flags⟩

/-! ### Pages keep their entries -/

/-- **Extending** a space: regions and mapped pages may join the others, and no entry of the page
table changes. -/
structure Extends (s s' : AddressSpace) : Prop where
  id : s'.id = s.id
  regions : ∀ r ∈ s.regions.regions, r ∈ s'.regions.regions
  entries : ∀ p e, s.table.find? p = some e → s'.table.find? p = some e

namespace Extends

theorem refl (s : AddressSpace) : s.Extends s := ⟨rfl, fun _ h => h, fun _ _ h => h⟩

theorem trans (h : s.Extends s₁) (h' : s₁.Extends s') : s.Extends s' where
  id := h'.id.trans h.id
  regions r hr := h'.regions r (h.regions r hr)
  entries p e hp := h'.entries p e (h.entries p e hp)

theorem of_eq (id : s'.id = s.id) (regions : s'.regions = s.regions)
    (table : s'.table = s.table) : s.Extends s' :=
  ⟨id, fun _ h => regions ▸ h, fun _ _ h => table ▸ h⟩

theorem confirms (h : s.Extends s') (he : s.Confirms e) : s'.Confirms e := h.entries _ _ he

/-- A page more. -/
theorem insert {t : PageTable} {d : PageEntry} {granted : Bool} {grown : Option Nat}
    (h : s.table.insert granted d = .ok (t, grown)) : s.Extends { s with table := t } := by
  exact ⟨rfl, fun _ hr => hr, fun _ _ hp => PageTable.find?_insert_of_eq_some h hp⟩

end Extends

/-- However the operation ends, the space has been extended. -/
def Extending {α : Type} (x : SpaceM α) : Prop :=
  ∀ w, Ends x w (fun _ w' => w.space.Extends w'.space) fun _ w' => w.space.Extends w'.space

namespace Extending

variable {α β : Type}

theorem pure (a : α) : Extending (Pure.pure a) := fun w => .refl w.space

/-- One operation after another. -/
theorem bind {x : SpaceM α} {f : α → SpaceM β} (hx : Extending x) (hf : ∀ a, Extending (f a)) :
    Extending (x >>= f) := by
  intro w
  rw [ends_bind]
  refine Ends.mono (hx w) (fun a w₁ h₁ => ?_) fun _ _ h => h
  exact Ends.mono (hf a w₁) (fun _ _ h => h₁.trans h) fun _ _ h => h₁.trans h

theorem space : Extending SpaceM.space := fun w => .refl w.space

/-- Kernel operations do not concern the space. -/
theorem onKernel (x : KernelM α) : Extending (SpaceM.onKernel x) := by
  intro w
  rw [SpaceM.ends_onKernel]
  exact Ends.mono (ends_self x w.kernel) (fun _ _ _ => .refl _) fun _ _ _ => .refl _

theorem modifySpace {f : AddressSpace → AddressSpace} (hf : ∀ s : AddressSpace, s.Extends (f s)) :
    Extending (SpaceM.modifySpace f) := fun w => hf w.space

theorem ite {c : Prop} [Decidable c] {x y : SpaceM α} (hx : Extending x) (hy : Extending y) :
    Extending (if c then x else y) := by
  split
  · exact hx
  · exact hy

/-- Cleaning up is the kernel's affair. -/
theorem cleaningUp {x : SpaceM α} (hx : Extending x) (undo : KernelM Unit) :
    Extending (x.cleaningUp undo) := by
  intro w
  rw [SpaceM.ends_cleaningUp]
  refine Ends.mono (hx w) (fun _ _ h => h) fun e w' h => ?_
  cases e with
  | failed e => exact Ends.mono (ends_self undo w'.kernel) (fun _ _ _ => h) fun _ _ _ => h
  | halted halt => exact h

end Extending

open SpaceM Extending

theorem extending_addEntry (d : PageEntry) : Extending (addEntry d) := by
  intro w
  unfold addEntry
  simp only [liftM_eq, ends_bind, ends_space, ends_onKernel, Kernel.ends_ask, Kernel.ends_orAbort]
  split
  · next placed hinsert =>
      have hextends := Extends.insert hinsert
      obtain ⟨t, grown⟩ := placed
      cases grown with
      | none => exact hextends
      | some n => exact hextends
  · exact .refl w.space

theorem extending_mapZeroed (p : Page) (flags : EntryFlags) : Extending (mapZeroed p flags) := by
  refine bind (onKernel _) fun found => ?_
  cases found with
  | none => exact onKernel _
  | some f =>
      exact bind (onKernel _) fun _ =>
        bind (cleaningUp (extending_addEntry _) _) fun _ => .pure _

theorem extending_ensureMapped (p : Page) (flags : EntryFlags) :
    Extending (ensureMapped p flags) := by
  refine bind space fun s => ?_
  split
  · exact .pure _
  · exact bind (extending_mapZeroed p flags) fun _ => .pure _

theorem extending_backPagesFrom (r : Region) :
    ∀ (i n : Nat) (h : i + n ≤ r.pageCount), Extending (backPagesFrom r i n h)
  | _, 0, _ => .pure _
  | i, n + 1, _ => bind (extending_ensureMapped _ _) fun _ => extending_backPagesFrom r (i + 1) n _

theorem extending_backRegions : ∀ rs : List Region, Extending (backRegions rs)
  | [] => .pure _
  | r :: rest => bind (extending_backPagesFrom r 0 _ _) fun _ => extending_backRegions rest

/-- **Preparing** leaves the entries that there are. -/
theorem extending_prepareLoad : Extending prepareLoad := by
  unfold prepareLoad
  refine bind (modifySpace fun _ => .of_eq rfl rfl rfl) fun _ => bind space fun s => ?_
  refine bind (extending_backRegions _) fun _ => ?_
  refine bind (extending_ensureMapped _ _) fun _ => ?_
  refine bind (modifySpace fun _ => .of_eq rfl rfl rfl) fun _ => bind space fun s => ?_
  refine bind (extending_ensureMapped _ _) fun _ => ?_
  refine bind (modifySpace fun _ => .of_eq rfl rfl rfl) fun _ => bind space fun s => ?_
  exact onKernel _

theorem extending_declareRegion (a : VirtAddr) (size : Nat) (permission : Permission) :
    Extending (declareRegion a size permission) := by
  unfold declareRegion
  refine bind space fun s => ?_
  have hdeclare : Extending (do
      let r ← SpaceM.onKernel (Kernel.orFail (Region.declare a size permission))
      SpaceM.onKernel (Kernel.record (.regionDeclared r))
      let s ← SpaceM.space
      SpaceM.onKernel (Kernel.claim s.regions.wanted)
      SpaceM.modifySpace fun s => { s with regions := s.regions.push r }) :=
    bind (onKernel _) fun r => bind (onKernel _) fun _ => bind space fun _ =>
      bind (onKernel _) fun _ =>
        modifySpace fun s => ⟨rfl, fun _ h => List.mem_append_left _ h, fun _ _ h => h⟩
  exact ite (bind (onKernel _) fun _ => hdeclare) hdeclare

/-- **Every request but to load or to complete** extends the space. -/
theorem extending_answerSpace {r : SpaceRequest} (ordinary : r.isOrdinary = true ∨ r = .prepareLoad)
    (hr : r ≠ .completeLoad) : Extending (Machine.answerSpace r) := by
  cases r with
  | declareRegion a size permission =>
      exact bind (extending_declareRegion a size permission) fun _ => bind space fun _ => .pure _
  | prepareLoad => exact bind extending_prepareLoad fun _ => bind space fun _ => .pure _
  | completeLoad => exact absurd rfl hr
  | load segments => simp [SpaceRequest.isOrdinary] at ordinary
  | activate => exact bind space fun s => bind (onKernel _) fun _ => .pure _
  | deactivate => exact bind space fun s => bind (onKernel _) fun _ => .pure _
  | read a count =>
      refine bind space fun s => bind (fun w => .refl w.space) fun w₁ => ?_
      split
      · exact .pure _
      · exact fun w => .refl w.space
  | write a bytes => exact bind space fun s => bind (onKernel _) fun _ => .pure _
  | _ => exact bind space fun _ => .pure _

end AddressSpace

/-! ### What is cached -/

theorem MappingCache.mem_invalidate_iff {c : MappingCache} {i : SpaceId} {e : CacheEntry} :
    e ∈ (c.invalidate i).entries ↔ e ∈ c.entries ∧ e.space ≠ i := by
  rw [entries_invalidate, List.mem_filter]
  simp

namespace Workspace

/-- **Shedding**: nothing is cached that was not cached before. -/
def Sheds (w w' : Workspace) : Prop :=
  ∀ e ∈ w'.kernel.cache.entries, e ∈ w.kernel.cache.entries

theorem Sheds.of_eq {w w' : Workspace} (h : w'.kernel.cache = w.kernel.cache) : w.Sheds w' :=
  fun _ he => h ▸ he

theorem sheds_invalidate (w : Workspace) (i : SpaceId) :
    w.Sheds (w.withCache (w.kernel.cache.invalidate i)) :=
  fun _ he => (MappingCache.mem_invalidate_iff.mp he).1

end Workspace

open AddressSpace SpaceM in
/-- **Requests cache nothing**; what is cached is left alone or, for the space, dropped. -/
theorem Machine.ends_answerSpace_sheds (r : SpaceRequest) (w : Workspace) :
    Ends (answerSpace r) w (fun _ w' => w.Sheds w') fun _ w' => w.Sheds w' := by
  have hretains : RetainsCache (answerSpace r) →
      Ends (answerSpace r) w (fun _ w' => w.Sheds w') fun _ w' => w.Sheds w' :=
    fun h => Ends.mono (h w) (fun _ _ => .of_eq) fun _ _ => .of_eq
  cases r with
  | declareRegion a size permission =>
      exact hretains ((retains_declareRegion a size permission).bind fun _ =>
        Retains.space.bind fun _ => retains_pure _)
  | prepareLoad =>
      exact hretains (retains_prepareLoad.bind fun _ => Retains.space.bind fun _ => retains_pure _)
  | completeLoad =>
      exact hretains ((Retains.modifySpace _).bind fun _ => Retains.space.bind fun _ =>
        retains_pure _)
  | load segments => exact hretains ((Program.retains_load segments).bind fun _ => retains_pure _)
  | activate => exact w.sheds_invalidate w.space.id
  | deactivate => exact w.sheds_invalidate w.space.id
  | read a count =>
      refine hretains (Retains.space.bind fun s => retains_get.bind fun w₁ => ?_)
      split
      · exact retains_pure _
      · exact retains_throw _
  | write a bytes =>
      exact hretains (Retains.space.bind fun s =>
        (Retains.onKernel (retains_writeFrom (fun _ _ => rfl) s a 0 bytes)).bind fun _ =>
          retains_pure _)
  | _ => exact hretains (Retains.space.bind fun _ => retains_pure _)

namespace PageFault

variable {access : Access} {a : VirtAddr} {r : Except MemoryError Unit} {s s' : AddressSpace}
  {k k' : Kernel}

/-- **A fault** leaves the entries that there are. -/
theorem extends_of_eq (answered : handle access a (.within s) k = .ok (r, .within s') k') :
    s.Extends s' := by
  have hhandles := handles_of_eq answered
  refine ⟨hhandles.cache.1, ?_, fun p e hp => hhandles.extends hp⟩
  rcases space_cases_of_eq answered with rfl | ⟨c, hgains⟩
  · exact fun _ hr => hr
  · exact fun _ hr => hgains.regions ▸ hr

/-- **What a fault caches** the page table confirms. -/
theorem cached_of_eq (answered : handle access a (.within s) k = .ok (r, .within s') k') :
    ∀ e ∈ k'.cache.entries, e ∈ k.cache.entries ∨ (e.space = s.id ∧ s'.Confirms e) := by
  intro e he
  obtain ⟨-, hsame | ⟨d, slot, hfind, placed⟩⟩ := (handles_of_eq answered).cache
  · exact Or.inl ((congrArg MappingCache.entries hsame) ▸ he)
  · rcases MappingCache.mem_of_insert placed he with rfl | hold
    · refine Or.inr ⟨rfl, ?_⟩
      show s'.table.find? a.page = some ⟨a.page, d.frame, d.flags⟩
      rw [hfind, ← (PageRow.mem_of_find? hfind).2]
    · exact Or.inl hold

end PageFault

namespace Workspace

/-! ### Deeds -/

/-- **Deeds**: a request about a space, a fault within it, or what others do meanwhile. -/
inductive Deed where
  | asked (r : SpaceRequest)
  | faulted (access : Access) (a : VirtAddr)
  | aside

/-- Completing the load. -/
def Deed.completion : Deed := .asked .completeLoad

/-- The workspace once the load is completed. -/
def completed (w : Workspace) : Workspace := { w with space := w.space.completeLoad }

/-- **What a deed may do.**  Requests and faults may fail.  Others do not touch the space and cache
nothing for it. -/
inductive Does (w : Workspace) : Deed → Workspace → Prop where
  | asked {r : SpaceRequest} {w' : Workspace} (allowed : r.isOrdinary = true ∨ r = .prepareLoad)
      (answered : (∃ reply, Machine.answerSpace r w = .ok reply w') ∨
        ∃ e, Machine.answerSpace r w = .error e w') : Does w (.asked r) w'
  | faulted {access : Access} {a : VirtAddr} {r : Except MemoryError Unit} {w' : Workspace}
      (handled : PageFault.handle access a (.within w.space) w.kernel =
        .ok (r, .within w'.space) w'.kernel) : Does w (.faulted access a) w'
  | aside {k : Kernel}
      (cache : ∀ e ∈ k.cache.entries, e.space = w.space.id → e ∈ w.kernel.cache.entries) :
      Does w .aside (w.withKernel k)

/-- **Works**: one deed after another. -/
inductive Works (w₀ : Workspace) : List Deed → Workspace → Prop where
  | start : Works w₀ [] w₀
  | next {ds : List Deed} {w w' : Workspace} {d : Deed} (run : Works w₀ ds w) (does : w.Does d w') :
      Works w₀ (ds ++ [d]) w'

/-- **Effects** of a deed: the space is extended and no more is cached of it than before, or than it
confirms; or the load is completed. -/
inductive Effect (w : Workspace) : Deed → Workspace → Prop where
  | kept {d : Deed} {w' : Workspace} (space : w.space.Extends w'.space)
      (cache : ∀ e ∈ w'.kernel.cache.entries, e.space = w.space.id →
        e ∈ w.kernel.cache.entries ∨ w'.space.Confirms e) : Effect w d w'
  | completed : Effect w .completion w.completed

/-- **Overtaken**: what is cached was confirmed when the load was completed, and not any more
afterwards. -/
def Overtaken (w₀ : Workspace) (ds : List Deed) (w : Workspace) (e : CacheEntry) : Prop :=
  ∃ before after w₁, ds = before ++ .completion :: after ∧ Works w₀ before w₁ ∧
    e ∈ w₁.kernel.cache.entries ∧ w₁.space.Confirms e ∧ ¬ w₁.completed.space.Confirms e ∧
    Works w₁.completed after w

variable {w w' w₀ : Workspace} {d : Deed} {ds : List Deed} {e : CacheEntry}

/-- **Every deed** has one of the two effects. -/
theorem Does.effect (h : w.Does d w') : w.Effect d w' := by
  cases h with
  | @asked r w' allowed answered =>
      by_cases hr : r = .completeLoad
      · subst hr
        have hcompletes : Ends (Machine.answerSpace .completeLoad) w
            (fun _ w' => w' = w.completed) fun _ w' => w' = w.completed := rfl
        rcases answered with ⟨reply, hok⟩ | ⟨e, herror⟩
        · obtain rfl := hcompletes.of_ok hok
          exact .completed
        · obtain rfl := hcompletes.of_error herror
          exact .completed
      · have hends := (AddressSpace.extending_answerSpace allowed hr w).and
          (Machine.ends_answerSpace_sheds r w)
        obtain ⟨hextends, hsheds⟩ : w.space.Extends w'.space ∧ w.Sheds w' := by
          rcases answered with ⟨reply, hok⟩ | ⟨e, herror⟩
          · exact hends.of_ok hok
          · exact hends.of_error herror
        exact .kept hextends fun e he _ => Or.inl (hsheds e he)
  | faulted handled =>
      refine .kept (PageFault.extends_of_eq handled) fun e he _ => ?_
      exact (PageFault.cached_of_eq handled e he).imp_right And.right
  | aside cache => exact .kept (.refl w.space) fun e he hid => Or.inl (cache e he hid)

/-- A fault within another space is what others do. -/
theorem does_aside_of_fault {access : Access} {a : VirtAddr} {r : Except MemoryError Unit}
    {s s' : AddressSpace} {k' : Kernel} (other : s.id ≠ w.space.id)
    (handled : PageFault.handle access a (.within s) w.kernel = .ok (r, .within s') k') :
    w.Does .aside (w.withKernel k') := by
  refine .aside fun e he hid => ?_
  rcases PageFault.cached_of_eq handled e he with hold | ⟨hown, -⟩
  · exact hold
  · exact absurd (hown.symm.trans hid) other

end Workspace

namespace AddressSpace

variable {s s' s₁ : AddressSpace} {e : CacheEntry}

/-- **Continuing** a space: it has the number it had, regions stay, and mapped pages stay with their
frames. -/
structure Continues (s s' : AddressSpace) : Prop where
  id : s'.id = s.id
  regions : ∀ r ∈ s.regions.regions, r ∈ s'.regions.regions
  frames : ∀ p d, s.table.find? p = some d → ∃ d', s'.table.find? p = some d' ∧ d'.frame = d.frame

theorem Continues.refl (s : AddressSpace) : s.Continues s :=
  ⟨rfl, fun _ h => h, fun _ d h => ⟨d, h, rfl⟩⟩

theorem Continues.trans (h : s.Continues s₁) (h' : s₁.Continues s') : s.Continues s' where
  id := h'.id.trans h.id
  regions r hr := h'.regions r (h.regions r hr)
  frames p d hp := by
    obtain ⟨d₁, hp₁, hframe₁⟩ := h.frames p d hp
    obtain ⟨d₂, hp₂, hframe₂⟩ := h'.frames p d₁ hp₁
    exact ⟨d₂, hp₂, hframe₂.trans hframe₁⟩

theorem Extends.continues (h : s.Extends s') : s.Continues s' :=
  ⟨h.id, h.regions, fun p d hp => ⟨d, h.entries p d hp, rfl⟩⟩

theorem continues_completeLoad (s : AddressSpace) : s.Continues s.completeLoad := by
  refine ⟨rfl, fun _ h => h, fun p d hp => ?_⟩
  rw [find?_completeLoad, hp]
  exact ⟨_, rfl, rfl⟩

/-- A page whose entry changes when the load is completed lies in a region. -/
theorem exists_covers_of_completeLoad (before : s.Confirms e)
    (after : ¬ s.completeLoad.Confirms e) : ∃ r ∈ s.regions.regions, r.covers e.page = true := by
  cases hlast : s.regions.lastCovering? e.page with
  | some r =>
      unfold RegionList.lastCovering? at hlast
      exact ⟨r, List.mem_reverse.mp (List.mem_of_find?_eq_some hlast),
        by simpa using List.find?_some hlast⟩
  | none =>
      refine absurd ?_ after
      unfold Confirms at before ⊢
      rw [find?_completeLoad, before, hlast]
      rfl

end AddressSpace

namespace Workspace

variable {w w' w₀ : Workspace} {d : Deed} {ds : List Deed} {e : CacheEntry}

theorem Effect.continues (h : w.Effect d w') : w.space.Continues w'.space := by
  cases h with
  | kept space cache => exact space.continues
  | completed => exact w.space.continues_completeLoad

/-- What a run keeps, by induction on its deeds. -/
theorem Works.continues (run : Works w₀ ds w) : w₀.space.Continues w.space := by
  induction run with
  | start => exact .refl _
  | next _ does ih => exact ih.trans does.effect.continues

namespace Overtaken

theorem next (h : Overtaken w₀ ds w e) (does : w.Does d w') : Overtaken w₀ (ds ++ [d]) w' e := by
  obtain ⟨before, after, w₁, rfl, hbefore, hcached, hconfirmed, hlost, hafter⟩ := h
  refine ⟨before, after ++ [d], w₁, by simp, hbefore, hcached, hconfirmed, hlost, ?_⟩
  exact hafter.next does

/-- Without a completion nothing is overtaken. -/
theorem completion_mem (h : Overtaken w₀ ds w e) : .completion ∈ ds := by
  obtain ⟨before, after, -, rfl, -⟩ := h
  exact List.mem_append_right _ List.mem_cons_self

/-- What has been overtaken has the right frame still. -/
theorem frame (h : Overtaken w₀ ds w e) :
    ∃ d, w.space.table.find? e.page = some d ∧ d.frame = e.frame := by
  obtain ⟨_, _, w₁, -, -, -, hconfirmed, -, hafter⟩ := h
  exact (w₁.space.continues_completeLoad.trans hafter.continues).frames _ _ hconfirmed

/-- Its page lies in a region. -/
theorem exists_covers (h : Overtaken w₀ ds w e) :
    ∃ r ∈ w.space.regions.regions, r.covers e.page = true := by
  obtain ⟨_, _, w₁, -, -, -, hconfirmed, hlost, hafter⟩ := h
  obtain ⟨r, hr, hcovers⟩ := AddressSpace.exists_covers_of_completeLoad hconfirmed hlost
  exact ⟨r, (w₁.space.continues_completeLoad.trans hafter.continues).regions r hr, hcovers⟩

end Overtaken

/-- **Accounted for**: whatever is cached of the space is confirmed, or overtaken. -/
def Accounted (w₀ : Workspace) (ds : List Deed) (w : Workspace) : Prop :=
  ∀ e ∈ w.kernel.cache.entries, e.space = w.space.id → w.space.Confirms e ∨ Overtaken w₀ ds w e

/-- **One deed** keeps account of what is cached. -/
theorem Accounted.next (h : Accounted w₀ ds w) (run : Works w₀ ds w) (does : w.Does d w') :
    Accounted w₀ (ds ++ [d]) w' := by
  intro e he hid
  cases does.effect with
  | kept space cache =>
      rw [space.id] at hid
      rcases cache e he hid with hold | hnew
      · exact (h e hold hid).imp space.confirms fun hovertaken => hovertaken.next does
      · exact Or.inl hnew
  | completed =>
      by_cases hafter : w.completed.space.Confirms e
      · exact Or.inl hafter
      · rcases h e he hid with hconfirmed | hovertaken
        · -- this is the completion that overtakes it
          exact Or.inr ⟨ds, [], w, rfl, run, he, hconfirmed, hafter, .start⟩
        · exact Or.inr (hovertaken.next does)

/-- **A run** keeps account of what is cached, by induction on its deeds. -/
theorem Works.accounted (run : Works w₀ ds w)
    (cold : ∀ e ∈ w₀.kernel.cache.entries, e.space ≠ w₀.space.id) : Accounted w₀ ds w := by
  induction run with
  | start => exact fun e he hid => absurd hid (cold e he)
  | next run does ih => exact ih.next run does

/-- **What is accounted for, once the load is completed**, has the frame that the page table has,
and its flags exactly if they are those of the last region that covers the page, should there be
one. -/
theorem Accounted.flags_iff (h : Accounted w₀ ds w) (he : e ∈ w.kernel.cache.entries)
    (hid : e.space = w.space.id) :
    ∃ d, w.completed.space.table.find? e.page = some d ∧ d.frame = e.frame ∧
      (d.flags = e.flags ↔
        ∀ r, w.space.regions.lastCovering? e.page = some r → r.flags = e.flags) := by
  have haccount := h e he hid
  -- completing changes the flags at most
  obtain ⟨d, hd, hframe⟩ : ∃ d, w.space.table.find? e.page = some d ∧ d.frame = e.frame :=
    haccount.elim (fun hconfirmed => ⟨_, hconfirmed, rfl⟩) Overtaken.frame
  refine ⟨_, (AddressSpace.find?_completeLoad _ _).trans (congrArg _ hd), hframe, ?_⟩
  cases hlast : w.space.regions.lastCovering? e.page with
  | some r => simp
  | none =>
      have hconfirmed : w.space.Confirms e := by
        apply haccount.resolve_right
        intro hovertaken
        obtain ⟨r, hr, hcovers⟩ := hovertaken.exists_covers
        exact List.find?_eq_none.mp hlast r (List.mem_reverse.mpr hr) hcovers
      obtain rfl := Option.some.inj (hd.symm.trans hconfirmed)
      simp

/-- **What is cached after completing a load.**  Let nothing be cached of a space, let anything be
done with it, and let the load be completed then, which leaves the cache as it is.  Whatever is
cached of the space has the frame that the page table has, and the flags as well exactly if they are
those of the last region that covers the page, should there be one.  If it has other flags, then it
has been overtaken by this completion or an earlier one; as long as there has been none, the page
table confirms all that is cached.  And putting the space on the processor, or taking it off, leaves
nothing of it in the cache. -/
theorem Works.cached_after_completion (run : Works w₀ ds w)
    (cold : ∀ e ∈ w₀.kernel.cache.entries, e.space ≠ w₀.space.id) :
    (∃ reply, Machine.answerSpace .completeLoad w = .ok reply w.completed) ∧
    (∀ e ∈ w.completed.kernel.cache.entries, e.space = w.completed.space.id →
      (∃ d, w.completed.space.table.find? e.page = some d ∧ d.frame = e.frame ∧
        (d.flags = e.flags ↔
          ∀ r, w.space.regions.lastCovering? e.page = some r → r.flags = e.flags)) ∧
      (w.completed.space.Confirms e ∨ Overtaken w₀ (ds ++ [.completion]) w.completed e)) ∧
    (.completion ∉ ds → ∀ e ∈ w.kernel.cache.entries, e.space = w.space.id → w.space.Confirms e) ∧
    ∀ r ∈ [SpaceRequest.activate, .deactivate], ∃ w',
      Machine.answerSpace r w.completed = .ok .done w' ∧ w'.space = w.completed.space ∧
      ∀ e ∈ w'.kernel.cache.entries, e.space ≠ w'.space.id := by
  have hcompletes : w.Does .completion w.completed := .asked (Or.inl rfl) (Or.inl ⟨_, rfl⟩)
  have hbefore := run.accounted cold
  have hafter := hbefore.next run hcompletes
  refine ⟨⟨_, rfl⟩, fun e he hid => ⟨hbefore.flags_iff he hid, hafter e he hid⟩, ?_, ?_⟩
  · intro hnone e he hid
    apply (hbefore e he hid).resolve_right
    exact fun hovertaken => hnone hovertaken.completion_mem
  · intro r hr
    have hdropped : ∀ e ∈ (w.kernel.cache.invalidate w.space.id).entries,
        e.space ≠ w.space.id :=
      fun _ he => (MappingCache.mem_invalidate_iff.mp he).2
    simp only [List.mem_cons, List.not_mem_nil, or_false] at hr
    rcases hr with rfl | rfl
    · exact ⟨_, rfl, rfl, hdropped⟩
    · exact ⟨_, rfl, rfl, hdropped⟩

/-- A run over sixteen frames that prepares a page for reading only and writes to it before the load
is completed: the page is cached as writable. -/
theorem exists_written_early_sixteen_frames :
    ∃ ds w e, Works ⟨History.sixteenFrames.kernel, .new 1⟩ ds w ∧ w.kernel.cache.entries = [e] ∧
      e.space = w.space.id ∧ e.isWritable = true ∧
      (w.completed.space.table.find? e.page).map (fun d => (d.frame, d.flags)) =
        some (e.frame, ⟨0x8000000000000005⟩) := by
  have hrun : answers (Machine.answerSpace
      (.declareRegion ⟨0x1000, by decide⟩ 0x1000 ⟨true, false, false⟩))
      ⟨History.sixteenFrames.kernel, .new 1⟩ (fun _ w =>
        answers (Machine.answerSpace .prepareLoad) w fun _ w₁ =>
          decide (w₁.kernel.allocator.isInitialized = true) &&
          answers (PageFault.handle .write ⟨0x1000, by decide⟩ (.within w₁.space)) w₁.kernel
            fun p k => p.2.passes fun s => decide (k.cache.entries.length = 1) &&
              k.cache.entries.all fun e => decide (e.space = s.id ∧ e.isWritable = true ∧
                (s.completeLoad.table.find? e.page).map (fun d => (d.frame, d.flags)) =
                  some (e.frame, ⟨0x8000000000000005⟩))) = true := by decide +kernel
  obtain ⟨reply, w, hdeclared, hrun⟩ := exists_of_answers hrun
  obtain ⟨reply₁, w₁, hprepared, hrun⟩ := exists_of_answers hrun
  obtain ⟨hbuilt, hrun⟩ := Bool.and_eq_true_iff.mp hrun
  obtain ⟨r, s, k, hk, -⟩ :=
    PageFault.exists_handles .write ⟨0x1000, by decide⟩ w₁.space (of_decide_eq_true hbuilt)
  obtain ⟨hone, hall⟩ := Bool.and_eq_true_iff.mp (test_of_answers hrun hk)
  have run : Works ⟨History.sixteenFrames.kernel, .new 1⟩ _ ⟨k, s⟩ :=
    ((Works.start.next (.asked (Or.inl rfl) (Or.inl ⟨reply, hdeclared⟩))).next
      (.asked (Or.inr rfl) (Or.inl ⟨reply₁, hprepared⟩))).next (.faulted hk)
  obtain ⟨e, hcache⟩ := List.length_eq_one_iff.mp (of_decide_eq_true hone)
  have he : e ∈ k.cache.entries := hcache ▸ List.mem_singleton_self e
  exact ⟨_, _, e, run, hcache, of_decide_eq_true (List.all_eq_true.mp hall e he)⟩

/-- What is cached in such a run after completing: the page may be written, which the page table
forbids.  Taking the space off the processor drops it. -/
theorem cached_after_completion_sixteen_frames :
    ∃ ds w e, Works ⟨History.sixteenFrames.kernel, .new 1⟩ ds w ∧
      e ∈ w.completed.kernel.cache.entries ∧ e.isWritable = true ∧
      (∃ d, w.completed.space.table.find? e.page = some d ∧ d.frame = e.frame ∧
        d.flags.isWritable = false) ∧
      Overtaken ⟨History.sixteenFrames.kernel, .new 1⟩ (ds ++ [.completion]) w.completed e ∧
      ∃ w', Machine.answerSpace .deactivate w.completed = .ok .done w' ∧
        ∀ e ∈ w'.kernel.cache.entries, e.space ≠ w'.space.id := by
  obtain ⟨ds, w, e, run, hcache, hid, hwritable, htable⟩ := exists_written_early_sixteen_frames
  have he : e ∈ w.kernel.cache.entries := hcache ▸ List.mem_singleton_self e
  obtain ⟨-, hcached, -, hdropped⟩ := run.cached_after_completion (by decide +kernel)
  obtain ⟨⟨d, hd, hframe, -⟩, hconfirmed⟩ := hcached e he hid
  have hflags : d.flags = ⟨0x8000000000000005⟩ := by
    rw [hd] at htable
    exact congrArg Prod.snd (Option.some.inj htable)
  have hreadOnly : d.flags.isWritable = false := by
    rw [hflags]
    decide
  obtain ⟨w', hoff, -, hnone⟩ := hdropped .deactivate (by simp)
  refine ⟨ds, w, e, run, he, hwritable, ⟨d, hd, hframe, hreadOnly⟩, ?_, w', hoff, hnone⟩
  refine hconfirmed.resolve_left fun hconfirmed => ?_
  obtain rfl := Option.some.inj (hd.symm.trans hconfirmed)
  exact absurd (hreadOnly.symm.trans hwritable) Bool.false_ne_true

/-- **Not everything cached agrees after completing.**  In such a run the flags are others than
those of the page table. -/
theorem not_forall_cached_agree :
    ¬ ∀ (w₀ w : Workspace) (ds : List Deed), w₀.kernel.cache.entries = [] → Works w₀ ds w →
      ∀ e ∈ w.completed.kernel.cache.entries, e.space = w.completed.space.id →
        ∀ d, w.completed.space.table.find? e.page = some d → d.flags = e.flags := by
  intro hall
  obtain ⟨ds, w, e, run, hcache, hid, hwritable, htable⟩ := exists_written_early_sixteen_frames
  obtain ⟨d, hd, hpair⟩ := Option.map_eq_some_iff.mp htable
  have hsame := hall _ w ds (by decide +kernel) run e (hcache ▸ List.mem_singleton_self e) hid d hd
  have hflags : d.flags = ⟨0x8000000000000005⟩ := congrArg Prod.snd hpair
  rw [CacheEntry.isWritable, ← hsame, hflags] at hwritable
  exact absurd hwritable (by decide)

end Workspace

end DemandPaging
