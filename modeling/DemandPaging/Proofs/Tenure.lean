import DemandPaging.Proofs.Dealings
import DemandPaging.Proofs.Views

/-!
# Frames in both phases

While booting, frames are stolen in ascending order, and what has been handed out lies below the
next frame.  When the map is built, all frames below that one are fixed in it, and a fixed frame is
never handed out again.  So no frame is handed out twice, whenever that is, and no space maps a
frame twice (`History.Run.tenure`).

**Two kinds of blocks.**  Once there is a map, some blocks are those that it follows, and the others
are stolen and it does not know about them (`FrameMap.Omits`).  The two kinds only have to be kept
apart where a frame is freed: the map takes back what it follows, and stops the kernel otherwise.
-/

namespace DemandPaging

namespace FrameMap

variable {m m' : FrameMap} {b : Block}

/-- **Omitted blocks**: their frames are fixed in the map, or lie beyond its end. -/
def Omits (m : FrameMap) (b : Block) : Prop :=
  ∀ i : Nat, b.Holds i → ∀ s, m.states[i]? = some s → s = .fixed

theorem Omits.keeps (h : m.Omits b) (hkeeps : m.KeepsFixed m') : m'.Omits b := by
  intro i hi s hs
  have hlt : i < m.states.length := by
    rw [length_states, ← hkeeps.size, ← length_states]
    exact (List.getElem?_eq_some_iff.mp hs).1
  have hold : m.states[i]? = some m.states[i] := List.getElem?_eq_getElem hlt
  have hfixed := h i hi _ hold
  rw [hkeeps.fixed i (hfixed ▸ hold), Option.some.injEq] at hs
  exact hs.symm

end FrameMap

namespace Allocator

variable {a a' : Allocator} {blocks : List Block}

/-- **Granted blocks**: no two of them share a frame, and no frame of them will be granted again as
long as it is not given back. -/
structure Grants (a : Allocator) (blocks : List Block) : Prop where
  nonempty : ∀ b ∈ blocks, 0 < b.count
  apart : blocks.Pairwise Block.Apart
  booting : ∀ boot, a.source = .booting boot →
    ∀ b ∈ blocks, b.head.index + b.count ≤ boot.next.frame.index
  mapped : ∀ m, a.source = .mapped m → ∃ ledger stolen : List Block,
    blocks.Perm (ledger ++ stolen) ∧ m.Follows ledger ∧ ∀ b ∈ stolen, m.Omits b

namespace Grants

theorem perm (h : a.Grants blocks) {blocks' : List Block} (hp : blocks.Perm blocks') :
    a.Grants blocks' where
  nonempty b hb := h.nonempty b (hp.mem_iff.mpr hb)
  apart := (hp.pairwise_iff Block.Apart.symm).mp h.apart
  booting boot hboot b hb := h.booting boot hboot b (hp.mem_iff.mpr hb)
  mapped m hm := by
    obtain ⟨ledger, stolen, hsplit, hfollows, homits⟩ := h.mapped m hm
    exact ⟨ledger, stolen, hp.symm.trans hsplit, hfollows, homits⟩

/-- No granted frame is free: those of blocks that are followed are in use, and the others fixed. -/
theorem not_free (h : a.Grants blocks) {m : FrameMap} (hm : a.source = .mapped m) {b : Block}
    (hb : b ∈ blocks) {i : Nat} (hi : b.Holds i) : m.states[i]? ≠ some .free := by
  obtain ⟨ledger, stolen, hsplit, hfollows, homits⟩ := h.mapped m hm
  intro hfree
  rcases List.mem_append.mp (hsplit.mem_iff.mp hb) with hledger | hstolen
  · exact hfollows.not_holds_of_free hledger hfree hi
  · cases homits b hstolen i hi _ hfree

/-- Granted blocks over a map, some followed and some stolen. -/
theorem of_mapped {m : FrameMap} (hm : a.source = .mapped m) (nonempty : ∀ b ∈ blocks, 0 < b.count)
    (apart : blocks.Pairwise Block.Apart) {ledger stolen : List Block}
    (split : blocks.Perm (ledger ++ stolen)) (follows : m.Follows ledger)
    (omits : ∀ b ∈ stolen, m.Omits b) : a.Grants blocks where
  nonempty := nonempty
  apart := apart
  booting boot hboot := by cases hm.symm.trans hboot
  mapped m' hm' := by
    cases hm.symm.trans hm'
    exact ⟨ledger, stolen, split, follows, omits⟩

/-- A stolen block begins where the others end. -/
theorem steal (h : a.Grants blocks) {boot : BootFrames} (hboot : a.source = .booting boot)
    {count : Nat} {f : Frame} (taken : a.allocate count = .ok (some f, a')) :
    a'.Grants (⟨f, count⟩ :: blocks) := by
  simp only [allocate, hboot] at taken
  split at taken
  · cases taken
  · next g boot' hsteal =>
      cases taken
      rcases BootFrames.steal_eq_ok hsteal with ⟨hnone, -⟩ | ⟨hpos, hfirst, hnext, -, -⟩
      · cases hnone
      · obtain rfl := Option.some.inj hfirst
        have hbelow := h.booting boot hboot
        have hend : boot'.next.frame.index = boot.next.frame.index + count := by
          show boot'.next.val / 4096 = boot.next.val / 4096 + count
          rw [hnext]
          unfold pageSize
          omega
        refine ⟨List.forall_mem_cons.mpr ⟨hpos, h.nonempty⟩, List.pairwise_cons.mpr
          ⟨fun c hc i hi hci => ?_, h.apart⟩, ?_, ?_⟩
        · have hlast := hbelow c hc
          have hfirst : boot.next.frame.index ≤ i := hi.1
          have hin := hci.2
          omega
        · rintro boot'' hboot'' c hc
          cases hboot''
          rw [hend]
          rcases List.mem_cons.mp hc with rfl | hc
          · exact Nat.le_refl _
          · exact Nat.le_trans (hbelow c hc) (Nat.le_add_right _ _)
        · intro m hm
          cases hm

/-- **Handing out a block**, in either phase. -/
theorem allocate (h : a.Grants blocks) {count : Nat} {f : Frame}
    (taken : a.allocate count = .ok (some f, a')) : a'.Grants (⟨f, count⟩ :: blocks) := by
  cases hsource : a.source with
  | booting boot => exact h.steal hsource taken
  | mapped m =>
      obtain ⟨ledger, stolen, hsplit, hfollows, homits⟩ := h.mapped m hsource
      rw [allocate_mapped hsource] at taken
      rcases FrameMap.allocate_cases hfollows.counted count with
        ⟨g, hgrant, hpos, hfree, -⟩ | ⟨hrefuse, -⟩
      · rw [hgrant] at taken
        cases taken
        refine of_mapped rfl (List.forall_mem_cons.mpr ⟨hpos, h.nonempty⟩) (List.pairwise_cons.mpr
          ⟨fun c hc i hi hci => ?_, h.apart⟩) (hsplit.cons _) (hfollows.occupy hpos hfree)
          fun c hc => (homits c hc).keeps (FrameMap.keepsFixed_occupy hfree)
        exact h.not_free hsource hc hci (hfree i hi.1 hi.2)
      · rw [hrefuse] at taken
        cases taken

/-- **Taking a block back.**  Only the map does, and only what it follows. -/
theorem free {b : Block} (h : a.Grants (b :: blocks)) (back : a.free b.head = .ok a') :
    a'.Grants blocks := by
  cases hsource : a.source with
  | booting boot => simp [Allocator.free, BootFrames.free, hsource] at back
  | mapped m =>
      obtain ⟨ledger, stolen, hsplit, hfollows, homits⟩ := h.mapped m hsource
      obtain ⟨m', hback, rfl⟩ := free_mapped_eq_ok hsource back
      obtain ⟨c, hc, hhead, rfl⟩ := hfollows.exists_of_free hback
      have hmem : c ∈ b :: blocks := hsplit.mem_iff.mpr (List.mem_append_left _ hc)
      -- the block that is followed is the one in front, as they have the same head
      obtain rfl : c = b := by
        refine Block.eq_of_holds h.apart hmem List.mem_cons_self
          (Block.holds_head (h.nonempty c hmem)) ?_
        rw [hhead]
        exact Block.holds_head (h.nonempty b List.mem_cons_self)
      have herase := List.perm_cons_erase hc
      have hrest : blocks.Perm (ledger.erase c ++ stolen) :=
        (hsplit.trans (herase.append_right stolen)).cons_inv
      exact of_mapped rfl (fun d hd => h.nonempty d (List.mem_cons_of_mem _ hd))
        (List.pairwise_cons.mp h.apart).2 hrest (hfollows.perm herase).vacate
        fun d hd => (homits d hd).keeps (hfollows.keepsFixed_vacate hc)

/-- While booting, nothing is known of a block that was only stolen. -/
theorem forget {b : Block} (h : a.Grants (b :: blocks)) (booting : a.isInitialized = false) :
    a.Grants blocks where
  nonempty c hc := h.nonempty c (List.mem_cons_of_mem _ hc)
  apart := (List.pairwise_cons.mp h.apart).2
  booting boot hboot c hc := h.booting boot hboot c (List.mem_cons_of_mem _ hc)
  mapped m hm := by
    rw [isInitialized, hm] at booting
    cases booting

theorem reserve (h : a.Grants blocks) {base : PhysAddr} {length : Nat}
    (kept : a.reserve base length = .ok a') : a'.Grants blocks := by
  cases hsource : a.source with
  | booting boot => simp [Allocator.reserve, hsource] at kept
  | mapped m =>
      obtain ⟨ledger, stolen, hsplit, hfollows, homits⟩ := h.mapped m hsource
      obtain ⟨m', hreserve, rfl⟩ := reserve_mapped_eq_ok hsource kept
      exact of_mapped rfl h.nonempty h.apart hsplit (hfollows.reserve hreserve)
        fun d hd => (homits d hd).keeps (FrameMap.keepsFixed_reserve hreserve)

/-- By induction on the holes. -/
theorem reserveHoles :
    ∀ {holes : List Hole} {a a' : Allocator}, a.Grants blocks → a.reserveHoles holes = .ok a' →
      a'.Grants blocks := by
  intro holes
  induction holes with
  | nil =>
      intro a a' h hdone
      cases hdone
      exact h
  | cons hole rest ih =>
      intro a a' h hdone
      unfold Allocator.reserveHoles at hdone
      split at hdone
      · cases hdone
      · next a₁ hreserve => exact ih (h.reserve hreserve) hdone

/-- **Building the map** omits all blocks, as none is above the first free frame. -/
theorem install (h : a.Grants blocks) {firstFree base : PhysAddr} {totalSize : Nat} {ready : Event}
    (built : a.install firstFree base totalSize = .ok (a', ready)) : a'.Grants blocks := by
  obtain ⟨boot, m, hboot, hstolen, hbuild, rfl, -⟩ := install_eq_ok built
  obtain ⟨aligned, hrange, haligned, -, rfl⟩ := buildMap_eq_ok hbuild
  have hlow := (PhysAddr.alignUp_eq_ok haligned).1
  refine of_mapped rfl h.nonempty h.apart (List.Perm.refl ([] ++ blocks))
    (FrameMap.follows_build _ _ _ _ hrange) fun b hb i hi s hs => ?_
  have hbelow : i < aligned.frame.index := by
    have hlast := h.booting boot hboot b hb
    have hin := hi.2
    have hnext : boot.next.frame.index ≤ aligned.frame.index :=
      Nat.div_le_div_right (Nat.le_trans hstolen hlow)
    omega
  rw [FrameMap.state_build] at hs
  split at hs
  · rw [if_pos (Or.inl hbelow)] at hs
    exact (Option.some.inj hs).symm
  · cases hs

theorem mapFrom (h : a.Grants blocks) {firstFree : PhysAddr} {totalSize : Nat} {ready : Event}
    (built : a.mapFrom firstFree totalSize = .ok (a', ready)) : a'.Grants blocks := by
  obtain ⟨base, -, hinstall⟩ := mapFrom_eq_ok built
  exact h.install hinstall

theorem bootstrap (h : a.Grants blocks) {layout : Layout} {ready : Event}
    (built : a.bootstrap layout = .ok (a', ready)) : a'.Grants blocks := by
  obtain ⟨boot, base, a₀, -, -, hinstall, hholes⟩ := bootstrap_eq_ok built
  exact (h.install hinstall).reserveHoles hholes

end Grants

end Allocator

/-! ### Spaces and callers -/

/-- **Tenure**: spaces and callers have granted blocks, in whichever phase, and no page stands twice
in a space. -/
structure Tenure (H : Holdings) : Prop where
  granted : H.kernel.allocator.Grants (mappedBlocks H.live ++ H.held)
  tables : ∀ s ∈ H.live, s.table.WellFormed

namespace Tenure

variable {H : Holdings} {w w' : Workspace} {rest : List AddressSpace} {held : List Block}

/-- The space in front changes, but not its frames. -/
theorem front (h : Tenure ⟨w.kernel, w.space :: rest, held⟩)
    (hallocator : w'.kernel.allocator = w.kernel.allocator)
    (hframes : w'.space.frames = w.space.frames) (htable : w'.space.table.WellFormed) :
    Tenure ⟨w'.kernel, w'.space :: rest, held⟩ where
  granted := by
    have hblocks : mappedBlocks (w'.space :: rest) = mappedBlocks (w.space :: rest) := by
      simp only [mappedBlocks_cons, AddressSpace.blocks, hframes]
    show w'.kernel.allocator.Grants (mappedBlocks (w'.space :: rest) ++ held)
    rw [hallocator, hblocks]
    exact h.granted
  tables := List.forall_mem_cons.mpr ⟨htable, (List.forall_mem_cons.mp h.tables).2⟩

theorem move (h : Tenure ⟨w.kernel, w.space :: rest, held⟩) (hmove : w.Move w') :
    Tenure ⟨w'.kernel, w'.space :: rest, held⟩ := by
  have htable : w.space.table.WellFormed := h.tables w.space List.mem_cons_self
  cases hmove with
  | reported e other => exact h.front rfl rfl htable
  | prepared n done => exact h.front rfl rfl htable
  | asked room => exact h.front rfl rfl htable
  | mapped p flags f a t grown room taken inserted =>
      have hblocks : (⟨f, 1⟩ :: (mappedBlocks (w.space :: rest) ++ held)).Perm
          (mappedBlocks ((w.install p a f t).space :: rest) ++ held) := by
        have hframes := (Workspace.perm_frames_install (a := a) inserted).map
          fun g => (⟨g, 1⟩ : Block)
        exact ((hframes.append_right (mappedBlocks rest)).append_right held).symm
      exact ⟨(h.granted.allocate taken).perm hblocks,
        List.forall_mem_cons.mpr ⟨htable.insert inserted, (List.forall_mem_cons.mp h.tables).2⟩⟩
  | refused p f a a' cramped taken back =>
      have hgranted := h.granted.allocate taken
      refine ⟨?_, h.tables⟩
      rcases back with hback | ⟨hstuck, rfl⟩
      · exact hgranted.free hback
      · exact hgranted.forget (Allocator.booting_of_free_eq_error hstuck)
  | recoloured t flags same room count =>
      exact h.front rfl (Workspace.frames_recoloured same) (htable.recoloured same count)
  | settled bounds loaded kept => exact h.front rfl rfl htable
  | declared r open' => exact h.front rfl rfl htable
  | stored e data own => exact h.front rfl rfl htable
  | cached e slot c own placed => exact h.front rfl rfl htable
  | dropped => exact h.front rfl rfl htable

/-- **Every dealing keeps tenure.** -/
theorem keeps : Deal.Keeps Tenure := by
  intro H H' deal h
  cases deal with
  | arranged spaces blocks =>
      exact ⟨h.granted.perm ((spaces.flatMap_right _).append blocks),
        fun s hs => h.tables s (spaces.mem_iff.mpr hs)⟩
  | noted allocator => exact ⟨allocator ▸ h.granted, h.tables⟩
  | moved move => exact h.move move
  | @added k s live held n blank =>
      have hblocks : mappedBlocks (s :: live) = mappedBlocks live := by
        simp [mappedBlocks_cons, AddressSpace.blocks, AddressSpace.frames, blank]
      refine ⟨?_, List.forall_mem_cons.mpr ⟨blank ▸ PageTable.wellFormed_blank n, h.tables⟩⟩
      show k.allocator.Grants (mappedBlocks (s :: live) ++ held)
      rw [hblocks]
      exact h.granted
  | @disowned k s rest held =>
      have hblocks : (mappedBlocks (s :: rest) ++ held).Perm
          (mappedBlocks rest ++ (s.blocks ++ held)) := by
        rw [mappedBlocks_cons, List.append_assoc]
        exact List.perm_append_comm_assoc _ _ _
      exact ⟨h.granted.perm hblocks, (List.forall_mem_cons.mp h.tables).2⟩
  | granted taken => exact ⟨(h.granted.allocate taken).perm List.perm_middle.symm, h.tables⟩
  | freed back => exact ⟨(h.granted.perm List.perm_middle).free back, h.tables⟩
  | @returned k live held b a mine back =>
      have hheld := Block.perm_cons_filter (List.pairwise_append.mp h.granted.apart).2.1
        (fun c hc => h.granted.nonempty c (List.mem_append_right _ hc)) mine
      have hblocks := (hheld.append_left (mappedBlocks live)).trans List.perm_middle
      exact ⟨(h.granted.perm hblocks).free back, h.tables⟩
  | reserved kept => exact ⟨h.granted.reserve kept, h.tables⟩
  | mapped built => exact ⟨h.granted.mapFrom built, h.tables⟩
  | charted built => exact ⟨h.granted.bootstrap built, h.tables⟩

/-- No space maps a frame twice. -/
theorem nodup_frames (h : Tenure H) {s : AddressSpace} (hs : s ∈ H.live) : s.frames.Nodup :=
  (List.nodup_flatMap.mp (nodup_frames_of_apart h.granted.apart h.granted.nonempty)).1 s hs

end Tenure

/-! ### Runs -/

/-- **Blank machines**: still booting, or with a frame map that has just been built, and without a
space.  What the heap is going to answer is left open. -/
structure Machine.IsBlank (m : Machine) : Prop where
  phase : (∃ boot, m.kernel.allocator.source = .booting boot) ∨ m.kernel.allocator.Built
  empty : m.live = []

theorem Machine.IsFresh.isBlank {m : Machine} (h : m.IsFresh) : m.IsBlank :=
  ⟨Or.inr h.built, h.empty⟩

/-- A machine that has started is blank, whether or not it stays in its booting phase. -/
theorem Machine.isBlank_of_start {window : VirtAddr} {layout : Layout} {ignored : Option Nat}
    {cacheSlots : Nat} {stayBooting : Bool} {m : Machine}
    (h : start window layout ignored cacheSlots stayBooting = .ok m) : m.IsBlank := by
  cases stayBooting with
  | false => exact (isFresh_of_start h).isBlank
  | true =>
      unfold start at h
      split at h
      · cases h
      · next boot hstart =>
          cases h
          refine ⟨Or.inl ?_, rfl⟩
          unfold Allocator.start at hstart
          split at hstart
          · cases hstart
          · split at hstart
            · cases hstart
            · next frames _ =>
                cases hstart
                exact ⟨frames, rfl⟩

/-- On a blank machine nothing has been granted. -/
theorem Machine.IsBlank.tenure {m : Machine} (h : m.IsBlank) : Tenure (m.holdings []) := by
  have hgranted : m.kernel.allocator.Grants [] := by
    refine ⟨List.forall_mem_nil _, List.Pairwise.nil, fun _ _ => List.forall_mem_nil _, ?_⟩
    intro map hmap
    rcases h.phase with ⟨boot, hboot⟩ | hbuilt
    · cases hmap.symm.trans hboot
    · obtain ⟨map', hmap', hfollows⟩ := hbuilt.follows
      cases hmap.symm.trans hmap'
      exact ⟨[], [], .refl _, hfollows, List.forall_mem_nil _⟩
  refine ⟨?_, ?_⟩
  · show m.kernel.allocator.Grants (mappedBlocks m.live ++ [])
    rw [h.empty]
    exact hgranted
  · show ∀ s ∈ m.live, s.table.WellFormed
    rw [h.empty]
    exact List.forall_mem_nil _

namespace History

/-- **Tenure lasts**, from when the machine was blank on. -/
theorem Run.tenure {m : Machine} {h : History} {rs : List Request} (blank : m.IsBlank)
    (run : Run ⟨m, []⟩ rs h) : Tenure h.holdings :=
  run.kept Tenure.keeps blank.tenure

theorem isBlank_bootingSixteenFrames : bootingSixteenFrames.IsBlank := ⟨Or.inl ⟨_, rfl⟩, rfl⟩

end History

end DemandPaging
