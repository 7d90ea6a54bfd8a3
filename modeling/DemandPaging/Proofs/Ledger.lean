import DemandPaging.Proofs.Bootstrap

/-!
# The ledger of the frame allocator

Callers of the allocator know what they were given and what they gave back.  An `Account`
keeps just that beside the allocator, as a list of blocks, and never looks into the frame
map.  The result of this module is that the frame map is a refinement of this list: after
any calls, whatever their arguments, the two say the same about every frame
(`Account.run_reflects`).

**Where the induction is.**  One call is one of four changes (`Account.Change`): nothing, a
new block, a block less, or some free frames fixed.  `FrameMap.Follows` is kept by each of
them, and so by a run.  The list in the induction is split in two, the blocks of the map and
blocks that were handed out before there was a map; the latter are never given back, because
their frames are fixed.
-/

namespace DemandPaging

/-- **Calls** on the frame allocator. -/
inductive FrameCall where
  | allocate (count : Nat)
  | allocateKernelPages (count : Nat)
  | free (frame : Frame)
  | freeKernelPages (address : VirtAddr)
  | reserve (base : PhysAddr) (length : Nat)

/-- The frame that the kernel sees at an address. -/
def Allocator.frameAt? (a : Allocator) (address : VirtAddr) : Option Frame :=
  Frame.ofIndex? ((address.val - a.window.val) / pageSize)

/-- **Accounts**: the allocator, the blocks its callers hold, and every block that they were
ever given. -/
structure Account where
  allocator : Allocator
  live : List Block
  returned : List Block

namespace Account

/-- The account before the first call. -/
def opened (a : Allocator) : Account := ⟨a, [], []⟩

/-- The account after an allocation that answered the block's first frame, or nothing. -/
def receive (t : Account) (a : Allocator) (count : Nat) : Option Frame → Account
  | some f => ⟨a, ⟨f, count⟩ :: t.live, ⟨f, count⟩ :: t.returned⟩
  | none => { t with allocator := a }

/-- The account after the block that starts at a frame was given back. -/
def giveBack (t : Account) (a : Allocator) (f : Frame) : Account :=
  { t with allocator := a, live := t.live.filter fun b => b.head ≠ f }

/-- One call, unless it stops the kernel. -/
def perform (t : Account) : FrameCall → Except Halt Account
  | .allocate count =>
    match t.allocator.allocate count with
    | .error h => .error h
    | .ok (f, a) => .ok (t.receive a count f)
  | .allocateKernelPages count =>
    match t.allocator.allocateKernelPages count with
    | .error h => .error h
    | .ok (address, a) => .ok (t.receive a count (address.bind a.frameAt?))
  | .free f =>
    match t.allocator.free f with
    | .error h => .error h
    | .ok a => .ok (t.giveBack a f)
  | .freeKernelPages address =>
    match t.allocator.freeKernelPages address, t.allocator.frameAt? address with
    | .error h, _ => .error h
    | .ok a, some f => .ok (t.giveBack a f)
    | .ok a, none => .ok { t with allocator := a }
  | .reserve base length =>
    match t.allocator.reserve base length with
    | .error h => .error h
    | .ok a => .ok { t with allocator := a }

/-- Calls one after another, unless one of them stops the kernel. -/
def run (t : Account) : List FrameCall → Except Halt Account
  | [] => .ok t
  | c :: rest =>
    match t.perform c with
    | .error h => .error h
    | .ok t => t.run rest

/-! ### What one call can do -/

/-- **Changes**: what a call can make of an account over the map `m`. -/
inductive Change (t : Account) (m : FrameMap) : Account → FrameMap → Prop where
  | refused : Change t m t m
  | granted (f : Frame) (count : Nat) (positive : 0 < count)
      (free : FrameMap.FreeRun m.states f.index count) :
      Change t m
        ⟨t.allocator.withMap (m.occupy f.index count), ⟨f, count⟩ :: t.live,
          ⟨f, count⟩ :: t.returned⟩
        (m.occupy f.index count)
  | takenBack (f : Frame) (m' : FrameMap) (freed : m.free f = .ok m') :
      Change t m (t.giveBack (t.allocator.withMap m') f) m'
  | reserved (base : PhysAddr) (length : Nat) (m' : FrameMap)
      (kept : m.reserve t.allocator.window base length = .ok m') :
      Change t m { t with allocator := t.allocator.withMap m' } m'

end Account

/-- The kernel address of a frame leads back to the frame. -/
theorem Allocator.frameAt?_kernelAddress {a : Allocator} {f : Frame} {address : VirtAddr}
    (h : a.kernelAddress f = .ok address) : a.frameAt? address = some f := by
  have hval := VirtAddr.add_eq_ok_iff.mp h
  have hrange := f.inRange
  rw [Frame.start_val] at hval
  have hindex : (address.val - a.window.val) / pageSize = f.index := by
    unfold pageSize
    omega
  rw [frameAt?, hindex, Frame.ofIndex?, dif_pos hrange]

/-- Giving kernel pages back is giving back the frame that the kernel sees there, unless the
address cannot be that of a frame. -/
theorem Allocator.freeKernelPages_cases (a : Allocator) (address : VirtAddr) :
    (∃ f, a.frameAt? address = some f ∧ a.freeKernelPages address = a.free f) ∨
      ∃ h, a.freeKernelPages address = .error h ∧
        (h = .differenceUnderflow ∨ h = .beyondPhysical ∨ h = .unalignedKernelPages) := by
  unfold freeKernelPages VirtAddr.sub
  by_cases hbelow : a.window.val ≤ address.val
  · simp only [if_pos hbelow]
    cases hphysical : PhysAddr.ofNat (address.val - a.window.val) with
    | error h =>
        unfold PhysAddr.ofNat at hphysical
        split at hphysical
        · cases hphysical
        · cases hphysical
          exact Or.inr ⟨_, rfl, Or.inr (Or.inl rfl)⟩
    | ok physical =>
        by_cases haligned : physical.offset = 0
        · have hval := PhysAddr.ofNat_eq_ok_iff.mp hphysical
          refine Or.inl ⟨physical.frame, ?_, if_pos haligned⟩
          have hrange := physical.frame.inRange
          have hindex : (address.val - a.window.val) / pageSize = physical.frame.index := by
            rw [← hval]
            rfl
          rw [frameAt?, hindex, Frame.ofIndex?, dif_pos hrange]
        · exact Or.inr ⟨_, if_neg haligned, Or.inr (Or.inr rfl)⟩
  · simp only [if_neg hbelow]
    exact Or.inr ⟨_, rfl, Or.inl rfl⟩

theorem Allocator.freeKernelPages_eq_ok {a a' : Allocator} {address : VirtAddr}
    (h : a.freeKernelPages address = .ok a') :
    ∃ f, a.frameAt? address = some f ∧ a.free f = .ok a' := by
  rcases a.freeKernelPages_cases address with ⟨f, hf, hfree⟩ | ⟨halt, hhalt, -⟩
  · exact ⟨f, hf, hfree.symm.trans h⟩
  · rw [hhalt] at h
    cases h

namespace Account

/-- An allocation over a frame map grants a block or changes nothing. -/
theorem change_of_allocate {t : Account} {m : FrameMap} (hm : t.allocator.source = .mapped m)
    (counted : m.freeCount = m.entries.countP FrameEntry.isFree) {count : Nat} {f : Option Frame}
    {a : Allocator} (h : t.allocator.allocate count = .ok (f, a)) :
    ∃ m', a = t.allocator.withMap m' ∧ Change t m (t.receive a count f) m' := by
  rw [Allocator.allocate_mapped hm] at h
  rcases FrameMap.allocate_cases counted count with
    ⟨g, hgrant, hpos, hfree, -⟩ | ⟨hrefuse, -⟩
  · rw [hgrant] at h
    cases h
    exact ⟨_, rfl, .granted g count hpos hfree⟩
  · rw [hrefuse] at h
    cases h
    refine ⟨m, rfl, ?_⟩
    rw [Allocator.withMap_self hm]
    exact .refused

/-- **Inversion.**  A call over a frame map makes one of the changes. -/
theorem exists_change {t t' : Account} {m : FrameMap} (hm : t.allocator.source = .mapped m)
    (counted : m.freeCount = m.entries.countP FrameEntry.isFree) {c : FrameCall}
    (h : t.perform c = .ok t') : ∃ m', Change t m t' m' := by
  cases c with
  | allocate count =>
      simp only [perform] at h
      split at h
      · cases h
      · next f a hallocate =>
          cases h
          obtain ⟨m', -, hchange⟩ := change_of_allocate hm counted hallocate
          exact ⟨m', hchange⟩
  | allocateKernelPages count =>
      simp only [perform, Allocator.allocateKernelPages] at h
      split at h
      · cases h
      · next address a haddress =>
          cases h
          split at haddress
          · cases haddress
          · next hallocate =>
              cases haddress
              obtain ⟨m', -, hchange⟩ := change_of_allocate hm counted hallocate
              exact ⟨m', hchange⟩
          · next f a hallocate =>
              split at haddress
              · cases haddress
              · next hkernel =>
                  cases haddress
                  obtain ⟨m', -, hchange⟩ := change_of_allocate hm counted hallocate
                  rw [Option.bind_some, Allocator.frameAt?_kernelAddress hkernel]
                  exact ⟨m', hchange⟩
  | free f =>
      simp only [perform] at h
      split at h
      · cases h
      · next a hback =>
          cases h
          obtain ⟨m', hfree, rfl⟩ := Allocator.free_mapped_eq_ok hm hback
          exact ⟨m', .takenBack f m' hfree⟩
  | freeKernelPages address =>
      simp only [perform] at h
      split at h
      · cases h
      · next a f hback hframe =>
          cases h
          obtain ⟨g, hg, hfree⟩ := Allocator.freeKernelPages_eq_ok hback
          obtain rfl : g = f := Option.some.inj (hg.symm.trans hframe)
          obtain ⟨m', hmap, rfl⟩ := Allocator.free_mapped_eq_ok hm hfree
          exact ⟨m', .takenBack g m' hmap⟩
      · next hback hframe =>
          obtain ⟨g, hg, -⟩ := Allocator.freeKernelPages_eq_ok hback
          rw [hg] at hframe
          cases hframe
  | reserve base length =>
      simp only [perform] at h
      split at h
      · cases h
      · next a hkept =>
          cases h
          obtain ⟨m', hreserve, rfl⟩ := Allocator.reserve_mapped_eq_ok hm hkept
          exact ⟨m', .reserved base length m' hreserve⟩

/-! ### What every run keeps -/

/-- **Balanced accounts**: the blocks that callers hold are those of the frame map, and
blocks handed out before there was a map, whose frames are fixed. -/
structure Balanced (t : Account) (m : FrameMap) (stolen : List Block) : Prop where
  source : t.allocator.source = .mapped m
  follows : ∃ ledger, t.live = ledger ++ stolen ∧ m.Follows ledger
  fixed : ∀ b ∈ stolen, 0 < b.count ∧ ∀ i, b.Holds i → m.states[i]? = some .fixed

/-- **What one call keeps.**  Balance, and every fixed frame; and a block that is new to the
callers was free. -/
theorem Balanced.change {t t' : Account} {m m' : FrameMap} {stolen : List Block}
    (h : t.Balanced m stolen) (hchange : Change t m t' m') :
    t'.Balanced m' stolen ∧ m.KeepsFixed m' ∧
      t'.allocator.window = t.allocator.window ∧
      ∀ b ∈ t'.returned, b ∈ t.returned ∨ FrameMap.FreeRun m.states b.head.index b.count := by
  obtain ⟨ledger, hlive, hfollows⟩ := h.follows
  have still : ∀ {m'}, m.KeepsFixed m' → ∀ b ∈ stolen, 0 < b.count ∧ ∀ i : Nat, b.Holds i →
      m'.states[i]? = some .fixed := fun hkeeps b hb =>
    ⟨(h.fixed b hb).1, fun i hi => hkeeps.fixed i ((h.fixed b hb).2 i hi)⟩
  cases hchange with
  | refused => exact ⟨h, .refl m, rfl, fun b hb => Or.inl hb⟩
  | granted f count positive free =>
      have hkeeps := FrameMap.keepsFixed_occupy free
      refine ⟨⟨rfl, ⟨⟨f, count⟩ :: ledger, ?_, hfollows.occupy positive free⟩, still hkeeps⟩,
        hkeeps, rfl, ?_⟩
      · simp only [hlive, List.cons_append]
      · intro b hb
        rcases List.mem_cons.mp hb with rfl | hb
        · exact Or.inr free
        · exact Or.inl hb
  | takenBack f m' freed =>
      obtain ⟨b, hb, rfl, rfl⟩ := hfollows.exists_of_free freed
      have hkeeps := hfollows.keepsFixed_vacate hb
      -- the head given back is in use, the heads of stolen blocks are fixed
      have hstolen : (stolen.filter fun c => c.head ≠ b.head) = stolen := by
        refine List.filter_eq_self.mpr fun c hc => ?_
        by_contra hhead
        have hfixed := (h.fixed c hc).2 c.head.index (Block.holds_head (h.fixed c hc).1)
        rw [show c.head = b.head by simpa using hhead,
          hfollows.state_eq hb (Block.holds_head (hfollows.nonempty b hb))] at hfixed
        cases hfixed
      refine ⟨⟨rfl, ⟨_, ?_, hfollows.free freed⟩, still hkeeps⟩, hkeeps, rfl,
        fun b hb => Or.inl hb⟩
      show t.live.filter (fun c => decide (c.head ≠ b.head)) = _
      rw [hlive, List.filter_append, hstolen]
  | reserved base length m' kept =>
      have hkeeps := FrameMap.keepsFixed_reserve kept
      exact ⟨⟨rfl, ⟨ledger, hlive, hfollows.reserve kept⟩, still hkeeps⟩, hkeeps, rfl,
        fun b hb => Or.inl hb⟩

/-- **What a run keeps**, by induction on the calls. -/
theorem Balanced.run {stolen : List Block} :
    ∀ {calls : List FrameCall} {t t' : Account} {m : FrameMap}, t.Balanced m stolen →
      t.run calls = .ok t' →
      ∃ m', t'.Balanced m' stolen ∧ m.KeepsFixed m' ∧
        ∀ b ∈ t'.returned, b ∈ t.returned ∨
          ∀ i : Nat, b.Holds i → i < m.size ∧ m.states[i]? ≠ some .fixed := by
  intro calls
  induction calls with
  | nil =>
      intro t t' m h hrun
      cases hrun
      exact ⟨m, h, .refl m, fun b hb => Or.inl hb⟩
  | cons c rest ih =>
      intro t t' m h hrun
      simp only [Account.run] at hrun
      split at hrun
      · cases hrun
      · next t₁ hcall =>
          obtain ⟨ledger, -, hfollows⟩ := h.follows
          obtain ⟨m₁, hchange⟩ := exists_change h.source hfollows.counted hcall
          obtain ⟨h₁, hkeeps₁, -, hnew₁⟩ := h.change hchange
          obtain ⟨m', h', hkeeps, hnew⟩ := ih h₁ hrun
          refine ⟨m', h', hkeeps₁.trans hkeeps, fun b hb => ?_⟩
          rcases hnew b hb with hold | hfree
          · rcases hnew₁ b hold with hold | hfree
            · exact Or.inl hold
            · refine Or.inr fun i hi => ?_
              have hstate := hfree i hi.1 hi.2
              obtain ⟨hlt, -⟩ := List.getElem?_eq_some_iff.mp hstate
              rw [FrameMap.length_states] at hlt
              exact ⟨hlt, by rw [hstate]; exact fun hfixed => by cases hfixed⟩
          · refine Or.inr fun i hi => ?_
            obtain ⟨hlt, hnotFixed⟩ := hfree i hi
            exact ⟨hkeeps₁.size ▸ hlt, fun hfixed => hnotFixed (hkeeps₁.fixed i hfixed)⟩

/-! ### The refinement -/

/-- **The frame map and the callers' ledger say the same.** -/
structure Reflects (t : Account) (m : FrameMap) : Prop where
  source : t.allocator.source = .mapped m
  nonempty : ∀ b ∈ t.live, 0 < b.count
  disjoint : t.live.Pairwise Block.Apart
  inside : ∀ b ∈ t.live, b.head.index + b.count ≤ m.size
  /-- A frame is in use exactly if it lies in one block, and in no other. -/
  inUse_iff : ∀ (i : Nat) (e : FrameEntry), m.entries[i]? = some e →
    (e.state = .inUse ↔ ∃! b, b ∈ t.live ∧ b.Holds i)
  /-- The entry of such a frame has the block's size, and is marked exactly at its head. -/
  recorded : ∀ (i : Nat) (e : FrameEntry), m.entries[i]? = some e → ∀ b ∈ t.live, b.Holds i →
    e.blockSize = b.count ∧ (e.isBlockHead = true ↔ i = b.head.index)
  /-- The entry of a free or fixed frame carries neither size nor mark. -/
  blank : ∀ e ∈ m.entries, e.state = .free ∨ e.state = .fixed →
    e.blockSize = 0 ∧ e.isBlockHead = false
  freeFrames : t.allocator.freeFrames = m.entries.countP FrameEntry.isFree
  /-- A fixed frame stays fixed, whatever is called later. -/
  fixed : ∀ (later : List FrameCall) (t' : Account), t.run later = .ok t' → ∀ f,
    t.allocator.state? f = some .fixed → t'.allocator.state? f = some .fixed
  /-- Exactly the heads of blocks can be given back. -/
  free_stops_iff : ∀ f, (∃ h, t.allocator.free f = .error h) ↔ ∀ b ∈ t.live, b.head ≠ f

theorem Balanced.reflects {t : Account} {m : FrameMap} (h : t.Balanced m []) : t.Reflects m := by
  obtain ⟨ledger, hlive, hfollows⟩ := h.follows
  obtain rfl : t.live = ledger := by simpa using hlive
  refine
    { source := h.source, nonempty := hfollows.nonempty, disjoint := hfollows.apart,
      inside := fun b hb => hfollows.limit_le_size hb, inUse_iff := ?_, recorded := ?_,
      blank := ?_, freeFrames := ?_, fixed := ?_, free_stops_iff := ?_ }
  · intro i e he
    constructor
    · intro hstate
      rw [FrameEntry.eq_inUse hstate] at he
      obtain ⟨b, hb, hholds⟩ := hfollows.accounted i e.isBlockHead e.blockSize he
      exact ⟨b, ⟨hb, hholds⟩, fun c hc => Block.eq_of_holds hfollows.apart hc.1 hb hc.2 hholds⟩
    · rintro ⟨b, ⟨hb, hholds⟩, -⟩
      rw [hfollows.recorded b hb i hholds, Option.some.injEq] at he
      rw [← he]
  · intro i e he b hb hholds
    rw [hfollows.recorded b hb i hholds, Option.some.injEq] at he
    rw [← he]
    exact ⟨rfl, by simp⟩
  · intro e he hidle
    have hstate : e.state ≠ .inUse := by
      rcases hidle with hidle | hidle <;> rw [hidle] <;> decide
    exact (hfollows.reset e he hstate).symm
  · rw [Allocator.freeFrames_mapped h.source, hfollows.counted]
  · intro later t' hrun f hf
    obtain ⟨m', h', hkeeps, -⟩ := h.run hrun
    rw [Allocator.state?_mapped h.source] at hf
    rw [Allocator.state?_mapped h'.source]
    exact hkeeps.fixed f.index hf
  · intro f
    rw [Allocator.free_mapped h.source, ← hfollows.free_eq_error_iff f]
    constructor
    · rintro ⟨halt, herror⟩
      rcases hfollows.free_cases f with ⟨b, -, -, hback⟩ | hstop
      · rw [hback] at herror
        cases herror
      · exact hstop
    · intro herror
      exact ⟨_, by rw [herror]; rfl⟩

/-- **The frame map refines the ledger.**  From a map that was just built, after any calls with
any arguments, none of which stops the kernel, the map and the blocks the callers hold say the
same about every frame. -/
theorem run_reflects {a : Allocator} (built : a.Built) {calls : List FrameCall} {t : Account}
    (done : (opened a).run calls = .ok t) : ∃ m, t.Reflects m := by
  obtain ⟨m₀, hsource, hfollows⟩ := built.follows
  have hopened : (opened a).Balanced m₀ [] :=
    ⟨hsource, ⟨[], rfl, hfollows⟩, fun b hb => by cases hb⟩
  obtain ⟨m, hbalanced, -, -⟩ := hopened.run done
  exact ⟨m, hbalanced.reflects⟩

/-- The refinement over sixteen frames with a hole at frame five: two blocks are handed out,
one comes back, its first frame is reserved, and another block is handed out. -/
theorem run_reflects_sixteen_frames :
    ∃ a t, a.Built ∧
      (opened a).run [.allocate 2, .allocateKernelPages 3, .free ⟨2, by decide⟩,
        .reserve ⟨0x2800, by decide⟩ 0x400, .allocate 1] = .ok t ∧
      t.live = [⟨⟨3, by decide⟩, 1⟩, ⟨⟨6, by decide⟩, 3⟩] ∧ ∃ m, t.Reflects m := by
  let window : VirtAddr := ⟨0xffff800000000000, by decide⟩
  let a : Allocator :=
    ⟨window, .mapped
      ⟨[.fixed, .fixed, .free, .free, .free, .fixed, .free, .free, .free, .free, .free, .free,
        .free, .free, .free, .free], 13, by decide⟩⟩
  let t : Account :=
    { allocator :=
        ⟨window, .mapped
          ⟨[.fixed, .fixed, .fixed, .inUse true 1, .free, .fixed, .inUse true 3, .inUse false 3,
            .inUse false 3, .free, .free, .free, .free, .free, .free, .free], 8, by decide⟩⟩
      live := [⟨⟨3, by decide⟩, 1⟩, ⟨⟨6, by decide⟩, 3⟩]
      returned := [⟨⟨3, by decide⟩, 1⟩, ⟨⟨6, by decide⟩, 3⟩, ⟨⟨2, by decide⟩, 2⟩] }
  have built : a.Built := by
    refine Or.inr ⟨⟨window, .booting ⟨⟨0x1000, by decide⟩, ⟨0x5000, by decide⟩, 0⟩⟩,
      ⟨⟨0x1000, by decide⟩, 0x10000, [⟨⟨0x5000, by decide⟩, 0x1000⟩]⟩,
      .frameMapReady ⟨0x1000, by decide⟩ 16 14, ?_⟩
    cbv
  have done : (opened a).run [.allocate 2, .allocateKernelPages 3, .free ⟨2, by decide⟩,
      .reserve ⟨0x2800, by decide⟩ 0x400, .allocate 1] = .ok t := by cbv
  exact ⟨a, t, built, done, rfl, run_reflects built done⟩

end Account

end DemandPaging
