import DemandPaging.Machine.Basic
import DemandPaging.Proofs.Ending
import Mathlib.Data.List.Basic

/-!
# The spaces of a machine

The spaces there are belong to nobody in particular or to a process.  `Machine.live` lists them
all, and this module says what the list becomes when a space is replaced, added, moved to a
process or given up.

**Up to order.**  Where in the list a space stands is of no interest, so everything is said up to
permutation, with the space at hand in front: there is a `rest`, and replacing the space
changes what is in front of it and nothing else.
-/

namespace DemandPaging

/-- The values of a row of cells, with one cell in front: setting the cell changes only what is
in front. -/
theorem exists_perm_filterMap {α β : Type} (f : α → Option β) :
    ∀ {l : List α} {n : Nat} {a : α}, l[n]? = some a →
      ∃ rest, (l.filterMap f).Perm ((f a).toList ++ rest) ∧
        ∀ b, ((l.set n b).filterMap f).Perm ((f b).toList ++ rest) := by
  have hcons : ∀ (c : α) (l : List α),
      (c :: l).filterMap f = (f c).toList ++ l.filterMap f := by
    intro c l
    cases hc : f c with
    | none => simp [hc]
    | some b => simp [hc]
  -- one induction for the row as it is and for every row that differs in this cell
  intro l
  induction l with
  | nil =>
      intro n a h
      simp at h
  | cons c l ih =>
      intro n a h
      cases n with
      | zero =>
          obtain rfl : c = a := by simpa using h
          refine ⟨l.filterMap f, ?_, fun b => ?_⟩
          · rw [hcons]
          · rw [List.set_cons_zero, hcons]
      | succ n =>
          obtain ⟨rest, hold, hnew⟩ := ih (by simpa using h : l[n]? = some a)
          refine ⟨(f c).toList ++ rest, ?_, fun b => ?_⟩
          · rw [hcons]
            exact (hold.append_left _).trans (List.perm_append_comm_assoc _ _ _)
          · rw [List.set_cons_succ, hcons]
            exact ((hnew b).append_left _).trans (List.perm_append_comm_assoc _ _ _)

/-- The space of a process, if it has one, as a list. -/
def Process.spaces (p : Process) : List AddressSpace := p.space.toList

namespace Machine

variable {m : Machine} {n : Nat} {s : AddressSpace} {p : Process}

/-- The spaces there are. -/
def live (m : Machine) : List AddressSpace :=
  m.spaces.filterMap id ++ m.processes.filterMap Process.space

/-- A space of its own, put in front of the others. -/
theorem exists_perm_space (h : m.space? (.space n) = some s) :
    ∃ rest, m.live.Perm (s :: rest) ∧ ∀ cell : Option AddressSpace,
      (live { m with spaces := m.spaces.set n cell }).Perm (cell.toList ++ rest) := by
  have hcell : m.spaces[n]? = some (some s) := Option.join_eq_some_iff.mp h
  obtain ⟨rest, hold, hnew⟩ := exists_perm_filterMap id hcell
  refine ⟨rest ++ m.processes.filterMap Process.space, hold.append_right _, fun cell => ?_⟩
  rw [← List.append_assoc]
  exact (hnew cell).append_right _

/-- The space of a process, put in front of the others. -/
theorem exists_perm_process (h : m.processes[n]? = some p) :
    ∃ rest, m.live.Perm (p.spaces ++ rest) ∧ ∀ q : Process,
      (live { m with processes := m.processes.set n q }).Perm (q.spaces ++ rest) := by
  obtain ⟨rest, hold, hnew⟩ := exists_perm_filterMap Process.space h
  exact ⟨m.spaces.filterMap id ++ rest,
    (hold.append_left _).trans (List.perm_append_comm_assoc _ _ _),
    fun q => ((hnew q).append_left _).trans (List.perm_append_comm_assoc _ _ _)⟩

/-- Replacing the space of a process is replacing the process. -/
theorem putSpace_process (h : m.processes[n]? = some p) (s : AddressSpace) :
    m.putSpace (.process n) s =
      { m with processes := m.processes.set n { p with space := some s } } := by
  unfold putSpace
  simp only [List.modify_eq_set_getElem?, h]
  rfl

theorem kernel_putSpace (m : Machine) (name : SpaceName) (s : AddressSpace) :
    (m.putSpace name s).kernel = m.kernel := by
  cases name <;> rfl

/-- Who faults under the name of a space does so within it. -/
theorem current?_owner {name : SpaceName} (h : m.space? name = some s) :
    m.current? (.owner name) = some (.within s) := by
  cases name with
  | space n => simp [current?, h]
  | process n =>
      obtain ⟨p, hp, hspace⟩ := Option.bind_eq_some_iff.mp h
      simp [current?, hp, hspace]

/-- A space with a name, put in front of the others. -/
theorem exists_perm_putSpace {name : SpaceName} (h : m.space? name = some s) :
    ∃ rest, m.live.Perm (s :: rest) ∧ ∀ s', (m.putSpace name s').live.Perm (s' :: rest) := by
  cases name with
  | space n =>
      obtain ⟨rest, hold, hnew⟩ := exists_perm_space h
      exact ⟨rest, hold, fun s' => hnew (some s')⟩
  | process n =>
      obtain ⟨p, hp, hspace⟩ := Option.bind_eq_some_iff.mp h
      obtain ⟨rest, hold, hnew⟩ := exists_perm_process hp
      rw [Process.spaces, hspace] at hold
      refine ⟨rest, hold, fun s' => ?_⟩
      rw [putSpace_process hp]
      exact hnew { p with space := some s' }

theorem mem_live_of_space? {name : SpaceName} (h : m.space? name = some s) : s ∈ m.live := by
  obtain ⟨rest, hold, -⟩ := exists_perm_putSpace h
  exact hold.mem_iff.mpr List.mem_cons_self

theorem mem_live_of_process (hp : p ∈ m.processes) (hs : p.space = some s) : s ∈ m.live :=
  List.mem_append_right _ (List.mem_filterMap.mpr ⟨p, hp, hs⟩)

theorem perm_addSpace (m : Machine) (s : AddressSpace) :
    (live { m with spaces := m.spaces ++ [some s] }).Perm (s :: m.live) := by
  unfold live
  simp only [List.filterMap_append, List.append_assoc]
  exact List.perm_middle

theorem perm_addProcess (m : Machine) (p : Process) :
    (live { m with processes := m.processes ++ [p] }).Perm (p.spaces ++ m.live) := by
  have hlast : [p].filterMap Process.space = p.spaces := by
    cases hspace : p.space with
    | none => simp [Process.spaces, hspace]
    | some s => simp [Process.spaces, hspace]
  unfold live
  rw [List.filterMap_append, hlast, ← List.append_assoc]
  exact List.perm_append_comm

/-! ### How operations on the machine end -/

variable {α : Type} {ok : α → Machine → Prop} {ab : Refusal → Machine → Prop}

@[simp] theorem ends_onKernel (x : KernelM α) :
    Ends (onKernel x) m ok ab ↔
      Ends x m.kernel (fun a k => ok a { m with kernel := k })
        (fun e k => ab (.aborted e) { m with kernel := k }) := by
  simp only [Ends, onKernel]
  cases x m.kernel <;> rfl

/-- Lifting a kernel operation to the machine is `Machine.onKernel`. -/
@[simp] theorem liftM_eq (x : KernelM α) : (liftM x : MachineM α) = onKernel x := rfl

theorem ends_orUnknown (o : Option α) :
    Ends (orUnknown o) m ok ab ↔
      match o with
      | some a => ok a m
      | none => ab .unknownName m := by
  cases o <;> rfl

@[simp] theorem ends_addSpace (s : AddressSpace) {ok : Nat → Machine → Prop} :
    Ends (addSpace s) m ok ab ↔
      ok m.spaces.length { m with spaces := m.spaces ++ [some s] } := Iff.rfl

@[simp] theorem ends_addProcess (p : Process) {ok : Nat → Machine → Prop} :
    Ends (addProcess p) m ok ab ↔
      ok m.processes.length { m with processes := m.processes ++ [p] } := Iff.rfl

@[simp] theorem ends_putProcess (n : Nat) (p : Process) {ok : Unit → Machine → Prop} :
    Ends (putProcess n p) m ok ab ↔ ok () { m with processes := m.processes.set n p } := Iff.rfl

theorem ends_process {ok : Process → Machine → Prop} (hok : ∀ p, m.processes[n]? = some p → ok p m)
    (hab : ab .unknownName m) : Ends (process n) m ok ab := by
  unfold process
  simp only [ends_bind, ends_get, ends_orUnknown]
  split
  · next p hp => exact hok p hp
  · exact hab

theorem ends_takeSpace {ok : AddressSpace → Machine → Prop}
    (hok : ∀ s, m.space? (.space n) = some s → ok s { m with spaces := m.spaces.set n none })
    (hab : ab .unknownName m) : Ends (takeSpace n) m ok ab := by
  unfold takeSpace
  simp only [ends_bind, ends_get, ends_orUnknown, ends_modify, ends_pure]
  split
  · next s hs => exact hok s hs
  · exact hab

/-- Working on a space that there is. -/
theorem ends_onSpace_iff {x : SpaceM α} {name : SpaceName} (hs : m.space? name = some s) :
    Ends (onSpace name x) m ok ab ↔
      Ends x ⟨m.kernel, s⟩ (fun a w => ok a { m.putSpace name w.space with kernel := w.kernel })
        (fun e w => ab (.aborted e) { m.putSpace name w.space with kernel := w.kernel }) := by
  simp only [Ends, onSpace, hs]
  cases x ⟨m.kernel, s⟩ <;> rfl

theorem ends_onSpace {x : SpaceM α} {name : SpaceName}
    (hx : ∀ s, m.space? name = some s →
      Ends x ⟨m.kernel, s⟩ (fun a w => ok a { m.putSpace name w.space with kernel := w.kernel })
        (fun e w => ab (.aborted e) { m.putSpace name w.space with kernel := w.kernel }))
    (hab : ab .unknownName m) : Ends (onSpace name x) m ok ab := by
  cases hs : m.space? name with
  | some s => exact (ends_onSpace_iff hs).mpr (hx s hs)
  | none =>
      simp only [Ends, onSpace, hs]
      exact hab

/-- A system call to fork answers failures as well. -/
theorem ends_forkCall {P : Machine → Prop} (h : Ends (fork n) m (fun _ m' => P m') ab)
    (hfailed : ∀ e m', ab (.aborted (.failed e)) m' → P m') :
    Ends (forkCall n) m (fun _ m' => P m') ab := by
  -- `forkCall` looks at the result itself, so the cases are those of `fork`
  unfold Ends at h ⊢
  unfold forkCall
  split at h
  · next heq => simpa only [heq] using h
  · next e m' heq =>
      rcases e with _ | ⟨e | halt⟩
      · simpa only [heq] using h
      · simpa only [heq] using hfailed e m' h
      · simpa only [heq] using h

/-- What is true of how a request ends is true of the step that serves it. -/
theorem step_cases {r : Request} {ok : Reply → Machine → Prop} {ab : Refusal → Machine → Prop}
    (h : Ends (answer r) m ok ab) :
    (∃ reply m', m.step r = (.ok reply, m') ∧ ok reply m') ∨
      ∃ e m', m.step r = (.error e, m') ∧ ab e m' := by
  unfold step
  cases hanswer : answer r m with
  | ok reply m' => exact Or.inl ⟨reply, m', rfl, h.of_ok hanswer⟩
  | error e m' => exact Or.inr ⟨e, m', rfl, h.of_error hanswer⟩

/-- The same of the machine alone, where it does not matter whether there is a reply. -/
theorem step_of_ends {r : Request} {P : Machine → Prop}
    (h : Ends (answer r) m (fun _ => P) fun _ => P) : P (m.step r).2 := by
  rcases step_cases h with ⟨reply, m', hstep, hm'⟩ | ⟨e, m', hstep, hm'⟩
  · rw [hstep]
    exact hm'
  · rw [hstep]
    exact hm'

end Machine

end DemandPaging
