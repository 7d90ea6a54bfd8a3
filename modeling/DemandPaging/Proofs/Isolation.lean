import DemandPaging.Proofs.Asides
import DemandPaging.Proofs.Faults
import DemandPaging.Proofs.Transfers

/-!
# Isolation between spaces

Whatever happens to other spaces in between, a program is answered the same, and finds the same in
its memory, as if nothing had happened (`History.isolated`).  The frames behind its pages may well
be other ones, since all spaces take them from one allocator, and so may the slots of the cache.

**Two runs at once.**  Of the two machines that are compared nothing is the same except what can be
seen of the one space.  That is enough: what a request on the space is answered, and what can be
seen afterwards, is a function of the view (`View.answer`, `Machine.ends_answer_on`), and a request
that is an aside changes neither.

**What has to be excluded.**  Frames and cache slots can run out in one run and not in the other.
And an aside that stops the machine ends the run that it is in, while the run without asides goes
on; what is compared then is the requests on the space that came before it.
-/

namespace DemandPaging

/-- **Requests on a space**: what a program does by running in it, and what the kernel does on the
program's behalf. -/
def Request.isOn (A : SpaceName) : Request → Bool
  | .fault who _ _ => decide (who = .owner A)
  | .space name (.read _ _) | .space name (.write _ _) | .space name (.coverage _) =>
    decide (name = A)
  | _ => false

/-- A frame that stands for any. -/
def Frame.any : Frame := ⟨0, by decide⟩

/-- The reply as a program sees it: it is not told which frame a page lies in. -/
def Reply.seen : Reply → Reply
  | .resolved e b => .resolved (e.map fun e => { e with frame := .any }) b
  | reply => reply

namespace Machine

/-- The outcome as a program sees it. -/
def seen (o : Outcome) : Outcome := o.map Reply.seen

/-- Whether frames or cache slots have run out. -/
def isExhausted : Outcome → Bool
  | .error (.aborted (.failed .outOfMemory)) | .error (.aborted (.failed .cacheFull)) => true
  | _ => false

@[simp] theorem isExhausted_seen (o : Outcome) : isExhausted (seen o) = isExhausted o := by
  cases o <;> rfl

@[simp] theorem hasHalted_seen (o : Outcome) : hasHalted (seen o) = hasHalted o := by
  cases o <;> rfl

/-- **Answers**: what comes of the requests on a space among those that are served. -/
def answersOn (A : SpaceName) (m : Machine) (rs : List Request) : List Outcome :=
  ((rs.zip (m.serve rs).1).filter fun x => x.1.isOn A).map fun x => seen x.2

/-- **Alike**: of the space with this name the same can be seen in both machines. -/
def Alike (A : SpaceName) (m m' : Machine) : Prop :=
  ∃ s s', m.space? A = some s ∧ m'.space? A = some s' ∧
    s.view m.kernel.memory = s'.view m'.kernel.memory

end Machine

/-- **Answers to requests on a space**, and what can be seen of the space afterwards, as far as
frames and cache slots suffice. -/
def View.answer (v : View) : Request → Machine.Outcome × View
  | .fault _ access a =>
    match v.fault access a with
    | (.ok (), v') =>
      (.ok (.resolved ((v'.pages a.page).map fun c => ⟨a.page, .any, c.1⟩) v'.bounds), v')
    | (.error e, v') => (.error (.aborted (.failed e)), v')
  | .space _ (.read a count) =>
    match v.read a count with
    | .ok bytes => (.ok (.bytes bytes), v)
    | .error e => (.error (.aborted e), v)
  | .space _ (.write a bytes) =>
    match v.write a bytes with
    | (.ok (), v') => (.ok .done, v')
    | (.error e, v') => (.error (.aborted e), v')
  | .space _ (.coverage a) => (.ok (.coverage (v.coverage a)), v)
  | _ => (.error .unknownName, v)

namespace Machine

variable {m m₁ m₂ : Machine} {A : SpaceName} {s : AddressSpace} {r : Request} {rs : List Request}
  {held : List Block} {tally : Tally}

/-! ### One request -/

/-- The space answers as its view does. -/
def Answers (A : SpaceName) (v : View) (r : Request) (o : Outcome) (m' : Machine) : Prop :=
  ∃ s', m'.space? A = some s' ∧ (seen o, s'.view m'.kernel.memory) = v.answer r

/-- The mapping of an address, as far as it can be seen. -/
theorem map_lookup (s : AddressSpace) (k : Memory) (a : VirtAddr) :
    (s.lookup a).map (fun e => { e with frame := .any }) =
      ((s.view k).pages a.page).map fun c => ⟨a.page, .any, c.1⟩ := by
  show (s.table.find? a.page).map _ = Option.map _ ((s.table.find? a.page).map _)
  rw [Option.map_map]
  refine Option.map_congr fun e he => ?_
  simp only [Function.comp, (PageRow.mem_of_find? he).2]

/-- **A fault in an orderly machine** leaves the space in its place, with frames of its own. -/
theorem ends_answerFault_apart (h : Custody m.kernel m.live held tally) (hA : m.space? A = some s)
    (access : Access) (a : VirtAddr) :
    Ends (answerFault (.owner A) access a) m
      (fun reply m' => ∃ k s', reply = .resolved (s'.lookup a) s'.bounds ∧
        m' = putSpace { m with kernel := k } A s' ∧ m'.space? A = some s' ∧ s'.frames.Nodup ∧
        PageFault.Handles access a ⟨m.kernel, s⟩ (.ok ()) ⟨k, s'⟩)
      fun e m' => ∃ error k s', e = .aborted (.failed error) ∧
        m' = putSpace { m with kernel := k } A s' ∧ m'.space? A = some s' ∧ s'.frames.Nodup ∧
        PageFault.Handles access a ⟨m.kernel, s⟩ (.error error) ⟨k, s'⟩ := by
  have happart : ∀ {k s'},
      Custody (putSpace { m with kernel := k } A s').kernel
        (putSpace { m with kernel := k } A s').live held tally →
      (putSpace { m with kernel := k } A s').space? A = some s' ∧ s'.frames.Nodup := by
    intro k s' hcustody
    have hspace := space?_putSpace_self ((space?_withKernel m k).trans hA) s'
    exact ⟨hspace, hcustody.nodup_of_mem (mem_live_of_space? hspace)⟩
  have hends := (keeps_answerFault h (.owner A) access a).and
    (ends_answerFault_built h.isInitialized hA access a)
  refine Ends.mono hends ?_ ?_
  · rintro reply m' ⟨hcustody, k, s', rfl, rfl, hhandles⟩
    obtain ⟨hspace, hnodup⟩ := happart hcustody
    exact ⟨k, s', rfl, rfl, hspace, hnodup, hhandles⟩
  · rintro e m' ⟨hcustody, error, k, s', rfl, rfl, hhandles⟩
    obtain ⟨hspace, hnodup⟩ := happart hcustody
    exact ⟨error, k, s', rfl, rfl, hspace, hnodup, hhandles⟩

theorem ends_answerFault_on (h : Custody m.kernel m.live held tally) (hA : m.space? A = some s)
    (access : Access) (a : VirtAddr) :
    Ends (answerFault (.owner A) access a) m
      (fun reply m' => Answers A (s.view m.kernel.memory) (.fault (.owner A) access a) (.ok reply)
        m')
      (fun e m' => isExhausted (.error e) = true ∨
        Answers A (s.view m.kernel.memory) (.fault (.owner A) access a) (.error e) m') := by
  refine Ends.mono (ends_answerFault_apart h hA access a) ?_ ?_
  · rintro reply m' ⟨k, s', rfl, rfl, hspace, hnodup, hhandles⟩
    obtain hmemory | hcache | hview := hhandles.view hnodup
    · cases hmemory
    · cases hcache
    · have hfault : (s.view m.kernel.memory).fault access a = (.ok (), s'.view k.memory) :=
        hview.symm
      refine ⟨s', hspace, ?_⟩
      simp only [kernel_putSpace, View.answer, hfault, seen, Except.map, Reply.seen,
        map_lookup s' k.memory a]
      rfl
  · rintro e m' ⟨error, k, s', rfl, rfl, hspace, hnodup, hhandles⟩
    obtain hmemory | hcache | hview := hhandles.view hnodup
    · cases hmemory
      exact Or.inl rfl
    · cases hcache
      exact Or.inl rfl
    · have hfault : (s.view m.kernel.memory).fault access a = (.error error, s'.view k.memory) :=
        hview.symm
      refine Or.inr ⟨s', hspace, ?_⟩
      simp only [kernel_putSpace, View.answer, hfault]
      rfl

/-- **Transfers**: the space answers as its view does and stays as it is, and of the kernel nothing
but memory changes. -/
structure Transfers (A : SpaceName) (s : AddressSpace) (m : Machine) (r : Request) (o : Outcome)
    (m' : Machine) : Prop where
  space : m'.space? A = some s
  kernel : m'.kernel = { m.kernel with memory := m'.kernel.memory }
  answer : (seen o, s.view m'.kernel.memory) = (s.view m.kernel.memory).answer r

/-- Reading, writing and asking for coverage are transfers. -/
theorem ends_answerSpace_on (h : Custody m.kernel m.live held tally) (hA : m.space? A = some s)
    {r : SpaceRequest} (hr : (Request.space A r).isOn A = true) :
    Ends (answer (.space A r)) m (fun reply m' => Transfers A s m (.space A r) (.ok reply) m')
      fun e m' => Transfers A s m (.space A r) (.error e) m' := by
  have hnodup := h.nodup_of_mem (mem_live_of_space? hA)
  have hspace : ∀ k, space? { m.putSpace A s with kernel := k } A = some s := fun k =>
    (space?_withKernel _ k).trans (space?_putSpace_self hA s)
  refine (ends_onSpace_iff (x := answerSpace r) hA).mpr ?_
  cases r with
  | read a count =>
      unfold answerSpace
      simp only [ends_bind, SpaceM.ends_space, ends_get, AddressSpace.read_eq]
      cases hread : (s.view m.kernel.memory).read a count with
      | ok bytes =>
          exact ⟨hspace _, rfl, by simp [View.answer, hread, seen, Except.map, Reply.seen]⟩
      | error e => exact ⟨hspace _, rfl, by simp [View.answer, hread, seen, Except.map]⟩
  | write a bytes =>
      unfold answerSpace
      simp only [ends_bind, SpaceM.ends_space, SpaceM.liftM_eq, SpaceM.ends_onKernel, ends_pure]
      refine Ends.mono (AddressSpace.ends_write hnodup a bytes) ?_ ?_
      · rintro _ k ⟨hwrite, hk⟩
        exact ⟨hspace _, hk, by simp [View.answer, hwrite, seen, Except.map, Reply.seen]⟩
      · rintro e k ⟨hwrite, hk⟩
        exact ⟨hspace _, hk, by simp [View.answer, hwrite, seen, Except.map]⟩
  | coverage a => exact ⟨hspace _, rfl, rfl⟩
  | _ => cases hr

/-- Requests on a space are faults and transfers. -/
theorem cases_isOn (hr : r.isOn A = true) :
    (∃ access a, r = .fault (.owner A) access a) ∨ ∃ q, r = .space A q := by
  unfold Request.isOn at hr
  split at hr
  · next who access a => exact Or.inl ⟨access, a, by rw [of_decide_eq_true hr]⟩
  · next name a count => exact Or.inr ⟨.read a count, by rw [of_decide_eq_true hr]⟩
  · next name a bytes => exact Or.inr ⟨.write a bytes, by rw [of_decide_eq_true hr]⟩
  · next name a => exact Or.inr ⟨.coverage a, by rw [of_decide_eq_true hr]⟩
  · cases hr

/-- **Answers to requests on a space** are those of its view, unless frames or cache slots have run
out. -/
theorem ends_answer_on (h : Custody m.kernel m.live held tally) (hA : m.space? A = some s)
    (hr : r.isOn A = true) :
    Ends (answer r) m
      (fun reply m' => Answers A (s.view m.kernel.memory) r (.ok reply) m')
      (fun e m' => isExhausted (.error e) = true ∨
        Answers A (s.view m.kernel.memory) r (.error e) m') := by
  obtain ⟨access, a, rfl⟩ | ⟨q, rfl⟩ := cases_isOn hr
  · exact ends_answerFault_on h hA access a
  · exact Ends.mono (ends_answerSpace_on h hA hr) (fun _ _ ht => ⟨s, ht.space, ht.answer⟩)
      fun _ _ ht => Or.inr ⟨s, ht.space, ht.answer⟩

theorem answers_on (h : Custody m.kernel m.live held tally) (hA : m.space? A = some s)
    (hr : r.isOn A = true) (henough : isExhausted (m.step r).1 = false) :
    Answers A (s.view m.kernel.memory) r (m.step r).1 (m.step r).2 := by
  rcases step_cases (ends_answer_on h hA hr) with ⟨_, _, hstep, hanswers⟩ | ⟨_, _, hstep, hends⟩
  · rw [hstep]
    exact hanswers
  · rw [hstep] at henough ⊢
    rcases hends with hexhausted | hanswers
    · rw [hexhausted] at henough
      cases henough
    · exact hanswers

/-- What is spared cannot be seen to change. -/
theorem Spares.view (h : Spares A s m m₁) : s.view m₁.kernel.memory = s.view m.kernel.memory :=
  AddressSpace.view_congr h.bytes

/-! ### Two machines -/

/-- **Orderly** machines: all frames in use belong to a space or are held. -/
def IsOrderly (m : Machine) : Prop := ∃ held tally, Custody m.kernel m.live held tally

/-- Requests that are permitted whatever callers hold keep a machine orderly. -/
theorem IsOrderly.next (h : m.IsOrderly) (permitted : ∀ held, History.Permits ⟨m, held⟩ r)
    (alive : hasHalted (m.step r).1 = false) : (m.step r).2.IsOrderly := by
  obtain ⟨held, tally, hc⟩ := h
  obtain ⟨room, -, hnext⟩ := History.InCustody.next (h := ⟨m, held⟩) hc (permitted held) alive
  exact ⟨_, _, hnext⟩

/-- Requests on spaces and asides are permitted. -/
theorem IsOrderly.step (h : m.IsOrderly) (hr : r.isOn A = true ∨ r.isAside A = true)
    (alive : hasHalted (m.step r).1 = false) : (m.step r).2.IsOrderly := by
  refine h.next (fun held => ?_) alive
  cases r with
  | frames r => rcases hr with hr | hr <;> cases hr
  | table n r => rcases hr with hr | hr <;> cases hr
  | _ => trivial

/-- A request on the space, to both machines. -/
theorem Alike.on (h : Alike A m₁ m₂) (h₁ : m₁.IsOrderly) (h₂ : m₂.IsOrderly)
    (hr : r.isOn A = true) (henough₁ : isExhausted (m₁.step r).1 = false)
    (henough₂ : isExhausted (m₂.step r).1 = false) :
    seen (m₁.step r).1 = seen (m₂.step r).1 ∧ Alike A (m₁.step r).2 (m₂.step r).2 := by
  obtain ⟨s₁, s₂, hs₁, hs₂, hview⟩ := h
  obtain ⟨_, _, hc₁⟩ := h₁
  obtain ⟨_, _, hc₂⟩ := h₂
  obtain ⟨s₁', hs₁', hanswer₁⟩ := answers_on hc₁ hs₁ hr henough₁
  obtain ⟨s₂', hs₂', hanswer₂⟩ := answers_on hc₂ hs₂ hr henough₂
  rw [hview, ← hanswer₂] at hanswer₁
  obtain ⟨hseen, hafter⟩ := Prod.mk.inj hanswer₁
  exact ⟨hseen, s₁', s₂', hs₁', hs₂', hafter⟩

/-- An aside, to the first of them only. -/
theorem Alike.aside (h : Alike A m₁ m₂) (h₁ : m₁.IsOrderly) (hr : r.isAside A = true) :
    Alike A (m₁.step r).2 m₂ := by
  obtain ⟨s₁, s₂, hs₁, hs₂, hview⟩ := h
  obtain ⟨_, _, hc₁⟩ := h₁
  have hspared : Spares A s₁ m₁ (m₁.step r).2 := step_of_ends (passes_answer hc₁ hs₁ hr)
  exact ⟨s₁, s₂, hspared.space?, hs₂, hspared.view.trans hview⟩

/-! ### Two runs -/

theorem serve_cons (m : Machine) (r : Request) (rest : List Request) :
    m.serve (r :: rest) =
      if hasHalted (m.step r).1 then ([(m.step r).1], (m.step r).2)
      else ((m.step r).1 :: ((m.step r).2.serve rest).1, ((m.step r).2.serve rest).2) := rfl

theorem answersOn_cons_on (hr : r.isOn A = true) (m : Machine) (rest : List Request) :
    m.answersOn A (r :: rest) = seen (m.step r).1 ::
      if hasHalted (m.step r).1 then [] else (m.step r).2.answersOn A rest := by
  unfold answersOn
  rw [serve_cons]
  split
  · simp [hr]
  · simp [hr]

theorem answersOn_cons_aside (hr : r.isOn A = false) (m : Machine) (rest : List Request) :
    m.answersOn A (r :: rest) =
      if hasHalted (m.step r).1 then [] else (m.step r).2.answersOn A rest := by
  unfold answersOn
  rw [serve_cons]
  split
  · simp [hr]
  · simp [hr]

/-- **With asides and without**, by induction on the requests: machines that are alike answer alike
and stay alike, up to the point where an aside stops the first of them. -/
theorem Alike.serve :
    ∀ (rs : List Request) {m₁ m₂ : Machine}, Alike A m₁ m₂ → m₁.IsOrderly → m₂.IsOrderly →
      (∀ r ∈ rs, r.isOn A = true ∨ r.isAside A = true) →
      (∀ o ∈ m₁.answersOn A rs, isExhausted o = false) →
      (∀ o ∈ m₂.answersOn A (rs.filter (·.isOn A)), isExhausted o = false) →
      ∃ rs', rs' <+: rs.filter (·.isOn A) ∧ m₁.answersOn A rs = m₂.answersOn A rs' ∧
        Alike A (m₁.serve rs).2 (m₂.serve rs').2 ∧
        ((∀ x ∈ rs.zip (m₁.serve rs).1, x.1.isOn A = false → hasHalted x.2 = false) →
          rs' = rs.filter (·.isOn A))
  | [], m₁, m₂, h, _, _, _, _, _ => ⟨[], List.prefix_rfl, rfl, h, fun _ => rfl⟩
  | r :: rest, m₁, m₂, h, h₁, h₂, hrs, henough₁, henough₂ => by
      have hr := hrs r List.mem_cons_self
      have hrest : ∀ r ∈ rest, r.isOn A = true ∨ r.isAside A = true :=
        fun r' hr' => hrs r' (List.mem_cons_of_mem _ hr')
      by_cases hon : r.isOn A = true
      · have hfilter : (r :: rest).filter (·.isOn A) = r :: rest.filter (·.isOn A) := by simp [hon]
        rw [hfilter] at henough₂ ⊢
        rw [answersOn_cons_on hon] at henough₁ henough₂ ⊢
        have hhead₁ := henough₁ _ List.mem_cons_self
        have hhead₂ := henough₂ _ List.mem_cons_self
        rw [isExhausted_seen] at hhead₁ hhead₂
        obtain ⟨hseen, hafter⟩ := h.on h₁ h₂ hon hhead₁ hhead₂
        have hhalted : hasHalted (m₂.step r).1 = hasHalted (m₁.step r).1 := by
          rw [← hasHalted_seen, ← hseen, hasHalted_seen]
        rw [hhalted] at henough₂
        rw [serve_cons]
        by_cases halted : hasHalted (m₁.step r).1 = true
        · -- both machines stop here
          refine ⟨r :: rest.filter (·.isOn A), List.prefix_rfl, ?_, ?_, fun _ => rfl⟩
          · rw [answersOn_cons_on hon, hhalted, if_pos halted, if_pos halted, hseen]
          · rw [serve_cons, hhalted, if_pos halted, if_pos halted]
            exact hafter
        · simp only [if_neg halted] at henough₁ henough₂ ⊢
          have alive : hasHalted (m₁.step r).1 = false := by simpa using halted
          obtain ⟨rs', hbefore, hsame, hend, hall⟩ := hafter.serve rest (h₁.step hr alive)
            (h₂.step hr (hhalted.trans alive)) hrest
            (fun o ho => henough₁ o (List.mem_cons_of_mem _ ho))
            (fun o ho => henough₂ o (List.mem_cons_of_mem _ ho))
          refine ⟨r :: rs', (List.prefix_cons_inj _).mpr hbefore, ?_, ?_, fun hasides => ?_⟩
          · rw [answersOn_cons_on hon, hhalted, if_neg halted, hseen, hsame]
          · rw [serve_cons, hhalted, if_neg halted]
            exact hend
          · rw [hall fun x hx => hasides x (List.mem_cons_of_mem _ hx)]
      · have hoff : r.isOn A = false := by simpa using hon
        have hfilter : (r :: rest).filter (·.isOn A) = rest.filter (·.isOn A) := by simp [hoff]
        have haside : r.isAside A = true := by simpa [hoff] using hr
        have hafter := h.aside h₁ haside
        rw [hfilter] at henough₂ ⊢
        rw [answersOn_cons_aside hoff] at henough₁ ⊢
        rw [serve_cons]
        by_cases halted : hasHalted (m₁.step r).1 = true
        · -- the first machine stops here, so of the second no more is asked
          simp only [if_pos halted]
          refine ⟨[], List.nil_prefix, rfl, hafter, fun hasides => ?_⟩
          have alive := hasides (r, (m₁.step r).1) List.mem_cons_self hoff
          rw [halted] at alive
          cases alive
        · simp only [if_neg halted] at henough₁ ⊢
          have alive : hasHalted (m₁.step r).1 = false := by simpa using halted
          obtain ⟨rs', hbefore, hsame, hend, hall⟩ :=
            hafter.serve rest (h₁.step hr alive) h₂ hrest henough₁ henough₂
          exact ⟨rs', hbefore, hsame, hend,
            fun hasides => hall fun x hx => hasides x (List.mem_cons_of_mem _ hx)⟩

end Machine

namespace History

/-- **Isolation.**  At any point of a history from a fresh machine let requests be served some of
which are on a space and all others asides to it: faults, reads, writes and growth of other spaces,
loading them, giving them up and duplicating them, starting, forking and ending other processes.
Without the asides, the requests on the space are answered the same, and in the end the same can be
seen of the space: its regions and bounds, its pages and their flags and bytes.  If an aside stops
the machine, that is true of those requests that came before it.  All this holds as long as neither
of the two runs is short of frames or cache slots when it serves the space. -/
theorem isolated {m : Machine} (fresh : m.IsFresh) {h : History} {rs₀ rs : List Request}
    (run : Run ⟨m, []⟩ rs₀ h) {A : SpaceName} {s : AddressSpace}
    (hA : h.machine.space? A = some s)
    (about : ∀ r ∈ rs, r.isOn A = true ∨ r.isAside A = true)
    (enough : ∀ o ∈ h.machine.answersOn A rs, Machine.isExhausted o = false)
    (enough' : ∀ o ∈ h.machine.answersOn A (rs.filter (·.isOn A)),
      Machine.isExhausted o = false) :
    ∃ rs', rs' <+: rs.filter (·.isOn A) ∧
      h.machine.answersOn A rs = h.machine.answersOn A rs' ∧
      Machine.Alike A (h.machine.serve rs).2 (h.machine.serve rs').2 ∧
      ((∀ x ∈ rs.zip (h.machine.serve rs).1, x.1.isOn A = false →
          Machine.hasHalted x.2 = false) → rs' = rs.filter (·.isOn A)) := by
  obtain ⟨room, -, hc⟩ := run.inCustody (inCustody_of_isFresh fresh)
  have horderly : h.machine.IsOrderly := ⟨_, _, hc⟩
  have halike : Machine.Alike A h.machine h.machine := ⟨s, s, hA, hA, rfl⟩
  exact halike.serve rs horderly horderly about enough enough'

/-- Isolation over sixteen frames: a program is started and forked, and while parent and child
both touch the same page of their stack and write to the same address, the child is duplicated and
ends.  The parent grows another page and reads. -/
theorem isolated_sixteen_frames :
    ∃ rs₀ h rs, Run ⟨sixteenFrames, []⟩ rs₀ h ∧ rs.length = 9 ∧
      (h.machine.answersOn (.process 0) rs).length = 5 ∧
      h.machine.answersOn (.process 0) rs =
        h.machine.answersOn (.process 0) (rs.filter (·.isOn (.process 0))) ∧
      Machine.Alike (.process 0) (h.machine.serve rs).2
        (h.machine.serve (rs.filter (·.isOn (.process 0)))).2 := by
  have forked : Run ⟨sixteenFrames, []⟩ _ _ :=
    (Run.start.next (.startProgram [⟨⟨0x1000, by decide⟩, [1, 2, 3], 8, ⟨true, true, false⟩⟩]
      ⟨0x1000, by decide⟩) trivial (by decide +kernel)).next (.fork 0) trivial (by decide +kernel)
  let touch (n : Nat) : Request :=
    .fault (.owner (.process n)) .write ⟨0x6fffffffe000, by decide⟩
  let store (n : Nat) (b : UInt8) : Request :=
    .space (.process n) (.write ⟨0x1002, by decide⟩ [b])
  let rs : List Request := [touch 1, touch 0, store 0 7, store 1 9, .duplicateSpace (.process 1),
    .process 1 (.exit 0), .fault (.owner (.process 0)) .read ⟨0x6fffffffd000, by decide⟩,
    .space (.process 0) (.read ⟨0x1001, by decide⟩ 2),
    .space (.process 0) (.coverage ⟨0x6fffffffc000, by decide⟩)]
  obtain ⟨rs₀, h, run, hspace, henough, henough', hasides, hlength⟩ : ∃ rs₀ h,
      Run ⟨sixteenFrames, []⟩ rs₀ h ∧ (h.machine.space? (.process 0)).isSome = true ∧
      (∀ o ∈ h.machine.answersOn (.process 0) rs, Machine.isExhausted o = false) ∧
      (∀ o ∈ h.machine.answersOn (.process 0) (rs.filter (·.isOn (.process 0))),
        Machine.isExhausted o = false) ∧
      (∀ x ∈ rs.zip (h.machine.serve rs).1, x.1.isOn (.process 0) = false →
        Machine.hasHalted x.2 = false) ∧
      (h.machine.answersOn (.process 0) rs).length = 5 :=
    ⟨_, _, forked, by decide +kernel, by decide +kernel, by decide +kernel, by decide +kernel,
      by decide +kernel⟩
  obtain ⟨s, hs⟩ := Option.isSome_iff_exists.mp hspace
  obtain ⟨rs', -, hsame, halike, hall⟩ :=
    isolated isFresh_sixteenFrames run hs (by decide) henough henough'
  obtain rfl := hall hasides
  exact ⟨rs₀, h, rs, run, rfl, hlength, hsame, halike⟩

end History

end DemandPaging
