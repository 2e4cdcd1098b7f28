import Brtos.Invariant.Step

/-!
# Brtos.Invariant.Stack

**Last-in-first-out release keeps the priorities nested.**

Along an execution in which every task releases the mutex it acquired last, the
mutexes a task holds form a stack: each remembers, as `OSOriginalPriority`, the
level of the part of the stack below it, and the task's current priority is the
level of the whole stack, that is the maximum of its base priority and the
ceilings it holds (`StackInv`). So what a release restores is the base priority or
the ceiling of a mutex that is still held, and a last-in-first-out release is a
nested one (`nested_of_lifo`).
-/

namespace Brtos

open Bits Kernel

variable {cfg : Config} {s t u : Kernel cfg}

namespace Kernel

/-- The priority a task has by holding `ms`, latest first. -/
def level (s : Kernel cfg) (h : Nat) : List Nat → Nat
  | [] => s.base h
  | m :: ms => max (s.mutexTable m).osMaxPriority (s.level h ms)

/-- The mutexes `ms` were acquired by `h` one on top of the other. -/
def Stacked (s : Kernel cfg) (h : Nat) : List Nat → Prop
  | [] => True
  | m :: ms => s.owner m = h ∧ (s.mutexTable m).osOriginalPriority = s.level h ms ∧
      (s.level h ms < (s.mutexTable m).osMaxPriority →
        s.priorityVector (s.mutexTable m).osMaxPriority = h) ∧
      s.Stacked h ms

end Kernel

/-- Every task's mutexes form a stack. -/
structure StackInv (s : Kernel cfg) : Prop where
  stacked : ∀ {h}, s.Installed h → s.Stacked h (s.held h)
  prio_eq : ∀ {h}, s.Installed h → s.prio h = s.level h (s.held h)
  nodup : ∀ {h}, s.Installed h → (s.held h).Nodup
  owned : ∀ {h m}, s.Installed h → s.owner m = h →
    m ∈ s.held h ∨ ∃ p tw, s.frame h = .pend (.mutex m) p tw
  pending : ∀ {h m p tw}, s.Installed h → s.frame h = .pend (.mutex m) p tw → m ∉ s.held h
  absent : ∀ {h}, ¬ s.Installed h → s.held h = []

/-! ### Stacks -/

theorem Stacked.owner_eq {h : Nat} : ∀ {ms : List Nat}, s.Stacked h ms → ∀ m ∈ ms, s.owner m = h
  | [], _, m, hm => by simp at hm
  | m' :: ms, hst, m, hm => by
      rcases List.mem_cons.mp hm with rfl | hm
      · exact hst.1
      · exact Stacked.owner_eq hst.2.2.2 m hm

theorem level_congr {h : Nat} (hbase : t.base h = s.base h) : ∀ {ms : List Nat},
    (∀ m ∈ ms, (t.mutexTable m).osMaxPriority = (s.mutexTable m).osMaxPriority) →
    t.level h ms = s.level h ms
  | [], _ => hbase
  | m :: ms, htab => by
      rw [level, level, htab m (by simp),
        level_congr hbase fun m' hm' => htab m' (List.mem_cons_of_mem _ hm')]

/-- A stack is kept as long as its mutexes and the entries of their ceilings are. -/
theorem Stacked.congr {h : Nat} (hbase : t.base h = s.base h) : ∀ {ms : List Nat},
    (∀ m ∈ ms, t.mutexTable m = s.mutexTable m) →
    (∀ m ∈ ms, 0 < (s.mutexTable m).osMaxPriority →
      s.priorityVector (s.mutexTable m).osMaxPriority = h →
      t.priorityVector (s.mutexTable m).osMaxPriority = h) →
    s.Stacked h ms → t.Stacked h ms
  | [], _, _, _ => trivial
  | m :: ms, htab, hpv, ⟨ho, horig, hc, hst⟩ => by
      have hlev : t.level h ms = s.level h ms :=
        level_congr hbase fun m' hm' => by rw [htab m' (List.mem_cons_of_mem _ hm')]
      refine ⟨?_, ?_, ?_, ?_⟩
      · rw [Kernel.owner, htab m (by simp)]
        exact ho
      · rw [htab m (by simp), hlev]
        exact horig
      · rw [htab m (by simp), hlev]
        intro hlt
        exact hpv m (by simp) (Nat.zero_lt_of_lt hlt) (hc hlt)
      · exact Stacked.congr hbase (fun m' hm' => htab m' (List.mem_cons_of_mem _ hm'))
          (fun m' hm' => hpv m' (List.mem_cons_of_mem _ hm')) hst

/-- The level of a stack is the base priority or a ceiling in the stack that the
task has taken. -/
theorem Stacked.level_cases {h : Nat} : ∀ {ms : List Nat}, s.Stacked h ms →
    s.level h ms = s.base h ∨ ∃ m ∈ ms, (s.mutexTable m).osMaxPriority = s.level h ms ∧
      0 < s.level h ms ∧ s.priorityVector (s.level h ms) = h
  | [], _ => Or.inl rfl
  | m :: ms, ⟨ho, horig, hc, hst⟩ => by
      by_cases hlt : s.level h ms < (s.mutexTable m).osMaxPriority
      · have hlev : s.level h (m :: ms) = (s.mutexTable m).osMaxPriority := by
          rw [level]
          omega
        rw [hlev]
        exact Or.inr ⟨m, by simp, rfl, by omega, hc hlt⟩
      · have hlev : s.level h (m :: ms) = s.level h ms := by
          rw [level]
          omega
        rw [hlev]
        rcases Stacked.level_cases hst with hb | ⟨m', hm', h1, h2, h3⟩
        · exact Or.inl hb
        · exact Or.inr ⟨m', List.mem_cons_of_mem _ hm', h1, h2, h3⟩

/-- A held mutex is owned. -/
theorem StackInv.owner_of_held (hst : StackInv s) {h m : Nat} (hi : s.Installed h)
    (hm : m ∈ s.held h) : s.owner m = h :=
  Stacked.owner_eq (hst.stacked hi) m hm

/-- **Last-in-first-out implies nested.** -/
theorem nested_of_lifo (ht : TableInv s) (hst : StackInv s) (hi : s.Installed s.currentTask)
    {m : Nat} (hl : s.LifoRelease m) : s.NestedRelease m := by
  obtain ⟨ms, hms⟩ : ∃ ms, s.held s.currentTask = m :: ms := by
    unfold LifoRelease at hl
    cases hh : s.held s.currentTask with
    | nil => simp [hh] at hl
    | cons m' ms =>
        rw [hh] at hl
        cases hl
        exact ⟨ms, rfl⟩
  have hstk := hst.stacked hi
  have hnd := hst.nodup hi
  rw [hms] at hstk hnd
  obtain ⟨-, horig, -, hstk⟩ := hstk
  unfold NestedRelease
  dsimp only
  rw [horig]
  rcases Stacked.level_cases hstk with hb | ⟨m', hm', hmax, hpos, hpv⟩
  · exact Or.inl hb
  · have ho := Stacked.owner_eq hstk m' hm'
    have ha := (ht.owner_installed (m := m') (by rw [ho]; exact hi.pos)).1
    refine Or.inr ⟨m', ht.mutex_lt ha, ?_, ha, ho, hmax, hpos, hpv⟩
    rintro rfl
    exact (List.nodup_cons.mp hnd).1 hm'

/-! ### Steps that do not acquire or release -/

/-- Owned mutexes and the ceilings their owners have taken are left alone. -/
theorem StackInv.congr (hst : StackInv s) (hinst : ∀ h, t.Installed h ↔ s.Installed h)
    (hprio : ∀ h, s.Installed h → t.prio h = s.prio h) (hbase : t.base = s.base)
    (hheld : t.held = s.held) (htab : ∀ m, s.owner m ≠ 0 → t.mutexTable m = s.mutexTable m)
    (hown : ∀ m, t.owner m = s.owner m)
    (hpv : ∀ h p, s.Installed h → 0 < p → s.priorityVector p = h → t.priorityVector p = h)
    (howned : ∀ h m, s.Installed h → s.owner m = h →
      m ∈ s.held h ∨ ∃ p tw, t.frame h = .pend (.mutex m) p tw)
    (hpend : ∀ h m p tw, s.Installed h → t.frame h = .pend (.mutex m) p tw → m ∉ s.held h) :
    StackInv t := by
  have htab' : ∀ h, s.Installed h → ∀ m ∈ s.held h, t.mutexTable m = s.mutexTable m := by
    intro h hi m hm
    refine htab m ?_
    rw [hst.owner_of_held hi hm]
    exact hi.pos
  constructor
  all_goals simp only [hinst, hheld, hown]
  case stacked =>
    intro h hi
    refine Stacked.congr (by rw [hbase]) (htab' h hi) ?_ (hst.stacked hi)
    exact fun m _ hpos => hpv h _ hi hpos
  case prio_eq =>
    intro h hi
    rw [hprio h hi, hst.prio_eq hi]
    exact (level_congr (by rw [hbase]) fun m hm => by rw [htab' h hi m hm]).symm
  case nodup => exact hst.nodup
  case owned => exact fun {h m} => howned h m
  case pending => exact fun {h m p tw} => hpend h m p tw
  case absent => exact hst.absent

/-- Two states that agree on everything `StackInv` reads. -/
structure SameStack (s t : Kernel cfg) : Prop where
  taskAlloc : t.taskAlloc = s.taskAlloc
  prio : ∀ h, t.prio h = s.prio h
  base : t.base = s.base
  held : t.held = s.held
  mutexTable : t.mutexTable = s.mutexTable
  priorityVector : t.priorityVector = s.priorityVector

theorem StackInv.same (hst : StackInv s) (h : SameStack s t) (hf : t.frame = s.frame) :
    StackInv t :=
  hst.congr (installed_congr h.taskAlloc) (fun h' _ => h.prio h') h.base h.held
    (fun _ _ => by rw [h.mutexTable]) (fun _ => by rw [Kernel.owner, h.mutexTable])
    (fun _ _ _ _ hp => by rw [h.priorityVector]; exact hp)
    (fun _ _ hi ho => by rw [hf]; exact hst.owned hi ho)
    (fun _ _ _ _ hi hp => by rw [hf] at hp; exact hst.pending hi hp)

/-- A task enters or leaves the kernel. -/
theorem StackInv.reframe (hst : StackInv s) (task : Nat) (h : SameStack s t) {f : Frame}
    (hf : t.frame = Function.update s.frame task f)
    (hall : ∀ m, s.owner m = task → m ∈ s.held task)
    (hnot : ∀ m p tw, f = .pend (.mutex m) p tw → m ∉ s.held task) : StackInv t := by
  refine hst.congr (installed_congr h.taskAlloc) (fun h' _ => h.prio h') h.base h.held
    (fun _ _ => by rw [h.mutexTable]) (fun _ => by rw [Kernel.owner, h.mutexTable])
    (fun _ _ _ _ hp => by rw [h.priorityVector]; exact hp) ?_ ?_
  · intro h' m hi ho
    by_cases he : h' = task
    · subst he
      exact Or.inl (hall m ho)
    · rw [hf, Function.update_of_ne he]
      exact hst.owned hi ho
  · intro h' m p tw hi hfh
    rw [hf] at hfh
    by_cases he : h' = task
    · subst he
      rw [Function.update_self] at hfh
      exact hnot m p tw hfh
    · rw [Function.update_of_ne he] at hfh
      exact hst.pending hi hfh

/-- A task outside a pend on a mutex holds all it owns. -/
theorem StackInv.held_of_owner (hst : StackInv s) {h m : Nat} (hi : s.Installed h)
    (hf : ∀ p tw, s.frame h ≠ .pend (.mutex m) p tw) (ho : s.owner m = h) : m ∈ s.held h := by
  rcases hst.owned hi ho with hm | ⟨p, tw, hp⟩
  · exact hm
  · exact absurd hp (hf p tw)

/-! ### Acquire and release -/

/-- A mutex goes on top of the running task's stack. -/
theorem StackInv.push (hst : StackInv s) (ht : TableInv s) {task m : Nat} (hi : s.Installed task)
    (ha : s.Allocated (.mutex m)) (hown : s.owner m = 0 ∨ s.owner m = task)
    (hnot : m ∉ s.held task)
    (hother : ∀ m', s.owner m' = task → m' ≠ m → m' ∈ s.held task)
    (htask : t.taskAlloc = s.taskAlloc) (hbase : t.base = s.base)
    (hheld : t.held = Function.update s.held task (m :: s.held task))
    (htab : ∀ m', m' ≠ m → t.mutexTable m' = s.mutexTable m')
    (hself : t.owner m = task ∧ (t.mutexTable m).osOriginalPriority = s.prio task ∧
      (t.mutexTable m).osMaxPriority = (s.mutexTable m).osMaxPriority)
    (hpv : ∀ p, t.priorityVector p =
      if p = (s.mutexTable m).osMaxPriority ∧ s.prio task < (s.mutexTable m).osMaxPriority then task
      else s.priorityVector p)
    (hprio : ∀ h, t.prio h = if h = task then max (s.mutexTable m).osMaxPriority (s.prio task)
      else s.prio h)
    (hframe : t.frame = Function.update s.frame task .user) : StackInv t := by
  have hinst := installed_congr htask
  -- nobody holds `m` yet
  have hfree : ∀ h, s.Installed h → m ∉ s.held h := by
    intro h hih hm
    have ho := hst.owner_of_held hih hm
    rcases hown with h0 | h0
    · exact hih.pos (ho.symm.trans h0)
    · have : h = task := ho.symm.trans h0
      exact hnot (this ▸ hm)
  have hkeep : ∀ h, s.Installed h → ∀ m' ∈ s.held h, m' ≠ m := by
    rintro h hih m' hm' rfl
    exact hfree h hih hm'
  -- the entry that changes is no ceiling of a held mutex
  have hpvk : ∀ h, s.Installed h → ∀ m' ∈ s.held h, 0 < (s.mutexTable m').osMaxPriority →
      s.priorityVector (s.mutexTable m').osMaxPriority = h →
      t.priorityVector (s.mutexTable m').osMaxPriority = h := by
    intro h hih m' hm' hpos hp
    rw [hpv, if_neg]
    · exact hp
    · rintro ⟨heq, hlt⟩
      have ho := hst.owner_of_held hih hm'
      have ha' := (ht.owner_installed (m := m') (by rw [ho]; exact hih.pos)).1
      exact hkeep h hih m' hm' (ht.ceil_inj ⟨ha', heq, by omega⟩ ⟨ha, rfl, by omega⟩)
  have hstk : ∀ h, s.Installed h → t.Stacked h (s.held h) := fun h hih =>
    Stacked.congr (by rw [hbase]) (fun m' hm' => htab m' (hkeep h hih m' hm')) (hpvk h hih)
      (hst.stacked hih)
  have hlev : ∀ h, s.Installed h → t.level h (s.held h) = s.level h (s.held h) := fun h hih =>
    level_congr (by rw [hbase]) fun m' hm' => by rw [htab m' (hkeep h hih m' hm')]
  constructor
  all_goals simp only [hinst, hheld]
  case stacked =>
    intro h hih
    by_cases he : h = task
    · subst he
      rw [Function.update_self]
      refine ⟨hself.1, ?_, ?_, hstk h hih⟩
      · rw [hself.2.1, hlev h hih]
        exact hst.prio_eq hih
      · rw [hself.2.2, hlev h hih, ← hst.prio_eq hih]
        intro hlt
        rw [hpv, if_pos ⟨rfl, hlt⟩]
    · rw [Function.update_of_ne he]
      exact hstk h hih
  case prio_eq =>
    intro h hih
    rw [hprio]
    split
    · rename_i he
      subst he
      rw [Function.update_self, level, hself.2.2, hlev h hih, ← hst.prio_eq hih]
    · rename_i he
      rw [Function.update_of_ne he, hlev h hih]
      exact hst.prio_eq hih
  case nodup =>
    intro h hih
    by_cases he : h = task
    · subst he
      rw [Function.update_self]
      exact List.nodup_cons.mpr ⟨hnot, hst.nodup hih⟩
    · rw [Function.update_of_ne he]
      exact hst.nodup hih
  case owned =>
    intro h m' hih ho
    rw [hframe]
    by_cases he : h = task
    · subst he
      rw [Function.update_self]
      by_cases hm : m' = m
      · exact Or.inl (by simp [hm])
      · rw [Kernel.owner, htab m' hm] at ho
        exact Or.inl (List.mem_cons_of_mem _ (hother m' ho hm))
    · rw [Function.update_of_ne he, Function.update_of_ne he]
      have hm : m' ≠ m := by
        rintro rfl
        exact he (ho.symm.trans hself.1)
      rw [Kernel.owner, htab m' hm] at ho
      exact hst.owned hih ho
  case pending =>
    intro h m' p tw hih hf
    rw [hframe] at hf
    by_cases he : h = task
    · subst he
      rw [Function.update_self] at hf
      cases hf
    · rw [Function.update_of_ne he] at hf ⊢
      exact hst.pending hih hf
  case absent =>
    intro h hn
    have he : h ≠ task := fun he => hn (he ▸ hi)
    rw [Function.update_of_ne he]
    exact hst.absent hn

/-- The mutex on top of the running task's stack goes to nobody or to a task that
is inside an acquire of it. -/
theorem StackInv.pop (hst : StackInv s) (ht : TableInv s) {task m v : Nat} {ms : List Nat}
    (hi : s.Installed task) (ha : s.Allocated (.mutex m)) (htop : s.held task = m :: ms)
    (htask : t.taskAlloc = s.taskAlloc) (hbase : t.base = s.base)
    (hheld : t.held = Function.update s.held task ms)
    (htab : ∀ m', m' ≠ m → t.mutexTable m' = s.mutexTable m') (hself : t.owner m = v)
    (hpv : ∀ p, p ≠ (s.mutexTable m).osMaxPriority → t.priorityVector p = s.priorityVector p)
    (hprio : ∀ h, t.prio h = if h = task then (s.mutexTable m).osOriginalPriority else s.prio h)
    (hframe : t.frame = s.frame)
    (hv : ∀ h, s.Installed h → v = h → ∃ p tw, s.frame h = .pend (.mutex m) p tw) : StackInv t := by
  have hinst := installed_congr htask
  have hnd := hst.nodup hi
  have hstop := hst.stacked hi
  rw [htop] at hnd hstop
  obtain ⟨hom, horig, -, hms⟩ := hstop
  -- the mutex is on no stack any more: it was on one, and there once
  have hkeep : ∀ h, s.Installed h → ∀ m' ∈ (if h = task then ms else s.held h), m' ≠ m := by
    rintro h hih m' hm' rfl
    split at hm'
    · exact (List.nodup_cons.mp hnd).1 hm'
    · rename_i he
      exact he ((hst.owner_of_held hih hm').symm.trans hom)
  have hold : ∀ h, s.Installed h → s.Stacked h (if h = task then ms else s.held h) := by
    intro h hih
    split
    · rename_i he
      rw [he]
      exact hms
    · exact hst.stacked hih
  have hheld' : ∀ h, t.held h = if h = task then ms else s.held h := fun h => by
    rw [hheld, Function.update_apply]
  have hlev : ∀ h, s.Installed h → t.level h (if h = task then ms else s.held h) =
      s.level h (if h = task then ms else s.held h) := fun h hih =>
    level_congr (by rw [hbase]) fun m' hm' => by rw [htab m' (hkeep h hih m' hm')]
  constructor
  all_goals simp only [hinst, hheld', hframe]
  case stacked =>
    intro h hih
    refine Stacked.congr (by rw [hbase]) (fun m' hm' => htab m' (hkeep h hih m' hm')) ?_ (hold h hih)
    intro m' hm' hpos hp
    rw [hpv]
    · exact hp
    · -- two allocated mutexes do not share a ceiling
      intro heq
      have ho := Stacked.owner_eq (hold h hih) m' hm'
      have ha' := (ht.owner_installed (m := m') (by rw [ho]; exact hih.pos)).1
      exact hkeep h hih m' hm' (ht.ceil_inj ⟨ha', rfl, hpos⟩ ⟨ha, heq.symm, hpos⟩)
  case prio_eq =>
    intro h hih
    rw [hprio, hlev h hih]
    split
    · rename_i he
      rw [horig, he]
    · exact hst.prio_eq hih
  case nodup =>
    intro h hih
    split
    · exact (List.nodup_cons.mp hnd).2
    · exact hst.nodup hih
  case owned =>
    intro h m' hih ho
    by_cases hm : m' = m
    · subst hm
      exact Or.inr (hv h hih (hself.symm.trans ho))
    · rw [Kernel.owner, htab m' hm] at ho
      rcases hst.owned hih ho with hmem | hp
      · refine Or.inl ?_
        split
        · rename_i he
          rw [he, htop] at hmem
          exact (List.mem_cons.mp hmem).resolve_left hm
        · exact hmem
      · exact Or.inr hp
  case pending =>
    intro h m' p tw hih hf
    have hn := hst.pending hih hf
    split
    · rename_i he
      rw [he, htop] at hn
      exact fun hm => hn (List.mem_cons_of_mem _ hm)
    · exact hn
  case absent =>
    intro h hn
    have he : h ≠ task := fun he => hn (he ▸ hi)
    rw [if_neg he]
    exact hst.absent hn

/-- The fields a task's move to a ceiling writes. -/
theorem takeCeiling_fields (u : Kernel cfg) (m p : Nat) :
    (u.takeCeiling m p).mutexTable = Function.update u.mutexTable m
      { u.mutexTable m with osOriginalPriority := p } ∧
    (∀ q, (u.takeCeiling m p).priorityVector q =
      if q = (u.mutexTable m).osMaxPriority ∧ p < (u.mutexTable m).osMaxPriority then u.currentTask
      else u.priorityVector q) ∧
    (∀ h, (u.takeCeiling m p).prio h =
      if h = u.currentTask ∧ p < (u.mutexTable m).osMaxPriority then
        (u.mutexTable m).osMaxPriority else u.prio h) ∧
    (u.takeCeiling m p).held = u.held := by
  unfold takeCeiling
  dsimp only
  split
  · rename_i hgt
    have hgt : p < (u.mutexTable m).osMaxPriority := hgt
    dsimp only [Kernel.setReady, clearReady, setPriorityVector, setPriority, setContext, setMutex]
    refine ⟨rfl, fun q => ?_, fun h => ?_, rfl⟩
    · simp only [Function.update_apply, hgt, and_true]
    · simp only [Kernel.prio, Function.update_apply, hgt, and_true]
      split <;> rfl
  · rename_i hle
    have hle : ¬ p < (u.mutexTable m).osMaxPriority := hle
    exact ⟨rfl, fun q => by simp [hle, setMutex], fun h => by simp [hle, setMutex], rfl⟩

theorem StackInv.takeMutex (hst : StackInv s) (ht : TableInv s) (hcall : Calling s) {m : Nat}
    (ha : s.Allocated (.mutex m)) (hst' : (s.mutexTable m).osEventState = .availableResource) :
    StackInv (s.takeMutex m) := by
  have hi := hcall.installed
  have h0 : s.owner m = 0 := (ht.state_owner ha).mp hst'
  have hnot : m ∉ s.held s.currentTask := fun hm =>
    hi.pos ((hst.owner_of_held hi hm).symm.trans h0)
  unfold Kernel.takeMutex
  dsimp only
  generalize hu : s.setMutex m (fun c => { c with
    osEventState := .busyResource, osEventOwner := s.currentTask }) = u
  obtain ⟨htask, hframe, -, -, hbase, hcur, -⟩ := takeCeiling_same u m (s.prio s.currentTask)
  obtain ⟨hmt, hpv, hprio, hheld⟩ := takeCeiling_fields u m (s.prio s.currentTask)
  have hum : (u.mutexTable m).osMaxPriority = (s.mutexTable m).osMaxPriority := by
    subst hu
    simp [setMutex]
  have hcu : u.currentTask = s.currentTask := by subst hu; rfl
  rw [hum, hcu] at hpv hprio
  refine hst.push ht hi ha (Or.inl h0) hnot ?_ (htask.trans (by subst hu; rfl))
    (hbase.trans (by subst hu; rfl)) ?_ ?_ ?_ ?_ ?_ ?_
  · exact fun m' ho _ => hst.held_of_owner hi (fun p tw hf => by rw [hcall.frame] at hf; cases hf) ho
  · simp only [noteAcquired, hcur, hheld]
    subst hu
    rfl
  · intro m' hne
    simp only [noteAcquired, hmt, Function.update_of_ne hne]
    subst hu
    exact Function.update_of_ne hne _ _
  · simp only [Kernel.owner, noteAcquired, hmt, Function.update_self]
    subst hu
    simp [setMutex]
  · intro q
    simp only [noteAcquired, hpv]
    subst hu
    rfl
  · intro h
    simp only [Kernel.prio, noteAcquired] at hprio ⊢
    rw [hprio]
    have hup : (u.contextTask h).priority = (s.contextTask h).priority := by subst hu; rfl
    rw [hup]
    by_cases he : h = s.currentTask
    · subst he
      simp only [true_and, if_true]
      split <;> omega
    · simp [he]
  · simp only [noteAcquired, hframe]
    subst hu
    rw [← hcall.frame]
    exact (Function.update_eq_self s.currentTask s.frame).symm

/-- Without a held mutex there is no owned one, for a task outside the kernel. -/
theorem StackInv.held_of_ownsNone (hst : StackInv s) (ht : TableInv s) {h : Nat}
    (hi : s.Installed h) (hown : s.OwnsNone h) : s.held h = [] := by
  rw [List.eq_nil_iff_forall_not_mem]
  intro m hm
  have ho := hst.owner_of_held hi hm
  exact hown m (ht.mutex_lt (ht.owner_installed (m := m) (by rw [ho]; exact hi.pos)).1) ho

theorem StackInv.fillTcb (hst : StackInv s) (ht : TableInv s) {i p a b : Nat}
    (hi : s.freeTcb = some i) (hpv : s.priorityVector p = emptyPrio) :
    StackInv (s.fillTcb i p a b) := by
  have hinst := fun h => TableInv.installed_fillTcb (s := s) (p := p) (a := a) (b := b)
    (freeTcb_spec hi).1 h
  have hnew := TableInv.not_installed_of_free hi
  have hheld : (s.fillTcb i p a b).held = s.held := by
    rw [← Function.update_eq_self (i + 1) s.held, hst.absent hnew]
    rfl
  have hne : ∀ h, s.Installed h → h ≠ i + 1 := fun h hh he => hnew (he ▸ hh)
  have hbase : ∀ h, h ≠ i + 1 → (s.fillTcb i p a b).base h = s.base h :=
    fun h hh => Function.update_of_ne hh _ _
  have hprio : ∀ h, h ≠ i + 1 → (s.fillTcb i p a b).prio h = s.prio h := fun h hh => by
    simp only [Kernel.prio, Kernel.fillTcb, Function.update_of_ne hh]
  have hframe : ∀ h, h ≠ i + 1 → (s.fillTcb i p a b).frame h = s.frame h :=
    fun h hh => Function.update_of_ne hh _ _
  constructor
  all_goals simp only [hheld]
  case stacked =>
    intro h hh
    rcases (hinst h).mp hh with rfl | hh
    · rw [hst.absent hnew]
      trivial
    · refine Stacked.congr (hbase h (hne h hh)) (fun _ _ => rfl) ?_ (hst.stacked hh)
      intro m _ _ hp
      have hpne : (s.mutexTable m).osMaxPriority ≠ p := by
        intro he
        rw [he, hpv] at hp
        exact hh.ne_emptyPrio hp.symm
      exact (Function.update_of_ne hpne _ _).trans hp
  case prio_eq =>
    intro h hh
    rcases (hinst h).mp hh with rfl | hh
    · rw [hst.absent hnew]
      simp [Kernel.prio, Kernel.fillTcb, level]
    · rw [hprio h (hne h hh), hst.prio_eq hh]
      exact (level_congr (hbase h (hne h hh)) fun _ _ => rfl).symm
  case nodup =>
    intro h hh
    rcases (hinst h).mp hh with rfl | hh
    · rw [hst.absent hnew]
      exact List.nodup_nil
    · exact hst.nodup hh
  case owned =>
    intro h m hh ho
    rcases (hinst h).mp hh with rfl | hh
    · -- an owner is installed, so the new task owns nothing yet
      have hz : s.owner m ≠ 0 := by
        intro hz
        have : s.owner m = i + 1 := ho
        omega
      exact absurd ((show s.owner m = i + 1 from ho) ▸ (ht.owner_installed hz).2) hnew
    · rw [hframe h (hne h hh)]
      exact hst.owned hh ho
  case pending =>
    intro h m q tw hh hf
    rcases (hinst h).mp hh with rfl | hh
    · rw [hst.absent hnew]
      simp
    · rw [hframe h (hne h hh)] at hf
      exact hst.pending hh hf
  case absent =>
    intro h hh
    exact hst.absent fun hh' => hh ((hinst h).mpr (Or.inr hh'))

theorem StackInv.clearTcb (hst : StackInv s) (ht : TableInv s) {task : Nat} (hi : s.Installed task)
    (hown : s.OwnsNone task) (hu : SameStack s u) (hf : u.frame = s.frame) :
    StackInv (u.clearTcb task) := by
  have hnil := hst.held_of_ownsNone ht hi hown
  have hsu := hst.same hu hf
  have hinst : ∀ h, (u.clearTcb task).Installed h ↔ s.Installed h ∧ h ≠ task := fun h => by
    rw [TableInv.installed_clearTcb hi.pos, installed_congr hu.taskAlloc]
  have hiu := installed_congr hu.taskAlloc
  have hprio : ∀ h, h ≠ task → (u.clearTcb task).prio h = u.prio h := fun h hne => by
    simp only [Kernel.prio, Kernel.clearTcb, Function.update_of_ne hne]
  constructor
  case stacked =>
    intro h hh
    obtain ⟨hh, hne⟩ := (hinst h).mp hh
    refine Stacked.congr (s := u) (t := u.clearTcb task) rfl (fun _ _ => rfl) ?_ (hsu.stacked ((hiu h).mpr hh))
    intro m _ _ hp
    have hpne : (u.mutexTable m).osMaxPriority ≠ u.prio task := by
      intro he
      rw [he, hu.priorityVector, hu.prio, ht.pv_prio hi] at hp
      exact hne hp.symm
    exact (Function.update_of_ne hpne _ _).trans hp
  case prio_eq =>
    intro h hh
    obtain ⟨hh, hne⟩ := (hinst h).mp hh
    rw [hprio h hne, hsu.prio_eq ((hiu h).mpr hh)]
    exact (level_congr (s := u) (t := u.clearTcb task) rfl fun _ _ => rfl).symm
  case nodup =>
    intro h hh
    exact hsu.nodup ((hiu h).mpr ((hinst h).mp hh).1)
  case owned =>
    intro h m hh ho
    exact hsu.owned ((hiu h).mpr ((hinst h).mp hh).1) ho
  case pending =>
    intro h m p tw hh hfh
    exact hsu.pending ((hiu h).mpr ((hinst h).mp hh).1) hfh
  case absent =>
    intro h hh
    change u.held h = []
    rw [hu.held]
    by_cases hne : h = task
    · rw [hne]
      exact hnil
    · exact hst.absent fun hh' => hh ((hinst h).mpr ⟨hh', hne⟩)

/-- The fields a release writes besides the priority and the owner. -/
theorem StackInv.release (hst : StackInv s) (ht : TableInv s) (hcall : Calling s) {m v : Nat}
    (ha : s.Allocated (.mutex m)) (hl : s.LifoRelease m)
    (htask : t.taskAlloc = s.taskAlloc) (hbase : t.base = s.base)
    (hheld : t.held = Function.update s.held s.currentTask ((s.held s.currentTask).erase m))
    (htab : ∀ m', m' ≠ m → t.mutexTable m' = s.mutexTable m') (hself : t.owner m = v)
    (hpv : ∀ p, p ≠ (s.mutexTable m).osMaxPriority → t.priorityVector p = s.priorityVector p)
    (hprio : ∀ h, t.prio h = (s.restorePriority m).prio h) (hframe : t.frame = s.frame)
    (hv : ∀ h, s.Installed h → v = h → ∃ p tw, s.frame h = .pend (.mutex m) p tw) : StackInv t := by
  obtain ⟨ms, hms⟩ : ∃ ms, s.held s.currentTask = m :: ms := by
    unfold LifoRelease at hl
    cases hh : s.held s.currentTask with
    | nil => simp [hh] at hl
    | cons m' ms =>
        rw [hh] at hl
        cases hl
        exact ⟨ms, rfl⟩
  refine hst.pop ht hcall.installed ha hms htask hbase ?_ htab hself hpv ?_ hframe hv
  · rw [hheld, hms, List.erase_cons_head]
  · intro h
    rw [hprio, TableInv.restorePriority_prio]

theorem restorePriority_held (s : Kernel cfg) (m : Nat) : (s.restorePriority m).held = s.held := by
  obtain ⟨ready, ctx, hr⟩ := restorePriority_eq s m
  rw [hr]

/-- Every disciplined call keeps the stacks. -/
theorem effect_stack (hk : KernelInv s) (hst : StackInv s) {c : Call} {oc : Outcome}
    (he : Effect LifoRelease s c u oc) : StackInv u := by
  have hsame : ∀ {v : Kernel cfg}, SameStack s v → v.frame = s.frame → StackInv v :=
    fun h hf => hst.same h hf
  -- a caller outside the kernel holds all it owns
  have hall : ∀ {h}, s.Installed h → s.frame h = .user → ∀ m, s.owner m = h → m ∈ s.held h :=
    fun hi hf m ho => hst.held_of_owner hi (fun p tw hp => by rw [hf] at hp; cases hp) ho
  cases he with
  | installed hwho hp hle hpv hi hfit =>
      exact (hst.fillTcb hk.table hi hpv).same (by constructor <;> first | rfl | exact fun _ => rfl) rfl
  | uninstalled htask hwho hi hp hf hown hr =>
      exact hst.clearTcb hk.table hi hown (by constructor <;> first | rfl | exact fun _ => rfl) rfl
  | uninstalledDelayed htask hwho hi hp hf hown hr hs =>
      refine hst.clearTcb hk.table hi hown ?_ ?_
      · split <;> constructor <;> first | rfl | exact fun _ => rfl
      · split <;> rfl
  | delayed hwho htw =>
      have hcall := hk.calling hwho
      rw [SuspendInv.startDelay_eq]
      refine hst.reframe s.currentTask ⟨rfl, fun h => ?_, rfl, rfl, rfl, rfl⟩ rfl
        (hall hcall.installed hcall.frame) (fun m p tw hf => by cases hf)
      simp only [Kernel.prio, Function.update_apply]
      split
      · rename_i heq
        rw [heq]
      · rfl
  | waited hwho hev htw hun =>
      have hcall := hk.calling hwho
      rw [SuspendInv.waitEvent_eq]
      refine hst.reframe s.currentTask ⟨rfl, fun h => ?_, rfl, rfl, rfl, rfl⟩ rfl
        (hall hcall.installed hcall.frame) ?_
      · simp only [Kernel.prio, Function.update_apply]
        split
        · rename_i heq
          rw [heq]
        · rfl
      · intro m p tw hf hm
        cases hf
        exact hun.1 (hst.owner_of_held hcall.installed hm).symm
  | mutexReserved hp hle hpv =>
      refine hst.congr (fun _ => Iff.rfl) (fun _ _ => rfl) rfl rfl (fun _ _ => rfl) (fun _ => rfl)
        ?_ (fun h m hi ho => hst.owned hi ho) (fun h m p tw hi hf => hst.pending hi hf)
      intro h q hi _ hq
      refine (Function.update_of_ne ?_ _ _).trans hq
      rintro rfl
      exact hi.ne_emptyPrio (hq.symm.trans hpv)
  | mutexCreated hle hpv hfree =>
      rename_i p m
      -- the control block was free, so nobody owned the mutex
      have hown0 : s.owner m = 0 := by
        by_contra h
        exact (freeEvent_spec hfree).2 (hk.table.owner_installed h).1
      refine hst.congr (fun h => ?_) (fun h _ => ?_) ?_ ?_ ?_ ?_ ?_
        (fun h m hi ho => ?_) (fun h m q tw hi hf => ?_)
      all_goals try dsimp only [setMutex, allocEvent, setEvent]
      · refine installed_congr ?_ h
        dsimp only [setMutex, allocEvent, setEvent]
        split <;> rfl
      · dsimp only [Kernel.prio]
        split <;> rfl
      · split <;> rfl
      · split <;> rfl
      · intro m' ho
        have hne : m' ≠ m := fun he => ho (he ▸ hown0)
        rw [Function.update_of_ne hne]
        split <;> rfl
      · intro m'
        dsimp only [Kernel.owner]
        rw [Function.update_apply]
        split
        · rename_i he
          subst he
          split <;> rfl
        · split <;> rfl
      · intro h q hi hq0 hq
        split
        · rename_i hp
          refine (Function.update_of_ne ?_ _ _).trans hq
          rintro rfl
          exact hi.ne_emptyPrio (hq.symm.trans (hpv hp))
        · exact hq
      · have hf : (if 0 < p then s.setPriorityVector p mutexPrio else s).frame = s.frame := by
          split <;> rfl
        rw [hf]
        exact hst.owned hi ho
      · dsimp only [setMutex, allocEvent, setEvent] at hf
        have hf' : (if 0 < p then s.setPriorityVector p mutexPrio else s).frame = s.frame := by
          split <;> rfl
        rw [hf'] at hf
        exact hst.pending hi hf
  | mutexDeleted hfree =>
      rename_i m
      refine hst.congr (fun _ => Iff.rfl) (fun _ _ => rfl) rfl rfl ?_ ?_ (fun _ _ _ _ h => h)
        (fun h m hi ho => hst.owned hi ho) (fun h m p tw hi hf => hst.pending hi hf)
      · intro m' ho
        have hne : m' ≠ m := fun he => ho (he ▸ hfree)
        exact Function.update_of_ne hne _ _
      · intro m'
        simp only [Kernel.owner, setMutex, deleteEvent, setEvent, Function.update_apply]
        split
        · rename_i he
          rw [he]
          exact hfree.symm
        · rfl
  | acquired hwho hev hown hst' => exact hst.takeMutex hk.table (hk.calling hwho) hev hst'
  | released hwho hev hown hrule hw =>
      rename_i m
      have hcall := hk.calling hwho
      obtain ⟨hmt, -, hta, hpv, hcur, hbase, hframe, -⟩ := TableInv.restorePriority_same s m
      have hheld := restorePriority_held s m
      have hctx : ((s.giveUp m).freeMutex m).contextTask = (s.restorePriority m).contextTask := by
        obtain ⟨hsm, -⟩ := freeMutex_same (s.restorePriority m) m
        exact hsm.contextTask
      obtain ⟨hsm, hb, -, -, -, -, ho⟩ := freeMutex_same (s.restorePriority m) m
      refine hst.release hk.table hcall hev hrule (hsm.taskAlloc.trans hta) (hb.trans hbase) ?_ ?_
        ((ho m).trans (if_pos rfl)) ?_ (fun h => by rw [Kernel.prio, hctx]) (hsm.frame.trans hframe)
        (fun h hi h0 => absurd h0.symm hi.pos)
      · unfold giveUp freeMutex
        dsimp only [noteReleased, setMutex]
        split <;> (dsimp only [setPriorityVector]; rw [hheld, hcur])
      · intro m' hne
        unfold giveUp freeMutex
        dsimp only [noteReleased, setMutex]
        split <;>
          (dsimp only [setPriorityVector]
           rw [Function.update_of_ne hne, Function.update_of_ne hne, hmt])
      · intro p hp
        unfold giveUp freeMutex
        dsimp only [noteReleased, setMutex]
        simp only [Function.update_self, hmt]
        split
        · dsimp only [setPriorityVector]
          rw [Function.update_of_ne hp, hpv]
        · rw [hpv]
  | handedOff hwho hev hown hrule hw =>
      rename_i m
      have hcall := hk.calling hwho
      obtain ⟨hmt, hev', hta, hpv, hcur, hbase, hframe, -⟩ := TableInv.restorePriority_same s m
      have hheld := restorePriority_held s m
      -- the new owner is the best waiter, still inside its acquire
      obtain ⟨xs, hs⟩ := hk.suspend
      have hmem := saScheduler_mem (hs.waiting_nonempty hw)
      obtain ⟨h₀, tw₀, hi₀, hf₀, hp₀, -⟩ := hs.waiter hmem
      unfold giveUp
      rw [handOff_eq]
      refine hst.release (v := h₀) hk.table hcall hev hrule hta hbase ?_ ?_ ?_ ?_ (fun h => rfl)
        hframe ?_
      · rw [hheld, hcur]
      · intro m' hne
        dsimp only
        rw [Function.update_of_ne hne, hmt]
      · dsimp only [Kernel.owner]
        rw [Function.update_self, hpv, hev']
        exact hk.table.installed_of_pv hi₀ hp₀
      · exact fun p _ => by rw [hpv]
      · rintro h hi rfl
        exact ⟨_, tw₀, hf₀⟩
  | queueSelected =>
      rw [SuspendInv.wakeWaiter_eq]
      exact hsame (by constructor <;> first | rfl | exact fun _ => rfl) rfl
  | _ => exact hsame (by constructor <;> first | rfl | exact fun _ => rfl) rfl

/-! ### Steps and runs -/

/-- A woken task takes what it was woken for; a mutex goes on top of its stack. -/
theorem StackInv.finishPend (hst : StackInv s) (hk : KernelInv s) (hcur : s.currentTask ≠ 0)
    {ev : Event} {p tw : Nat} (hf : s.frame s.currentTask = .pend ev p tw)
    (hto : ¬ s.TimedOut ev p tw) :
    StackInv (((s.cancelTimeout tw).finishPend ev p).1.setFrame s.currentTask .user) := by
  obtain ⟨xs, hs⟩ := hk.suspend
  obtain ⟨hi, hr⟩ := hk.run hcur
  obtain ⟨ctx, dl, ops, heq, hprio⟩ := cancelTimeout_eq s tw
  rw [heq]
  have hplain : (∀ m, ev ≠ .mutex m) → ∀ v : Kernel cfg, SameStack s v →
      v.frame = Function.update s.frame s.currentTask .user → StackInv v := by
    intro hev v hv hfv
    refine hst.reframe _ hv hfv ?_ (fun m p' tw' h => by cases h)
    intro m ho
    refine hst.held_of_owner hi (fun p' tw' hf' => ?_) ho
    rw [hf] at hf'
    cases hf'
    exact hev m rfl
  cases ev with
  | sem e => exact hplain (by simp) _ ⟨rfl, hprio, rfl, rfl, rfl, rfl⟩ rfl
  | mbox e => exact hplain (by simp) _ ⟨rfl, hprio, rfl, rfl, rfl, rfl⟩ rfl
  | queue q => exact hplain (by simp) _ ⟨rfl, hprio, rfl, rfl, rfl, rfl⟩ rfl
  | mutex m =>
      have hp := (hs.pend_spec hi hf).1
      have ha := hk.toCoreInv.pend_mutex_allocated hi hf
      -- the release has already made it the owner; only the ceiling is left to take
      have hown : s.owner m = s.currentTask :=
        (hk.handoff.owner_iff hi hf).mpr (hs.selected_of_not_timedOut hi hf hr hto)
      dsimp only [Kernel.finishPend]
      generalize hu : { s with contextTask := ctx, delayList := dl, delayOps := ops } = u
      obtain ⟨htask, hframe, -, -, hbase, hcu, -⟩ := takeCeiling_same u m p
      obtain ⟨hmt, hpv, hpr, hheld⟩ := takeCeiling_fields u m p
      have hcuu : u.currentTask = s.currentTask := by subst hu; rfl
      have humt : u.mutexTable = s.mutexTable := by subst hu; rfl
      rw [humt] at hmt hpv hpr
      rw [hcuu] at hpv hpr
      refine hst.push hk.table hi ha (Or.inr hown) (hst.pending hi hf) ?_
        (htask.trans (by subst hu; rfl)) (hbase.trans (by subst hu; rfl)) ?_ ?_ ?_ ?_ ?_ ?_
      · intro m' ho hne
        refine hst.held_of_owner hi (fun p' tw' hf' => ?_) ho
        rw [hf] at hf'
        cases hf'
        exact hne rfl
      · simp only [setFrame, noteAcquired, hcu, hheld]
        subst hu
        rfl
      · intro m' hne
        simp only [setFrame, noteAcquired, hmt, Function.update_of_ne hne]
      · simp only [Kernel.owner, setFrame, noteAcquired, hmt, Function.update_self, hp]
        exact ⟨hown, trivial, trivial⟩
      · intro q
        simp only [setFrame, noteAcquired, hpv, hp]
        subst hu
        rfl
      · intro h
        have hup : (u.contextTask h).priority = s.prio h := by
          subst hu
          exact hprio h
        simp only [Kernel.prio, setFrame, noteAcquired] at hpr ⊢
        rw [hpr, hup]
        by_cases he : h = s.currentTask
        · rw [he]
          simp only [true_and, if_true, hp]
          split <;> omega
        · simp [he]
      · simp only [setFrame, noteAcquired, hframe]
        subst hu
        rfl

theorem move_stack (hk : KernelInv s) (hst : StackInv s) {a : Action} {o : Obs}
    (hm : Move LifoRelease s a t o) : StackInv t := by
  have hsame : ∀ {u v : Kernel cfg}, StackInv u → SameStack u v → v.frame = u.frame → StackInv v :=
    fun hu h hf => hu.same h hf
  cases hm with
  | returned ha he => exact effect_stack hk hst he
  | switched ha he hs =>
      exact hsame (effect_stack hk hst he) (by constructor <;> first | rfl | exact fun _ => rfl) rfl
  | suspended ha he hs =>
      exact hsame (effect_stack hk hst he) (by constructor <;> first | rfl | exact fun _ => rfl) rfl
  | startFailed => exact hsame hst (by constructor <;> first | rfl | exact fun _ => rfl) rfl
  | started hmain hi hu hs =>
      rename_i i a b c d h heap u
      subst hu
      have hpv := (hk.start.main (inMain_currentTask hmain)).2.1
      exact hsame (hst.fillTcb (a := a) (b := b) hk.table hi hpv)
        (by constructor <;> first | rfl | exact fun _ => rfl) rfl
  | delayEnded hcur hnest hf =>
      obtain ⟨hi, -⟩ := hk.run hcur
      refine hst.reframe _ (by constructor <;> first | rfl | exact fun _ => rfl) rfl ?_
        (fun m p tw h => by cases h)
      intro m ho
      exact hst.held_of_owner hi (fun p tw hp => by rw [hf] at hp; cases hp) ho
  | timedOut hcur hnest hf ht =>
      obtain ⟨hi, -⟩ := hk.run hcur
      refine hst.reframe _ (by constructor <;> first | rfl | exact fun _ => rfl) rfl ?_
        (fun m p tw h => by cases h)
      -- a task that timed out is still in the wait list, so it is not the owner
      intro m ho
      refine hst.held_of_owner hi (fun p tw hp => ?_) ho
      rw [hf] at hp
      cases hp
      exact (hk.handoff.owner_iff hi hf).mp ho ht.2.2
  | woken hcur hnest hf ht => exact hst.finishPend hk hcur hf ht
  | intEnter => exact hsame hst (by constructor <;> first | rfl | exact fun _ => rfl) rfl
  | tick hnest ht =>
      have hc := hk.toCoreInv.osIncCounter
      obtain ⟨xs, hs⟩ := hc.suspend
      obtain ⟨t', ht', -, -, htick⟩ := osTickHandler_spec hc.table hs
      have heq : t' = t := Option.some.inj (ht'.symm.trans ht)
      subst heq
      have hsm := htick.same
      have hinc : StackInv s.osIncCounter :=
        hsame hst (by constructor <;> first | rfl | exact fun _ => rfl) rfl
      refine hsame hinc ⟨?_, htick.prio, ?_, ?_, ?_, ?_⟩ ?_ <;> rw [hsm]
  | intExitInner => exact hsame hst (by constructor <;> first | rfl | exact fun _ => rfl) rfl
  | intExit => exact hsame hst (by constructor <;> first | rfl | exact fun _ => rfl) rfl

theorem init_stack : StackInv (Kernel.init cfg) := by
  have hno := not_installed_init cfg
  exact ⟨fun hi => absurd hi (hno _), fun hi => absurd hi (hno _), fun hi => absurd hi (hno _),
    fun hi => absurd hi (hno _), fun hi => absurd hi (hno _), fun _ => rfl⟩

/-- A weaker release rule gives a weaker discipline. -/
theorem Disciplined.mono {rule rule' : Kernel cfg → Nat → Prop} {a : Action}
    (h : ∀ m, a = .call (.mutexRelease (some m)) → s.owner m = s.currentTask → rule s m → rule' s m)
    (hd : Disciplined rule s a) : Disciplined rule' s a := by
  cases a with
  | call c =>
      cases c with
      | mutexRelease m =>
          obtain ⟨hev, hr⟩ := hd
          refine ⟨hev, ?_⟩
          cases m with
          | none => trivial
          | some m => exact fun ho => h m rfl ho (hr ho)
      | _ => exact hd
  | _ => exact hd

/-- The task that releases its mutex runs. -/
theorem release_inTask {m : Nat} {o : Obs} (hk : KernelInv s)
    (h : s.step (.call (.mutexRelease (some m))) = some (t, o)) :
    s.currentTask ≠ 0 := by
  intro h0
  simp only [step, stepCall] at h
  split at h
  · rename_i ha
    have hn := (hk.start.main h0).1
    simp [Call.allowed, inTask, inInterrupt, h0, hn] at ha
  · cases h

/-- A step with last-in-first-out releases is one with nested releases. -/
theorem Disciplined.nested (hk : KernelInv s) (hst : StackInv s) {a : Action} {o : Obs}
    (hd : Disciplined LifoRelease s a) (h : s.step a = some (t, o)) :
    Disciplined NestedRelease s a := by
  refine hd.mono ?_
  rintro m rfl ho hl
  exact nested_of_lifo hk.table hst (hk.run (release_inTask hk h)).1 hl

/-- Executions in which every task releases its mutexes in last-in-first-out order
are executions with nested releases, and keep both invariants. -/
theorem lifo_run {tr : Trace} (h : RunFromInit (Disciplined LifoRelease) tr s) :
    KernelInv s ∧ StackInv s := by
  refine h.invariant (P := fun s => KernelInv s ∧ StackInv s) ⟨init_inv, init_stack⟩ ?_
  rintro s a t o ⟨hk, hst⟩ hd hs
  exact ⟨step_inv hk (hd.nested hk hst hs) hs, move_stack hk hst (hk.move hd hs)⟩

end Brtos
