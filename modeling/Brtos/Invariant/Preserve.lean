import Brtos.Invariant.Suspend

/-!
# Brtos.Invariant.Preserve

The kernel invariant is **inductive**: it holds after `BRTOSInit` and every
disciplined step keeps it. `effect_core` goes through the effects of a call,
`tickLoop_spec` through the loop of the tick handler, and `step_inv` puts them
together with the context switch, which finds a ready task because the idle task
always is.
-/

namespace Brtos

open Bits Kernel

variable {cfg : Config} {s t : Kernel cfg}

/-! ### Steps that touch nothing of the invariant -/

/-- Two states that agree on everything the invariant reads. -/
structure Untouched (s t : Kernel cfg) : Prop where
  taskAlloc : t.taskAlloc = s.taskAlloc
  contextTask : t.contextTask = s.contextTask
  priorityVector : t.priorityVector = s.priorityVector
  delayList : t.delayList = s.delayList
  event : t.event = s.event
  mutexTable : t.mutexTable = s.mutexTable
  frame : t.frame = s.frame
  base : t.base = s.base
  osReadyList : t.osReadyList = s.osReadyList
  currentTask : t.currentTask = s.currentTask
  iNesting : t.iNesting = s.iNesting
  osTickCounter : t.osTickCounter = s.osTickCounter

theorem HandoffInv.congr (hh : HandoffInv s)
    (hframe : ∀ {h m p tw}, t.Installed h → t.frame h = .pend (.mutex m) p tw →
      s.Installed h ∧ s.frame h = .pend (.mutex m) p tw)
    (howner : ∀ m, t.owner m = s.owner m)
    (hwait : ∀ m, t.waiting (.mutex m) = s.waiting (.mutex m))
    (halloc : ∀ m, t.Allocated (.mutex m) → s.Allocated (.mutex m)) : HandoffInv t := by
  refine ⟨?_, ?_⟩
  · intro h m p tw hi hf
    obtain ⟨hi, hf⟩ := hframe hi hf
    rw [howner, hwait]
    exact hh.owner_iff hi hf
  · intro m ha ho
    rw [hwait]
    exact hh.free_empty (halloc m ha) ((howner m).symm.trans ho)

theorem StartInv.congr (hs : StartInv s) (htick : t.osTickCounter = s.osTickCounter)
    (hcur : t.currentTask = s.currentTask) (hnest : t.iNesting = s.iNesting)
    (hpv : t.priorityVector 0 = s.priorityVector 0)
    (hmain : s.currentTask = 0 → (∀ {h}, s.Installed h → s.frame h = .user) →
      ∀ {h}, t.Installed h → t.frame h = .user)
    (hidle : ∀ h, s.currentTask ≠ 0 → s.priorityVector 0 = h → s.Installed h → s.prio h = 0 →
      s.base h = 0 → s.frame h = .user →
      t.Installed h ∧ t.prio h = 0 ∧ t.base h = 0 ∧ t.frame h = .user) : StartInv t := by
  refine ⟨?_, ?_, ?_⟩
  · rw [htick]
    exact hs.tick_lt
  · rw [hcur, hnest, hpv]
    intro h0
    obtain ⟨h1, h2, h3⟩ := hs.main h0
    exact ⟨h1, h2, hmain h0 h3⟩
  · rw [hcur, hpv]
    intro h0
    obtain ⟨h, h1, h2, h3, h4, h5⟩ := hs.idle h0
    exact ⟨h, h1, hidle h h0 h1 h2 h3 h4 h5⟩

theorem CoreInv.untouched (hc : CoreInv s) (h : Untouched s t) : CoreInv t := by
  have hinst := installed_congr h.taskAlloc
  obtain ⟨xs, hs⟩ := hc.suspend
  refine ⟨?_, ⟨xs, ?_⟩, ?_, ?_⟩
  · exact hc.table.congr ⟨h.taskAlloc, fun _ => by rw [Kernel.prio, h.contextTask], h.base,
      h.priorityVector, h.mutexTable, fun _ => by rw [h.event]⟩
  · exact hs.congr ⟨h.taskAlloc, h.contextTask, h.delayList, h.frame, h.event, h.osReadyList⟩
  · refine hc.handoff.congr ?_ ?_ ?_ ?_
    · intro h' m p tw hi hf
      exact ⟨(hinst h').mp hi, by rw [← h.frame]; exact hf⟩
    · exact fun m => by rw [Kernel.owner, h.mutexTable]
    · exact fun m => by rw [Kernel.waiting, h.event]
    · exact fun m ha => by rwa [Kernel.Allocated, h.event] at ha
  · refine hc.start.congr h.osTickCounter h.currentTask h.iNesting (by rw [h.priorityVector]) ?_ ?_
    · intro _ hu h' hi
      rw [h.frame]
      exact hu ((hinst h').mp hi)
    · intro h' _ _ h1 h2 h3 h4
      exact ⟨(hinst h').mpr h1, by rw [Kernel.prio, h.contextTask]; exact h2,
        by rw [h.base]; exact h3, by rw [h.frame]; exact h4⟩

theorem RunInv.untouched (hr : RunInv s) (h : Untouched s t) : RunInv t := by
  unfold RunInv at hr ⊢
  rw [h.currentTask, installed_congr h.taskAlloc, Kernel.prio, h.contextTask, Kernel.ready,
    h.osReadyList]
  exact hr

theorem KernelInv.untouched (hk : KernelInv s) (h : Untouched s t) : KernelInv t :=
  ⟨hk.toCoreInv.untouched h, hk.run.untouched h⟩

/-! ### Who makes the call -/

/-- A task that can make a call is installed, ready and not the idle task. -/
structure Calling (s : Kernel cfg) : Prop where
  installed : s.Installed s.currentTask
  ready : s.prio s.currentTask ∈ s.ready
  frame : s.frame s.currentTask = .user
  nest : s.iNesting = 0
  not_idle : s.priorityVector 0 ≠ s.currentTask

theorem KernelInv.calling (hk : KernelInv s) (h : s.inTask = true) : Calling s :=
  ⟨(hk.run (inTask_currentTask h)).1, (hk.run (inTask_currentTask h)).2, inTask_frame h,
    inTask_iNesting h, inTask_not_idle h⟩

/-! ### The ways to be suspended and woken -/

theorem CoreInv.startDelay (hc : CoreInv s) (hcall : Calling s) (tw : Nat) :
    CoreInv (s.startDelay tw) := by
  obtain ⟨xs, hs⟩ := hc.suspend
  have hne : ∀ h, s.priorityVector 0 = h → h ≠ s.currentTask := by
    rintro h rfl
    exact hcall.not_idle
  have hprio : ∀ h, (s.startDelay tw).prio h = s.prio h := fun h => by
    simp only [Kernel.prio, Kernel.startDelay, setFrame, clearReady, includeTaskIntoDelayList,
      setTimeToWait, setContext, Function.update_apply]
    split
    · rename_i heq
      rw [heq]
    · rfl
  have hframe : ∀ h, (s.startDelay tw).frame h =
      if h = s.currentTask then .delay tw else s.frame h := fun h => by
    simp only [Kernel.startDelay, setFrame, clearReady, includeTaskIntoDelayList, setTimeToWait,
      setContext, Function.update_apply]
  have hsus := hs.startDelay hc.table hcall.installed hcall.frame tw
  rw [SuspendInv.startDelay_eq] at hprio hframe hsus ⊢
  refine ⟨?_, ⟨_, hsus⟩, ?_, ?_⟩
  · exact hc.table.congr ⟨rfl, hprio, rfl, rfl, rfl, fun _ => rfl⟩
  · refine hc.handoff.congr ?_ (fun _ => rfl) (fun _ => rfl) (fun _ h => h)
    intro h m p tw' hi hf
    rw [hframe] at hf
    split at hf
    · cases hf
    · exact ⟨hi, hf⟩
  · refine hc.start.congr rfl rfl rfl rfl ?_ ?_
    · intro h0
      exact absurd h0 hcall.installed.pos
    · intro h h0 hpv h1 h2 h3 h4
      exact ⟨h1, by rw [hprio]; exact h2, h3, by rw [hframe, if_neg (hne h hpv)]; exact h4⟩

theorem CoreInv.waitEvent (hc : CoreInv s) (hcall : Calling s) {ev : Event} {tw : Nat}
    (ha : s.Allocated ev) (htw : tw ≤ cfg.tickCountOverflow) (hun : s.Unavailable ev) :
    CoreInv (s.waitEvent ev tw) := by
  obtain ⟨xs, hs⟩ := hc.suspend
  have hi := hcall.installed
  have hsus := hs.waitEvent hc.table hi hcall.frame ha htw hc.start.tick_lt
  have hlt := hc.table.prio_lt hi
  rw [SuspendInv.waitEvent_eq] at hsus ⊢
  generalize hu : Kernel.mk _ _ _ _ _ _ _ _ _ _ _ _ _ _ _ _ _ _ _ _ _ _ _ _ = t at hsus ⊢
  have hprio : ∀ h, t.prio h = s.prio h := fun h => by
    subst hu
    simp only [Kernel.prio, Function.update_apply]
    split
    · rename_i heq
      rw [heq]
    · rfl
  have hframe : ∀ h, t.frame h = if h = s.currentTask then
      .pend ev (s.prio s.currentTask) tw else s.frame h := fun h => by
    subst hu
    simp only [Function.update_apply]
  have hwait : ∀ ev', t.waiting ev' =
      if ev' = ev then insert (s.prio s.currentTask) (s.waiting ev) else s.waiting ev' := by
    intro ev'
    subst hu
    simp only [Kernel.waiting, Function.update_apply]
    split
    · exact bits_or_mask hlt
    · rfl
  have halloc : ∀ ev', (t.event ev').osEventAllocated = (s.event ev').osEventAllocated := by
    intro ev'
    subst hu
    simp only [Function.update_apply]
    split
    · rename_i heq
      rw [heq]
    · rfl
  have hown : ∀ m, t.owner m = s.owner m := fun m => by subst hu; rfl
  have hinst := installed_congr (s := s) (t := t) (by subst hu; rfl)
  refine ⟨?_, ⟨_, hsus⟩, ⟨?_, ?_⟩, ?_⟩
  · refine hc.table.congr ⟨?_, hprio, ?_, ?_, ?_, fun m => halloc _⟩ <;> subst hu <;> rfl
  · intro h m p tw' hih hf
    rw [hown, hwait]
    rw [hframe] at hf
    have hih := (hinst h).mp hih
    split at hf
    · -- the task that starts to wait is not the owner and is in the list
      rename_i heq
      subst heq
      cases hf
      simp only [if_true, Finset.mem_insert_self, not_true_eq_false, iff_false]
      exact Ne.symm hun.1
    · rename_i hne
      have hp := (hs.pend_spec hih hf).1
      have hpne : p ≠ s.prio s.currentTask := fun he =>
        hne (hc.table.prio_inj hih hi (hp.trans he))
      rw [hc.handoff.owner_iff hih hf]
      split
      · rename_i heq
        subst heq
        simp [hpne]
      · rfl
  · intro m ha' ho
    rw [hown] at ho
    rw [Kernel.Allocated, halloc] at ha'
    rw [hwait]
    split
    · rename_i heq
      subst heq
      exact absurd ((hc.table.state_owner ha').mpr ho) hun.2
    · exact hc.handoff.free_empty ha' ho
  · refine hc.start.congr (by subst hu; rfl) (by subst hu; rfl) (by subst hu; rfl)
      (by subst hu; rfl) ?_ ?_
    · intro h0
      exact absurd h0 hi.pos
    · intro h h0 hpv h1 h2 h3 h4
      have hne : h ≠ s.currentTask := by
        rintro rfl
        exact hcall.not_idle hpv
      exact ⟨(hinst h).mpr h1, by rw [hprio]; exact h2, by subst hu; exact h3,
        by rw [hframe, if_neg hne]; exact h4⟩

/-- A post on anything but a mutex. -/
theorem CoreInv.wakeWaiter (hc : CoreInv s) {ev : Event} (hev : ∀ m, ev ≠ .mutex m)
    (hw : (s.event ev).osEventWait ≠ 0) : CoreInv (s.wakeWaiter ev) := by
  obtain ⟨xs, hs⟩ := hc.suspend
  have hmutex : ∀ m, (s.wakeWaiter ev).event (.mutex m) = s.event (.mutex m) := fun m => by
    simp only [Kernel.wakeWaiter, Kernel.setReady, leaveWaitList, setEvent,
      Function.update_of_ne (Ne.symm (hev m))]
  refine ⟨?_, ⟨xs, hs.wakeWaiter hc.table (hs.waiting_nonempty hw)⟩, ?_, ?_⟩
  · exact hc.table.congr ⟨rfl, fun _ => rfl, rfl, rfl, rfl, fun m => by rw [hmutex]⟩
  · refine hc.handoff.congr (fun hi hf => ⟨hi, hf⟩) (fun _ => rfl) ?_ ?_
    · exact fun m => by rw [Kernel.waiting, hmutex]
    · exact fun m ha => by rwa [Kernel.Allocated, hmutex] at ha
  · exact hc.start.congr rfl rfl rfl rfl (fun _ hu => hu) (fun h _ _ h1 h2 h3 h4 => ⟨h1, h2, h3, h4⟩)

/-- A running task outside the kernel is ready. -/
theorem RunInv.of_user {xs : List Nat} (hs : SuspendInv s xs) (hi : s.Installed s.currentTask)
    (hf : s.frame s.currentTask = .user) : RunInv s :=
  fun _ => ⟨hi, hs.ready_user hi hf⟩

/-- More ready bits do not hurt the running task. -/
theorem RunInv.of_ready (hr : RunInv s) (hcur : t.currentTask = s.currentTask)
    (htask : t.taskAlloc = s.taskAlloc) (hprio : ∀ h, t.prio h = s.prio h)
    (hready : s.ready ⊆ t.ready) : RunInv t := by
  unfold RunInv at hr ⊢
  rw [hcur, installed_congr htask, hprio]
  exact fun h0 => ⟨(hr h0).1, hready (hr h0).2⟩

theorem RunInv.wakeWaiter (hr : RunInv s) {ev : Event} {xs : List Nat} (hs : SuspendInv s xs)
    (hw : (s.event ev).osEventWait ≠ 0) : RunInv (s.wakeWaiter ev) := by
  have hm := saScheduler_mem (x := (s.event ev).osEventWaitList) (hs.waiting_nonempty hw)
  refine hr.of_ready rfl rfl (fun _ => rfl) ?_
  have hready : (s.wakeWaiter ev).ready = insert (saScheduler (s.event ev).osEventWaitList) s.ready :=
    ready_setReady (lt_of_mem_bits hm)
  rw [hready]
  exact Finset.subset_insert _ _

/-! ### Acquiring a mutex -/

/-- The fields a task's move to a ceiling leaves alone. -/
theorem takeCeiling_same (s : Kernel cfg) (m p : Nat) :
    (s.takeCeiling m p).taskAlloc = s.taskAlloc ∧ (s.takeCeiling m p).frame = s.frame ∧
    (s.takeCeiling m p).event = s.event ∧ (s.takeCeiling m p).delayList = s.delayList ∧
    (s.takeCeiling m p).base = s.base ∧ (s.takeCeiling m p).currentTask = s.currentTask ∧
    (s.takeCeiling m p).iNesting = s.iNesting ∧
    (s.takeCeiling m p).osTickCounter = s.osTickCounter ∧
    (∀ m', (s.takeCeiling m p).owner m' = s.owner m') ∧
    (∀ h, h ≠ s.currentTask → (s.takeCeiling m p).prio h = s.prio h) ∧
    (s.takeCeiling m p).priorityVector 0 = s.priorityVector 0 := by
  have hown : ∀ m', (s.setMutex m fun c => { c with osOriginalPriority := p }).owner m' =
      s.owner m' := fun m' => by
    simp only [Kernel.owner, setMutex, Function.update_apply]
    split
    · rename_i heq
      rw [heq]
    · rfl
  simp only [Kernel.owner, setMutex] at hown
  unfold takeCeiling
  dsimp only
  split
  · rename_i hgt
    dsimp only [Kernel.setReady, clearReady, setPriorityVector, setPriority, setContext, setMutex]
    refine ⟨rfl, rfl, rfl, rfl, rfl, rfl, rfl, rfl, hown, fun h hne => ?_, ?_⟩
    · simp only [Kernel.prio, Function.update_of_ne hne]
    · exact Function.update_of_ne (by omega) _ _
  · exact ⟨rfl, rfl, rfl, rfl, rfl, rfl, rfl, rfl, hown, fun _ _ => rfl, rfl⟩

theorem SuspendInv.takeCeiling {xs : List Nat} (hs : SuspendInv s xs) (ht : TableInv s) {m : Nat}
    (hi : s.Installed s.currentTask) (hf : s.frame s.currentTask = .user)
    (ha : s.Allocated (.mutex m)) (hown : s.owner m = s.currentTask) :
    SuspendInv (s.takeCeiling m (s.prio s.currentTask)) xs := by
  unfold Kernel.takeCeiling
  dsimp only
  split
  · rename_i hgt
    have hc : s.Ceiling m (s.mutexTable m).osMaxPriority := ⟨ha, rfl, by omega⟩
    have hm := hs.move ht hi hf (ht.ceil_lt hc)
      (fun h' hi' hne hp => hne ((ht.owner_of_prio_eq hc hi' hp).symm.trans hown))
    exact hm.congr ⟨rfl, rfl, rfl, rfl, rfl, rfl⟩
  · exact hs.congr ⟨rfl, rfl, rfl, rfl, rfl, rfl⟩

/-- The owner, outside the kernel, takes the ceiling and notes that it has the mutex. -/
theorem CoreInv.takeCeiling (hc : CoreInv s) {m : Nat} (hi : s.Installed s.currentTask)
    (hf : s.frame s.currentTask = .user) (hidle : s.priorityVector 0 ≠ s.currentTask)
    (ha : s.Allocated (.mutex m)) (hown : s.owner m = s.currentTask) :
    KernelInv ((s.takeCeiling m (s.prio s.currentTask)).noteAcquired m) := by
  obtain ⟨xs, hs⟩ := hc.suspend
  obtain ⟨htask, hframe, hevent, -, hbase, hcur, hnest, htick, howner, hprio, hpv⟩ :=
    takeCeiling_same s m (s.prio s.currentTask)
  have hsus := hs.takeCeiling hc.table hi hf ha hown
  have htab := hc.table.takeCeiling ha hown hi
  generalize s.takeCeiling m (s.prio s.currentTask) = t at *
  have hinst := installed_congr htask
  have hcore : CoreInv t := by
    refine ⟨htab, ⟨xs, hsus⟩, ?_, ?_⟩
    · refine hc.handoff.congr ?_ howner ?_ ?_
      · intro h m' p tw hih hfh
        exact ⟨(hinst h).mp hih, hframe ▸ hfh⟩
      · exact fun m' => by rw [Kernel.waiting, hevent]
      · exact fun m' ha' => by rwa [Kernel.Allocated, hevent] at ha'
    · refine hc.start.congr htick hcur hnest hpv (fun h0 => absurd h0 hi.pos) ?_
      intro h h0 hpv0 h1 h2 h3 h4
      have hne : h ≠ s.currentTask := fun he => hidle (hpv0.trans he)
      exact ⟨(hinst h).mpr h1, by rw [hprio h hne]; exact h2, by rw [hbase]; exact h3,
        by rw [hframe]; exact h4⟩
  have hrun : RunInv t := RunInv.of_user hsus (by rw [hcur]; exact (hinst _).mpr hi)
    (by rw [hcur, hframe]; exact hf)
  exact KernelInv.untouched ⟨hcore, hrun⟩
    ⟨rfl, rfl, rfl, rfl, rfl, rfl, rfl, rfl, rfl, rfl, rfl, rfl⟩

theorem KernelInv.takeMutex (hk : KernelInv s) (hcall : Calling s) {m : Nat}
    (ha : s.Allocated (.mutex m)) (hst : (s.mutexTable m).osEventState = .availableResource) :
    KernelInv (s.takeMutex m) := by
  obtain ⟨xs, hs⟩ := hk.suspend
  have hi := hcall.installed
  have h0 : s.owner m = 0 := (hk.table.state_owner ha).mp hst
  -- nobody pends on a free mutex
  have hnone : ∀ h p tw, s.Installed h → s.frame h ≠ .pend (.mutex m) p tw := by
    intro h p tw hih hf
    have hw : p ∈ s.waiting (.mutex m) := by
      by_contra hn
      exact hih.pos (((hk.handoff.owner_iff hih hf).mpr hn).symm.trans h0)
    rw [hk.handoff.free_empty ha h0] at hw
    simp at hw
  have hown : ∀ m', (s.setMutex m fun c => { c with
      osEventState := .busyResource, osEventOwner := s.currentTask }).owner m' =
      if m' = m then s.currentTask else s.owner m' := fun m' => by
    simp only [Kernel.owner, setMutex, Function.update_apply]
    split <;> rfl
  have htab : TableInv (s.setMutex m fun c => { c with
      osEventState := .busyResource, osEventOwner := s.currentTask }) := by
    refine hk.table.setOwner (v := s.currentTask) ha rfl (by simp [hi.pos]) rfl (fun _ => hi) ?_ ?_
    · intro h hih ho
      exact absurd (ho.symm.trans h0) hih.pos
    · exact fun hz => absurd hz hi.pos
  have hcore : CoreInv (s.setMutex m fun c => { c with
      osEventState := .busyResource, osEventOwner := s.currentTask }) := by
    refine ⟨htab, ⟨xs, hs.congr ⟨rfl, rfl, rfl, rfl, rfl, rfl⟩⟩, ⟨?_, ?_⟩, ?_⟩
    · intro h m' p tw hih hf
      have hne : m' ≠ m := by
        rintro rfl
        exact hnone h p tw hih hf
      rw [hown, if_neg hne]
      exact hk.handoff.owner_iff hih hf
    · intro m' ha' ho
      rw [hown] at ho
      split at ho
      · exact absurd ho hi.pos
      · exact hk.handoff.free_empty ha' ho
    · exact hk.start.congr rfl rfl rfl rfl (fun _ hu => hu)
        (fun h _ _ h1 h2 h3 h4 => ⟨h1, h2, h3, h4⟩)
  exact hcore.takeCeiling hi hcall.frame hcall.not_idle ha (by rw [hown, if_pos rfl]; rfl)

/-! ### Releasing a mutex -/

theorem SuspendInv.restorePriority {xs : List Nat} (hs : SuspendInv s xs) (ht : TableInv s)
    {m : Nat} (hi : s.Installed s.currentTask) (hf : s.frame s.currentTask = .user)
    (hrule : s.NestedRelease m) : SuspendInv (s.restorePriority m) xs := by
  unfold Kernel.restorePriority
  dsimp only
  split
  · -- the priority that is restored is nobody else's
    have hto : (s.mutexTable m).osOriginalPriority < cfg.prioBits ∧
        ∀ h', s.Installed h' → h' ≠ s.currentTask →
          s.prio h' ≠ (s.mutexTable m).osOriginalPriority := by
      rcases hrule with hb | ⟨m', -, -, ha', ho', hmax, hpos, -⟩
      · rw [hb]
        exact ⟨ht.base_lt hi, fun h' hi' hne hp => hne (ht.prio_base_inj hi' hi hp)⟩
      · have hc : s.Ceiling m' (s.mutexTable m).osOriginalPriority := ⟨ha', hmax, hpos⟩
        exact ⟨ht.ceil_lt hc, fun h' hi' hne hp =>
          hne ((ht.owner_of_prio_eq hc hi' hp).symm.trans ho')⟩
    exact hs.move ht hi hf hto.1 hto.2
  · exact hs

theorem KernelInv.restorePriority (hk : KernelInv s) (hcall : Calling s) {m : Nat}
    (hrule : s.NestedRelease m) : KernelInv (s.restorePriority m) := by
  obtain ⟨xs, hs⟩ := hk.suspend
  have hi := hcall.installed
  have hsus := hs.restorePriority hk.table hi hcall.frame hrule
  have htab := hk.table.restorePriority hi hrule
  obtain ⟨hmt, hev, hta, hpv, hcur, hbase, hframe, hnest, htick⟩ :=
    TableInv.restorePriority_same s m
  have hprio : ∀ h, h ≠ s.currentTask → (s.restorePriority m).prio h = s.prio h := fun h hne => by
    rw [TableInv.restorePriority_prio, if_neg hne]
  generalize s.restorePriority m = u at *
  have hinst := installed_congr hta
  refine ⟨⟨htab, ⟨xs, hsus⟩, ?_, ?_⟩, ?_⟩
  · refine hk.handoff.congr ?_ ?_ ?_ ?_
    · intro h m' p tw hih hfh
      exact ⟨(hinst h).mp hih, hframe ▸ hfh⟩
    · exact fun m' => by rw [Kernel.owner, hmt]
    · exact fun m' => by rw [Kernel.waiting, hev]
    · exact fun m' ha' => by rwa [Kernel.Allocated, hev] at ha'
  · refine hk.start.congr htick hcur hnest (by rw [hpv]) (fun h0 => absurd h0 hi.pos) ?_
    intro h h0 hpv0 h1 h2 h3 h4
    have hne : h ≠ s.currentTask := fun he => hcall.not_idle (hpv0.trans he)
    exact ⟨(hinst h).mpr h1, by rw [hprio h hne]; exact h2, by rw [hbase]; exact h3,
      by rw [hframe]; exact h4⟩
  · exact RunInv.of_user hsus (by rw [hcur]; exact (hinst _).mpr hi)
      (by rw [hcur, hframe]; exact hcall.frame)

/-- The fields of the state a release without waiters leaves behind. -/
theorem freeMutex_same (u : Kernel cfg) (m : Nat) :
    let t := ((u.setMutex m fun c => { c with osEventOwner := 0 }).noteReleased m).freeMutex m
    SameSuspend u t ∧ t.base = u.base ∧ t.currentTask = u.currentTask ∧ t.iNesting = u.iNesting ∧
      t.osTickCounter = u.osTickCounter ∧ t.priorityVector 0 = u.priorityVector 0 ∧
      ∀ m', t.owner m' = if m' = m then 0 else u.owner m' := by
  have hown : ∀ m', (Function.update (Function.update u.mutexTable m
      { u.mutexTable m with osEventOwner := 0 }) m
      { u.mutexTable m with osEventOwner := 0, osEventState := .availableResource } m').osEventOwner =
      if m' = m then 0 else u.owner m' := by
    intro m'
    simp only [Function.update_apply]
    split <;> rfl
  dsimp only [freeMutex, noteReleased, setMutex]
  simp only [Function.update_self]
  split
  · rename_i hpos
    dsimp only [setPriorityVector]
    exact ⟨⟨rfl, rfl, rfl, rfl, rfl, rfl⟩, rfl, rfl, rfl, rfl,
      Function.update_of_ne (by omega) _ _, hown⟩
  · exact ⟨⟨rfl, rfl, rfl, rfl, rfl, rfl⟩, rfl, rfl, rfl, rfl, rfl, hown⟩

theorem KernelInv.released (hk : KernelInv s) (hcall : Calling s) {m : Nat}
    (ha : s.Allocated (.mutex m)) (hown : s.owner m = s.currentTask)
    (hrule : s.NestedRelease m) (hw : (s.event (.mutex m)).osEventWait = 0) :
    KernelInv ((s.giveUp m).freeMutex m) := by
  have hi := hcall.installed
  have htab := hk.table.released ha hi hown hrule
  have hku := hk.restorePriority hcall hrule
  obtain ⟨hmt, hev, hta, hpv, hcur, -, hframe, -⟩ := TableInv.restorePriority_same s m
  obtain ⟨xs, hs⟩ := hk.suspend
  have hempty : s.waiting (.mutex m) = ∅ := hs.wait_eq_zero.mp hw
  -- a task inside an acquire of this mutex would be its owner, but that runs
  have hnone : ∀ h p tw, s.Installed h → s.frame h ≠ .pend (.mutex m) p tw := by
    intro h p tw hih hf
    have ho := (hk.handoff.owner_iff hih hf).mpr (by simp [hempty])
    rw [← ho, hown, hcall.frame] at hf
    cases hf
  unfold giveUp at htab ⊢
  generalize s.restorePriority m = u at *
  obtain ⟨hsame, hbase', hcur', hnest', htick', hpv', hown'⟩ := freeMutex_same u m
  generalize ((u.setMutex m fun c => { c with osEventOwner := 0 }).noteReleased m).freeMutex m = t
    at *
  obtain ⟨xs, hsu⟩ := hku.suspend
  have hst := hsu.congr hsame
  have hinst := installed_congr hsame.taskAlloc
  refine ⟨⟨htab, ⟨xs, hst⟩, ⟨?_, ?_⟩, ?_⟩, ?_⟩
  · intro h m' p tw hih hf
    have hih := (hinst h).mp hih
    rw [hsame.frame] at hf
    have hne : m' ≠ m := by
      rintro rfl
      rw [hframe] at hf
      exact hnone h p tw ((installed_congr hta h).mp hih) hf
    rw [hown', if_neg hne, Kernel.waiting, hsame.event]
    exact hku.handoff.owner_iff hih hf
  · intro m' ha' ho
    rw [Kernel.Allocated, hsame.event] at ha'
    rw [Kernel.waiting, hsame.event]
    by_cases hm : m' = m
    · subst hm
      rw [hev]
      exact hempty
    · rw [hown', if_neg hm] at ho
      exact hku.handoff.free_empty ha' ho
  · refine hku.start.congr htick' hcur' hnest' hpv' ?_ ?_
    · intro h0
      exact absurd (hcur.symm.trans h0) hi.pos
    · intro h _ _ h1 h2 h3 h4
      exact ⟨(hinst h).mpr h1, by rw [Kernel.prio, hsame.contextTask]; exact h2,
        by rw [hbase']; exact h3, by rw [hsame.frame]; exact h4⟩
  · refine RunInv.of_user hst ?_ ?_
    · rw [hcur', hcur]
      exact (hinst _).mpr ((installed_congr hta _).mpr hi)
    · rw [hcur', hcur, hsame.frame, hframe]
      exact hcall.frame

/-- The state a release with waiters leaves behind, as one update. -/
theorem handOff_eq (u : Kernel cfg) (m : Nat) :
    ((u.setMutex m fun c => { c with osEventOwner := 0 }).noteReleased m).handOff m =
      { u with
        event := Function.update u.event (.mutex m)
          { u.event (.mutex m) with
            osEventWaitList := (u.event (.mutex m)).osEventWaitList &&&
              ~~~ priorityMask cfg (saScheduler (u.event (.mutex m)).osEventWaitList)
            osEventWait := ((u.event (.mutex m)).osEventWait + 255) % 256 }
        osReadyList := u.osReadyList |||
          priorityMask cfg (saScheduler (u.event (.mutex m)).osEventWaitList)
        mutexTable := Function.update u.mutexTable m
          { u.mutexTable m with
            osEventOwner :=
              u.priorityVector (saScheduler (u.event (.mutex m)).osEventWaitList) }
        held := Function.update u.held u.currentTask ((u.held u.currentTask).erase m) } := by
  unfold handOff
  dsimp only [noteReleased, setMutex, leaveWaitList, setEvent, Kernel.setReady]
  simp only [Function.update_self, Function.update_idem]

theorem CoreInv.handedOff (hk : KernelInv s) (hcall : Calling s) {m : Nat}
    (ha : s.Allocated (.mutex m)) (hown : s.owner m = s.currentTask)
    (hrule : s.NestedRelease m) (hw : (s.event (.mutex m)).osEventWait ≠ 0) :
    CoreInv ((s.giveUp m).handOff m) := by
  have hi := hcall.installed
  obtain ⟨xs, hs⟩ := hk.suspend
  have hmem := saScheduler_mem (hs.waiting_nonempty hw)
  obtain ⟨h₀, tw₀, hi₀, hf₀, hp₀, -⟩ := hs.waiter hmem
  have hpv₀ := hk.table.installed_of_pv hi₀ hp₀
  have htab := hk.table.handedOff ha hi hown hrule (by rw [hpv₀]; exact hi₀)
  have hku := hk.restorePriority hcall hrule
  obtain ⟨hmt, hev, hta, hpv, hcur, -, hframe, -⟩ := TableInv.restorePriority_same s m
  rw [← hev] at hmem hf₀ hpv₀
  unfold giveUp at htab ⊢
  rw [handOff_eq] at htab ⊢
  generalize s.restorePriority m = u at *
  generalize hp : saScheduler (u.event (.mutex m)).osEventWaitList = p at *
  rw [← hpv] at hpv₀
  generalize htt : Kernel.mk _ _ _ _ _ _ _ _ _ _ _ _ _ _ _ _ _ _ _ _ _ _ _ _ = t at htab ⊢
  obtain ⟨xs, hsu⟩ := hku.suspend
  have hlt : p < cfg.prioBits := lt_of_mem_bits hmem
  have hst : SuspendInv t xs := by
    refine hsu.select hku.table hmem ?_ ?_ ?_ ?_ ?_ ?_
    all_goals subst htt
    · rfl
    · exact bits_or_mask hlt
    all_goals rfl
  have hinst := installed_congr (s := u) (t := t) (by subst htt; rfl)
  have hframet : t.frame = u.frame := by subst htt; rfl
  have hwait : ∀ ev', t.waiting ev' =
      if ev' = .mutex m then (u.waiting (.mutex m)).erase p else u.waiting ev' := fun ev' => by
    subst htt
    exact waiting_leaveWaitList (s := u) (.mutex m) ev' p
  have halloc : ∀ ev', (t.event ev').osEventAllocated = (u.event ev').osEventAllocated := fun ev' => by
    subst htt
    exact TableInv.leaveWaitList_allocated u (.mutex m) ev' p
  have hownt : ∀ m', t.owner m' = if m' = m then u.priorityVector p else u.owner m' := fun m' => by
    subst htt
    simp only [Kernel.owner, Function.update_apply]
    split <;> rfl
  have howu : u.owner m = s.currentTask := by rw [Kernel.owner, hmt]; exact hown
  refine ⟨htab, ⟨xs, hst⟩, ⟨?_, ?_⟩, ?_⟩
  · intro h m' q tw hih hf
    have hih := (hinst h).mp hih
    rw [hframet] at hf
    rw [hownt, hwait]
    by_cases hm : m' = m
    · -- everybody else inside an acquire of this mutex is still in its wait list
      subst hm
      have hq := (hsu.pend_spec hih hf).1
      have hqw : q ∈ u.waiting (.mutex m') := by
        by_contra hn
        have ho := (hku.handoff.owner_iff hih hf).mpr hn
        rw [howu] at ho
        rw [← ho, hframe, hcall.frame] at hf
        cases hf
      rw [if_pos rfl, if_pos rfl, hpv₀]
      simp only [Finset.mem_erase, hqw, and_true, not_not]
      have hi₀' : u.Installed h₀ := (installed_congr hta h₀).mpr hi₀
      have hpu : u.prio h₀ = p := (hsu.pend_spec hi₀' (by rw [hframe]; exact hf₀)).1
      constructor
      · rintro rfl
        exact hq.symm.trans hpu
      · intro hqp
        exact (hku.table.prio_inj hih hi₀' (hq.trans (hqp.trans hpu.symm))).symm
    · have hne : Event.mutex m' ≠ .mutex m := fun he => hm (by cases he; rfl)
      rw [if_neg hm, if_neg hne]
      exact hku.handoff.owner_iff hih hf
  · intro m' ha' ho
    rw [Kernel.Allocated, halloc] at ha'
    rw [hownt] at ho
    split at ho
    · exact absurd ho (hku.table.pv_ne_zero p)
    · rename_i hm
      have hne : Event.mutex m' ≠ .mutex m := fun he => hm (by cases he; rfl)
      rw [hwait, if_neg hne]
      exact hku.handoff.free_empty ha' ho
  · refine hku.start.congr (by subst htt; rfl) (by subst htt; rfl) (by subst htt; rfl)
      (by subst htt; rfl) ?_ ?_
    · intro h0
      exact absurd (hcur.symm.trans h0) hi.pos
    · intro h _ _ h1 h2 h3 h4
      exact ⟨(hinst h).mpr h1, by subst htt; exact h2, by subst htt; exact h3,
        by rw [hframet]; exact h4⟩

/-! ### Creating and deleting objects -/

/-- A control block other than a mutex is allocated or freed while nobody waits for it. -/
theorem CoreInv.resetEvent (hc : CoreInv s) {ev : Event} {alloc : Bool} (hev : ∀ m, ev ≠ .mutex m)
    (hno : s.waiting ev = ∅) :
    CoreInv (s.setEvent ev fun _ => ⟨alloc, 0, 0⟩) := by
  obtain ⟨xs, hs⟩ := hc.suspend
  have hmutex : ∀ m, (s.setEvent ev fun _ => ⟨alloc, 0, 0⟩).event (.mutex m) =
      s.event (.mutex m) := fun m => Function.update_of_ne (Ne.symm (hev m)) _ _
  refine ⟨?_, ⟨xs, hs.resetEvent hno⟩, ?_, ?_⟩
  · exact hc.table.congr ⟨rfl, fun _ => rfl, rfl, rfl, rfl, fun m => by rw [hmutex]⟩
  · refine hc.handoff.congr (fun hi hf => ⟨hi, hf⟩) (fun _ => rfl) ?_ ?_
    · exact fun m => by rw [Kernel.waiting, hmutex]
    · exact fun m ha => by rwa [Kernel.Allocated, hmutex] at ha
  · exact hc.start.congr rfl rfl rfl rfl (fun _ hu => hu) (fun h _ _ h1 h2 h3 h4 => ⟨h1, h2, h3, h4⟩)

theorem CoreInv.reserve (hc : CoreInv s) {p : Nat} (hp : 0 < p)
    (hpv : s.priorityVector p = emptyPrio) : CoreInv (s.setPriorityVector p mutexPrio) := by
  obtain ⟨xs, hs⟩ := hc.suspend
  refine ⟨hc.table.reserve hpv, ⟨xs, hs.congr ⟨rfl, rfl, rfl, rfl, rfl, rfl⟩⟩, ?_, ?_⟩
  · exact hc.handoff.congr (fun hi hf => ⟨hi, hf⟩) (fun _ => rfl) (fun _ => rfl) (fun _ h => h)
  · exact hc.start.congr rfl rfl rfl (Function.update_of_ne (by omega) _ _) (fun _ hu => hu)
      (fun h _ _ h1 h2 h3 h4 => ⟨h1, h2, h3, h4⟩)

theorem CoreInv.mutexCreated (hc : CoreInv s) {m p : Nat} (hle : p ≤ cfg.configMaxTaskPriority)
    (hpv : 0 < p → s.priorityVector p = emptyPrio)
    (hfree : s.freeEvent .mutex cfg.brtosMaxMutex = some m) :
    CoreInv (((if 0 < p then s.setPriorityVector p mutexPrio else s).allocEvent (.mutex m)).setMutex m
      fun c => { c with osEventState := .availableResource, osMaxPriority := p }) := by
  obtain ⟨hm, hna⟩ := freeEvent_spec hfree
  have hceil : 0 < p → ∀ m', ¬ s.Ceiling m' p := fun hp m' hcm => hc.table.ceil_pv hcm (hpv hp)
  have hu : CoreInv (if 0 < p then s.setPriorityVector p mutexPrio else s) := by
    split
    · exact hc.reserve (by assumption) (hpv (by assumption))
    · exact hc
  have hpvu : 0 < p → (if 0 < p then s.setPriorityVector p mutexPrio else s).priorityVector p =
      mutexPrio := fun hp => by
    rw [if_pos hp]
    exact Function.update_self _ _ _
  have hnau : ¬ (if 0 < p then s.setPriorityVector p mutexPrio else s).Allocated (.mutex m) := by
    split <;> exact hna
  have hceilu : 0 < p → ∀ m',
      ¬ (if 0 < p then s.setPriorityVector p mutexPrio else s).Ceiling m' p := fun hp m' => by
    rw [if_pos hp]
    exact hceil hp m'
  generalize (if 0 < p then s.setPriorityVector p mutexPrio else s) = u at *
  obtain ⟨xs, hs⟩ := hu.suspend
  -- nobody is inside a call on a control block that was free
  have hno : ∀ h q tw, u.Installed h → u.frame h ≠ .pend (.mutex m) q tw :=
    fun h q tw hi hf => hnau (hu.pend_mutex_allocated hi hf)
  have hown0 : u.owner m = 0 := by
    by_contra h
    exact hnau (hu.table.owner_installed h).1
  refine ⟨hu.table.mutexCreated hm hnau (cfg.lt_prioBits_iff.mpr hle) hpvu hceilu,
    ⟨xs, (hs.resetEvent (hs.empty_of_free hnau)).congr ⟨rfl, rfl, rfl, rfl, rfl, rfl⟩⟩,
    ⟨?_, ?_⟩, ?_⟩
  · intro h m' q tw hi hf
    have hne : m' ≠ m := by
      rintro rfl
      exact hno h q tw hi hf
    have hne' : Event.mutex m' ≠ .mutex m := fun he => hne (by cases he; rfl)
    simp only [Kernel.owner, Kernel.waiting, setMutex, allocEvent, setEvent,
      Function.update_of_ne hne, Function.update_of_ne hne']
    exact hu.handoff.owner_iff hi hf
  · intro m' ha ho
    by_cases hne : m' = m
    · subst hne
      simp [Kernel.waiting, setMutex, allocEvent, setEvent]
    · have hne' : Event.mutex m' ≠ .mutex m := fun he => hne (by cases he; rfl)
      simp only [Kernel.Allocated, Kernel.owner, Kernel.waiting, setMutex, allocEvent, setEvent,
        Function.update_of_ne hne, Function.update_of_ne hne'] at ha ho ⊢
      exact hu.handoff.free_empty ha ho
  · exact hu.start.congr rfl rfl rfl rfl (fun _ h => h) (fun h _ _ h1 h2 h3 h4 => ⟨h1, h2, h3, h4⟩)

theorem CoreInv.mutexDeleted (hc : CoreInv s) {m : Nat} (hfree : s.owner m = 0) :
    CoreInv ((s.deleteEvent (.mutex m)).setMutex m fun _ => ⟨.zero, 0, 0, 0⟩) := by
  obtain ⟨xs, hs⟩ := hc.suspend
  have hempty : s.waiting (.mutex m) = ∅ := by
    by_cases ha : s.Allocated (.mutex m)
    · exact hc.handoff.free_empty ha hfree
    · exact hs.empty_of_free ha
  -- a task inside an acquire of `m` would be its owner
  have hno : ∀ h q tw, s.Installed h → s.frame h ≠ .pend (.mutex m) q tw := by
    intro h q tw hi hf
    have ho := (hc.handoff.owner_iff hi hf).mpr (by simp [hempty])
    exact hi.pos (ho.symm.trans hfree)
  refine ⟨hc.table.mutexDeleted hfree,
    ⟨xs, (hs.resetEvent hempty).congr ⟨rfl, rfl, rfl, rfl, rfl, rfl⟩⟩, ⟨?_, ?_⟩, ?_⟩
  · intro h m' q tw hi hf
    have hne : m' ≠ m := by
      rintro rfl
      exact hno h q tw hi hf
    have hne' : Event.mutex m' ≠ .mutex m := fun he => hne (by cases he; rfl)
    simp only [Kernel.owner, Kernel.waiting, setMutex, deleteEvent, setEvent,
      Function.update_of_ne hne, Function.update_of_ne hne']
    exact hc.handoff.owner_iff hi hf
  · intro m' ha ho
    by_cases hne : m' = m
    · subst hne
      simp [Kernel.waiting, setMutex, deleteEvent, setEvent]
    · have hne' : Event.mutex m' ≠ .mutex m := fun he => hne (by cases he; rfl)
      simp only [Kernel.Allocated, Kernel.owner, Kernel.waiting, setMutex, deleteEvent, setEvent,
        Function.update_of_ne hne, Function.update_of_ne hne'] at ha ho ⊢
      exact hc.handoff.free_empty ha ho
  · exact hc.start.congr rfl rfl rfl rfl (fun _ h => h) (fun h _ _ h1 h2 h3 h4 => ⟨h1, h2, h3, h4⟩)

/-! ### Install and uninstall -/

theorem HandoffInv.fillTcb (hh : HandoffInv s) {i p a b : Nat} (hi : s.freeTcb = some i) :
    HandoffInv (s.fillTcb i p a b) := by
  refine hh.congr ?_ (fun _ => rfl) (fun _ => rfl) (fun _ h => h)
  intro h m q tw hih hf
  rw [TableInv.installed_fillTcb (freeTcb_spec hi).1] at hih
  simp only [Kernel.fillTcb, Function.update_apply] at hf
  split at hf
  · cases hf
  · exact ⟨hih.resolve_left (by assumption), hf⟩

theorem CoreInv.fillTcb (hc : CoreInv s) {i p a b : Nat} (hi : s.freeTcb = some i) (hp : 0 < p)
    (hle : p ≤ cfg.configMaxTaskPriority) (hpv : s.priorityVector p = emptyPrio) :
    CoreInv (s.fillTcb i p a b) := by
  obtain ⟨xs, hs⟩ := hc.suspend
  have hlt := cfg.lt_prioBits_iff.mpr hle
  have hnew := TableInv.not_installed_of_free hi
  refine ⟨hc.table.fillTcb hi hlt hpv, ⟨xs, hs.fillTcb hc.table hi hlt hpv⟩,
    hc.handoff.fillTcb hi, ?_⟩
  refine hc.start.congr rfl rfl rfl (Function.update_of_ne (by omega) _ _) ?_ ?_
  · intro _ hu h hih
    rw [TableInv.installed_fillTcb (freeTcb_spec hi).1] at hih
    simp only [Kernel.fillTcb, Function.update_apply]
    split
    · rfl
    · exact hu (hih.resolve_left (by assumption))
  · intro h _ _ h1 h2 h3 h4
    have hne : h ≠ i + 1 := fun he => hnew (he ▸ h1)
    rw [TableInv.installed_fillTcb (freeTcb_spec hi).1]
    simp only [Kernel.prio, Kernel.fillTcb, Function.update_of_ne hne]
    exact ⟨Or.inr h1, h2, h3, h4⟩

theorem RunInv.fillTcb (hr : RunInv s) {i p a b : Nat} (hi : s.freeTcb = some i)
    (hp : p < cfg.prioBits) : RunInv (s.fillTcb i p a b) := by
  intro h0
  obtain ⟨h1, h2⟩ := hr h0
  have hne : s.currentTask ≠ i + 1 := fun he => TableInv.not_installed_of_free hi (he ▸ h1)
  have hready : (s.fillTcb i p a b).ready = insert p s.ready := bits_or_mask hp
  refine ⟨(TableInv.installed_fillTcb (freeTcb_spec hi).1 _).mpr (Or.inr h1), ?_⟩
  rw [hready]
  refine Finset.mem_insert_of_mem ?_
  simp only [Kernel.prio, Kernel.fillTcb, Function.update_of_ne hne]
  exact h2

/-- The search of `OSUninstallTask` finds the listed tasks. -/
theorem searchDelayList_spec {task : Nat} :
    ∀ {fuel : Nat} {ys : List Nat} {p : Option Nat} {b : Bool}, s.delayList.Seg p ys none →
      s.searchDelayList task fuel ys.head? = some b → (b = true ↔ task ∈ ys)
  | fuel, [], p, b, _, h => by
      cases fuel <;> simp_all [Kernel.searchDelayList]
  | 0, y :: ys, p, b, _, h => by
      simp [Kernel.searchDelayList] at h
  | fuel + 1, y :: ys, p, b, hseg, h => by
      simp only [List.head?_cons, Kernel.searchDelayList] at h
      split at h
      · rename_i heq
        cases h
        simp [heq]
      · rename_i hne
        have hnext : s.delayList.next y = ys.head? := by simpa using hseg.2.1
        rw [hnext] at h
        rw [searchDelayList_spec hseg.2.2 h]
        simp [Ne.symm hne]

/-- The uninstall of a task that is outside every pend and owns no mutex: whatever
`u` did to the ready list and the delay list, the task is in neither. -/
theorem CoreInv.clearTcb (hc : CoreInv s) {task : Nat} {xs xs' : List Nat} (hs : SuspendInv s xs)
    (hi : s.Installed task) (hp : s.prio task ≠ 0) (hf : (s.frame task).isPend = false)
    (hown : s.OwnsNone task) {u : Kernel cfg}
    (hready : u.ready = s.ready.erase (s.prio task)) (hlist : u.delayList.IsList xs')
    (hxs : ∀ h, h ∈ xs' ↔ h ∈ xs ∧ h ≠ task)
    (hu : u = { s with
      osReadyList := u.osReadyList, delayList := u.delayList, delayOps := u.delayOps }) :
    CoreInv (u.clearTcb task) := by
  have htask : u.taskAlloc = s.taskAlloc := by rw [hu]
  have hctx : u.contextTask = s.contextTask := by rw [hu]
  have hframe : u.frame = s.frame := by rw [hu]
  have hevent : u.event = s.event := by rw [hu]
  have hmt : u.mutexTable = s.mutexTable := by rw [hu]
  have hpv : u.priorityVector = s.priorityVector := by rw [hu]
  have hbase : u.base = s.base := by rw [hu]
  have hrest : u.osTickCounter = s.osTickCounter ∧ u.currentTask = s.currentTask ∧
      u.iNesting = s.iNesting := by rw [hu]; exact ⟨rfl, rfl, rfl⟩
  have hinst : ∀ h, (u.clearTcb task).Installed h ↔ s.Installed h ∧ h ≠ task := fun h => by
    rw [TableInv.installed_clearTcb hi.pos, installed_congr htask]
  have htu : TableInv u := hc.table.congr ⟨htask, fun h => by rw [Kernel.prio, hctx], hbase, hpv,
    hmt, fun m => by rw [hevent]⟩
  have hownu : u.OwnsNone task := fun m hm => by rw [hmt]; exact hown m hm
  refine ⟨htu.clearTcb ((installed_congr htask task).mpr hi) hownu,
    ⟨xs', hs.clearTcb hc.table hi hf hready htask hctx hframe hevent hlist hxs⟩, ?_, ?_⟩
  · refine hc.handoff.congr ?_ ?_ ?_ ?_
    · intro h m q tw hih hfh
      exact ⟨((hinst h).mp hih).1, hframe ▸ hfh⟩
    · intro m
      change u.owner m = _
      rw [Kernel.owner, hmt]
    · intro m
      change u.waiting _ = _
      rw [Kernel.waiting, hevent]
    · intro m ha
      change u.Allocated _ at ha
      rwa [Kernel.Allocated, hevent] at ha
  · -- the idle task is not the one that goes
    have hpv0 : (u.clearTcb task).priorityVector 0 = s.priorityVector 0 := by
      have hne : (0 : Nat) ≠ u.prio task := by
        rw [Kernel.prio, hctx]
        exact Ne.symm hp
      rw [← hpv]
      exact Function.update_of_ne hne _ _
    refine hc.start.congr hrest.1 hrest.2.1 hrest.2.2 hpv0 ?_ ?_
    · intro _ huser h hih
      change u.frame h = _
      rw [hframe]
      exact huser ((hinst h).mp hih).1
    · intro h _ _ h1 h2 h3 h4
      have hne : h ≠ task := by
        rintro rfl
        exact hp h2
      refine ⟨(hinst h).mpr ⟨h1, hne⟩, ?_, ?_, ?_⟩
      · simp only [Kernel.prio, Kernel.clearTcb, Function.update_of_ne hne, hctx]
        exact h2
      · change u.base h = 0
        rw [hbase]
        exact h3
      · change u.frame h = .user
        rw [hframe]
        exact h4

theorem RunInv.clearTcb (hr : RunInv s) (ht : TableInv s) {task : Nat} (hi : s.Installed task)
    (hne : task ≠ s.currentTask) {u : Kernel cfg}
    (hready : u.ready = s.ready.erase (s.prio task))
    (hu : u = { s with
      osReadyList := u.osReadyList, delayList := u.delayList, delayOps := u.delayOps }) :
    RunInv (u.clearTcb task) := by
  have hcur : u.currentTask = s.currentTask := by rw [hu]
  have htask : u.taskAlloc = s.taskAlloc := by rw [hu]
  have hctx : u.contextTask = s.contextTask := by rw [hu]
  intro h0
  have hcur' : (u.clearTcb task).currentTask = s.currentTask := hcur
  have hready' : (u.clearTcb task).ready = s.ready.erase (s.prio task) := hready
  rw [hcur'] at h0 ⊢
  obtain ⟨h1, h2⟩ := hr h0
  have hprio : (u.clearTcb task).prio s.currentTask = s.prio s.currentTask := by
    simp only [Kernel.prio, Kernel.clearTcb, Function.update_of_ne (Ne.symm hne), hctx]
  refine ⟨(TableInv.installed_clearTcb hi.pos _).mpr
    ⟨(installed_congr htask _).mpr h1, Ne.symm hne⟩, ?_⟩
  rw [hready', hprio, Finset.mem_erase]
  exact ⟨fun he => hne (ht.prio_inj h1 hi he).symm, h2⟩

end Brtos
