import Brtos.Invariant.Preserve

/-!
# Brtos.Invariant.Step

The step theorem: `step_inv` says that a disciplined step from a state with the
kernel invariant ends in one, `run_inv` that every state of a disciplined
execution has it. The loop of the tick handler is treated on the way: it
terminates, examines each listed task once and expires those whose deadline is
the current count (`tickLoop_spec`).
-/

namespace Brtos

open Bits Kernel

variable {cfg : Config} {s t u : Kernel cfg}

/-! ### Calls -/

/-- A call does not move the processor, the nesting or the clock by itself. -/
theorem effect_same {rule : Kernel cfg → Nat → Prop} {c : Call} {oc : Outcome}
    (he : Effect rule s c u oc) : u.currentTask = s.currentTask ∧ u.iNesting = s.iNesting ∧
      u.osTickCounter = s.osTickCounter := by
  cases he with
  | delayed =>
      rw [SuspendInv.startDelay_eq]
      exact ⟨rfl, rfl, rfl⟩
  | waited =>
      rw [SuspendInv.waitEvent_eq]
      exact ⟨rfl, rfl, rfl⟩
  | queueSelected =>
      rw [SuspendInv.wakeWaiter_eq]
      exact ⟨rfl, rfl, rfl⟩
  | uninstalledDelayed =>
      split <;> exact ⟨rfl, rfl, rfl⟩
  | mutexCreated =>
      dsimp only [setMutex, allocEvent, setEvent]
      split <;> exact ⟨rfl, rfl, rfl⟩
  | acquired =>
      obtain ⟨-, -, -, -, -, h1, h2, h3, -⟩ := takeCeiling_same (s.setMutex _ fun c =>
        { c with osEventState := .busyResource, osEventOwner := s.currentTask }) _
        (s.prio s.currentTask)
      exact ⟨h1, h2, h3⟩
  | released =>
      obtain ⟨-, -, -, -, h1, -, -, h2, h3⟩ := TableInv.restorePriority_same s _
      obtain ⟨-, -, h1', h2', h3', -⟩ := freeMutex_same (s.restorePriority _) _
      exact ⟨h1'.trans h1, h2'.trans h2, h3'.trans h3⟩
  | handedOff =>
      obtain ⟨-, -, -, -, h1, -, -, h2, h3⟩ := TableInv.restorePriority_same s _
      rw [giveUp, handOff_eq]
      exact ⟨h1, h2, h3⟩
  | _ => exact ⟨rfl, rfl, rfl⟩

/-- In `main` nobody waits for anything. -/
theorem CoreInv.main_no_wait (hc : CoreInv s) (h0 : s.currentTask = 0) (ev : Event) :
    (s.event ev).osEventWait = 0 := by
  obtain ⟨xs, hs⟩ := hc.suspend
  rw [hs.wait_eq_zero, Finset.eq_empty_iff_forall_notMem]
  intro p hw
  obtain ⟨h, tw, hi, hf⟩ := hs.wait_pend hw
  rw [(hc.start.main h0).2.2 hi] at hf
  cases hf

theorem afterWake_cases {r : Ret} (s : Kernel cfg) :
    s.afterWake r = .switched r ∨ s.afterWake r = .returned r := by
  unfold afterWake
  split
  · exact Or.inl rfl
  · exact Or.inr rfl

/-- The calls that suspend their caller; after its own uninstall it does not come back. -/
theorem Effect.suspended_cases {rule : Kernel cfg → Nat → Prop} {c : Call}
    (he : Effect rule s c u .suspended) (hc : ∀ h off taskTimer, c ≠ .uninstallTask h off taskTimer) :
    s.inTask = true ∧
      ((∃ timeWait, c = .delayTask timeWait ∧ u = s.startDelay timeWait) ∨
        ∃ ev timeWait, c = (Frame.pend ev 0 timeWait).call ∧ s.Unavailable ev ∧
          u = s.waitEvent ev timeWait) := by
  have hwake : ∀ {r : Ret}, s.afterWake r ≠ .suspended := by
    intro r
    rcases afterWake_cases (r := r) s with h | h <;> rw [h] <;> exact fun h => by cases h
  generalize hoc : Outcome.suspended = oc at he
  cases he with
  | delayed hwho htw => exact ⟨hwho, Or.inl ⟨_, rfl, rfl⟩⟩
  | waited hwho hev htw hun => exact ⟨hwho, Or.inr ⟨_, _, rfl, hun, rfl⟩⟩
  | blocked hb hd hex h =>
      subst hoc
      rcases h with h | ⟨h, -⟩ <;> cases h
  | uninstalled | uninstalledDelayed => exact absurd rfl (hc _ _ _)
  | semSelected | mboxSelected | queueSelected => exact absurd hoc.symm hwake
  | _ => cases hoc

/-- What the invariant needs of a call: the core is kept, a call that returns
leaves its caller ready, and only a task changes context. -/
structure CallOk (s u : Kernel cfg) (oc : Outcome) : Prop where
  core : CoreInv u
  run : (∃ r, oc = .returned r) → RunInv u
  task : (∀ r, oc ≠ .returned r) → s.currentTask ≠ 0

theorem KernelInv.callOk (hk : KernelInv u) {r : Ret} : CallOk s u (.returned r) :=
  ⟨hk.toCoreInv, fun _ => hk.run, fun h => absurd rfl (h r)⟩

/-- A call that touches nothing of the invariant. -/
theorem KernelInv.callOk_untouched (hk : KernelInv s) (h : Untouched s u) {r : Ret} :
    CallOk s u (.returned r) := (hk.untouched h).callOk

/-- A post that selects a waiter, possibly after writing data nobody here reads. -/
theorem KernelInv.callOk_selected (hk : KernelInv s) {ev : Event} {r : Ret}
    (hev : ∀ m, ev ≠ .mutex m) (hw : (s.event ev).osEventWait ≠ 0)
    (hu : Untouched (s.wakeWaiter ev) u) : CallOk s u (s.afterWake r) := by
  obtain ⟨xs, hs⟩ := hk.suspend
  refine ⟨(hk.toCoreInv.wakeWaiter hev hw).untouched hu,
    fun _ => (hk.run.wakeWaiter hs hw).untouched hu, fun _ h0 => ?_⟩
  exact hw (hk.toCoreInv.main_no_wait h0 ev)

/-- Allocating or freeing a block, possibly with other writes nobody here reads. -/
theorem KernelInv.callOk_reset (hk : KernelInv s) {ev : Event} {alloc : Bool} {r : Ret}
    (hev : ∀ m, ev ≠ .mutex m) (hno : s.waiting ev = ∅)
    (hu : Untouched (s.setEvent ev fun _ => ⟨alloc, 0, 0⟩) u) : CallOk s u (.returned r) :=
  ⟨(hk.toCoreInv.resetEvent hev hno).untouched hu,
    fun _ => (hk.run.of_ready rfl rfl (fun _ => rfl) (fun _ h => h) :
      RunInv (s.setEvent ev fun _ => ⟨alloc, 0, 0⟩)).untouched hu,
    fun h => absurd rfl (h r)⟩

theorem uninstalled_callOk (hk : KernelInv s) {task : Nat} (hi : s.Installed task)
    (hp : s.prio task ≠ 0) (hf : (s.frame task).isPend = false) (hown : s.OwnsNone task)
    {xs xs' : List Nat} (hs : SuspendInv s xs)
    (hready : u.ready = s.ready.erase (s.prio task)) (hlist : u.delayList.IsList xs')
    (hxs : ∀ h, h ∈ xs' ↔ h ∈ xs ∧ h ≠ task)
    (hu : u = { s with
      osReadyList := u.osReadyList, delayList := u.delayList, delayOps := u.delayOps }) :
    CallOk s (u.clearTcb task) (s.uninstallOutcome task) := by
  refine ⟨hk.toCoreInv.clearTcb hs hi hp hf hown hready hlist hxs hu, ?_, ?_⟩
  · rintro ⟨r, hr⟩
    have hne : task ≠ s.currentTask := by
      intro he
      rw [uninstallOutcome, if_pos he] at hr
      cases hr
    exact hk.run.clearTcb hk.table hi hne hready hu
  · intro hr h0
    unfold uninstallOutcome at hr
    split at hr
    · rename_i he
      exact hi.pos (he.trans h0)
    · exact hr _ rfl

/-- A task that is not inside a pend is in the delay list exactly when it is not ready. -/
theorem SuspendInv.listed_iff {xs : List Nat} (hs : SuspendInv s xs) {task : Nat}
    (hi : s.Installed task) (hf : (s.frame task).isPend = false) :
    task ∈ xs ↔ s.prio task ∉ s.ready := by
  cases hfr : s.frame task with
  | user =>
      have h1 := hs.ready_user hi hfr
      have h2 := hs.user_not_listed hfr
      simp [h1, h2]
  | delay tw =>
      rw [hs.ready_delay hi hfr, not_not]
  | pend ev p tw => simp [hfr, Frame.isPend] at hf

/-- The search of an uninstall finds a listed task. -/
theorem SuspendInv.found {xs : List Nat} (hs : SuspendInv s xs) {task : Nat} {b : Bool}
    (hm : task ∈ xs)
    (hsearch : s.searchDelayList task (walkFuel cfg) s.delayList.head = some b) : b = true := by
  rw [hs.list.head_eq] at hsearch
  exact (searchDelayList_spec hs.list.seg hsearch).mpr hm

/-- Every disciplined call keeps the core of the invariant. -/
theorem effect_core (hk : KernelInv s) {c : Call} {oc : Outcome}
    (he : Effect NestedRelease s c u oc) : CallOk s u oc := by
  obtain ⟨xs, hs⟩ := hk.suspend
  have hnotask : ∀ r, (∀ r', Outcome.returned r ≠ .returned r') → s.currentTask ≠ 0 :=
    fun r h => absurd rfl (h r)
  cases he with
  | refused => exact hk.callOk
  | installFailed => exact hk.callOk_untouched (by constructor <;> rfl)
  | installed hwho hp hle hpv hi hfit =>
      rename_i p i stackInit stackSize a b heap
      have hlt := cfg.lt_prioBits_iff.mpr hle
      have hfill : KernelInv (s.fillTcb i p stackInit stackSize) :=
        ⟨hk.toCoreInv.fillTcb hi hp hle hpv, hk.run.fillTcb hi hlt⟩
      exact (hfill.untouched (by constructor <;> rfl)).callOk
  | uninstalled htask hwho hi hp hf hown hr =>
      rename_i h task off
      -- a ready task is in no list, so there is nothing to unlink
      have hnm : task ∉ xs := (hs.listed_iff hi hf).not.mpr (not_not.mpr hr)
      exact uninstalled_callOk (u := s.clearReady (s.prio task)) hk hi hp hf hown hs
        (ready_clearReady _) hs.list
        (fun h => ⟨fun hm => ⟨hm, fun he => hnm (he ▸ hm)⟩, fun hm => hm.1⟩) rfl
  | uninstalledDelayed htask hwho hi hp hf hown hr hsearch =>
      rename_i h task found
      have hm : task ∈ xs := (hs.listed_iff hi hf).mpr hr
      -- the search succeeds: the branch that leaves the list alone is not taken
      obtain rfl : found = true := hs.found hm hsearch
      obtain ⟨ys, zs, hxs⟩ := List.append_of_mem hm
      subst hxs
      obtain ⟨hny, hnz, -⟩ := DList.not_mem_of_nodup_mid hs.list.nodup
      refine uninstalled_callOk (u := s.removeFromDelayList task) hk hi hp hf
        hown hs ?_ hs.list.remove ?_ rfl
      · exact (Finset.erase_eq_of_notMem hr).symm
      · intro h
        simp only [List.mem_append, List.mem_cons]
        constructor
        · rintro (hm | hm)
          · exact ⟨Or.inl hm, fun e => hny (e ▸ hm)⟩
          · exact ⟨Or.inr (Or.inr hm), fun e => hnz (e ▸ hm)⟩
        · rintro ⟨hm | hm | hm, hne⟩
          · exact Or.inl hm
          · exact absurd hm hne
          · exact Or.inr hm
  | delayed hwho htw =>
      have hcall := hk.calling hwho
      exact ⟨hk.toCoreInv.startDelay hcall _, (by rintro ⟨_, h⟩; cases h),
        fun _ => hcall.installed.pos⟩
  | blocked hc hd hex hoc =>
      rename_i b
      have hk' : KernelInv { s with osBlockedList := b } := hk.untouched (by constructor <;> rfl)
      refine ⟨hk'.toCoreInv, fun _ => hk'.run, fun h => ?_⟩
      rcases hoc with hoc | hoc
      · exact absurd hoc (h _)
      · exact inTask_currentTask hoc.2
  | waited hwho hev htw hun =>
      have hcall := hk.calling hwho
      exact ⟨hk.toCoreInv.waitEvent hcall hev htw hun, (by rintro ⟨_, h⟩; cases h),
        fun _ => hcall.installed.pos⟩
  | semCreated hc hfree =>
      exact hk.callOk_reset (by simp) (hs.empty_of_free (freeEvent_spec hfree).2)
        (by constructor <;> rfl)
  | semDeleted hno =>
      exact hk.callOk_reset (by simp) hno (by constructor <;> rfl)
  | semTaken => exact hk.callOk_untouched (by constructor <;> rfl)
  | semSelected hev hw => exact hk.callOk_selected (by simp) hw (by constructor <;> rfl)
  | semGiven => exact hk.callOk_untouched (by constructor <;> rfl)
  | mboxCreated hfree =>
      exact hk.callOk_reset (by simp) (hs.empty_of_free (freeEvent_spec hfree).2)
        (by constructor <;> rfl)
  | mboxDeleted hno =>
      exact hk.callOk_reset (by simp) hno (by constructor <;> rfl)
  | mboxTaken => exact hk.callOk_untouched (by constructor <;> rfl)
  | mboxSelected hev hw => exact hk.callOk_selected (by simp) hw (by constructor <;> rfl)
  | mboxStored => exact hk.callOk_untouched (by constructor <;> rfl)
  | queueCreated hfree =>
      exact hk.callOk_reset (by simp) (hs.empty_of_free (freeEvent_spec hfree).2)
        (by constructor <;> rfl)
  | queueRead => exact hk.callOk_untouched (by constructor <;> rfl)
  | queueWritten => exact hk.callOk_untouched (by constructor <;> rfl)
  | queueSelected hev hq hw => exact hk.callOk_selected (by simp) hw (by constructor <;> rfl)
  | queueCleaned => exact hk.callOk_untouched (by constructor <;> rfl)
  | mutexReserved hp hle hpv =>
      exact ⟨hk.toCoreInv.reserve hp hpv,
        fun _ => hk.run.of_ready rfl rfl (fun _ => rfl) (fun _ h => h), hnotask _⟩
  | mutexCreated hle hpv hfree =>
      refine ⟨hk.toCoreInv.mutexCreated hle hpv hfree, fun _ => ?_, hnotask _⟩
      refine hk.run.of_ready ?_ ?_ ?_ ?_
      all_goals dsimp only [setMutex, allocEvent, setEvent]
      all_goals split
      all_goals first | rfl | exact fun _ => rfl
  | mutexDeleted hfree =>
      exact ⟨hk.toCoreInv.mutexDeleted hfree,
        fun _ => hk.run.of_ready rfl rfl (fun _ => rfl) (fun _ h => h), hnotask _⟩
  | reacquired => exact hk.callOk
  | acquired hwho hev hown hst => exact (hk.takeMutex (hk.calling hwho) hev hst).callOk
  | released hwho hev hown hrule hw =>
      exact (hk.released (hk.calling hwho) hev hown hrule hw).callOk
  | handedOff hwho hev hown hrule hw =>
      have hcall := hk.calling hwho
      exact ⟨CoreInv.handedOff hk hcall hev hown hrule hw, (by rintro ⟨_, h⟩; cases h),
        fun _ => hcall.installed.pos⟩

/-! ### The context switch -/

/-- `OSSchedule` returns an installed, ready task: the one at the top eligible
priority, or the idle task. -/
theorem schedule_spec {xs : List Nat} {h : Nat} (ht : TableInv s) (hs : SuspendInv s xs)
    (hidle : ∃ h, s.priorityVector 0 = h ∧ s.Installed h ∧ s.prio h = 0 ∧ s.frame h = .user)
    (hsch : s.osSchedule = some h) : s.Installed h ∧ s.prio h ∈ s.ready := by
  rcases osSchedule_cases hsch with ⟨p, htop, hpv⟩ | ⟨-, hpv⟩
  · obtain ⟨h', hi, hp⟩ := hs.ready_installed htop.1
    have : h' = h := (ht.installed_of_pv hi hp).symm.trans hpv
    subst this
    exact ⟨hi, hp ▸ htop.1⟩
  · obtain ⟨h', hpv', hi, -, hf⟩ := hidle
    have : h' = h := hpv'.symm.trans hpv
    subst this
    exact ⟨hi, hs.ready_user hi hf⟩

/-- The context switch establishes the whole invariant. -/
theorem CoreInv.changeContext (hc : CoreInv s) (h0 : s.currentTask ≠ 0) {h : Nat}
    (hsch : s.osSchedule = some h) : KernelInv { s with currentTask := h } := by
  obtain ⟨xs, hs⟩ := hc.suspend
  obtain ⟨hd, hpv, h1, h2, h3, h4⟩ := hc.start.idle h0
  obtain ⟨hi, hr⟩ := schedule_spec hc.table hs ⟨hd, hpv, h1, h2, h4⟩ hsch
  refine ⟨⟨hc.table.congr ⟨rfl, fun _ => rfl, rfl, rfl, rfl, fun _ => rfl⟩,
    ⟨xs, hs.congr ⟨rfl, rfl, rfl, rfl, rfl, rfl⟩⟩, ?_, ?_⟩, fun _ => ⟨hi, hr⟩⟩
  · exact hc.handoff.congr (fun hi hf => ⟨hi, hf⟩) (fun _ => rfl) (fun _ => rfl) (fun _ h => h)
  · exact ⟨hc.start.tick_lt, fun hz => absurd hz hi.pos, fun _ => ⟨hd, hpv, h1, h2, h3, h4⟩⟩

/-- `BRTOSStart`: the idle task takes priority 0, and the best task runs. -/
theorem KernelInv.started (hk : KernelInv s) (hmain : s.inMain = true) {i a b h : Nat}
    (hi : s.freeTcb = some i) (hu : Untouched (s.fillTcb i 0 a b) u)
    (hsch : u.osSchedule = some h) : KernelInv { u with currentTask := h } := by
  obtain ⟨xs, hs⟩ := hk.suspend
  obtain ⟨hnest, hpv, huser⟩ := hk.start.main (inMain_currentTask hmain)
  have htab := hk.table.fillTcb (a := a) (b := b) hi cfg.prioBits_pos hpv
  have hsus := hs.fillTcb (a := a) (b := b) hk.table hi cfg.prioBits_pos hpv
  have hinst : (s.fillTcb i 0 a b).Installed (i + 1) :=
    (TableInv.installed_fillTcb (freeTcb_spec hi).1 _).mpr (Or.inl rfl)
  have hpv' : (s.fillTcb i 0 a b).priorityVector 0 = i + 1 := by
    simp [Kernel.fillTcb]
  have hprio : (s.fillTcb i 0 a b).prio (i + 1) = 0 := by
    simp [Kernel.prio, Kernel.fillTcb]
  have hbase : (s.fillTcb i 0 a b).base (i + 1) = 0 := Function.update_self _ _ _
  have hframe : (s.fillTcb i 0 a b).frame (i + 1) = .user := Function.update_self _ _ _
  have hhand := hk.handoff.fillTcb (p := 0) (a := a) (b := b) hi
  have htick : (s.fillTcb i 0 a b).osTickCounter < cfg.tickCountOverflow := hk.start.tick_lt
  generalize s.fillTcb i 0 a b = v at *
  have hin := installed_congr hu.taskAlloc
  have hsu : SuspendInv u xs :=
    hsus.congr ⟨hu.taskAlloc, hu.contextTask, hu.delayList, hu.frame, hu.event, hu.osReadyList⟩
  have htu : TableInv u := htab.congr ⟨hu.taskAlloc, fun _ => by rw [Kernel.prio, hu.contextTask],
    hu.base, hu.priorityVector, hu.mutexTable, fun _ => by rw [hu.event]⟩
  have hidle : u.priorityVector 0 = i + 1 ∧ u.Installed (i + 1) ∧ u.prio (i + 1) = 0 ∧
      u.base (i + 1) = 0 ∧ u.frame (i + 1) = .user := by
    rw [hu.priorityVector, Kernel.prio, hu.contextTask, hu.base, hu.frame]
    exact ⟨hpv', (hin _).mpr hinst, hprio, hbase, hframe⟩
  obtain ⟨hih, hr⟩ := schedule_spec htu hsu
    ⟨i + 1, hidle.1, hidle.2.1, hidle.2.2.1, hidle.2.2.2.2⟩ hsch
  refine ⟨⟨htu.congr ⟨rfl, fun _ => rfl, rfl, rfl, rfl, fun _ => rfl⟩,
    ⟨xs, hsu.congr ⟨rfl, rfl, rfl, rfl, rfl, rfl⟩⟩, ?_, ?_⟩, fun _ => ⟨hih, hr⟩⟩
  · refine hhand.congr ?_ ?_ ?_ ?_
    · intro h' m p tw hi' hf
      exact ⟨(hin h').mp hi', hu.frame ▸ hf⟩
    · intro m
      change u.owner m = _
      rw [Kernel.owner, hu.mutexTable]
    · intro m
      change u.waiting _ = _
      rw [Kernel.waiting, hu.event]
    · intro m ha
      change u.Allocated _ at ha
      rwa [Kernel.Allocated, hu.event] at ha
  · refine ⟨?_, fun hz => absurd hz hih.pos, fun _ => ⟨i + 1, hidle⟩⟩
    change u.osTickCounter < _
    rw [hu.osTickCounter]
    exact htick

/-! ### Continuing a suspended call -/

theorem KernelInv.timedOut (hk : KernelInv s) (hcur : s.currentTask ≠ 0) {ev : Event} {p tw : Nat}
    (hf : s.frame s.currentTask = .pend ev p tw) (hto : s.TimedOut ev p tw) :
    KernelInv ((s.leaveWaitList ev p).setFrame s.currentTask .user) := by
  obtain ⟨xs, hs⟩ := hk.suspend
  obtain ⟨hi, hr⟩ := hk.run hcur
  have hsus := hs.timedOut hk.table hi hf hr hto
  have hp := (hs.pend_spec hi hf).1
  have halloc := TableInv.leaveWaitList_allocated s ev
  have hframe : ∀ h, ((s.leaveWaitList ev p).setFrame s.currentTask .user).frame h =
      if h = s.currentTask then .user else s.frame h := fun h => by
    simp only [setFrame, leaveWaitList, setEvent, Function.update_apply]
  refine ⟨⟨?_, ⟨xs, hsus⟩, ⟨?_, ?_⟩, ?_⟩, ?_⟩
  · exact hk.table.congr ⟨rfl, fun _ => rfl, rfl, rfl, rfl, fun m => halloc _ p⟩
  · intro h m q tw' hih hfh
    rw [hframe] at hfh
    split at hfh
    · cases hfh
    · -- another task's bit is another bit
      rename_i hne
      have hq := (hs.pend_spec hih hfh).1
      have hqp : q ≠ p := fun he => hne (hk.table.prio_inj hih hi (hq.trans (he.trans hp.symm)))
      change s.owner m = h ↔ q ∉ (s.leaveWaitList ev p).waiting (.mutex m)
      rw [waiting_leaveWaitList, hk.handoff.owner_iff hih hfh]
      split
      · rename_i heq
        rw [heq]
        simp [hqp]
      · rfl
  · intro m ha ho
    change (s.leaveWaitList ev p).waiting (.mutex m) = ∅
    change ((s.leaveWaitList ev p).event (.mutex m)).osEventAllocated = true at ha
    rw [halloc] at ha
    have he := hk.handoff.free_empty ha ho
    rw [waiting_leaveWaitList]
    split
    · rename_i heq
      rw [← heq, he]
      rfl
    · exact he
  · refine hk.start.congr rfl rfl rfl rfl (fun h0 => absurd h0 hcur) ?_
    intro h _ _ h1 h2 h3 h4
    refine ⟨h1, h2, h3, ?_⟩
    rw [hframe]
    split
    · rfl
    · exact h4
  · exact RunInv.of_user hsus hi (by rw [hframe]; exact if_pos rfl)

/-- Cancelling a timeout writes `TimeToWait` and the delay list only. -/
theorem cancelTimeout_eq (s : Kernel cfg) (tw : Nat) :
    ∃ ctx dl ops,
      s.cancelTimeout tw = { s with contextTask := ctx, delayList := dl, delayOps := ops } ∧
      ∀ h, (ctx h).priority = s.prio h := by
  unfold cancelTimeout
  split
  · refine ⟨_, _, _, rfl, fun h => ?_⟩
    simp only [Kernel.prio, setTimeToWait, setContext, Function.update_apply]
    split
    · rename_i heq
      rw [heq]
    · rfl
  · exact ⟨s.contextTask, s.delayList, s.delayOps, rfl, fun _ => rfl⟩

/-- Cancelling the timeout and leaving the kernel, before anything is taken. -/
theorem KernelInv.woken (hk : KernelInv s) (hcur : s.currentTask ≠ 0) {ev : Event} {p tw : Nat}
    (hf : s.frame s.currentTask = .pend ev p tw) (hto : ¬ s.TimedOut ev p tw) :
    KernelInv ((s.cancelTimeout tw).setFrame s.currentTask .user) := by
  obtain ⟨xs, hs⟩ := hk.suspend
  obtain ⟨hi, hr⟩ := hk.run hcur
  have hsus := hs.woken hk.table hi hf hr hto
  obtain ⟨ctx, dl, ops, heq, hprio⟩ := cancelTimeout_eq s tw
  rw [heq] at hsus ⊢
  have hframe : ∀ h f, Function.update s.frame s.currentTask Frame.user h = f → f ≠ .user →
      s.frame h = f := by
    intro h f hfh hfu
    rw [Function.update_apply] at hfh
    split at hfh
    · exact absurd hfh.symm hfu
    · exact hfh
  refine ⟨⟨?_, ⟨_, hsus⟩, ?_, ?_⟩, ?_⟩
  · exact hk.table.congr ⟨rfl, hprio, rfl, rfl, rfl, fun _ => rfl⟩
  · refine hk.handoff.congr ?_ (fun _ => rfl) (fun _ => rfl) (fun _ h => h)
    intro h m q tw' hih hfh
    exact ⟨hih, hframe h _ hfh (by simp)⟩
  · refine hk.start.congr rfl rfl rfl rfl (fun h0 => absurd h0 hcur) ?_
    intro h _ _ h1 h2 h3 h4
    refine ⟨h1, (hprio h).trans h2, h3, ?_⟩
    by_contra hfu
    exact hfu ((hframe h _ rfl hfu).symm.trans h4)
  · exact RunInv.of_user hsus hi (Function.update_self _ _ _)

theorem KernelInv.delayEnded (hk : KernelInv s) (hcur : s.currentTask ≠ 0) {tw : Nat}
    (hf : s.frame s.currentTask = .delay tw) : KernelInv (s.setFrame s.currentTask .user) := by
  obtain ⟨xs, hs⟩ := hk.suspend
  obtain ⟨hi, hr⟩ := hk.run hcur
  have hsus := hs.delayEnded hk.table hi hf hr
  refine ⟨⟨?_, ⟨xs, hsus⟩, ?_, ?_⟩, ?_⟩
  · exact hk.table.congr ⟨rfl, fun _ => rfl, rfl, rfl, rfl, fun _ => rfl⟩
  · refine hk.handoff.congr ?_ (fun _ => rfl) (fun _ => rfl) (fun _ h => h)
    intro h m q tw' hih hfh
    simp only [setFrame, Function.update_apply] at hfh
    split at hfh
    · cases hfh
    · exact ⟨hih, hfh⟩
  · refine hk.start.congr rfl rfl rfl rfl (fun h0 => absurd h0 hcur) ?_
    intro h _ _ h1 h2 h3 h4
    refine ⟨h1, h2, h3, ?_⟩
    simp only [setFrame, Function.update_apply]
    split
    · rfl
    · exact h4
  · exact RunInv.of_user hsus hi (Function.update_self _ _ _)

theorem cancelTimeout_currentTask (s : Kernel cfg) (tw : Nat) :
    (s.cancelTimeout tw).currentTask = s.currentTask := by
  unfold cancelTimeout
  split <;> rfl

/-- Taking a ceiling and leaving the kernel are independent. -/
theorem takeCeiling_setFrame (u : Kernel cfg) (m p h : Nat) (f : Frame) :
    ((u.takeCeiling m p).noteAcquired m).setFrame h f =
      ((u.setFrame h f).takeCeiling m p).noteAcquired m := by
  unfold takeCeiling
  dsimp only [setFrame, noteAcquired, setMutex]
  split <;> rfl

/-- A woken task takes what it was woken for. -/
theorem KernelInv.finishPend (hk : KernelInv s) (hcur : s.currentTask ≠ 0) {ev : Event}
    {p tw : Nat} (hf : s.frame s.currentTask = .pend ev p tw) (hto : ¬ s.TimedOut ev p tw) :
    KernelInv (((s.cancelTimeout tw).finishPend ev p).1.setFrame s.currentTask .user) := by
  have hw := hk.woken hcur hf hto
  obtain ⟨xs, hs⟩ := hk.suspend
  obtain ⟨hi, hr⟩ := hk.run hcur
  cases ev with
  | sem e => exact hw
  | mbox e => exact hw.untouched (by constructor <;> rfl)
  | queue q => exact hw.untouched (by constructor <;> rfl)
  | mutex m =>
      have hp := (hs.pend_spec hi hf).1
      have ha := hk.toCoreInv.pend_mutex_allocated hi hf
      have hown : s.owner m = s.currentTask :=
        (hk.handoff.owner_iff hi hf).mpr (hs.selected_of_not_timedOut hi hf hr hto)
      -- the idle task is never inside a call
      have hidle : s.priorityVector 0 ≠ s.currentTask := by
        intro hz
        obtain ⟨h, hpv, -, -, -, hfu⟩ := hk.start.idle hcur
        have : h = s.currentTask := hpv.symm.trans hz
        rw [this, hf] at hfu
        cases hfu
      dsimp only [Kernel.finishPend]
      rw [takeCeiling_setFrame]
      have hcur' : ((s.cancelTimeout tw).setFrame s.currentTask .user).currentTask =
          s.currentTask := cancelTimeout_currentTask s tw
      have hfields : (s.cancelTimeout tw).priorityVector = s.priorityVector ∧
          (s.cancelTimeout tw).taskAlloc = s.taskAlloc ∧
          (s.cancelTimeout tw).event = s.event ∧
          (s.cancelTimeout tw).mutexTable = s.mutexTable ∧
          (s.cancelTimeout tw).prio s.currentTask = p := by
        unfold cancelTimeout
        split
        · refine ⟨rfl, rfl, rfl, rfl, ?_⟩
          simp only [Kernel.prio, removeFromDelayList, setTimeToWait, setContext,
            Function.update_self]
          exact hp
        · exact ⟨rfl, rfl, rfl, rfl, hp⟩
      obtain ⟨hpv, htask, hev, hmt, hpr⟩ := hfields
      have hframe : ((s.cancelTimeout tw).setFrame s.currentTask .user).frame s.currentTask =
          .user := Function.update_self _ _ _
      have hpr' : ((s.cancelTimeout tw).setFrame s.currentTask .user).prio s.currentTask = p := hpr
      have hres := hw.toCoreInv.takeCeiling (m := m)
      rw [hcur', hpr'] at hres
      refine hres ((installed_congr htask _).mpr hi) hframe ?_ ?_ ?_
      · change (s.cancelTimeout tw).priorityVector 0 ≠ _
        rw [hpv]
        exact hidle
      · change (s.cancelTimeout tw).Allocated _
        rw [Kernel.Allocated, hev]
        exact ha
      · change (s.cancelTimeout tw).owner m = _
        rw [Kernel.owner, hmt]
        exact hown

/-! ### The tick -/

/-- The counter runs through the values below `TICK_COUNT_OVERFLOW`. -/
theorem osIncCounter_eq (h : s.osTickCounter < cfg.tickCountOverflow) :
    s.osIncCounter.osTickCounter = (s.osTickCounter + 1) % cfg.tickCountOverflow := by
  obtain ⟨-, -, hspec, -⟩ := cfg.tickCountOverflow_spec
  have hmod : (s.osTickCounter + 1) % 2 ^ cfg.tickBits = s.osTickCounter + 1 :=
    Nat.mod_eq_of_lt (by omega)
  simp only [osIncCounter, hmod]
  split
  · rename_i heq
    rw [heq, Nat.mod_self]
  · exact (Nat.mod_eq_of_lt (by omega)).symm

/-- What the loop of the tick handler has done once it has gone through `zs`. -/
structure Ticked (s t : Kernel cfg) (zs : List Nat) : Prop where
  same : t = { s with osReadyList := t.osReadyList, contextTask := t.contextTask,
                      delayList := t.delayList, delayOps := t.delayOps }
  prio : ∀ h, t.prio h = s.prio h
  ready : ∀ p, p ∈ t.ready ↔ p ∈ s.ready ∨ ∃ h ∈ zs, s.ttw h = s.osTickCounter ∧ s.prio h = p
  ttw : ∀ h, t.ttw h =
    if h ∈ zs ∧ s.ttw h = s.osTickCounter then cfg.exitByTimeout else s.ttw h

theorem expire_fields (ht : TableInv s) {h : Nat} (hi : s.Installed h) :
    (∀ h', (s.expire h).prio h' = s.prio h') ∧
    (s.expire h).ready = insert (s.prio h) s.ready ∧
    (∀ h', (s.expire h).ttw h' = if h' = h then cfg.exitByTimeout else s.ttw h') := by
  refine ⟨fun h' => ?_, ready_setReady (ht.prio_lt hi), fun h' => ?_⟩
  · simp only [Kernel.prio, Kernel.expire, removeFromDelayList, setTimeToWait, setContext,
      Kernel.setReady, Function.update_apply]
    split
    · rename_i heq
      rw [heq]
    · rfl
  · simp only [Kernel.ttw, Kernel.expire, removeFromDelayList, setTimeToWait, setContext,
      Kernel.setReady, Function.update_apply]
    split <;> rfl

theorem TableInv.expire (ht : TableInv s) {h : Nat} (hi : s.Installed h) :
    TableInv (s.expire h) :=
  ht.congr ⟨rfl, (expire_fields ht hi).1, rfl, rfl, rfl, fun _ => rfl⟩

/-- **The loop of the tick handler.** With `ys` behind it and `zs` ahead, it
terminates, examines each task of `zs` once and in order, and expires and removes
exactly those whose deadline is the current count. The removed task's own `Next`
still leads to the task after it, which is why the walk goes on. -/
theorem tickLoop_spec : ∀ {zs ys : List Nat} {s : Kernel cfg} {fuel : Nat}, zs.length ≤ fuel →
    TableInv s → SuspendInv s (ys ++ zs) →
    ∃ t, tickLoop fuel s zs.head? = some t ∧ tickExamined fuel s zs.head? = zs ∧
      SuspendInv t (ys ++ zs.filter fun h => s.ttw h ≠ s.osTickCounter) ∧ Ticked s t zs
  | [], ys, s, fuel, _, _, hs => by
      refine ⟨s, by cases fuel <;> rfl, by cases fuel <;> rfl, by simpa using hs, ?_⟩
      exact ⟨rfl, fun _ => rfl, by simp, by simp⟩
  | h :: zs, ys, s, 0, hlen, _, _ => by simp at hlen
  | h :: zs, ys, s, fuel + 1, hlen, ht, hs => by
      have hlen : zs.length ≤ fuel := by simpa using hlen
      have hi := (hs.listed (by simp : h ∈ ys ++ h :: zs)).1
      have hnot := DList.not_mem_of_nodup_mid hs.list.nodup
      simp only [List.head?_cons, tickLoop, tickExamined]
      by_cases hdue : s.ttw h = s.osTickCounter
      · -- `h` expires: the walk goes on in the shortened list
        have htask : s.tickTask h = s.expire h := if_pos hdue
        have hnext : (s.expire h).delayList.next h = zs.head? := hs.list.remove_next_self
        obtain ⟨hprio, hready, httw⟩ := expire_fields ht hi
        obtain ⟨t, hloop, hex, hsus, htick⟩ :=
          tickLoop_spec hlen (ht.expire hi) (hs.expire ht)
        have hsame : ∀ h' ∈ zs, (s.expire h).ttw h' = s.ttw h' := by
          intro h' hm
          rw [httw, if_neg]
          rintro rfl
          exact hnot.2.1 hm
        rw [htask, hnext]
        refine ⟨t, hloop, by rw [hex], ?_, ?_⟩
        · have hfilter : (h :: zs).filter (fun h => s.ttw h ≠ s.osTickCounter) =
              zs.filter (fun h' => (s.expire h).ttw h' ≠ (s.expire h).osTickCounter) := by
            rw [List.filter_cons_of_neg (by simpa using hdue)]
            refine List.filter_congr fun h' hm => ?_
            rw [hsame h' hm]
            rfl
          rw [hfilter]
          exact hsus
        · refine ⟨?_, ?_, ?_, ?_⟩
          · exact htick.same
          · exact fun h' => (htick.prio h').trans (hprio h')
          · intro p
            rw [htick.ready, hready, Finset.mem_insert]
            constructor
            · rintro ((rfl | hp) | ⟨h', hm, hd, hp⟩)
              · exact Or.inr ⟨h, by simp, hdue, rfl⟩
              · exact Or.inl hp
              · refine Or.inr ⟨h', List.mem_cons_of_mem _ hm, ?_, (hprio h').symm.trans hp⟩
                rwa [hsame h' hm] at hd
            · rintro (hp | ⟨h', hm, hd, hp⟩)
              · exact Or.inl (Or.inr hp)
              · rcases List.mem_cons.mp hm with rfl | hm
                · exact Or.inl (Or.inl hp.symm)
                · refine Or.inr ⟨h', hm, ?_, (hprio h').trans hp⟩
                  rw [hsame h' hm]
                  exact hd
          · intro h'
            rw [htick.ttw]
            by_cases heq : h' = h
            · subst heq
              simp [hnot.2.1, httw, hdue]
            · simp only [httw, heq, if_false, List.mem_cons, false_or]
              rfl
      · -- `h` stays: it moves from the part ahead to the part behind
        have htask : s.tickTask h = s := if_neg hdue
        have hnext : s.delayList.next h = zs.head? := by
          have := (DList.seg_append.mp hs.list.seg).2.2.1
          simpa using this
        obtain ⟨t, hloop, hex, hsus, htick⟩ :=
          tickLoop_spec hlen ht (show SuspendInv s ((ys ++ [h]) ++ zs) by simpa using hs)
        rw [htask, hnext]
        refine ⟨t, hloop, by rw [hex], ?_, ?_⟩
        · rw [List.filter_cons_of_pos (by simpa using hdue)]
          simpa using hsus
        · refine ⟨htick.same, htick.prio, ?_, ?_⟩
          · intro p
            rw [htick.ready]
            simp [hdue]
          · intro h'
            rw [htick.ttw]
            by_cases heq : h' = h
            · subst heq
              simp [hdue]
            · simp [heq]

/-- **Invariant rule for the tick.** What the expiry of a listed task keeps, the loop
keeps. -/
theorem tickLoop_induct {P : Kernel cfg → Prop}
    (hP : ∀ {s : Kernel cfg} {xs : List Nat} {h : Nat}, TableInv s → SuspendInv s xs → h ∈ xs →
      P s → P (s.expire h)) :
    ∀ {zs ys : List Nat} {s t : Kernel cfg} {fuel : Nat}, TableInv s → SuspendInv s (ys ++ zs) →
      P s → tickLoop fuel s zs.head? = some t → P t
  | [], ys, s, t, fuel, _, _, hp, h => by
      have hst : s = t := by
        cases fuel <;> exact Option.some.inj h
      exact hst ▸ hp
  | h :: zs, ys, s, t, 0, _, _, _, hl => by simp [tickLoop] at hl
  | h :: zs, ys, s, t, fuel + 1, ht, hs, hp, hl => by
      have hm : h ∈ ys ++ h :: zs := by simp
      simp only [List.head?_cons, tickLoop] at hl
      by_cases hdue : s.ttw h = s.osTickCounter
      · have htask : s.tickTask h = s.expire h := if_pos hdue
        have hnext : (s.expire h).delayList.next h = zs.head? := hs.list.remove_next_self
        rw [htask, hnext] at hl
        exact tickLoop_induct hP (ht.expire (hs.listed hm).1) (hs.expire ht) (hP ht hs hm hp) hl
      · have htask : s.tickTask h = s := if_neg hdue
        have hnext : s.delayList.next h = zs.head? := by
          have := (DList.seg_append.mp hs.list.seg).2.2.1
          simpa using this
        rw [htask, hnext] at hl
        exact tickLoop_induct hP ht (show SuspendInv s ((ys ++ [h]) ++ zs) by simpa using hs) hp hl

/-- The delay list is never longer than the task table. -/
theorem SuspendInv.length_le {xs : List Nat} (hs : SuspendInv s xs) :
    xs.length ≤ cfg.numberOfTasks + 1 := by
  have hsub : xs.toFinset ⊆ Finset.range (cfg.numberOfTasks + 1) := by
    intro h hm
    have hi := (hs.listed (List.mem_toFinset.mp hm)).1
    exact Finset.mem_range.mpr (Nat.lt_succ_of_le hi.2.1)
  calc xs.length = xs.toFinset.card := (List.toFinset_card_of_nodup hs.list.nodup).symm
    _ ≤ (Finset.range (cfg.numberOfTasks + 1)).card := Finset.card_le_card hsub
    _ = cfg.numberOfTasks + 1 := Finset.card_range _

/-- **The tick handler.** -/
theorem osTickHandler_spec {xs : List Nat} (ht : TableInv s) (hs : SuspendInv s xs) :
    ∃ t, s.osTickHandler = some t ∧ tickExamined (tickFuel cfg) s s.delayList.head = xs ∧
      SuspendInv t (xs.filter fun h => s.ttw h ≠ s.osTickCounter) ∧ Ticked s t xs := by
  have hfuel : xs.length ≤ tickFuel cfg :=
    hs.length_le.trans (Nat.le_mul_of_pos_right _ (Nat.succ_pos _))
  unfold osTickHandler
  rw [hs.list.head_eq]
  simpa using tickLoop_spec hfuel ht (show SuspendInv s ([] ++ xs) from hs)

theorem osIncCounter_same (s : Kernel cfg) :
    s.osIncCounter = { s with osTickCounter := s.osIncCounter.osTickCounter } := rfl

theorem CoreInv.osIncCounter (hc : CoreInv s) : CoreInv s.osIncCounter := by
  obtain ⟨xs, hs⟩ := hc.suspend
  refine ⟨hc.table.congr ⟨rfl, fun _ => rfl, rfl, rfl, rfl, fun _ => rfl⟩,
    ⟨xs, hs.congr ⟨rfl, rfl, rfl, rfl, rfl, rfl⟩⟩, ?_, ?_, hc.start.main, hc.start.idle⟩
  · exact hc.handoff.congr (fun hi hf => ⟨hi, hf⟩) (fun _ => rfl) (fun _ => rfl) (fun _ h => h)
  · rw [osIncCounter_eq hc.start.tick_lt]
    exact Nat.mod_lt _ (Nat.zero_lt_of_lt hc.start.tick_lt)

theorem KernelInv.tick (hk : KernelInv s) (ht : s.osIncCounter.osTickHandler = some t) :
    KernelInv t := by
  have hc := hk.toCoreInv.osIncCounter
  obtain ⟨xs, hs⟩ := hc.suspend
  obtain ⟨t', ht', -, hst, htick⟩ := osTickHandler_spec hc.table hs
  have heq : t' = t := Option.some.inj (ht'.symm.trans ht)
  subst heq
  have hsame := htick.same
  have hrun : RunInv s.osIncCounter := hk.run.of_ready rfl rfl (fun _ => rfl) (fun _ h => h)
  generalize s.osIncCounter = u at *
  have htask : t'.taskAlloc = u.taskAlloc := by rw [hsame]
  have hinst := installed_congr htask
  refine ⟨⟨?_, ⟨_, hst⟩, ?_, ?_⟩, ?_⟩
  · refine hc.table.congr ⟨htask, htick.prio, ?_, ?_, ?_, fun m => ?_⟩ <;> rw [hsame]
  · refine hc.handoff.congr ?_ ?_ ?_ ?_
    · intro h m p tw hi hf
      rw [hsame] at hf
      exact ⟨(hinst h).mp hi, hf⟩
    · intro m
      rw [hsame]
    · intro m
      rw [hsame]
    · intro m ha
      rw [hsame] at ha
      exact ha
  · refine hc.start.congr (by rw [hsame]) (by rw [hsame]) (by rw [hsame]) (by rw [hsame]) ?_ ?_
    · intro _ hu h hi
      have hfr : t'.frame = u.frame := by rw [hsame]
      rw [hfr]
      exact hu ((hinst h).mp hi)
    · intro h _ _ h1 h2 h3 h4
      have hfr : t'.frame = u.frame := by rw [hsame]
      have hb : t'.base = u.base := by rw [hsame]
      exact ⟨(hinst h).mpr h1, (htick.prio h).trans h2, by rw [hb]; exact h3, by rw [hfr]; exact h4⟩
  · exact hrun.of_ready (by rw [hsame]) htask htick.prio (fun p hp => (htick.ready p).mpr (Or.inl hp))

/-! ### The step theorem -/

/-- Entering and leaving a nested interrupt. -/
theorem KernelInv.setNesting (hk : KernelInv s) (hcur : s.currentTask ≠ 0) (n : Nat) :
    KernelInv { s with iNesting := n } := by
  obtain ⟨xs, hs⟩ := hk.suspend
  refine ⟨⟨hk.table.congr ⟨rfl, fun _ => rfl, rfl, rfl, rfl, fun _ => rfl⟩,
    ⟨xs, hs.congr ⟨rfl, rfl, rfl, rfl, rfl, rfl⟩⟩, ?_, ?_⟩, hk.run⟩
  · exact hk.handoff.congr (fun hi hf => ⟨hi, hf⟩) (fun _ => rfl) (fun _ => rfl) (fun _ h => h)
  · exact ⟨hk.start.tick_lt, fun h0 => absurd h0 hcur, hk.start.idle⟩

/-- An interrupt is served only while a task runs. -/
theorem KernelInv.currentTask_of_nesting (hk : KernelInv s) (hn : s.iNesting ≠ 0) :
    s.currentTask ≠ 0 := fun h0 => hn (hk.start.main h0).1

theorem move_inv (hk : KernelInv s) {a : Action} {o : Obs} (hm : Move NestedRelease s a t o) :
    KernelInv t := by
  cases hm with
  | returned ha he =>
      have hok := effect_core hk he
      exact ⟨hok.core, hok.run ⟨_, rfl⟩⟩
  | switched ha he hs =>
      have hok := effect_core hk he
      refine hok.core.changeContext ?_ hs
      rw [(effect_same he).1]
      exact hok.task (by simp)
  | suspended ha he hs =>
      have hok := effect_core hk he
      refine hok.core.changeContext ?_ hs
      rw [(effect_same he).1]
      exact hok.task (by simp)
  | startFailed => exact hk.untouched (by constructor <;> rfl)
  | started hmain hi hu hs =>
      subst hu
      exact hk.started hmain hi (by constructor <;> rfl) hs
  | delayEnded hcur hnest hf => exact hk.delayEnded hcur hf
  | timedOut hcur hnest hf ht => exact hk.timedOut hcur hf ht
  | woken hcur hnest hf ht => exact hk.finishPend hcur hf ht
  | intEnter hcur => exact hk.setNesting hcur _
  | tick hnest ht => exact hk.tick ht
  | intExitInner hnest => exact hk.setNesting (hk.currentTask_of_nesting (by omega)) _
  | intExit hnest hs =>
      have hcur := hk.currentTask_of_nesting (by omega)
      exact (hk.setNesting hcur 0).toCoreInv.changeContext hcur hs

/-- Inversion of a step from a state with the invariant. -/
theorem KernelInv.move (hk : KernelInv s) {rule : Kernel cfg → Nat → Prop} {a : Action} {o : Obs}
    (hd : Disciplined rule s a) (h : s.step a = some (t, o)) : Move rule s a t o :=
  step_move hd (fun _ hi => hk.table.prio_lt hi) (fun p _ => hk.table.pv_ne_zero p) h

theorem KernelInv.effect (hk : KernelInv s) {rule : Kernel cfg → Nat → Prop} {c : Call}
    {oc : Outcome} (ha : c.allowed s = true) (hd : Disciplined rule s (.call c))
    (hex : s.exec c = some (u, oc)) : Effect rule s c u oc :=
  exec_effect ha hd (fun _ hi => hk.table.prio_lt hi) (fun p _ => hk.table.pv_ne_zero p) hex

/-- **Step theorem.** A disciplined step keeps the kernel invariant. -/
theorem step_inv (hk : KernelInv s) {a : Action} {o : Obs} (hd : Disciplined NestedRelease s a)
    (h : s.step a = some (t, o)) : KernelInv t :=
  move_inv hk (hk.move hd h)

theorem not_installed_init (cfg : Config) (h : Nat) : ¬ (Kernel.init cfg).Installed h := by
  rintro ⟨-, -, h3⟩
  simp [Kernel.init, preInstallTasks] at h3

/-- The invariant holds after `BRTOSInit`. -/
theorem init_inv : KernelInv (Kernel.init cfg) := by
  have hno := not_installed_init cfg
  have hna : ∀ ev, ¬ (Kernel.init cfg).Allocated ev := fun ev h => by
    simp [Kernel.Allocated, Kernel.init, preInstallTasks, initEvents] at h
  have hwait : ∀ ev, (Kernel.init cfg).waiting ev = ∅ := fun ev => bits_zero
  have hown : ∀ m, (Kernel.init cfg).owner m = 0 := fun _ => rfl
  refine ⟨⟨?_, ⟨[], ?_⟩, ?_, ?_⟩, fun h0 => absurd rfl h0⟩
  · refine ⟨fun p => ?_, fun hi => absurd hi (hno _), fun hi => absurd hi (hno _),
      fun hi => absurd hi (hno _), fun hi => absurd hi (hno _), fun hi => absurd hi (hno _),
      fun hc => absurd hc.1 (hna _), fun hc => absurd hc.1 (hna _), fun hc => absurd hc.1 (hna _),
      fun hc => absurd hc.1 (hna _), fun hc => absurd hc.1 (hna _), fun ha => absurd ha (hna _),
      fun ho => absurd (hown _) ho, fun ha => absurd ha (hna _)⟩
    change emptyPrio ≠ 0
    decide
  · refine ⟨DList.isList_empty, fun hm => by simp at hm, fun hi => absurd hi (hno _),
      fun hi => absurd hi (hno _), fun {ev p} hw => ?_, fun ev => ?_, fun {p} hp => ?_,
      fun hi => absurd hi (hno _), fun hi => absurd hi (hno _), fun hi => absurd hi (hno _),
      fun {ev p} hw => ?_⟩
    · rw [hwait] at hw
      simp at hw
    · rw [hwait]
      rfl
    · have he : (Kernel.init cfg).ready = ∅ := bits_zero
      rw [he] at hp
      simp at hp
    · rw [hwait] at hw
      simp at hw
  · exact ⟨fun hi => absurd hi (hno _), fun ha => absurd ha (hna _)⟩
  · exact ⟨cfg.tickCountOverflow_spec.2.2.2, fun _ => ⟨rfl, rfl, fun hi => absurd hi (hno _)⟩,
      fun h0 => absurd rfl h0⟩

/-- **Run theorem.** Every state of an execution whose releases are all nested
satisfies the kernel invariant. -/
theorem run_inv {tr : Trace} (h : RunFromInit (Disciplined NestedRelease) tr s) : KernelInv s :=
  h.invariant init_inv fun _ _ _ _ hk hd hs => step_inv hk hd hs

end Brtos
