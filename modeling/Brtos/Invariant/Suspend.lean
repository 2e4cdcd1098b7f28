import Brtos.Invariant.Tables

/-!
# Brtos.Invariant.Suspend

`SuspendInv` and the operations that suspend and wake tasks: entering a wait list
or the delay list, being selected by a post, being timed out by the tick, and
continuing a suspended call. There is one lemma for each operation; each says how
the delay list changes.
-/

namespace Brtos

open Bits Kernel

variable {cfg : Config} {s t : Kernel cfg}

/-! ### The sets after each write -/

theorem ready_setReady {p : Nat} (hp : p < cfg.prioBits) :
    (s.setReady p).ready = insert p s.ready := bits_or_mask hp

theorem ready_clearReady (p : Nat) : (s.clearReady p).ready = s.ready.erase p :=
  bits_and_not_mask _ _

theorem waiting_leaveWaitList (ev ev' : Event) (p : Nat) :
    (s.leaveWaitList ev p).waiting ev' =
      if ev' = ev then (s.waiting ev).erase p else s.waiting ev' := by
  simp only [Kernel.waiting, leaveWaitList, setEvent, Function.update_apply]
  split
  · exact bits_and_not_mask _ _
  · rfl

/-- Counting a waiter out does not wrap. -/
theorem osEventWait_leaveWaitList {ev : Event} {p : Nat} (hw : p ∈ s.waiting ev)
    (hc : (s.event ev).osEventWait = (s.waiting ev).card) (hle : (s.event ev).osEventWait ≤ 32) :
    ((s.leaveWaitList ev p).event ev).osEventWait = ((s.leaveWaitList ev p).waiting ev).card := by
  rw [waiting_leaveWaitList, if_pos rfl, Finset.card_erase_of_mem hw, ← hc]
  have hpos : 0 < (s.event ev).osEventWait := by
    rw [hc]
    exact Finset.card_pos.mpr ⟨p, hw⟩
  simp only [leaveWaitList, setEvent, Function.update_self]
  omega

/-! ### Steps that touch none of this -/

/-- Two states that agree on everything `SuspendInv` reads. -/
structure SameSuspend (s t : Kernel cfg) : Prop where
  taskAlloc : t.taskAlloc = s.taskAlloc
  contextTask : t.contextTask = s.contextTask
  delayList : t.delayList = s.delayList
  frame : t.frame = s.frame
  event : t.event = s.event
  osReadyList : t.osReadyList = s.osReadyList

namespace SuspendInv

variable {xs : List Nat}

theorem congr (hs : SuspendInv s xs) (h : SameSuspend s t) : SuspendInv t xs := by
  have hinst := installed_congr h.taskAlloc
  constructor
  all_goals simp only [hinst, h.contextTask, h.delayList, h.frame, h.event, h.osReadyList,
    Kernel.prio, Kernel.ttw, Kernel.waiting, Kernel.ready, Kernel.Allocated]
  case list => exact hs.list
  case listed => exact hs.listed
  case pend_listed => exact hs.pend_listed
  case pend_spec => exact hs.pend_spec
  case wait_pend => exact hs.wait_pend
  case wait_count => exact hs.wait_count
  case ready_installed => exact hs.ready_installed
  case ready_user => exact hs.ready_user
  case ready_delay => exact hs.ready_delay
  case ready_pend => exact hs.ready_pend
  case wait_alloc => exact hs.wait_alloc

/-! ### The running task changes its priority -/

/-- A task outside the kernel moves to a priority that is nobody else's, and its
ready bit with it. -/
theorem move (hs : SuspendInv s xs) (ht : TableInv s) {h p : Nat} (hi : s.Installed h)
    (hf : s.frame h = .user) (hp : p < cfg.prioBits)
    (hother : ∀ h', s.Installed h' → h' ≠ h → s.prio h' ≠ p) :
    SuspendInv (((s.clearReady (s.prio h)).setReady p).setPriority h p) xs := by
  generalize hu : ((s.clearReady (s.prio h)).setReady p).setPriority h p = t
  have hready : t.ready = insert p (s.ready.erase (s.prio h)) := by
    subst hu
    exact (ready_setReady (s := s.clearReady (s.prio h)) hp).trans (by rw [ready_clearReady])
  have hprio : ∀ h', t.prio h' = if h' = h then p else s.prio h' := fun h' => by
    subst hu
    simp only [Kernel.prio, Kernel.setPriority, setContext, Function.update_apply]
    split <;> rfl
  have httw : ∀ h', t.ttw h' = s.ttw h' := fun h' => by
    subst hu
    simp only [Kernel.ttw, Kernel.setPriority, setContext, Function.update_apply]
    split
    · rename_i heq
      subst heq
      rfl
    · rfl
  have hinst := installed_congr (s := s) (t := t) (by subst hu; rfl)
  have hframe : t.frame = s.frame := by subst hu; rfl
  have hlist : t.delayList = s.delayList := by subst hu; rfl
  have hevent : t.event = s.event := by subst hu; rfl
  -- a ready bit of another task is not touched
  have hsame : ∀ h', s.Installed h' → h' ≠ h → (s.prio h' ∈ t.ready ↔ s.prio h' ∈ s.ready) := by
    intro h' hi' hne
    have h1 : s.prio h' ≠ p := hother h' hi' hne
    have h2 : s.prio h' ≠ s.prio h := fun he => hne (ht.prio_inj hi' hi he)
    rw [hready]
    simp [h1, h2]
  have hne : ∀ h' f, s.frame h' = f → f ≠ .user → h' ≠ h := by
    rintro h' f hf' hfu rfl
    exact hfu (hf'.symm.trans hf)
  constructor
  all_goals simp only [hinst, hframe, hlist, hevent, httw, Kernel.waiting, Kernel.Allocated]
  case list => exact hs.list
  case listed => exact hs.listed
  case pend_listed => exact hs.pend_listed
  case pend_spec =>
    intro h' ev q tw hi' hf'
    rw [hprio, if_neg (hne h' _ hf' (by simp))]
    exact hs.pend_spec hi' hf'
  case wait_pend => exact hs.wait_pend
  case wait_count => exact hs.wait_count
  case ready_installed =>
    intro q hq
    rw [hready, Finset.mem_insert, Finset.mem_erase] at hq
    rcases hq with rfl | ⟨hq, hqr⟩
    · exact ⟨h, hi, by rw [hprio, if_pos rfl]⟩
    · obtain ⟨h', hi', hp'⟩ := hs.ready_installed hqr
      have hne' : h' ≠ h := by
        rintro rfl
        exact hq hp'.symm
      exact ⟨h', hi', by rw [hprio, if_neg hne']; exact hp'⟩
  case ready_user =>
    intro h' hi' hf'
    rw [hprio]
    split
    · rw [hready]
      exact Finset.mem_insert_self _ _
    · rename_i hne'
      exact (hsame h' hi' hne').mpr (hs.ready_user hi' hf')
  case ready_delay =>
    intro h' tw hi' hf'
    have hne' := hne h' _ hf' (by simp)
    rw [hprio, if_neg hne', hsame h' hi' hne']
    exact hs.ready_delay hi' hf'
  case ready_pend =>
    intro h' ev q tw hi' hf'
    have hne' := hne h' _ hf' (by simp)
    have hq := (hs.pend_spec hi' hf').1
    subst hq
    rw [hsame h' hi' hne']
    exact hs.ready_pend hi' hf'
  case wait_alloc => exact hs.wait_alloc

/-! ### The running task is suspended -/

/-- A task outside the kernel is not in the delay list. -/
theorem user_not_listed (hs : SuspendInv s xs) {h : Nat} (hf : s.frame h = .user) : h ∉ xs :=
  fun hm => (hs.listed hm).2 hf

/-- A task outside the kernel is in no wait list. -/
theorem user_not_waiting (hs : SuspendInv s xs) (ht : TableInv s) {h : Nat} (hi : s.Installed h)
    (hf : s.frame h = .user) (ev : Event) : s.prio h ∉ s.waiting ev := by
  intro hw
  obtain ⟨tw, hf'⟩ := hs.frame_of_waiting ht hw hi rfl
  rw [hf] at hf'
  cases hf'

/-- The state `OSDelayTask` leaves behind, as one update. -/
theorem startDelay_eq (s : Kernel cfg) (tw : Nat) :
    s.startDelay tw =
      { s with
        osReadyList := s.osReadyList &&& ~~~ priorityMask cfg (s.prio s.currentTask)
        contextTask := Function.update s.contextTask s.currentTask
          { s.contextTask s.currentTask with timeToWait := deadline cfg s.osTickCounter tw }
        delayList := s.delayList.pushBack s.currentTask
        delayOps := .pushBack s.currentTask :: s.delayOps
        frame := Function.update s.frame s.currentTask (.delay tw) } := by
  unfold Kernel.startDelay
  simp only [Kernel.prio, setTimeToWait, setContext, includeTaskIntoDelayList, clearReady, setFrame,
    Function.update_self]

theorem startDelay (hs : SuspendInv s xs) (ht : TableInv s) (hi : s.Installed s.currentTask)
    (hf : s.frame s.currentTask = .user) (tw : Nat) :
    SuspendInv (s.startDelay tw) (xs ++ [s.currentTask]) := by
  rw [startDelay_eq]
  generalize hu : { s with
    osReadyList := s.osReadyList &&& ~~~ priorityMask cfg (s.prio s.currentTask)
    contextTask := Function.update s.contextTask s.currentTask
      { s.contextTask s.currentTask with timeToWait := deadline cfg s.osTickCounter tw }
    delayList := s.delayList.pushBack s.currentTask
    delayOps := .pushBack s.currentTask :: s.delayOps
    frame := Function.update s.frame s.currentTask (.delay tw) } = t
  have hmem := hs.user_not_listed hf
  have hready : t.ready = s.ready.erase (s.prio s.currentTask) := by
    subst hu
    exact ready_clearReady _
  have hprio : ∀ h, t.prio h = s.prio h := fun h => by
    subst hu
    simp only [Kernel.prio, Function.update_apply]
    split
    · rename_i heq
      rw [heq]
    · rfl
  have httw : ∀ h, h ≠ s.currentTask → t.ttw h = s.ttw h := fun h hne => by
    subst hu
    simp only [Kernel.ttw, Function.update_of_ne hne]
  have hframe : ∀ h, t.frame h = if h = s.currentTask then .delay tw else s.frame h := fun h => by
    subst hu
    simp only [Function.update_apply]
  have hinst := installed_congr (s := s) (t := t) (by subst hu; rfl)
  have hevent : t.event = s.event := by subst hu; rfl
  have hlist : t.delayList = s.delayList.pushBack s.currentTask := by subst hu; rfl
  have hsame : ∀ h, s.Installed h → h ≠ s.currentTask →
      (s.prio h ∈ t.ready ↔ s.prio h ∈ s.ready) := by
    intro h hih hne
    rw [hready, Finset.mem_erase]
    exact ⟨fun hh => hh.2, fun hh => ⟨fun he => hne (ht.prio_inj hih hi he), hh⟩⟩
  -- every frame but the new one is an old one
  have hold : ∀ h f, t.frame h = f → f ≠ .delay tw → h ≠ s.currentTask ∧ s.frame h = f := by
    intro h f hf' hfd
    rw [hframe] at hf'
    split at hf'
    · exact absurd hf'.symm hfd
    · exact ⟨by assumption, hf'⟩
  constructor
  all_goals simp only [hinst, hlist, hevent, hprio, Kernel.waiting, Kernel.Allocated,
    List.mem_append, List.mem_singleton]
  case list => exact hs.list.pushBack hmem
  case listed =>
    rintro h (hh | rfl)
    · obtain ⟨hih, hfh⟩ := hs.listed hh
      refine ⟨hih, ?_⟩
      rw [hframe]
      split
      · simp
      · exact hfh
    · refine ⟨hi, ?_⟩
      rw [hframe, if_pos rfl]
      simp
  case pend_listed =>
    intro h ev p tw' hih hf'
    obtain ⟨hne, hf'⟩ := hold h _ hf' (by simp)
    rw [httw h hne]
    simp only [hne, or_false]
    exact hs.pend_listed hih hf'
  case pend_spec =>
    intro h ev p tw' hih hf'
    obtain ⟨hne, hf'⟩ := hold h _ hf' (by simp)
    exact hs.pend_spec hih hf'
  case wait_pend =>
    intro ev p hw
    obtain ⟨h, tw', hih, hf'⟩ := hs.wait_pend hw
    refine ⟨h, tw', hih, ?_⟩
    rw [hframe, if_neg]
    · exact hf'
    · rintro rfl
      rw [hf] at hf'
      cases hf'
  case wait_count => exact hs.wait_count
  case ready_installed =>
    intro p hp
    rw [hready, Finset.mem_erase] at hp
    exact hs.ready_installed hp.2
  case ready_user =>
    intro h hih hf'
    obtain ⟨hne, hf'⟩ := hold h _ hf' (by simp)
    exact (hsame h hih hne).mpr (hs.ready_user hih hf')
  case ready_delay =>
    intro h tw' hih hf'
    by_cases hne : h = s.currentTask
    · subst hne
      rw [hready]
      simp
    · rw [hframe, if_neg hne] at hf'
      rw [hsame h hih hne, hs.ready_delay hih hf']
      simp [hne]
  case ready_pend =>
    intro h ev p tw' hih hf'
    obtain ⟨hne, hf'⟩ := hold h _ hf' (by simp)
    have hp := (hs.pend_spec hih hf').1
    subst hp
    rw [httw h hne, hsame h hih hne]
    exact hs.ready_pend hih hf'
  case wait_alloc => exact hs.wait_alloc

/-- The state after a post that wakes a task, as one update. -/
theorem wakeWaiter_eq (s : Kernel cfg) (ev : Event) :
    s.wakeWaiter ev =
      { s with
        event := Function.update s.event ev
          { s.event ev with
            osEventWaitList := (s.event ev).osEventWaitList &&&
              ~~~ priorityMask cfg (saScheduler (s.event ev).osEventWaitList)
            osEventWait := ((s.event ev).osEventWait + 255) % 256 }
        osReadyList := s.osReadyList |||
          priorityMask cfg (saScheduler (s.event ev).osEventWaitList) } := rfl

/-- The state a pend leaves behind, as one update. -/
theorem waitEvent_eq (s : Kernel cfg) (ev : Event) (tw : Nat) :
    s.waitEvent ev tw =
      { s with
        event := Function.update s.event ev
          { s.event ev with
            osEventWait := ((s.event ev).osEventWait + 1) % 256
            osEventWaitList :=
              (s.event ev).osEventWaitList ||| priorityMask cfg (s.prio s.currentTask) }
        osReadyList := s.osReadyList &&& ~~~ priorityMask cfg (s.prio s.currentTask)
        contextTask := Function.update s.contextTask s.currentTask
          { s.contextTask s.currentTask with
            timeToWait := if tw ≠ 0 then deadline cfg s.osTickCounter tw else cfg.noTimeout }
        delayList := if tw ≠ 0 then s.delayList.pushBack s.currentTask else s.delayList
        delayOps := if tw ≠ 0 then .pushBack s.currentTask :: s.delayOps else s.delayOps
        frame := Function.update s.frame s.currentTask (.pend ev (s.prio s.currentTask) tw) } := by
  unfold waitEvent startTimeout
  by_cases h : tw ≠ 0
  · simp only [if_pos h, setEvent, clearReady, setTimeToWait, setContext,
      includeTaskIntoDelayList, setFrame]
  · simp only [if_neg h, setEvent, clearReady, setTimeToWait, setContext, setFrame]

theorem waitEvent (hs : SuspendInv s xs) (ht : TableInv s) (hi : s.Installed s.currentTask)
    (hf : s.frame s.currentTask = .user) {ev : Event} {tw : Nat} (ha : s.Allocated ev)
    (htw : tw ≤ cfg.tickCountOverflow) (htick : s.osTickCounter < cfg.tickCountOverflow) :
    SuspendInv (s.waitEvent ev tw) (if tw ≠ 0 then xs ++ [s.currentTask] else xs) := by
  rw [waitEvent_eq]
  generalize hu : Kernel.mk _ _ _ _ _ _ _ _ _ _ _ _ _ _ _ _ _ _ _ _ _ _ _ _ = t
  have hp := ht.prio_lt hi
  have hmem := hs.user_not_listed hf
  have hnw := hs.user_not_waiting ht hi hf
  -- a deadline is no `EXIT_BY_TIMEOUT`, so the new waiter has not timed out
  have hdead : deadline cfg s.osTickCounter tw ≠ cfg.exitByTimeout := by
    have h1 := deadline_lt htick htw
    have h2 := cfg.tickCountOverflow_spec.1
    omega
  have hready : t.ready = s.ready.erase (s.prio s.currentTask) := by
    subst hu
    exact bits_and_not_mask _ _
  have hprio : ∀ h, t.prio h = s.prio h := fun h => by
    subst hu
    simp only [Kernel.prio, Function.update_apply]
    split
    · rename_i heq
      rw [heq]
    · rfl
  have httw : ∀ h, t.ttw h = if h = s.currentTask then
      (if tw ≠ 0 then deadline cfg s.osTickCounter tw else cfg.noTimeout) else s.ttw h := by
    intro h
    subst hu
    simp only [Kernel.ttw, Function.update_apply]
    split <;> rfl
  have hframe : ∀ h, t.frame h = if h = s.currentTask then
      .pend ev (s.prio s.currentTask) tw else s.frame h := fun h => by
    subst hu
    simp only [Function.update_apply]
  have hwait : ∀ ev', t.waiting ev' =
      if ev' = ev then insert (s.prio s.currentTask) (s.waiting ev) else s.waiting ev' := by
    intro ev'
    subst hu
    simp only [Kernel.waiting, Function.update_apply]
    split
    · exact bits_or_mask hp
    · rfl
  have halloc : ∀ ev', (t.event ev').osEventAllocated = (s.event ev').osEventAllocated := by
    intro ev'
    subst hu
    simp only [Function.update_apply]
    split
    · rename_i heq
      rw [heq]
    · rfl
  have hinst := installed_congr (s := s) (t := t) (by subst hu; rfl)
  have hlist : t.delayList =
      if tw ≠ 0 then s.delayList.pushBack s.currentTask else s.delayList := by subst hu; rfl
  have hxs : ∀ h, h ∈ (if tw ≠ 0 then xs ++ [s.currentTask] else xs) ↔
      h ∈ xs ∨ (tw ≠ 0 ∧ h = s.currentTask) := by
    intro h
    split
    · simp_all
    · simp_all
  have hsame : ∀ h, s.Installed h → h ≠ s.currentTask →
      (s.prio h ∈ t.ready ↔ s.prio h ∈ s.ready) := by
    intro h hih hne
    rw [hready, Finset.mem_erase]
    exact ⟨fun hh => hh.2, fun hh => ⟨fun he => hne (ht.prio_inj hih hi he), hh⟩⟩
  constructor
  all_goals try simp only [hinst, hprio, hxs]
  case list =>
    rw [hlist]
    split
    · exact hs.list.pushBack hmem
    · exact hs.list
  case listed =>
    rintro h (hh | ⟨-, rfl⟩)
    · obtain ⟨hih, hfh⟩ := hs.listed hh
      refine ⟨hih, ?_⟩
      rw [hframe]
      split
      · simp
      · exact hfh
    · refine ⟨hi, ?_⟩
      rw [hframe, if_pos rfl]
      simp
  case pend_listed =>
    intro h ev' p tw' hih hf'
    rw [hframe] at hf'
    rw [httw]
    split at hf'
    · -- the task that starts to wait is listed exactly when it has a timeout
      rename_i heq
      cases hf'
      subst heq
      by_cases htw0 : tw ≠ 0
      · simp [hmem, htw0, hdead]
      · simp [hmem, htw0]
    · rename_i hne
      simp only [hne, and_false, or_false, if_false]
      exact hs.pend_listed hih hf'
  case pend_spec =>
    intro h ev' p tw' hih hf'
    rw [hframe] at hf'
    split at hf'
    · rename_i heq
      cases hf'
      subst heq
      exact ⟨rfl, htw⟩
    · exact hs.pend_spec hih hf'
  case wait_pend =>
    intro ev' p hw
    have hold : ∀ ev', p ∈ s.waiting ev' → ∃ h tw', s.Installed h ∧ t.frame h = .pend ev' p tw' := by
      intro ev' hw
      obtain ⟨h, tw', hih, hf'⟩ := hs.wait_pend hw
      refine ⟨h, tw', hih, ?_⟩
      rw [hframe, if_neg]
      · exact hf'
      · rintro rfl
        rw [hf] at hf'
        cases hf'
    rw [hwait] at hw
    split at hw
    · rename_i heq
      subst heq
      rcases Finset.mem_insert.mp hw with rfl | hw
      · exact ⟨s.currentTask, tw, hi, by rw [hframe, if_pos rfl]⟩
      · exact hold _ hw
    · exact hold _ hw
  case wait_count =>
    intro ev'
    rw [hwait]
    split
    · rename_i heq
      subst heq
      -- the counter is a byte, and there are fewer tasks than it can count
      have hle := hs.wait_lt ev'
      rw [Finset.card_insert_of_notMem (hnw ev'), ← hs.wait_count]
      subst hu
      simp only [Function.update_self]
      omega
    · rename_i hne
      subst hu
      simp only [Function.update_of_ne hne]
      exact hs.wait_count ev'
  case ready_installed =>
    intro p hq
    rw [hready, Finset.mem_erase] at hq
    exact hs.ready_installed hq.2
  case ready_user =>
    intro h hih hf'
    rw [hframe] at hf'
    split at hf'
    · cases hf'
    · rename_i hne
      exact (hsame h hih hne).mpr (hs.ready_user hih hf')
  case ready_delay =>
    intro h tw' hih hf'
    rw [hframe] at hf'
    split at hf'
    · cases hf'
    · rename_i hne
      rw [hsame h hih hne, hs.ready_delay hih hf']
      simp [hne]
  case ready_pend =>
    intro h ev' p tw' hih hf'
    rw [hframe] at hf'
    rw [httw, hwait]
    split at hf'
    · rename_i heq
      cases hf'
      subst heq
      simp only [if_true, hready, Finset.mem_erase, ne_eq, not_true_eq_false, false_and,
        Finset.mem_insert_self, false_or, false_iff, not_and]
      intro htw0
      rw [if_pos htw0]
      exact hdead
    · -- another task's bit in the same list is another bit
      rename_i hne
      have hq := (hs.pend_spec hih hf').1
      subst hq
      rw [if_neg hne, hsame h hih hne, hs.ready_pend hih hf']
      have hpne : s.prio h ≠ s.prio s.currentTask := fun he => hne (ht.prio_inj hih hi he)
      split
      · rename_i heq
        subst heq
        simp [hpne]
      · rfl
  case wait_alloc =>
    intro ev' p hw
    rw [Kernel.Allocated, halloc]
    rw [hwait] at hw
    split at hw
    · rename_i heq
      rw [heq]
      exact ha
    · exact hs.wait_alloc hw

/-! ### Waking -/

/-- A waiter leaves the wait list and is ready. A post does this for the waiter it
selects, and a task that timed out for itself. -/
theorem select (hs : SuspendInv s xs) (ht : TableInv s) {ev : Event} {p : Nat}
    (hw : p ∈ s.waiting ev) (hevent : t.event = (s.leaveWaitList ev p).event)
    (hready : t.ready = insert p s.ready) (htask : t.taskAlloc = s.taskAlloc)
    (hctx : t.contextTask = s.contextTask) (hlist : t.delayList = s.delayList)
    (hframe : t.frame = s.frame) : SuspendInv t xs := by
  have hinst := installed_congr htask
  have hwait : ∀ ev', t.waiting ev' =
      if ev' = ev then (s.waiting ev).erase p else s.waiting ev' := fun ev' => by
    rw [← waiting_leaveWaitList, Kernel.waiting, hevent]
  have halloc : ∀ ev', (t.event ev').osEventAllocated = (s.event ev').osEventAllocated := fun ev' => by
    rw [hevent, TableInv.leaveWaitList_allocated]
  -- the waiter is the only task with priority `p`
  have hsame : ∀ h, s.Installed h → s.prio h ≠ p → (s.prio h ∈ t.ready ↔ s.prio h ∈ s.ready) := by
    intro h hih hne
    rw [hready]
    simp [hne]
  have hother : ∀ h ev' q tw, s.Installed h → s.frame h = .pend ev' q tw → q = p → ev' = ev := by
    rintro h ev' q tw hih hf rfl
    obtain ⟨tw', hf'⟩ := hs.frame_of_waiting ht hw hih (hs.pend_spec hih hf).1
    rw [hf] at hf'
    cases hf'
    rfl
  constructor
  all_goals try simp only [hinst, hframe, hlist, hctx, Kernel.prio, Kernel.ttw, Kernel.Allocated,
    halloc]
  case list => exact hs.list
  case listed => exact hs.listed
  case pend_listed => exact hs.pend_listed
  case pend_spec => exact hs.pend_spec
  case wait_pend =>
    intro ev' q hq
    rw [hwait] at hq
    split at hq
    · rename_i heq
      subst heq
      exact hs.wait_pend (Finset.mem_of_mem_erase hq)
    · exact hs.wait_pend hq
  case wait_count =>
    intro ev'
    by_cases heq : ev' = ev
    · subst heq
      have hc := osEventWait_leaveWaitList hw (hs.wait_count ev') (hs.wait_lt _)
      rw [Kernel.waiting, hevent]
      exact hc
    · rw [hwait, if_neg heq, hevent]
      simp only [leaveWaitList, setEvent, Function.update_of_ne heq]
      exact hs.wait_count ev'
  case ready_installed =>
    intro q hq
    rw [hready, Finset.mem_insert] at hq
    rcases hq with rfl | hq
    · obtain ⟨h, tw, hih, hf, hp, -⟩ := hs.waiter hw
      exact ⟨h, hih, hp⟩
    · exact hs.ready_installed hq
  case ready_user =>
    intro h hih hf
    rw [hready]
    exact Finset.mem_insert_of_mem (hs.ready_user hih hf)
  case ready_delay =>
    intro h tw hih hf
    have hne : s.prio h ≠ p := by
      intro he
      obtain ⟨tw', hf'⟩ := hs.frame_of_waiting ht hw hih he
      rw [hf] at hf'
      cases hf'
    exact (hsame h hih hne).trans (hs.ready_delay hih hf)
  case ready_pend =>
    intro h ev' q tw hih hf
    rw [hwait]
    by_cases hq : q = p
    · have hev := hother h ev' q tw hih hf hq
      subst hev hq
      rw [hready]
      simp
    · have hqp := (hs.pend_spec hih hf).1
      rw [hready, Finset.mem_insert]
      simp only [hq, false_or]
      rw [hs.ready_pend hih hf]
      split
      · rename_i heq
        subst heq
        simp [hq]
      · rfl
  case wait_alloc =>
    intro ev' q hq
    rw [hwait] at hq
    split at hq
    · rename_i heq
      rw [heq]
      exact hs.wait_alloc hw
    · exact hs.wait_alloc hq

/-- A post wakes the best waiter. -/
theorem wakeWaiter (hs : SuspendInv s xs) (ht : TableInv s) {ev : Event}
    (hw : (s.waiting ev).Nonempty) : SuspendInv (s.wakeWaiter ev) xs := by
  have hm := saScheduler_mem (x := (s.event ev).osEventWaitList) hw
  exact hs.select ht hm rfl (ready_setReady (lt_of_mem_bits hm)) rfl rfl rfl rfl

/-- The tick wakes a task whose deadline has come. -/
theorem expire {ys zs : List Nat} {h : Nat} (hs : SuspendInv s (ys ++ h :: zs)) (ht : TableInv s) :
    SuspendInv (s.expire h) (ys ++ zs) := by
  have hmem : h ∈ ys ++ h :: zs := by simp
  obtain ⟨hi, hfu⟩ := hs.listed hmem
  obtain ⟨hny, hnz, -⟩ := DList.not_mem_of_nodup_mid hs.list.nodup
  generalize hu : s.expire h = t
  have hready : t.ready = insert (s.prio h) s.ready := by
    subst hu
    exact ready_setReady (ht.prio_lt hi)
  have hprio : ∀ h', t.prio h' = s.prio h' := fun h' => by
    subst hu
    simp only [Kernel.prio, Kernel.expire, removeFromDelayList, setTimeToWait, setContext,
      Kernel.setReady, Function.update_apply]
    split
    · rename_i heq
      rw [heq]
    · rfl
  have httw : ∀ h', t.ttw h' = if h' = h then cfg.exitByTimeout else s.ttw h' := fun h' => by
    subst hu
    simp only [Kernel.ttw, Kernel.expire, removeFromDelayList, setTimeToWait, setContext,
      Kernel.setReady, Function.update_apply]
    split <;> rfl
  have hinst := installed_congr (s := s) (t := t) (by subst hu; rfl)
  have hframe : t.frame = s.frame := by subst hu; rfl
  have hevent : t.event = s.event := by subst hu; rfl
  have hlist : t.delayList = s.delayList.remove h := by subst hu; rfl
  have hxs : ∀ h', h' ∈ ys ++ zs ↔ h' ∈ ys ++ h :: zs ∧ h' ≠ h := by
    intro h'
    simp only [List.mem_append, List.mem_cons]
    constructor
    · rintro (hm | hm)
      · exact ⟨Or.inl hm, fun e => hny (e ▸ hm)⟩
      · exact ⟨Or.inr (Or.inr hm), fun e => hnz (e ▸ hm)⟩
    · rintro ⟨hm | hm | hm, hne⟩
      · exact Or.inl hm
      · exact absurd hm hne
      · exact Or.inr hm
  have hsame : ∀ h', s.Installed h' → h' ≠ h → (s.prio h' ∈ t.ready ↔ s.prio h' ∈ s.ready) := by
    intro h' hi' hne
    have hpne : s.prio h' ≠ s.prio h := fun he => hne (ht.prio_inj hi' hi he)
    rw [hready]
    simp [hpne]
  constructor
  all_goals try simp only [hinst, hframe, hlist, hevent, hprio, Kernel.waiting, Kernel.Allocated]
  case list => exact hs.list.remove
  case listed =>
    intro h' hm
    exact hs.listed ((hxs h').mp hm).1
  case pend_listed =>
    intro h' ev p tw hi' hf
    rw [hxs, hs.pend_listed hi' hf, httw]
    by_cases heq : h' = h
    · simp [heq]
    · simp [heq]
  case pend_spec => exact hs.pend_spec
  case wait_pend => exact hs.wait_pend
  case wait_count => exact hs.wait_count
  case ready_installed =>
    intro p hp
    rw [hready, Finset.mem_insert] at hp
    rcases hp with rfl | hp
    · exact ⟨h, hi, rfl⟩
    · exact hs.ready_installed hp
  case ready_user =>
    intro h' hi' hf
    rw [hready]
    exact Finset.mem_insert_of_mem (hs.ready_user hi' hf)
  case ready_delay =>
    intro h' tw hi' hf
    by_cases heq : h' = h
    · subst heq
      rw [hxs, hready]
      simp
    · rw [hsame h' hi' heq, hs.ready_delay hi' hf, hxs]
      simp [heq]
  case ready_pend =>
    intro h' ev p tw hi' hf
    have hp := (hs.pend_spec hi' hf).1
    subst hp
    rw [httw]
    by_cases heq : h' = h
    · -- listed, so it has a timeout, and that has now expired
      subst heq
      have htw := ((hs.pend_listed hi' hf).mp hmem).1
      rw [hready]
      simp [htw]
    · rw [if_neg heq, hsame h' hi' heq]
      exact hs.ready_pend hi' hf
  case wait_alloc => exact hs.wait_alloc

/-! ### Continuing a suspended call -/

/-- A ready task that is in no wait list leaves the kernel, and the delay list. -/
theorem toUser (hs : SuspendInv s xs) {h : Nat} {xs' : List Nat}
    (hr : s.prio h ∈ s.ready) (hnw : ∀ ev, s.prio h ∉ s.waiting ev)
    (hframe : t.frame = Function.update s.frame h .user) (htask : t.taskAlloc = s.taskAlloc)
    (hprio : ∀ h', t.prio h' = s.prio h') (httw : ∀ h', h' ≠ h → t.ttw h' = s.ttw h')
    (hevent : t.event = s.event) (hready : t.osReadyList = s.osReadyList)
    (hlist : t.delayList.IsList xs') (hxs : ∀ h', h' ∈ xs' ↔ h' ∈ xs ∧ h' ≠ h) :
    SuspendInv t xs' := by
  have hinst := installed_congr htask
  have hself : t.frame h = .user := by rw [hframe, Function.update_self]
  have hold : ∀ h' f, t.frame h' = f → f ≠ .user → h' ≠ h ∧ s.frame h' = f := by
    intro h' f hf hfu
    have hne : h' ≠ h := by
      rintro rfl
      exact hfu (hf.symm.trans hself)
    rw [hframe, Function.update_of_ne hne] at hf
    exact ⟨hne, hf⟩
  constructor
  all_goals try simp only [hinst, hevent, hprio, hready, Kernel.waiting, Kernel.Allocated,
    Kernel.ready]
  case list => exact hlist
  case listed =>
    intro h' hm
    obtain ⟨hm, hne⟩ := (hxs h').mp hm
    rw [hframe, Function.update_of_ne hne]
    exact hs.listed hm
  case pend_listed =>
    intro h' ev p tw hi hf
    obtain ⟨hne, hf⟩ := hold h' _ hf (by simp)
    rw [httw h' hne, hxs, hs.pend_listed hi hf]
    simp [hne]
  case pend_spec =>
    intro h' ev p tw hi hf
    obtain ⟨hne, hf⟩ := hold h' _ hf (by simp)
    exact hs.pend_spec hi hf
  case wait_pend =>
    intro ev p hw
    obtain ⟨h', tw, hi, hf, hp, -⟩ := hs.waiter hw
    refine ⟨h', tw, hi, ?_⟩
    rw [hframe, Function.update_of_ne]
    · exact hf
    · rintro rfl
      exact hnw ev (hp ▸ hw)
  case wait_count => exact hs.wait_count
  case ready_installed => exact hs.ready_installed
  case ready_user =>
    intro h' hi hf
    by_cases hne : h' = h
    · rw [hne]
      exact hr
    · rw [hframe, Function.update_of_ne hne] at hf
      exact hs.ready_user hi hf
  case ready_delay =>
    intro h' tw hi hf
    obtain ⟨hne, hf⟩ := hold h' _ hf (by simp)
    have hd := hs.ready_delay hi hf
    rw [Kernel.ready] at hd
    rw [hxs, hd]
    simp [hne]
  case ready_pend =>
    intro h' ev p tw hi hf
    obtain ⟨hne, hf⟩ := hold h' _ hf (by simp)
    rw [httw h' hne]
    exact hs.ready_pend hi hf
  case wait_alloc => exact hs.wait_alloc

/-- A pending task is in no wait list but that of the object it pends on. -/
theorem pend_not_waiting (hs : SuspendInv s xs) (ht : TableInv s) {h p tw : Nat} {ev ev' : Event}
    (hi : s.Installed h) (hf : s.frame h = .pend ev p tw) (hne : ev' ≠ ev) :
    s.prio h ∉ s.waiting ev' := by
  intro hw
  obtain ⟨tw', hf'⟩ := hs.frame_of_waiting ht hw hi rfl
  rw [hf] at hf'
  cases hf'
  exact hne rfl

/-- The delay is over. -/
theorem delayEnded (hs : SuspendInv s xs) (ht : TableInv s) {h tw : Nat} (hi : s.Installed h)
    (hf : s.frame h = .delay tw) (hr : s.prio h ∈ s.ready) :
    SuspendInv (s.setFrame h .user) xs := by
  have hnm := (hs.ready_delay hi hf).mp hr
  refine hs.toUser hr (fun ev hw => ?_) rfl rfl (fun _ => rfl) (fun _ _ => rfl) rfl rfl hs.list ?_
  · obtain ⟨tw', hf'⟩ := hs.frame_of_waiting ht hw hi rfl
    rw [hf] at hf'
    cases hf'
  · intro h'
    exact ⟨fun hm => ⟨hm, fun he => hnm (he ▸ hm)⟩, fun hm => hm.1⟩

/-- A timed-out task takes itself out of the wait list and leaves the kernel. -/
theorem timedOut (hs : SuspendInv s xs) (ht : TableInv s) {ev : Event} {p tw : Nat}
    (hi : s.Installed s.currentTask) (hf : s.frame s.currentTask = .pend ev p tw)
    (hr : s.prio s.currentTask ∈ s.ready) (hto : s.TimedOut ev p tw) :
    SuspendInv ((s.leaveWaitList ev p).setFrame s.currentTask .user) xs := by
  obtain ⟨-, httw, hw⟩ := hto
  have hp := (hs.pend_spec hi hf).1
  have hnm : s.currentTask ∉ xs := fun hm => ((hs.pend_listed hi hf).mp hm).2 httw
  have hmid : SuspendInv (s.leaveWaitList ev p) xs :=
    hs.select ht hw rfl (by rw [Finset.insert_eq_self.mpr (hp ▸ hr)]; rfl) rfl rfl rfl rfl
  refine hmid.toUser hr (fun ev' => ?_) rfl rfl (fun _ => rfl) (fun _ _ => rfl) rfl rfl
    hmid.list (fun h' => ⟨fun hm => ⟨hm, fun he => hnm (he ▸ hm)⟩, fun hm => hm.1⟩)
  rw [waiting_leaveWaitList]
  split
  · change s.prio s.currentTask ∉ _
    rw [hp]
    simp
  · rename_i hne
    exact hs.pend_not_waiting ht hi hf hne

/-- A task that was not timed out has been selected. -/
theorem selected_of_not_timedOut (hs : SuspendInv s xs) {ev : Event} {p tw : Nat}
    (hi : s.Installed s.currentTask) (hf : s.frame s.currentTask = .pend ev p tw)
    (hr : s.prio s.currentTask ∈ s.ready) (hto : ¬ s.TimedOut ev p tw) : p ∉ s.waiting ev := by
  intro hw
  have hp := (hs.pend_spec hi hf).1
  rcases (hs.ready_pend hi hf).mp (hp ▸ hr) with hn | ⟨htw, httw⟩
  · exact hn hw
  · exact hto ⟨htw, httw, hw⟩

/-- A selected task cancels its timeout and leaves the kernel. -/
theorem woken (hs : SuspendInv s xs) (ht : TableInv s) {ev : Event} {p tw : Nat}
    (hi : s.Installed s.currentTask) (hf : s.frame s.currentTask = .pend ev p tw)
    (hr : s.prio s.currentTask ∈ s.ready) (hto : ¬ s.TimedOut ev p tw) :
    SuspendInv ((s.cancelTimeout tw).setFrame s.currentTask .user) (xs.erase s.currentTask) := by
  have hp := (hs.pend_spec hi hf).1
  have hnw : ∀ ev', s.prio s.currentTask ∉ s.waiting ev' := by
    intro ev'
    by_cases he : ev' = ev
    · rw [he, hp]
      exact hs.selected_of_not_timedOut hi hf hr hto
    · exact hs.pend_not_waiting ht hi hf he
  have hmem : ∀ h', h' ∈ xs.erase s.currentTask ↔ h' ∈ xs ∧ h' ≠ s.currentTask := fun h' => by
    rw [hs.list.nodup.mem_erase_iff]
    exact and_comm
  unfold cancelTimeout
  split
  · -- the timeout is running, so the task is in the delay list
    rename_i hcond
    have hin := (hs.pend_listed hi hf).mpr hcond
    refine hs.toUser hr hnw rfl rfl ?_ ?_ rfl rfl ?_ hmem
    · intro h'
      simp only [Kernel.prio, setFrame, removeFromDelayList, setTimeToWait, setContext,
        Function.update_apply]
      split
      · rename_i heq
        rw [heq]
      · rfl
    · intro h' hne
      simp only [Kernel.ttw, setFrame, removeFromDelayList, setTimeToWait, setContext,
        Function.update_of_ne hne]
    · obtain ⟨ys, zs, hxs⟩ := List.append_of_mem hin
      have hl := hs.list
      rw [hxs] at hl ⊢
      obtain ⟨hny, -, -⟩ := DList.not_mem_of_nodup_mid hl.nodup
      rw [List.erase_append_right _ hny, List.erase_cons_head]
      exact hl.remove
  · rename_i hcond
    have hnin : s.currentTask ∉ xs := fun hm => hcond ((hs.pend_listed hi hf).mp hm)
    rw [List.erase_of_not_mem hnin] at hmem ⊢
    exact hs.toUser hr hnw rfl rfl (fun _ => rfl) (fun _ _ => rfl) rfl rfl hs.list hmem

/-! ### Install, uninstall, create, delete -/

/-- A new task is outside the kernel and ready. -/
theorem fillTcb (hs : SuspendInv s xs) (ht : TableInv s) {i p a b : Nat}
    (hfree : s.freeTcb = some i) (hp : p < cfg.prioBits)
    (hpv : s.priorityVector p = emptyPrio) : SuspendInv (s.fillTcb i p a b) xs := by
  have hinst := fun h => TableInv.installed_fillTcb (s := s) (p := p) (a := a) (b := b)
    (freeTcb_spec hfree).1 h
  have hnew := TableInv.not_installed_of_free hfree
  have hnmem : i + 1 ∉ xs := fun hm => hnew (hs.listed hm).1
  have hne : ∀ h, s.Installed h → h ≠ i + 1 := fun h hh heq => hnew (heq ▸ hh)
  generalize hu : s.fillTcb i p a b = t at hinst ⊢
  have hready : t.ready = insert p s.ready := by
    subst hu
    exact bits_or_mask hp
  have hprio : ∀ h, t.prio h = if h = i + 1 then p else s.prio h := fun h => by
    subst hu
    simp only [Kernel.prio, Kernel.fillTcb, Function.update_apply]
    split <;> rfl
  have httw : ∀ h, h ≠ i + 1 → t.ttw h = s.ttw h := fun h hh => by
    subst hu
    simp only [Kernel.ttw, Kernel.fillTcb, Function.update_of_ne hh]
  have hframe : ∀ h, t.frame h = if h = i + 1 then .user else s.frame h := fun h => by
    subst hu
    simp only [Kernel.fillTcb, Function.update_apply]
  have hevent : t.event = s.event := by subst hu; rfl
  have hlist : t.delayList.IsList xs := by
    subst hu
    exact hs.list.unlink hnmem
  -- the new task is outside the kernel: whoever is inside it was installed before
  have hold : ∀ h f, t.Installed h → t.frame h = f → f ≠ .user →
      h ≠ i + 1 ∧ s.Installed h ∧ s.frame h = f := by
    intro h f hi hf hfu
    rw [hframe] at hf
    split at hf
    · exact absurd hf.symm hfu
    · rename_i hh
      exact ⟨hh, ((hinst h).mp hi).resolve_left hh, hf⟩
  have hsame : ∀ h, s.Installed h → (s.prio h ∈ t.ready ↔ s.prio h ∈ s.ready) := by
    intro h hi
    have hpne := (ht.not_prio_of_empty hpv hi).1
    rw [hready]
    simp [hpne]
  constructor
  all_goals try simp only [hevent, Kernel.waiting, Kernel.Allocated]
  case list => exact hlist
  case listed =>
    intro h hm
    have hh : h ≠ i + 1 := fun he => hnmem (he ▸ hm)
    rw [hinst, hframe, if_neg hh]
    exact ⟨Or.inr (hs.listed hm).1, (hs.listed hm).2⟩
  case pend_listed =>
    intro h ev q tw hi hf
    obtain ⟨hh, hi, hf⟩ := hold h _ hi hf (by simp)
    rw [httw h hh]
    exact hs.pend_listed hi hf
  case pend_spec =>
    intro h ev q tw hi hf
    obtain ⟨hh, hi, hf⟩ := hold h _ hi hf (by simp)
    rw [hprio, if_neg hh]
    exact hs.pend_spec hi hf
  case wait_pend =>
    intro ev q hw
    obtain ⟨h, tw, hi, hf⟩ := hs.wait_pend hw
    exact ⟨h, tw, (hinst h).mpr (Or.inr hi), by rw [hframe, if_neg (hne h hi)]; exact hf⟩
  case wait_count => exact hs.wait_count
  case ready_installed =>
    intro q hq
    rw [hready, Finset.mem_insert] at hq
    rcases hq with rfl | hq
    · exact ⟨i + 1, (hinst _).mpr (Or.inl rfl), by rw [hprio, if_pos rfl]⟩
    · obtain ⟨h, hi, hh⟩ := hs.ready_installed hq
      exact ⟨h, (hinst h).mpr (Or.inr hi), by rw [hprio, if_neg (hne h hi)]; exact hh⟩
  case ready_user =>
    intro h hi hf
    rw [hprio]
    split
    · rw [hready]
      exact Finset.mem_insert_self _ _
    · rename_i hh
      have hi := ((hinst h).mp hi).resolve_left hh
      rw [hframe, if_neg hh] at hf
      exact (hsame h hi).mpr (hs.ready_user hi hf)
  case ready_delay =>
    intro h tw hi hf
    obtain ⟨hh, hi, hf⟩ := hold h _ hi hf (by simp)
    rw [hprio, if_neg hh, hsame h hi]
    exact hs.ready_delay hi hf
  case ready_pend =>
    intro h ev q tw hi hf
    obtain ⟨hh, hi, hf⟩ := hold h _ hi hf (by simp)
    have hq := (hs.pend_spec hi hf).1
    subst hq
    rw [httw h hh, hsame h hi]
    exact hs.ready_pend hi hf
  case wait_alloc => exact hs.wait_alloc

/-- A task that is not pending goes: its ready bit is clear and it is not listed. -/
theorem clearTcb (hs : SuspendInv s xs) (ht : TableInv s) {task : Nat} (hi : s.Installed task)
    (hf : (s.frame task).isPend = false) {u : Kernel cfg} {xs' : List Nat}
    (hready : u.ready = s.ready.erase (s.prio task)) (htask : u.taskAlloc = s.taskAlloc)
    (hctx : u.contextTask = s.contextTask) (hframe : u.frame = s.frame)
    (hevent : u.event = s.event) (hlist : u.delayList.IsList xs')
    (hxs : ∀ h, h ∈ xs' ↔ h ∈ xs ∧ h ≠ task) : SuspendInv (u.clearTcb task) xs' := by
  have hinst : ∀ h, (u.clearTcb task).Installed h ↔ s.Installed h ∧ h ≠ task := fun h => by
    rw [TableInv.installed_clearTcb hi.pos, installed_congr htask]
  have hprio : ∀ h, h ≠ task → (u.clearTcb task).prio h = s.prio h := fun h hne => by
    simp only [Kernel.prio, Kernel.clearTcb, Function.update_of_ne hne, hctx]
  have httw : ∀ h, h ≠ task → (u.clearTcb task).ttw h = s.ttw h := fun h hne => by
    simp only [Kernel.ttw, Kernel.clearTcb, Function.update_of_ne hne, hctx]
  have hframe' : (u.clearTcb task).frame = s.frame := hframe
  have hevent' : (u.clearTcb task).event = s.event := hevent
  have hready' : (u.clearTcb task).ready = s.ready.erase (s.prio task) := hready
  have hsame : ∀ h, s.Installed h → h ≠ task →
      (s.prio h ∈ s.ready.erase (s.prio task) ↔ s.prio h ∈ s.ready) := by
    intro h hih hne
    have hpne : s.prio h ≠ s.prio task := fun he => hne (ht.prio_inj hih hi he)
    simp [hpne]
  have hnm : task ∉ xs' := fun hm => ((hxs task).mp hm).2 rfl
  constructor
  all_goals try simp only [hframe', hevent', hready', hinst, Kernel.waiting, Kernel.Allocated]
  case list => exact hlist.unlink hnm
  case listed =>
    intro h hm
    obtain ⟨hm, hne⟩ := (hxs h).mp hm
    exact ⟨⟨(hs.listed hm).1, hne⟩, (hs.listed hm).2⟩
  case pend_listed =>
    rintro h ev p tw ⟨hih, hne⟩ hfh
    rw [httw h hne, hxs, hs.pend_listed hih hfh]
    simp [hne]
  case pend_spec =>
    rintro h ev p tw ⟨hih, hne⟩ hfh
    rw [hprio h hne]
    exact hs.pend_spec hih hfh
  case wait_pend =>
    intro ev p hw
    obtain ⟨h, tw, hih, hfh⟩ := hs.wait_pend hw
    refine ⟨h, tw, ⟨hih, ?_⟩, hfh⟩
    rintro rfl
    rw [hfh] at hf
    cases hf
  case wait_count => exact hs.wait_count
  case ready_installed =>
    intro p hp
    obtain ⟨hne, hp⟩ := Finset.mem_erase.mp hp
    obtain ⟨h, hih, rfl⟩ := hs.ready_installed hp
    have hh : h ≠ task := fun he => hne (by rw [he])
    exact ⟨h, ⟨hih, hh⟩, hprio h hh⟩
  case ready_user =>
    rintro h ⟨hih, hne⟩ hfh
    rw [hprio h hne]
    exact (hsame h hih hne).mpr (hs.ready_user hih hfh)
  case ready_delay =>
    rintro h tw ⟨hih, hne⟩ hfh
    rw [hprio h hne, hsame h hih hne, hs.ready_delay hih hfh, hxs]
    simp [hne]
  case ready_pend =>
    rintro h ev p tw ⟨hih, hne⟩ hfh
    have hp := (hs.pend_spec hih hfh).1
    subst hp
    rw [httw h hne, hsame h hih hne]
    exact hs.ready_pend hih hfh
  case wait_alloc => exact hs.wait_alloc

/-- A control block with an empty wait list is allocated or freed. -/
theorem resetEvent (hs : SuspendInv s xs) {ev : Event} {alloc : Bool}
    (hempty : s.waiting ev = ∅) : SuspendInv (s.setEvent ev fun _ => ⟨alloc, 0, 0⟩) xs := by
  have hwait : ∀ ev', (s.setEvent ev fun _ => ⟨alloc, 0, 0⟩).waiting ev' = s.waiting ev' := by
    intro ev'
    simp only [Kernel.waiting, setEvent, Function.update_apply]
    split
    · rename_i heq
      subst heq
      exact bits_zero.trans hempty.symm
    · rfl
  constructor
  case list => exact hs.list
  case listed => exact hs.listed
  case pend_listed => exact hs.pend_listed
  case pend_spec => exact hs.pend_spec
  case wait_pend =>
    intro ev' p hw
    rw [hwait] at hw
    exact hs.wait_pend hw
  case wait_count =>
    intro ev'
    rw [hwait]
    by_cases heq : ev' = ev
    · subst heq
      simp [setEvent, hempty]
    · simp only [setEvent, Function.update_of_ne heq]
      exact hs.wait_count ev'
  case ready_installed => exact hs.ready_installed
  case ready_user => exact hs.ready_user
  case ready_delay => exact hs.ready_delay
  case ready_pend =>
    intro h ev' p tw hi hf
    rw [hwait]
    exact hs.ready_pend hi hf
  case wait_alloc =>
    intro ev' p hw
    rw [hwait] at hw
    have hne : ev' ≠ ev := by
      rintro rfl
      simp [hempty] at hw
    simp only [Kernel.Allocated, setEvent, Function.update_of_ne hne]
    exact hs.wait_alloc hw

/-- A block that is not allocated has no waiters. -/
theorem empty_of_free (hs : SuspendInv s xs) {ev : Event} (hna : ¬ s.Allocated ev) :
    s.waiting ev = ∅ := by
  rw [Finset.eq_empty_iff_forall_notMem]
  exact fun p hw => hna (hs.wait_alloc hw)

end SuspendInv

/-- A task inside an acquire keeps the mutex allocated: it is in the wait list or
the owner. -/
theorem CoreInv.pend_mutex_allocated (hc : CoreInv s) {h m p tw : Nat} (hi : s.Installed h)
    (hf : s.frame h = .pend (.mutex m) p tw) : s.Allocated (.mutex m) := by
  obtain ⟨xs, hs⟩ := hc.suspend
  by_cases hw : p ∈ s.waiting (.mutex m)
  · exact hs.wait_alloc hw
  · have ho := (hc.handoff.owner_iff hi hf).mpr hw
    exact (hc.table.owner_installed (by rw [ho]; exact hi.pos)).1

end Brtos
