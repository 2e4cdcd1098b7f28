import Brtos.Invariant.Step

/-!
# Brtos.Properties.Uninstall

**What `OSUninstallTask` leaves behind.** The function takes a task that is ready for
one that waits for nothing. That is wrong in two windows, both between the moment a
task is woken and the moment it runs: a post has selected it and it is still in the
delay list, because its timeout was running; or its timeout has expired and it is still
in the wait list. `Kernel.MidWake` is these two windows.

A task that is not ready is searched for in the delay list. The search begins at what
`Head` was when the function was called, and interrupts come before its critical section:
`Kernel.SearchHits` says when the search still comes out right.

`uninstall_clean_iff` is about every state of an execution, and every state that
deletions of objects lead to from there, with interrupts in between, whatever `Head` was
before: the uninstall comes to an end and changes nothing or leaves no reference to the
task, exactly when the task is not `MidWake` and the search, if there is one, comes out
right.
-/

namespace Brtos

open Bits Kernel

variable {cfg : Config} {s t u : Kernel cfg}

/-! ### Deleting objects

A task may be uninstalled although it waits, after the objects it waits for have been
deleted. Then the kernel invariant is gone, because the task is in no wait list and is
not ready either. What is left of it is enough here. -/

/-- The actions by which objects are deleted, whoever waits for them, and interrupts. -/
def Dismantling : Action → Prop
  | .call (.semDelete _) | .call (.mboxDelete _) | .call (.mutexDelete _) => True
  | .intEnter | .tick | .intExit => True
  | _ => False

instance (a : Action) : Decidable (Dismantling a) := by
  unfold Dismantling
  split <;> infer_instance

/-- The delay list is a list, the wait counters count, and priorities are in range. -/
structure ListsOk (s : Kernel cfg) : Prop where
  prio_lt : ∀ {h}, s.Installed h → s.prio h < cfg.prioBits
  list : ∃ xs, s.delayList.IsList xs
  wait_count : ∀ ev, (s.event ev).osEventWait = (s.waiting ev).card

theorem KernelInv.listsOk (hk : KernelInv s) : ListsOk s := by
  obtain ⟨xs, hs⟩ := hk.suspend
  exact ⟨hk.table.prio_lt, ⟨xs, hs.list⟩, hs.wait_count⟩

theorem ListsOk.congr (hl : ListsOk s) (halloc : t.taskAlloc = s.taskAlloc)
    (hprio : ∀ h, t.prio h = s.prio h) (hlist : ∃ xs, t.delayList.IsList xs)
    (hevent : t.event = s.event) : ListsOk t := by
  refine ⟨fun {h} hi => ?_, hlist, fun ev => ?_⟩
  · rw [hprio]
    exact hl.prio_lt ((installed_congr halloc h).mp hi)
  · rw [Kernel.waiting, hevent]
    exact hl.wait_count ev

theorem ListsOk.deleteEvent (hl : ListsOk s) (ev : Event) : ListsOk (s.deleteEvent ev) := by
  refine ⟨hl.prio_lt, hl.list, fun ev' => ?_⟩
  simp only [Kernel.waiting, Kernel.deleteEvent, setEvent, Function.update_apply]
  split
  · show 0 = (bits (BitVec.ofNat cfg.prioBits 0)).card
    rw [bits_zero]
    rfl
  · exact hl.wait_count ev'

/-- The tick takes tasks out of the delay list and touches no wait list. -/
theorem ListsOk.tickLoop : ∀ {zs ys : List Nat} {fuel : Nat} {s t : Kernel cfg}, ListsOk s →
    s.delayList.IsList (ys ++ zs) → tickLoop fuel s zs.head? = some t → ListsOk t
  | [], ys, fuel, s, t, hl, _, h => by
      have hst : s = t := by
        cases fuel <;> exact Option.some.inj h
      exact hst ▸ hl
  | task :: zs, ys, 0, s, t, _, _, h => by simp [Kernel.tickLoop] at h
  | task :: zs, ys, fuel + 1, s, t, hl, hxs, h => by
      simp only [List.head?_cons, Kernel.tickLoop] at h
      by_cases hdue : (s.contextTask task).timeToWait = s.osTickCounter
      · have htask : s.tickTask task = s.expire task := if_pos hdue
        have hnext : (s.expire task).delayList.next task = zs.head? := hxs.remove_next_self
        rw [htask, hnext] at h
        have hlist : (s.expire task).delayList.IsList (ys ++ zs) := hxs.remove
        -- the task leaves the list and keeps its priority
        have hexp : ListsOk (s.expire task) := by
          refine hl.congr rfl (fun h' => ?_) ⟨_, hlist⟩ rfl
          simp only [Kernel.prio, Kernel.expire, removeFromDelayList, setTimeToWait, setContext,
            Kernel.setReady, Function.update_apply]
          split
          · rename_i heq
            rw [heq]
          · rfl
        exact hexp.tickLoop hlist h
      · have htask : s.tickTask task = s := if_neg hdue
        have hnext : s.delayList.next task = zs.head? := by
          have := (DList.seg_append.mp hxs.seg).2.2.1
          simpa using this
        rw [htask, hnext] at h
        have hxs' : s.delayList.IsList ((ys ++ [task]) ++ zs) := by simpa using hxs
        exact ListsOk.tickLoop hl hxs' h

theorem ListsOk.changeContext (hl : ListsOk s) (h : s.changeContext = some t) : ListsOk t := by
  obtain ⟨task, -, rfl⟩ := changeContext_inv h
  exact hl.congr rfl (fun _ => rfl) hl.list rfl

theorem ListsOk.step (hl : ListsOk s) {a : Action} {o : Obs} (ha : Dismantling a)
    (hstep : s.step a = some (t, o)) : ListsOk t := by
  cases a with
  | call c =>
      obtain ⟨-, u, oc, hex, ho⟩ := step_call_inv hstep
      have hu : ListsOk u := by
        cases c with
        | semDelete e | mboxDelete e | mutexDelete e =>
            simp only [exec, osSemDelete, osMboxDelete, osMutexDelete] at hex
            split at hex
            · cases hex
              exact hl
            · obtain ⟨i, -, h⟩ := Option.map_eq_some_iff.mp hex
              cases h
              exact (hl.deleteEvent _).congr rfl (fun _ => rfl) hl.list rfl
        | _ => cases ha
      rcases ho with ⟨r, -, rfl, -⟩ | ⟨task, -, rfl, -⟩
      · exact hu
      · exact hu.congr rfl (fun _ => rfl) hu.list rfl
  | brtosStart | resume => cases ha
  | intEnter =>
      simp only [Kernel.step] at hstep
      split at hstep
      · cases hstep
        exact hl.congr rfl (fun _ => rfl) hl.list rfl
      · cases hstep
  | tick =>
      simp only [Kernel.step] at hstep
      split at hstep
      · obtain ⟨w, hw, h⟩ := Option.map_eq_some_iff.mp hstep
        cases h
        obtain ⟨xs, hxs⟩ := hl.list
        have hinc : ListsOk s.osIncCounter := hl.congr rfl (fun _ => rfl) hl.list rfl
        unfold osTickHandler at hw
        rw [show s.osIncCounter.delayList.head = xs.head? from hxs.head_eq] at hw
        exact hinc.tickLoop (show s.osIncCounter.delayList.IsList ([] ++ xs) from hxs) hw
      · cases hstep
  | intExit =>
      simp only [Kernel.step, osIntExit] at hstep
      split at hstep
      · obtain ⟨w, hw, h⟩ := Option.map_eq_some_iff.mp hstep
        cases h
        have hdec : ListsOk { s with iNesting := s.iNesting - 1 } :=
          hl.congr rfl (fun _ => rfl) hl.list rfl
        split at hw
        · exact hdec.changeContext hw
        · cases hw
          exact hdec
      · cases hstep

/-! ### Where it goes wrong -/

/-- The task is in the delay list. -/
def Kernel.Delayed (s : Kernel cfg) (h : Nat) : Prop := ∃ xs, s.delayList.IsList xs ∧ h ∈ xs

/-- The task has been woken and has not run: it is ready, and still in the delay list or
in the wait list of an object. -/
def Kernel.MidWake (s : Kernel cfg) (h : Nat) : Prop :=
  s.prio h ∈ s.ready ∧ (s.Delayed h ∨ ∃ ev, s.Allocated ev ∧ s.prio h ∈ s.waiting ev)

/-- The neighbours that a task outside the delay list had there when it left are out of it
too, or next to each other: `RemoveFromDelayList` would do no harm. -/
def Kernel.NeighboursClosed (s : Kernel cfg) (h : Nat) : Prop :=
  ∃ x y, s.delayList.previous h = some x ∧ s.delayList.next h = some y ∧
    (s.Delayed x → s.delayList.next x = some y) ∧ (s.Delayed y → s.delayList.previous y = some x)

/-- The search that begins at `taskTimer` finds the task if it is in the delay list, and
otherwise misses it, or finds it where that does no harm. -/
def Kernel.SearchHits (s : Kernel cfg) (h : Nat) (taskTimer : Option Nat) : Prop :=
  (s.searchDelayList h (walkFuel cfg) taskTimer = some true ∧ (s.Delayed h ∨ s.NeighboursClosed h)) ∨
    (s.searchDelayList h (walkFuel cfg) taskTimer = some false ∧ ¬ s.Delayed h)

/-- Nothing in `t` refers to task `h` of `s` any more, and the lists are in order. -/
structure UninstalledCleanly (s t : Kernel cfg) (h : Nat) : Prop where
  ready : s.prio h ∉ t.ready
  waiting : ∀ ev, t.Allocated ev → s.prio h ∉ t.waiting ev ∧
    (t.event ev).osEventWait = (t.waiting ev).card
  delayed : ∀ xs, s.delayList.IsList xs → t.delayList.IsList (xs.erase h)
  vector : t.priorityVector (s.prio h) = emptyPrio

/-- The task an uninstall is of; handle 0 is the caller. -/
def Kernel.uninstalled (s : Kernel cfg) (taskHandle : Nat) : Nat :=
  if taskHandle = 0 then s.currentTask else taskHandle

/-- What is promised of an uninstall. Where it does not return, because the caller has
uninstalled itself, it counts as one that returned `OK`. -/
def Kernel.UninstallKept (s : Kernel cfg) (taskHandle : Nat) (safetyOff : Bool)
    (taskTimer : Option Nat) (h : Nat) : Prop :=
  ∃ t oc, s.osUninstallTask taskHandle safetyOff taskTimer = some (t, oc) ∧
    ((∃ r : Ret, oc = .returned r ∧ r.code ≠ .ok ∧ t = s) ∨
      ((oc = .suspended ∨ oc = .returned RetCode.ok.ret) ∧ UninstalledCleanly s t h))

/-- An uninstall, by the place where the task is. -/
theorem osUninstallTask_of {k h : Nat} (off : Bool) (taskTimer : Option Nat)
    (hl : ListsOk s) (hh : s.uninstalled k = h) (hi : s.Installed h) (hp : s.prio h ≠ 0) :
    s.osUninstallTask k off taskTimer =
      if s.prio h ∈ s.ready then
        some ((s.clearReady (s.prio h)).clearTcb h, s.uninstallOutcome h)
      else if off then
        (s.searchAndRemove h taskTimer).map fun u => (u.clearTcb h, s.uninstallOutcome h)
      else some (s, .returned RetCode.taskWaitingEvent.ret) := by
  have hmask : (s.osReadyList &&& priorityMask cfg (s.prio h) = priorityMask cfg (s.prio h)) ↔
      s.prio h ∈ s.ready := and_mask_eq_mask (hl.prio_lt hi)
  have hout : (s.clearReady (s.prio h)).uninstallOutcome h = s.uninstallOutcome h := rfl
  unfold uninstalled at hh
  simp only [osUninstallTask, hh, if_neg hi.pos, if_neg hp, ne_eq, hmask, hout]
  by_cases hr : s.prio h ∈ s.ready
  · rw [if_neg (not_not.mpr hr), if_pos hr]
  · rw [if_pos hr, if_neg hr]

theorem uninstallOutcome_ok (h : Nat) : s.uninstallOutcome h = .suspended ∨
    s.uninstallOutcome h = .returned RetCode.ok.ret := by
  unfold uninstallOutcome
  split
  · exact Or.inl rfl
  · exact Or.inr rfl

/-- An uninstall that is not refused keeps its promise when it leaves nothing behind. -/
theorem uninstallKept_iff {k h : Nat} {off : Bool} {taskTimer : Option Nat} {u : Kernel cfg}
    (hex : s.osUninstallTask k off taskTimer = some (u, s.uninstallOutcome h)) :
    s.UninstallKept k off taskTimer h ↔ UninstalledCleanly s u h := by
  constructor
  · rintro ⟨t, oc, hex', ⟨r, hr, hcode, -⟩ | ⟨-, hc⟩⟩
    · rw [hex] at hex'
      cases hex'
      rcases uninstallOutcome_ok (s := s) h with ho | ho
      · rw [ho] at hr
        cases hr
      · rw [ho] at hr
        cases hr
        exact absurd rfl hcode
    · rw [hex] at hex'
      cases hex'
      exact hc
  · exact fun hc => ⟨u, _, hex, Or.inr ⟨uninstallOutcome_ok h, hc⟩⟩

/-- A task that is ready leaves no reference behind exactly when it is in no other list. -/
theorem clearReady_clean_iff {h : Nat} {xs : List Nat} (hl : ListsOk s)
    (hxs : s.delayList.IsList xs) :
    UninstalledCleanly s ((s.clearReady (s.prio h)).clearTcb h) h ↔
      h ∉ xs ∧ ∀ ev, s.Allocated ev → s.prio h ∉ s.waiting ev := by
  constructor
  · intro hc
    refine ⟨fun hm => ?_, fun ev ha => (hc.waiting ev ha).1⟩
    exact hxs.not_unlink hm (by rw [hxs.nodup.mem_erase_iff]; exact fun h => h.1 rfl)
      (hc.delayed xs hxs)
  · rintro ⟨hm, hw⟩
    refine ⟨?_, fun ev ha => ⟨hw ev ha, hl.wait_count ev⟩, fun ys hys => ?_, ?_⟩
    · show s.prio h ∉ (s.clearReady (s.prio h)).ready
      rw [ready_clearReady]
      simp
    · rw [hys.unique hxs, List.erase_of_not_mem hm]
      exact hxs.unlink hm
    · exact Function.update_self _ _ _

/-- A task that is not ready and in no wait list leaves no reference behind exactly when its
slot is emptied with the delay list as it should be. -/
theorem clearTcb_clean_iff {h : Nat} {xs : List Nat} (d : DList Nat) (ops : List (DList.Op Nat))
    (hl : ListsOk s) (hxs : s.delayList.IsList xs) (hr : s.prio h ∉ s.ready)
    (hw : ∀ ev, s.Allocated ev → s.prio h ∉ s.waiting ev) :
    UninstalledCleanly s (clearTcb { s with delayList := d, delayOps := ops } h) h ↔
      ((d.setNext (some h) none).setPrevious (some h) none).IsList (xs.erase h) := by
  refine ⟨fun hc => hc.delayed xs hxs, fun hd => ⟨hr, fun ev ha => ⟨hw ev ha, hl.wait_count ev⟩,
    fun ys hys => ?_, Function.update_self _ _ _⟩⟩
  rw [hys.unique hxs]
  exact hd

/-- The uninstall of a task that is searched for. -/
theorem searched_kept_iff {k h : Nat} {taskTimer : Option Nat} {xs : List Nat} (hl : ListsOk s)
    (hxs : s.delayList.IsList xs) (hh : s.uninstalled k = h) (hi : s.Installed h)
    (hp : s.prio h ≠ 0) (hr : s.prio h ∉ s.ready)
    (hw : ∀ ev, s.Allocated ev → s.prio h ∉ s.waiting ev) :
    s.UninstallKept k true taskTimer h ↔ s.SearchHits h taskTimer := by
  have hdelayed : ∀ {x}, s.Delayed x ↔ x ∈ xs := fun {x} =>
    ⟨fun ⟨ys, hys, hm⟩ => hys.unique hxs ▸ hm, fun hm => ⟨xs, hxs, hm⟩⟩
  have hex := osUninstallTask_of true taskTimer hl hh hi hp
  rw [if_neg hr, if_pos rfl] at hex
  have hnone : s.searchAndRemove h taskTimer = none → ¬ s.UninstallKept k true taskTimer h := by
    rintro hno ⟨t, oc, h', -⟩
    rw [hex, hno] at h'
    cases h'
  have hsome : ∀ {u : Kernel cfg}, s.searchAndRemove h taskTimer = some u →
      (s.UninstallKept k true taskTimer h ↔ UninstalledCleanly s (u.clearTcb h) h) := fun hu =>
    uninstallKept_iff (by rw [hex, hu]; rfl)
  unfold SearchHits
  simp only [hdelayed]
  cases hs : s.searchDelayList h (walkFuel cfg) taskTimer with
  | none =>
      refine iff_of_false (hnone ?_) (by simp)
      simp [searchAndRemove, hs]
  | some found =>
      cases found with
      | false =>
          rw [hsome (u := s) (by simp [searchAndRemove, hs]),
            clearTcb_clean_iff s.delayList s.delayOps hl hxs hr hw]
          simp only [Option.some.injEq, Bool.false_eq_true, false_and, true_and, false_or]
          constructor
          · intro hc hm
            exact hxs.not_unlink hm (by rw [hxs.nodup.mem_erase_iff]; exact fun h => h.1 rfl) hc
          · intro hm
            rw [List.erase_of_not_mem hm]
            exact hxs.unlink hm
      | true =>
          simp only [Option.some.injEq, true_and, Bool.true_eq_false, false_and, or_false]
          have hrem : s.delayList.Removable h → (s.UninstallKept k true taskTimer h ↔
              (((s.delayList.remove h).setNext (some h) none).setPrevious (some h) none).IsList
                (xs.erase h)) := fun hok => by
            rw [hsome (u := s.removeFromDelayList h) (by simp [searchAndRemove, hs, hok])]
            exact clearTcb_clean_iff _ _ hl hxs hr hw
          by_cases hm : h ∈ xs
          · -- the ordinary case
            have hout : h ∉ xs.erase h := by
              rw [hxs.nodup.mem_erase_iff]
              exact fun h => h.1 rfl
            obtain ⟨ys, zs, rfl⟩ := List.append_of_mem hm
            rw [hrem hxs.removable]
            exact iff_of_true ((hxs.erase hm).unlink hout) (Or.inl hm)
          · have hhead : some h ≠ s.delayList.head := fun he =>
              hm (List.mem_of_head? (hxs.head_eq.symm.trans he.symm))
            have htail : some h ≠ s.delayList.tail := fun he =>
              hm (List.mem_of_getLast? (hxs.tail_eq.symm.trans he.symm))
            simp only [hm, false_or, NeighboursClosed, hdelayed]
            by_cases hok : s.delayList.Removable h
            · obtain ⟨y, hy⟩ := Option.ne_none_iff_exists'.mp (hok.1 htail)
              obtain ⟨x, hx⟩ := Option.ne_none_iff_exists'.mp (hok.2 hhead)
              rw [hrem hok, List.erase_of_not_mem hm]
              have hiff := hxs.remove_unlisted_iff hm hx hy
              constructor
              · exact fun hc => ⟨x, y, hx, hy, hiff.mp (hc.of_unlink hm)⟩
              · rintro ⟨x', y', hx', hy', hc⟩
                rw [hx] at hx'
                rw [hy] at hy'
                cases hx'
                cases hy'
                exact (hiff.mpr hc).unlink hm
            · -- a null pointer is followed
              refine iff_of_false (hnone (by simp [searchAndRemove, hs, hok])) ?_
              rintro ⟨x, y, hx, hy, -⟩
              exact hok ⟨fun _ => hy ▸ Option.some_ne_none y, fun _ => hx ▸ Option.some_ne_none x⟩

/-- **Uninstall.** In every state of an execution, and after any deletion of objects from
there on, an uninstall of a task that owns no mutex, and by `safetyOff` of one that is in
no wait list, comes to an end and is refused and changes nothing, or leaves no reference
to the task, exactly when the task is not between being woken and running and the search
for one that is not ready comes out right. -/
theorem uninstall_clean_iff {tr tr' : Trace} {k h : Nat} {off : Bool} {taskTimer : Option Nat}
    (hr : RunFromInit (Disciplined NestedRelease) tr s)
    (hdel : Run Kernel.step (fun _ a => Dismantling a) s tr' t)
    (hh : t.uninstalled k = h) (hi : t.Installed h) (hp : t.prio h ≠ 0)
    (hoff : off = true → ∀ ev, t.Allocated ev → t.prio h ∉ t.waiting ev) :
    t.UninstallKept k off taskTimer h ↔
      ¬ t.MidWake h ∧ (t.prio h ∉ t.ready → off = true → t.SearchHits h taskTimer) := by
  have hl : ListsOk t := hdel.invariant (run_inv hr).listsOk fun v a w o hv ha hs => hv.step ha hs
  obtain ⟨xs, hxs⟩ := hl.list
  have hdelayed : t.Delayed h ↔ h ∈ xs :=
    ⟨fun ⟨ys, hys, hm⟩ => hys.unique hxs ▸ hm, fun hm => ⟨xs, hxs, hm⟩⟩
  have hex := osUninstallTask_of off taskTimer hl hh hi hp
  by_cases hready : t.prio h ∈ t.ready
  · rw [if_pos hready] at hex
    rw [uninstallKept_iff hex, clearReady_clean_iff hl hxs, MidWake, hdelayed]
    constructor
    · rintro ⟨hm, hw⟩
      refine ⟨?_, fun hnr => absurd hready hnr⟩
      rintro ⟨-, hd | ⟨ev, ha, hmem⟩⟩
      · exact hm hd
      · exact hw ev ha hmem
    · rintro ⟨hmid, -⟩
      exact ⟨fun hm => hmid ⟨hready, Or.inl hm⟩,
        fun ev ha hmem => hmid ⟨hready, Or.inr ⟨ev, ha, hmem⟩⟩⟩
  · have hmid : ¬ t.MidWake h := fun hm => hready hm.1
    cases off with
    | true =>
        rw [searched_kept_iff hl hxs hh hi hp hready (hoff rfl)]
        exact ⟨fun hs => ⟨hmid, fun _ _ => hs⟩, fun hs => hs.2 hready rfl⟩
    | false =>
        rw [if_neg hready] at hex
        exact iff_of_true ⟨t, _, hex, Or.inl ⟨_, rfl, by decide, rfl⟩⟩ ⟨hmid, fun _ h => by cases h⟩

/-- Task 1 waits for a semaphore, with a timeout, and task 2 runs. -/
def waitingForSem : List Action :=
  [.call (.installTask false 256 2), .call (.installTask false 256 3), .call (.semCreate 0),
    .brtosStart, .call (.delayTask 1), .call (.semPend (some 0) 2), .intEnter, .tick, .intExit,
    .resume]

/-- Task 2 deletes the semaphore, and the timeout of task 1 expires. -/
def semDeleted : List Action := [.call (.semDelete (some 0)), .intEnter, .tick, .intExit]

set_option maxRecDepth 20000 in
/-- The task is ready and in no list. -/
theorem uninstall_clean_iff_deleted :
    let s := Run.after Kernel.step (Kernel.init Config.exampleConfig) waitingForSem
    let t := Run.after Kernel.step s semDeleted
    t.prio 1 ∈ t.ready ∧ (t.UninstallKept 1 false t.delayList.head 1 ↔ ¬ t.MidWake 1) := by
  intro s t
  have hready : t.prio 1 ∈ t.ready := by decide +kernel
  have h : t.UninstallKept 1 false t.delayList.head 1 ↔ _ :=
    uninstall_clean_iff (s := s) (Run.of_admits (by decide +kernel))
      (Run.of_admits (by decide +kernel)) rfl (by decide +kernel) (by decide +kernel)
      (fun h => by cases h)
  exact ⟨hready, h.trans ⟨fun hc => hc.1, fun hm => ⟨hm, fun hnr => absurd hready hnr⟩⟩⟩

set_option maxRecDepth 20000 in
/-- Task 2 posts the semaphore and uninstalls the waiter before it has run: the call
returns `OK`, and the head of the delay list is the empty slot of task 1. -/
theorem uninstall_leaves_delay_list :
    let s := Run.after Kernel.step (Kernel.init Config.exampleConfig)
      (waitingForSem ++ [.call (.semPost (some 0))])
    let t := Run.after Kernel.step s [.call (.uninstallTask 1 false s.delayList.head)]
    RunFromInit (Disciplined NestedRelease) (Run.traceOf Kernel.step
      (Kernel.init Config.exampleConfig) (waitingForSem ++ [.call (.semPost (some 0))])) s ∧
    s.Installed 1 ∧ s.prio 1 = 2 ∧ s.OwnsNone 1 ∧
    s.step (.call (.uninstallTask 1 false s.delayList.head)) =
      some (t, .returned s.caller (.uninstallTask 1 false s.delayList.head) RetCode.ok.ret) ∧
    ¬ t.Installed 1 ∧ t.delayList.head = some 1 ∧ ¬ UninstalledCleanly s t 1 := by
  intro s t
  have hhead : t.delayList.head = some 1 := by decide +kernel
  have hr : RunFromInit (Disciplined NestedRelease) (Run.traceOf Kernel.step
      (Kernel.init Config.exampleConfig) (waitingForSem ++ [.call (.semPost (some 0))])) s :=
    Run.of_admits (by decide +kernel)
  refine ⟨hr, by decide +kernel, by decide +kernel, by decide +kernel,
    Run.step_of_traceOf (by decide +kernel), by decide +kernel, hhead, fun hc => ?_⟩
  obtain ⟨xs, hs⟩ := (run_inv hr).suspend
  have hlist := hc.delayed xs hs.list
  have hmem : 1 ∈ xs.erase 1 := List.mem_of_head? (hlist.head_eq.symm.trans hhead)
  rw [hs.list.nodup.mem_erase_iff] at hmem
  exact hmem.1 rfl

/-- Three tasks, of which 3 and 2 are in the delay list in that order; task 1 has the processor
and calls `OSUninstallTask` of task 2. -/
def beforeUninstall : List Action :=
  [.call (.installTask false 256 2), .call (.installTask false 256 3), .call (.installTask false 256 4),
    .brtosStart, .call (.delayTask 1), .call (.delayTask 5)]

/-- Before its critical section a tick comes, and task 3 runs and delays itself again. -/
def listTurned : List Action := [.intEnter, .tick, .intExit, .resume, .call (.delayTask 9)]

-- the search begins at task 3, which is behind task 2 now, and the empty slot stays in the list
set_option maxRecDepth 20000 in
example :
    let s := kernelAfter beforeUninstall
    let t := Run.after Kernel.step s listTurned
    t.currentTask = s.currentTask ∧
      (Run.after Kernel.step t [.call (.uninstallTask 2 true s.delayList.head)]).delayList.head =
        some 2 ∧
      ¬ (Run.after Kernel.step t [.call (.uninstallTask 2 true s.delayList.head)]).Installed 2 := by
  decide +kernel

end Brtos
