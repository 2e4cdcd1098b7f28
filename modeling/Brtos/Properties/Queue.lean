import Brtos.Inversion
import Brtos.Lib.RingBuffer

/-!
# Brtos.Properties.Queue

**Delivery through a queue.** `OSQueuePost` stores its byte in the queue's ring buffer
and, separately, makes the best waiter ready; the waiter fetches a byte when it runs
again. In between the byte is anybody's: a pend that finds it, or `OSRQueue`, takes it.
The two of them test whether the queue holds anything, and the waiter does not, so it
then fetches what the buffer held before and counts the entries below zero.

`queue_exactly_once` is about every execution in which no woken waiter comes to an
empty queue: the bytes delivered are, in order, the first of the bytes posted, and
`OSQEntries` counts the others. `stolen_byte_wraps_entries` is the execution in which
one does.

Nothing here depends on the scheduling tables, so nothing is assumed about timeouts,
mutexes or the tasks that are blocked. What has to be known of the rest of the kernel
is that it leaves queues alone (`exec_sameQueues`) and that the buffers of different
queues do not overlap (`QueueLayout`).
-/

namespace Brtos

open Bits Kernel

variable {cfg : Config} {s t u : Kernel cfg} {q : Nat}

/-! ### Everything but the queue calls leaves queues alone -/

/-- The queues, their buffers and their allocation are the same. -/
structure SameQueues (s t : Kernel cfg) : Prop where
  osQueueTable : t.osQueueTable = s.osQueueTable
  queueStack : t.queueStack = s.queueStack
  iQueueAddress : t.iQueueAddress = s.iQueueAddress
  allocated : ∀ q, (t.event (.queue q)).osEventAllocated = (s.event (.queue q)).osEventAllocated

theorem SameQueues.refl (s : Kernel cfg) : SameQueues s s := ⟨rfl, rfl, rfl, fun _ => rfl⟩

theorem SameQueues.trans (h : SameQueues s t) (h' : SameQueues t u) : SameQueues s u :=
  ⟨h'.osQueueTable.trans h.osQueueTable, h'.queueStack.trans h.queueStack,
    h'.iQueueAddress.trans h.iQueueAddress, fun q => (h'.allocated q).trans (h.allocated q)⟩

/-- The calls on queues. -/
def Call.onQueue : Call → Bool
  | .queueCreate _ | .queuePend .. | .queuePost .. | .rQueue _ | .wQueue .. | .queueClean _ => true
  | _ => false

theorem checkEvent_sameQueues {kind : Nat → Event} {p : Option Nat}
    {body : Nat → Kernel cfg × Outcome} {oc : Outcome} (hbody : ∀ i, SameQueues s (body i).1)
    (hex : s.checkEvent kind p body = some (u, oc)) : SameQueues s u := by
  unfold checkEvent at hex
  split at hex
  · split at hex
    · cases hex
      exact .refl s
    · cases hex
  · rename_i i
    split at hex
    · cases hex
      exact .refl s
    · have hu : (body i).1 = u := congrArg Prod.fst (Option.some.inj hex)
      exact hu ▸ hbody i

theorem checkPend_sameQueues {kind : Nat → Event} {p : Option Nat} {out : Out}
    {body : Nat → Kernel cfg × Outcome} {oc : Outcome} (hbody : ∀ i, SameQueues s (body i).1)
    (hex : s.checkPend kind p out body = some (u, oc)) : SameQueues s u := by
  unfold checkPend at hex
  split at hex
  · cases hex
    exact .refl s
  · exact checkEvent_sameQueues hbody hex

/-- Writing an event's wait list keeps its allocation. -/
theorem setEvent_sameQueues {ev : Event} {f : EventWait cfg.prioBits → EventWait cfg.prioBits}
    (hf : ∀ w, (f w).osEventAllocated = w.osEventAllocated) : SameQueues s (s.setEvent ev f) := by
  refine ⟨rfl, rfl, rfl, fun q => ?_⟩
  simp only [setEvent, Function.update_apply]
  split
  · rename_i heq
    rw [heq, hf]
  · rfl

theorem waitEvent_sameQueues (s : Kernel cfg) (ev : Event) (timeWait : Nat) :
    SameQueues s (s.waitEvent ev timeWait) := by
  have h : SameQueues s (s.setEvent ev fun e =>
      { e with
        osEventWait := (e.osEventWait + 1) % 256
        osEventWaitList := e.osEventWaitList ||| priorityMask cfg (s.prio s.currentTask) }) :=
    setEvent_sameQueues fun _ => rfl
  unfold waitEvent startTimeout
  dsimp only [clearReady, setFrame]
  generalize s.setEvent ev _ = v at h ⊢
  split <;> exact h.trans ⟨rfl, rfl, rfl, fun _ => rfl⟩

theorem leaveWaitList_sameQueues (s : Kernel cfg) (ev : Event) (p : Nat) :
    SameQueues s (s.leaveWaitList ev p) := setEvent_sameQueues fun _ => rfl

theorem wakeWaiter_sameQueues (s : Kernel cfg) (ev : Event) : SameQueues s (s.wakeWaiter ev) :=
  (leaveWaitList_sameQueues s ev _).trans ⟨rfl, rfl, rfl, fun _ => rfl⟩

theorem noteAcquired_sameQueues (s : Kernel cfg) (m : Nat) : SameQueues s (s.noteAcquired m) :=
  ⟨rfl, rfl, rfl, fun _ => rfl⟩

theorem setFrame_sameQueues (s : Kernel cfg) (h : Nat) (f : Frame) :
    SameQueues s (s.setFrame h f) :=
  ⟨rfl, rfl, rfl, fun _ => rfl⟩

theorem takeCeiling_sameQueues (s : Kernel cfg) (m p : Nat) :
    SameQueues s (s.takeCeiling m p) := by
  obtain ⟨ready, pv, ctx, mt, ht⟩ := takeCeiling_eq s m p
  rw [ht]
  exact ⟨rfl, rfl, rfl, fun _ => rfl⟩

theorem restorePriority_sameQueues (s : Kernel cfg) (m : Nat) :
    SameQueues s (s.restorePriority m) := by
  obtain ⟨ready, ctx, hr⟩ := restorePriority_eq s m
  rw [hr]
  exact ⟨rfl, rfl, rfl, fun _ => rfl⟩

theorem foldl_sameQueues {f : Kernel cfg → Nat → Kernel cfg}
    (hf : ∀ v h, SameQueues v (f v h)) : ∀ (hs : List Nat) (s : Kernel cfg),
    SameQueues s (hs.foldl f s)
  | [], s => .refl s
  | h :: hs, s => (hf s h).trans (foldl_sameQueues hf hs (f s h))

theorem mutexRelease_sameQueues (s : Kernel cfg) (m : Nat) :
    SameQueues s (s.mutexRelease m).1 := by
  have h := restorePriority_sameQueues s m
  unfold mutexRelease
  dsimp only
  split
  · exact .refl s
  · generalize s.restorePriority m = v at h ⊢
    have h' : SameQueues s ((v.setMutex m fun c => { c with osEventOwner := 0 }).noteReleased m) :=
      h.trans ⟨rfl, rfl, rfl, fun _ => rfl⟩
    generalize (v.setMutex m fun c => { c with osEventOwner := 0 }).noteReleased m = w at h' ⊢
    split
    · exact h'.trans ((leaveWaitList_sameQueues w (.mutex m)
        (saScheduler (w.event (.mutex m)).osEventWaitList)).trans ⟨rfl, rfl, rfl, fun _ => rfl⟩)
    · have h'' : SameQueues s (w.setMutex m fun c => { c with osEventState := .availableResource }) :=
        h'.trans ⟨rfl, rfl, rfl, fun _ => rfl⟩
      generalize (w.setMutex m fun c => { c with osEventState := .availableResource }) = x at h'' ⊢
      split
      · exact h''.trans ⟨rfl, rfl, rfl, fun _ => rfl⟩
      · exact h''

/-- A call that is not on a queue. -/
theorem exec_sameQueues {c : Call} {oc : Outcome} (hc : c.onQueue = false)
    (hex : s.exec c = some (u, oc)) : SameQueues s u := by
  cases c with
  | installTask isIdle bytes p =>
      simp only [exec, Option.some.injEq, Prod.mk.injEq] at hex
      obtain ⟨rfl, -⟩ := hex
      unfold osInstallTask osInstallTaskDynamic osInstallTaskStatic
      dsimp only
      repeat' split
      all_goals exact ⟨rfl, rfl, rfl, fun _ => rfl⟩
  | uninstallTask h off taskTimer =>
      simp only [exec, osUninstallTask] at hex
      repeat' split at hex
      all_goals try (cases hex; exact ⟨rfl, rfl, rfl, fun _ => rfl⟩)
      all_goals
        obtain ⟨v, hv, h⟩ := Option.map_eq_some_iff.mp hex
        cases h
        obtain ⟨found, -, rfl⟩ := searchAndRemove_inv hv
        cases found <;> exact ⟨rfl, rfl, rfl, fun _ => rfl⟩
  | delayTask timeWait =>
      simp only [exec, osDelayTask, Option.some.injEq] at hex
      repeat' split at hex
      · cases hex
        exact .refl s
      · cases hex
        exact .refl s
      · cases hex
        exact .refl s
      · cases hex
        dsimp only [setTimeToWait, setContext, includeTaskIntoDelayList, clearReady, setFrame]
        exact ⟨rfl, rfl, rfl, fun _ => rfl⟩
  | semPend e timeWait =>
      refine checkPend_sameQueues (fun i => ?_) hex
      unfold semPend
      repeat' split
      · exact ⟨rfl, rfl, rfl, fun _ => rfl⟩
      · exact .refl s
      · exact waitEvent_sameQueues _ _ _
  | semPost e =>
      refine checkEvent_sameQueues (fun i => ?_) hex
      unfold semPost
      repeat' split
      · exact wakeWaiter_sameQueues _ _
      · exact ⟨rfl, rfl, rfl, fun _ => rfl⟩
      · exact .refl s
  | mboxPend e timeWait =>
      refine checkPend_sameQueues (fun i => ?_) hex
      unfold mboxPend
      repeat' split
      · exact ⟨rfl, rfl, rfl, fun _ => rfl⟩
      · exact .refl s
      · exact waitEvent_sameQueues _ _ _
  | mboxPost e message =>
      refine checkEvent_sameQueues (fun i => ?_) hex
      unfold mboxPost
      split
      · exact (wakeWaiter_sameQueues s (.mbox i)).trans ⟨rfl, rfl, rfl, fun _ => rfl⟩
      · exact ⟨rfl, rfl, rfl, fun _ => rfl⟩
  | mutexAcquire m timeWait =>
      refine checkPend_sameQueues (fun i => ?_) hex
      unfold mutexAcquire
      repeat' split
      · exact .refl s
      · have h := takeCeiling_sameQueues (s.setMutex i fun c =>
          { c with osEventState := .busyResource, osEventOwner := s.currentTask }) i
          (s.prio s.currentTask)
        exact ⟨h.osQueueTable, h.queueStack, h.iQueueAddress, h.allocated⟩
      · exact .refl s
      · exact waitEvent_sameQueues _ _ _
  | mutexRelease m => exact checkPend_sameQueues (mutexRelease_sameQueues s) hex
  | blockMultipleTask start number =>
      simp only [exec, osBlockMultipleTask] at hex
      split at hex
      · cases hex
        exact .refl s
      · cases hex
        refine foldl_sameQueues (fun v h => ?_) _ s
        split <;> exact ⟨rfl, rfl, rfl, fun _ => rfl⟩
  | unBlockMultipleTask start number =>
      simp only [exec, osUnBlockMultipleTask] at hex
      split at hex
      · cases hex
        exact .refl s
      · cases hex
        refine foldl_sameQueues (fun v h => ?_) _ s
        split <;> exact ⟨rfl, rfl, rfl, fun _ => rfl⟩
  | semCreate cnt =>
      simp only [exec, osSemCreate, createSem] at hex
      repeat' split at hex
      all_goals cases hex; exact ⟨rfl, rfl, rfl, fun _ => rfl⟩
  | semBinaryCreate bit =>
      simp only [exec, osSemBinaryCreate, createSem] at hex
      repeat' split at hex
      all_goals cases hex; exact ⟨rfl, rfl, rfl, fun _ => rfl⟩
  | mboxCreate message =>
      simp only [exec, osMboxCreate] at hex
      repeat' split at hex
      all_goals cases hex; exact ⟨rfl, rfl, rfl, fun _ => rfl⟩
  | mutexCreate p =>
      simp only [exec, osMutexCreate] at hex
      repeat' split at hex
      all_goals cases hex; exact ⟨rfl, rfl, rfl, fun _ => rfl⟩
  | semDelete e =>
      simp only [exec, osSemDelete] at hex
      split at hex
      · cases hex
        exact .refl s
      · obtain ⟨i, -, h⟩ := Option.map_eq_some_iff.mp hex
        cases h
        exact ⟨rfl, rfl, rfl, fun _ => rfl⟩
  | mboxDelete e =>
      simp only [exec, osMboxDelete] at hex
      split at hex
      · cases hex
        exact .refl s
      · obtain ⟨i, -, h⟩ := Option.map_eq_some_iff.mp hex
        cases h
        exact ⟨rfl, rfl, rfl, fun _ => rfl⟩
  | mutexDelete m =>
      simp only [exec, osMutexDelete] at hex
      split at hex
      · cases hex
        exact .refl s
      · obtain ⟨i, -, h⟩ := Option.map_eq_some_iff.mp hex
        cases h
        exact ⟨rfl, rfl, rfl, fun _ => rfl⟩
  | blockPriority p | blockTask h =>
      simp only [exec, osBlockPriority, osBlockTask] at hex
      repeat' split at hex
      all_goals cases hex; exact ⟨rfl, rfl, rfl, fun _ => rfl⟩
  | unBlockPriority p | unBlockTask h =>
      cases hex
      exact ⟨rfl, rfl, rfl, fun _ => rfl⟩
  | queueCreate | queuePend | queuePost | rQueue | wQueue | queueClean => cases hc

theorem cancelTimeout_sameQueues (s : Kernel cfg) (timeWait : Nat) :
    SameQueues s (s.cancelTimeout timeWait) := by
  unfold cancelTimeout
  split <;> exact ⟨rfl, rfl, rfl, fun _ => rfl⟩

theorem tickLoop_sameQueues : ∀ {fuel : Nat} {s t : Kernel cfg} {h : Option Nat},
    tickLoop fuel s h = some t → SameQueues s t
  | fuel, s, t, none, h => by
      have hst : s = t := by
        cases fuel <;> exact Option.some.inj h
      exact hst ▸ .refl s
  | 0, _, _, some _, h => by cases h
  | fuel + 1, s, t, some task, h => by
      have hone : SameQueues s (s.tickTask task) := by
        unfold tickTask
        split <;> exact ⟨rfl, rfl, rfl, fun _ => rfl⟩
      exact hone.trans (tickLoop_sameQueues h)

/-! ### Where the buffers are -/

/-- The queue as a ring buffer. -/
def OSQueue.ring (c : OSQueue) : RingBuffer :=
  ⟨c.osqStart, c.osqEnd, c.osqIn, c.osqOut, c.osqSize, c.osqEntries⟩

/-- The buffer of queue `q`. -/
abbrev Kernel.ring (s : Kernel cfg) (q : Nat) : RingBuffer := (s.osQueueTable q).ring

/-- The buffers of the queues are parts of `QUEUE_STACK` that do not overlap and have been
handed out, and each queue writes to its own. -/
structure QueueLayout (s : Kernel cfg) : Prop where
  stop_eq : ∀ {q}, s.Allocated (.queue q) → (s.ring q).stop = (s.ring q).start + (s.ring q).size
  in_mem : ∀ {q}, s.Allocated (.queue q) →
    (s.ring q).start ≤ (s.ring q).inPos ∧ (s.ring q).inPos ≤ (s.ring q).stop
  used : ∀ {q}, s.Allocated (.queue q) →
    (s.ring q).stop ≤ s.iQueueAddress * cfg.sizeofCpuType
  disjoint : ∀ {q q'}, q ≠ q' → s.Allocated (.queue q) → s.Allocated (.queue q') →
    (s.ring q).stop ≤ (s.ring q').start ∨ (s.ring q').stop ≤ (s.ring q).start

theorem QueueLayout.same (hl : QueueLayout s) (h : SameQueues s t) : QueueLayout t := by
  have halloc : ∀ {q}, t.Allocated (.queue q) → s.Allocated (.queue q) := fun {q} ha =>
    (h.allocated q).symm.trans ha
  have hring : ∀ q, t.ring q = s.ring q := fun q => by rw [Kernel.ring, h.osQueueTable]
  refine ⟨fun {q} ha => ?_, fun {q} ha => ?_, fun {q} ha => ?_, fun {q q'} hne ha ha' => ?_⟩
  · rw [hring]
    exact hl.stop_eq (halloc ha)
  · rw [hring]
    exact hl.in_mem (halloc ha)
  · rw [hring, h.iQueueAddress]
    exact hl.used (halloc ha)
  · rw [hring, hring]
    exact hl.disjoint hne (halloc ha) (halloc ha')

/-- One queue's control block is written, without moving its buffer. -/
theorem QueueLayout.setQueue (hl : QueueLayout s) {q : Nat} {f : OSQueue → OSQueue}
    (hq : t.osQueueTable = Function.update s.osQueueTable q (f (s.osQueueTable q)))
    (hallocd : ∀ q, (t.event (.queue q)).osEventAllocated = (s.event (.queue q)).osEventAllocated)
    (haddr : t.iQueueAddress = s.iQueueAddress)
    (hstart : (f (s.osQueueTable q)).osqStart = (s.osQueueTable q).osqStart)
    (hstop : (f (s.osQueueTable q)).osqEnd = (s.osQueueTable q).osqEnd)
    (hsize : (f (s.osQueueTable q)).osqSize = (s.osQueueTable q).osqSize)
    (hin : s.Allocated (.queue q) → (s.osQueueTable q).osqStart ≤ (f (s.osQueueTable q)).osqIn ∧
      (f (s.osQueueTable q)).osqIn ≤ (s.osQueueTable q).osqEnd) : QueueLayout t := by
  have halloc : ∀ {q}, t.Allocated (.queue q) → s.Allocated (.queue q) := fun {q} ha =>
    (hallocd q).symm.trans ha
  have hring : ∀ q', (t.ring q').start = (s.ring q').start ∧ (t.ring q').stop = (s.ring q').stop ∧
      (t.ring q').size = (s.ring q').size := by
    intro q'
    simp only [Kernel.ring, OSQueue.ring, hq, Function.update_apply]
    split
    · rename_i heq
      subst heq
      exact ⟨hstart, hstop, hsize⟩
    · exact ⟨rfl, rfl, rfl⟩
  refine ⟨fun {q'} ha => ?_, fun {q'} ha => ?_, fun {q'} ha => ?_, fun {q' q''} hne ha ha' => ?_⟩
  · obtain ⟨h1, h2, h3⟩ := hring q'
    rw [h1, h2, h3]
    exact hl.stop_eq (halloc ha)
  · obtain ⟨h1, h2, -⟩ := hring q'
    rw [h1, h2]
    simp only [Kernel.ring, OSQueue.ring, hq, Function.update_apply]
    split
    · rename_i heq
      subst heq
      exact hin (halloc ha)
    · exact hl.in_mem (halloc ha)
  · rw [(hring q').2.1, haddr]
    exact hl.used (halloc ha)
  · rw [(hring q').1, (hring q').2.1, (hring q'').1, (hring q'').2.1]
    exact hl.disjoint hne (halloc ha) (halloc ha')

theorem QueueLayout.putByte (hl : QueueLayout s) {q : Nat} (data : UInt8)
    (hroom : (s.osQueueTable q).osqEntries < (s.osQueueTable q).osqSize) :
    QueueLayout (s.putByte q data) := by
  refine hl.setQueue (q := q) (f := fun c => { c with
    osqEntries := c.osqEntries + 1
    osqIn := (if c.osqIn = c.osqEnd then c.osqStart else c.osqIn) + 1 }) rfl (fun _ => rfl) rfl rfl
    rfl rfl fun ha => ?_
  have hmem := RingBuffer.wrap_mem (hl.stop_eq ha) (Nat.zero_lt_of_lt hroom) (hl.in_mem ha)
  exact ⟨Nat.le_succ_of_le hmem.1, hmem.2⟩

theorem QueueLayout.getByte (hl : QueueLayout s) (q : Nat) : QueueLayout (s.getByte q).1 :=
  hl.setQueue (q := q) (f := fun c => { c with
    osqOut := (if c.osqOut = c.osqEnd then c.osqStart else c.osqOut) + 1
    osqEntries := (c.osqEntries + 65535) % 65536 }) rfl (fun _ => rfl) rfl rfl rfl rfl
    fun ha => hl.in_mem ha

/-! ### What a step does to a queue -/

/-- The byte a step posted to queue `q`, if any. -/
def Obs.posted (q : Nat) : Obs → List UInt8
  | .returned _ (.queuePost (some q') data) r =>
    if q' = q ∧ r.code = .writeBufferOk then [data] else []
  | _ => []

/-- The byte a step delivered from queue `q`, if any. -/
def Obs.delivered (q : Nat) : Obs → List UInt8
  | .returned _ (.queuePend (some q') _) ⟨.readBufferOk, .byte b⟩ => if q' = q then [b] else []
  | .returned _ (.rQueue q') ⟨.readBufferOk, .byte b⟩ => if q' = q then [b] else []
  | _ => []

/-- The bytes posted to queue `q`, in order. -/
def posted (q : Nat) (tr : Trace) : List UInt8 := tr.flatMap fun x => x.2.posted q

/-- The bytes delivered from queue `q`, in order. -/
def delivered (q : Nat) (tr : Trace) : List UInt8 := tr.flatMap fun x => x.2.delivered q

theorem posted_snoc (q : Nat) (tr : Trace) (x : Action × Obs) :
    posted q (tr ++ [x]) = posted q tr ++ x.2.posted q := by
  simp [posted]

theorem delivered_snoc (q : Nat) (tr : Trace) (x : Action × Obs) :
    delivered q (tr ++ [x]) = delivered q tr ++ x.2.delivered q := by
  simp [delivered]

/-- Posts and writes name queues that were created. -/
def WritesCreated (s : Kernel cfg) : Action → Prop
  | .call (.queuePost p _) => s.EventOk .queue p
  | .call (.wQueue q _) => s.Allocated (.queue q)
  | _ => True

instance (s : Kernel cfg) (a : Action) : Decidable (WritesCreated s a) := by
  unfold WritesCreated
  split <;> infer_instance

/-- The running task is a waiter of queue `q` that has been woken, and the queue is empty. -/
def WokenOnEmpty (q : Nat) (s : Kernel cfg) : Prop :=
  match s.frame s.currentTask with
  | .pend (.queue q') p timeWait =>
    q' = q ∧ ¬ s.TimedOut (.queue q') p timeWait ∧ (s.osQueueTable q).osqEntries = 0
  | _ => False

instance (q : Nat) (s : Kernel cfg) : Decidable (WokenOnEmpty q s) := by
  unfold WokenOnEmpty
  split <;> infer_instance

/-- Queue `q` is used through `OSQueuePend`, `OSQueuePost` and `OSRQueue` only, and no
woken waiter continues its pend while the queue is empty. -/
def QueueUse (q : Nat) (s : Kernel cfg) : Action → Prop
  | .call (.wQueue q' _) => q' ≠ q
  | .call (.queueClean q') => q' ≠ q
  | .resume => ¬ WokenOnEmpty q s
  | _ => True

instance (q : Nat) (s : Kernel cfg) (a : Action) : Decidable (QueueUse q s a) := by
  unfold QueueUse
  split <;> infer_instance

/-- What a step can do to queue `q`. -/
inductive QueueStep (q : Nat) (s t : Kernel cfg) (o : Obs) : Prop
  | quiet (hring : t.ring q = s.ring q)
      (hmem : ∀ i, (s.ring q).start ≤ i → i < (s.ring q).stop → t.queueStack i = s.queueStack i)
      (hpost : o.posted q = []) (hdel : o.delivered q = [])
  | put {b : UInt8} (hroom : (s.ring q).entries < (s.ring q).size)
      (hring : t.ring q = (s.ring q).put)
      (hmem : t.queueStack = Function.update s.queueStack ((s.ring q).wrap (s.ring q).inPos) b)
      (hpost : o.posted q = [b]) (hdel : o.delivered q = [])
  | get (hpos : 0 < (s.ring q).entries)
      (hring : t.ring q = { (s.ring q).get with entries := ((s.ring q).entries + 65535) % 65536 })
      (hmem : t.queueStack = s.queueStack) (hpost : o.posted q = [])
      (hdel : o.delivered q = [s.queueStack ((s.ring q).wrap (s.ring q).outPos)])

theorem QueueStep.same (h : SameQueues s t) {o : Obs} (hpost : o.posted q = [])
    (hdel : o.delivered q = []) : QueueStep q s t o :=
  .quiet (by rw [Kernel.ring, h.osQueueTable]) (fun i _ _ => by rw [h.queueStack]) hpost hdel

/-- How the critical section of a call can end, as far as queues are concerned. -/
inductive QueueEffect (s : Kernel cfg) : Call → Kernel cfg → Outcome → Prop
  | quiet {c : Call} {u : Kernel cfg} {oc : Outcome} (hsame : SameQueues s u)
      (hno : c.onQueue = true → ∀ r, oc = .returned r ∨ oc = .switched r → r.code.isError = true) :
      QueueEffect s c u oc
  | created {size : UInt16} {q sz : Nat} (hfree : s.freeEvent .queue cfg.brtosMaxQueue = some q)
      (hsz : sz % cfg.sizeofCpuType = 0) (hlt : sz < 65536) :
      QueueEffect s (.queueCreate size)
        { (s.allocEvent (.queue q)).setQueue q fun _ =>
            ⟨s.iQueueAddress * cfg.sizeofCpuType, s.iQueueAddress * cfg.sizeofCpuType + sz,
              s.iQueueAddress * cfg.sizeofCpuType, s.iQueueAddress * cfg.sizeofCpuType, sz, 0⟩ with
          iQueueAddress := s.iQueueAddress + sz / cfg.sizeofCpuType }
        (.returned ⟨.allocEventOk, .event (.queue q)⟩)
  | read {c : Call} {q : Nat} (hc : c = .rQueue q ∨ ∃ timeWait, c = .queuePend (some q) timeWait)
      (hq : 0 < (s.osQueueTable q).osqEntries) :
      QueueEffect s c (s.getByte q).1 (.returned (s.getByte q).2)
  | written {c : Call} {q : Nat} {data : UInt8} {u : Kernel cfg} {oc : Outcome}
      (hc : c = .wQueue q data ∨ c = .queuePost (some q) data) (hev : s.Allocated (.queue q))
      (hq : (s.osQueueTable q).osqEntries < (s.osQueueTable q).osqSize)
      (hsame : SameQueues (s.putByte q data) u)
      (hoc : oc = .returned RetCode.writeBufferOk.ret ∨ oc = .switched RetCode.writeBufferOk.ret) :
      QueueEffect s c u oc
  | cleaned {q : Nat} :
      QueueEffect s (.queueClean q)
        (s.setQueue q fun c => { c with osqEntries := 0, osqIn := c.osqStart, osqOut := c.osqStart })
        (.returned RetCode.cleanBufferOk.ret)

/-- A call that changes nothing and says so. -/
theorem QueueEffect.refused {c : Call} {r : Ret} (hr : r.code.isError = true) :
    QueueEffect s c s (.returned r) := by
  refine .quiet (.refl s) ?_
  rintro - r' (h | h) <;> cases h
  exact hr

theorem queuePend_queue {p : Option Nat} {timeWait : Nat} {oc : Outcome}
    (hex : s.exec (.queuePend p timeWait) = some (u, oc)) :
    QueueEffect s (.queuePend p timeWait) u oc := by
  cases p with
  | none => cases hex
  | some q =>
      simp only [exec, osQueuePend, Option.bind_some, checkPend, checkEvent] at hex
      split at hex
      · cases hex
        exact .refused rfl
      · split at hex
        · cases hex
          exact .refused rfl
        · simp only [queuePend, Option.some.injEq] at hex
          split at hex
          · rename_i hq
            cases hex
            exact .read (Or.inr ⟨_, rfl⟩) hq
          · split at hex
            · cases hex
              exact .refused rfl
            · cases hex
              refine .quiet (waitEvent_sameQueues _ _ _) ?_
              rintro - r (h | h) <;> cases h

theorem queuePost_queue {p : Option Nat} {data : UInt8} {oc : Outcome}
    (hd : s.EventOk .queue p) (hex : s.exec (.queuePost p data) = some (u, oc)) :
    QueueEffect s (.queuePost p data) u oc := by
  cases p with
  | none => cases hex
  | some q =>
      rcases checkEvent_inv hd hex with ⟨r, hr, rfl, rfl⟩ | ⟨q', hq, hev, hb⟩
      · exact .refused hr
      cases hq
      simp only [queuePost] at hb
      split at hb
      · rename_i hroom
        split at hb
        · cases hb
          refine .written (Or.inr rfl) hev hroom (wakeWaiter_sameQueues _ _) ?_
          unfold afterWake
          split
          · exact Or.inr rfl
          · exact Or.inl rfl
        · cases hb
          exact .written (Or.inr rfl) hev hroom (.refl _) (Or.inl rfl)
      · cases hb
        exact .refused rfl

theorem queueCreate_queue {size : UInt16} {oc : Outcome}
    (hex : s.exec (.queueCreate size) = some (u, oc)) :
    QueueEffect s (.queueCreate size) u oc := by
  simp only [exec, osQueueCreate, Option.some.injEq] at hex
  split at hex
  · cases hex
    exact .refused rfl
  have hround := roundUp_mod cfg size.toNat
  have hlt : (if size.toNat % cfg.sizeofCpuType ≠ 0 then
      (size.toNat + (cfg.sizeofCpuType - size.toNat % cfg.sizeofCpuType)) % 65536
      else size.toNat) < 65536 := by
    split
    · exact Nat.mod_lt _ (by decide)
    · exact size.toNat_lt
  generalize (if size.toNat % cfg.sizeofCpuType ≠ 0 then
    (size.toNat + (cfg.sizeofCpuType - size.toNat % cfg.sizeofCpuType)) % 65536
    else size.toNat) = sz at hex hround hlt
  split at hex
  · cases hex
    exact .refused rfl
  rename_i hfit
  have hheap := cfg.queueHeapSize_lt
  cases hf : s.freeEvent .queue cfg.brtosMaxQueue with
  | none =>
      rw [hf] at hex
      cases hex
      exact .refused rfl
  | some q =>
      rw [hf] at hex
      have hmod : (s.iQueueAddress + sz / cfg.sizeofCpuType) % 65536 =
          s.iQueueAddress + sz / cfg.sizeofCpuType := Nat.mod_eq_of_lt (by omega)
      simp only [allocEvent, setEvent, setQueue, hmod] at hex
      cases hex
      exact .created hf hround hlt

/-- Inversion of a call. -/
theorem exec_queue {c : Call} {oc : Outcome} (hd : WritesCreated s (.call c))
    (hex : s.exec c = some (u, oc)) : QueueEffect s c u oc := by
  by_cases hc : c.onQueue = false
  · exact .quiet (exec_sameQueues hc hex) fun h => absurd (hc.symm.trans h) (by simp)
  · cases c with
    | queueCreate size => exact queueCreate_queue hex
    | queuePend p timeWait => exact queuePend_queue hex
    | queuePost p data => exact queuePost_queue hd hex
    | rQueue q =>
        simp only [exec, osRQueue, Option.some.injEq] at hex
        split at hex
        · rename_i hq
          cases hex
          exact .read (Or.inl rfl) hq
        · cases hex
          exact .refused rfl
    | wQueue q data =>
        simp only [exec, osWQueue, Option.some.injEq] at hex
        split at hex
        · rename_i hq
          cases hex
          exact .written (Or.inl rfl) hd hq (.refl _) (Or.inl rfl)
        · cases hex
          exact .refused rfl
    | queueClean q =>
        cases hex
        exact .cleaned
    | _ => exact absurd rfl hc

/-! ### Steps keep the layout -/

theorem QueueLayout.created (hl : QueueLayout s) {q sz : Nat} (hna : ¬ s.Allocated (.queue q))
    (hsz : sz % cfg.sizeofCpuType = 0)
    (hring : ∀ q', t.ring q' = if q' = q then
      ⟨s.iQueueAddress * cfg.sizeofCpuType, s.iQueueAddress * cfg.sizeofCpuType + sz,
        s.iQueueAddress * cfg.sizeofCpuType, s.iQueueAddress * cfg.sizeofCpuType, sz, 0⟩
      else s.ring q')
    (halloc : ∀ q', q' ≠ q → t.Allocated (.queue q') → s.Allocated (.queue q'))
    (haddr : t.iQueueAddress = s.iQueueAddress + sz / cfg.sizeofCpuType) : QueueLayout t := by
  have hend : t.iQueueAddress * cfg.sizeofCpuType = s.iQueueAddress * cfg.sizeofCpuType + sz := by
    rw [haddr, Nat.add_mul, Nat.div_mul_cancel (Nat.dvd_of_mod_eq_zero hsz)]
  refine ⟨fun {q'} ha => ?_, fun {q'} ha => ?_, fun {q'} ha => ?_, fun {q' q''} hne ha ha' => ?_⟩
  · rw [hring]
    split
    · rfl
    · rename_i hq
      exact hl.stop_eq (halloc _ hq ha)
  · rw [hring]
    split
    · exact ⟨Nat.le_refl _, Nat.le_add_right _ _⟩
    · rename_i hq
      exact hl.in_mem (halloc _ hq ha)
  · rw [hring, hend]
    split
    · exact Nat.le_refl _
    · rename_i hq
      exact (hl.used (halloc _ hq ha)).trans (Nat.le_add_right _ _)
  · rw [hring, hring]
    split
    · rename_i hq
      subst hq
      rw [if_neg (Ne.symm hne)]
      exact Or.inr (hl.used (halloc _ (Ne.symm hne) ha'))
    · rename_i hq
      split
      · exact Or.inl (hl.used (halloc _ hq ha))
      · rename_i hq'
        exact hl.disjoint hne (halloc _ hq ha) (halloc _ hq' ha')

theorem QueueEffect.layout (hl : QueueLayout s) {c : Call} {oc : Outcome}
    (he : QueueEffect s c u oc) : QueueLayout u := by
  cases he with
  | quiet hsame => exact hl.same hsame
  | created hfree hsz hlt =>
      rename_i size q sz
      refine hl.created (freeEvent_spec hfree).2 hsz (fun q' => ?_) (fun q' hne ha => ?_) rfl
      · simp only [Kernel.ring, OSQueue.ring, setQueue, allocEvent, setEvent, Function.update_apply]
        split <;> rfl
      · have hne' : Event.queue q' ≠ .queue q := by simpa using hne
        have hev : (Function.update s.event (.queue q) ⟨true, 0, 0⟩ (.queue q')) =
          s.event (.queue q') := Function.update_of_ne hne' _ _
        exact (congrArg EventWait.osEventAllocated hev).symm.trans ha
  | read hc hq => exact hl.getByte _
  | written hc hev hq hsame hoc => exact (hl.putByte _ hq).same hsame
  | cleaned =>
      rename_i q
      refine hl.setQueue (q := q) (f := fun c =>
        { c with osqEntries := 0, osqIn := c.osqStart, osqOut := c.osqStart }) rfl (fun _ => rfl) rfl
        rfl rfl rfl fun ha => ⟨Nat.le_refl _, ?_⟩
      have := hl.stop_eq ha
      exact (Nat.le_add_right _ _).trans (Nat.le_of_eq this.symm)

/-- A queue stays allocated. -/
theorem QueueEffect.allocated {c : Call} {oc : Outcome} (he : QueueEffect s c u oc)
    (ha : s.Allocated (.queue q)) : u.Allocated (.queue q) := by
  cases he with
  | quiet hsame => exact (hsame.allocated q).trans ha
  | created =>
      rename_i size q' sz _ _ _
      have hup : (Function.update s.event (.queue q') ⟨true, 0, 0⟩
          (.queue q)).osEventAllocated = true := by
        rw [Function.update_apply]
        split
        · rfl
        · exact ha
      exact hup
  | read => exact ha
  | written hc hev hq hsame => exact (hsame.allocated q).trans ha
  | cleaned => exact ha

theorem getByte_congr (h : SameQueues s t) (q : Nat) :
    SameQueues (s.getByte q).1 (t.getByte q).1 ∧ (t.getByte q).2 = (s.getByte q).2 := by
  simp only [Kernel.getByte, setQueue, h.osQueueTable, h.queueStack]
  exact ⟨⟨rfl, rfl, h.iQueueAddress, h.allocated⟩, trivial⟩

/-- The rest of a suspended call, as far as queues are concerned. -/
theorem resume_inv {o : Obs} (hstep : s.step .resume = some (t, o)) :
    (SameQueues s t ∧ ∀ q, o.posted q = [] ∧ o.delivered q = []) ∨
    ∃ q p timeWait, s.frame s.currentTask = .pend (.queue q) p timeWait ∧
      ¬ s.TimedOut (.queue q) p timeWait ∧
      SameQueues (s.getByte q).1 t ∧
      o = .returned s.currentTask (.queuePend (some q) timeWait) (s.getByte q).2 := by
  simp only [step, stepResume] at hstep
  split at hstep
  · split at hstep
    · cases hstep
    · cases hstep
      exact Or.inl ⟨⟨rfl, rfl, rfl, fun _ => rfl⟩, fun _ => ⟨rfl, rfl⟩⟩
    · rename_i ev p tw hf
      by_cases hto : s.TimedOut ev p tw
      · rw [pendResume_of_timedOut hto] at hstep
        cases hstep
        refine Or.inl ⟨(leaveWaitList_sameQueues s ev p).trans ⟨rfl, rfl, rfl, fun _ => rfl⟩,
          fun q => ?_⟩
        cases ev <;> exact ⟨rfl, rfl⟩
      · rw [pendResume_of_not_timedOut hto] at hstep
        have hcancel := cancelTimeout_sameQueues s tw
        cases ev with
        | queue q =>
            obtain ⟨hsame, hret⟩ := getByte_congr hcancel q
            cases hstep
            refine Or.inr ⟨q, p, tw, hf, hto, hsame.trans ⟨rfl, rfl, rfl, fun _ => rfl⟩, ?_⟩
            rw [← hret]
            rfl
        | mutex m =>
            cases hstep
            refine Or.inl ⟨?_, fun _ => ⟨rfl, rfl⟩⟩
            have hceiling := takeCeiling_sameQueues (s.cancelTimeout tw) m p
            exact hcancel.trans (hceiling.trans
              ((noteAcquired_sameQueues _ m).trans (setFrame_sameQueues _ _ _)))
        | _ =>
            cases hstep
            exact Or.inl ⟨hcancel.trans ⟨rfl, rfl, rfl, fun _ => rfl⟩, fun _ => ⟨rfl, rfl⟩⟩
  · cases hstep

/-- Start-up and interrupts leave queues alone. -/
theorem step_other_inv {a : Action} {o : Obs} (hcall : ∀ c, a ≠ .call c) (hres : a ≠ .resume)
    (hstep : s.step a = some (t, o)) : SameQueues s t ∧ o = .silent := by
  have hswitch : ∀ {u v : Kernel cfg}, u.changeContext = some v → SameQueues u v := by
    intro u v h
    obtain ⟨task, -, rfl⟩ := changeContext_inv h
    exact ⟨rfl, rfl, rfl, fun _ => rfl⟩
  cases a with
  | call c => exact absurd rfl (hcall c)
  | resume => exact absurd rfl hres
  | brtosStart =>
      simp only [step, Kernel.brtosStart] at hstep
      split at hstep
      · have hinst : SameQueues s (s.osInstallTask true cfg.idleStackSize 0).1 :=
          exec_sameQueues (c := .installTask true cfg.idleStackSize 0) rfl rfl
        split at hstep
        · rename_i v out hv
          rw [hv] at hinst
          obtain ⟨w, hw, h⟩ := Option.map_eq_some_iff.mp hstep
          cases h
          exact ⟨hinst.trans (hswitch hw), rfl⟩
        · rename_i v r hne hv
          rw [hv] at hinst
          cases hstep
          exact ⟨hinst, rfl⟩
      · cases hstep
  | intEnter =>
      simp only [step] at hstep
      split at hstep
      · cases hstep
        exact ⟨⟨rfl, rfl, rfl, fun _ => rfl⟩, rfl⟩
      · cases hstep
  | tick =>
      simp only [step] at hstep
      split at hstep
      · obtain ⟨w, hw, h⟩ := Option.map_eq_some_iff.mp hstep
        cases h
        have hinc : SameQueues s s.osIncCounter := ⟨rfl, rfl, rfl, fun _ => rfl⟩
        exact ⟨hinc.trans (tickLoop_sameQueues hw), rfl⟩
      · cases hstep
  | intExit =>
      simp only [step, osIntExit] at hstep
      split at hstep
      · obtain ⟨w, hw, h⟩ := Option.map_eq_some_iff.mp hstep
        cases h
        have hdec : SameQueues s { s with iNesting := s.iNesting - 1 } :=
          ⟨rfl, rfl, rfl, fun _ => rfl⟩
        split at hw
        · exact ⟨hdec.trans (hswitch hw), rfl⟩
        · cases hw
          exact ⟨hdec, rfl⟩
      · cases hstep

/-- **The layout is kept** by every step whose writes go to created queues. -/
theorem step_layout (hl : QueueLayout s) {a : Action} {o : Obs} (hd : WritesCreated s a)
    (hstep : s.step a = some (t, o)) : QueueLayout t := by
  by_cases hcall : ∃ c, a = .call c
  · obtain ⟨c, rfl⟩ := hcall
    obtain ⟨-, u, oc, hex, ho⟩ := step_call_inv hstep
    have hu := (exec_queue hd hex).layout hl
    rcases ho with ⟨r, -, rfl, -⟩ | ⟨task, -, rfl, -⟩
    · exact hu
    · exact hu.same ⟨rfl, rfl, rfl, fun _ => rfl⟩
  · by_cases hres : a = .resume
    · subst hres
      rcases resume_inv hstep with ⟨hsame, -⟩ | ⟨q, p, tw, -, -, hsame, -⟩
      · exact hl.same hsame
      · exact (hl.getByte q).same hsame
    · exact hl.same (step_other_inv (fun c h => hcall ⟨c, h⟩) hres hstep).1

theorem step_allocated {a : Action} {o : Obs} (hd : WritesCreated s a)
    (hstep : s.step a = some (t, o)) (ha : s.Allocated (.queue q)) : t.Allocated (.queue q) := by
  by_cases hcall : ∃ c, a = .call c
  · obtain ⟨c, rfl⟩ := hcall
    obtain ⟨-, u, oc, hex, ho⟩ := step_call_inv hstep
    have hu := (exec_queue hd hex).allocated ha
    rcases ho with ⟨r, -, rfl, -⟩ | ⟨task, -, rfl, -⟩
    · exact hu
    · exact hu
  · by_cases hres : a = .resume
    · subst hres
      rcases resume_inv hstep with ⟨hsame, -⟩ | ⟨q, p, tw, -, -, hsame, -⟩
      · exact (hsame.allocated _).trans ha
      · exact (hsame.allocated _).trans ha
    · exact ((step_other_inv (fun c h => hcall ⟨c, h⟩) hres hstep).1.allocated _).trans ha

/-! ### Steps and one queue -/

/-- What a call shows that did not read or write a queue. -/
theorem obs_quiet {c : Call} {h : Nat} {r : Ret}
    (hno : c.onQueue = true → r.code.isError = true) :
    (Obs.returned h c r).posted q = [] ∧ (Obs.returned h c r).delivered q = [] := by
  constructor
  · unfold Obs.posted
    split
    · rename_i heq
      cases heq
      have hne : r.code ≠ .writeBufferOk := fun h => by
        have := hno rfl
        rw [h] at this
        cases this
      simp [hne]
    · rfl
  · unfold Obs.delivered
    split
    · rename_i heq
      cases heq
      cases hno rfl
    · rename_i heq
      cases heq
      cases hno rfl
    · rfl

/-- A queue other than the one that is written to or read from. -/
theorem QueueStep.elsewhere (hl : QueueLayout s) {q' : Nat} (hne : q' ≠ q)
    (ha : s.Allocated (.queue q)) {o : Obs} (hring : t.ring q = s.ring q)
    (hmem : t.queueStack = s.queueStack ∨ ∃ data, s.Allocated (.queue q') ∧
      0 < (s.ring q').size ∧
      t.queueStack = Function.update s.queueStack ((s.ring q').wrap (s.ring q').inPos) data)
    (hpost : o.posted q = []) (hdel : o.delivered q = []) : QueueStep q s t o := by
  refine .quiet hring (fun i h1 h2 => ?_) hpost hdel
  rcases hmem with h | ⟨data, ha', hsize, h⟩
  · rw [h]
  · rw [h]
    refine Function.update_of_ne ?_ _ _
    rintro rfl
    obtain ⟨h3, h4⟩ := RingBuffer.wrap_mem (hl.stop_eq ha') hsize (hl.in_mem ha')
    rcases hl.disjoint hne ha' ha with h | h <;> omega

/-- The byte that was read, and what is left. -/
theorem QueueStep.read {o : Obs} (hpos : 0 < (s.osQueueTable q).osqEntries)
    (hsame : SameQueues (s.getByte q).1 t) (hpost : o.posted q = [])
    (hdel : o.delivered q = [s.queueStack ((s.ring q).wrap (s.ring q).outPos)]) :
    QueueStep q s t o := by
  refine .get hpos ?_ hsame.queueStack hpost hdel
  rw [Kernel.ring, hsame.osQueueTable]
  simp only [Kernel.getByte, setQueue, Function.update_self]
  rfl

/-- Reading another queue. -/
theorem getByte_ring {q' : Nat} (hne : q' ≠ q) : (s.getByte q').1.ring q = s.ring q := by
  simp only [Kernel.ring, Kernel.getByte, setQueue, Function.update_of_ne (Ne.symm hne)]

theorem getByte_ret (s : Kernel cfg) (q : Nat) :
    (s.getByte q).2 = ⟨.readBufferOk, .byte (s.queueStack ((s.ring q).wrap (s.ring q).outPos))⟩ :=
  rfl

/-- What the call that read or wrote shows of another queue. -/
theorem obs_elsewhere {c : Call} {q' h : Nat} {r : Ret} (hne : q' ≠ q)
    (hc : c = .rQueue q' ∨ (∃ timeWait, c = .queuePend (some q') timeWait) ∨
      ∃ data, c = .wQueue q' data ∨ c = .queuePost (some q') data) :
    (Obs.returned h c r).posted q = [] ∧ (Obs.returned h c r).delivered q = [] := by
  obtain ⟨code, out⟩ := r
  rcases hc with rfl | ⟨tw, rfl⟩ | ⟨data, rfl | rfl⟩
  · refine ⟨rfl, ?_⟩
    cases code <;> cases out <;> simp [Obs.delivered, hne]
  · refine ⟨rfl, ?_⟩
    cases code <;> cases out <;> simp [Obs.delivered, hne]
  · exact ⟨rfl, rfl⟩
  · exact ⟨by simp [Obs.posted, hne], rfl⟩

/-- The critical section of a call that returned `r`. -/
theorem QueueEffect.queueStep (hl : QueueLayout s) (ha : s.Allocated (.queue q)) {c : Call}
    {oc : Outcome} {r : Ret} {h : Nat} (hu : QueueUse q s (.call c)) (he : QueueEffect s c u oc)
    (hoc : oc = .returned r ∨ oc = .switched r) : QueueStep q s u (.returned h c r) := by
  cases he with
  | quiet hsame hno =>
      -- the call is refused, or is not on a queue
      obtain ⟨h1, h2⟩ := obs_quiet (q := q) (h := h) fun hc => hno hc r hoc
      exact .same hsame h1 h2
  | created hfree hsz hlt =>
      rename_i size q' sz
      -- a queue in use is not handed out again
      have hne : q' ≠ q := by
        rintro rfl
        exact (freeEvent_spec hfree).2 ha
      refine .elsewhere hl hne ha ?_ (Or.inl rfl) rfl rfl
      simp only [Kernel.ring, setQueue, allocEvent, setEvent, Function.update_of_ne (Ne.symm hne)]
  | read hc hq =>
      rename_i q'
      obtain rfl : r = (s.getByte q').2 := by
        rcases hoc with h | h <;> cases h
        rfl
      by_cases hne : q' = q
      · subst hne
        refine .read hq (.refl _) ?_ ?_ <;> rcases hc with rfl | ⟨tw, rfl⟩
        · rfl
        · rfl
        · simp [Obs.delivered, getByte_ret]
        · simp [Obs.delivered, getByte_ret]
      · obtain ⟨h1, h2⟩ : (Obs.returned h c (s.getByte q').2).posted q = [] ∧
            (Obs.returned h c (s.getByte q').2).delivered q = [] := by
          rcases hc with rfl | ⟨tw, rfl⟩
          · exact obs_elsewhere hne (Or.inl rfl)
          · exact obs_elsewhere hne (Or.inr (Or.inl ⟨tw, rfl⟩))
        exact .elsewhere hl hne ha (getByte_ring hne) (Or.inl rfl) h1 h2
  | written hc hev hroom hsame hret =>
      rename_i q' data
      have hcode : r.code = .writeBufferOk := by
        rcases hret with rfl | rfl <;> rcases hoc with h | h <;> cases h <;> rfl
      by_cases hne : q' = q
      · subst hne
        rcases hc with rfl | rfl
        · exact absurd rfl hu
        refine .put (b := data) hroom ?_ ?_ ?_ rfl
        · rw [Kernel.ring, hsame.osQueueTable]
          simp only [Kernel.putByte, setQueue, Function.update_self]
          rfl
        · rw [hsame.queueStack]
          rfl
        · simp [Obs.posted, hcode]
      · obtain ⟨h1, h2⟩ : (Obs.returned h c r).posted q = [] ∧
            (Obs.returned h c r).delivered q = [] := by
          rcases hc with rfl | rfl
          · exact obs_elsewhere hne (Or.inr (Or.inr ⟨data, Or.inl rfl⟩))
          · exact obs_elsewhere hne (Or.inr (Or.inr ⟨data, Or.inr rfl⟩))
        refine .elsewhere hl hne ha ?_ (Or.inr ⟨data, hev, Nat.zero_lt_of_lt hroom, ?_⟩) h1 h2
        · rw [Kernel.ring, hsame.osQueueTable]
          simp only [Kernel.putByte, setQueue, Function.update_of_ne (Ne.symm hne)]
        · rw [hsame.queueStack]
          rfl
  | cleaned =>
      rename_i q'
      refine .elsewhere hl hu ha ?_ (Or.inl rfl) rfl rfl
      simp only [Kernel.ring, setQueue, Function.update_of_ne (Ne.symm hu)]

theorem QueueStep.setCurrent {o : Obs} {task : Nat} (h : QueueStep q s t o) :
    QueueStep q s { t with currentTask := task } o := by
  cases h with
  | quiet hring hmem hpost hdel => exact .quiet hring hmem hpost hdel
  | put hroom hring hmem hpost hdel => exact .put hroom hring hmem hpost hdel
  | get hpos hring hmem hpost hdel => exact .get hpos hring hmem hpost hdel

/-- A suspended call shows nothing and moves no byte. -/
theorem QueueEffect.suspended {c : Call} (he : QueueEffect s c u .suspended) : SameQueues s u := by
  generalize hoc : Outcome.suspended = oc at he
  cases he with
  | quiet hsame => exact hsame
  | created => cases hoc
  | read => cases hoc
  | written hc hev hroom hsame hret => rcases hret with rfl | rfl <;> cases hoc
  | cleaned => cases hoc

/-- **What a step does to a queue**: nothing, or one byte in, or one byte out. -/
theorem step_queue (hl : QueueLayout s) (ha : s.Allocated (.queue q)) {a : Action} {o : Obs}
    (hd : WritesCreated s a) (hu : QueueUse q s a) (hstep : s.step a = some (t, o)) :
    QueueStep q s t o := by
  by_cases hcall : ∃ c, a = .call c
  · obtain ⟨c, rfl⟩ := hcall
    obtain ⟨-, u, oc, hex, ho⟩ := step_call_inv hstep
    have he := exec_queue hd hex
    rcases ho with ⟨r, hoc, rfl, rfl⟩ | ⟨task, -, rfl, ⟨r, hoc, rfl⟩ | ⟨rfl, rfl⟩⟩
    · exact he.queueStep hl ha hu (Or.inl hoc)
    · exact (he.queueStep hl ha hu (Or.inr hoc)).setCurrent
    · exact (QueueStep.same he.suspended rfl rfl).setCurrent
  · by_cases hres : a = .resume
    · subst hres
      rcases resume_inv hstep with ⟨hsame, hno⟩ | ⟨q', p, tw, hf, hto, hsame, rfl⟩
      · exact .same hsame (hno q).1 (hno q).2
      · by_cases hne : q' = q
        · subst hne
          -- here the code does not look; the guard says there is something
          have hpos : 0 < (s.osQueueTable q').osqEntries := by
            refine Nat.pos_of_ne_zero fun h0 => hu ?_
            simp only [WokenOnEmpty, hf]
            exact ⟨trivial, hto, h0⟩
          refine .read hpos hsame rfl ?_
          simp [Obs.delivered, getByte_ret]
        · obtain ⟨h1, h2⟩ := obs_elsewhere (h := s.currentTask) (r := (s.getByte q').2) hne
            (Or.inr (Or.inl ⟨tw, rfl⟩))
          refine .elsewhere hl hne ha ?_ (Or.inl hsame.queueStack) h1 h2
          rw [Kernel.ring, hsame.osQueueTable]
          exact getByte_ring hne
    · obtain ⟨hsame, rfl⟩ := step_other_inv (fun c h => hcall ⟨c, h⟩) hres hstep
      exact .same hsame rfl rfl

/-! ### Exactly-once delivery -/

/-- The bytes posted are the bytes delivered and, after them, the bytes in the buffer. -/
structure Delivery (q : Nat) (s : Kernel cfg) (sent got xs : List UInt8) : Prop where
  holds : RingBuffer.IsRing s.queueStack (s.ring q) xs
  size_lt : (s.ring q).size < 65536
  sent_eq : sent = got ++ xs

theorem Delivery.step {o : Obs} {sent got xs : List UInt8} (hi : Delivery q s sent got xs)
    (hs : QueueStep q s t o) :
    ∃ ys, Delivery q t (sent ++ o.posted q) (got ++ o.delivered q) ys := by
  cases hs with
  | quiet hring hmem hpost hdel =>
      rw [hpost, hdel, List.append_nil, List.append_nil]
      refine ⟨xs, ?_, by rw [hring]; exact hi.size_lt, hi.sent_eq⟩
      rw [hring]
      exact hi.holds.congr hmem
  | put hroom hring hmem hpost hdel =>
      rename_i data
      refine ⟨xs ++ [data], ?_, by rw [hring]; exact hi.size_lt, ?_⟩
      · rw [hring, hmem]
        exact hi.holds.put hroom data
      · rw [hpost, hdel, hi.sent_eq, List.append_nil, List.append_assoc]
  | get hpos hring hmem hpost hdel =>
      cases xs with
      | nil =>
          have := hi.holds.entries_eq_zero.mpr rfl
          omega
      | cons x xs =>
          obtain ⟨hx, hrest⟩ := hi.holds.get
          have hle := hi.holds.le_size
          have hlt := hi.size_lt
          have hent : ((s.ring q).entries + 65535) % 65536 = (s.ring q).entries - 1 := by
            omega
          refine ⟨xs, ?_, by rw [hring]; exact hi.size_lt, ?_⟩
          · rw [hring, hmem, hent]
            exact hrest
          · rw [hpost, hdel, hx, hi.sent_eq]
            simp

/-- `OSQueueCreate` makes an empty buffer of its own. -/
theorem queueCreate_spec (hl : QueueLayout s) {size : UInt16}
    (hcreate : s.step (.call (.queueCreate size)) =
      some (t, .returned s.caller (.queueCreate size) ⟨.allocEventOk, .event (.queue q)⟩)) :
    QueueLayout t ∧ t.Allocated (.queue q) ∧ Delivery q t [] [] [] := by
  have hlt := step_layout hl (a := .call (.queueCreate size)) trivial hcreate
  obtain ⟨-, u, oc, hex, ho⟩ := step_call_inv hcreate
  have he : QueueEffect s (.queueCreate size) u oc := queueCreate_queue hex
  generalize hc : Call.queueCreate size = c at he ho
  cases he with
  | quiet hsame hno =>
      rcases ho with ⟨r, hoc, rfl, ho⟩ | ⟨task, -, rfl, ⟨r, hoc, ho⟩ | ⟨hoc, ho⟩⟩
      · cases ho
        cases hno (hc ▸ rfl) _ (Or.inl hoc)
      · cases ho
        cases hno (hc ▸ rfl) _ (Or.inr hoc)
      · cases ho
  | created hfree hsz hszlt =>
      rename_i size' q' sz
      rcases ho with ⟨r, hoc, rfl, ho⟩ | ⟨task, -, rfl, ⟨r, hoc, ho⟩ | ⟨hoc, ho⟩⟩
      · cases hoc
        cases ho
        refine ⟨hlt, ?_, ?_⟩
        · have hev : (Function.update s.event (.queue q) ⟨true, 0, 0⟩ (.queue q)).osEventAllocated
            = true := by rw [Function.update_self]
          exact hev
        · have hring : ∀ v : Kernel cfg, v.osQueueTable = Function.update s.osQueueTable q
              ⟨s.iQueueAddress * cfg.sizeofCpuType, s.iQueueAddress * cfg.sizeofCpuType + sz,
              s.iQueueAddress * cfg.sizeofCpuType, s.iQueueAddress * cfg.sizeofCpuType, sz, 0⟩ →
              v.ring q = ⟨s.iQueueAddress * cfg.sizeofCpuType,
                s.iQueueAddress * cfg.sizeofCpuType + sz, s.iQueueAddress * cfg.sizeofCpuType,
                s.iQueueAddress * cfg.sizeofCpuType, sz, 0⟩ := by
            intro v hv
            rw [Kernel.ring, hv, Function.update_self]
            rfl
          refine ⟨?_, ?_, rfl⟩
          · rw [hring _ rfl]
            exact RingBuffer.isRing_nil _ _ _
          · rw [hring _ rfl]
            exact hszlt
      · cases hoc
      · cases hoc
  | read hc' => rcases hc' with rfl | ⟨tw, rfl⟩ <;> cases hc
  | written hc' => rcases hc' with rfl | rfl <;> cases hc
  | cleaned => cases hc

/-- Nothing is allocated yet. -/
theorem queueLayout_init : QueueLayout (Kernel.init cfg) := by
  have hno : ∀ q, ¬ (Kernel.init cfg).Allocated (.queue q) := fun q h => by cases h
  exact ⟨fun h => absurd h (hno _), fun h => absurd h (hno _), fun h => absurd h (hno _),
    fun _ h => absurd h (hno _)⟩

/-- **Exactly-once delivery.** From the creation of a queue on, and as long as no woken
waiter continues its pend while the queue is empty: the bytes delivered are, in order,
the first of the bytes whose post succeeded, and `OSQEntries` counts the rest. -/
theorem queue_exactly_once {tr tr' : Trace} {n : UInt16}
    (hr : RunFromInit WritesCreated tr s)
    (hcreate : s.step (.call (.queueCreate n)) =
      some (t, .returned s.caller (.queueCreate n) ⟨.allocEventOk, .event (.queue q)⟩))
    (hrun : Run Kernel.step (fun v a => WritesCreated v a ∧ QueueUse q v a) t tr' u) :
    delivered q tr' <+: posted q tr' ∧
      (u.osQueueTable q).osqEntries + (delivered q tr').length = (posted q tr').length := by
  have hl : QueueLayout s := hr.invariant queueLayout_init fun v a w o hv hd hstep =>
    step_layout hv hd hstep
  obtain ⟨-, -, xs, hxs⟩ : QueueLayout u ∧ u.Allocated (.queue q) ∧
      ∃ xs, Delivery q u (posted q tr') (delivered q tr') xs := by
    refine hrun.induction_on (P := fun tr v => QueueLayout v ∧ v.Allocated (.queue q) ∧
      ∃ xs, Delivery q v (posted q tr) (delivered q tr) xs) ?_ ?_
    · obtain ⟨h1, h2, h3⟩ := queueCreate_spec hl hcreate
      exact ⟨h1, h2, [], h3⟩
    · rintro tr v a w o - ⟨hlv, hav, xs, hxs⟩ ⟨hd, huse⟩ hstep
      rw [posted_snoc, delivered_snoc]
      exact ⟨step_layout hlv hd hstep, step_allocated hd hstep hav,
        hxs.step (step_queue hlv hav hd huse hstep)⟩
  refine ⟨⟨xs, hxs.sent_eq.symm⟩, ?_⟩
  have hlen := hxs.holds.length
  have hent : (u.osQueueTable q).osqEntries = xs.length := hlen.symm
  rw [hent, hxs.sent_eq, List.length_append]
  omega

/-- `main` installs tasks 1 and 2, with priorities 2 and 3. -/
def queueUsers : List Action :=
  [.call (.installTask false 256 2), .call (.installTask false 256 3)]

/-- Task 2 sleeps, task 1 waits on the empty queue and an interrupt posts a byte to it,
at the tick that ends the sleep. Both tasks are ready now, and task 2 runs first. -/
def postToWaiter : List Action :=
  [.brtosStart, .call (.delayTask 1), .call (.queuePend (some 0) 0), .intEnter, .tick,
    .call (.queuePost (some 0) 7), .intExit, .resume]

/-- Task 2 sleeps again and the waiter gets its byte. -/
def waiterReads : List Action := [.call (.delayTask 5), .resume]

/-- Task 2 finds the byte first; then the waiter continues. -/
def waiterLate : List Action :=
  [.call (.queuePend (some 0) 0), .call (.delayTask 5), .resume]

set_option maxRecDepth 20000 in
theorem queue_exactly_once_waiter :
    let s := Run.after Kernel.step (Kernel.init Config.exampleConfig) queueUsers
    let t := Run.after Kernel.step s [.call (.queueCreate 4)]
    let tr := Run.traceOf Kernel.step t (postToWaiter ++ waiterReads)
    let u := Run.after Kernel.step t (postToWaiter ++ waiterReads)
    delivered 0 tr = [7] ∧ delivered 0 tr <+: posted 0 tr ∧
      (u.osQueueTable 0).osqEntries + (delivered 0 tr).length = (posted 0 tr).length :=
  ⟨by decide +kernel, queue_exactly_once (n := 4) (Run.of_admits (by decide +kernel))
    (Run.step_of_traceOf (by decide +kernel)) (Run.of_admits (by decide +kernel))⟩

set_option maxRecDepth 20000 in
/-- The waiter was woken for a byte that task 2 took. It fetches the byte that the buffer
held before, which nobody posted, and `OSQEntries` wraps around. Everything the calls
expect of their callers is met. -/
theorem stolen_byte_wraps_entries :
    let s := Run.after Kernel.step (Kernel.init Config.exampleConfig) queueUsers
    let t := Run.after Kernel.step s [.call (.queueCreate 4)]
    let tr := Run.traceOf Kernel.step t (postToWaiter ++ waiterLate)
    let u := Run.after Kernel.step t (postToWaiter ++ waiterLate)
    RunFromInit (Disciplined NestedRelease) (Run.traceOf Kernel.step
        (Kernel.init Config.exampleConfig) (queueUsers ++ [.call (.queueCreate 4)] ++
        (postToWaiter ++ waiterLate)))
      (Run.after Kernel.step (Kernel.init Config.exampleConfig) (queueUsers ++
        [.call (.queueCreate 4)] ++ (postToWaiter ++ waiterLate))) ∧
    s.step (.call (.queueCreate 4)) = some (t, .returned s.caller (.queueCreate 4)
      ⟨.allocEventOk, .event (.queue 0)⟩) ∧
    Run Kernel.step (Disciplined NestedRelease) t tr u ∧
    posted 0 tr = [7] ∧ delivered 0 tr = [7, 0] ∧ (u.osQueueTable 0).osqEntries = 65535 := by
  refine ⟨Run.of_admits ?_, Run.step_of_traceOf ?_, Run.of_admits ?_, ?_, ?_, ?_⟩ <;>
    decide +kernel

end Brtos
