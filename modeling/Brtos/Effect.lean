import Brtos.Discipline

/-!
# Brtos.Effect

**What a disciplined action can do**, said once.

`Effect` lists every way the critical section of a call can end, with the guard
under which it does and the state it leaves; `Move` adds the actions that are not
calls and the context switch at the end of a call. `Brtos.Inversion` proves that
the machine takes no other steps, so that an invariant is proved by cases on these
two relations and never by unfolding a kernel function.

The guards of a constructor are the tests the code made plus what the discipline
adds to them (the control block is allocated, the timeout is at most one counter
period, the release obeys the rule).
-/

namespace Brtos

open Bits Kernel

variable {cfg : Config}

/-- The return codes of calls that did not do what they were asked for. -/
def RetCode.isError : RetCode → Bool
  | .ok | .allocEventOk | .deleteEventOk | .readBufferOk | .writeBufferOk | .cleanBufferOk => false
  | _ => true

/-- The block and unblock calls. -/
def Call.isBlock : Call → Bool
  | .blockPriority _ | .unBlockPriority _ | .blockTask _ | .unBlockTask _
  | .blockMultipleTask .. | .unBlockMultipleTask .. => true
  | _ => false

/-- The object a post or a release signals. -/
def Call.signals : Call → Option Event
  | .semPost (some e) => some (.sem e)
  | .mboxPost (some e) _ => some (.mbox e)
  | .queuePost (some q) _ => some (.queue q)
  | .mutexRelease (some m) => some (.mutex m)
  | _ => none

/-- The post or release is not turned away: the queue has room for the byte, the
mutex is the caller's. -/
def Kernel.Accepts (s : Kernel cfg) : Call → Prop
  | .queuePost (some q) _ => (s.osQueueTable q).osqEntries < (s.osQueueTable q).osqSize
  | .mutexRelease (some m) => (s.mutexTable m).osEventOwner = s.caller
  | _ => True

instance (s : Kernel cfg) (c : Call) : Decidable (s.Accepts c) := by
  unfold Kernel.Accepts
  split <;> infer_instance

/-- A pend on `ev` finds nothing to take. -/
def Kernel.Unavailable (s : Kernel cfg) : Event → Prop
  | .sem e => (s.semTable e).osEventCount = 0
  | .mbox e => (s.mboxTable e).osEventState ≠ .availableMessage
  | .queue q => (s.osQueueTable q).osqEntries = 0
  | .mutex m => s.currentTask ≠ (s.mutexTable m).osEventOwner ∧
      (s.mutexTable m).osEventState ≠ .availableResource

/-- `OSInstallTask` accepts the stack size and finds the memory. -/
def Kernel.StackFits (s : Kernel cfg) (userStackedBytes : Nat) : Prop :=
  let bytes := userStackedBytes - userStackedBytes % cfg.sizeofCpuType
  cfg.numberMinOfStackedBytes ≤ bytes ∧
    if cfg.dynamicTasksEnabled then (cfg.mem.alloc s.heap bytes).1 ≠ none
    else s.iStackAddress + bytes / cfg.sizeofCpuType ≤ cfg.heapSize / cfg.sizeofCpuType

instance (s : Kernel cfg) (bytes : Nat) : Decidable (s.StackFits bytes) :=
  inferInstanceAs (Decidable (_ ∧ _))

/-- The waiterless end of a release: the mutex is free and its ceiling nobody's. -/
def Kernel.freeMutex (s : Kernel cfg) (m : Nat) : Kernel cfg :=
  let s := s.setMutex m fun c => { c with osEventState := .availableResource }
  let maxPriority := (s.mutexTable m).osMaxPriority
  if 0 < maxPriority then s.setPriorityVector maxPriority mutexPrio else s

/-- The other end of a release: the best waiter becomes the owner and ready. -/
def Kernel.handOff (s : Kernel cfg) (m : Nat) : Kernel cfg :=
  let iPriority := saScheduler (s.event (.mutex m)).osEventWaitList
  let s := s.leaveWaitList (.mutex m) iPriority
  let s := s.setMutex m fun c => { c with osEventOwner := s.priorityVector iPriority }
  s.setReady iPriority

/-- The owner gives the mutex up: its priority and the owner field. -/
def Kernel.giveUp (s : Kernel cfg) (m : Nat) : Kernel cfg :=
  ((s.restorePriority m).setMutex m fun c => { c with osEventOwner := 0 }).noteReleased m

/-- The uncontended acquire. -/
def Kernel.takeMutex (s : Kernel cfg) (m : Nat) : Kernel cfg :=
  let iPriority := s.prio s.currentTask
  let s := s.setMutex m fun c =>
    { c with osEventState := .busyResource, osEventOwner := s.currentTask }
  (s.takeCeiling m iPriority).noteAcquired m

/-- The caller enters the delay list. -/
def Kernel.startDelay (s : Kernel cfg) (timeWait : Nat) : Kernel cfg :=
  let task := s.currentTask
  let s := s.setTimeToWait task (deadline cfg s.osTickCounter timeWait)
  let s := s.includeTaskIntoDelayList task
  let s := s.clearReady (s.prio task)
  s.setFrame task (.delay timeWait)

/-- How the critical section of a disciplined call can end. -/
inductive Effect (rule : Kernel cfg → Nat → Prop) (s : Kernel cfg) :
    Call → Kernel cfg → Outcome → Prop
  /-- The call changes nothing and says so. -/
  | refused {c : Call} {r : Ret} (hr : r.code.isError = true) :
      Effect rule s c s (.returned r)
  /-- An install failed after `BRTOS_ALLOC` was called. -/
  | installFailed {isIdle : Bool} {bytes p : Nat} {heap : cfg.mem.Heap} {r : Ret}
      (hr : r.code.isError = true) :
      Effect rule s (.installTask isIdle bytes p) { s with heap := heap } (.returned r)
  | installed {bytes p i stackInit stackSize a b : Nat} {heap : cfg.mem.Heap}
      (hwho : s.inMain ∨ s.inTask) (hp : 0 < p) (hle : p ≤ cfg.configMaxTaskPriority)
      (hpv : s.priorityVector p = emptyPrio) (hi : s.freeTcb = some i) (hfit : s.StackFits bytes) :
      Effect rule s (.installTask false bytes p)
        { s.fillTcb i p stackInit stackSize with
          heap := heap, iStackAddress := a, stackAddress := b }
        (.returned ⟨.ok, .handle (i + 1)⟩)
  /-- The uninstall of a ready task. -/
  | uninstalled {taskTimer : Option Nat} {h task : Nat} {off : Bool} (htask : task = if h = 0 then s.currentTask else h)
      (hwho : s.inMain ∨ s.inTask) (hinst : s.Installed task) (hp : s.prio task ≠ 0)
      (hf : (s.frame task).isPend = false) (hown : s.OwnsNone task) (hr : s.prio task ∈ s.ready) :
      Effect rule s (.uninstallTask h off taskTimer) ((s.clearReady (s.prio task)).clearTcb task)
        (s.uninstallOutcome task)
  /-- The uninstall of a task that is not ready. -/
  | uninstalledDelayed {taskTimer : Option Nat} {h task : Nat} {found : Bool}
      (htask : task = if h = 0 then s.currentTask else h)
      (hwho : s.inMain ∨ s.inTask) (hinst : s.Installed task) (hp : s.prio task ≠ 0)
      (hf : (s.frame task).isPend = false) (hown : s.OwnsNone task) (hr : s.prio task ∉ s.ready)
      (hs : s.searchDelayList task (walkFuel cfg) s.delayList.head = some found) :
      Effect rule s (.uninstallTask h true taskTimer)
        ((if found then s.removeFromDelayList task else s).clearTcb task)
        (s.uninstallOutcome task)
  | delayed {timeWait : Nat} (hwho : s.inTask) (htw : timeWait ≠ 0) :
      Effect rule s (.delayTask timeWait) (s.startDelay timeWait) .suspended
  /-- A block or unblock call, which writes `OSBlockedList` only. -/
  | blocked {c : Call} {b : BitVec cfg.prioBits} {oc : Outcome} (hc : c.isBlock = true)
      (hd : c.Disciplined rule s) (hex : s.exec c = some ({ s with osBlockedList := b }, oc))
      (hoc : oc = .returned RetCode.ok.ret ∨ (oc = .switched RetCode.ok.ret ∧ s.inTask)) :
      Effect rule s c { s with osBlockedList := b } oc
  /-- A pend finds nothing and waits. -/
  | waited {ev : Event} {timeWait : Nat} (hwho : s.inTask) (hev : s.Allocated ev)
      (htw : timeWait ≤ cfg.tickCountOverflow) (hun : s.Unavailable ev) :
      Effect rule s (Frame.pend ev 0 timeWait).call (s.waitEvent ev timeWait) .suspended
  | semCreated {c : Call} {e count : Nat} {binary : Bool}
      (hc : (∃ cnt : UInt8, c = .semCreate cnt ∧ count = cnt.toNat ∧ binary = false) ∨
        (∃ bit : UInt8, c = .semBinaryCreate bit ∧ count ≤ 1 ∧ binary = true))
      (hfree : s.freeEvent .sem cfg.brtosMaxSem = some e) :
      Effect rule s c ((s.allocEvent (.sem e)).setSem e fun _ => ⟨count, binary⟩)
        (.returned ⟨.allocEventOk, .event (.sem e)⟩)
  | semDeleted {e : Nat} (hno : s.waiting (.sem e) = ∅) :
      Effect rule s (.semDelete (some e))
        ((s.deleteEvent (.sem e)).setSem e fun c => { c with osEventCount := 0 })
        (.returned RetCode.deleteEventOk.ret)
  | semTaken {e timeWait : Nat} (hwho : s.inTask) (hev : s.Allocated (.sem e))
      (hcount : 0 < (s.semTable e).osEventCount) :
      Effect rule s (.semPend (some e) timeWait)
        (s.setSem e fun c => { c with osEventCount := c.osEventCount - 1 })
        (.returned RetCode.ok.ret)
  | semSelected {e : Nat} (hev : s.Allocated (.sem e))
      (hw : (s.event (.sem e)).osEventWait ≠ 0) :
      Effect rule s (.semPost (some e)) (s.wakeWaiter (.sem e)) (s.afterWake RetCode.ok.ret)
  | semGiven {e : Nat} (hev : s.Allocated (.sem e)) (hw : (s.event (.sem e)).osEventWait = 0)
      (hcount : (s.semTable e).osEventCount < 255) :
      Effect rule s (.semPost (some e))
        (s.setSem e fun c =>
          { c with osEventCount := if c.binary = false then c.osEventCount + 1 else 1 })
        (.returned RetCode.ok.ret)
  | mboxCreated {message e : Nat} (hfree : s.freeEvent .mbox cfg.brtosMaxMbox = some e) :
      Effect rule s (.mboxCreate message)
        ((s.allocEvent (.mbox e)).setMbox e fun _ =>
          ⟨if message ≠ 0 then .availableMessage else .noMessage, message⟩)
        (.returned ⟨.allocEventOk, .event (.mbox e)⟩)
  | mboxDeleted {e : Nat} (hno : s.waiting (.mbox e) = ∅) :
      Effect rule s (.mboxDelete (some e))
        ((s.deleteEvent (.mbox e)).setMbox e fun _ => ⟨.noMessage, 0⟩)
        (.returned RetCode.deleteEventOk.ret)
  | mboxTaken {e timeWait : Nat} (hwho : s.inTask) (hev : s.Allocated (.mbox e))
      (hst : (s.mboxTable e).osEventState = .availableMessage) :
      Effect rule s (.mboxPend (some e) timeWait) (s.takeMessage e).1
        (.returned (s.takeMessage e).2)
  | mboxSelected {e message : Nat} (hev : s.Allocated (.mbox e))
      (hw : (s.event (.mbox e)).osEventWait ≠ 0) :
      Effect rule s (.mboxPost (some e) message)
        ((s.wakeWaiter (.mbox e)).setMbox e fun _ => ⟨.availableMessage, message⟩)
        (s.afterWake RetCode.ok.ret)
  | mboxStored {e message : Nat} (hev : s.Allocated (.mbox e))
      (hw : (s.event (.mbox e)).osEventWait = 0) :
      Effect rule s (.mboxPost (some e) message)
        (s.setMbox e fun _ => ⟨.availableMessage, message⟩) (.returned RetCode.ok.ret)
  | queueCreated {size : UInt16} {q sz : Nat}
      (hfree : s.freeEvent .queue cfg.brtosMaxQueue = some q)
      (hsz : sz % cfg.sizeofCpuType = 0)
      (hfit : s.iQueueAddress + sz / cfg.sizeofCpuType ≤ cfg.queueHeapSize / cfg.sizeofCpuType) :
      Effect rule s (.queueCreate size)
        { (s.allocEvent (.queue q)).setQueue q fun _ =>
            ⟨s.iQueueAddress * cfg.sizeofCpuType, s.iQueueAddress * cfg.sizeofCpuType + sz,
              s.iQueueAddress * cfg.sizeofCpuType, s.iQueueAddress * cfg.sizeofCpuType, sz, 0⟩ with
          iQueueAddress := s.iQueueAddress + sz / cfg.sizeofCpuType }
        (.returned ⟨.allocEventOk, .event (.queue q)⟩)
  /-- `OSRQueue`, or a pend that finds a byte. -/
  | queueRead {c : Call} {q : Nat} (hc : c = .rQueue q ∨ ∃ timeWait, c = .queuePend (some q) timeWait)
      (hev : s.Allocated (.queue q)) (hq : 0 < (s.osQueueTable q).osqEntries) :
      Effect rule s c (s.getByte q).1 (.returned (s.getByte q).2)
  /-- `OSWQueue`, or a post that finds no waiter. -/
  | queueWritten {c : Call} {q : Nat} {data : UInt8}
      (hc : c = .wQueue q data ∨
        (c = .queuePost (some q) data ∧ (s.event (.queue q)).osEventWait = 0))
      (hev : s.Allocated (.queue q))
      (hq : (s.osQueueTable q).osqEntries < (s.osQueueTable q).osqSize) :
      Effect rule s c (s.putByte q data) (.returned RetCode.writeBufferOk.ret)
  | queueSelected {q : Nat} {data : UInt8} (hev : s.Allocated (.queue q))
      (hq : (s.osQueueTable q).osqEntries < (s.osQueueTable q).osqSize)
      (hw : (s.event (.queue q)).osEventWait ≠ 0) :
      Effect rule s (.queuePost (some q) data) ((s.putByte q data).wakeWaiter (.queue q))
        (s.afterWake RetCode.writeBufferOk.ret)
  | queueCleaned {q : Nat} (hev : s.Allocated (.queue q)) :
      Effect rule s (.queueClean q)
        (s.setQueue q fun c => { c with osqEntries := 0, osqIn := c.osqStart, osqOut := c.osqStart })
        (.returned RetCode.cleanBufferOk.ret)
  /-- `OSMutexCreate` claimed the ceiling and then found no control block. -/
  | mutexReserved {p : Nat} (hp : 0 < p) (hle : p ≤ cfg.configMaxTaskPriority)
      (hpv : s.priorityVector p = emptyPrio) :
      Effect rule s (.mutexCreate p) (s.setPriorityVector p mutexPrio)
        (.returned RetCode.noAvailableEvent.ret)
  | mutexCreated {p m : Nat} (hle : p ≤ cfg.configMaxTaskPriority)
      (hpv : 0 < p → s.priorityVector p = emptyPrio)
      (hfree : s.freeEvent .mutex cfg.brtosMaxMutex = some m) :
      Effect rule s (.mutexCreate p)
        (((if 0 < p then s.setPriorityVector p mutexPrio else s).allocEvent (.mutex m)).setMutex m
          fun c => { c with osEventState := .availableResource, osMaxPriority := p })
        (.returned ⟨.allocEventOk, .event (.mutex m)⟩)
  | mutexDeleted {m : Nat} (hfree : (s.mutexTable m).osEventOwner = 0) :
      Effect rule s (.mutexDelete (some m))
        ((s.deleteEvent (.mutex m)).setMutex m fun _ => ⟨.zero, 0, 0, 0⟩)
        (.returned RetCode.deleteEventOk.ret)
  /-- The owner acquires its mutex again. -/
  | reacquired {m timeWait : Nat} (hwho : s.inTask) (hev : s.Allocated (.mutex m))
      (hown : (s.mutexTable m).osEventOwner = s.currentTask) :
      Effect rule s (.mutexAcquire (some m) timeWait) s (.returned RetCode.ok.ret)
  | acquired {m timeWait : Nat} (hwho : s.inTask) (hev : s.Allocated (.mutex m))
      (hown : (s.mutexTable m).osEventOwner ≠ s.currentTask)
      (hst : (s.mutexTable m).osEventState = .availableResource) :
      Effect rule s (.mutexAcquire (some m) timeWait) (s.takeMutex m) (.returned RetCode.ok.ret)
  /-- A release with no waiter. -/
  | released {m : Nat} (hwho : s.inTask) (hev : s.Allocated (.mutex m))
      (hown : (s.mutexTable m).osEventOwner = s.currentTask) (hrule : rule s m)
      (hw : (s.event (.mutex m)).osEventWait = 0) :
      Effect rule s (.mutexRelease (some m)) ((s.giveUp m).freeMutex m)
        (.returned RetCode.ok.ret)
  /-- A release with waiters. -/
  | handedOff {m : Nat} (hwho : s.inTask) (hev : s.Allocated (.mutex m))
      (hown : (s.mutexTable m).osEventOwner = s.currentTask) (hrule : rule s m)
      (hw : (s.event (.mutex m)).osEventWait ≠ 0) :
      Effect rule s (.mutexRelease (some m)) ((s.giveUp m).handOff m)
        (.switched RetCode.ok.ret)

/-- What a woken task does about its timeout: if that has not expired, it leaves
the delay list. -/
def Kernel.cancelTimeout (s : Kernel cfg) (timeWait : Nat) : Kernel cfg :=
  if timeWait ≠ 0 ∧ (s.contextTask s.currentTask).timeToWait ≠ cfg.exitByTimeout then
    (s.setTimeToWait s.currentTask cfg.noTimeout).removeFromDelayList s.currentTask
  else s

/-- What a woken task takes, and what its pend returns. -/
def Kernel.finishPend (s : Kernel cfg) (ev : Event) (iPriority : Nat) : Kernel cfg × Ret :=
  match ev with
  | .sem _ => (s, RetCode.ok.ret)
  | .mbox e => s.takeMessage e
  | .queue q => s.getByte q
  | .mutex m => ((s.takeCeiling m iPriority).noteAcquired m, RetCode.ok.ret)

/-- What a pend returns that timed out. -/
def Event.timeoutRet : Event → Ret
  | .sem _ => RetCode.timeout.ret
  | .mbox _ => ⟨.timeout, .message 0⟩
  | .queue _ => RetCode.timeout.ret
  | .mutex _ => RetCode.exitByNoResourceAvailable.ret

/-- The timeout of the running task's pend ended the wait. -/
def Kernel.TimedOut (s : Kernel cfg) (ev : Event) (iPriority timeWait : Nat) : Prop :=
  timeWait ≠ 0 ∧ (s.contextTask s.currentTask).timeToWait = cfg.exitByTimeout ∧
    iPriority ∈ s.waiting ev

instance (s : Kernel cfg) (ev : Event) (iPriority timeWait : Nat) :
    Decidable (s.TimedOut ev iPriority timeWait) :=
  inferInstanceAs (Decidable (_ ∧ _ ∧ _))

/-- How the machine can move under the discipline. -/
inductive Move (rule : Kernel cfg → Nat → Prop) (s : Kernel cfg) :
    Action → Kernel cfg → Obs → Prop
  | returned {c : Call} {t : Kernel cfg} {r : Ret} (ha : c.allowed s = true)
      (he : Effect rule s c t (.returned r)) :
      Move rule s (.call c) t (.returned s.caller c r)
  | switched {c : Call} {u : Kernel cfg} {r : Ret} {h : Nat} (ha : c.allowed s = true)
      (he : Effect rule s c u (.switched r)) (hs : u.osSchedule = some h) :
      Move rule s (.call c) { u with currentTask := h } (.returned s.caller c r)
  | suspended {c : Call} {u : Kernel cfg} {h : Nat} (ha : c.allowed s = true)
      (he : Effect rule s c u .suspended) (hs : u.osSchedule = some h) :
      Move rule s (.call c) { u with currentTask := h } (.suspended s.caller c)
  | startFailed {heap : cfg.mem.Heap} (hmain : s.inMain = true) :
      Move rule s .brtosStart { s with heap := heap } .silent
  | started {i stackInit stackSize a b h : Nat} {heap : cfg.mem.Heap} {u : Kernel cfg}
      (hmain : s.inMain = true) (hi : s.freeTcb = some i)
      (hu : u = { s.fillTcb i 0 stackInit stackSize with
        heap := heap, iStackAddress := a, stackAddress := b })
      (hs : u.osSchedule = some h) :
      Move rule s .brtosStart { u with currentTask := h } .silent
  | delayEnded {timeWait : Nat} (hcur : s.currentTask ≠ 0) (hnest : s.iNesting = 0)
      (hf : s.frame s.currentTask = .delay timeWait) :
      Move rule s .resume (s.setFrame s.currentTask .user)
        (.returned s.currentTask (.delayTask timeWait) RetCode.ok.ret)
  | timedOut {ev : Event} {p timeWait : Nat} (hcur : s.currentTask ≠ 0) (hnest : s.iNesting = 0)
      (hf : s.frame s.currentTask = .pend ev p timeWait) (ht : s.TimedOut ev p timeWait) :
      Move rule s .resume ((s.leaveWaitList ev p).setFrame s.currentTask .user)
        (.returned s.currentTask (Frame.pend ev p timeWait).call ev.timeoutRet)
  | woken {ev : Event} {p timeWait : Nat} (hcur : s.currentTask ≠ 0) (hnest : s.iNesting = 0)
      (hf : s.frame s.currentTask = .pend ev p timeWait) (ht : ¬ s.TimedOut ev p timeWait) :
      Move rule s .resume
        (((s.cancelTimeout timeWait).finishPend ev p).1.setFrame s.currentTask .user)
        (.returned s.currentTask (Frame.pend ev p timeWait).call
          ((s.cancelTimeout timeWait).finishPend ev p).2)
  | intEnter (hcur : s.currentTask ≠ 0) :
      Move rule s .intEnter { s with iNesting := s.iNesting + 1 } .silent
  | tick {t : Kernel cfg} (hnest : 0 < s.iNesting) (ht : s.osIncCounter.osTickHandler = some t) :
      Move rule s .tick t .silent
  | intExitInner (hnest : 1 < s.iNesting) :
      Move rule s .intExit { s with iNesting := s.iNesting - 1 } .silent
  | intExit {h : Nat} (hnest : s.iNesting = 1)
      (hs : { s with iNesting := 0 }.osSchedule = some h) :
      Move rule s .intExit { s with iNesting := 0, currentTask := h } .silent

end Brtos
