import Brtos.Calls.Common

/-!
# Brtos.Calls.Event

The event calls: `semaphore.c`, `mbox.c`, the 8-bit queue of `queue.c` and
`mutex.c`.

Every pend is split at its `ChangeContext`: `os…Pend` is the call up to there,
`os…PendResume` what the task does when it runs again. A delete function
dereferences the pointer it is given, so a null pointer has no defined result.
-/

namespace Brtos

open Bits

variable {cfg : Config}

namespace Kernel

/-! ### Semaphores -/

/-- The part `OSSemCreate` and `OSSemBinaryCreate` share. -/
def createSem (s : Kernel cfg) (count : Nat) (binary : Bool) : Kernel cfg × Outcome :=
  if 0 < s.iNesting then (s, .returned RetCode.irqPendErr.ret)
  else
    match s.freeEvent .sem cfg.brtosMaxSem with
    | none => (s, .returned RetCode.noAvailableEvent.ret)
    | some e => ((s.allocEvent (.sem e)).setSem e fun _ => ⟨count, binary⟩,
        .returned ⟨.allocEventOk, .event (.sem e)⟩)

/-- `OSSemCreate`. -/
def osSemCreate (s : Kernel cfg) (cnt : UInt8) : Kernel cfg × Outcome :=
  s.createSem cnt.toNat false

/-- `OSSemBinaryCreate`: the count is set only for `bit > 1`. -/
def osSemBinaryCreate (s : Kernel cfg) (bit : UInt8) : Kernel cfg × Outcome :=
  s.createSem (if bit.toNat > 1 then 1 else 0) true

/-- `OSSemDelete`. -/
def osSemDelete (s : Kernel cfg) (event : Option Nat) : Option (Kernel cfg × Outcome) :=
  if 0 < s.iNesting then some (s, .returned RetCode.irqPendErr.ret)
  else event.map fun e =>
    ((s.deleteEvent (.sem e)).setSem e fun c => { c with osEventCount := 0 },
      .returned RetCode.deleteEventOk.ret)

/-- The critical section of `OSSemPend`. -/
def semPend (s : Kernel cfg) (timeWait e : Nat) : Kernel cfg × Outcome :=
  if (s.semTable e).osEventCount > 0 then
    (s.setSem e fun c => { c with osEventCount := c.osEventCount - 1 },
      .returned RetCode.ok.ret)
  else if timeWait = cfg.noTimeout then (s, .returned RetCode.exitByNoEntryAvailable.ret)
  else (s.waitEvent (.sem e) timeWait, .suspended)

/-- `OSSemPend`. -/
def osSemPend (s : Kernel cfg) (pontEvent : Option Nat) (timeWait : Nat) :
    Option (Kernel cfg × Outcome) :=
  s.checkPend .sem pontEvent .nothing (s.semPend timeWait)

/-- `OSSemPend` after `ChangeContext`. -/
def osSemPendResume (s : Kernel cfg) (e iPriority timeWait : Nat) : Kernel cfg × Ret :=
  match s.wakeUp (.sem e) iPriority timeWait with
  | (s, true) => (s, RetCode.timeout.ret)
  | (s, false) => (s, RetCode.ok.ret)

/-- The critical section of `OSSemPost`. -/
def semPost (s : Kernel cfg) (e : Nat) : Kernel cfg × Outcome :=
  if (s.event (.sem e)).osEventWait ≠ 0 then
    (s.wakeWaiter (.sem e), s.afterWake RetCode.ok.ret)
  else if (s.semTable e).osEventCount < 255 then
    (s.setSem e fun c =>
      { c with osEventCount := if c.binary = false then c.osEventCount + 1 else 1 },
      .returned RetCode.ok.ret)
  else (s, .returned RetCode.errSemOvf.ret)

/-- `OSSemPost`. -/
def osSemPost (s : Kernel cfg) (pontEvent : Option Nat) : Option (Kernel cfg × Outcome) :=
  s.checkEvent .sem pontEvent s.semPost

/-! ### Mailboxes -/

/-- `OSMboxCreate`; message `0` is `NULL`. -/
def osMboxCreate (s : Kernel cfg) (message : Nat) : Kernel cfg × Outcome :=
  if 0 < s.iNesting then (s, .returned RetCode.irqPendErr.ret)
  else
    match s.freeEvent .mbox cfg.brtosMaxMbox with
    | none => (s, .returned RetCode.noAvailableEvent.ret)
    | some e =>
      ((s.allocEvent (.mbox e)).setMbox e fun _ =>
        ⟨if message ≠ 0 then .availableMessage else .noMessage, message⟩,
        .returned ⟨.allocEventOk, .event (.mbox e)⟩)

/-- `OSMboxDelete`. -/
def osMboxDelete (s : Kernel cfg) (event : Option Nat) : Option (Kernel cfg × Outcome) :=
  if 0 < s.iNesting then some (s, .returned RetCode.irqPendErr.ret)
  else event.map fun e =>
    ((s.deleteEvent (.mbox e)).setMbox e fun _ => ⟨.noMessage, 0⟩,
      .returned RetCode.deleteEventOk.ret)

/-- Copy the message pointer and free the slot. -/
def takeMessage (s : Kernel cfg) (e : Nat) : Kernel cfg × Ret :=
  (s.setMbox e fun c => { c with osEventState := .noMessage },
    ⟨.ok, .message (s.mboxTable e).osEventPointer⟩)

/-- The critical section of `OSMboxPend`. -/
def mboxPend (s : Kernel cfg) (timeWait e : Nat) : Kernel cfg × Outcome :=
  if (s.mboxTable e).osEventState = .availableMessage then
    ((s.takeMessage e).1, .returned (s.takeMessage e).2)
  else if timeWait = cfg.noTimeout then (s, .returned RetCode.exitByNoEntryAvailable.ret)
  else (s.waitEvent (.mbox e) timeWait, .suspended)

/-- `OSMboxPend`. -/
def osMboxPend (s : Kernel cfg) (pontEvent : Option Nat) (timeWait : Nat) :
    Option (Kernel cfg × Outcome) :=
  s.checkPend .mbox pontEvent (.message 0) (s.mboxPend timeWait)

/-- `OSMboxPend` after `ChangeContext`. -/
def osMboxPendResume (s : Kernel cfg) (e iPriority timeWait : Nat) : Kernel cfg × Ret :=
  match s.wakeUp (.mbox e) iPriority timeWait with
  | (s, true) => (s, ⟨.timeout, .message 0⟩)
  | (s, false) => s.takeMessage e

/-- The critical section of `OSMboxPost`: the message goes into the slot whether
or not a waiter was selected. -/
def mboxPost (s : Kernel cfg) (message e : Nat) : Kernel cfg × Outcome :=
  if (s.event (.mbox e)).osEventWait ≠ 0 then
    ((s.wakeWaiter (.mbox e)).setMbox e fun _ => ⟨.availableMessage, message⟩,
      s.afterWake RetCode.ok.ret)
  else (s.setMbox e fun _ => ⟨.availableMessage, message⟩, .returned RetCode.ok.ret)

/-- `OSMboxPost`. -/
def osMboxPost (s : Kernel cfg) (pontEvent : Option Nat) (message : Nat) :
    Option (Kernel cfg × Outcome) :=
  s.checkEvent .mbox pontEvent (s.mboxPost message)

/-! ### Queues -/

/-- `OSQueueCreate`: the size is rounded up to whole words in a `uint16_t`, and
the buffer is the next part of `QUEUE_STACK`. -/
def osQueueCreate (s : Kernel cfg) (size : UInt16) : Kernel cfg × Outcome :=
  if 0 < s.iNesting then (s, .returned RetCode.irqPendErr.ret)
  else
    let size := if size.toNat % cfg.sizeofCpuType ≠ 0 then
        (size.toNat + (cfg.sizeofCpuType - size.toNat % cfg.sizeofCpuType)) % 65536
      else size.toNat
    if s.iQueueAddress + size / cfg.sizeofCpuType > cfg.queueHeapSize / cfg.sizeofCpuType then
      (s, .returned RetCode.noMemory.ret)
    else
      match s.freeEvent .queue cfg.brtosMaxQueue with
      | none => (s, .returned RetCode.noAvailableEvent.ret)
      | some q =>
        let start := s.iQueueAddress * cfg.sizeofCpuType
        let s := (s.allocEvent (.queue q)).setQueue q fun _ =>
          ⟨start, start + size, start, start, size, 0⟩
        ({ s with iQueueAddress := (s.iQueueAddress + size / cfg.sizeofCpuType) % 65536 },
          .returned ⟨.allocEventOk, .event (.queue q)⟩)

/-- Store a byte at `OSQIn`, which is first brought back from the end of the buffer. -/
def putByte (s : Kernel cfg) (q : Nat) (data : UInt8) : Kernel cfg :=
  let c := s.osQueueTable q
  let i := if c.osqIn = c.osqEnd then c.osqStart else c.osqIn
  { s.setQueue q fun c => { c with osqEntries := c.osqEntries + 1, osqIn := i + 1 } with
    queueStack := Function.update s.queueStack i data }

/-- Fetch the byte at `OSQOut` and count it out, without looking whether there is one. -/
def getByte (s : Kernel cfg) (q : Nat) : Kernel cfg × Ret :=
  let c := s.osQueueTable q
  let i := if c.osqOut = c.osqEnd then c.osqStart else c.osqOut
  (s.setQueue q fun c =>
    { c with osqOut := i + 1, osqEntries := (c.osqEntries + 65535) % 65536 },
    ⟨.readBufferOk, .byte (s.queueStack i)⟩)

/-- `OSWQueue`. -/
def osWQueue (s : Kernel cfg) (q : Nat) (data : UInt8) : Kernel cfg × Outcome :=
  if (s.osQueueTable q).osqEntries < (s.osQueueTable q).osqSize then
    (s.putByte q data, .returned RetCode.writeBufferOk.ret)
  else (s, .returned RetCode.bufferUnderrun.ret)

/-- `OSRQueue`. -/
def osRQueue (s : Kernel cfg) (q : Nat) : Kernel cfg × Outcome :=
  if (s.osQueueTable q).osqEntries > 0 then ((s.getByte q).1, .returned (s.getByte q).2)
  else (s, .returned RetCode.noEntryAvailable.ret)

/-- `OSQueueClean`. -/
def osQueueClean (s : Kernel cfg) (q : Nat) : Kernel cfg × Outcome :=
  (s.setQueue q fun c => { c with osqEntries := 0, osqIn := c.osqStart, osqOut := c.osqStart },
    .returned RetCode.cleanBufferOk.ret)

/-- The critical section of `OSQueuePend`. -/
def queuePend (s : Kernel cfg) (timeWait q : Nat) : Kernel cfg × Outcome :=
  if (s.osQueueTable q).osqEntries > 0 then ((s.getByte q).1, .returned (s.getByte q).2)
  else if timeWait = cfg.noTimeout then (s, .returned RetCode.exitByNoEntryAvailable.ret)
  else (s.waitEvent (.queue q) timeWait, .suspended)

/-- `OSQueuePend`, which reads `OSEventPointer` before it tests for a null pointer. -/
def osQueuePend (s : Kernel cfg) (pontEvent : Option Nat) (timeWait : Nat) :
    Option (Kernel cfg × Outcome) :=
  pontEvent.bind fun q => s.checkPend .queue (some q) .nothing (s.queuePend timeWait)

/-- `OSQueuePend` after `ChangeContext`: a task that was woken takes a byte
without looking again whether the queue holds one. -/
def osQueuePendResume (s : Kernel cfg) (q iPriority timeWait : Nat) : Kernel cfg × Ret :=
  match s.wakeUp (.queue q) iPriority timeWait with
  | (s, true) => (s, RetCode.timeout.ret)
  | (s, false) => s.getByte q

/-- The critical section of `OSQueuePost`. -/
def queuePost (s : Kernel cfg) (data : UInt8) (q : Nat) : Kernel cfg × Outcome :=
  if (s.osQueueTable q).osqEntries < (s.osQueueTable q).osqSize then
    let s := s.putByte q data
    if (s.event (.queue q)).osEventWait ≠ 0 then
      (s.wakeWaiter (.queue q), s.afterWake RetCode.writeBufferOk.ret)
    else (s, .returned RetCode.writeBufferOk.ret)
  else (s, .returned RetCode.bufferUnderrun.ret)

/-- `OSQueuePost`, which reads `OSEventPointer` before it tests for a null pointer. -/
def osQueuePost (s : Kernel cfg) (pontEvent : Option Nat) (data : UInt8) :
    Option (Kernel cfg × Outcome) :=
  pontEvent.bind fun q => s.checkEvent .queue (some q) (s.queuePost data)

/-! ### Mutexes -/

/-- `OSMutexCreate`; ceiling 0 means no ceiling. The ceiling's `PriorityVector`
entry is claimed before a control block is found, and `OSEventOwner` is left as
it is. -/
def osMutexCreate (s : Kernel cfg) (higherPriority : Nat) : Kernel cfg × Outcome :=
  if 0 < s.iNesting then (s, .returned RetCode.irqPendErr.ret)
  else if 0 < higherPriority ∧ s.priorityVector higherPriority ≠ emptyPrio then
    (s, .returned RetCode.busyPriority.ret)
  else
    let s := if 0 < higherPriority then s.setPriorityVector higherPriority mutexPrio else s
    match s.freeEvent .mutex cfg.brtosMaxMutex with
    | none => (s, .returned RetCode.noAvailableEvent.ret)
    | some m =>
      ((s.allocEvent (.mutex m)).setMutex m fun c =>
        { c with osEventState := .availableResource, osMaxPriority := higherPriority },
        .returned ⟨.allocEventOk, .event (.mutex m)⟩)

/-- `OSMutexDelete`. -/
def osMutexDelete (s : Kernel cfg) (event : Option Nat) : Option (Kernel cfg × Outcome) :=
  if 0 < s.iNesting then some (s, .returned RetCode.irqPendErr.ret)
  else event.map fun m =>
    ((s.deleteEvent (.mutex m)).setMutex m fun _ => ⟨.zero, 0, 0, 0⟩,
      .returned RetCode.deleteEventOk.ret)

/-- The new owner notes its priority in the mutex and takes the ceiling if that is
higher. Both the uncontended acquire and the resumed waiter do this. -/
def takeCeiling (s : Kernel cfg) (m iPriority : Nat) : Kernel cfg :=
  let maxPriority := (s.mutexTable m).osMaxPriority
  let s := s.setMutex m fun c => { c with osOriginalPriority := iPriority }
  if maxPriority > iPriority then
    let s := s.setPriority s.currentTask maxPriority
    let s := s.setPriorityVector maxPriority s.currentTask
    (s.clearReady iPriority).setReady maxPriority
  else s

/-- The acquire has succeeded; kept for the history only. -/
def noteAcquired (s : Kernel cfg) (m : Nat) : Kernel cfg :=
  { s with held := Function.update s.held s.currentTask (m :: s.held s.currentTask) }

/-- The release has succeeded; kept for the history only. -/
def noteReleased (s : Kernel cfg) (m : Nat) : Kernel cfg :=
  { s with held := Function.update s.held s.currentTask ((s.held s.currentTask).erase m) }

/-- The critical section of `OSMutexAcquire`. -/
def mutexAcquire (s : Kernel cfg) (timeWait m : Nat) : Kernel cfg × Outcome :=
  if s.currentTask = (s.mutexTable m).osEventOwner then (s, .returned RetCode.ok.ret)
  else if (s.mutexTable m).osEventState = .availableResource then
    let iPriority := s.prio s.currentTask
    let s := s.setMutex m fun c =>
      { c with osEventState := .busyResource, osEventOwner := s.currentTask }
    ((s.takeCeiling m iPriority).noteAcquired m, .returned RetCode.ok.ret)
  else if timeWait = cfg.noTimeout then (s, .returned RetCode.exitByNoResourceAvailable.ret)
  else (s.waitEvent (.mutex m) timeWait, .suspended)

/-- `OSMutexAcquire`. -/
def osMutexAcquire (s : Kernel cfg) (pontEvent : Option Nat) (timeWait : Nat) :
    Option (Kernel cfg × Outcome) :=
  s.checkPend .mutex pontEvent .nothing (s.mutexAcquire timeWait)

/-- `OSMutexAcquire` after `ChangeContext`. -/
def osMutexAcquireResume (s : Kernel cfg) (m iPriority timeWait : Nat) : Kernel cfg × Ret :=
  match s.wakeUp (.mutex m) iPriority timeWait with
  | (s, true) => (s, RetCode.exitByNoResourceAvailable.ret)
  | (s, false) => ((s.takeCeiling m iPriority).noteAcquired m, RetCode.ok.ret)

/-- Return to the priority the mutex remembers, if it is another one. -/
def restorePriority (s : Kernel cfg) (m : Nat) : Kernel cfg :=
  let iPriority := s.prio s.currentTask
  let original := (s.mutexTable m).osOriginalPriority
  if iPriority ≠ original then
    ((s.clearReady iPriority).setReady original).setPriority s.currentTask original
  else s

/-- The critical section of `OSMutexRelease`, for any caller. -/
def mutexRelease (s : Kernel cfg) (m : Nat) : Kernel cfg × Outcome :=
  if (s.mutexTable m).osEventOwner ≠ s.currentTask then
    (s, .returned RetCode.errEventOwner.ret)
  else
    let s := s.restorePriority m
    let s := (s.setMutex m fun c => { c with osEventOwner := 0 }).noteReleased m
    if (s.event (.mutex m)).osEventWait ≠ 0 then
      let iPriority := saScheduler (s.event (.mutex m)).osEventWaitList
      let s := s.leaveWaitList (.mutex m) iPriority
      let s := s.setMutex m fun c => { c with osEventOwner := s.priorityVector iPriority }
      (s.setReady iPriority, .switched RetCode.ok.ret)
    else
      let s := s.setMutex m fun c => { c with osEventState := .availableResource }
      let maxPriority := (s.mutexTable m).osMaxPriority
      (if 0 < maxPriority then s.setPriorityVector maxPriority mutexPrio else s,
        .returned RetCode.ok.ret)

/-- `OSMutexRelease`. -/
def osMutexRelease (s : Kernel cfg) (pontEvent : Option Nat) : Option (Kernel cfg × Outcome) :=
  s.checkPend .mutex pontEvent .nothing s.mutexRelease

end Kernel

end Brtos
