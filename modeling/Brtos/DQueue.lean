import Brtos.Machine

/-!
# Brtos.DQueue

The **dynamic queues** of `queue.c` (`BRTOS_DYNAMIC_QUEUE_ENABLED`), over the machine of
`Brtos.Machine`.

A dynamic queue is three blocks from `BRTOS_ALLOC`: the `OS_DQUEUE`, the message buffer
and the event control block. What a block holds is kept under its address, and a block
that is handed out holds whatever it held before. Two blocks in use do not overlap, so a
write beyond the end of a message buffer has no meaning: the calls return `none` there.

A task suspended in `OSDQueuePend` keeps its locals in `dFrame`. In the kernel's own
table its frame is that of a delay of the same length, which `step` never lets the kernel
continue.
-/

namespace Brtos

open Bits

/-- A build with dynamic queues. -/
structure DQueueConfig extends Config where
  /-- `sizeof(OS_DQUEUE)`. -/
  sizeofOSDQueue : Nat
  /-- `sizeof(BRTOS_Queue)`. -/
  sizeofBRTOSQueue : Nat

/-- `OS_DQUEUE`; pointers are addresses, `0` for `NULL`. -/
structure OSDQueue where
  osqStart : Nat
  osqEnd : Nat
  osqIn : Nat
  osqOut : Nat
  osqTSize : Nat
  osqLength : Nat
  osqEntries : Nat

/-- `BRTOS_Queue` in the heap. `OSEventAllocated` is a byte that may hold anything. -/
structure BRTOSQueue (w : Nat) where
  osEventAllocated : Nat
  osEventCount : Nat
  osEventWait : Nat
  osEventPointer : Nat
  osEventWaitList : BitVec w

/-- The locals `OSDQueuePend` uses after `ChangeContext`. -/
structure DFrame where
  pontEvent : Nat
  cqueue : Nat
  n : Nat
  iPriority : Nat
  timeWait : Nat
  deriving DecidableEq, Repr

/-- The kernel with its dynamic queues. -/
structure DKernel (dc : DQueueConfig) where
  kernel : Kernel dc.toConfig
  dQueue : Nat → OSDQueue
  dEvent : Nat → BRTOSQueue dc.prioBits
  bytes : Nat → UInt8
  dFrame : Nat → Option DFrame

/-- The calls on dynamic queues. `pdata` of a post is what the pointer leads to. -/
inductive DCall
  | create (queueLength : UInt16) (typeSize : Nat)
  | delete (event : Option Nat)
  | clean (pontEvent : Nat)
  | pend (pontEvent : Option Nat) (timeWait : Nat)
  | post (pontEvent : Option Nat) (pdata : List UInt8)
  deriving DecidableEq, Repr

/-- What a call writes through its out-pointer. -/
inductive DOut
  | nothing
  | event (e : Nat)
  | message (data : List UInt8)
  deriving DecidableEq, Repr

structure DRet where
  code : RetCode
  out : DOut
  deriving DecidableEq, Repr

/-- How the critical section of a call ends; see `Outcome`. -/
inductive DOutcome
  | returned (r : DRet)
  | switched (r : DRet)
  | suspended
  deriving DecidableEq, Repr

/-- A return with nothing written. -/
abbrev RetCode.dret (c : RetCode) : DRet := ⟨c, .nothing⟩

/-- What can happen next: a step of the kernel, a call on a dynamic queue, or the rest
of an `OSDQueuePend`. -/
inductive DAction
  | kernel (a : Action)
  | call (c : DCall)
  | resume
  deriving DecidableEq, Repr

inductive DObs
  | kernel (o : Obs)
  | returned (task : Nat) (c : DCall) (r : DRet)
  | suspended (task : Nat) (c : DCall)
  | resumed (task : Nat) (r : DRet)
  deriving DecidableEq, Repr

variable {dc : DQueueConfig}

namespace DKernel

/-! ### Writing the state -/

def setKernel (s : DKernel dc) (f : Kernel dc.toConfig → Kernel dc.toConfig) : DKernel dc :=
  { s with kernel := f s.kernel }

def setHeap (s : DKernel dc) (heap : dc.mem.Heap) : DKernel dc :=
  s.setKernel fun k => { k with heap := heap }

/-- `BRTOS_DEALLOC`. -/
def dealloc (s : DKernel dc) (block : Nat) : DKernel dc :=
  s.setHeap (dc.mem.dealloc s.kernel.heap block)

def setDQueue (s : DKernel dc) (cqueue : Nat) (f : OSDQueue → OSDQueue) : DKernel dc :=
  { s with dQueue := Function.update s.dQueue cqueue (f (s.dQueue cqueue)) }

def setDEvent (s : DKernel dc) (e : Nat)
    (f : BRTOSQueue dc.prioBits → BRTOSQueue dc.prioBits) : DKernel dc :=
  { s with dEvent := Function.update s.dEvent e (f (s.dEvent e)) }

def setDFrame (s : DKernel dc) (h : Nat) (f : Option DFrame) : DKernel dc :=
  { s with dFrame := Function.update s.dFrame h f }

/-! ### Create and delete -/

/-- The end of `OSDQueueCreate`, with its three blocks in hand. `OSEventAllocated` is
not written. -/
def fillDQueue (s : DKernel dc) (cqueue e sizeInBytes queueLength typeSize : Nat) : DKernel dc :=
  let s := s.setDQueue cqueue fun c =>
    { c with
      osqLength := queueLength
      osqTSize := typeSize % 65536
      osqEntries := 0
      osqEnd := c.osqStart + sizeInBytes
      osqIn := c.osqStart
      osqOut := c.osqStart }
  s.setDEvent e fun c => { c with osEventPointer := cqueue, osEventWait := 0, osEventWaitList := 0 }

/-- `OSDQueueCreate`. The size of the buffer is cut to a `uint16_t`. -/
def osDQueueCreate (s : DKernel dc) (queueLength : UInt16) (typeSize : Nat) :
    DKernel dc × DRet :=
  if 0 < s.kernel.iNesting then (s, RetCode.irqPendErr.dret)
  else if 0 < queueLength.toNat ∧ 0 < typeSize then
    match dc.mem.alloc s.kernel.heap dc.sizeofOSDQueue with
    | (none, heap) => (s.setHeap heap, RetCode.noAvailableMemory.dret)
    | (some cqueue, heap) =>
      let sizeInBytes := queueLength.toNat * typeSize % 65536
      match dc.mem.alloc heap sizeInBytes with
      | (none, heap) =>
        let s := (s.setHeap heap).setDQueue cqueue fun c => { c with osqStart := 0 }
        (s.dealloc cqueue, RetCode.noAvailableMemory.dret)
      | (some start, heap) =>
        let s := s.setDQueue cqueue fun c => { c with osqStart := start }
        match dc.mem.alloc heap dc.sizeofBRTOSQueue with
        | (none, heap) =>
          (((s.setHeap heap).dealloc (s.dQueue cqueue).osqStart).dealloc cqueue,
            RetCode.noAvailableEvent.dret)
        | (some e, heap) =>
          ((s.setHeap heap).fillDQueue cqueue e sizeInBytes queueLength.toNat typeSize,
            ⟨.allocEventOk, .event e⟩)
  else (s, RetCode.invalidParameters.dret)

/-- `OSDQueueDelete`, which reads `OSEventPointer` before it looks who calls. -/
def osDQueueDelete (s : DKernel dc) (event : Option Nat) : Option (DKernel dc × DRet) :=
  event.map fun e =>
    let cqueue := (s.dEvent e).osEventPointer
    if 0 < s.kernel.iNesting then (s, RetCode.irqPendErr.dret)
    else
      let s := (s.dealloc (s.dQueue cqueue).osqStart).dealloc cqueue
      let s := s.setDEvent e fun c =>
        { c with osEventAllocated := 0, osEventCount := 0, osEventWait := 0, osEventWaitList := 0 }
      (s.dealloc e, RetCode.deleteEventOk.dret)

/-- `OSDQueueClean`. -/
def osDQueueClean (s : DKernel dc) (pontEvent : Nat) : DKernel dc × DRet :=
  (s.setDQueue (s.dEvent pontEvent).osEventPointer fun c =>
    { c with osqEntries := 0, osqIn := c.osqStart, osqOut := c.osqStart },
    RetCode.cleanBufferOk.dret)

/-! ### Pend and post -/

/-- Copy `n` bytes from `OSQOut`, which is first brought back from the end of the
buffer, and count the entry out. -/
def readMessage (s : DKernel dc) (cqueue n : Nat) : Option (DKernel dc × DRet) :=
  let c := s.dQueue cqueue
  let out := if c.osqOut = c.osqEnd then c.osqStart else c.osqOut
  if c.osqStart ≤ out ∧ out + n ≤ c.osqEnd then
    some (s.setDQueue cqueue fun c =>
      { c with osqOut := out + n, osqEntries := (c.osqEntries + 65535) % 65536 },
      ⟨.readBufferOk, .message ((List.range' out n).map s.bytes)⟩)
  else none

/-- Count an entry in and copy `OSQTSize` bytes to `OSQIn`, which is first brought back
from the end of the buffer. -/
def writeMessage (s : DKernel dc) (cqueue : Nat) (pdata : List UInt8) : Option (DKernel dc) :=
  let c := s.dQueue cqueue
  let i := if c.osqIn = c.osqEnd then c.osqStart else c.osqIn
  if c.osqStart ≤ i ∧ i + c.osqTSize ≤ c.osqEnd ∧ c.osqTSize ≤ pdata.length then
    some { s.setDQueue cqueue fun c =>
        { c with osqEntries := c.osqEntries + 1, osqIn := i + c.osqTSize } with
      bytes := fun a =>
        if i ≤ a ∧ a < i + c.osqTSize then pdata.getD (a - i) 0 else s.bytes a }
  else none

/-- Take priority `p` out of the queue's wait list and count it out. -/
def leaveWaitList (s : DKernel dc) (e p : Nat) : DKernel dc :=
  s.setDEvent e fun c =>
    { c with
      osEventWaitList := c.osEventWaitList &&& ~~~ priorityMask dc.toConfig p
      osEventWait := (c.osEventWait + 255) % 256 }

/-- The `ERROR_CHECK` tests; see `Kernel.checkEvent`. -/
def checkDEvent (s : DKernel dc) (pontEvent : Option Nat)
    (body : Nat → Option (DKernel dc × DOutcome)) : Option (DKernel dc × DOutcome) :=
  match pontEvent with
  | none =>
    if dc.errorCheck then some (s, .returned RetCode.nullEventPointer.dret) else none
  | some e =>
    if dc.errorCheck ∧ (s.dEvent e).osEventAllocated ≠ 1 then
      some (s, .returned RetCode.errEventNoCreated.dret)
    else body e

/-- The blocking part of `OSDQueuePend`. -/
def waitDEvent (s : DKernel dc) (e cqueue n timeWait : Nat) : DKernel dc :=
  let task := s.kernel.currentTask
  let iPriority := s.kernel.prio task
  let s := s.setDEvent e fun c =>
    { c with
      osEventWait := (c.osEventWait + 1) % 256
      osEventWaitList := c.osEventWaitList ||| priorityMask dc.toConfig iPriority }
  let s := s.setKernel fun k =>
    ((k.clearReady iPriority).startTimeout timeWait).setFrame task (.delay timeWait)
  s.setDFrame task (some ⟨e, cqueue, n, iPriority, timeWait⟩)

/-- The critical section of `OSDQueuePend`. -/
def dQueuePend (s : DKernel dc) (timeWait e : Nat) : Option (DKernel dc × DOutcome) :=
  let cqueue := (s.dEvent e).osEventPointer
  let n := (s.dQueue cqueue).osqTSize
  if (s.dQueue cqueue).osqEntries > 0 then
    (s.readMessage cqueue n).map fun x => (x.1, .returned x.2)
  else if timeWait = dc.noTimeout then
    some (s, .returned RetCode.exitByNoEntryAvailable.dret)
  else some (s.waitDEvent e cqueue n timeWait, .suspended)

/-- `OSDQueuePend`. -/
def osDQueuePend (s : DKernel dc) (pontEvent : Option Nat) (timeWait : Nat) :
    Option (DKernel dc × DOutcome) :=
  if dc.errorCheck ∧ 0 < s.kernel.iNesting then some (s, .returned RetCode.irqPendErr.dret)
  else s.checkDEvent pontEvent (s.dQueuePend timeWait)

/-- `OSDQueuePend` after `ChangeContext`. -/
def osDQueuePendResume (s : DKernel dc) (f : DFrame) : Option (DKernel dc × DRet) :=
  let task := s.kernel.currentTask
  if f.timeWait ≠ 0 then
    if (s.kernel.contextTask task).timeToWait = dc.exitByTimeout then
      if (s.dEvent f.pontEvent).osEventWaitList &&& priorityMask dc.toConfig f.iPriority ≠ 0 then
        some (s.leaveWaitList f.pontEvent f.iPriority, RetCode.timeout.dret)
      else s.readMessage f.cqueue f.n
    else
      (s.setKernel fun k =>
        (k.setTimeToWait task dc.noTimeout).removeFromDelayList task).readMessage f.cqueue f.n
  else s.readMessage f.cqueue f.n

/-- The critical section of `OSDQueuePost`. -/
def dQueuePost (s : DKernel dc) (pdata : List UInt8) (e : Nat) : Option (DKernel dc × DOutcome) :=
  let cqueue := (s.dEvent e).osEventPointer
  if (s.dQueue cqueue).osqEntries < (s.dQueue cqueue).osqLength then
    (s.writeMessage cqueue pdata).map fun s =>
      if (s.dEvent e).osEventWait ≠ 0 then
        let iPriority := saScheduler (s.dEvent e).osEventWaitList
        ((s.leaveWaitList e iPriority).setKernel fun k => k.setReady iPriority,
          if s.kernel.iNesting = 0 then .switched RetCode.writeBufferOk.dret
          else .returned RetCode.writeBufferOk.dret)
      else (s, .returned RetCode.writeBufferOk.dret)
  else some (s, .returned RetCode.bufferUnderrun.dret)

/-- `OSDQueuePost`. -/
def osDQueuePost (s : DKernel dc) (pontEvent : Option Nat) (pdata : List UInt8) :
    Option (DKernel dc × DOutcome) :=
  s.checkDEvent pontEvent (s.dQueuePost pdata)

/-! ### The machine -/

/-- The critical section of a call, up to its return or its `ChangeContext`. -/
def exec (s : DKernel dc) : DCall → Option (DKernel dc × DOutcome)
  | .create queueLength typeSize => some ((s.osDQueueCreate queueLength typeSize).1,
      .returned (s.osDQueueCreate queueLength typeSize).2)
  | .delete e => (s.osDQueueDelete e).map fun x => (x.1, .returned x.2)
  | .clean e => some ((s.osDQueueClean e).1, .returned (s.osDQueueClean e).2)
  | .pend e timeWait => s.osDQueuePend e timeWait
  | .post e pdata => s.osDQueuePost e pdata

/-- Who may make a call; see `Call.allowed`. -/
def allowed (s : DKernel dc) : DCall → Bool
  | .pend .. => s.kernel.inTask || (s.kernel.inInterrupt && dc.errorCheck)
  | _ => s.kernel.inMain || s.kernel.inTask || s.kernel.inInterrupt

/-- `ChangeContext`. -/
def changeContext (s : DKernel dc) : Option (DKernel dc) :=
  s.kernel.changeContext.map fun k => { s with kernel := k }

def stepCall (s : DKernel dc) (c : DCall) : Option (DKernel dc × DObs) :=
  if s.allowed c then
    match s.exec c with
    | none => none
    | some (t, .returned r) => some (t, .returned s.kernel.caller c r)
    | some (t, .switched r) => t.changeContext.map (·, .returned s.kernel.caller c r)
    | some (t, .suspended) => t.changeContext.map (·, .suspended s.kernel.caller c)
  else none

/-- A step of the kernel. A task that is outside every call is in no `OSDQueuePend`. -/
def stepKernel (s : DKernel dc) (a : Action) : Option (DKernel dc × DObs) :=
  if a = .resume ∧ (s.dFrame s.kernel.currentTask).isSome then none
  else (s.kernel.step a).map fun x =>
    ({ s with
      kernel := x.1
      dFrame := fun h => if x.1.frame h = .user then none else s.dFrame h }, .kernel x.2)

/-- The running task continues the `OSDQueuePend` it was suspended in. -/
def stepResume (s : DKernel dc) : Option (DKernel dc × DObs) :=
  if s.kernel.currentTask ≠ 0 ∧ s.kernel.iNesting = 0 then
    (s.dFrame s.kernel.currentTask).bind fun f =>
      (s.osDQueuePendResume f).map fun x =>
        ((x.1.setKernel fun k => k.setFrame s.kernel.currentTask .user).setDFrame
          s.kernel.currentTask none, .resumed s.kernel.currentTask x.2)
  else none

/-- One step of the kernel with its dynamic queues. -/
def step (s : DKernel dc) : DAction → Option (DKernel dc × DObs)
  | .kernel a => s.stepKernel a
  | .call c => s.stepCall c
  | .resume => s.stepResume

end DKernel

/-- A call on a dynamic queue, taken apart. -/
theorem dstep_call_inv {s t : DKernel dc} {c : DCall} {o : DObs}
    (h : s.step (.call c) = some (t, o)) :
    s.allowed c = true ∧ ∃ u oc, s.exec c = some (u, oc) ∧
      ((∃ r, oc = .returned r ∧ t = u ∧ o = .returned s.kernel.caller c r) ∨
        u.changeContext = some t ∧
          ((∃ r, oc = .switched r ∧ o = .returned s.kernel.caller c r) ∨
            (oc = .suspended ∧ o = .suspended s.kernel.caller c))) := by
  simp only [DKernel.step, DKernel.stepCall] at h
  split at h
  · rename_i ha
    refine ⟨ha, ?_⟩
    cases hex : s.exec c with
    | none => simp [hex] at h
    | some q =>
        obtain ⟨u, oc⟩ := q
        refine ⟨u, oc, rfl, ?_⟩
        rw [hex] at h
        cases oc with
        | returned r =>
            cases h
            exact Or.inl ⟨r, rfl, rfl, rfl⟩
        | switched r =>
            obtain ⟨v, hv, hto⟩ := Option.map_eq_some_iff.mp h
            cases hto
            exact Or.inr ⟨hv, Or.inl ⟨r, rfl, rfl⟩⟩
        | suspended =>
            obtain ⟨v, hv, hto⟩ := Option.map_eq_some_iff.mp h
            cases hto
            exact Or.inr ⟨hv, Or.inr ⟨rfl, rfl⟩⟩
  · cases h

end Brtos
