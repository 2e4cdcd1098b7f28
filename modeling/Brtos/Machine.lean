import Brtos.Calls.Task
import Brtos.Calls.Event
import Brtos.Lib.Run

/-!
# Brtos.Machine

The kernel as a **state machine**: who may do what next, and what it does.

An execution interleaves the calls of `main` before `BRTOSStart`, the calls of the
running task, the continuation of a call that was suspended, and interrupts, which
may come between any two of these and nest. The kernel's critical sections make
each of them atomic. `step` is deterministic; all freedom is in the choice of the
next action.

* A task makes calls only while it runs, outside the kernel, and no interrupt is
  being served. The idle task's loop makes none.
* A task whose call was suspended continues it when it runs again (`resume`).
* Interrupts come once the first task runs; `intExit` of the outermost one is
  `OS_INT_EXIT`, which schedules. The tick is one such interrupt.

`ChangeContext` is `SwitchContext`, that is `OS_INT_ENTER` and `OS_INT_EXIT`: it
makes `OSSchedule()` the running task.
-/

namespace Brtos

open Bits

/-- The kernel calls, with their arguments. Pointers to control blocks are
indices, `none` for `NULL`. `taskTimer` is no argument: it is what `Head` was when
`OSUninstallTask` was called, before the critical section that is the step. -/
inductive Call
  | installTask (isIdle : Bool) (userStackedBytes iPriority : Nat)
  | uninstallTask (taskHandle : Nat) (safetyOff : Bool) (taskTimer : Option Nat)
  | delayTask (timeWait : Nat)
  | blockPriority (iPriority : Nat)
  | unBlockPriority (iPriority : Nat)
  | blockTask (taskHandle : Nat)
  | unBlockTask (taskHandle : Nat)
  | blockMultipleTask (taskStart taskNumber : Nat)
  | unBlockMultipleTask (taskStart taskNumber : Nat)
  | semCreate (cnt : UInt8)
  | semBinaryCreate (bit : UInt8)
  | semDelete (event : Option Nat)
  | semPend (pontEvent : Option Nat) (timeWait : Nat)
  | semPost (pontEvent : Option Nat)
  | mboxCreate (message : Nat)
  | mboxDelete (event : Option Nat)
  | mboxPend (pontEvent : Option Nat) (timeWait : Nat)
  | mboxPost (pontEvent : Option Nat) (message : Nat)
  | queueCreate (size : UInt16)
  | queuePend (pontEvent : Option Nat) (timeWait : Nat)
  | queuePost (pontEvent : Option Nat) (data : UInt8)
  | rQueue (cqueue : Nat)
  | wQueue (cqueue : Nat) (data : UInt8)
  | queueClean (pontEvent : Nat)
  | mutexCreate (higherPriority : Nat)
  | mutexDelete (event : Option Nat)
  | mutexAcquire (pontEvent : Option Nat) (timeWait : Nat)
  | mutexRelease (pontEvent : Option Nat)
  deriving DecidableEq, Repr

/-- What can happen next. -/
inductive Action
  | call (c : Call)
  | brtosStart
  | resume
  | intEnter
  | tick
  | intExit
  deriving DecidableEq, Repr

/-- What an action shows: a call of task `task` (0 for `main` and for interrupts)
returning or being suspended, or nothing. -/
inductive Obs
  | returned (task : Nat) (c : Call) (r : Ret)
  | suspended (task : Nat) (c : Call)
  | silent
  deriving DecidableEq, Repr

/-- The call a suspended task is in. -/
def Frame.call : Frame → Call
  | .user => .delayTask 0
  | .delay timeWait => .delayTask timeWait
  | .pend (.sem e) _ timeWait => .semPend (some e) timeWait
  | .pend (.mbox e) _ timeWait => .mboxPend (some e) timeWait
  | .pend (.queue q) _ timeWait => .queuePend (some q) timeWait
  | .pend (.mutex m) _ timeWait => .mutexAcquire (some m) timeWait

variable {cfg : Config}

namespace Kernel

/-- The critical section of a call, up to its return or its `ChangeContext`. -/
def exec (s : Kernel cfg) : Call → Option (Kernel cfg × Outcome)
  | .installTask isIdle bytes p => some ((s.osInstallTask isIdle bytes p).1,
      .returned (s.osInstallTask isIdle bytes p).2)
  | .uninstallTask h off taskTimer => s.osUninstallTask h off taskTimer
  | .delayTask timeWait => some (s.osDelayTask timeWait)
  | .blockPriority p => some (s.osBlockPriority p)
  | .unBlockPriority p => some (s.osUnBlockPriority p)
  | .blockTask h => some (s.osBlockTask h)
  | .unBlockTask h => some (s.osUnBlockTask h)
  | .blockMultipleTask start number => some (s.osBlockMultipleTask start number)
  | .unBlockMultipleTask start number => some (s.osUnBlockMultipleTask start number)
  | .semCreate cnt => some (s.osSemCreate cnt)
  | .semBinaryCreate bit => some (s.osSemBinaryCreate bit)
  | .semDelete e => s.osSemDelete e
  | .semPend e timeWait => s.osSemPend e timeWait
  | .semPost e => s.osSemPost e
  | .mboxCreate message => some (s.osMboxCreate message)
  | .mboxDelete e => s.osMboxDelete e
  | .mboxPend e timeWait => s.osMboxPend e timeWait
  | .mboxPost e message => s.osMboxPost e message
  | .queueCreate size => some (s.osQueueCreate size)
  | .queuePend q timeWait => s.osQueuePend q timeWait
  | .queuePost q data => s.osQueuePost q data
  | .rQueue q => some (s.osRQueue q)
  | .wQueue q data => some (s.osWQueue q data)
  | .queueClean q => some (s.osQueueClean q)
  | .mutexCreate p => some (s.osMutexCreate p)
  | .mutexDelete m => s.osMutexDelete m
  | .mutexAcquire m timeWait => s.osMutexAcquire m timeWait
  | .mutexRelease m => s.osMutexRelease m

/-- The rest of a suspended pend. -/
def pendResume (s : Kernel cfg) (ev : Event) (iPriority timeWait : Nat) : Kernel cfg × Ret :=
  match ev with
  | .sem e => s.osSemPendResume e iPriority timeWait
  | .mbox e => s.osMboxPendResume e iPriority timeWait
  | .queue q => s.osQueuePendResume q iPriority timeWait
  | .mutex m => s.osMutexAcquireResume m iPriority timeWait

/-- Nobody runs yet: `main` has the processor. -/
def inMain (s : Kernel cfg) : Bool := s.currentTask == 0 && s.iNesting == 0

/-- The running task is at a point where it can make a call. -/
def inTask (s : Kernel cfg) : Bool :=
  s.currentTask != 0 && s.iNesting == 0 && s.frame s.currentTask == .user &&
    s.priorityVector 0 != s.currentTask

/-- An interrupt is being served. -/
def inInterrupt (s : Kernel cfg) : Bool := 0 < s.iNesting

/-- The task a call is made by, 0 for `main` and for interrupts. -/
def caller (s : Kernel cfg) : Nat := if s.iNesting = 0 then s.currentTask else 0

/-- `ChangeContext`. -/
def changeContext (s : Kernel cfg) : Option (Kernel cfg) :=
  s.osSchedule.map fun selectedTask => { s with currentTask := selectedTask }

/-- `OS_INT_EXIT`. -/
def osIntExit (s : Kernel cfg) : Option (Kernel cfg) :=
  let s := { s with iNesting := s.iNesting - 1 }
  if s.iNesting = 0 then s.changeContext else some s

end Kernel

/-- Who may make a call: the calls that can suspend, and those on mutexes, belong
to tasks; posts, unblocks and the plain queue operations may also come from
interrupts, and so may calls that only refuse them; tasks can be uninstalled in
dynamic builds only. -/
def Call.allowed (s : Kernel cfg) : Call → Bool
  | .installTask .. => s.inMain || s.inTask
  | .uninstallTask .. => cfg.dynamicTasksEnabled && (s.inMain || s.inTask)
  | .semPend .. | .mboxPend .. | .queuePend .. | .mutexAcquire .. | .mutexRelease .. =>
    s.inTask || (s.inInterrupt && cfg.errorCheck)
  | _ => s.inMain || s.inTask || s.inInterrupt

namespace Kernel

/-- A call and, where it asks for one, the context switch. -/
def stepCall (s : Kernel cfg) (c : Call) : Option (Kernel cfg × Obs) :=
  if c.allowed s then
    match s.exec c with
    | none => none
    | some (t, .returned r) => some (t, .returned s.caller c r)
    | some (t, .switched r) => t.changeContext.map (·, .returned s.caller c r)
    | some (t, .suspended) => t.changeContext.map (·, .suspended s.caller c)
  else none

/-- The running task continues the call it was suspended in. -/
def stepResume (s : Kernel cfg) : Option (Kernel cfg × Obs) :=
  if s.currentTask ≠ 0 ∧ s.iNesting = 0 then
    let task := s.currentTask
    match s.frame task with
    | .user => none
    | .delay timeWait => some (s.setFrame task .user,
        .returned task (.delayTask timeWait) RetCode.ok.ret)
    | .pend ev iPriority timeWait =>
      let (t, r) := s.pendResume ev iPriority timeWait
      some (t.setFrame task .user, .returned task (Frame.pend ev iPriority timeWait).call r)
  else none

/-- `BRTOSStart`: install the idle task and run the best one. -/
def brtosStart (s : Kernel cfg) : Option (Kernel cfg × Obs) :=
  if s.inMain then
    match s.osInstallTask true cfg.idleStackSize 0 with
    | (t, ⟨.ok, _⟩) => t.changeContext.map (·, .silent)
    | (t, _) => some (t, .silent)
  else none

/-- One step of the machine. -/
def step (s : Kernel cfg) : Action → Option (Kernel cfg × Obs)
  | .call c => s.stepCall c
  | .brtosStart => s.brtosStart
  | .resume => s.stepResume
  | .intEnter =>
    if s.currentTask ≠ 0 then some ({ s with iNesting := s.iNesting + 1 }, .silent) else none
  | .tick =>
    if s.inInterrupt then s.osIncCounter.osTickHandler.map (·, .silent) else none
  | .intExit => if s.inInterrupt then s.osIntExit.map (·, .silent) else none

end Kernel

/-- A trace: the actions taken and what they showed. -/
abbrev Trace := List (Action × Obs)

end Brtos
