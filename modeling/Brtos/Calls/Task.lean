import Brtos.Calls.Common

/-!
# Brtos.Calls.Task

The task calls of `BRTOS.c`: installing and uninstalling, delays, the tick, and
the block and unblock functions.
-/

namespace Brtos

open Bits

variable {cfg : Config}

namespace Kernel

/-! ### Install -/

/-- "Number Task Discovery": the first free slot of `TaskAlloc`. -/
def freeTcb (s : Kernel cfg) : Option Nat :=
  (List.range cfg.numberOfTasks).find? fun i => !s.taskAlloc.getLsbD i

/-- Fill slot `i` and make the new task ready. A new task starts outside the kernel. -/
def fillTcb (s : Kernel cfg) (i iPriority stackInit stackSize : Nat) : Kernel cfg :=
  let task := i + 1
  { s with
    taskAlloc := s.taskAlloc ||| mask 32 i
    numberOfInstalledTasks := (s.numberOfInstalledTasks + 1) % 256
    contextTask := Function.update s.contextTask task
      ⟨cfg.noTimeout, iPriority, stackInit, stackSize⟩
    priorityVector := Function.update s.priorityVector iPriority task
    delayList := (s.delayList.setNext (some task) none).setPrevious (some task) none
    osReadyList := s.osReadyList ||| priorityMask cfg iPriority
    frame := Function.update s.frame task .user
    base := Function.update s.base task iPriority
    held := Function.update s.held task [] }

/-- The priority tests of `OSInstallTask`; priority 0 is for the idle task only. -/
def checkInstall (s : Kernel cfg) (isIdle : Bool) (iPriority : Nat) : Option RetCode :=
  if iPriority ≠ 0 then
    if iPriority > cfg.configMaxTaskPriority then some .endOfAvailablePriorities
    else if s.priorityVector iPriority ≠ emptyPrio then some .busyPriority
    else none
  else if !isIdle then some .cannotAssignIdleTaskPrio
  else none

/-- `OSInstallTask` without dynamic tasks: the stack is cut from `STACK`. -/
def osInstallTaskStatic (s : Kernel cfg) (isIdle : Bool) (userStackedBytes iPriority : Nat) :
    Kernel cfg × Ret :=
  let bytes := userStackedBytes - userStackedBytes % cfg.sizeofCpuType
  if bytes < cfg.numberMinOfStackedBytes then (s, RetCode.stackSizeTooSmall.ret)
  else if s.iStackAddress + bytes / cfg.sizeofCpuType > cfg.heapSize / cfg.sizeofCpuType then
    (s, RetCode.noMemory.ret)
  else
    match s.checkInstall isIdle iPriority with
    | some err => (s, err.ret)
    | none =>
      match s.freeTcb with
      | none => (s, RetCode.endOfAvailableTcb.ret)
      | some i =>
        let s := s.fillTcb i iPriority (s.stackAddress + bytes) 0
        ({ s with
            iStackAddress := (s.iStackAddress + bytes / cfg.sizeofCpuType) % 65536
            stackAddress := s.stackAddress + bytes }, ⟨.ok, .handle (i + 1)⟩)

/-- `OSInstallTask` with dynamic tasks: the stack comes from `BRTOS_ALLOC`. -/
def osInstallTaskDynamic (s : Kernel cfg) (isIdle : Bool) (userStackedBytes iPriority : Nat) :
    Kernel cfg × Ret :=
  let bytes := userStackedBytes - userStackedBytes % cfg.sizeofCpuType
  if bytes < cfg.numberMinOfStackedBytes then (s, RetCode.stackSizeTooSmall.ret)
  else
    match s.checkInstall isIdle iPriority with
    | some err => (s, err.ret)
    | none =>
      match cfg.mem.alloc s.heap bytes with
      | (none, heap) => ({ s with heap := heap }, RetCode.noMemory.ret)
      | (some stack, heap) =>
        match s.freeTcb with
        | none => ({ s with heap := cfg.mem.dealloc heap stack }, RetCode.endOfAvailableTcb.ret)
        | some i => ({ s with heap := heap }.fillTcb i iPriority stack bytes,
            ⟨.ok, .handle (i + 1)⟩)

/-- `OSInstallTask`; `isIdle` is `FctPtr == Idle`. -/
def osInstallTask (s : Kernel cfg) (isIdle : Bool) (userStackedBytes iPriority : Nat) :
    Kernel cfg × Ret :=
  if cfg.dynamicTasksEnabled then s.osInstallTaskDynamic isIdle userStackedBytes iPriority
  else s.osInstallTaskStatic isIdle userStackedBytes iPriority

/-! ### Uninstall -/

/-- The search for a task along the delay list; `none` when the walk does not end. -/
def searchDelayList (s : Kernel cfg) (task : Nat) : Nat → Option Nat → Option Bool
  | _, none => some false
  | 0, some _ => none
  | fuel + 1, some h =>
    if h = task then some true else s.searchDelayList task fuel (s.delayList.next h)

/-- A walk along links that nobody changes visits each slot at most once. -/
def walkFuel (cfg : Config) : Nat := cfg.numberOfTasks + 1

/-- Empty the slot of an uninstalled task. -/
def clearTcb (s : Kernel cfg) (task : Nat) : Kernel cfg :=
  { s with
    taskAlloc := s.taskAlloc &&& ~~~ mask 32 (task - 1)
    priorityVector := Function.update s.priorityVector (s.prio task) emptyPrio
    heap := cfg.mem.dealloc s.heap (s.contextTask task).stackInit
    contextTask := Function.update s.contextTask task ⟨cfg.noTimeout, emptyPrio, 0, 0⟩
    delayList := (s.delayList.setNext (some task) none).setPrevious (some task) none
    numberOfInstalledTasks := (s.numberOfInstalledTasks + 255) % 256 }

/-- The end of `OSUninstallTask`: a task that uninstalled itself changes context
and never comes back. -/
def uninstallOutcome (s : Kernel cfg) (task : Nat) : Outcome :=
  if task = s.currentTask then .suspended else .returned RetCode.ok.ret

/-- The loop of `OSUninstallTask` that looks for the task and takes it out; `none` when the
walk does not end or `RemoveFromDelayList` writes through a null pointer. -/
def searchAndRemove (s : Kernel cfg) (task : Nat) (taskTimer : Option Nat) : Option (Kernel cfg) :=
  (s.searchDelayList task (walkFuel cfg) taskTimer).bind fun found =>
    if found = true then
      if s.delayList.Removable task then some (s.removeFromDelayList task) else none
    else some s

/-- Inversion of the search and the removal of an uninstall. -/
theorem searchAndRemove_inv {s u : Kernel cfg} {task : Nat} {taskTimer : Option Nat}
    (h : s.searchAndRemove task taskTimer = some u) :
    ∃ found, s.searchDelayList task (walkFuel cfg) taskTimer = some found ∧
      u = if found = true then s.removeFromDelayList task else s := by
  obtain ⟨found, hf, hu⟩ := Option.bind_eq_some_iff.mp h
  refine ⟨found, hf, ?_⟩
  by_cases hfound : found = true
  · rw [if_pos hfound] at hu ⊢
    split at hu
    · exact (Option.some.inj hu).symm
    · cases hu
  · rw [if_neg hfound] at hu ⊢
    exact (Option.some.inj hu).symm

/-- `OSUninstallTask`. A task that is not ready counts as waiting; with
`safetyOff` it is taken out of the delay list and uninstalled all the same. The
search for it begins at `taskTimer`, which is what `Head` was before the critical
section was entered. -/
def osUninstallTask (s : Kernel cfg) (taskHandle : Nat) (safetyOff : Bool) (taskTimer : Option Nat) :
    Option (Kernel cfg × Outcome) :=
  let task := if taskHandle = 0 then s.currentTask else taskHandle
  if task = 0 then some (s, .returned RetCode.notValidTask.ret)
  else if s.prio task = 0 then some (s, .returned RetCode.cannotUninstallIdleTask.ret)
  else if s.osReadyList &&& priorityMask cfg (s.prio task) ≠ priorityMask cfg (s.prio task) then
    if safetyOff then
      (s.searchAndRemove task taskTimer).map fun t => (t.clearTcb task, s.uninstallOutcome task)
    else some (s, .returned RetCode.taskWaitingEvent.ret)
  else
    let s := s.clearReady (s.prio task)
    some (s.clearTcb task, s.uninstallOutcome task)

/-! ### Delay -/

/-- `OSDelayTask`. -/
def osDelayTask (s : Kernel cfg) (timeWait : Nat) : Kernel cfg × Outcome :=
  if 0 < s.iNesting then (s, .returned RetCode.irqPendErr.ret)
  else if s.currentTask = 0 then (s, .returned RetCode.notValidTask.ret)
  else if timeWait = 0 then (s, .returned RetCode.noTaskDelay.ret)
  else
    let task := s.currentTask
    let s := s.setTimeToWait task (deadline cfg s.osTickCounter timeWait)
    let s := s.includeTaskIntoDelayList task
    let s := s.clearReady (s.prio task)
    (s.setFrame task (.delay timeWait), .suspended)

/-! ### The tick -/

/-- `OSIncCounter`. -/
def osIncCounter (s : Kernel cfg) : Kernel cfg :=
  let count := (s.osTickCounter + 1) % 2 ^ cfg.tickBits
  { s with osTickCounter := if count = cfg.tickCountOverflow then 0 else count }

/-- What the tick handler does to a task whose deadline has come. -/
def expire (s : Kernel cfg) (task : Nat) : Kernel cfg :=
  ((s.setReady (s.prio task)).setTimeToWait task cfg.exitByTimeout).removeFromDelayList task

/-- The body of the handler's loop for one task. -/
def tickTask (s : Kernel cfg) (task : Nat) : Kernel cfg :=
  if (s.contextTask task).timeToWait = s.osTickCounter then s.expire task else s

/-- The loop of `OS_TICK_HANDLER` from `task` on; `none` when it does not end. -/
def tickLoop : Nat → Kernel cfg → Option Nat → Option (Kernel cfg)
  | _, s, none => some s
  | 0, _, some _ => none
  | fuel + 1, s, some task =>
    let s := s.tickTask task
    tickLoop fuel s (s.delayList.next task)

/-- The tasks the loop of `OS_TICK_HANDLER` examines, in order. -/
def tickExamined : Nat → Kernel cfg → Option Nat → List Nat
  | _, _, none => []
  | 0, _, some _ => []
  | fuel + 1, s, some task =>
    let s' := s.tickTask task
    task :: tickExamined fuel s' (s'.delayList.next task)

/-- The handler's links change only when a task expires, which happens to each
slot at most once, and between two expiries a walk that ends visits each slot at
most once: a walk of more steps than this does not end. -/
def tickFuel (cfg : Config) : Nat := (cfg.numberOfTasks + 1) * (cfg.numberOfTasks + 1)

/-- `OS_TICK_HANDLER`. -/
def osTickHandler (s : Kernel cfg) : Option (Kernel cfg) :=
  tickLoop (tickFuel cfg) s s.delayList.head

/-! ### Block and unblock -/

def block (s : Kernel cfg) (p : Nat) : Kernel cfg :=
  { s with osBlockedList := s.osBlockedList &&& ~~~ priorityMask cfg p }

def unBlock (s : Kernel cfg) (p : Nat) : Kernel cfg :=
  { s with osBlockedList := s.osBlockedList ||| priorityMask cfg p }

/-- The end of the block calls: a task that blocked itself changes context. -/
def blockOutcome (s : Kernel cfg) (task : Nat) : Outcome :=
  if s.currentTask = task then .switched RetCode.ok.ret else .returned RetCode.ok.ret

/-- The end of the unblock calls: a running task looks for a better one. -/
def unBlockOutcome (s : Kernel cfg) : Outcome :=
  if s.currentTask ≠ 0 ∧ s.iNesting = 0 then .switched RetCode.ok.ret
  else .returned RetCode.ok.ret

/-- `OSBlockPriority`. -/
def osBlockPriority (s : Kernel cfg) (iPriority : Nat) : Kernel cfg × Outcome :=
  if 0 < s.iNesting then (s, .returned RetCode.irqPendErr.ret)
  else (s.block iPriority, s.blockOutcome (s.priorityVector iPriority))

/-- `OSUnBlockPriority`. -/
def osUnBlockPriority (s : Kernel cfg) (iPriority : Nat) : Kernel cfg × Outcome :=
  (s.unBlock iPriority, s.unBlockOutcome)

/-- `OSBlockTask`; handle 0 is the caller. -/
def osBlockTask (s : Kernel cfg) (taskHandle : Nat) : Kernel cfg × Outcome :=
  if 0 < s.iNesting then (s, .returned RetCode.irqPendErr.ret)
  else
    let task := if taskHandle = 0 then s.currentTask else taskHandle
    if task = 0 then (s, .returned RetCode.notValidTask.ret)
    else (s.block (s.prio task), s.blockOutcome task)

/-- `OSUnBlockTask`. -/
def osUnBlockTask (s : Kernel cfg) (taskHandle : Nat) : Kernel cfg × Outcome :=
  (s.unBlock (s.prio taskHandle), s.unBlockOutcome)

/-- The handles the range loops go through, with their `uint8_t` bound. -/
def taskRange (taskStart taskNumber : Nat) : List Nat :=
  List.range' taskStart ((taskStart + taskNumber) % 256 - taskStart)

/-- `OSBlockMultipleTask`; the caller is skipped. -/
def osBlockMultipleTask (s : Kernel cfg) (taskStart taskNumber : Nat) : Kernel cfg × Outcome :=
  if 0 < s.iNesting then (s, .returned RetCode.irqPendErr.ret)
  else
    ((taskRange taskStart taskNumber).foldl
      (fun s iTask => if iTask ≠ s.currentTask then s.block (s.prio iTask) else s) s,
      .returned RetCode.ok.ret)

/-- `OSUnBlockMultipleTask`; the caller is skipped. -/
def osUnBlockMultipleTask (s : Kernel cfg) (taskStart taskNumber : Nat) :
    Kernel cfg × Outcome :=
  if 0 < s.iNesting then (s, .returned RetCode.irqPendErr.ret)
  else
    ((taskRange taskStart taskNumber).foldl
      (fun s iTask => if iTask ≠ s.currentTask then s.unBlock (s.prio iTask) else s) s,
      s.unBlockOutcome)

end Kernel

end Brtos
