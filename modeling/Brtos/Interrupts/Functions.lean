import Brtos.Lib.Regions

/-!
# Brtos.Interrupts.Functions

**Where the kernel touches the interrupt flag.** Every function that enters or leaves a
critical section, changes the context, or calls a function that does, as its control flow:
the tests that decide whether one of these happens, in the order of the source, and
nothing else. What a function does to its data between them leaves the flag alone.

The builds are those in which `OSEnterCritical` and `OSExitCritical` (and
`UserEnterCritical`, `UserExitCritical`) disable and enable interrupts whatever they were
before, with `NESTING_INT` 0, and `BRTOS_ALLOC` and `BRTOS_DEALLOC` are `umm_malloc` and
`umm_free`. The functions that are not here (`OSGetCount`, `OSIncCounter`, `OSSchedule`,
`SAScheduler`, `OS_TICK_HANDLER`, `BRTOSInit`, `PreInstallTasks`, `initEvents`, `OSUptime`,
`OSUpDate`, `OSUpdateCalendar`, the `OSDev` calls) have no such place.
-/

namespace Brtos

open Flow Regions

/-- The options of a build that change the control flow. -/
structure Build where
  /-- `ERROR_CHECK`. -/
  errorCheck : Bool
  /-- `BRTOS_DYNAMIC_TASKS_ENABLED`. -/
  dynamicTasksEnabled : Bool
  /-- `BRTOS_DYNAMIC_QUEUE_ENABLED`. -/
  dynamicQueueEnabled : Bool
  /-- `QUEUE_HEAP_SIZE > 0`. -/
  queueHeap : Bool
  deriving DecidableEq, Repr

/-- The tests of the source. -/
inductive Test
  /-- `currentTask`. -/
  | currentTask
  /-- `iNesting > 0`. -/
  | iNesting
  /-- `pont_event == NULL`. -/
  | eventNull
  /-- `OSEventAllocated != TRUE`, or `TIMER_NOT_ALLOCATED`. -/
  | notAllocated
  /-- There is something to take: a count, a message, an entry, the resource. -/
  | available
  /-- `time_wait == NO_TIMEOUT`. -/
  | noTimeout
  /-- `time_wait`, not zero. -/
  | timeWait
  /-- `Task->TimeToWait == EXIT_BY_TIMEOUT`. -/
  | exitByTimeout
  /-- The caller is still on the wait list. -/
  | stillWaiting
  /-- `OSEventWait != 0`. -/
  | eventWait
  /-- `OSEventCount < 255`. -/
  | countBelowMax
  /-- `OSEventOwner == currentTask`. -/
  | ownerIsCaller
  /-- `OSQEntries` is below the size of the queue. -/
  | hasRoom
  /-- `OSQEntries > 0`. -/
  | hasEntry
  /-- The loop over a table or a list goes on. -/
  | loopGoesOn
  /-- `i >= BRTOS_MAX_...`. -/
  | tableFull
  /-- The slot is free. -/
  | slotFree
  /-- `HigherPriority > 0`. -/
  | ceilingGiven
  /-- `PriorityVector[...] != EMPTY_PRIO`. -/
  | busyPriority
  /-- The queue does not fit into the heap that is left. -/
  | queueHeapFull
  /-- `(queue_length > 0) && (type_size > 0)`. -/
  | parametersValid
  /-- `cqueue != NULL`. -/
  | handlerAllocated
  /-- `cqueue->OSQStart != NULL`. -/
  | storageAllocated
  /-- `USER_STACKED_BYTES < NUMBER_MIN_OF_STACKED_BYTES`. -/
  | stackTooSmall
  /-- The stack does not fit into the heap that is left. -/
  | stackHeapFull
  /-- `iPriority`, not zero. -/
  | priorityGiven
  /-- `iPriority > configMAX_TASK_PRIORITY`. -/
  | aboveMaxPriority
  /-- `FctPtr != Idle`. -/
  | notIdleTask
  /-- `Stack == NULL`. -/
  | stackNull
  /-- `TaskNumber == 0`. -/
  | noTaskNumber
  /-- `!TaskHandle`. -/
  | handleZero
  /-- `!(Task->Priority)`. -/
  | idlePriority
  /-- `Task != NULL`. -/
  | taskNotNull
  /-- The task is not in `OSReadyList`. -/
  | notReady
  /-- `safety_off == TRUE`. -/
  | safetyOff
  /-- The task named is `currentTask`. -/
  | isCurrentTask
  /-- `InstallTask(...) != OK`. -/
  | installFailed
  /-- `OS_Wait` enables interrupts (`WAIT` and `GIE` do). -/
  | waitEnables
  /-- `minutes > 59`, `seconds > 59` and `miliseconds > 999`. -/
  | minutesInvalid | secondsInvalid | milisecondsInvalid
  /-- `ticks > 0`. -/
  | ticks
  /-- `loops > 0`. -/
  | loops
  /-- `p == NULL`. -/
  | timerNull
  /-- `p->timeout > OSGetTickCount()`. -/
  | timeoutAhead
  /-- `p->func_cb != NULL`. -/
  | hasCallback
  /-- The callback leaves interrupts enabled. -/
  | callbackEnables
  /-- `repeat > 0`. -/
  | repeats
  /-- `(cb == NULL) || (cbp == NULL)`. -/
  | argumentNull
  /-- The timer given can be used. -/
  | timerGiven
  /-- `ContextTask[j].Priority != EMPTY_PRIO`. -/
  | taskInstalled
  /-- `ptr == 0`, in `umm_free`. -/
  | pointerNull
  /-- `size == 0`, in `umm_malloc`. -/
  | sizeZero
  /-- A block of the heap fits. -/
  | blockFits
  /-- The heap has no room for one more block. -/
  | heapFull
  /-- The block is the one asked for. -/
  | blockAsked
  deriving DecidableEq, Repr

/-- The control flow of a kernel function. -/
abbrev Body := Code Test Action

namespace Body

open Code Test

/-- `OSEnterCritical()`. -/
def osEnterCritical : Body := act .enter

/-- `OSExitCritical()`. -/
def osExitCritical : Body := act .exit

/-- `ChangeContext()`. -/
def changeContext : Body := act .switch

/-! ### Patterns of the source -/

/-- `if (currentTask) OSEnterCritical();`. -/
def enterInTask : Body := ifTrue currentTask osEnterCritical

/-- `if (currentTask) OSExitCritical();`. -/
def exitInTask : Body := ifTrue currentTask osExitCritical

/-- `if (!iNesting) OSEnterCritical();`. -/
def enterOutsideInterrupt : Body := ifFalse iNesting osEnterCritical

/-- `if (!iNesting) OSExitCritical();`. -/
def exitOutsideInterrupt : Body := ifFalse iNesting osExitCritical

/-- `if (iNesting > 0) return(IRQ_PEND_ERR);`. -/
def notByInterrupt : Body := ifTrue iNesting ret

/-- Leave a region opened unconditionally, and return. -/
def leave : Body := block [osExitCritical, ret]

/-- Leave a region opened with `enterInTask`, and return. -/
def leaveInTask : Body := block [exitInTask, ret]

/-- Leave a region opened with `enterOutsideInterrupt`, and return. -/
def leaveOutsideInterrupt : Body := block [exitOutsideInterrupt, ret]

/-- What only `ERROR_CHECK` builds do. -/
def checked (errorCheck : Bool) (as : List Body) : Body := if errorCheck then block as else skip

/-- A region around work on data only. -/
def region : Body := block [osEnterCritical, osExitCritical]

/-- The same, opened and closed outside interrupts only. -/
def regionOutsideInterrupt : Body := block [enterOutsideInterrupt, exitOutsideInterrupt]

/-- The same, opened and closed in a task only. -/
def regionInTask : Body := block [enterInTask, exitInTask]

/-- The search for a free control block. -/
def findSlot : Body :=
  whileTrue loopGoesOn (block [ifTrue tableFull leaveInTask, ifTrue slotFree brk])

/-! ### `umm_malloc.c` -/

/-- `umm_info`. -/
def ummInfo : Body :=
  block [osEnterCritical, whileTrue loopGoesOn (ifTrue slotFree (ifTrue blockAsked leave)), leave]

/-- `OSGetUsedHeapSize`. -/
def osGetUsedHeapSize : Body := block [call ummInfo, ret]

/-- `OSGetFreeHeapSize`. -/
def osGetFreeHeapSize : Body := block [call ummInfo, ret]

/-- `umm_free`. -/
def ummFree : Body := block [ifTrue pointerNull ret, region]

/-- `umm_malloc`. -/
def ummMalloc : Body :=
  block [ifTrue sizeZero ret, osEnterCritical, ite blockFits skip (ifTrue heapFull leave), leave]

/-- `umm_calloc`. -/
def ummCalloc : Body := block [call ummMalloc, ret]

/-! ### `BRTOS.c` -/

/-- `OSGetCurrentTaskHandle`. -/
def osGetCurrentTaskHandle : Body := block [region, ret]

/-- `OSGetTaskPriority`. -/
def osGetTaskPriority : Body := block [region, ret]

/-- `OSGetTickCount`. -/
def osGetTickCount : Body := block [region, ret]

/-- `OSDelayTask`. -/
def osDelayTask : Body :=
  block [
    notByInterrupt,
    ite currentTask
      (ite timeWait (block [osEnterCritical, changeContext, leave]) ret)
      ret]

/-- `OSDelayTaskHMSM`. -/
def osDelayTaskHMSM : Body :=
  block [
    ifTrue minutesInvalid ret,
    ifTrue secondsInvalid ret,
    ifTrue milisecondsInvalid ret,
    ite ticks
      (block [call osDelayTask, whileTrue loops (call osDelayTask), ret])
      ret]

/-- The tests of a request that both versions of `OSInstallTask` make on the priority. -/
def checkPriority : Body :=
  ite priorityGiven
    (block [ifTrue aboveMaxPriority leaveInTask, ifTrue busyPriority leaveInTask])
    (ifTrue notIdleTask leaveInTask)

/-- `OSInstallTask`, with the stacks in one static array. -/
def osInstallTaskStatic : Body :=
  block [
    enterInTask,
    ifTrue stackTooSmall leaveInTask,
    ifTrue stackHeapFull leaveInTask,
    checkPriority,
    ifTrue noTaskNumber leaveInTask,
    leaveInTask]

/-- `OSInstallTask`, with `BRTOS_DYNAMIC_TASKS_ENABLED`. -/
def osInstallTaskDynamic : Body :=
  block [
    enterInTask,
    ifTrue stackTooSmall leaveInTask,
    checkPriority,
    call ummMalloc,
    ifTrue stackNull leaveInTask,
    ifTrue noTaskNumber (block [call ummFree, leaveInTask]),
    leaveInTask]

/-- `OSInstallTask`. -/
def osInstallTask (dynamicTasksEnabled : Bool) : Body :=
  if dynamicTasksEnabled then osInstallTaskDynamic else osInstallTaskStatic

/-- `TaskHandle` 0 is the calling task. Before the start there is none, and the function
leaves a region it did not enter. -/
def resolveHandle : Body := ifTrue handleZero (ite currentTask skip leave)

/-- `OSUninstallTask`. -/
def osUninstallTask : Body :=
  block [
    enterInTask,
    resolveHandle,
    ifTrue idlePriority leaveInTask,
    ifTrue taskNotNull (block [
      ifTrue notReady (ite safetyOff skip leaveInTask),
      call ummFree,
      ifTrue isCurrentTask changeContext,
      leaveInTask]),
    leaveInTask]

/-- `BRTOSStart`. `BTOSStartFirstTask` goes to the first task and does not come back. -/
def brtosStart (dynamicTasksEnabled : Bool) : Body :=
  block [call (osInstallTask dynamicTasksEnabled), ifTrue installFailed ret, forever skip]

/-- `OSBlockPriority`. -/
def osBlockPriority : Body :=
  block [notByInterrupt, enterInTask, ifTrue isCurrentTask changeContext, leaveInTask]

/-- `OSBlockTask`. -/
def osBlockTask : Body :=
  block [notByInterrupt, enterInTask, resolveHandle, ifTrue isCurrentTask changeContext,
    leaveInTask]

/-- `OSBlockMultipleTask`. -/
def osBlockMultipleTask : Body := block [notByInterrupt, enterInTask, leaveInTask]

/-- A task that has unblocked another one outside an interrupt changes the context. -/
def changeInTask : Body := ifTrue currentTask (ifFalse iNesting changeContext)

/-- `OSUnBlockPriority`. -/
def osUnBlockPriority : Body := block [enterOutsideInterrupt, changeInTask, leaveOutsideInterrupt]

/-- `OSUnBlockTask`. -/
def osUnBlockTask : Body := block [enterOutsideInterrupt, changeInTask, leaveOutsideInterrupt]

/-- `OSUnBlockMultipleTask`. -/
def osUnBlockMultipleTask : Body :=
  block [
    notByInterrupt,
    enterInTask,
    ifTrue currentTask (block [ifFalse iNesting changeContext, osExitCritical]),
    ret]

/-- `Idle`, between two calls of the application's hook. -/
def idle : Body := forever (ifTrue waitEnables (act (.set true)))

/-! ### `semaphore.c`, `mbox.c` and `mutex.c` -/

/-- The create calls without arguments to check. -/
def eventCreate : Body := block [notByInterrupt, enterInTask, findSlot, leaveInTask]

/-- The delete calls. -/
def eventDelete : Body := block [notByInterrupt, region, ret]

/-- How the calls that may wait begin. -/
def pendEntry (errorCheck : Bool) : Body :=
  block [
    checked errorCheck [notByInterrupt, ifTrue eventNull ret],
    osEnterCritical,
    checked errorCheck [ifTrue notAllocated leave]]

/-- After a timed wait: nothing was received if the caller is still on the wait list. -/
def timedOut : Body := ifTrue exitByTimeout (ifTrue stillWaiting leave)

/-- The wait itself, and what follows. -/
def pendWait : Body :=
  block [
    ifTrue noTimeout leave,
    changeContext,
    osExitCritical,
    osEnterCritical,
    ifTrue timeWait timedOut,
    leave]

/-- How the calls that give something begin. -/
def postEntry (errorCheck : Bool) : Body :=
  block [
    checked errorCheck [ifTrue eventNull ret],
    enterOutsideInterrupt,
    checked errorCheck [ifTrue notAllocated leaveOutsideInterrupt]]

/-- Wake a waiting task. -/
def postWake : Body := block [ifFalse iNesting changeContext, leaveOutsideInterrupt]

/-- `OSSemCreate`. -/
def osSemCreate : Body := eventCreate

/-- `OSSemBinaryCreate`. -/
def osSemBinaryCreate : Body := eventCreate

/-- `OSSemDelete`. -/
def osSemDelete : Body := eventDelete

/-- `OSSemPend`. The region is left and entered again only after a timed wait. -/
def osSemPend (errorCheck : Bool) : Body :=
  block [
    pendEntry errorCheck,
    ifTrue available leave,
    ifTrue noTimeout leave,
    changeContext,
    ifTrue timeWait (block [osExitCritical, osEnterCritical, timedOut]),
    leave]

/-- `OSSemPost`. -/
def osSemPost (errorCheck : Bool) : Body :=
  block [
    postEntry errorCheck,
    ifTrue eventWait postWake,
    ite countBelowMax leaveOutsideInterrupt leaveOutsideInterrupt]

/-- `OSMboxCreate`. -/
def osMboxCreate : Body := eventCreate

/-- `OSMboxDelete`. -/
def osMboxDelete : Body := eventDelete

/-- `OSMboxPend`. -/
def osMboxPend (errorCheck : Bool) : Body :=
  block [pendEntry errorCheck, ite available leave pendWait]

/-- `OSMboxPost`. -/
def osMboxPost (errorCheck : Bool) : Body :=
  block [postEntry errorCheck, ite eventWait postWake leaveOutsideInterrupt]

/-- `OSMutexCreate`. -/
def osMutexCreate : Body :=
  block [
    notByInterrupt,
    enterInTask,
    ifTrue ceilingGiven (ifTrue busyPriority leaveInTask),
    findSlot,
    leaveInTask]

/-- `OSMutexDelete`. -/
def osMutexDelete : Body := eventDelete

/-- `OSMutexAcquire`. -/
def osMutexAcquire (errorCheck : Bool) : Body :=
  block [pendEntry errorCheck, ifTrue ownerIsCaller leave, ite available leave pendWait]

/-- `OSMutexRelease`. -/
def osMutexRelease (errorCheck : Bool) : Body :=
  block [
    pendEntry errorCheck,
    ite ownerIsCaller skip leave,
    ifTrue eventWait (block [changeContext, leave]),
    leave]

/-! ### `queue.c` -/

/-- `OSQueueCreate`. -/
def osQueueCreate : Body :=
  block [notByInterrupt, enterInTask, ifTrue queueHeapFull leaveInTask, findSlot, leaveInTask]

/-- The write calls on a bare queue. -/
def queueWrite : Body :=
  block [enterOutsideInterrupt, ite hasRoom skip leaveOutsideInterrupt, leaveOutsideInterrupt]

/-- The read calls on a bare queue. -/
def queueRead : Body :=
  block [enterOutsideInterrupt, ite hasEntry leaveOutsideInterrupt leaveOutsideInterrupt]

/-- `OSWQueue`. -/
def osWQueue : Body := queueWrite

/-- `OSRQueue`. -/
def osRQueue : Body := queueRead

/-- `OSQueueClean`. -/
def osQueueClean : Body := block [regionOutsideInterrupt, ret]

/-- `OSQueuePend`. -/
def osQueuePend (errorCheck : Bool) : Body :=
  block [pendEntry errorCheck, ite hasEntry leave pendWait]

/-- `OSQueuePost`. -/
def osQueuePost (errorCheck : Bool) : Body :=
  block [
    postEntry errorCheck,
    ite hasRoom skip leaveOutsideInterrupt,
    ite eventWait postWake leaveOutsideInterrupt]

/-- The create calls of the 16-bit and 32-bit queues. -/
def wideQueueCreate : Body :=
  block [notByInterrupt, enterInTask, ifTrue queueHeapFull leaveInTask, leaveInTask]

/-- `OSQueue16Create`. -/
def osQueue16Create : Body := wideQueueCreate

/-- `OSWQueue16`. -/
def osWQueue16 : Body := queueWrite

/-- `OSRQueue16`. -/
def osRQueue16 : Body := queueRead

/-- `OSCleanQueue16`. -/
def osCleanQueue16 : Body := block [regionOutsideInterrupt, ret]

/-- `OSQueue32Create`. -/
def osQueue32Create : Body := wideQueueCreate

/-- `OSWQueue32`. -/
def osWQueue32 : Body := queueWrite

/-- `OSRQueue32`. -/
def osRQueue32 : Body := queueRead

/-- `OSCleanQueue32`. -/
def osCleanQueue32 : Body := block [regionOutsideInterrupt, ret]

/-- `OSDQueueCreate`: handler, storage and event block are allocated inside the region. -/
def osDQueueCreate : Body :=
  block [
    notByInterrupt,
    enterInTask,
    ite parametersValid
      (block [
        call ummMalloc,
        ite handlerAllocated
          (block [
            call ummMalloc,
            ite storageAllocated
              (block [
                call ummMalloc,
                ifTrue eventNull (block [call ummFree, call ummFree, leaveInTask])])
              (block [call ummFree, leaveInTask])])
          leaveInTask])
      leaveInTask,
    leaveInTask]

/-- `OSDQueueDelete`. -/
def osDQueueDelete : Body :=
  block [notByInterrupt, osEnterCritical, call ummFree, call ummFree, call ummFree, leave]

/-- `OSDQueueClean`. -/
def osDQueueClean : Body := block [regionOutsideInterrupt, ret]

/-- `OSDQueuePend`. -/
def osDQueuePend (errorCheck : Bool) : Body :=
  block [pendEntry errorCheck, ite hasEntry leave pendWait]

/-- `OSDQueuePost`. -/
def osDQueuePost (errorCheck : Bool) : Body :=
  block [
    postEntry errorCheck,
    ite hasRoom skip leaveOutsideInterrupt,
    ite eventWait postWake leaveOutsideInterrupt]

/-! ### `OSTime.c` -/

/-- `OSUpdateTime`. -/
def osUpdateTime : Body := regionOutsideInterrupt

/-- `OSUpdateUptime`. -/
def osUpdateUptime : Body := regionOutsideInterrupt

/-- `OSUpdateDate`. -/
def osUpdateDate : Body := regionOutsideInterrupt

/-- `OSResetTime`. -/
def osResetTime : Body := regionOutsideInterrupt

/-- `OSResetDate`. -/
def osResetDate : Body := regionOutsideInterrupt

/-- `GetCalendar`. -/
def getCalendar : Body := region

/-- `SetCalendar`. -/
def setCalendar : Body := region

/-- `Init_Calendar`. -/
def initCalendar : Body := call setCalendar

/-! ### `stimer.c` -/

/-- `BRTOS_TimerTaskInit`. -/
def brtosTimerTaskInit : Body := regionInTask

/-- `BRTOS_TimerTaskSleep`. -/
def brtosTimerTaskSleep : Body := block [osEnterCritical, changeContext, osExitCritical]

/-- A callback of the application, after which interrupts may be either way. -/
def callback : Body := ite callbackEnables (act (.set true)) (act (.set false))

/-- One expired timer: its callback, and inside a region its removal or its new timeout,
which is counted from `OSGetTickCount()`. -/
def serveTimer : Body :=
  block [
    ifTrue hasCallback callback,
    osEnterCritical,
    ifTrue repeats (call osGetTickCount),
    osExitCritical]

/-- `BRTOSTimerTask`. The first loop serves all timers that are left when the counter has
gone round, the second those that have expired. -/
def brtosTimerTask : Body :=
  forever (block [
    call brtosTimerTaskSleep,
    ifFalse timerNull (block [
      call osGetTickCount,
      ifTrue timeoutAhead (loop (ite timerNull brk serveTimer))]),
    loop (ite timerNull brk (block [call osGetTickCount, ite timeoutAhead brk serveTimer]))])

/-- `OSTimerInit`. -/
def osTimerInit (dynamicTasksEnabled : Bool) : Body :=
  block [
    call brtosTimerTaskInit,
    call (osInstallTask dynamicTasksEnabled),
    ifTrue installFailed (forever skip)]

/-- `OSTimerSet`. -/
def osTimerSet : Body :=
  block [
    ifTrue argumentNull ret,
    enterInTask,
    whileTrue loopGoesOn (block [
      ifTrue tableFull leaveInTask,
      ifTrue notAllocated leaveInTask,
      ifTrue slotFree brk]),
    leaveInTask]

/-- The calls on a timer that was set before. -/
def timerCall : Body := block [ifTrue timerGiven (block [regionInTask, ret]), ret]

/-- `OSTimerGet`. -/
def osTimerGet : Body := timerCall

/-- `OSTimerStart`. -/
def osTimerStart : Body := timerCall

/-- `OSTimerStop`. -/
def osTimerStop : Body := timerCall

/-! ### `OSInfo.c` -/

/-- `OSTaskList`. -/
def osTaskList : Body :=
  whileTrue loopGoesOn (ifTrue taskInstalled (block [region, region, region, region]))

/-- `OSRuntimeStats`. -/
def osRuntimeStats : Body := whileTrue loopGoesOn (ifTrue taskInstalled region)

/-- `OSAvailableMemory`. -/
def osAvailableMemory (dynamicTasksEnabled dynamicQueueEnabled queueHeap : Bool) : Body :=
  block [
    region,
    if dynamicTasksEnabled then call osGetUsedHeapSize else skip,
    if queueHeap then region else skip,
    if dynamicQueueEnabled && !dynamicTasksEnabled then call osGetUsedHeapSize else skip]

/-- `OSUptimeInfo`. -/
def osUptimeInfo : Body := region

/-- `OSCPULoad`. -/
def osCPULoad : Body := region

end Body

/-- The functions above. -/
inductive KernelFunction
  | ummInfo | osGetUsedHeapSize | osGetFreeHeapSize | ummFree | ummMalloc | ummCalloc
  | osGetCurrentTaskHandle | osGetTaskPriority | osGetTickCount | osDelayTask | osDelayTaskHMSM
  | osInstallTask | osUninstallTask | brtosStart | osBlockPriority | osBlockTask
  | osBlockMultipleTask | osUnBlockPriority | osUnBlockTask | osUnBlockMultipleTask | idle
  | osSemCreate | osSemBinaryCreate | osSemDelete | osSemPend | osSemPost
  | osMboxCreate | osMboxDelete | osMboxPend | osMboxPost
  | osMutexCreate | osMutexDelete | osMutexAcquire | osMutexRelease
  | osQueueCreate | osWQueue | osRQueue | osQueueClean | osQueuePend | osQueuePost
  | osQueue16Create | osWQueue16 | osRQueue16 | osCleanQueue16
  | osQueue32Create | osWQueue32 | osRQueue32 | osCleanQueue32
  | osDQueueCreate | osDQueueDelete | osDQueueClean | osDQueuePend | osDQueuePost
  | osUpdateTime | osUpdateUptime | osUpdateDate | osResetTime | osResetDate
  | getCalendar | setCalendar | initCalendar
  | brtosTimerTaskInit | brtosTimerTaskSleep | brtosTimerTask | osTimerInit | osTimerSet
  | osTimerGet | osTimerStart | osTimerStop
  | osTaskList | osRuntimeStats | osAvailableMemory | osUptimeInfo | osCPULoad
  deriving DecidableEq, Repr

/-- The control flow of a function in a build. -/
def KernelFunction.body (b : Build) : KernelFunction → Body
  | ummInfo => Body.ummInfo
  | osGetUsedHeapSize => Body.osGetUsedHeapSize
  | osGetFreeHeapSize => Body.osGetFreeHeapSize
  | ummFree => Body.ummFree
  | ummMalloc => Body.ummMalloc
  | ummCalloc => Body.ummCalloc
  | osGetCurrentTaskHandle => Body.osGetCurrentTaskHandle
  | osGetTaskPriority => Body.osGetTaskPriority
  | osGetTickCount => Body.osGetTickCount
  | osDelayTask => Body.osDelayTask
  | osDelayTaskHMSM => Body.osDelayTaskHMSM
  | osInstallTask => Body.osInstallTask b.dynamicTasksEnabled
  | osUninstallTask => Body.osUninstallTask
  | brtosStart => Body.brtosStart b.dynamicTasksEnabled
  | osBlockPriority => Body.osBlockPriority
  | osBlockTask => Body.osBlockTask
  | osBlockMultipleTask => Body.osBlockMultipleTask
  | osUnBlockPriority => Body.osUnBlockPriority
  | osUnBlockTask => Body.osUnBlockTask
  | osUnBlockMultipleTask => Body.osUnBlockMultipleTask
  | idle => Body.idle
  | osSemCreate => Body.osSemCreate
  | osSemBinaryCreate => Body.osSemBinaryCreate
  | osSemDelete => Body.osSemDelete
  | osSemPend => Body.osSemPend b.errorCheck
  | osSemPost => Body.osSemPost b.errorCheck
  | osMboxCreate => Body.osMboxCreate
  | osMboxDelete => Body.osMboxDelete
  | osMboxPend => Body.osMboxPend b.errorCheck
  | osMboxPost => Body.osMboxPost b.errorCheck
  | osMutexCreate => Body.osMutexCreate
  | osMutexDelete => Body.osMutexDelete
  | osMutexAcquire => Body.osMutexAcquire b.errorCheck
  | osMutexRelease => Body.osMutexRelease b.errorCheck
  | osQueueCreate => Body.osQueueCreate
  | osWQueue => Body.osWQueue
  | osRQueue => Body.osRQueue
  | osQueueClean => Body.osQueueClean
  | osQueuePend => Body.osQueuePend b.errorCheck
  | osQueuePost => Body.osQueuePost b.errorCheck
  | osQueue16Create => Body.osQueue16Create
  | osWQueue16 => Body.osWQueue16
  | osRQueue16 => Body.osRQueue16
  | osCleanQueue16 => Body.osCleanQueue16
  | osQueue32Create => Body.osQueue32Create
  | osWQueue32 => Body.osWQueue32
  | osRQueue32 => Body.osRQueue32
  | osCleanQueue32 => Body.osCleanQueue32
  | osDQueueCreate => Body.osDQueueCreate
  | osDQueueDelete => Body.osDQueueDelete
  | osDQueueClean => Body.osDQueueClean
  | osDQueuePend => Body.osDQueuePend b.errorCheck
  | osDQueuePost => Body.osDQueuePost b.errorCheck
  | osUpdateTime => Body.osUpdateTime
  | osUpdateUptime => Body.osUpdateUptime
  | osUpdateDate => Body.osUpdateDate
  | osResetTime => Body.osResetTime
  | osResetDate => Body.osResetDate
  | getCalendar => Body.getCalendar
  | setCalendar => Body.setCalendar
  | initCalendar => Body.initCalendar
  | brtosTimerTaskInit => Body.brtosTimerTaskInit
  | brtosTimerTaskSleep => Body.brtosTimerTaskSleep
  | brtosTimerTask => Body.brtosTimerTask
  | osTimerInit => Body.osTimerInit b.dynamicTasksEnabled
  | osTimerSet => Body.osTimerSet
  | osTimerGet => Body.osTimerGet
  | osTimerStart => Body.osTimerStart
  | osTimerStop => Body.osTimerStop
  | osTaskList => Body.osTaskList
  | osRuntimeStats => Body.osRuntimeStats
  | osAvailableMemory =>
    Body.osAvailableMemory b.dynamicTasksEnabled b.dynamicQueueEnabled b.queueHeap
  | osUptimeInfo => Body.osUptimeInfo
  | osCPULoad => Body.osCPULoad

end Brtos
