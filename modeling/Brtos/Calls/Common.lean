import Brtos.Scheduler

/-!
# Brtos.Calls.Common

What the kernel calls have in common: how a call can end, the `ERROR_CHECK`
prologue, the search for a free control block, and the three code fragments that
`semaphore.c`, `mbox.c`, `queue.c` and `mutex.c` repeat word for word:

* `waitEvent`, by which a pend enters the wait list and suspends its caller;
* `wakeUp`, by which the caller finds out, when it runs again, whether it was
  woken by a post or by the tick;
* `wakeWaiter`, by which a post selects the highest-priority waiter.

A call is an atomic step up to its `ChangeContext`. What follows `ChangeContext`
in the calls that do not suspend is only the end of the critical section and the
return, so such a call ends in `Outcome.switched` with the code it will return.
-/

namespace Brtos

open Bits

/-- What a call writes through its out-pointer. -/
inductive Out
  | nothing
  | byte (b : UInt8)
  | message (m : Nat)
  | event (ev : Event)
  | handle (h : Nat)
  deriving DecidableEq, Repr

/-- A call's return code and what it wrote through its out-pointer. -/
structure Ret where
  code : RetCode
  out : Out
  deriving DecidableEq, Repr

/-- A return with nothing written. -/
abbrev RetCode.ret (c : RetCode) : Ret := ⟨c, .nothing⟩

/-- How the critical section of a call ends. -/
inductive Outcome
  /-- The call returns to its caller. -/
  | returned (r : Ret)
  /-- `ChangeContext`, after which nothing is left but to return `r`. -/
  | switched (r : Ret)
  /-- `ChangeContext` in the middle of the call; the rest is in the task's frame. -/
  | suspended
  deriving DecidableEq, Repr

variable {cfg : Config}

namespace Kernel

/-! ### Checks and searches -/

/-- The `ERROR_CHECK` tests of a post: a null pointer, a block that is not
allocated. Without `ERROR_CHECK` a null pointer is dereferenced (`none`). -/
def checkEvent (s : Kernel cfg) (kind : Nat → Event) (pontEvent : Option Nat)
    (body : Nat → Kernel cfg × Outcome) : Option (Kernel cfg × Outcome) :=
  match pontEvent with
  | none =>
    if cfg.errorCheck then some (s, .returned RetCode.nullEventPointer.ret) else none
  | some i =>
    if cfg.errorCheck ∧ ¬ s.Allocated (kind i) then
      some (s, .returned RetCode.errEventNoCreated.ret)
    else some (body i)

/-- The `ERROR_CHECK` tests of a pend, which first refuse a caller that is an
interrupt; `out` is what the refusal writes. -/
def checkPend (s : Kernel cfg) (kind : Nat → Event) (pontEvent : Option Nat) (out : Out)
    (body : Nat → Kernel cfg × Outcome) : Option (Kernel cfg × Outcome) :=
  if cfg.errorCheck ∧ 0 < s.iNesting then some (s, .returned ⟨.irqPendErr, out⟩)
  else s.checkEvent kind pontEvent body

/-- The first block of a table that is not allocated. -/
def freeEvent (s : Kernel cfg) (kind : Nat → Event) (max : Nat) : Option Nat :=
  (List.range max).find? fun i => !(s.event (kind i)).osEventAllocated

/-- Allocate a block with no waiters. -/
def allocEvent (s : Kernel cfg) (ev : Event) : Kernel cfg :=
  s.setEvent ev fun _ => ⟨true, 0, 0⟩

/-- Free a block, whatever is in its wait list. -/
def deleteEvent (s : Kernel cfg) (ev : Event) : Kernel cfg :=
  s.setEvent ev fun _ => ⟨false, 0, 0⟩

/-! ### Waiting and waking -/

/-- Take priority `p` out of an event's wait list and count it out. -/
def leaveWaitList (s : Kernel cfg) (ev : Event) (p : Nat) : Kernel cfg :=
  s.setEvent ev fun e =>
    { e with
      osEventWaitList := e.osEventWaitList &&& ~~~ priorityMask cfg p
      osEventWait := (e.osEventWait + 255) % 256 }

/-- Start the running task's timeout: a deadline and a place in the delay list,
or no deadline at all for a wait without timeout. -/
def startTimeout (s : Kernel cfg) (timeWait : Nat) : Kernel cfg :=
  if timeWait ≠ 0 then
    (s.setTimeToWait s.currentTask
      (deadline cfg s.osTickCounter timeWait)).includeTaskIntoDelayList s.currentTask
  else s.setTimeToWait s.currentTask cfg.noTimeout

/-- The blocking part of a pend: the running task enters the wait list, leaves the
ready list and starts its timeout. -/
def waitEvent (s : Kernel cfg) (ev : Event) (timeWait : Nat) : Kernel cfg :=
  let iPriority := s.prio s.currentTask
  let s := s.setEvent ev fun e =>
    { e with
      osEventWait := (e.osEventWait + 1) % 256
      osEventWaitList := e.osEventWaitList ||| priorityMask cfg iPriority }
  let s := s.clearReady iPriority
  let s := s.startTimeout timeWait
  s.setFrame s.currentTask (.pend ev iPriority timeWait)

/-- The part of a pend that follows `ChangeContext`: `true` when the wait ended by
timeout, in which case the task takes itself out of the wait list. A task that
was timed out *and* selected by a post finds its bit gone and counts as woken. -/
def wakeUp (s : Kernel cfg) (ev : Event) (iPriority timeWait : Nat) : Kernel cfg × Bool :=
  if timeWait ≠ 0 then
    if (s.contextTask s.currentTask).timeToWait = cfg.exitByTimeout then
      if (s.event ev).osEventWaitList &&& priorityMask cfg iPriority ≠ 0 then
        (s.leaveWaitList ev iPriority, true)
      else (s, false)
    else
      ((s.setTimeToWait s.currentTask cfg.noTimeout).removeFromDelayList s.currentTask, false)
  else (s, false)

/-- The waking part of a post: the highest-priority waiter leaves the wait list
and becomes ready. -/
def wakeWaiter (s : Kernel cfg) (ev : Event) : Kernel cfg :=
  let iPriority := saScheduler (s.event ev).osEventWaitList
  (s.leaveWaitList ev iPriority).setReady iPriority

/-- After a post has woken a task: a task changes context, an interrupt leaves
that to its exit. -/
def afterWake (s : Kernel cfg) (r : Ret) : Outcome :=
  if s.iNesting = 0 then .switched r else .returned r

end Kernel

end Brtos
