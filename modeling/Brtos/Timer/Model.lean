import Brtos.Config
import Brtos.Lib.BinaryHeap
import Brtos.Lib.Run
import Mathlib.Algebra.Group.Int.Defs

/-!
# Brtos.Timer.Model

The **soft timer service** (`stimer.c`): the timer control blocks, the two timer lists,
the calls, and the task that runs the callbacks.

A list is a binary heap of pointers to control blocks, ordered by `timeout`, in the
entries `1 .. count` of an array of `BRTOS_MAX_TIMER` entries. `current` holds the
timers that expire before the tick counter wraps, `future` the others; the task
exchanges the two. Dereferencing `NULL` and indexing past the array have no meaning:
the operations return `none` there. Entry 0 exists but belongs to no timer, so whether
it was touched is recorded (`touchedZero`).

The service is modelled by itself. Of the kernel it sees the tick counter, whether the
scheduler runs, and the timer task's entry in the delay list: `timeToWait`, and whether
the task is in the list (`asleep`). The task is split where other tasks, interrupts or
its own callbacks may come between: `taskStep` is one piece, from one access of shared
variables to the next.

`now` and `due` are history variables: the number of ticks so far, and the tick at which
a timer expires, which is the tick it was armed at, or its callback returned, and the
ticks asked for then.
-/

namespace Brtos

open BinaryHeap

/-- A build with the timer service. The task reads entry 1 of a list, and `count` is an
`int8_t`. -/
structure TimerConfig extends Config where
  /-- `BRTOS_MAX_TIMER`. -/
  brtosMaxTimer : Nat
  two_le : 2 ≤ brtosMaxTimer
  le_128 : brtosMaxTimer ≤ 128

/-- `TIMER_MAX_COUNTER`. -/
def TimerConfig.timerMaxCounter (tc : TimerConfig) : Nat := tc.tickCountOverflow - 1

/-- `TIMER_STATE`. -/
inductive TimerState
  | notAllocated | notUsed | stopped | running | search
  deriving DecidableEq, Repr

/-- `BRTOS_TIMER_T`; a callback is a number, `none` for `NULL`. -/
structure Timer where
  funcCb : Option Nat
  timeout : Nat
  state : TimerState
  deriving DecidableEq, Repr

/-- `BRTOS_TMR_T`; pointers are indices into `mem`. -/
structure TimerList where
  timers : Nat → Option Nat
  count : Nat
  /-- Entry 0 was read or written. -/
  touchedZero : Bool

/-- Where the timer task is. -/
inductive TaskPc
  /-- Before its first statement. -/
  | init
  /-- `Task->TimeToWait = next_time_to_wake`. -/
  | store
  /-- The critical section of `BRTOS_TimerTaskSleep`. -/
  | sleep
  /-- In the delay list. -/
  | asleep
  /-- `p = list->timers[1]` after the sleep. -/
  | woken
  /-- The test for a wrapped counter. -/
  | wrapTest
  /-- The loop that empties the current list. -/
  | drain
  /-- A callback of that loop. -/
  | drainCallback
  /-- The loop over the expired timers. -/
  | test
  /-- A callback of that loop. -/
  | callback
  /-- The test for switching the lists. -/
  | switchTest
  /-- The next time to wake. -/
  | plan
  deriving DecidableEq, Repr

/-- The timer service and what it sees of the kernel. -/
structure TimerService (tc : TimerConfig) where
  osTickCounter : Nat
  /-- `currentTask` is not 0. -/
  started : Bool
  mem : Nat → Timer
  current : TimerList
  future : TimerList
  /-- `ContextTask[handling_task].TimeToWait`. -/
  timeToWait : Nat
  pc : TaskPc
  /-- The task's local variables. -/
  p : Option Nat
  nextTimeToWake : Nat
  timeout : Nat
  /-- The timer in hand has a callback. -/
  called : Bool
  now : Nat
  due : Nat → Nat

variable {tc : TimerConfig}

/-! ### The heap of timers -/

/-- `timers[i]`. -/
def slot (tc : TimerConfig) (timers : Nat → Option Nat) (i : Nat) : Option (Option Nat) :=
  if i < tc.brtosMaxTimer then some (timers i) else none

/-- `timers[i]->timeout`. -/
def timeoutAt (tc : TimerConfig) (mem : Nat → Timer) (timers : Nat → Option Nat) (i : Nat) :
    Option Nat :=
  (slot tc timers i).bind fun p => p.map fun p => (mem p).timeout

/-- `Subir`. -/
def subir (tc : TimerConfig) (mem : Nat → Timer) :
    Nat → (Nat → Option Nat) → Nat → Option (Nat → Option Nat)
  | 0, _, _ => none
  | fuel + 1, timers, i =>
    if 1 < i then
      (timeoutAt tc mem timers (i / 2)).bind fun above =>
        (timeoutAt tc mem timers i).bind fun here =>
          if above > here then subir tc mem fuel (swapAt timers (i / 2) i) (i / 2)
          else some timers
    else some timers

/-- `timers[a] != NULL && timers[b] != NULL && timers[a]->timeout < timers[b]->timeout`. -/
def before (tc : TimerConfig) (mem : Nat → Timer) (timers : Nat → Option Nat) (a b : Nat) :
    Option Bool :=
  (slot tc timers a).bind fun
    | none => some false
    | some x => (slot tc timers b).map fun
      | none => false
      | some y => decide ((mem x).timeout < (mem y).timeout)

/-- `Descer`, with `LEFT` and `RIGHT` reduced to `uint8_t`. -/
def descer (tc : TimerConfig) (mem : Nat → Timer) :
    Nat → (Nat → Option Nat) → Nat → Nat → Option (Nat → Option Nat)
  | 0, _, _, _ => none
  | fuel + 1, timers, i, n =>
    let left := 2 * i % 256
    let right := (2 * i + 1) % 256
    (if right ≤ n then before tc mem timers right left else some false).bind fun takeRight =>
      let son := if takeRight then right else left
      (if son ≤ n then before tc mem timers son i else some false).bind fun down =>
        if down then descer tc mem fuel (swapAt timers son i) son n else some timers

namespace TimerList

/-- Insert at the end and order; the count stops at `BRTOS_MAX_TIMER - 1`. -/
def insert (tc : TimerConfig) (mem : Nat → Timer) (l : TimerList) (p : Nat) : Option TimerList :=
  let count := if l.count < tc.brtosMaxTimer - 1 then l.count + 1 else l.count
  (subir tc mem 256 (Function.update l.timers count (some p)) count).map fun timers =>
    { l with timers := timers, count := count }

/-- The last entry takes the place of the first. -/
def removeRoot (l : TimerList) : TimerList where
  timers := Function.update (Function.update l.timers 1 (l.timers l.count)) l.count none
  count := l.count - 1
  touchedZero := l.touchedZero || l.count == 0

/-- `Descer (list->timers, 1, list->count)`. -/
def reorder (tc : TimerConfig) (mem : Nat → Timer) (l : TimerList) : Option TimerList :=
  (descer tc mem 256 l.timers 1 l.count).map fun timers => { l with timers := timers }

/-- The search of `OSTimerStop` from position `pos` on. -/
def searchFrom (tc : TimerConfig) (mem : Nat → Timer) (l : TimerList) : Nat → Nat → Option Nat
  | 0, pos => some pos
  | fuel + 1, pos =>
    if pos ≤ l.count then
      (slot tc l.timers pos).bind fun
        | none => none
        | some q => if (mem q).state = .search then some pos else searchFrom tc mem l fuel (pos + 1)
    else some pos

end TimerList

namespace TimerService

def setTimer (s : TimerService tc) (p : Nat) (f : Timer → Timer) : TimerService tc :=
  { s with mem := Function.update s.mem p (f (s.mem p)) }

def setCurrent (s : TimerService tc) (list : TimerList) : TimerService tc :=
  { s with current := list }

def setFuture (s : TimerService tc) (list : TimerList) : TimerService tc :=
  { s with future := list }

def setDue (s : TimerService tc) (p time : Nat) : TimerService tc :=
  { s with due := Function.update s.due p time }

def setPc (s : TimerService tc) (pc : TaskPc) : TimerService tc := { s with pc := pc }

/-- `BRTOS_TimerTaskInit`, on zeroed globals. -/
def init (tc : TimerConfig) : TimerService tc where
  osTickCounter := 0
  started := false
  mem := fun _ => ⟨none, 0, .notUsed⟩
  current := ⟨fun _ => none, 0, false⟩
  future := ⟨fun _ => none, 0, false⟩
  timeToWait := 0
  pc := .init
  p := none
  nextTimeToWake := 0
  timeout := 0
  called := false
  now := 0
  due := fun _ => 0

/-! ### The calls -/

/-- Before the timer task has run, `handling_task` is 0, a slot no task uses. -/
def setWake (s : TimerService tc) (v : Nat) : TimerService tc :=
  if s.pc = .init then s else { s with timeToWait := v }

/-- The timer enters the future list. -/
def armFuture (s : TimerService tc) (p timeout : Nat) : Option (TimerService tc) :=
  let s := s.setTimer p fun t => { t with timeout := timeout }
  (s.future.insert tc s.mem p).map fun list =>
    (s.setFuture list).setTimer p fun t => { t with state := .running }

/-- The timer enters the current list; if it comes first there, the timer task has to
wake up for it. -/
def armCurrent (s : TimerService tc) (p timeout : Nat) : Option (TimerService tc) :=
  let s := s.setTimer p fun t => { t with timeout := timeout }
  (s.current.insert tc s.mem p).bind fun list =>
    let s := s.setCurrent list
    (if s.started then
      (timeoutAt tc s.mem list.timers 1).map fun first =>
        if (s.mem p).timeout = first then s.setWake (s.mem p).timeout else s
    else some s).map fun s => s.setTimer p fun t => { t with state := .running }

/-- The common part of `OSTimerSet` and `OSTimerStart`: the timer enters the list its
timeout belongs to. -/
def arm (s : TimerService tc) (p timeWait : Nat) : Option (TimerService tc) :=
  let timeout := (s.osTickCounter + timeWait) % 2 ^ (2 * tc.tickBits)
  let s := s.setDue p (s.now + timeWait)
  if timeout ≥ tc.tickCountOverflow then
    s.armFuture p ((timeout - tc.tickCountOverflow) % 2 ^ tc.tickBits)
  else s.armCurrent p (timeout % 2 ^ tc.tickBits)

/-- The search of `OSTimerSet` for a free control block, from block `i` on. -/
def searchFree (mem : Nat → Timer) : Nat → Nat → Except RetCode Nat
  | 0, _ => .error .noAvailableEvent
  | fuel + 1, i =>
    if (mem i).state = .notAllocated then .error .errEventNoCreated
    else if (mem i).state = .notUsed then .ok i
    else searchFree mem fuel (i + 1)

/-- `OSTimerSet`; `cbp` says whether the pointer to store the timer at is not `NULL`. The
second result is what is stored there. -/
def osTimerSet (s : TimerService tc) (cbp : Bool) (cb : Option Nat) (timeWait : Nat) :
    Option (TimerService tc × RetCode × Option Nat) :=
  match cb, cbp with
  | some cb, true =>
    match searchFree s.mem tc.brtosMaxTimer 0 with
    | .error code => some (s, code, none)
    | .ok p =>
      let s := s.setTimer p fun t => { t with state := .stopped, funcCb := some cb }
      (if timeWait > 0 then s.arm p timeWait else some s).map fun s => (s, .ok, some p)
  | _, _ => some (s, .nullEventPointer, none)

/-- `OSTimerStart`. -/
def osTimerStart (s : TimerService tc) (p : Option Nat) (timeWait : Nat) :
    Option (TimerService tc × RetCode) :=
  match p with
  | some p =>
    if timeWait ≠ 0 then
      let timeWait := if timeWait > tc.timerMaxCounter then tc.timerMaxCounter else timeWait
      (if timeWait > 0 then s.arm p timeWait else some s).map (·, .ok)
    else some (s, .nullEventPointer)
  | none => some (s, .nullEventPointer)

/-- The list `OSTimerStop` looks for the timer in: the current one if its timeout has not
passed. -/
def stopsInCurrent (s : TimerService tc) (p : Nat) : Bool :=
  decide ((s.mem p).timeout ≥ s.osTickCounter)

/-- `OSTimerStop` on one list. The timer is made the smallest, moved to the root and
removed there. -/
def takeOut (s : TimerService tc) (l : TimerList) (p : Nat) :
    Option (TimerService tc × TimerList) :=
  let s := s.setTimer p fun t => { t with state := .search }
  (l.searchFrom tc s.mem 256 1).bind fun pos =>
    let s := s.setTimer p fun t => { t with timeout := 0 }
    (subir tc s.mem 256 l.timers pos).bind fun timers =>
      (({ l with timers := timers }.removeRoot).reorder tc s.mem).map fun l => (s, l)

/-- `OSTimerStop`. -/
def osTimerStop (s : TimerService tc) (p : Option Nat) (del : Bool) :
    Option (TimerService tc × RetCode) :=
  match p with
  | some p =>
    (if s.stopsInCurrent p then
      (s.takeOut s.current p).map fun x => x.1.setCurrent x.2
    else
      (s.takeOut s.future p).map fun x => x.1.setFuture x.2).map fun s =>
      (s.setTimer p fun t =>
        if del then { t with state := .notUsed, funcCb := none } else { t with state := .stopped },
        .ok)
  | none => some (s, .nullEventPointer)

/-- `OSTimerGet`. -/
def osTimerGet (s : TimerService tc) (p : Option Nat) : Nat :=
  match p with
  | some p =>
    if (s.mem p).state = .running then
      if (s.mem p).timeout ≥ s.osTickCounter then (s.mem p).timeout - s.osTickCounter
      else (tc.timerMaxCounter + 2 ^ tc.tickBits - s.osTickCounter + (s.mem p).timeout + 1) %
        2 ^ tc.tickBits
    else 0
  | none => 0

/-! ### The timer task -/

/-- The timer at the root of the current list. -/
def root (s : TimerService tc) : Option Nat := s.current.timers 1

/-- `p = list->timers[1]`. -/
def readRoot (s : TimerService tc) : TimerService tc := { s with p := s.root }

/-- Exchange the lists. -/
def switchLists (s : TimerService tc) : TimerService tc :=
  { s with current := s.future, future := s.current }

/-- The end of an expiry whose callback returned 0 or was `NULL`: the timer is free. -/
def release (s : TimerService tc) (p : Nat) : TimerService tc :=
  (s.setTimer p fun _ => ⟨none, 0, .notUsed⟩).setCurrent s.current.removeRoot

/-- A timer moves from the root of the current list into the future list. -/
def moveToFuture (s : TimerService tc) (p timeout : Nat) : Option (TimerService tc) :=
  let s := s.setTimer p fun t => { t with timeout := timeout }
  (s.future.insert tc s.mem p).map fun list =>
    (s.setFuture list).setCurrent s.current.removeRoot

/-- The end of both critical sections: order the list and look at its root. -/
def nextRoot (s : TimerService tc) (pc : TaskPc) : Option (TimerService tc) :=
  (s.current.reorder tc s.mem).map fun list => ((s.setCurrent list).readRoot).setPc pc

/-- The timer is armed again by its callback's return value. -/
def rearm (s : TimerService tc) (p repeats : Nat) : TimerService tc :=
  { s.setTimer p fun t => { t with state := .running } with
    timeout := (s.osTickCounter + repeats) % 2 ^ (2 * tc.tickBits)
    due := Function.update s.due p (s.now + repeats) }

/-- The critical section after a callback of the emptying loop. -/
def finishDrain (s : TimerService tc) (p repeats : Nat) : Option (TimerService tc) :=
  (if repeats > 0 then
    let s := s.rearm p repeats
    s.moveToFuture p (s.timeout % 2 ^ tc.tickBits)
  else some (s.release p)).bind fun s => s.nextRoot .drain

/-- The critical section after a callback of the loop over the expired timers. -/
def finishExpired (s : TimerService tc) (p repeats : Nat) : Option (TimerService tc) :=
  (if repeats > 0 then
    let s := s.rearm p repeats
    if s.timeout ≥ tc.tickCountOverflow then
      s.moveToFuture p ((s.timeout - tc.tickCountOverflow) % 2 ^ tc.tickBits)
    else some (s.setTimer p fun t => { t with timeout := s.timeout % 2 ^ tc.tickBits })
  else some (s.release p)).bind fun s => s.nextRoot .test

/-- A timer expires: its callback, if it has one, is called. -/
def fire (s : TimerService tc) (p : Nat) (pc : TaskPc) : TimerService tc :=
  { s.setTimer p fun t => { t with state := .stopped } with
    pc := pc
    called := (s.mem p).funcCb.isSome }

/-- `repeat`: what the callback returned, 0 if there is none. -/
def repeatOf (s : TimerService tc) (repeats : Nat) : Nat := if s.called then repeats else 0

/-- The wake-up tick for what the task has in hand. -/
def wakeTick (s : TimerService tc) : Nat :=
  match s.p with
  | some p => (s.mem p).timeout
  | none => tc.timerMaxCounter

def setNext (s : TimerService tc) : TimerService tc := { s with nextTimeToWake := s.wakeTick }

end TimerService

/-- What an action shows: the code a call returned, with the timer of `OSTimerSet`, or
that a timer expires and its callback, if it has one, is called. -/
inductive TimerObs
  | returned (code : RetCode) (timer : Option Nat)
  | fired (p : Nat)
  | silent
  deriving DecidableEq, Repr

namespace TimerService

/-- One piece of `BRTOSTimerTask`; `repeats` is what the callback returns, where one
does. `none` when the task is asleep. -/
def taskStep (s : TimerService tc) (repeats : Nat) : Option (TimerService tc × TimerObs) :=
  match s.pc with
  | .init => some (s.readRoot.setNext.setPc .store, .silent)
  | .store => some ({ s with timeToWait := s.nextTimeToWake, pc := .sleep }, .silent)
  | .sleep => some (s.setPc .asleep, .silent)
  | .asleep => none
  | .woken => some (s.readRoot.setPc .wrapTest, .silent)
  | .wrapTest =>
    match s.p with
    | some p =>
      -- a root that is still ahead belongs to the period that is over
      if (s.mem p).timeout > s.osTickCounter then some (s.setPc .drain, .silent)
      else some (s.setPc .test, .silent)
    | none => some (s.setPc .test, .silent)
  | .drain =>
    match s.p with
    | some p => some (s.fire p .drainCallback, .fired p)
    | none => some (s.switchLists.readRoot.setPc .test, .silent)
  | .drainCallback => s.p.bind fun p => (s.finishDrain p (s.repeatOf repeats)).map (·, .silent)
  | .test =>
    match s.p with
    | some p =>
      if (s.mem p).timeout ≤ s.osTickCounter then some (s.fire p .callback, .fired p)
      else some (s.setPc .switchTest, .silent)
    | none => some (s.setPc .switchTest, .silent)
  | .callback => s.p.bind fun p => (s.finishExpired p (s.repeatOf repeats)).map (·, .silent)
  | .switchTest =>
    -- `timeout` is what was computed for the last timer that was repeated
    if s.timeout > tc.timerMaxCounter ∧ s.p = none then
      some (s.switchLists.readRoot.setPc .plan, .silent)
    else some (s.setPc .plan, .silent)
  | .plan => some (s.setNext.setPc .store, .silent)

/-- `OSIncCounter` and, for the timer task, `OS_TICK_HANDLER`. -/
def tick (s : TimerService tc) : TimerService tc :=
  let count := (s.osTickCounter + 1) % 2 ^ tc.tickBits
  let s : TimerService tc := { s with
    osTickCounter := if count = tc.tickCountOverflow then 0 else count
    now := s.now + 1 }
  -- equal, not reached: a wake-up tick that has passed is waited for a whole period
  if s.pc = .asleep ∧ s.timeToWait = s.osTickCounter then
    { s with pc := .woken, timeToWait := tc.exitByTimeout }
  else s

end TimerService

/-- The calls of the timer service. -/
inductive TimerCall
  | set (cbp : Bool) (cb : Option Nat) (timeWait : Nat)
  | start (p : Option Nat) (timeWait : Nat)
  | stop (p : Option Nat) (del : Bool)
  deriving DecidableEq, Repr

/-- What can happen next. -/
inductive TimerAct
  | call (c : TimerCall)
  | brtosStart
  | tick
  | task (repeats : Nat)
  deriving DecidableEq, Repr

namespace TimerService

/-- The action can be taken: a call at any time, a tick once the scheduler runs, a step
of the timer task when it is not in the delay list. -/
def enabled (s : TimerService tc) : TimerAct → Bool
  | .call _ => true
  | .brtosStart => !s.started
  | .tick => s.started
  | .task _ => s.started && s.pc != .asleep

/-- One step of the service; `none` if it is not enabled, or has no meaning. -/
def step (s : TimerService tc) (a : TimerAct) : Option (TimerService tc × TimerObs) :=
  if s.enabled a then
    match a with
    | .call (.set cbp cb timeWait) =>
      (s.osTimerSet cbp cb timeWait).map fun x => (x.1, .returned x.2.1 x.2.2)
    | .call (.start p timeWait) => (s.osTimerStart p timeWait).map fun x => (x.1, .returned x.2 none)
    | .call (.stop p del) => (s.osTimerStop p del).map fun x => (x.1, .returned x.2 none)
    | .brtosStart => some ({ s with started := true }, .silent)
    | .tick => some (s.tick, .silent)
    | .task repeats => s.taskStep repeats
  else none

end TimerService

end Brtos
