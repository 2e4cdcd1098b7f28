import Brtos.Config
import Brtos.Lib.Bits
import Brtos.Lib.DList

/-!
# Brtos.State

The kernel's global variables and control blocks (`BRTOS.h`, `BRTOS.c`).

Three things are laid out differently from the C structs, field for field:

* `Next` and `Previous` of every task control block are kept together with
  `Head` and `Tail` in `delayList`, one `DList`;
* the three fields every event control block has (`OSEventAllocated`,
  `OSEventWait`, `OSEventWaitList`) are kept in one table `event`, indexed by the
  kind and number of the block, because all pend and post functions treat them
  alike; the fields of one kind only are in that kind's table;
* the part of a suspended task's stack that the kernel reads again when the task
  resumes (which call it is in, and that call's local variables) is its `Frame`.

`base`, `held` and `delayOps` are history variables: no kernel function reads
them. They record the priority a task was installed with, the mutexes it has
acquired and not released, latest first, and the uses of
`IncludeTaskIntoDelayList` and `RemoveFromDelayList`, latest first.
-/

namespace Brtos

open Bits

/-- An event control block: its kind and its index in that kind's table. -/
inductive Event
  | sem (i : Nat)
  | mbox (i : Nat)
  | queue (i : Nat)
  | mutex (i : Nat)
  deriving DecidableEq, Repr

/-- The fields common to all event control blocks. -/
structure EventWait (w : Nat) where
  osEventAllocated : Bool
  /-- Number of waiting tasks, a `uint8_t`. -/
  osEventWait : Nat
  /-- The priorities of the waiting tasks. -/
  osEventWaitList : BitVec w

/-- `BRTOS_Sem`. -/
structure BRTOSSem where
  osEventCount : Nat
  binary : Bool

/-- `OSEventState` of a mutex; `zero` in a block that was never created or was deleted. -/
inductive MutexState
  | zero | availableResource | busyResource
  deriving DecidableEq, Repr

/-- `BRTOS_Mutex`. An owner of `0` means nobody. -/
structure BRTOSMutex where
  osEventState : MutexState
  osEventOwner : Nat
  osMaxPriority : Nat
  osOriginalPriority : Nat

/-- `OSEventState` of a mailbox. -/
inductive MboxState
  | zero | availableMessage | noMessage
  deriving DecidableEq, Repr

/-- `BRTOS_Mbox`; a message is an address, `0` for `NULL`. -/
structure BRTOSMbox where
  osEventState : MboxState
  osEventPointer : Nat

/-- `OS_QUEUE`. Pointers are byte offsets into `QUEUE_STACK`. -/
structure OSQueue where
  osqStart : Nat
  osqEnd : Nat
  osqIn : Nat
  osqOut : Nat
  osqSize : Nat
  osqEntries : Nat

/-- `ContextType`, the task control block. -/
structure ContextType where
  timeToWait : Nat
  priority : Nat
  stackInit : Nat
  stackSize : Nat

/-- Where a task is: outside the kernel, or suspended inside a call, with the
local variables that call uses after `ChangeContext`. -/
inductive Frame
  | user
  | delay (timeWait : Nat)
  | pend (ev : Event) (iPriority timeWait : Nat)
  deriving DecidableEq, Repr

/-- The state of the kernel. -/
structure Kernel (cfg : Config) where
  osTickCounter : Nat
  /-- The running task; `0` before `BRTOSStart`. -/
  currentTask : Nat
  iNesting : Nat
  numberOfInstalledTasks : Nat
  taskAlloc : BitVec 32
  iStackAddress : Nat
  stackAddress : Nat
  iQueueAddress : Nat
  osReadyList : BitVec cfg.prioBits
  osBlockedList : BitVec cfg.prioBits
  priorityVector : Nat → Nat
  contextTask : Nat → ContextType
  delayList : DList Nat
  event : Event → EventWait cfg.prioBits
  semTable : Nat → BRTOSSem
  mutexTable : Nat → BRTOSMutex
  mboxTable : Nat → BRTOSMbox
  osQueueTable : Nat → OSQueue
  queueStack : Nat → UInt8
  heap : cfg.mem.Heap
  frame : Nat → Frame
  base : Nat → Nat
  held : Nat → List Nat
  delayOps : List (DList.Op Nat)

variable {cfg : Config}

/-- `PriorityMask[p]`. -/
abbrev priorityMask (cfg : Config) (p : Nat) : BitVec cfg.prioBits := mask cfg.prioBits p

namespace Kernel

/-! ### Reading the state -/

/-- Slot `h` holds an installed task. -/
def Installed (s : Kernel cfg) (h : Nat) : Prop :=
  1 ≤ h ∧ h ≤ cfg.numberOfTasks ∧ s.taskAlloc.getLsbD (h - 1) = true

instance (s : Kernel cfg) (h : Nat) : Decidable (s.Installed h) :=
  inferInstanceAs (Decidable (_ ∧ _ ∧ _))

/-- `ContextTask[h].Priority`. -/
abbrev prio (s : Kernel cfg) (h : Nat) : Nat := (s.contextTask h).priority

/-- The priorities in `OSReadyList`. -/
abbrev ready (s : Kernel cfg) : Finset Nat := bits s.osReadyList

/-- The priorities in `OSBlockedList`, which holds a one for every priority that
is *not* blocked. -/
abbrev unblocked (s : Kernel cfg) : Finset Nat := bits s.osBlockedList

/-- The priorities in an event's `OSEventWaitList`. -/
abbrev waiting (s : Kernel cfg) (ev : Event) : Finset Nat := bits (s.event ev).osEventWaitList

/-- The event control block is allocated. -/
abbrev Allocated (s : Kernel cfg) (ev : Event) : Prop := (s.event ev).osEventAllocated = true

/-! ### Writing the state -/

def setReady (s : Kernel cfg) (p : Nat) : Kernel cfg :=
  { s with osReadyList := s.osReadyList ||| priorityMask cfg p }

def clearReady (s : Kernel cfg) (p : Nat) : Kernel cfg :=
  { s with osReadyList := s.osReadyList &&& ~~~ priorityMask cfg p }

def setContext (s : Kernel cfg) (h : Nat) (f : ContextType → ContextType) : Kernel cfg :=
  { s with contextTask := Function.update s.contextTask h (f (s.contextTask h)) }

def setTimeToWait (s : Kernel cfg) (h v : Nat) : Kernel cfg :=
  s.setContext h fun t => { t with timeToWait := v }

def setPriority (s : Kernel cfg) (h p : Nat) : Kernel cfg :=
  s.setContext h fun t => { t with priority := p }

def setPriorityVector (s : Kernel cfg) (p v : Nat) : Kernel cfg :=
  { s with priorityVector := Function.update s.priorityVector p v }

def setEvent (s : Kernel cfg) (ev : Event) (f : EventWait cfg.prioBits → EventWait cfg.prioBits) :
    Kernel cfg :=
  { s with event := Function.update s.event ev (f (s.event ev)) }

def setMutex (s : Kernel cfg) (m : Nat) (f : BRTOSMutex → BRTOSMutex) : Kernel cfg :=
  { s with mutexTable := Function.update s.mutexTable m (f (s.mutexTable m)) }

def setSem (s : Kernel cfg) (e : Nat) (f : BRTOSSem → BRTOSSem) : Kernel cfg :=
  { s with semTable := Function.update s.semTable e (f (s.semTable e)) }

def setMbox (s : Kernel cfg) (e : Nat) (f : BRTOSMbox → BRTOSMbox) : Kernel cfg :=
  { s with mboxTable := Function.update s.mboxTable e (f (s.mboxTable e)) }

def setQueue (s : Kernel cfg) (q : Nat) (f : OSQueue → OSQueue) : Kernel cfg :=
  { s with osQueueTable := Function.update s.osQueueTable q (f (s.osQueueTable q)) }

def setFrame (s : Kernel cfg) (h : Nat) (f : Frame) : Kernel cfg :=
  { s with frame := Function.update s.frame h f }

/-- `IncludeTaskIntoDelayList`. -/
def includeTaskIntoDelayList (s : Kernel cfg) (h : Nat) : Kernel cfg :=
  { s with delayList := s.delayList.pushBack h, delayOps := .pushBack h :: s.delayOps }

/-- `RemoveFromDelayList`. -/
def removeFromDelayList (s : Kernel cfg) (h : Nat) : Kernel cfg :=
  { s with delayList := s.delayList.remove h, delayOps := .remove h :: s.delayOps }

/-! ### Start-up -/

/-- The zeroed globals, with the two initialisers `OSReadyList = 0` and
`OSBlockedList = 0xFF..`. -/
def zero (cfg : Config) : Kernel cfg where
  osTickCounter := 0
  currentTask := 0
  iNesting := 0
  numberOfInstalledTasks := 0
  taskAlloc := 0
  iStackAddress := 0
  stackAddress := 0
  iQueueAddress := 0
  osReadyList := 0
  osBlockedList := BitVec.allOnes _
  priorityVector := fun _ => 0
  contextTask := fun _ => ⟨0, 0, 0, 0⟩
  delayList := .empty
  event := fun _ => ⟨false, 0, 0⟩
  semTable := fun _ => ⟨0, false⟩
  mutexTable := fun _ => ⟨.zero, 0, 0, 0⟩
  mboxTable := fun _ => ⟨.zero, 0⟩
  osQueueTable := fun _ => ⟨0, 0, 0, 0, 0, 0⟩
  queueStack := fun _ => 0
  heap := cfg.mem.init
  frame := fun _ => .user
  base := fun _ => 0
  held := fun _ => []
  delayOps := []

/-- `initEvents`: no control block of the four tables is allocated. -/
def initEvents (s : Kernel cfg) : Kernel cfg :=
  { s with event := fun ev => { s.event ev with osEventAllocated := false } }

/-- `PreInstallTasks`. Entries of the tables beyond the C arrays are not read by
any kernel function and carry the same initial value here. -/
def preInstallTasks (s : Kernel cfg) : Kernel cfg :=
  { s with
    osTickCounter := 0
    currentTask := 0
    numberOfInstalledTasks := 0
    taskAlloc := 0
    iStackAddress := 0
    stackAddress := 0
    priorityVector := fun _ => emptyPrio
    contextTask := fun i => if i = 0 then s.contextTask 0
      else { s.contextTask i with priority := emptyPrio }
    delayList := { s.delayList with tail := none, head := none } }

/-- `BRTOSInit`: the state in which the application's `main` makes its first call. -/
def init (cfg : Config) : Kernel cfg := ((zero cfg).initEvents).preInstallTasks

end Kernel

end Brtos
