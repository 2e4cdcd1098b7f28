import Brtos.Machine

/-!
# Brtos.Discipline

What the kernel expects of its callers, as a guard on the machine's actions.

None of this is checked by the code. Control blocks passed to a call are ones that
were created (or `ERROR_CHECK` is on), a timeout is at most one counter period,
block and unblock calls name installed tasks, `Idle` is installed by `BRTOSStart`
only, an object is deleted when it has no waiters (a mutex, when it is free), and a
task is uninstalled when it is not inside a pend and owns no mutex, and while nobody
changes the delay list so that the search for it, which begins at what `Head` was before
the critical section, goes wrong.

The rule for releasing mutexes is a parameter (`ReleaseRule`), because it decides
what holds of priorities: `LifoRelease` is last-in-first-out order per task,
`NestedRelease` is the weaker condition that the priority a release restores still
belongs to the releasing task.
-/

namespace Brtos

variable {cfg : Config}

/-- The wait ends within one counter period, or does not begin. -/
def TimeOk (cfg : Config) (timeWait : Nat) : Prop :=
  timeWait ≤ cfg.tickCountOverflow ∨ timeWait = cfg.noTimeout

instance (timeWait : Nat) : Decidable (TimeOk cfg timeWait) :=
  inferInstanceAs (Decidable (_ ∨ _))

/-- The task is inside a pend on `ev`. -/
def Frame.pendsOn (ev : Event) : Frame → Bool
  | .pend ev' _ _ => ev' == ev
  | _ => false

/-- The task is inside some pend. -/
def Frame.isPend : Frame → Bool
  | .pend .. => true
  | _ => false

@[simp] theorem Frame.pendsOn_pend {ev ev' : Event} {p timeWait : Nat} :
    (Frame.pend ev' p timeWait).pendsOn ev = true ↔ ev' = ev := by
  simp [Frame.pendsOn]

namespace Kernel

/-- The pointer names a block that was created, or `ERROR_CHECK` will notice. -/
def EventOk (s : Kernel cfg) (kind : Nat → Event) : Option Nat → Prop
  | none => True
  | some i => cfg.errorCheck = true ∨ s.Allocated (kind i)

instance (s : Kernel cfg) (kind : Nat → Event) : (p : Option Nat) → Decidable (s.EventOk kind p)
  | none => isTrue trivial
  | some _ => inferInstanceAs (Decidable (_ ∨ _))

/-- No task is inside a pend on `ev`. -/
def NoPending (s : Kernel cfg) (ev : Event) : Prop :=
  ∀ h ≤ cfg.numberOfTasks, s.Installed h → (s.frame h).pendsOn ev = false

instance (s : Kernel cfg) (ev : Event) : Decidable (s.NoPending ev) :=
  inferInstanceAs (Decidable (∀ h ≤ cfg.numberOfTasks, _ → _))

/-- The task owns no mutex. -/
def OwnsNone (s : Kernel cfg) (h : Nat) : Prop :=
  ∀ m < cfg.brtosMaxMutex, (s.mutexTable m).osEventOwner ≠ h

instance (s : Kernel cfg) (h : Nat) : Decidable (s.OwnsNone h) :=
  inferInstanceAs (Decidable (∀ m < cfg.brtosMaxMutex, _))

/-- The search from where `Head` was before the critical section of the uninstall ends as one
from `Head` does. -/
def SearchOk (s : Kernel cfg) (h : Nat) (taskTimer : Option Nat) : Prop :=
  s.searchDelayList h (walkFuel cfg) taskTimer = s.searchDelayList h (walkFuel cfg) s.delayList.head

instance (s : Kernel cfg) (h : Nat) (taskTimer : Option Nat) : Decidable (s.SearchOk h taskTimer) :=
  inferInstanceAs (Decidable (_ = _))

/-- The uninstall is refused, or the task is outside every pend and owns no mutex, and is found
in the delay list if it is there. -/
def UninstallOk (s : Kernel cfg) (h : Nat) (safetyOff : Bool) (taskTimer : Option Nat) : Prop :=
  s.Installed h ∧ ((s.prio h ∉ s.ready ∧ safetyOff = false) ∨
    ((s.frame h).isPend = false ∧ s.OwnsNone h ∧ (s.prio h ∉ s.ready → s.SearchOk h taskTimer)))

instance (s : Kernel cfg) (h : Nat) (safetyOff : Bool) (taskTimer : Option Nat) :
    Decidable (s.UninstallOk h safetyOff taskTimer) :=
  inferInstanceAs (Decidable (_ ∧ (_ ∨ _)))

/-- The running task releases the mutex it acquired last. -/
def LifoRelease (s : Kernel cfg) (m : Nat) : Prop :=
  (s.held s.currentTask).head? = some m

instance (s : Kernel cfg) (m : Nat) : Decidable (s.LifoRelease m) :=
  inferInstanceAs (Decidable (_ = _))

/-- The priority the release restores is the task's own: the one it was installed
with, or the ceiling of another mutex it owns and by which it holds that priority. -/
def NestedRelease (s : Kernel cfg) (m : Nat) : Prop :=
  let original := (s.mutexTable m).osOriginalPriority
  original = s.base s.currentTask ∨
    ∃ m' < cfg.brtosMaxMutex, m' ≠ m ∧ s.Allocated (.mutex m') ∧
      (s.mutexTable m').osEventOwner = s.currentTask ∧
      (s.mutexTable m').osMaxPriority = original ∧ 0 < original ∧
      s.priorityVector original = s.currentTask

instance (s : Kernel cfg) (m : Nat) : Decidable (s.NestedRelease m) :=
  inferInstanceAs (Decidable (_ ∨ ∃ m' < cfg.brtosMaxMutex, _))

/-- Any release order. -/
def AnyRelease (_ : Kernel cfg) (_ : Nat) : Prop := True

instance (s : Kernel cfg) (m : Nat) : Decidable (s.AnyRelease m) := isTrue trivial

/-- A successful release, by its owner, obeys the rule. -/
def ReleaseObeys (s : Kernel cfg) (rule : Kernel cfg → Nat → Prop) : Option Nat → Prop
  | none => True
  | some m => (s.mutexTable m).osEventOwner = s.currentTask → rule s m

instance (s : Kernel cfg) (rule : Kernel cfg → Nat → Prop) [∀ s m, Decidable (rule s m)] :
    (m : Option Nat) → Decidable (s.ReleaseObeys rule m)
  | none => isTrue trivial
  | some _ => inferInstanceAs (Decidable (_ → _))

/-- The object has no waiters. -/
def DeleteOk (s : Kernel cfg) (kind : Nat → Event) : Option Nat → Prop
  | none => True
  | some i => s.waiting (kind i) = ∅

instance (s : Kernel cfg) (kind : Nat → Event) : (p : Option Nat) → Decidable (s.DeleteOk kind p)
  | none => isTrue trivial
  | some _ => inferInstanceAs (Decidable (_ = _))

/-- The mutex is free. -/
def MutexFree (s : Kernel cfg) : Option Nat → Prop
  | none => True
  | some m => (s.mutexTable m).osEventOwner = 0

instance (s : Kernel cfg) : (m : Option Nat) → Decidable (s.MutexFree m)
  | none => isTrue trivial
  | some _ => inferInstanceAs (Decidable (_ = _))

/-- Every handle of a range call is an installed task's. -/
def RangeOk (s : Kernel cfg) (taskStart taskNumber : Nat) : Prop :=
  ∀ h ∈ taskRange taskStart taskNumber, s.Installed h

instance (s : Kernel cfg) (a b : Nat) : Decidable (s.RangeOk a b) :=
  inferInstanceAs (Decidable (∀ h ∈ taskRange a b, _))

end Kernel

open Kernel

/-- The discipline of a call. -/
def Call.Disciplined (rule : Kernel cfg → Nat → Prop) (s : Kernel cfg) : Call → Prop
  | .installTask isIdle _ _ => isIdle = false
  | .uninstallTask h off taskTimer =>
    s.UninstallOk (if h = 0 then s.currentTask else h) off taskTimer
  | .blockPriority p | .unBlockPriority p => p ≤ cfg.configMaxTaskPriority
  | .blockTask h => h = 0 ∨ s.Installed h
  | .unBlockTask h => s.Installed h
  | .blockMultipleTask a b | .unBlockMultipleTask a b => s.RangeOk a b
  | .semDelete e => s.DeleteOk .sem e
  | .semPend e timeWait => s.EventOk .sem e ∧ TimeOk cfg timeWait
  | .semPost e => s.EventOk .sem e
  | .mboxDelete e => s.DeleteOk .mbox e
  | .mboxPend e timeWait => s.EventOk .mbox e ∧ TimeOk cfg timeWait
  | .mboxPost e _ => s.EventOk .mbox e
  | .queuePend q timeWait => s.EventOk .queue q ∧ TimeOk cfg timeWait
  | .queuePost q _ => s.EventOk .queue q
  | .rQueue q | .wQueue q _ | .queueClean q => s.Allocated (.queue q)
  | .mutexCreate p => p ≤ cfg.configMaxTaskPriority
  | .mutexDelete m => s.MutexFree m
  | .mutexAcquire m timeWait => s.EventOk .mutex m ∧ TimeOk cfg timeWait
  | .mutexRelease m => s.EventOk .mutex m ∧ s.ReleaseObeys rule m
  | _ => True

instance (rule : Kernel cfg → Nat → Prop) [∀ s m, Decidable (rule s m)] (s : Kernel cfg)
    (c : Call) : Decidable (c.Disciplined rule s) := by
  cases c <;> (unfold Call.Disciplined; infer_instance)

/-- The discipline of an action: interrupts and continuations are free. -/
def Disciplined (rule : Kernel cfg → Nat → Prop) (s : Kernel cfg) : Action → Prop
  | .call c => c.Disciplined rule s
  | _ => True

instance (rule : Kernel cfg → Nat → Prop) [∀ s m, Decidable (rule s m)] (s : Kernel cfg) :
    (a : Action) → Decidable (Disciplined rule s a)
  | .call c => inferInstanceAs (Decidable (c.Disciplined rule s))
  | .brtosStart | .resume | .intEnter | .tick | .intExit => isTrue trivial

/-- Executions from `BRTOSInit` whose actions satisfy `ok`. -/
abbrev RunFromInit (ok : Kernel cfg → Action → Prop) (tr : Trace) (s : Kernel cfg) : Prop :=
  Run Kernel.step ok (Kernel.init cfg) tr s

/-- The state a script of actions leads to, in the example build. -/
abbrev kernelAfter (as : List Action) : Kernel Config.exampleConfig :=
  Run.after Kernel.step (Kernel.init Config.exampleConfig) as

end Brtos
