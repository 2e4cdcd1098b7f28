import Brtos.DQueue
import Brtos.Discipline
import Brtos.Timer.Model

/-!
# Brtos.Properties.Creation

**A failed creation is atomic.** `System` puts the kernel, its dynamic queues and the
timer service side by side, and `Creation` lists the calls that claim something: a task
slot, an event control block, a part of the queue heap, a timer.

A creation that does not succeed leaves every table as it was, and gives back what it got
from `BRTOS_ALLOC`, for every state and all arguments, with one exception: `OSMutexCreate`
claims the ceiling's `PriorityVector` entry before it looks for a control block, and does
not release it when there is none (`KeepsCeiling`). Two lemmas carry the proof: what a
failed kernel call leaves (`failed_call`) and what `OSDQueueCreate` does to the heap on
each of its exits (`osDQueueCreate_failed`).
-/

namespace Brtos

open Kernel

/-- A build with dynamic queues and timers. -/
structure SystemConfig extends DQueueConfig, TimerConfig

/-- The kernel with its dynamic queues, and the timer service. -/
structure System (sc : SystemConfig) where
  queues : DKernel sc.toDQueueConfig
  timers : TimerService sc.toTimerConfig

/-- The calls that create something. -/
inductive Creation
  | installTask (isIdle : Bool) (userStackedBytes iPriority : Nat)
  | semCreate (cnt : UInt8)
  | semBinaryCreate (bit : UInt8)
  | mutexCreate (higherPriority : Nat)
  | mboxCreate (message : Nat)
  | queueCreate (size : UInt16)
  | dQueueCreate (queueLength : UInt16) (typeSize : Nat)
  | timerSet (cbp : Bool) (cb : Option Nat) (timeWait : Nat)
  deriving DecidableEq, Repr

/-- The code of a creation that succeeds. -/
def Creation.success : Creation → RetCode
  | .installTask .. | .timerSet .. => .ok
  | _ => .allocEventOk

variable {cfg : Config} {dc : DQueueConfig} {sc : SystemConfig}

namespace System

abbrev kernel (s : System sc) : Kernel sc.toConfig := s.queues.kernel

def setKernel (s : System sc) (k : Kernel sc.toConfig) : System sc :=
  { s with queues := { s.queues with kernel := k } }

/-- The event creations always return to their caller. -/
def kernelCreate (s : System sc) : Kernel sc.toConfig × Outcome → Option (System sc × RetCode)
  | (k, .returned r) => some (s.setKernel k, r.code)
  | _ => none

/-- Make the call and look at its return code. -/
def create (s : System sc) : Creation → Option (System sc × RetCode)
  | .installTask isIdle bytes p =>
    let x := s.kernel.osInstallTask isIdle bytes p
    some (s.setKernel x.1, x.2.code)
  | .semCreate cnt => s.kernelCreate (s.kernel.osSemCreate cnt)
  | .semBinaryCreate bit => s.kernelCreate (s.kernel.osSemBinaryCreate bit)
  | .mutexCreate p => s.kernelCreate (s.kernel.osMutexCreate p)
  | .mboxCreate message => s.kernelCreate (s.kernel.osMboxCreate message)
  | .queueCreate size => s.kernelCreate (s.kernel.osQueueCreate size)
  | .dQueueCreate queueLength typeSize =>
    let x := s.queues.osDQueueCreate queueLength typeSize
    some ({ s with queues := x.1 }, x.2.code)
  | .timerSet cbp cb timeWait =>
    (s.timers.osTimerSet cbp cb timeWait).map fun x => ({ s with timers := x.1 }, x.2.1)

end System

/-! ### The kernel's calls -/

section Calls

variable {s t : Kernel cfg} {r : Ret}

theorem createSem_failed {count : Nat} {binary : Bool}
    (h : s.createSem count binary = (t, .returned r)) (hr : r.code ≠ .allocEventOk) : t = s := by
  unfold Kernel.createSem at h
  split at h
  · cases h
    rfl
  · split at h
    · cases h
      rfl
    · cases h
      exact absurd rfl hr

theorem osMboxCreate_failed {message : Nat} (h : s.osMboxCreate message = (t, .returned r))
    (hr : r.code ≠ .allocEventOk) : t = s := by
  unfold Kernel.osMboxCreate at h
  split at h
  · cases h
    rfl
  · split at h
    · cases h
      rfl
    · cases h
      exact absurd rfl hr

/-- Both tests of `OSQueueCreate` come before its first write. -/
theorem osQueueCreate_failed {size : UInt16} (h : s.osQueueCreate size = (t, .returned r))
    (hr : r.code ≠ .allocEventOk) : t = s := by
  unfold Kernel.osQueueCreate at h
  split at h
  · cases h
    rfl
  · extract_lets rounded at h
    split at h
    · cases h
      rfl
    · split at h
      · cases h
        rfl
      · cases h
        exact absurd rfl hr

/-- `OSMutexCreate` finds the ceiling free and no control block. -/
def Kernel.LosesCeiling (s : Kernel cfg) (higherPriority : Nat) : Prop :=
  s.iNesting = 0 ∧ 0 < higherPriority ∧ s.priorityVector higherPriority = emptyPrio ∧
    s.freeEvent .mutex cfg.brtosMaxMutex = none

instance (s : Kernel cfg) (p : Nat) : Decidable (s.LosesCeiling p) :=
  inferInstanceAs (Decidable (_ ∧ _ ∧ _ ∧ _))

/-- A failed `OSMutexCreate` keeps the ceiling it has claimed. -/
theorem osMutexCreate_failed {p : Nat} (h : s.osMutexCreate p = (t, .returned r))
    (hr : r.code ≠ .allocEventOk) :
    t = if s.LosesCeiling p then s.setPriorityVector p mutexPrio else s := by
  unfold Kernel.osMutexCreate at h
  split at h
  · rename_i hnest
    cases h
    rw [if_neg fun hl => by have := hl.1; omega]
  · rename_i hnest
    split at h
    · rename_i hbusy
      cases h
      rw [if_neg fun hl => hbusy.2 hl.2.2.1]
    · rename_i hfree
      by_cases hp : 0 < p
      · have hpv : s.priorityVector p = emptyPrio := by
          by_contra hne
          exact hfree ⟨hp, hne⟩
        simp only [hp, if_true] at h
        split at h
        · rename_i hnone
          cases h
          rw [if_pos ⟨by omega, hp, hpv, hnone⟩]
        · cases h
          exact absurd rfl hr
      · simp only [hp, if_false] at h
        split at h
        · cases h
          rw [if_neg fun hl => hp hl.2.1]
        · cases h
          exact absurd rfl hr

theorem osInstallTaskStatic_failed {isIdle : Bool} {bytes p : Nat}
    (hr : (s.osInstallTaskStatic isIdle bytes p).2.code ≠ .ok) :
    (s.osInstallTaskStatic isIdle bytes p).1 = s := by
  revert hr
  unfold Kernel.osInstallTaskStatic
  dsimp only
  split
  · exact fun _ => rfl
  · split
    · exact fun _ => rfl
    · split
      · exact fun _ => rfl
      · split
        · exact fun _ => rfl
        · exact fun hr => absurd rfl hr

/-- The stack is given back when no task slot is free. -/
theorem osInstallTaskDynamic_failed {isIdle : Bool} {bytes p : Nat} (hmem : cfg.mem.Undoes)
    (hr : (s.osInstallTaskDynamic isIdle bytes p).2.code ≠ .ok) :
    (s.osInstallTaskDynamic isIdle bytes p).1 = s := by
  revert hr
  unfold Kernel.osInstallTaskDynamic
  dsimp only
  split
  · exact fun _ => rfl
  · split
    · exact fun _ => rfl
    · split
      · rename_i heap halloc
        intro _
        rw [hmem.refused halloc]
      · rename_i stack heap halloc
        split
        · intro _
          rw [hmem.freed halloc]
        · exact fun hr => absurd rfl hr

theorem osInstallTask_failed {isIdle : Bool} {bytes p : Nat} (hmem : cfg.mem.Undoes)
    (hr : (s.osInstallTask isIdle bytes p).2.code ≠ .ok) :
    (s.osInstallTask isIdle bytes p).1 = s := by
  unfold Kernel.osInstallTask at hr ⊢
  split at hr
  · rename_i hdyn
    rw [if_pos hdyn]
    exact osInstallTaskDynamic_failed hmem hr
  · rename_i hdyn
    rw [if_neg hdyn]
    exact osInstallTaskStatic_failed hr

end Calls

/-! ### Dynamic queues and timers -/

/-- Every block is given back on the way out: the handler when the buffer or the control
block is missing, and the buffer with it in the second case. -/
theorem osDQueueCreate_failed {s : DKernel dc} {queueLength : UInt16} {typeSize : Nat}
    (hmem : dc.mem.Undoes)
    (hr : (s.osDQueueCreate queueLength typeSize).2.code ≠ .allocEventOk) :
    (s.osDQueueCreate queueLength typeSize).1.kernel = s.kernel := by
  revert hr
  unfold DKernel.osDQueueCreate
  split
  · exact fun _ => rfl
  · split
    · split
      · rename_i h₁ hcqueue
        intro _
        obtain rfl := hmem.refused hcqueue
        rfl
      · rename_i cqueue h₁ hcqueue
        dsimp only
        split
        · rename_i h₂ hstart
          intro _
          obtain rfl := hmem.refused hstart
          have hback := hmem.freed hcqueue
          simp [DKernel.dealloc, DKernel.setHeap, DKernel.setKernel, DKernel.setDQueue, hback]
        · rename_i start h₂ hstart
          split
          · rename_i h₃ hevent
            intro _
            obtain rfl := hmem.refused hevent
            have hback := hmem.freed hstart
            have hback' := hmem.freed hcqueue
            simp [DKernel.dealloc, DKernel.setHeap, DKernel.setKernel, DKernel.setDQueue, hback,
              hback']
          · exact fun hr => absurd rfl hr
    · exact fun _ => rfl

/-- `OSTimerSet` fails before it writes anything. -/
theorem osTimerSet_failed {tc : TimerConfig} {s t : TimerService tc} {cbp : Bool}
    {cb stored : Option Nat} {timeWait : Nat} {code : RetCode}
    (h : s.osTimerSet cbp cb timeWait = some (t, code, stored)) (hr : code ≠ .ok) : t = s := by
  unfold TimerService.osTimerSet at h
  split at h
  · split at h
    · cases h
      rfl
    · obtain ⟨u, -, hu⟩ := Option.map_eq_some_iff.mp h
      cases hu
      exact absurd rfl hr
  · cases h
    rfl

/-! ### Every creation -/

/-- The creation is of a mutex with a free ceiling and finds no control block. -/
def System.LosesCeiling (s : System sc) : Creation → Prop
  | .mutexCreate p => s.kernel.LosesCeiling p
  | _ => False

theorem kernelCreate_inv {s t : System sc} {x : Kernel sc.toConfig × Outcome} {code : RetCode}
    (h : s.kernelCreate x = some (t, code)) :
    ∃ k r, x = (k, .returned r) ∧ t = s.setKernel k ∧ code = r.code := by
  obtain ⟨k, oc⟩ := x
  cases oc with
  | returned r =>
      cases h
      exact ⟨k, r, rfl, rfl, rfl⟩
  | switched r => cases h
  | suspended => cases h

/-- A kernel call that fails without a trace leaves the system as it was. -/
theorem kernelCreate_failed {s t : System sc} {x : Kernel sc.toConfig × Outcome} {code : RetCode}
    (h : s.kernelCreate x = some (t, code)) (hcode : code ≠ .allocEventOk)
    (hx : ∀ k r, x = (k, .returned r) → r.code ≠ .allocEventOk → k = s.kernel) :
    t.kernel = s.kernel ∧ t.timers = s.timers := by
  obtain ⟨k, r, rfl, rfl, rfl⟩ := kernelCreate_inv h
  exact ⟨hx k r rfl hcode, rfl⟩

/-- **Failed creation is atomic**, with one exception: in every state and for all
arguments, a creation that does not succeed leaves the kernel, its heap included, and the
timers exactly as they were, if and only if it is not an `OSMutexCreate` that has claimed
a ceiling and finds no control block. -/
theorem failed_creation_atomic_iff (hmem : sc.mem.Undoes) {s t : System sc} {c : Creation}
    {code : RetCode} (h : s.create c = some (t, code)) (hcode : code ≠ c.success) :
    (t.kernel = s.kernel ∧ t.timers = s.timers) ↔ ¬ s.LosesCeiling c := by
  cases c with
  | installTask isIdle bytes p =>
      cases h
      exact iff_of_true ⟨osInstallTask_failed hmem hcode, rfl⟩ id
  | semCreate cnt =>
      exact iff_of_true (kernelCreate_failed h hcode fun k r => createSem_failed) id
  | semBinaryCreate bit =>
      exact iff_of_true (kernelCreate_failed h hcode fun k r => createSem_failed) id
  | mboxCreate message =>
      exact iff_of_true (kernelCreate_failed h hcode fun k r => osMboxCreate_failed) id
  | queueCreate size =>
      exact iff_of_true (kernelCreate_failed h hcode fun k r => osQueueCreate_failed) id
  | dQueueCreate queueLength typeSize =>
      cases h
      exact iff_of_true ⟨osDQueueCreate_failed hmem hcode, rfl⟩ id
  | timerSet cbp cb timeWait =>
      obtain ⟨⟨u, code', stored⟩, hset, hx⟩ := Option.map_eq_some_iff.mp h
      cases hx
      exact iff_of_true ⟨rfl, osTimerSet_failed hset hcode⟩ id
  | mutexCreate p =>
      obtain ⟨k, r, hk, rfl, rfl⟩ := kernelCreate_inv h
      have hleft := osMutexCreate_failed hk hcode
      constructor
      · rintro ⟨hsame, -⟩ hloses
        have hloses : s.kernel.LosesCeiling p := hloses
        rw [if_pos hloses] at hleft
        -- the entry was free before the call and is reserved after it
        have hk : k = s.kernel := hsame
        have hpv : s.kernel.priorityVector p = mutexPrio := by
          rw [← hk, hleft]
          exact Function.update_self ..
        exact absurd (hloses.2.2.1.symm.trans hpv) (by decide)
      · intro hloses
        have hloses : ¬ s.kernel.LosesCeiling p := hloses
        rw [if_neg hloses] at hleft
        exact ⟨hleft, rfl⟩

/-- The example configuration with two heap blocks of 64 bytes. -/
def exampleSystemConfig : SystemConfig where
  toConfig := { Config.exampleConfig with mem := Config.slots 2 64 }
  sizeofOSDQueue := 28
  sizeofBRTOSQueue := 12
  brtosMaxTimer := 8
  two_le := by decide
  le_128 := by decide

/-- The state after the given mutexes have been created. -/
def exampleSystem (ceilings : List Nat) : System exampleSystemConfig where
  queues :=
    { kernel := Run.after Kernel.step (Kernel.init exampleSystemConfig.toConfig)
        (ceilings.map fun p => .call (.mutexCreate p))
      dQueue := fun _ => ⟨0, 0, 0, 0, 0, 0, 0⟩
      dEvent := fun _ => ⟨0, 0, 0, 0, 0⟩
      bytes := fun _ => 0
      dFrame := fun _ => none }
  timers := TimerService.init exampleSystemConfig.toTimerConfig

/-- A dynamic queue whose control block is the third one asked for. -/
theorem failed_creation_atomic_iff_twoBlocks :
    let s := exampleSystem []
    ∃ t, s.create (.dQueueCreate 4 4) = some (t, .noAvailableEvent) ∧
      t.kernel = s.kernel ∧ t.timers = s.timers := by
  have hcode : (exampleSystem []).create (.dQueueCreate 4 4) = some (_, .noAvailableEvent) := rfl
  exact ⟨_, hcode, (failed_creation_atomic_iff (Config.slots_undoes 2 64).toUndoes hcode
    (by decide)).mpr id⟩

/-- **A ceiling is lost**: with all mutexes created, `OSMutexCreate(10)` says
`NO_AVAILABLE_EVENT` and keeps priority 10. -/
theorem failed_mutex_keeps_ceiling :
    ∃ s t : System exampleSystemConfig,
      RunFromInit (fun _ _ => True)
        (Run.traceOf Kernel.step (Kernel.init exampleSystemConfig.toConfig)
          ([0, 0, 0, 0].map fun p => .call (.mutexCreate p))) s.kernel ∧
      s.create (.mutexCreate 10) = some (t, .noAvailableEvent) ∧
      s.kernel.priorityVector 10 = emptyPrio ∧ t.kernel.priorityVector 10 = mutexPrio ∧
      ∃ u, t.create (.mutexCreate 10) = some (u, .busyPriority) := by
  refine ⟨exampleSystem [0, 0, 0, 0], _, Run.of_admits ?_, rfl, ?_, ?_, _, rfl⟩
  all_goals decide +kernel

end Brtos
