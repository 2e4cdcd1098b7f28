import Brtos.Properties.Deadlines

/-!
# Brtos.Properties.Counter

**Only the tick counts.** No critical section writes `OSTickCounter`, whatever state it is
called in; `OSIncCounter` alone does. So after a run the counter is ahead by the ticks of the
run, modulo `TICK_COUNT_OVERFLOW`: in the kernel, and in the kernel with its dynamic queues.
-/

namespace Brtos

open Kernel

section Kernel

variable {cfg : Config} {s t : Kernel cfg} {oc : Outcome}

/-! ### Critical sections -/

theorem startTimeout_counter (s : Kernel cfg) (timeWait : Nat) :
    (s.startTimeout timeWait).osTickCounter = s.osTickCounter := by
  unfold startTimeout
  split <;> rfl

theorem waitEvent_counter (s : Kernel cfg) (ev : Event) (timeWait : Nat) :
    (s.waitEvent ev timeWait).osTickCounter = s.osTickCounter :=
  startTimeout_counter _ timeWait

/-- A pend that takes what there is, or returns at once, or waits. -/
theorem pend_counter {available atOnce : Prop} [Decidable available] [Decidable atOnce]
    {taken : Kernel cfg × Outcome} {ev : Event} {timeWait : Nat} {r : Ret}
    (htaken : taken.1.osTickCounter = s.osTickCounter) :
    (if available then taken else if atOnce then (s, .returned r)
      else (s.waitEvent ev timeWait, .suspended)).1.osTickCounter = s.osTickCounter := by
  split
  · exact htaken
  split
  · rfl
  · exact waitEvent_counter s ev timeWait

theorem wakeUp_counter (s : Kernel cfg) (ev : Event) (iPriority timeWait : Nat) :
    (s.wakeUp ev iPriority timeWait).1.osTickCounter = s.osTickCounter := by
  unfold wakeUp
  repeat' split
  all_goals rfl

theorem checkEvent_counter {kind : Nat → Event} {p : Option Nat} {body : Nat → Kernel cfg × Outcome}
    (hbody : ∀ i, (body i).1.osTickCounter = s.osTickCounter)
    (h : s.checkEvent kind p body = some (t, oc)) : t.osTickCounter = s.osTickCounter := by
  unfold checkEvent at h
  repeat' split at h
  · cases h
    rfl
  · cases h
  · cases h
    rfl
  · rw [← hbody, Option.some.inj h]

theorem checkPend_counter {kind : Nat → Event} {p : Option Nat} {out : Out}
    {body : Nat → Kernel cfg × Outcome} (hbody : ∀ i, (body i).1.osTickCounter = s.osTickCounter)
    (h : s.checkPend kind p out body = some (t, oc)) : t.osTickCounter = s.osTickCounter := by
  unfold checkPend at h
  split at h
  · cases h
    rfl
  · exact checkEvent_counter hbody h

theorem delete_counter {event : Option Nat} {r : Ret} {f : Nat → Kernel cfg × Outcome}
    (hf : ∀ e, (f e).1.osTickCounter = s.osTickCounter)
    (h : (if 0 < s.iNesting then some (s, .returned r) else event.map f) = some (t, oc)) :
    t.osTickCounter = s.osTickCounter := by
  split at h
  · cases h
    rfl
  · obtain ⟨e, -, hx⟩ := Option.map_eq_some_iff.mp h
    rw [← hf, hx]

theorem osInstallTask_counter (s : Kernel cfg) (isIdle : Bool) (bytes p : Nat) :
    (s.osInstallTask isIdle bytes p).1.osTickCounter = s.osTickCounter := by
  unfold osInstallTask osInstallTaskDynamic osInstallTaskStatic
  dsimp only
  repeat' split
  all_goals rfl

theorem osUninstallTask_counter {taskHandle : Nat} {off : Bool} {taskTimer : Option Nat}
    (h : s.osUninstallTask taskHandle off taskTimer = some (t, oc)) : t.osTickCounter = s.osTickCounter := by
  simp only [osUninstallTask] at h
  generalize (if taskHandle = 0 then s.currentTask else taskHandle) = task at h
  split at h
  · cases h
    rfl
  split at h
  · cases h
    rfl
  split at h
  · split at h
    · obtain ⟨v, hv, hx⟩ := Option.map_eq_some_iff.mp h
      cases hx
      obtain ⟨found, -, rfl⟩ := searchAndRemove_inv hv
      cases found <;> rfl
    · cases h
      rfl
  · cases h
    rfl

theorem foldl_counter {f : Kernel cfg → Nat → Kernel cfg}
    (hf : ∀ v h, (f v h).osTickCounter = v.osTickCounter) : ∀ (hs : List Nat) (s : Kernel cfg),
    (hs.foldl f s).osTickCounter = s.osTickCounter
  | [], _ => rfl
  | h :: hs, s => (foldl_counter hf hs (f s h)).trans (hf s h)

theorem mutexRelease_counter (s : Kernel cfg) (m : Nat) :
    (s.mutexRelease m).1.osTickCounter = s.osTickCounter := by
  obtain ⟨ready, ctx, hr⟩ := restorePriority_eq s m
  unfold mutexRelease
  dsimp only
  rw [hr]
  repeat' split
  all_goals rfl

/-- No critical section writes the counter. -/
theorem exec_counter {c : Call} (h : s.exec c = some (t, oc)) :
    t.osTickCounter = s.osTickCounter := by
  cases c with
  | installTask =>
      cases h
      exact osInstallTask_counter s _ _ _
  | uninstallTask => exact osUninstallTask_counter h
  | blockMultipleTask start number =>
      simp only [exec, osBlockMultipleTask] at h
      split at h
      · cases h
        rfl
      · cases h
        exact foldl_counter (fun v h => by split <;> rfl) _ _
  | unBlockMultipleTask start number =>
      simp only [exec, osUnBlockMultipleTask] at h
      split at h
      · cases h
        rfl
      · cases h
        exact foldl_counter (fun v h => by split <;> rfl) _ _
  | semPend e timeWait =>
      exact checkPend_counter (fun e => pend_counter rfl) h
  | semPost e =>
      refine checkEvent_counter (fun e => ?_) h
      unfold semPost
      repeat' split
      all_goals rfl
  | mboxPend e timeWait =>
      exact checkPend_counter (fun e => pend_counter rfl) h
  | mboxPost e message =>
      refine checkEvent_counter (fun e => ?_) h
      unfold mboxPost
      repeat' split
      all_goals rfl
  | queuePend q timeWait =>
      obtain ⟨q, -, h⟩ := Option.bind_eq_some_iff.mp h
      exact checkPend_counter (fun q => pend_counter rfl) h
  | queuePost q data =>
      obtain ⟨q, -, h⟩ := Option.bind_eq_some_iff.mp h
      refine checkEvent_counter (fun q => ?_) h
      unfold queuePost
      dsimp only
      repeat' split
      all_goals rfl
  | mutexAcquire m timeWait =>
      refine checkPend_counter (fun m => ?_) h
      unfold mutexAcquire
      dsimp only
      repeat' split
      · rfl
      · obtain ⟨ready, pv, ctx, mt, ht⟩ := takeCeiling_eq (s.setMutex m fun c =>
          { c with osEventState := .busyResource, osEventOwner := s.currentTask }) m
          (s.prio s.currentTask)
        rw [ht]
        rfl
      · rfl
      · exact waitEvent_counter s _ timeWait
  | mutexRelease m => exact checkPend_counter (fun m => mutexRelease_counter s m) h
  | semDelete e => exact delete_counter (fun _ => rfl) h
  | mboxDelete e => exact delete_counter (fun _ => rfl) h
  | mutexDelete m => exact delete_counter (fun _ => rfl) h
  | _ =>
      simp only [exec, osDelayTask, osBlockPriority, osUnBlockPriority, osBlockTask, osUnBlockTask,
        osSemCreate, osSemBinaryCreate, createSem, osMboxCreate, osQueueCreate, osRQueue, osWQueue,
        osQueueClean, osMutexCreate] at h
      repeat' split at h
      all_goals
        cases h
        rfl

/-! ### Steps and runs -/

theorem changeContext_counter (h : s.changeContext = some t) : t.osTickCounter = s.osTickCounter := by
  obtain ⟨task, -, rfl⟩ := Option.map_eq_some_iff.mp h
  rfl

theorem pendResume_counter (s : Kernel cfg) (ev : Event) (iPriority timeWait : Nat) :
    (s.pendResume ev iPriority timeWait).1.osTickCounter = s.osTickCounter := by
  have hw := wakeUp_counter s ev iPriority timeWait
  cases ev with
  | sem e =>
      simp only [pendResume, osSemPendResume]
      split <;> simp_all
  | mbox e =>
      simp only [pendResume, osMboxPendResume]
      split <;> simp_all [takeMessage, setMbox]
  | queue q =>
      simp only [pendResume, osQueuePendResume]
      split <;> simp_all [getByte, setQueue]
  | mutex m =>
      simp only [pendResume, osMutexAcquireResume]
      split
      · simp_all
      · rename_i v heq
        obtain ⟨ready, pv, ctx, mt, ht⟩ := takeCeiling_eq v m iPriority
        rw [heq] at hw
        rw [ht]
        exact hw

theorem tickLoop_counter : ∀ (fuel : Nat) {s t : Kernel cfg} {task : Option Nat},
    tickLoop fuel s task = some t → t.osTickCounter = s.osTickCounter
  | 0, s, t, none, h => by
      cases h
      rfl
  | 0, s, t, some task, h => by cases h
  | fuel + 1, s, t, none, h => by
      cases h
      rfl
  | fuel + 1, s, t, some task, h => by
      refine (tickLoop_counter fuel h).trans ?_
      unfold tickTask
      split <;> rfl

/-- A tick counts one, and no other step counts. -/
theorem step_counter {a : Action} {o : Obs} (hlt : s.osTickCounter < cfg.tickCountOverflow)
    (h : s.step a = some (t, o)) :
    t.osTickCounter = (s.osTickCounter + if a = .tick then 1 else 0) % cfg.tickCountOverflow := by
  have hsame : ∀ {v : Kernel cfg}, v.osTickCounter = s.osTickCounter →
      v.osTickCounter = (s.osTickCounter + 0) % cfg.tickCountOverflow := fun hv => by
    rw [hv, Nat.add_zero, Nat.mod_eq_of_lt hlt]
  cases a with
  | call c =>
      obtain ⟨-, u, oc, hex, ho⟩ := step_call_inv h
      have hu := exec_counter hex
      rcases ho with ⟨-, -, rfl, -⟩ | ⟨task, -, rfl, -⟩
      · exact hsame hu
      · exact hsame hu
  | brtosStart =>
      simp only [step, Kernel.brtosStart] at h
      have hi := osInstallTask_counter s true cfg.idleStackSize 0
      split at h
      · split at h
        · rename_i heq
          obtain ⟨v, hv, hx⟩ := Option.map_eq_some_iff.mp h
          cases hx
          rw [heq] at hi
          exact hsame ((changeContext_counter hv).trans hi)
        · rename_i heq
          cases h
          rw [heq] at hi
          exact hsame hi
      · cases h
  | resume =>
      simp only [step, stepResume] at h
      split at h
      · split at h
        · cases h
        · cases h
          exact hsame rfl
        · cases h
          exact hsame (pendResume_counter s _ _ _)
      · cases h
  | intEnter =>
      simp only [step] at h
      split at h
      · cases h
        exact hsame rfl
      · cases h
  | tick =>
      simp only [step] at h
      split at h
      · obtain ⟨v, hv, hx⟩ := Option.map_eq_some_iff.mp h
        cases hx
        exact (tickLoop_counter _ hv).trans (osIncCounter_eq hlt)
      · cases h
  | intExit =>
      simp only [step, osIntExit] at h
      split at h
      · obtain ⟨v, hv, hx⟩ := Option.map_eq_some_iff.mp h
        cases hx
        split at hv
        · have hc := changeContext_counter hv
          exact hsame hc
        · cases hv
          exact hsame rfl
      · cases h

/-- **The counter after a run.** -/
theorem run_counter {ok : Kernel cfg → Action → Prop} {tr : Trace}
    (hlt : s.osTickCounter < cfg.tickCountOverflow) (hr : Run Kernel.step ok s tr t) :
    t.osTickCounter = (s.osTickCounter + ticks tr) % cfg.tickCountOverflow :=
  hr.countP_mod hlt fun _ _ _ _ hlt hs => step_counter hlt hs

end Kernel

/-! ### Dynamic queues -/

section DQueue

variable {dc : DQueueConfig} {s t : DKernel dc}

/-- The ticks of a trace. -/
def dticks (tr : List (DAction × DObs)) : Nat := tr.countP fun x => x.1 = .kernel .tick

theorem readMessage_counter {cqueue n : Nat} {r : DRet} (h : s.readMessage cqueue n = some (t, r)) :
    t.kernel.osTickCounter = s.kernel.osTickCounter := by
  unfold DKernel.readMessage at h
  dsimp only at h
  repeat' split at h
  all_goals cases h
  all_goals rfl

theorem writeMessage_counter {cqueue : Nat} {pdata : List UInt8}
    (h : s.writeMessage cqueue pdata = some t) :
    t.kernel.osTickCounter = s.kernel.osTickCounter := by
  unfold DKernel.writeMessage at h
  dsimp only at h
  repeat' split at h
  all_goals cases h
  all_goals rfl

theorem waitDEvent_counter (s : DKernel dc) (e cqueue n timeWait : Nat) :
    (s.waitDEvent e cqueue n timeWait).kernel.osTickCounter = s.kernel.osTickCounter :=
  startTimeout_counter _ timeWait

theorem checkDEvent_counter {p : Option Nat} {body : Nat → Option (DKernel dc × DOutcome)}
    {oc : DOutcome} (hbody : ∀ e, body e = some (t, oc) →
      t.kernel.osTickCounter = s.kernel.osTickCounter)
    (h : s.checkDEvent p body = some (t, oc)) :
    t.kernel.osTickCounter = s.kernel.osTickCounter := by
  unfold DKernel.checkDEvent at h
  repeat' split at h
  · cases h
    rfl
  · cases h
  · cases h
    rfl
  · exact hbody _ h

theorem osDQueueCreate_counter (s : DKernel dc) (queueLength : UInt16) (typeSize : Nat) :
    (s.osDQueueCreate queueLength typeSize).1.kernel.osTickCounter = s.kernel.osTickCounter := by
  unfold DKernel.osDQueueCreate
  dsimp only
  repeat' split
  all_goals rfl

theorem osDQueuePend_counter {p : Option Nat} {timeWait : Nat} {oc : DOutcome}
    (h : s.osDQueuePend p timeWait = some (t, oc)) :
    t.kernel.osTickCounter = s.kernel.osTickCounter := by
  unfold DKernel.osDQueuePend at h
  split at h
  · cases h
    rfl
  · refine checkDEvent_counter (fun e he => ?_) h
    simp only [DKernel.dQueuePend] at he
    repeat' split at he
    · obtain ⟨x, hx, heq⟩ := Option.map_eq_some_iff.mp he
      cases heq
      exact readMessage_counter hx
    · cases he
      rfl
    · cases he
      exact waitDEvent_counter s _ _ _ timeWait

theorem osDQueuePost_counter {p : Option Nat} {pdata : List UInt8} {oc : DOutcome}
    (h : s.osDQueuePost p pdata = some (t, oc)) :
    t.kernel.osTickCounter = s.kernel.osTickCounter := by
  refine checkDEvent_counter (fun e he => ?_) h
  simp only [DKernel.dQueuePost] at he
  split at he
  · obtain ⟨v, hv, heq⟩ := Option.map_eq_some_iff.mp he
    have hw := writeMessage_counter hv
    split at heq
    · cases heq
      exact hw
    · cases heq
      exact hw
  · cases he
    rfl

/-- No critical section of a call on a dynamic queue writes the counter. -/
theorem dexec_counter {c : DCall} {oc : DOutcome} (h : s.exec c = some (t, oc)) :
    t.kernel.osTickCounter = s.kernel.osTickCounter := by
  cases c with
  | create queueLength typeSize =>
      cases h
      exact osDQueueCreate_counter s queueLength typeSize
  | delete event =>
      obtain ⟨x, hx, heq⟩ := Option.map_eq_some_iff.mp h
      cases heq
      obtain ⟨e, -, rfl⟩ := Option.map_eq_some_iff.mp hx
      dsimp only
      split <;> rfl
  | clean e =>
      cases h
      rfl
  | pend e timeWait => exact osDQueuePend_counter h
  | post e pdata => exact osDQueuePost_counter h

theorem osDQueuePendResume_counter {f : DFrame} {r : DRet}
    (h : s.osDQueuePendResume f = some (t, r)) :
    t.kernel.osTickCounter = s.kernel.osTickCounter := by
  simp only [DKernel.osDQueuePendResume] at h
  repeat' split at h
  · cases h
    rfl
  · exact readMessage_counter h
  · have hr := readMessage_counter h
    exact hr
  · exact readMessage_counter h

theorem dchangeContext_counter (h : s.changeContext = some t) :
    t.kernel.osTickCounter = s.kernel.osTickCounter := by
  obtain ⟨k, hk, rfl⟩ := Option.map_eq_some_iff.mp h
  exact changeContext_counter hk

/-- A tick counts one, and no other step counts. -/
theorem dstep_counter {a : DAction} {o : DObs}
    (hlt : s.kernel.osTickCounter < dc.tickCountOverflow) (h : s.step a = some (t, o)) :
    t.kernel.osTickCounter =
      (s.kernel.osTickCounter + if a = .kernel .tick then 1 else 0) % dc.tickCountOverflow := by
  have hsame : ∀ {v : DKernel dc}, v.kernel.osTickCounter = s.kernel.osTickCounter →
      v.kernel.osTickCounter = (s.kernel.osTickCounter + 0) % dc.tickCountOverflow := fun hv => by
    rw [hv, Nat.add_zero, Nat.mod_eq_of_lt hlt]
  cases a with
  | kernel a =>
      simp only [DKernel.step, DKernel.stepKernel] at h
      split at h
      · cases h
      · obtain ⟨x, hx, heq⟩ := Option.map_eq_some_iff.mp h
        cases heq
        have hk := step_counter hlt hx
        simpa using hk
  | call c =>
      obtain ⟨-, u, oc, hex, ho⟩ := dstep_call_inv h
      have hu := dexec_counter hex
      rcases ho with ⟨r, -, rfl, -⟩ | ⟨hto, -⟩
      · exact hsame hu
      · exact hsame ((dchangeContext_counter hto).trans hu)
  | resume =>
      simp only [DKernel.step, DKernel.stepResume] at h
      split at h
      · obtain ⟨f, -, h⟩ := Option.bind_eq_some_iff.mp h
        obtain ⟨x, hx, heq⟩ := Option.map_eq_some_iff.mp h
        cases heq
        have hp := osDQueuePendResume_counter hx
        exact hsame hp
      · cases h

/-- **The counter after a run**, with dynamic queues. -/
theorem drun_counter {ok : DKernel dc → DAction → Prop} {tr : List (DAction × DObs)}
    (hlt : s.kernel.osTickCounter < dc.tickCountOverflow) (hr : Run DKernel.step ok s tr t) :
    t.kernel.osTickCounter = (s.kernel.osTickCounter + dticks tr) % dc.tickCountOverflow :=
  hr.countP_mod (f := fun v => v.kernel.osTickCounter) hlt fun _ _ _ _ hlt hs => dstep_counter hlt hs

end DQueue

end Brtos
