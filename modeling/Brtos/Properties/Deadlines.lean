import Mathlib.Logic.Function.Iterate
import Brtos.DQueue
import Brtos.Properties.Delay

/-!
# Brtos.Properties.Deadlines

**The `TimeToWait` of a task that has just been suspended.** Every blocking call adds its
timeout to the tick counter in `osdtick_t` and subtracts `TICK_COUNT_OVERFLOW` once if the
sum has reached it. The three values above `TICK_COUNT_OVERFLOW` are markers or never used,
so a deadline there is one that the counter does not take, or that the code mistakes for
`EXIT_BY_TIMEOUT` or `NO_TIMEOUT`.

One subtraction is enough exactly when the sum is below twice the period. A timeout may be
one, two or three ticks longer than the period, and nothing refuses or clamps it.
-/

namespace Brtos

open Bits Kernel

variable {cfg : Config} {dc : DQueueConfig}

/-! ### Arithmetic -/

/-- One conditional subtraction is a reduction modulo the period, up to twice the period. -/
theorem deadline_eq {count timeWait : Nat} (hc : count < cfg.tickCountOverflow)
    (hw : timeWait < 2 ^ cfg.tickBits) :
    deadline cfg count timeWait =
      if count + timeWait < cfg.tickCountOverflow then count + timeWait
      else count + timeWait - cfg.tickCountOverflow := by
  obtain ⟨-, -, hspec, hpos⟩ := cfg.tickCountOverflow_spec
  have hsize : cfg.tick.size < 8 := by cases cfg.tick <;> decide
  have hpow : 2 ^ cfg.tickBits * 2 ≤ 2 ^ (2 * cfg.tickBits) := by
    rcases cfg.tickBits_cases with h | h <;> rw [h] <;> decide
  have hsum : (count + timeWait) % 2 ^ (2 * cfg.tickBits) = count + timeWait :=
    Nat.mod_eq_of_lt (by omega)
  simp only [deadline, hsum, hsize, if_true]
  by_cases hlt : count + timeWait < cfg.tickCountOverflow
  · rw [if_neg (by omega), if_pos hlt, Nat.mod_eq_of_lt (by omega)]
  · rw [if_pos (by omega), if_neg hlt, Nat.mod_eq_of_lt (by omega)]

theorem deadline_eq_mod_iff {count timeWait : Nat} (hc : count < cfg.tickCountOverflow)
    (hw : timeWait < 2 ^ cfg.tickBits) :
    deadline cfg count timeWait = (count + timeWait) % cfg.tickCountOverflow ↔
      count + timeWait < 2 * cfg.tickCountOverflow := by
  obtain ⟨-, -, -, hpos⟩ := cfg.tickCountOverflow_spec
  have hmod := Nat.mod_lt (count + timeWait) hpos
  rw [deadline_eq hc hw]
  constructor
  · intro h
    split at h <;> omega
  · intro hlt
    split
    · exact (Nat.mod_eq_of_lt ‹_›).symm
    · rw [Nat.mod_eq_sub_mod (by omega), Nat.mod_eq_of_lt (by omega)]

/-! ### The counter -/

/-- Counting `n` ticks. -/
theorem iterate_osIncCounter {s : Kernel cfg} (hc : s.osTickCounter < cfg.tickCountOverflow)
    (n : Nat) :
    ((osIncCounter^[n]) s).osTickCounter = (s.osTickCounter + n) % cfg.tickCountOverflow := by
  induction n with
  | zero => exact (Nat.mod_eq_of_lt hc).symm
  | succ n ih =>
      have hlt := Nat.mod_lt (s.osTickCounter + n) (by omega : 0 < cfg.tickCountOverflow)
      rw [Function.iterate_succ_apply', osIncCounter_eq (by rw [ih]; exact hlt), ih, Nat.mod_add_mod,
        Nat.add_assoc]

/-- The counter takes value `v` after one or more ticks. -/
def Kernel.TakesAgain (s : Kernel cfg) (v : Nat) : Prop :=
  ∃ n, 0 < n ∧ ((osIncCounter^[n]) s).osTickCounter = v

theorem takesAgain {s : Kernel cfg} (hc : s.osTickCounter < cfg.tickCountOverflow) {v : Nat}
    (hv : v < cfg.tickCountOverflow) : s.TakesAgain v := by
  refine ⟨v + cfg.tickCountOverflow - s.osTickCounter, by omega, ?_⟩
  rw [iterate_osIncCounter hc, show s.osTickCounter + (v + cfg.tickCountOverflow - s.osTickCounter) =
    v + cfg.tickCountOverflow by omega, Nat.add_mod_right, Nat.mod_eq_of_lt hv]

/-! ### What a blocking call stores -/

/-- `TimeToWait` is the deadline of a wait of `timeWait` ticks that begins in state `s`. -/
structure DeadlineOk (s : Kernel cfg) (timeWait timeToWait : Nat) : Prop where
  eq_mod : timeToWait = (s.osTickCounter + timeWait) % cfg.tickCountOverflow
  lt : timeToWait < cfg.tickCountOverflow
  ne_exitByTimeout : timeToWait ≠ cfg.exitByTimeout
  ne_noTimeout : timeToWait ≠ cfg.noTimeout
  again : s.TakesAgain timeToWait

theorem deadlineOk_iff {s : Kernel cfg} {timeWait : Nat}
    (hc : s.osTickCounter < cfg.tickCountOverflow) (hw : timeWait < 2 ^ cfg.tickBits) :
    DeadlineOk s timeWait (deadline cfg s.osTickCounter timeWait) ↔
      s.osTickCounter + timeWait < 2 * cfg.tickCountOverflow := by
  rw [← deadline_eq_mod_iff hc hw]
  refine ⟨DeadlineOk.eq_mod, fun h => ?_⟩
  obtain ⟨hexit, hno, -, hpos⟩ := cfg.tickCountOverflow_spec
  have hlt : deadline cfg s.osTickCounter timeWait < cfg.tickCountOverflow :=
    h ▸ Nat.mod_lt _ hpos
  constructor
  case eq_mod => exact h
  case lt => exact hlt
  case ne_exitByTimeout => omega
  case ne_noTimeout => omega
  case again => exact takesAgain hc hlt

/-- The timeout of a call that has one. -/
def Call.timeWait : Call → Option Nat
  | .delayTask timeWait | .semPend _ timeWait | .mboxPend _ timeWait | .queuePend _ timeWait |
    .mutexAcquire _ timeWait => some timeWait
  | _ => none

theorem ttw_startTimeout (s : Kernel cfg) {timeWait : Nat} (h0 : timeWait ≠ 0) :
    (s.startTimeout timeWait).ttw s.currentTask = deadline cfg s.osTickCounter timeWait := by
  rw [startTimeout, if_pos h0]
  simp [Kernel.ttw, setTimeToWait, setContext, includeTaskIntoDelayList]

/-- The waiting part of a pend does to the delay list and to `TimeToWait` what starting the
timeout does. -/
theorem waitEvent_timeout (s : Kernel cfg) (ev : Event) (timeWait : Nat) :
    (s.waitEvent ev timeWait).delayOps = (s.startTimeout timeWait).delayOps ∧
      (s.waitEvent ev timeWait).ttw s.currentTask = (s.startTimeout timeWait).ttw s.currentTask := by
  by_cases h0 : timeWait = 0 <;>
    simp [waitEvent, startTimeout, h0, Kernel.ttw, setTimeToWait, setContext, setFrame, setEvent,
      includeTaskIntoDelayList, clearReady]

/-- The same for a dynamic queue. -/
theorem waitDEvent_timeout (s : DKernel dc) (e cqueue n timeWait : Nat) :
    (s.waitDEvent e cqueue n timeWait).kernel.delayOps =
        (s.kernel.startTimeout timeWait).delayOps ∧
      (s.waitDEvent e cqueue n timeWait).kernel.ttw s.kernel.currentTask =
        (s.kernel.startTimeout timeWait).ttw s.kernel.currentTask := by
  by_cases h0 : timeWait = 0 <;>
    simp [DKernel.waitDEvent, DKernel.setDEvent, DKernel.setKernel, DKernel.setDFrame, startTimeout,
      h0, Kernel.ttw, setTimeToWait, setContext, includeTaskIntoDelayList, clearReady, setFrame]

/-- A pend that suspends its caller got past its checks. -/
theorem checkPend_suspended {s u : Kernel cfg} {kind : Nat → Event} {p : Option Nat} {out : Out}
    {body : Nat → Kernel cfg × Outcome} (h : s.checkPend kind p out body = some (u, .suspended)) :
    ∃ i, body i = (u, .suspended) := by
  unfold checkPend checkEvent at h
  repeat' split at h
  all_goals first | cases h | exact ⟨_, Option.some.inj h⟩

/-- Every call that suspends its caller for a time stores the deadline. -/
theorem exec_suspended_ttw {s u : Kernel cfg} {c : Call} {timeWait : Nat}
    (hc : c.timeWait = some timeWait) (h0 : timeWait ≠ 0)
    (hex : s.exec c = some (u, .suspended)) :
    u.ttw s.currentTask = deadline cfg s.osTickCounter timeWait := by
  have hwait : ∀ {ev : Event}, u = s.waitEvent ev timeWait →
      u.ttw s.currentTask = deadline cfg s.osTickCounter timeWait := by
    intro ev hu
    rw [hu]
    exact (waitEvent_timeout s ev timeWait).2.trans (ttw_startTimeout s h0)
  cases c with
  | delayTask tw =>
      cases hc
      simp only [exec, osDelayTask] at hex
      repeat' split at hex
      all_goals cases hex
      simp [Kernel.ttw, setTimeToWait, setContext, includeTaskIntoDelayList, clearReady, setFrame]
  | semPend e tw =>
      cases hc
      obtain ⟨i, hi⟩ := checkPend_suspended hex
      unfold semPend at hi
      repeat' split at hi
      all_goals cases hi
      exact hwait rfl
  | mboxPend e tw =>
      cases hc
      obtain ⟨i, hi⟩ := checkPend_suspended hex
      unfold mboxPend at hi
      repeat' split at hi
      all_goals cases hi
      exact hwait rfl
  | queuePend q tw =>
      cases hc
      obtain ⟨q', rfl, hex⟩ := Option.bind_eq_some_iff.mp hex
      obtain ⟨i, hi⟩ := checkPend_suspended hex
      unfold queuePend at hi
      repeat' split at hi
      all_goals cases hi
      exact hwait rfl
  | mutexAcquire m tw =>
      cases hc
      obtain ⟨i, hi⟩ := checkPend_suspended hex
      unfold mutexAcquire at hi
      dsimp only at hi
      repeat' split at hi
      all_goals cases hi
      exact hwait rfl
  | _ => cases hc

/-- The same for `OSDQueuePend`. -/
theorem dQueuePend_suspended_ttw {s u : DKernel dc} {p : Option Nat} {timeWait : Nat}
    (h0 : timeWait ≠ 0) (hex : s.osDQueuePend p timeWait = some (u, .suspended)) :
    u.kernel.ttw s.kernel.currentTask =
      deadline dc.toConfig s.kernel.osTickCounter timeWait := by
  unfold DKernel.osDQueuePend DKernel.checkDEvent DKernel.dQueuePend at hex
  dsimp only at hex
  repeat' split at hex
  all_goals try cases hex
  · obtain ⟨x, -, hx⟩ := Option.map_eq_some_iff.mp hex
    cases hx
  · exact (waitDEvent_timeout s _ _ _ timeWait).2.trans (ttw_startTimeout s.kernel h0)

/-- **Deadlines and markers.** A blocking call of the kernel, or a pend on a dynamic queue,
that suspends its caller in tick `c` for `timeWait` ticks stores `(c + timeWait)` modulo
`TICK_COUNT_OVERFLOW`, a value that is no marker and that the counter takes again, exactly
when the sum is below twice `TICK_COUNT_OVERFLOW`. -/
theorem stored_deadline_iff (dc : DQueueConfig) :
    (∀ {s t : Kernel dc.toConfig} {c : Call} {timeWait : Nat}, s.osTickCounter < dc.tickCountOverflow →
      c.timeWait = some timeWait → timeWait ≠ 0 → timeWait < 2 ^ dc.tickBits →
      s.step (.call c) = some (t, .suspended s.caller c) →
      (DeadlineOk s timeWait (t.ttw s.currentTask) ↔
        s.osTickCounter + timeWait < 2 * dc.tickCountOverflow)) ∧
    ∀ {s t : DKernel dc} {p : Option Nat} {timeWait : Nat},
      s.kernel.osTickCounter < dc.tickCountOverflow → timeWait ≠ 0 → timeWait < 2 ^ dc.tickBits →
      s.step (.call (.pend p timeWait)) =
        some (t, .suspended s.kernel.caller (.pend p timeWait)) →
      (DeadlineOk s.kernel timeWait (t.kernel.ttw s.kernel.currentTask) ↔
        s.kernel.osTickCounter + timeWait < 2 * dc.tickCountOverflow) := by
  constructor
  · intro s t c tw hcount hc h0 hw hstep
    obtain ⟨-, u, oc, hex, ho⟩ := step_call_inv hstep
    rcases ho with ⟨r, -, -, h⟩ | ⟨task, -, rfl, ⟨r, -, h⟩ | ⟨rfl, -⟩⟩
    · cases h
    · cases h
    · show DeadlineOk s tw (u.ttw s.currentTask) ↔ _
      rw [exec_suspended_ttw hc h0 hex]
      exact deadlineOk_iff hcount hw
  · intro s t p tw hcount h0 hw hstep
    obtain ⟨-, u, oc, hex, ho⟩ := dstep_call_inv hstep
    rcases ho with ⟨r, -, -, h⟩ | ⟨hto, ⟨r, -, h⟩ | ⟨rfl, -⟩⟩
    · cases h
    · cases h
    · obtain ⟨k, hk, rfl⟩ := Option.map_eq_some_iff.mp hto
      obtain ⟨task, -, rfl⟩ := Option.map_eq_some_iff.mp hk
      show DeadlineOk s.kernel tw (u.kernel.ttw s.kernel.currentTask) ↔ _
      rw [dQueuePend_suspended_ttw h0 hex]
      exact deadlineOk_iff hcount hw

/-- The example build with dynamic queues. -/
def deadlineConfig : DQueueConfig where
  toConfig := { Config.exampleConfig with mem := Config.slots 5 1024 }
  sizeofOSDQueue := 28
  sizeofBRTOSQueue := 12

/-- Task 1 runs at tick `count`. -/
def runningAt (count : Nat) : Kernel deadlineConfig.toConfig :=
  { Run.after Kernel.step (Kernel.init deadlineConfig.toConfig)
      [.call (.installTask false 256 3), .call (.semCreate 0), .brtosStart] with
    osTickCounter := count }

/-- Task 1 runs at tick `count` and has a dynamic queue. -/
def queueAt (count : Nat) : DKernel deadlineConfig :=
  Run.after DKernel.step
    { kernel := runningAt count
      dQueue := fun _ => ⟨0, 0, 0, 0, 0, 0, 0⟩
      dEvent := fun _ => ⟨0, 0, 0, 0, 0⟩
      bytes := fun _ => 0
      dFrame := fun _ => none }
    [.call (.create 5 6)]

set_option maxRecDepth 20000 in
/-- A wait of ten ticks that ends past the wrap, in a delay and in a pend on a dynamic queue. -/
theorem stored_deadline_iff_wrap :
    let t := Run.after Kernel.step (runningAt 65530) [.call (.delayTask 10)]
    let u := Run.after DKernel.step (queueAt 65530) [.call (.pend (some 5120) 10)]
    DeadlineOk (runningAt 65530) 10 (t.ttw 1) ∧ DeadlineOk (queueAt 65530).kernel 10 (u.kernel.ttw 1) := by
  constructor
  · refine ((stored_deadline_iff deadlineConfig).1 (s := runningAt 65530) (c := .delayTask 10)
      ?_ rfl ?_ ?_ (Run.step_of_traceOf ?_)).mpr ?_
    all_goals decide +kernel
  · refine ((stored_deadline_iff deadlineConfig).2 (s := queueAt 65530) (p := some 5120)
      ?_ ?_ ?_ (Run.step_of_traceOf ?_)).mpr ?_
    all_goals decide +kernel

set_option maxRecDepth 20000 in
/-- **A deadline that is a marker**: the longest timeout stores `NO_TIMEOUT` in tick 65531
and `EXIT_BY_TIMEOUT` in tick 65530. -/
theorem deadline_is_marker :
    let t := Run.after Kernel.step (runningAt 65531) [.call (.delayTask 65535)]
    let u := Run.after Kernel.step (runningAt 65530) [.call (.semPend (some 0) 65535)]
    (runningAt 65531).step (.call (.delayTask 65535)) =
        some (t, .suspended 1 (.delayTask 65535)) ∧
      t.ttw 1 = deadlineConfig.noTimeout ∧ ¬ DeadlineOk (runningAt 65531) 65535 (t.ttw 1) ∧
      (runningAt 65530).step (.call (.semPend (some 0) 65535)) =
        some (u, .suspended 1 (.semPend (some 0) 65535)) ∧
      u.ttw 1 = deadlineConfig.exitByTimeout ∧
        ¬ DeadlineOk (runningAt 65530) 65535 (u.ttw 1) := by
  have hno : (Run.after Kernel.step (runningAt 65531) [.call (.delayTask 65535)]).ttw 1 =
      deadlineConfig.noTimeout := by decide +kernel
  have hexit : (Run.after Kernel.step (runningAt 65530) [.call (.semPend (some 0) 65535)]).ttw 1 =
      deadlineConfig.exitByTimeout := by decide +kernel
  exact ⟨Run.step_of_traceOf (by decide +kernel), hno, fun h => h.ne_noTimeout hno,
    Run.step_of_traceOf (by decide +kernel), hexit, fun h => h.ne_exitByTimeout hexit⟩

end Brtos
