import Brtos.Invariant.Frames
import Brtos.Lib.Meter
import Mathlib.Order.Interval.Finset.Nat

/-!
# Brtos.Properties.RuntimeStats

**Runtime statistics** (`COMPUTES_TASK_LOAD`). At every context switch
`COMPUTE_TASK_LOAD` charges the outgoing task with the time since the last one; the tasks
then add up to the reading at the last switch, whatever has been switched to and when
(`Dispatcher.settled`).

`OSRuntimeStats` divides each task's time by a hundredth of the current reading, and that
hundredth has itself been rounded down. Before the hundredth tick it is zero and the
division undefined; up to tick 9900 the percentages can exceed 100 (`runtime_stats_iff`).
-/

namespace Brtos

open Kernel Finset

variable {cfg : Config} {s t : Kernel cfg}

/-- What `COMPUTE_TASK_LOAD` keeps: the `Runtime` field of each control block, and its two
static variables. -/
structure TaskLoad where
  runtime : Nat → Nat
  osTimeTaskSwitched : Nat
  osTotalRuntime : Nat

/-- The load after `PreInstallTasks`. -/
def TaskLoad.zero : TaskLoad := ⟨fun _ => 0, 0, 0⟩

/-- `COMPUTE_TASK_LOAD`; `reading` is what `OSGetTimerForRuntimeStats` returns. -/
def TaskLoad.computeTaskLoad (l : TaskLoad) (currentTask reading : Nat) : TaskLoad where
  runtime :=
    if reading > l.osTimeTaskSwitched then
      Function.update l.runtime currentTask
        ((l.runtime currentTask + (reading - l.osTimeTaskSwitched)) % 2 ^ 32)
    else l.runtime
  osTimeTaskSwitched := reading
  osTotalRuntime := reading

/-- What `OS_INT_EXIT` looks at when it switches. -/
structure Dispatcher where
  currentTask : Nat
  load : TaskLoad

/-- A context switch that is due: what `OSSchedule` selects, and the timer. -/
structure Switch where
  selectedTask : Nat
  reading : Nat
  deriving DecidableEq, Repr

/-- `OS_INT_EXIT` where `iNesting` has become zero. -/
def Dispatcher.osIntExit (d : Dispatcher) (x : Switch) : Dispatcher :=
  if d.currentTask ≠ x.selectedTask then
    { currentTask := x.selectedTask
      load := d.load.computeTaskLoad d.currentTask x.reading }
  else d

/-- Context switches, one after the other. -/
def Dispatcher.step (d : Dispatcher) (x : Switch) : Option (Dispatcher × Unit) :=
  some (d.osIntExit x, ())

/-- A task is selected, and the timer has not gone back. -/
def SwitchOk (cfg : Config) (d : Dispatcher) (x : Switch) : Prop :=
  x.selectedTask ∈ Icc 1 cfg.numberOfTasks ∧ d.load.osTimeTaskSwitched ≤ x.reading ∧
    x.reading < 2 ^ 32

instance (cfg : Config) (d : Dispatcher) (x : Switch) : Decidable (SwitchOk cfg d x) :=
  inferInstanceAs (Decidable (_ ∧ _ ∧ _))

/-- `d` is reached by context switches from the first task. -/
def Dispatcher.Reached (cfg : Config) (d : Dispatcher) : Prop :=
  ∃ first tr, first ∈ Icc 1 cfg.numberOfTasks ∧
    Run Dispatcher.step (SwitchOk cfg) ⟨first, .zero⟩ tr d

/-- A line of the statistics. -/
structure RuntimeRow where
  id : Nat
  runtime : Nat
  percentage : Nat
  deriving DecidableEq, Repr

/-- The slots `OSRuntimeStats` lists. -/
def Kernel.listed (s : Kernel cfg) : List Nat :=
  (List.range' 1
    (if cfg.dynamicTasksEnabled then cfg.numberOfTasks else s.numberOfInstalledTasks)).filter
    fun j => s.prio j ≠ emptyPrio

/-- The lines of `OSRuntimeStats`; `none` for a division by zero. -/
def Kernel.osRuntimeStats (s : Kernel cfg) (l : TaskLoad) (reading : Nat) :
    Option (List RuntimeRow) :=
  let totalTime := reading / 100
  s.listed.mapM fun j =>
    if totalTime = 0 then none
    else some { id := j, runtime := l.runtime j, percentage := l.runtime j / totalTime }

/-- No division by zero, no percentage above 100, and no more than 100 in all. -/
def StatsOk (x : Option (List RuntimeRow)) : Prop :=
  ∃ rows, x = some rows ∧ (∀ r ∈ rows, r.percentage ≤ 100) ∧
    (rows.map RuntimeRow.percentage).sum ≤ 100

/-! ### The runtime of all tasks -/

/-- The load as a meter. -/
def TaskLoad.meter (l : TaskLoad) : Meter Nat := ⟨l.runtime, l.osTimeTaskSwitched⟩

/-- As long as the timer does not go back, `COMPUTE_TASK_LOAD` charges a slice, and the
32 bits of a `Runtime` suffice. -/
theorem TaskLoad.computeTaskLoad_meter {l : TaskLoad} {S : Finset Nat} (hl : l.meter.Settled S)
    {currentTask reading : Nat} (hle : l.osTimeTaskSwitched ≤ reading) (hlt : reading < 2 ^ 32) :
    (l.computeTaskLoad currentTask reading).meter = l.meter.charge currentTask reading := by
  have hbound : l.runtime currentTask ≤ l.osTimeTaskSwitched := hl.charged_le currentTask
  unfold meter computeTaskLoad Meter.charge
  dsimp only
  split
  · rw [Nat.mod_eq_of_lt (by omega)]
  · -- the timer still shows the reading of the last switch
    rename_i hsame
    have hzero : reading - l.osTimeTaskSwitched = 0 := by omega
    rw [hzero, Nat.add_zero, Function.update_eq_self]

/-- All time up to the last switch is charged to one of the tasks. -/
structure Dispatcher.Settled (cfg : Config) (d : Dispatcher) : Prop where
  current : d.currentTask ∈ Icc 1 cfg.numberOfTasks
  meter : d.load.meter.Settled (Icc 1 cfg.numberOfTasks)
  reading : d.load.osTimeTaskSwitched < 2 ^ 32

theorem Dispatcher.Settled.osIntExit {d : Dispatcher} {x : Switch} (hd : d.Settled cfg)
    (hx : SwitchOk cfg d x) : (d.osIntExit x).Settled cfg := by
  obtain ⟨hsel, hle, hlt⟩ := hx
  unfold Dispatcher.osIntExit
  split
  · refine ⟨hsel, ?_, hlt⟩
    show (d.load.computeTaskLoad d.currentTask x.reading).meter.Settled _
    rw [TaskLoad.computeTaskLoad_meter hd.meter hle hlt]
    exact hd.meter.charge hd.current hle
  · exact hd

/-- The run lemma. -/
theorem Dispatcher.settled {d : Dispatcher} (h : d.Reached cfg) : d.Settled cfg := by
  obtain ⟨first, tr, hfirst, hrun⟩ := h
  have h0 : Dispatcher.Settled cfg ⟨first, .zero⟩ := ⟨hfirst, .zero, Nat.zero_lt_succ _⟩
  refine hrun.invariant h0 ?_
  intro d x e o hd hx hstep
  cases hstep
  exact hd.osIntExit hx

/-! ### The switches of the kernel -/

/-- One step of the kernel. If another task runs after it, `COMPUTE_TASK_LOAD` has read the
timer. -/
def Kernel.stepLoad (x : Kernel cfg × TaskLoad) (a : Action × Nat) :
    Option ((Kernel cfg × TaskLoad) × Obs) :=
  (x.1.step a.1).map fun (t, o) =>
    ((t, if x.1.currentTask ≠ 0 ∧ x.1.currentTask ≠ t.currentTask then
      x.2.computeTaskLoad x.1.currentTask a.2 else x.2), o)

/-- A disciplined action, and a timer that has not gone back. -/
def TimedOk (x : Kernel cfg × TaskLoad) (a : Action × Nat) : Prop :=
  Disciplined NestedRelease x.1 a.1 ∧ x.2.osTimeTaskSwitched ≤ a.2 ∧ a.2 < 2 ^ 32

theorem CoreInv.schedule_ne_zero (hc : CoreInv s) (h0 : s.currentTask ≠ 0) {h : Nat}
    (hsch : s.osSchedule = some h) : h ≠ 0 := by
  obtain ⟨xs, hs⟩ := hc.suspend
  obtain ⟨idle, hpv, hi, hp, -, hf⟩ := hc.start.idle h0
  exact (schedule_spec hc.table hs ⟨idle, hpv, hi, hp, hf⟩ hsch).1.pos

/-- Once a task runs, some task runs. -/
theorem Move.task_runs (hk : KernelInv s) {a : Action} {o : Obs}
    (hm : Move NestedRelease s a t o) (h0 : s.currentTask ≠ 0) : t.currentTask ≠ 0 := by
  have hcall : ∀ {c : Call} {u : Kernel cfg} {oc : Outcome} {h : Nat},
      Effect NestedRelease s c u oc → u.osSchedule = some h → h ≠ 0 := fun {c u oc h} he hs =>
    (effect_core hk he).core.schedule_ne_zero (by rwa [(effect_same he).1]) hs
  cases hm with
  | returned _ he => rwa [(effect_same he).1]
  | switched _ he hs => exact hcall he hs
  | suspended _ he hs => exact hcall he hs
  | startFailed => exact h0
  | started hmain => exact absurd (inMain_currentTask hmain) h0
  | tick hnest ht =>
      obtain ⟨xs, hs⟩ := hk.suspend
      obtain ⟨-, htick⟩ := tick_context hk hs ht
      rw [htick.same]
      exact h0
  | woken =>
      rename_i ev p tw _ _ _ _
      obtain ⟨ctx, dl, ops, heq, -⟩ := cancelTimeout_eq s tw
      rw [heq]
      cases ev with
      | mutex m =>
          show (Kernel.takeCeiling _ m p).currentTask ≠ 0
          obtain ⟨ready, pv, ctx, mt, ht⟩ := takeCeiling_eq
            { s with contextTask := ctx, delayList := dl, delayOps := ops } m p
          rw [ht]
          exact h0
      | _ => exact h0
  | intExit hnest hs => exact (hk.setNesting h0 0).toCoreInv.schedule_ne_zero h0 hs
  | _ => exact h0

/-- The load belongs to the switches made so far. -/
structure Loaded (x : Kernel cfg × TaskLoad) : Prop where
  inv : KernelInv x.1
  main : x.1.currentTask = 0 → x.2 = .zero
  reached : x.1.currentTask ≠ 0 → Dispatcher.Reached cfg ⟨x.1.currentTask, x.2⟩

theorem KernelInv.current_mem (hk : KernelInv s) (h0 : s.currentTask ≠ 0) :
    s.currentTask ∈ Icc 1 cfg.numberOfTasks := by
  obtain ⟨h1, h2, -⟩ := (hk.run h0).1
  exact mem_Icc.mpr ⟨h1, h2⟩

theorem Loaded.step {x y : Kernel cfg × TaskLoad} (hx : Loaded x) {a : Action × Nat} {o : Obs}
    (ha : TimedOk x a) (hstep : Kernel.stepLoad x a = some (y, o)) : Loaded y := by
  obtain ⟨hd, htime⟩ := ha
  obtain ⟨⟨t, o'⟩, hmove, heq⟩ := Option.map_eq_some_iff.mp hstep
  cases heq
  have hk := step_inv hx.inv hd hmove
  by_cases h0 : x.1.currentTask = 0
  · -- `BRTOSStart` does not read the timer
    have hzero := hx.main h0
    simp only [h0, ne_eq, not_true_eq_false, false_and, if_false, hzero]
    exact ⟨hk, fun _ => rfl, fun ht => ⟨_, [], hk.current_mem ht, .nil⟩⟩
  · have ht := Move.task_runs hx.inv (hx.inv.move hd hmove) h0
    refine ⟨hk, fun h => absurd h ht, fun _ => ?_⟩
    obtain ⟨first, tr, hfirst, hrun⟩ := hx.reached h0
    have hok : SwitchOk cfg ⟨x.1.currentTask, x.2⟩ ⟨t.currentTask, a.2⟩ :=
      ⟨hk.current_mem ht, htime⟩
    refine ⟨first, _, hfirst, .snoc hrun hok (congrArg (fun d => some (d, ())) ?_)⟩
    unfold Dispatcher.osIntExit
    by_cases hsame : x.1.currentTask = t.currentTask
    · simp [hsame]
    · simp [hsame, h0]

/-- **The switches of the kernel** are such switches: whatever runs, the load of the tasks is
one that context switches from a first task lead to. -/
theorem loaded_of_run {tr : List ((Action × Nat) × Obs)} {x : Kernel cfg × TaskLoad}
    (hr : Run Kernel.stepLoad TimedOk (Kernel.init cfg, .zero) tr x) : Loaded x := by
  have h0 : Loaded (Kernel.init cfg, .zero) := ⟨init_inv, fun _ => rfl, fun h => absurd rfl h⟩
  exact hr.invariant h0 fun _ _ _ _ hx ha hstep => hx.step ha hstep

/-! ### The percentages -/

theorem Kernel.nodup_listed (s : Kernel cfg) : s.listed.Nodup := List.Nodup.filter _ List.nodup_range'

theorem Kernel.osRuntimeStats_eq (s : Kernel cfg) (l : TaskLoad) (reading : Nat) :
    s.osRuntimeStats l reading =
      if s.listed ≠ [] ∧ reading < 100 then none
      else some (s.listed.map fun j => ⟨j, l.runtime j, l.runtime j / (reading / 100)⟩) := by
  unfold Kernel.osRuntimeStats
  dsimp only
  by_cases hz : reading < 100
  · rw [Nat.div_eq_of_lt hz]
    cases s.listed with
    | nil => simp
    | cons j js => simp [hz, List.mapM_cons]
  · have hpos : reading / 100 ≠ 0 := by omega
    simp only [hz, hpos, if_false, and_false]
    exact List.mapM_pure

/-- One percentage is no more than all of them. -/
theorem statsOk_iff (s : Kernel cfg) (l : TaskLoad) (reading : Nat) :
    StatsOk (s.osRuntimeStats l reading) ↔ s.listed = [] ∨
      100 ≤ reading ∧ ∑ j ∈ s.listed.toFinset, l.runtime j / (reading / 100) ≤ 100 := by
  rw [Kernel.osRuntimeStats_eq]
  by_cases hnil : s.listed = []
  · simp [hnil, StatsOk]
  by_cases hlow : reading < 100
  · simp [hnil, hlow, StatsOk]
  rw [if_neg fun h => hlow h.2]
  have hsum := List.sum_toFinset (fun j => l.runtime j / (reading / 100)) s.nodup_listed
  constructor
  · intro ⟨rows, hrows, _, hle⟩
    cases hrows
    rw [List.map_map] at hle
    exact .inr ⟨by omega, hsum.trans_le hle⟩
  · intro h
    have hle := (h.resolve_left hnil).2
    refine ⟨_, rfl, ?_, ?_⟩
    · intro r hr
      obtain ⟨j, hj, rfl⟩ := List.mem_map.mp hr
      have hone := single_le_sum (fun i _ => Nat.zero_le (l.runtime i / (reading / 100)))
        (List.mem_toFinset.mpr hj)
      exact hone.trans hle
    · rw [List.map_map]
      exact hsum.symm.trans_le hle

/-- If the reading exceeds a hundred of its hundredths by less than one, there is no room for
another per cent. -/
theorem percentages_le {d : Dispatcher} (hd : d.Reached cfg) {reading : Nat}
    (hle : d.load.osTimeTaskSwitched ≤ reading) (hround : reading % 100 < reading / 100)
    (J : Finset Nat) : ∑ j ∈ J, d.load.runtime j / (reading / 100) ≤ 100 := by
  have hsum : ∑ j ∈ J, d.load.runtime j ≤ d.load.osTimeTaskSwitched :=
    (Dispatcher.settled hd).meter.sum_le J
  calc ∑ j ∈ J, d.load.runtime j / (reading / 100)
      ≤ (∑ j ∈ J, d.load.runtime j) / (reading / 100) := sum_div_le
    _ ≤ reading / (reading / 100) := Nat.div_le_div_right (hsum.trans hle)
    _ ≤ 100 := by
        rw [← Nat.lt_succ_iff, Nat.div_lt_iff_lt_mul (by omega)]
        omega

/-- A run with one switch, at `reading`, away from the task `h`. -/
theorem reached_of_switch {h h' reading : Nat} (hh : h ∈ Icc 1 cfg.numberOfTasks)
    (hh' : h' ∈ Icc 1 cfg.numberOfTasks) (hne : h ≠ h') (hlt : reading < 2 ^ 32) :
    ∃ d : Dispatcher, d.Reached cfg ∧ d.load.osTimeTaskSwitched = reading ∧
      d.load.runtime h = reading := by
  have hok : SwitchOk cfg ⟨h, .zero⟩ ⟨h', reading⟩ := ⟨hh', Nat.zero_le _, hlt⟩
  have hstep : Dispatcher.osIntExit ⟨h, .zero⟩ ⟨h', reading⟩ =
      ⟨h', TaskLoad.zero.computeTaskLoad h reading⟩ := if_pos hne
  refine ⟨_, ⟨h, _, hh, .snoc .nil hok (congrArg (fun d => some (d, ())) hstep)⟩, rfl, ?_⟩
  show (TaskLoad.zero.computeTaskLoad h reading).meter.charged h = reading
  rw [TaskLoad.computeTaskLoad_meter (S := ∅) .zero (Nat.zero_le _) hlt]
  simp [Meter.charge, TaskLoad.meter, TaskLoad.zero]

/-- With a listed task that has run all the time, the rounding shows. -/
theorem not_statsOk_of_alone {d : Dispatcher} {h reading : Nat} (hh : h ∈ s.listed)
    (hrun : d.load.runtime h = reading) (hround : reading / 100 ≤ reading % 100) :
    ¬ StatsOk (s.osRuntimeStats d.load reading) := by
  rw [statsOk_iff]
  intro hok
  rcases hok with hnil | ⟨hlow, hsum⟩
  · rw [hnil] at hh
    cases hh
  · have hone := single_le_sum (fun i _ => Nat.zero_le (d.load.runtime i / (reading / 100)))
      (List.mem_toFinset.mpr hh)
    have hmore : 101 ≤ reading / (reading / 100) := by
      rw [Nat.le_div_iff_mul_le (by omega)]
      omega
    rw [hrun] at hone
    omega

/-- **Runtime statistics.** The tasks add up to the reading at the last switch. What
`OSRuntimeStats` makes of them is as it should be exactly when it lists nothing, or the
reading has a hundredth and the listed tasks do not fill more than a hundred of them; and for
all that may have run before, exactly when the rounding cuts off less than a hundredth. -/
theorem runtime_stats_iff (s : Kernel cfg) (reading : Nat) :
    (∀ d : Dispatcher, d.Reached cfg → d.load.osTimeTaskSwitched ≤ reading →
      ((∑ h ∈ Icc 1 cfg.numberOfTasks, d.load.runtime h = d.load.osTimeTaskSwitched ∧
          StatsOk (s.osRuntimeStats d.load reading)) ↔
        s.listed = [] ∨ 100 ≤ reading ∧ ∑ h ∈ s.listed.toFinset, d.load.runtime h ≤
          reading / 100 * 100 + ∑ h ∈ s.listed.toFinset, d.load.runtime h % (reading / 100))) ∧
    (1 < cfg.numberOfTasks → (∃ h ∈ s.listed, h ≤ cfg.numberOfTasks) → reading < 2 ^ 32 →
      ((∀ d : Dispatcher, d.Reached cfg → d.load.osTimeTaskSwitched ≤ reading →
          StatsOk (s.osRuntimeStats d.load reading)) ↔ reading % 100 < reading / 100)) := by
  constructor
  · intro d hd hle
    have hsum : ∑ h ∈ Icc 1 cfg.numberOfTasks, d.load.runtime h = d.load.osTimeTaskSwitched :=
      (Dispatcher.settled hd).meter.sum
    rw [and_iff_right hsum, statsOk_iff]
    refine or_congr_right (and_congr_right fun hlow => ?_)
    exact sum_div_le_iff (by omega)
  · intro htwo ⟨h, hlisted, hle⟩ hlt
    have hpos : 1 ≤ h := by
      have hrange := List.mem_of_mem_filter hlisted
      exact (List.mem_range'_1.mp hrange).1
    constructor
    · intro hall
      by_contra hround
      -- one task runs up to the reading
      obtain ⟨h', hh', hne⟩ : ∃ h' ∈ Icc 1 cfg.numberOfTasks, h ≠ h' := by
        by_cases h1 : h = 1
        · exact ⟨2, mem_Icc.mpr ⟨by decide, htwo⟩, by omega⟩
        · exact ⟨1, mem_Icc.mpr ⟨by decide, by omega⟩, h1⟩
      obtain ⟨d, hd, hlast, hrun⟩ := reached_of_switch (mem_Icc.mpr ⟨hpos, hle⟩) hh' hne hlt
      exact not_statsOk_of_alone hlisted hrun (by omega) (hall d hd hlast.le)
    · intro hround d hd hle
      exact (statsOk_iff s d.load reading).mpr
        (.inr ⟨by omega, percentages_le hd hle hround s.listed.toFinset⟩)

/-- A user task and the idle task. -/
def twoTasks : Kernel Config.exampleConfig :=
  kernelAfter [.call (.installTask false 256 5), .brtosStart]

/-- From the user task to the idle task at tick `reading`. -/
def switchOnce (reading : Nat) : Dispatcher := Dispatcher.osIntExit ⟨1, .zero⟩ ⟨2, reading⟩

theorem switchOnce_reached {reading : Nat} (hlt : reading < 2 ^ 32) :
    (switchOnce reading).Reached Config.exampleConfig := by
  have hidle : 2 ∈ Icc 1 Config.exampleConfig.numberOfTasks := by decide
  exact ⟨1, _, by decide, .snoc .nil ⟨hidle, Nat.zero_le _, hlt⟩ rfl⟩

set_option maxRecDepth 20000 in
theorem runtime_stats_iff_10000 :
    StatsOk (twoTasks.osRuntimeStats (switchOnce 10000).load 12000) ∧
      ∀ d : Dispatcher, d.Reached Config.exampleConfig → d.load.osTimeTaskSwitched ≤ 12000 →
        StatsOk (twoTasks.osRuntimeStats d.load 12000) := by
  have hall := ((runtime_stats_iff twoTasks 12000).2 (by decide) ⟨1, by decide +kernel, by decide⟩
    (by decide)).mpr (by decide)
  have hone := (runtime_stats_iff twoTasks 12000).1 (switchOnce 10000)
    (switchOnce_reached (by decide)) (by decide)
  exact ⟨(hone.mpr (.inr ⟨by decide, by decide +kernel⟩)).2, hall⟩

set_option maxRecDepth 20000 in
/-- **199 per cent**: the hundredth of 199 ticks is one tick. And before the hundredth tick the
hundredth is none. -/
theorem percentage_above_hundred :
    (switchOnce 199).Reached Config.exampleConfig ∧
      twoTasks.osRuntimeStats (switchOnce 199).load 199 = some [⟨1, 199, 199⟩, ⟨2, 0, 0⟩] ∧
      ¬ StatsOk (twoTasks.osRuntimeStats (switchOnce 199).load 199) ∧
      twoTasks.osRuntimeStats (switchOnce 99).load 99 = none := by
  have hrows : twoTasks.osRuntimeStats (switchOnce 199).load 199 =
      some [⟨1, 199, 199⟩, ⟨2, 0, 0⟩] := by decide +kernel
  refine ⟨switchOnce_reached (by decide), hrows, ?_, by decide +kernel⟩
  intro ⟨rows, heq, hle, _⟩
  rw [hrows] at heq
  cases heq
  exact absurd (hle ⟨1, 199, 199⟩ (by simp)) (by decide)

end Brtos
