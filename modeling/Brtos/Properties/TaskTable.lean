import Brtos.Invariant.Tables

/-!
# Brtos.Properties.TaskTable

**The task table** under `OSInstallTask` and `OSUninstallTask` alone, with slots and
priorities used again and again: `TaskAlloc`, `ContextTask[].Priority`,
`PriorityVector`, `OSReadyList` and `NumberOfInstalledTasks` describe one and the same
set of tasks.

Nothing is assumed about the calls but that an uninstall names an installed task. In
particular the idle function may be installed more than once, which gives several tasks
priority 0; that is why `PriorityVector` is described from priority 1 on.
-/

namespace Brtos

open Bits Kernel

variable {cfg : Config} {s t : Kernel cfg}

/-- Installs of anything, uninstalls of installed tasks, and the start of the system,
which installs the idle task. -/
def InstallsOnly (s : Kernel cfg) : Action → Prop
  | .call (.installTask ..) => True
  | .call (.uninstallTask h _ _) => s.Installed (if h = 0 then s.currentTask else h)
  | .brtosStart => True
  | _ => False

instance (s : Kernel cfg) (a : Action) : Decidable (InstallsOnly s a) := by
  unfold InstallsOnly
  induction a using Action.casesOn with
  | call c => induction c using Call.casesOn <;> infer_instance
  | _ => infer_instance

/-- The five tables agree. -/
structure TaskTable (s : Kernel cfg) : Prop where
  count : s.numberOfInstalledTasks = (bits s.taskAlloc).card
  alloc_lt : ∀ i ∈ bits s.taskAlloc, i < cfg.numberOfTasks
  empty : ∀ h, h ≠ 0 → ¬ s.Installed h → s.prio h = emptyPrio
  prio_lt : ∀ h, s.Installed h → s.prio h < cfg.prioBits
  vector : ∀ h, s.Installed h → s.prio h ≠ 0 → s.priorityVector (s.prio h) = h
  vector_inv : ∀ p, p ≠ 0 → s.priorityVector p = emptyPrio ∨
    (s.Installed (s.priorityVector p) ∧ s.prio (s.priorityVector p) = p)
  ready : ∀ p, p ∈ s.ready ↔ ∃ h, s.Installed h ∧ s.prio h = p

/-- Slot `h` is allocated. -/
theorem installed_iff_mem {h : Nat} : s.Installed h ↔
    1 ≤ h ∧ h ≤ cfg.numberOfTasks ∧ h - 1 ∈ bits s.taskAlloc := by
  rw [mem_bits]
  exact Iff.rfl

/-- The five tables are the same. -/
structure SameTable (s t : Kernel cfg) : Prop where
  count : t.numberOfInstalledTasks = s.numberOfInstalledTasks
  alloc : t.taskAlloc = s.taskAlloc
  context : t.contextTask = s.contextTask
  vector : t.priorityVector = s.priorityVector
  ready : t.osReadyList = s.osReadyList

theorem TaskTable.congr (ht : TaskTable s) (h : SameTable s t) : TaskTable t := by
  obtain ⟨hcount, halloc, hctx, hpv, hready⟩ := h
  have hinst := installed_congr halloc
  have hprio : ∀ h, t.prio h = s.prio h := fun h => by rw [Kernel.prio, hctx]
  constructor
  case count =>
    rw [hcount, halloc]
    exact ht.count
  case alloc_lt =>
    rw [halloc]
    exact ht.alloc_lt
  case empty =>
    intro h h0 hi
    rw [hprio]
    exact ht.empty h h0 (mt (hinst h).mpr hi)
  case prio_lt =>
    intro h hi
    rw [hprio]
    exact ht.prio_lt h ((hinst h).mp hi)
  case vector =>
    intro h hi hp
    rw [hprio] at hp ⊢
    rw [hpv]
    exact ht.vector h ((hinst h).mp hi) hp
  case vector_inv =>
    intro p hp
    rw [hpv, hinst, hprio]
    exact ht.vector_inv p hp
  case ready =>
    intro p
    rw [Kernel.ready, hready]
    simp only [hinst, hprio]
    exact ht.ready p

/-- A slot is filled with a priority that is free, or with priority 0. -/
theorem TaskTable.fillTcb (ht : TaskTable s) {i p a b : Nat} (hi : s.freeTcb = some i)
    (hp : p < cfg.prioBits) (hpv : p ≠ 0 → s.priorityVector p = emptyPrio) :
    TaskTable (s.fillTcb i p a b) := by
  obtain ⟨hlt, hfree⟩ := freeTcb_spec hi
  have hn := cfg.numberOfTasks_le
  have hnew := TableInv.not_installed_of_free hi
  have hinst := fun h => TableInv.installed_fillTcb (s := s) (p := p) (a := a) (b := b) hlt h
  have hprio : ∀ h, (s.fillTcb i p a b).prio h = if h = i + 1 then p else s.prio h := fun h => by
    simp only [Kernel.prio, Kernel.fillTcb, Function.update_apply]
    split <;> rfl
  have hvec : ∀ q, (s.fillTcb i p a b).priorityVector q =
      if q = p then i + 1 else s.priorityVector q := fun q => Function.update_apply _ _ _ _
  have hbits : bits (s.fillTcb i p a b).taskAlloc = insert i (bits s.taskAlloc) :=
    bits_or_mask (by omega)
  have hni : i ∉ bits s.taskAlloc := by
    rw [mem_bits, hfree]
    simp
  have hcard := card_bits_le s.taskAlloc
  constructor
  case count =>
    rw [hbits, Finset.card_insert_of_notMem hni, ← ht.count]
    have := ht.count
    show (s.numberOfInstalledTasks + 1) % 256 = _
    omega
  case alloc_lt =>
    intro j hj
    rw [hbits, Finset.mem_insert] at hj
    rcases hj with rfl | hj
    · exact hlt
    · exact ht.alloc_lt j hj
  case empty =>
    intro h h0 hh
    rw [hinst, not_or] at hh
    rw [hprio, if_neg hh.1]
    exact ht.empty h h0 hh.2
  case prio_lt =>
    intro h hh
    rw [hprio]
    split
    · exact hp
    · rename_i hne
      exact ht.prio_lt h (((hinst h).mp hh).resolve_left hne)
  case vector =>
    intro h hh h0
    rw [hprio] at h0 ⊢
    rw [hvec]
    by_cases hne : h = i + 1
    · rw [if_pos hne, if_pos rfl, hne]
    · rw [if_neg hne] at h0 ⊢
      have hih := ((hinst h).mp hh).resolve_left hne
      have hv := ht.vector h hih h0
      rw [if_neg, hv]
      -- the priority is taken, so it is not the new task's
      intro heq
      rw [heq, hpv (heq ▸ h0)] at hv
      exact hih.ne_emptyPrio hv.symm
  case vector_inv =>
    intro q hq
    rw [hvec]
    by_cases hqp : q = p
    · rw [if_pos hqp]
      refine Or.inr ⟨(hinst _).mpr (Or.inl rfl), ?_⟩
      rw [hprio, if_pos rfl, hqp]
    · rw [if_neg hqp]
      rcases ht.vector_inv q hq with h | ⟨h, hpr⟩
      · exact Or.inl h
      · refine Or.inr ⟨(hinst _).mpr (Or.inr h), ?_⟩
        have hne : s.priorityVector q ≠ i + 1 := fun he => hnew (he ▸ h)
        rw [hprio, if_neg hne]
        exact hpr
  case ready =>
    intro q
    have hr : (s.fillTcb i p a b).ready = insert p s.ready := bits_or_mask hp
    rw [hr, Finset.mem_insert, ht.ready]
    constructor
    · rintro (rfl | ⟨h, hh, hpr⟩)
      · exact ⟨i + 1, (hinst _).mpr (Or.inl rfl), by rw [hprio, if_pos rfl]⟩
      · have hne : h ≠ i + 1 := fun he => hnew (he ▸ hh)
        exact ⟨h, (hinst _).mpr (Or.inr hh), by rw [hprio, if_neg hne]; exact hpr⟩
    · rintro ⟨h, hh, hpr⟩
      rw [hprio] at hpr
      split at hpr
      · exact Or.inl hpr.symm
      · rename_i hne
        exact Or.inr ⟨h, ((hinst h).mp hh).resolve_left hne, hpr⟩

/-- The slot of a task that does not have priority 0 is emptied. -/
theorem TaskTable.clearTcb (ht : TaskTable s) {task : Nat} (hi : s.Installed task)
    (hp : s.prio task ≠ 0) : TaskTable ((s.clearReady (s.prio task)).clearTcb task) := by
  generalize hu : (s.clearReady (s.prio task)).clearTcb task = u
  have hinst : ∀ h, u.Installed h ↔ s.Installed h ∧ h ≠ task := fun h => by
    rw [← hu]
    exact TableInv.installed_clearTcb (s := s.clearReady (s.prio task)) hi.pos h
  have hprio : ∀ h, u.prio h = if h = task then emptyPrio else s.prio h := fun h => by
    simp only [← hu, Kernel.prio, Kernel.clearTcb, clearReady, Function.update_apply]
    split <;> rfl
  have hvec : ∀ q, u.priorityVector q =
      if q = s.prio task then emptyPrio else s.priorityVector q := fun q => by
    rw [← hu]
    exact Function.update_apply _ _ _ _
  have hbits : bits u.taskAlloc = (bits s.taskAlloc).erase (task - 1) := by
    rw [← hu]
    exact bits_and_not_mask _ _
  have hready : u.ready = s.ready.erase (s.prio task) := by
    rw [← hu]
    exact bits_and_not_mask _ _
  have hcount : u.numberOfInstalledTasks = (s.numberOfInstalledTasks + 255) % 256 := by
    rw [← hu]
    rfl
  have hmem : task - 1 ∈ bits s.taskAlloc := (installed_iff_mem.mp hi).2.2
  have hpos : 0 < (bits s.taskAlloc).card := Finset.card_pos.mpr ⟨_, hmem⟩
  have hcard := card_bits_le s.taskAlloc
  -- two tasks never share a priority other than 0
  have hinj : ∀ h, s.Installed h → s.prio h = s.prio task → h = task := fun h hh heq => by
    rw [← ht.vector h hh (heq ▸ hp), heq, ht.vector task hi hp]
  constructor
  case count =>
    rw [hcount, hbits, Finset.card_erase_of_mem hmem, ht.count]
    omega
  case alloc_lt =>
    intro j hj
    rw [hbits] at hj
    exact ht.alloc_lt j (Finset.mem_of_mem_erase hj)
  case empty =>
    intro h h0 hh
    rw [hprio]
    split
    · rfl
    · rename_i hne
      exact ht.empty h h0 fun hih => hh ((hinst h).mpr ⟨hih, hne⟩)
  case prio_lt =>
    intro h hh
    obtain ⟨hih, hne⟩ := (hinst h).mp hh
    rw [hprio, if_neg hne]
    exact ht.prio_lt h hih
  case vector =>
    intro h hh h0
    obtain ⟨hih, hne⟩ := (hinst h).mp hh
    rw [hprio, if_neg hne] at h0 ⊢
    rw [hvec, if_neg fun heq => hne (hinj h hih heq)]
    exact ht.vector h hih h0
  case vector_inv =>
    intro q hq
    rw [hvec]
    split
    · exact Or.inl rfl
    · rename_i hne
      rcases ht.vector_inv q hq with h | ⟨hih, hpr⟩
      · exact Or.inl h
      · have htask : s.priorityVector q ≠ task := fun he => hne (by rw [← hpr, he])
        refine Or.inr ⟨(hinst _).mpr ⟨hih, htask⟩, ?_⟩
        rw [hprio, if_neg htask]
        exact hpr
  case ready =>
    intro q
    rw [hready, Finset.mem_erase, ht.ready]
    constructor
    · rintro ⟨hne, h, hih, hpr⟩
      have htask : h ≠ task := fun he => hne (by rw [← hpr, he])
      exact ⟨h, (hinst h).mpr ⟨hih, htask⟩, by rw [hprio, if_neg htask]; exact hpr⟩
    · rintro ⟨h, hh, hpr⟩
      obtain ⟨hih, hne⟩ := (hinst h).mp hh
      rw [hprio, if_neg hne] at hpr
      exact ⟨fun heq => hne (hinj h hih (hpr.trans heq)), h, hih, hpr⟩

/-! ### The calls -/

/-- How a call can change the tables: not at all, by filling a slot, or by emptying one. -/
inductive TableStep (s : Kernel cfg) : Kernel cfg → Prop
  | same : TableStep s s
  | filled {i p a b : Nat} (hi : s.freeTcb = some i) (hp : p < cfg.prioBits)
      (hpv : p ≠ 0 → s.priorityVector p = emptyPrio) : TableStep s (s.fillTcb i p a b)
  | cleared {task : Nat} (hi : s.Installed task) (hp : s.prio task ≠ 0) :
      TableStep s ((s.clearReady (s.prio task)).clearTcb task)

/-- The priority an accepted install has. -/
theorem checkInstall_accepts {isIdle : Bool} {p : Nat} (hc : s.checkInstall isIdle p = none) :
    p < cfg.prioBits ∧ (p ≠ 0 → s.priorityVector p = emptyPrio) := by
  by_cases h0 : p = 0
  · exact ⟨h0 ▸ cfg.prioBits_pos, fun h => absurd h0 h⟩
  · simp only [checkInstall, if_pos h0] at hc
    split at hc
    · cases hc
    · rename_i hle
      split at hc
      · cases hc
      · rename_i hpv
        exact ⟨cfg.lt_prioBits_iff.mpr (by omega), fun _ => not_not.mp hpv⟩

theorem install_tableStep (s : Kernel cfg) (isIdle : Bool) (bytes p : Nat) :
    ∃ u, TableStep s u ∧ SameTable u (s.osInstallTask isIdle bytes p).1 := by
  rcases hu : s.osInstallTask isIdle bytes p with ⟨u, r⟩
  rcases osInstallTask_inv hu with ⟨-, heap, rfl⟩ | ⟨i, a, b, c, d, heap, hc, hf, -, -, rfl⟩
  · exact ⟨s, .same, rfl, rfl, rfl, rfl, rfl⟩
  · obtain ⟨hp, hpv⟩ := checkInstall_accepts hc
    exact ⟨s.fillTcb i p a b, .filled hf hp hpv, rfl, rfl, rfl, rfl, rfl⟩

/-- With every task ready, an uninstall is refused or empties the slot. -/
theorem TaskTable.uninstall (ht : TaskTable s) {k : Nat} {off : Bool} {taskTimer : Option Nat}
    {u : Kernel cfg} {oc : Outcome} (hi : s.Installed (if k = 0 then s.currentTask else k))
    (hex : s.osUninstallTask k off taskTimer = some (u, oc)) : TableStep s u := by
  simp only [osUninstallTask] at hex
  generalize (if k = 0 then s.currentTask else k) = task at hi hex
  rw [if_neg hi.pos] at hex
  split at hex
  · cases hex
    exact .same
  · -- every installed task is ready, so the branch for a delayed one is not reached
    rename_i hp
    have hready : s.osReadyList &&& priorityMask cfg (s.prio task) =
        priorityMask cfg (s.prio task) :=
      (and_mask_eq_mask (ht.prio_lt task hi)).mpr ((ht.ready _).mpr ⟨task, hi, rfl⟩)
    rw [if_neg (not_not.mpr hready)] at hex
    cases hex
    exact .cleared hi hp

/-- Inversion of a step. -/
theorem TaskTable.step_inv (ht : TaskTable s) {a : Action} {o : Obs} (ha : InstallsOnly s a)
    (hstep : s.step a = some (t, o)) : ∃ u, TableStep s u ∧ SameTable u t := by
  cases a with
  | call c =>
      obtain ⟨-, v, oc, hex, ho⟩ := step_call_inv hstep
      have hv : ∃ u, TableStep s u ∧ SameTable u v := by
        cases c with
        | installTask isIdle bytes p =>
            cases hex
            exact install_tableStep s isIdle bytes p
        | uninstallTask k off taskTimer => exact ⟨v, ht.uninstall ha hex, rfl, rfl, rfl, rfl, rfl⟩
        | _ => cases ha
      obtain ⟨u, hu, h1, h2, h3, h4, h5⟩ := hv
      rcases ho with ⟨r, -, rfl, -⟩ | ⟨task, -, rfl, -⟩
      · exact ⟨u, hu, h1, h2, h3, h4, h5⟩
      · exact ⟨u, hu, h1, h2, h3, h4, h5⟩
  | brtosStart =>
      obtain ⟨u, hu, hsame⟩ := install_tableStep s true cfg.idleStackSize 0
      simp only [Kernel.step, Kernel.brtosStart] at hstep
      split at hstep
      · split at hstep
        · rename_i v out hv
          rw [hv] at hsame
          obtain ⟨w, hw, h⟩ := Option.map_eq_some_iff.mp hstep
          cases h
          obtain ⟨task, -, rfl⟩ := changeContext_inv hw
          -- the switch to the first task reads the tables only
          exact ⟨u, hu, hsame.count, hsame.alloc, hsame.context, hsame.vector, hsame.ready⟩
        · rename_i v r hne hv
          rw [hv] at hsame
          cases hstep
          exact ⟨u, hu, hsame⟩
      · cases hstep
  | _ => cases ha

theorem TaskTable.step (ht : TaskTable s) {a : Action} {o : Obs} (ha : InstallsOnly s a)
    (hstep : s.step a = some (t, o)) : TaskTable t := by
  obtain ⟨u, hu, hsame⟩ := ht.step_inv ha hstep
  refine TaskTable.congr ?_ hsame
  cases hu with
  | same => exact ht
  | filled hi hp hpv => exact ht.fillTcb hi hp hpv
  | cleared hi hp => exact ht.clearTcb hi hp

/-- A task of priority 0 stays. -/
theorem TaskTable.step_idle (ht : TaskTable s) {a : Action} {o : Obs} (ha : InstallsOnly s a)
    (hstep : s.step a = some (t, o)) {h : Nat} (hi : s.Installed h) (h0 : s.prio h = 0) :
    t.Installed h ∧ t.prio h = 0 := by
  obtain ⟨u, hu, hsame⟩ := ht.step_inv ha hstep
  rw [installed_congr hsame.alloc, Kernel.prio, hsame.context]
  cases hu with
  | same => exact ⟨hi, h0⟩
  | filled hfree hp hpv =>
      rename_i i p a b
      have hne : h ≠ i + 1 := fun he => TableInv.not_installed_of_free hfree (he ▸ hi)
      refine ⟨(TableInv.installed_fillTcb (freeTcb_spec hfree).1 h).mpr (Or.inr hi), ?_⟩
      have hctx : (s.fillTcb i p a b).contextTask h = s.contextTask h :=
        Function.update_of_ne hne _ _
      rw [hctx]
      exact h0
  | cleared htask hp =>
      rename_i task
      have hne : h ≠ task := fun he => hp (he ▸ h0)
      have hinst : ((s.clearReady (s.prio task)).clearTcb task).Installed h ↔ s.Installed h ∧ h ≠ task :=
        TableInv.installed_clearTcb (s := s.clearReady (s.prio task)) htask.pos h
      refine ⟨hinst.mpr ⟨hi, hne⟩, ?_⟩
      have hctx : ((s.clearReady (s.prio task)).clearTcb task).contextTask h = s.contextTask h :=
        Function.update_of_ne hne _ _
      rw [hctx]
      exact h0

/-! ### The table -/

theorem taskTable_init : TaskTable (Kernel.init cfg) := by
  have hno : ∀ h, ¬ (Kernel.init cfg).Installed h := by
    rintro h ⟨-, -, h3⟩
    simp [Kernel.init, preInstallTasks] at h3
  constructor
  case count =>
    show 0 = (bits 0#32).card
    rw [bits_zero]
    rfl
  case alloc_lt =>
    intro i hi
    have hmem : i ∈ bits 0#32 := hi
    simp at hmem
  case empty =>
    intro h h0 _
    show ((if h = 0 then _ else _ : ContextType)).priority = emptyPrio
    rw [if_neg h0]
  case prio_lt => exact fun h hi => absurd hi (hno h)
  case vector => exact fun h hi => absurd hi (hno h)
  case vector_inv => exact fun _ _ => Or.inl rfl
  case ready =>
    intro p
    have hempty : (Kernel.init cfg).ready = ∅ := bits_zero
    rw [hempty]
    exact ⟨fun h => absurd h (Finset.notMem_empty p), fun ⟨h, hi, _⟩ => absurd hi (hno h)⟩

/-- No slot is found exactly when every slot is allocated. -/
theorem freeTcb_eq_none : s.freeTcb = none ↔
    ∀ h, 1 ≤ h → h ≤ cfg.numberOfTasks → s.Installed h := by
  unfold Kernel.freeTcb
  rw [List.find?_eq_none]
  constructor
  · intro hall h h1 h2
    have := hall (h - 1) (List.mem_range.mpr (by omega))
    exact ⟨h1, h2, by simpa using this⟩
  · intro hall i hi
    obtain ⟨-, -, h3⟩ := hall (i + 1) (by omega) (Nat.succ_le_of_lt (List.mem_range.mp hi))
    simpa using h3

/-- An install whose size, priority and memory are acceptable depends on the slots only. -/
theorem osInstallTask_code {isIdle : Bool} {bytes p : Nat} (hfit : s.StackFits bytes)
    (hc : s.checkInstall isIdle p = none) : (s.osInstallTask isIdle bytes p).2.code =
      if s.freeTcb = none then .endOfAvailableTcb else .ok := by
  obtain ⟨hsize, hmem⟩ := hfit
  unfold osInstallTask
  split
  · rename_i hdyn
    rw [if_pos hdyn] at hmem
    simp only [osInstallTaskDynamic, if_neg (Nat.not_lt.mpr hsize), hc]
    split
    · rename_i heap heq
      rw [heq] at hmem
      exact absurd rfl hmem
    · cases hf : s.freeTcb <;> rfl
  · rename_i hdyn
    rw [if_neg hdyn] at hmem
    simp only [osInstallTaskStatic, if_neg (Nat.not_lt.mpr hsize), if_neg (Nat.not_lt.mpr hmem), hc]
    cases hf : s.freeTcb <;> rfl

/-- **The task table.** After any sequence of installs, of any function, size and
priority, and uninstalls of installed tasks, the tables describe the same tasks; an
install never hands out a slot in use and, if its other arguments are acceptable, fails
exactly when there is no slot left; and the idle task stays. -/
theorem task_table_consistent {tr : Trace} (hr : RunFromInit InstallsOnly tr s) :
    s.numberOfInstalledTasks = (bits s.taskAlloc).card ∧
    (∀ h, 1 ≤ h → h ≤ cfg.numberOfTasks →
      (s.taskAlloc.getLsbD (h - 1) = true ↔ s.prio h ≠ emptyPrio)) ∧
    (∀ p h, 1 ≤ p → 1 ≤ h → h ≤ cfg.numberOfTasks →
      (s.priorityVector p = h ↔ s.Installed h ∧ s.prio h = p)) ∧
    (∀ p, p ∈ s.ready ↔ ∃ h, s.Installed h ∧ s.prio h = p) ∧
    (∀ isIdle bytes p h, (s.osInstallTask isIdle bytes p).2 = ⟨.ok, .handle h⟩ →
      ¬ s.Installed h) ∧
    (∀ isIdle bytes p, s.StackFits bytes → s.checkInstall isIdle p = none →
      ((s.osInstallTask isIdle bytes p).2.code = .endOfAvailableTcb ↔
        ∀ h, 1 ≤ h → h ≤ cfg.numberOfTasks → s.Installed h) ∧
      ((s.osInstallTask isIdle bytes p).2.code ≠ .endOfAvailableTcb →
        (s.osInstallTask isIdle bytes p).2.code = .ok)) ∧
    (∀ h tr' t, s.Installed h → s.prio h = 0 → Run Kernel.step InstallsOnly s tr' t →
      t.Installed h ∧ t.prio h = 0) := by
  have ht : TaskTable s := hr.invariant taskTable_init fun t a u o ht ha hs => ht.step ha hs
  have hne : ∀ h, s.Installed h → s.prio h ≠ emptyPrio := fun h hi heq => by
    have hlt := ht.prio_lt h hi
    have hle := cfg.prioBits_le
    rw [heq, emptyPrio] at hlt
    omega
  refine ⟨ht.count, ?_, ?_, ht.ready, ?_, ?_, ?_⟩
  · intro h h1 h2
    constructor
    · exact fun hb => hne h ⟨h1, h2, hb⟩
    · intro hp
      by_contra hb
      exact hp (ht.empty h (by omega) fun hi => hb hi.2.2)
  · intro p h hp h1 h2
    constructor
    · rintro rfl
      -- `EMPTY_PRIO` is no handle
      refine (ht.vector_inv p (by omega)).resolve_left fun he => ?_
      have := cfg.numberOfTasks_le
      rw [he, emptyPrio] at h2
      omega
    · rintro ⟨hi, rfl⟩
      exact ht.vector h hi (by omega)
  · intro isIdle bytes p h hret hi
    rcases hu : s.osInstallTask isIdle bytes p with ⟨u, r⟩
    rw [hu] at hret
    rcases osInstallTask_inv hu with ⟨herr, -⟩ | ⟨i, a, b, c, d, heap, -, hf, -, hr, -⟩
    · rw [show r = ⟨.ok, .handle h⟩ from hret] at herr
      cases herr
    · have heq : Ret.mk .ok (.handle (i + 1)) = ⟨.ok, .handle h⟩ := hr.symm.trans hret
      cases heq
      exact TableInv.not_installed_of_free hf hi
  · intro isIdle bytes p hfit hc
    rw [osInstallTask_code hfit hc, ← freeTcb_eq_none]
    by_cases hf : s.freeTcb = none
    · simp [hf]
    · simp [hf]
  · intro h tr' t hi h0 hrun
    obtain ⟨-, hkeep⟩ : TaskTable t ∧ t.Installed h ∧ t.prio h = 0 :=
      hrun.invariant (P := fun t => TaskTable t ∧ t.Installed h ∧ t.prio h = 0) ⟨ht, hi, h0⟩
        fun t a u o ⟨ht, hi, h0⟩ ha hs => ⟨ht.step ha hs, ht.step_idle ha hs hi h0⟩
    exact hkeep

/-- A slot and a priority are used twice, once by a task that removes itself. -/
def reuseScript : List Action :=
  [.call (.installTask false 256 2), .call (.installTask false 256 5), .brtosStart,
    .call (.uninstallTask 1 false none), .call (.installTask false 256 2), .call (.uninstallTask 0 false none)]

set_option maxRecDepth 20000 in
theorem task_table_consistent_reuse :
    let s := Run.after Kernel.step (Kernel.init Config.exampleConfig) reuseScript
    s.numberOfInstalledTasks = 2 ∧ s.numberOfInstalledTasks = (bits s.taskAlloc).card :=
  ⟨by decide +kernel, (task_table_consistent (Run.of_admits (by decide +kernel))).1⟩

end Brtos
