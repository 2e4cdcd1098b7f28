import Brtos.Invariant.Blocked

/-!
# Brtos.Properties.NewTask

**Whether a new task can run.** `OSInstallTask` sets the bit of its priority in
`OSReadyList` and not the one in `OSBlockedList`, which outlives the task it was cleared
for. So the new task is eligible exactly when nobody has left that bit cleared
(`new_task_eligible_iff`): no free priority was blocked, and no blocked task uninstalled.
The wait lists are no obstacle, since tasks are not uninstalled inside a pend.
-/

namespace Brtos

open Bits Kernel

variable {cfg : Config} {s t : Kernel cfg} {p h : Nat}

/-- Task `h` is eligible at priority `p`: `OSSchedule` returns it when no higher priority
is eligible. -/
structure Kernel.Eligible (s : Kernel cfg) (h p : Nat) : Prop where
  ready : p ∈ s.ready
  unblocked : p ∈ s.unblocked
  vector : s.priorityVector p = h
  chosen : (∀ q ∈ s.ready, q ∈ s.unblocked → q ≤ p) → s.osSchedule = some h
  notWaiting : ∀ ev, p ∉ s.waiting ev

/-- The action leaves no mark on a priority nobody has: `OSBlockPriority` names one that
somebody has, and a task that is uninstalled is not blocked. -/
def LeavesNoMark (s : Kernel cfg) : Action → Prop
  | .call (.blockPriority p) => s.iNesting = 0 → s.priorityVector p ≠ emptyPrio
  | .call (.uninstallTask h off _) =>
    s.prio (if h = 0 then s.currentTask else h) ∈ s.ready ∨ off = true →
      s.prio (if h = 0 then s.currentTask else h) ∈ s.unblocked
  | _ => True

instance (s : Kernel cfg) (a : Action) : Decidable (LeavesNoMark s a) := by
  unfold LeavesNoMark
  induction a using Action.casesOn with
  | call c => induction c using Call.casesOn <;> infer_instance
  | _ => infer_instance

/-- Only priorities that somebody has are blocked. -/
def BlockedOccupied (s : Kernel cfg) : Prop :=
  ∀ p < cfg.prioBits, p ∉ s.unblocked → s.priorityVector p ≠ emptyPrio

theorem blockedOccupied_init : BlockedOccupied (Kernel.init cfg) := by
  intro p hp hun
  have hall : p ∈ bits (BitVec.allOnes cfg.prioBits) := by simp [mem_bits, hp]
  exact absurd hall hun

/-- A priority that a block call of the discipline names is somebody's. -/
theorem named_occupied (hk : KernelInv s) {c : Call} (hb : c.blocks = true)
    (hd : c.Disciplined NestedRelease s) (hm : LeavesNoMark s (.call c)) (hnest : s.iNesting = 0)
    (htask : ∀ h, c = .blockTask h → (if h = 0 then s.currentTask else h) ≠ 0)
    (hn : c.names s p) : s.priorityVector p ≠ emptyPrio := by
  have hinst : ∀ {h}, s.Installed h → s.priorityVector (s.prio h) ≠ emptyPrio := by
    intro h hi
    rw [hk.table.pv_prio hi]
    exact hi.ne_emptyPrio
  cases c with
  | blockPriority q =>
      have hpq : p = q := hn
      rw [hpq]
      exact hm hnest
  | blockTask h =>
      have hpq : p = s.prio (if h = 0 then s.currentTask else h) := hn
      rw [hpq]
      refine hinst ?_
      have hpos := htask h rfl
      split
      · rename_i h0
        rw [if_pos h0] at hpos
        exact (hk.run hpos).1
      · exact hd.resolve_left (by assumption)
  | blockMultipleTask a n =>
      obtain ⟨h, hmem, -, hpq⟩ := hn
      rw [hpq]
      exact hinst (hd h hmem)
  | _ => cases hb

/-- The step lemma. -/
theorem BlockedOccupied.step (hk : KernelInv s) (hinv : BlockedOccupied s) {a : Action} {o : Obs}
    (hd : Disciplined NestedRelease s a) (hm : LeavesNoMark s a)
    (hstep : s.step a = some (t, o)) : BlockedOccupied t := by
  intro p hp hblocked hfree
  -- a free priority was not blocked before
  have hfreed := move_freed hk (hk.move hd hstep) hfree
  have hun : p ∈ s.unblocked := by
    by_contra hnot
    rcases hfreed with hf | ⟨task, hu, rfl⟩
    · exact hinv p hp hnot hf
    · unfold Uninstalls at hu
      split at hu
      · obtain ⟨rfl, -, hw⟩ := hu
        exact hnot (hm hw)
      · exact hu
  -- and is not blocked now
  rcases step_blockedList hk hd hstep with heq | ⟨c, u, oc, task, rfl, hc, hex, rfl⟩
  · exact hblocked (heq ▸ hun)
  · have hu : p ∉ u.unblocked := hblocked
    have hf : s.priorityVector p = emptyPrio := by
      refine hfreed.resolve_right ?_
      rintro ⟨task, hun, -⟩
      cases c <;> first | exact hun | cases hc
    by_cases hb : c.blocks = true
    · rcases block_spec hb hex with ⟨rfl, -⟩ | ⟨hnest, htask, -, hspec⟩
      · exact hu hun
      · have hnames : c.names s p := by
          by_contra hno
          exact hu ((hspec p).mpr ⟨hun, hno⟩)
        exact named_occupied hk hb hd hm hnest htask hnames hf
    · -- an unblock call sets bits only
      rcases unBlock_spec hc (by simpa using hb) hex with ⟨rfl, -⟩ | hspec
      · exact hu hun
      · exact hu ((hspec p hp).mpr (Or.inl hun))

/-- The run lemma. -/
theorem BlockedOccupied.run {tr : Trace}
    (hr : RunFromInit (fun s a => Disciplined NestedRelease s a ∧ LeavesNoMark s a) tr s) :
    BlockedOccupied s := by
  refine (hr.invariant (P := fun s => KernelInv s ∧ BlockedOccupied s)
    ⟨init_inv, blockedOccupied_init⟩ ?_).2
  rintro t a u o ⟨hk, hinv⟩ ⟨hd, hm⟩ hstep
  exact ⟨step_inv hk hd hstep, hinv.step hk hd hm hstep⟩

/-! ### The new task -/

/-- Nobody waits under a priority that is free, nor under that of the idle task. -/
theorem not_waiting_of_free (hk : KernelInv s) (hp : p = 0 ∨ s.priorityVector p = emptyPrio)
    (ev : Event) : p ∉ s.waiting ev := by
  intro hw
  obtain ⟨xs, hs⟩ := hk.suspend
  obtain ⟨h, tw, hi, hf, rfl, -⟩ := hs.waiter hw
  have hpv := hk.table.pv_prio hi
  rcases hp with h0 | hfree
  · by_cases hcur : s.currentTask = 0
    · rw [(hk.start.main hcur).2.2 hi] at hf
      cases hf
    · obtain ⟨idle, hidle, hii, -, -, huser⟩ := hk.start.idle hcur
      rw [h0, hidle] at hpv
      rw [← hpv, huser] at hf
      cases hf
  · exact hi.ne_emptyPrio (hpv.symm.trans hfree)

/-- What a successful install leaves behind. -/
theorem install_ok_spec {isIdle : Bool} {bytes : Nat}
    (hok : s.osInstallTask isIdle bytes p = (t, ⟨.ok, .handle h⟩)) :
    s.checkInstall isIdle p = none ∧ t.priorityVector p = h ∧
      t.osReadyList = s.osReadyList ||| priorityMask cfg p ∧
      t.osBlockedList = s.osBlockedList ∧ t.event = s.event := by
  rcases osInstallTask_inv hok with ⟨herr, -⟩ | ⟨i, si, sz, a, b, heap, hc, -, -, hret, rfl⟩
  · cases herr
  · cases hret
    exact ⟨hc, Function.update_self .., rfl, rfl, rfl⟩

/-- The priority of an install that is accepted is free, or it is the idle task's. -/
theorem checkInstall_free {isIdle : Bool} (hc : s.checkInstall isIdle p = none) :
    p < cfg.prioBits ∧ ((p = 0 ∧ isIdle = true) ∨ (p ≠ 0 ∧ s.priorityVector p = emptyPrio)) := by
  unfold checkInstall at hc
  split at hc
  · rename_i hp
    split at hc
    · cases hc
    · rename_i hle
      split at hc
      · cases hc
      · rename_i hfree
        exact ⟨cfg.lt_prioBits_iff.mpr (not_lt.mp hle), Or.inr ⟨hp, not_not.mp hfree⟩⟩
  · rename_i hp
    have hp0 : p = 0 := not_not.mp hp
    rw [hp0]
    refine ⟨cfg.prioBits_pos, Or.inl ⟨rfl, ?_⟩⟩
    cases isIdle with
    | true => rfl
    | false => cases hc

/-- **When a new task is eligible**: in every reachable state, if and only if the bit of its
priority is set in `OSBlockedList` before the install; and that is so in every execution in
which no free priority is blocked and no blocked task uninstalled. -/
theorem new_task_eligible_iff {tr : Trace} {isIdle : Bool} {bytes : Nat}
    (hr : RunFromInit (Disciplined NestedRelease) tr s)
    (hok : s.osInstallTask isIdle bytes p = (t, ⟨.ok, .handle h⟩)) :
    (t.Eligible h p ↔ p ∈ s.unblocked) ∧
    (RunFromInit (fun s a => Disciplined NestedRelease s a ∧ LeavesNoMark s a) tr s →
      (isIdle = true → s.inMain = true) → t.Eligible h p) := by
  have hk := run_inv hr
  obtain ⟨hc, hvec, hready, hblock, hev⟩ := install_ok_spec hok
  obtain ⟨hp, hfree⟩ := checkInstall_free hc
  have hiff : t.Eligible h p ↔ p ∈ s.unblocked := by
    have hun : t.unblocked = s.unblocked := congrArg bits hblock
    constructor
    · intro hel
      exact hun ▸ hel.unblocked
    · intro hin
      have hmem : p ∈ t.ready := by
        rw [Kernel.ready, hready, mem_bits_or_mask hp]
        exact Or.inr rfl
      have hin' : p ∈ t.unblocked := hun ▸ hin
      refine ⟨hmem, hin', hvec, fun htop => ?_, fun ev => ?_⟩
      · rw [Kernel.osSchedule_of_isTop ⟨hmem, hin', htop⟩, hvec]
      · rw [Kernel.waiting, hev]
        exact not_waiting_of_free hk (hfree.imp And.left And.right) ev
  refine ⟨hiff, fun hr' hidle => hiff.mpr ?_⟩
  by_contra hnot
  refine BlockedOccupied.run hr' p hp hnot ?_
  rcases hfree with ⟨rfl, hi⟩ | ⟨-, hf⟩
  · exact (hk.start.main (inMain_currentTask (hidle hi))).2.1
  · exact hf

/-- Two tasks; the second one blocks and unblocks the first and uninstalls it. -/
def replaceScript : List Action :=
  [.call (.installTask false 256 5), .call (.installTask false 256 9), .brtosStart,
    .call (.blockTask 1), .call (.unBlockTask 1), .call (.uninstallTask 1 false none)]

set_option maxRecDepth 20000 in
/-- A third task is installed at the priority of the first. -/
theorem new_task_eligible_iff_replaced :
    ((kernelAfter replaceScript).osInstallTask false 256 5).1.Eligible 1 5 := by
  have hrun : RunFromInit (fun s a => Disciplined NestedRelease s a ∧ LeavesNoMark s a) _
      (kernelAfter replaceScript) := Run.of_admits (by decide +kernel)
  have hok : (kernelAfter replaceScript).osInstallTask false 256 5 =
      (((kernelAfter replaceScript).osInstallTask false 256 5).1, ⟨.ok, .handle 1⟩) := by rfl
  exact (new_task_eligible_iff (hrun.mono fun _ _ h => h.1) hok).2 hrun (by decide)

/-- Two tasks; the second one blocks the first and uninstalls it. -/
def blockedScript : List Action :=
  [.call (.installTask false 256 5), .call (.installTask false 256 9), .brtosStart,
    .call (.blockTask 1), .call (.uninstallTask 1 false none)]

set_option maxRecDepth 20000 in
/-- **A new task that inherits a block**: the task installed at priority 5 is ready, and its
bit in `OSBlockedList` is still the one cleared for the task that was there before. -/
theorem new_task_inherits_block :
    ∃ tr t, ∃ s : Kernel Config.exampleConfig,
      RunFromInit (Disciplined LifoRelease) tr s ∧
      s.osInstallTask false 256 5 = (t, ⟨.ok, .handle 1⟩) ∧
      5 ∈ t.ready ∧ 5 ∉ t.unblocked ∧ ¬ t.Eligible 1 5 := by
  have hrun : RunFromInit (Disciplined LifoRelease) _ (kernelAfter blockedScript) :=
    Run.of_admits (by decide +kernel)
  have hnot : 5 ∉ ((kernelAfter blockedScript).osInstallTask false 256 5).1.unblocked := by
    decide +kernel
  exact ⟨_, ((kernelAfter blockedScript).osInstallTask false 256 5).1, _, hrun, by rfl,
    by decide +kernel, hnot, fun hel => hnot hel.unblocked⟩

end Brtos
