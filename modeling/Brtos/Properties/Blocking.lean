import Brtos.Invariant.Blocked
import Brtos.Invariant.Stack

/-!
# Brtos.Properties.Blocking

**A blocked task does not run.** A block is recorded under the task's priority at that
time. As long as the task does not run it keeps that priority, whatever happens to it:
posts, timeouts and hand-offs make it ready, and only its own continuation would raise it.
Nobody else can get the priority, so no other call clears the block
(`StaysBlocked.step`); and a task whose bit is cleared is not what `OSSchedule` returns,
unless it is the idle task (`StaysBlocked.not_scheduled`).

The callers' contract is needed: a task that is uninstalled after its timeout and before it
runs again leaves a bit in a wait list, and the next post makes that priority ready, which by then
may be the base priority of a task blocked at a ceiling (`blocked_task_runs`).
-/

namespace Brtos

open Bits Kernel

variable {cfg : Config} {s t u : Kernel cfg} {rule : Kernel cfg → Nat → Prop} {h p : Nat}

/-- The call blocks task `h`, if it is not refused. -/
def Call.BlocksTask (h : Nat) (s : Kernel cfg) : Call → Prop
  | .blockTask k => h = if k = 0 then s.currentTask else k
  | .blockMultipleTask a n => h ∈ taskRange a n ∧ h ≠ s.currentTask
  | _ => False

instance (h : Nat) (s : Kernel cfg) (c : Call) : Decidable (c.BlocksTask h s) := by
  unfold Call.BlocksTask
  induction c using Call.casesOn <;> infer_instance

/-- The action does not unblock task `h`, and does not uninstall it. -/
def LeavesBlocked (h : Nat) (s : Kernel cfg) : Action → Prop
  | .call (.unBlockTask k) => k ≠ h
  | .call (.unBlockPriority q) => q ≠ s.prio h
  | .call (.unBlockMultipleTask a n) => h ∉ taskRange a n
  | .call (.uninstallTask k off _) =>
    h = (if k = 0 then s.currentTask else k) → s.prio h ∉ s.ready ∧ off = false
  | _ => True

instance (h : Nat) (s : Kernel cfg) (a : Action) : Decidable (LeavesBlocked h s a) := by
  unfold LeavesBlocked
  induction a using Action.casesOn with
  | call c => induction c using Call.casesOn <;> infer_instance
  | _ => infer_instance

/-- Task `h` is blocked at its priority `p` and does not run. -/
structure StaysBlocked (s : Kernel cfg) (h p : Nat) : Prop where
  installed : s.Installed h
  prio : s.prio h = p
  blocked : p ∉ s.unblocked
  not_running : s.currentTask ≠ h
  not_idle : p ≠ 0

/-! ### The scheduler -/

/-- `OSSchedule` does not return a task whose bit is cleared. -/
theorem not_scheduled (hk : KernelInv s) (hi : s.Installed h) (hp : s.prio h = p)
    (hb : p ∉ s.unblocked) (h0 : p ≠ 0) : s.osSchedule ≠ some h := by
  intro hsch
  rcases osSchedule_cases hsch with ⟨q, htop, hpv⟩ | ⟨-, hpv⟩
  · obtain ⟨xs, hs⟩ := hk.suspend
    obtain ⟨h', hi', hp'⟩ := hs.ready_installed htop.1
    have heq : h' = h := by rw [← hk.table.pv_prio hi', hp', hpv]
    rw [heq, hp] at hp'
    exact hb (hp' ▸ htop.2.1)
  · -- nothing is eligible, and entry 0 is the idle task's
    by_cases hcur : s.currentTask = 0
    · rw [(hk.start.main hcur).2.1] at hpv
      exact hi.ne_emptyPrio hpv.symm
    · obtain ⟨idle, hidle, -, hp', -⟩ := hk.start.idle hcur
      rw [hidle] at hpv
      rw [hpv, hp] at hp'
      exact h0 hp'

/-- The running task changes to the one `OSSchedule` returns. -/
theorem move_currentTask {a : Action} {o : Obs} (hm : Move rule s a t o) (htick : a ≠ .tick) :
    t.currentTask = s.currentTask ∨ t.osSchedule = some t.currentTask := by
  cases hm with
  | returned _ he => exact Or.inl (effect_same he).1
  | switched _ _ hs => exact Or.inr hs
  | suspended _ _ hs => exact Or.inr hs
  | started _ _ _ hs => exact Or.inr hs
  | intExit _ hs => exact Or.inr hs
  | woken hcur hnest hf hto =>
      rename_i ev q tw
      left
      obtain ⟨ctx, dl, ops, heq, -⟩ := cancelTimeout_eq s tw
      rw [heq]
      cases ev with
      | mutex m =>
          exact (takeCeiling_same { s with contextTask := ctx, delayList := dl, delayOps := ops }
            m q).2.2.2.2.2.1
      | _ => rfl
  | tick => exact absurd rfl htick
  | _ => exact Or.inl rfl

/-! ### The task and its bit -/

/-- Another task's step leaves a task installed, at its priority. -/
theorem move_prio_of_ne (hk : KernelInv s) {a : Action} {o : Obs} (hm : Move rule s a t o)
    (hi : s.Installed h) (hne : s.currentTask ≠ h) (ha : LeavesBlocked h s a) :
    t.Installed h ∧ t.prio h = s.prio h := by
  by_cases htick : a = .tick
  · subst htick
    cases hm with
    | tick hnest ht =>
        obtain ⟨hinst, -, hprio⟩ := tick_frame hk ht
        exact ⟨(hinst h).mpr hi, hprio h⟩
  · have hun : NotUninstalling h s a ∨ t.Installed h := by
      cases a with
      | call c =>
          right
          obtain ⟨-, u, oc, he, ⟨task, rfl⟩, -⟩ := hm.call_inv
          have hno : ¬ Uninstalls s h (.call c) := by
            intro hun
            cases c with
            | uninstallTask k off taskTimer =>
                obtain ⟨hh, -, hw⟩ := hun
                obtain ⟨hr, hoff⟩ := ha hh
                exact hw.elim hr fun htrue => by rw [hoff] at htrue; cases htrue
            | _ => exact hun
          have hu : u.Installed h := effect_installed he hi hno
          exact hu
      | _ => exact Or.inl trivial
    have hkeep := move_keeps_of_ne hm hi (fun _ => hne.symm) (Or.inr hun) (fun _ => hne.symm) htick
    exact ⟨hkeep.installed, hkeep.prio⟩

/-- No disciplined unblock call but those of the task itself names its priority. -/
theorem not_named (hk : KernelInv s) (hi : s.Installed h) {c : Call} (hc : c.isBlock = true)
    (hb : c.blocks = false) (hd : c.Disciplined rule s) (ha : LeavesBlocked h s (.call c)) :
    ¬ c.names s (s.prio h) := by
  cases c with
  | unBlockPriority q => exact fun hn => ha hn.symm
  | unBlockTask k => exact fun hn => ha (hk.table.prio_inj hi hd hn).symm
  | unBlockMultipleTask a n =>
      rintro ⟨k, hm, -, hn⟩
      exact ha (hk.table.prio_inj hi (hd k hm) hn ▸ hm)
  | blockPriority | blockTask | blockMultipleTask => cases hb
  | _ => cases hc

/-- The step lemma. -/
theorem StaysBlocked.step (hk : KernelInv s) (hs : StaysBlocked s h p) {a : Action} {o : Obs}
    (hd : Disciplined NestedRelease s a) (ha : LeavesBlocked h s a)
    (hstep : s.step a = some (t, o)) : StaysBlocked t h p := by
  have hm := hk.move hd hstep
  obtain ⟨hi, hprio⟩ := move_prio_of_ne hk hm hs.installed hs.not_running ha
  have hprio : t.prio h = p := hprio.trans hs.prio
  have hblocked : p ∉ t.unblocked := by
    rcases step_blockedList hk hd hstep with heq | ⟨c, u, oc, task, rfl, hc, hex, rfl⟩
    · rw [heq]
      exact hs.blocked
    · have hu : p ∉ u.unblocked := by
        by_cases hb : c.blocks = true
        · rcases block_spec hb hex with ⟨rfl, -⟩ | ⟨-, -, -, hspec⟩
          · exact hs.blocked
          · exact fun hp => hs.blocked ((hspec p).mp hp).1
        · -- an unblock call that nobody made for this task names other priorities
          have hb : c.blocks = false := by simpa using hb
          rcases unBlock_spec hc hb hex with ⟨rfl, -⟩ | hspec
          · exact hs.blocked
          · have hlt : p < cfg.prioBits := hs.prio ▸ hk.table.prio_lt hs.installed
            have hnot := not_named hk hs.installed hc hb hd ha
            rw [hs.prio] at hnot
            exact fun hp => ((hspec p hlt).mp hp).elim hs.blocked hnot
      exact hu
  have hk' := step_inv hk hd hstep
  have hsch := not_scheduled hk' hi hprio hblocked hs.not_idle
  refine ⟨hi, hprio, hblocked, fun hrun => ?_, hs.not_idle⟩
  by_cases htick : a = .tick
  · subst htick
    cases hm with
    | tick hnest ht =>
        obtain ⟨xs, hsus⟩ := hk.suspend
        rw [(tick_context hk hsus ht).2.same] at hrun
        exact hs.not_running hrun
  · rcases move_currentTask hm htick with heq | heq
    · exact hs.not_running (heq ▸ hrun)
    · exact hsch (hrun ▸ heq)

/-- A block call that returns without a context switch was not made by the task. -/
theorem not_running_of_returned {c : Call} (hc : c.BlocksTask h s)
    (hex : s.exec c = some (u, .returned RetCode.ok.ret)) : s.currentTask ≠ h := by
  cases c with
  | blockTask k =>
      have heq : h = if k = 0 then s.currentTask else k := hc
      simp only [exec, osBlockTask, Option.some.injEq, ← heq] at hex
      split at hex
      · cases hex
      · split at hex
        · cases hex
        · obtain ⟨-, ho⟩ := Prod.mk.inj hex
          intro hrun
          rw [blockOutcome, if_pos hrun] at ho
          cases ho
  | blockMultipleTask a n => exact hc.2.symm
  | _ => exact hc.elim

/-- The end of a block call that was not refused. -/
theorem staysBlocked_of_call (hk : KernelInv s) {c : Call} (hi : s.Installed h)
    (hidle : s.priorityVector 0 ≠ h) (hd : c.Disciplined NestedRelease s) (hc : c.BlocksTask h s)
    {task : Nat} (hstep : s.step (.call c) = some (t, .returned task c RetCode.ok.ret)) :
    StaysBlocked t h (s.prio h) := by
  obtain ⟨hb, hn⟩ : c.blocks = true ∧ c.names s (s.prio h) := by
    cases c with
    | blockTask k =>
        have heq : h = if k = 0 then s.currentTask else k := hc
        exact ⟨rfl, congrArg s.prio heq⟩
    | blockMultipleTask a n => exact ⟨rfl, h, hc.1, hc.2, rfl⟩
    | _ => exact hc.elim
  have hk' : KernelInv t := step_inv (a := .call c) hk hd hstep
  have h0 : s.prio h ≠ 0 := fun h0 => hidle (h0 ▸ hk.table.pv_prio hi)
  obtain ⟨-, u, oc, hex, ho⟩ := step_call_inv hstep
  -- the call has cleared the bit and written nothing else
  rcases block_spec hb hex with ⟨rfl, r, rfl, herr⟩ | ⟨-, -, ⟨b, rfl⟩, hspec⟩
  · rcases ho with ⟨r', hr, -, hobs⟩ | ⟨-, -, -, ⟨r', hr, -⟩ | ⟨hr, -⟩⟩
    · cases hr
      cases hobs
      cases herr
    · cases hr
    · cases hr
  · have hnot : s.prio h ∉ bits b := fun hin => ((hspec _).mp hin).2 hn
    rcases ho with ⟨r', rfl, rfl, hobs⟩ | ⟨next, hsch, rfl, -⟩
    · cases hobs
      have hne : s.currentTask ≠ h := not_running_of_returned hc hex
      exact ⟨hi, rfl, hnot, hne, h0⟩
    · refine ⟨hi, rfl, hnot, fun hrun => ?_, h0⟩
      exact not_scheduled hk' hi rfl hnot h0 (hrun ▸ hsch)

/-- A blocked task does not run in any continuation. -/
theorem StaysBlocked.run (hk : KernelInv s) (hst : StackInv s) (hs : StaysBlocked s h p) {tr : Trace}
    (hr : Run Kernel.step (fun s a => Disciplined LifoRelease s a ∧ LeavesBlocked h s a) s tr t) :
    KernelInv t ∧ StaysBlocked t h p := by
  have hinv := hr.invariant (P := fun s => (KernelInv s ∧ StackInv s) ∧ StaysBlocked s h p)
    ⟨⟨hk, hst⟩, hs⟩ ?_
  · exact ⟨hinv.1.1, hinv.2⟩
  · rintro t a u o ⟨⟨hk, hst⟩, hs⟩ ⟨hd, ha⟩ hstep
    have hd' := hd.nested hk hst hstep
    exact ⟨⟨step_inv hk hd' hstep, move_stack hk hst (hk.move hd hstep)⟩,
      hs.step hk hd' ha hstep⟩

/-- **A blocked task does not run**: after a block call that was not refused, in every
execution in which nobody unblocks or uninstalls the task, `OSSchedule` never returns it
and it is never the running task; and an `OSUnBlockTask` of it makes it eligible exactly
when it is ready. -/
theorem blocked_task_never_runs {tr tr' : Trace} {c : Call} {task : Nat}
    (hr : RunFromInit (Disciplined LifoRelease) tr s) (hi : s.Installed h)
    (hidle : s.priorityVector 0 ≠ h) (hd : c.Disciplined LifoRelease s) (hc : c.BlocksTask h s)
    (hstep : s.step (.call c) = some (t, .returned task c RetCode.ok.ret))
    (hr' : Run Kernel.step (fun s a => Disciplined LifoRelease s a ∧ LeavesBlocked h s a) t tr' u) :
    u.osSchedule ≠ some h ∧ u.currentTask ≠ h ∧
    ∀ v oc, u.exec (.unBlockTask h) = some (v, oc) →
      (v.prio h ∈ v.ready ∧ v.prio h ∈ v.unblocked ∧ v.priorityVector (v.prio h) = h ↔
        u.prio h ∈ u.ready) := by
  obtain ⟨hk, hst⟩ := lifo_run hr
  have hd' : Disciplined NestedRelease s (.call c) :=
    Disciplined.nested (a := .call c) hk hst hd hstep
  have ht := staysBlocked_of_call hk hi hidle hd' hc hstep
  have hkt : KernelInv t := step_inv hk hd' hstep
  have hstt : StackInv t := move_stack hk hst (hk.move (a := .call c) hd hstep)
  obtain ⟨hku, hu⟩ := ht.run hkt hstt hr'
  refine ⟨not_scheduled hku hu.installed hu.prio hu.blocked hu.not_idle, hu.not_running, ?_⟩
  intro v oc hex
  have hv : v = u.unBlock (u.prio h) := (congrArg Prod.fst (Option.some.inj hex)).symm
  have hlt := hku.table.prio_lt hu.installed
  have hmem : u.prio h ∈ v.unblocked := by
    rw [hv, Kernel.unblocked, unBlock, mem_bits_or_mask hlt]
    exact Or.inr rfl
  rw [hv] at hmem ⊢
  exact ⟨fun h => h.1, fun h => ⟨h, hmem, hku.table.pv_prio hu.installed⟩⟩

/-- Two tasks and a semaphore; the first waits for it and is blocked by the second. -/
def blockScript : List Action :=
  [.call (.installTask false 256 9), .call (.installTask false 256 5), .call (.semCreate 0),
    .brtosStart, .call (.semPend (some 0) 0)]

set_option maxRecDepth 20000 in
/-- A post, a tick and a delay of the other task do not make the blocked task run. -/
theorem blocked_task_never_runs_posted :
    (Run.after Kernel.step (kernelAfter (blockScript ++ [.call (.blockTask 1)]))
      [.call (.semPost (some 0)), .call (.delayTask 3), .intEnter, .tick, .intExit]).currentTask
      ≠ 1 := by
  have hrun : RunFromInit (Disciplined LifoRelease) _ (kernelAfter blockScript) :=
    Run.of_admits (by decide +kernel)
  have hcont : Run Kernel.step (fun s a => Disciplined LifoRelease s a ∧ LeavesBlocked 1 s a)
      (kernelAfter (blockScript ++ [.call (.blockTask 1)])) _
      (Run.after Kernel.step (kernelAfter (blockScript ++ [.call (.blockTask 1)]))
        [.call (.semPost (some 0)), .call (.delayTask 3), .intEnter, .tick, .intExit]) :=
    Run.of_admits (by decide +kernel)
  have hstep : (kernelAfter blockScript).step (.call (.blockTask 1)) =
      some (kernelAfter (blockScript ++ [.call (.blockTask 1)]),
        .returned 2 (.blockTask 1) RetCode.ok.ret) := by rfl
  exact (blocked_task_never_runs (c := .blockTask 1) hrun (by decide +kernel) (by decide +kernel)
    (by decide +kernel) (by decide +kernel) hstep hcont).2.1

/-- Task 1 is removed after its wait for the semaphore has timed out and before it has run, and
another task is installed with its priority 3. This one goes up to 9 with the mutex. -/
def staleScript : List Action :=
  [.call (.installTask false 256 3), .call (.installTask false 256 5), .call (.semCreate 0),
    .call (.mutexCreate 9), .brtosStart, .call (.delayTask 1), .call (.semPend (some 0) 2),
    .intEnter, .tick, .intExit, .resume, .intEnter, .tick, .intExit,
    .call (.uninstallTask 1 false (some 1)), .call (.installTask false 256 3), .call (.delayTask 1),
    .call (.mutexAcquire (some 0) 0), .intEnter, .tick, .intExit]

/-- Task 2 posts the semaphore and waits. -/
def stalePostScript : List Action := [.resume, .call (.semPost (some 0)), .call (.delayTask 5)]

set_option maxRecDepth 20000 in
/-- **A blocked task runs** when somebody has been removed in the middle of a pend. The bit it
leaves in the semaphore's wait list is that of the new task, which has blocked itself at 9; the
post makes it ready at 3. -/
theorem blocked_task_runs :
    let s := kernelAfter staleScript
    let t := Run.after Kernel.step s [.call (.blockTask 0)]
    let u := Run.after Kernel.step t stalePostScript
    (∃ tr, RunFromInit (fun s a => a = .call (.uninstallTask 1 false (some 1)) ∨
      Disciplined LifoRelease s a) tr s) ∧
    s.Installed 1 ∧ s.priorityVector 0 ≠ 1 ∧
    s.step (.call (.blockTask 0)) = some (t, .returned 1 (.blockTask 0) RetCode.ok.ret) ∧
    (∃ tr, Run Kernel.step (fun s a => Disciplined LifoRelease s a ∧ LeavesBlocked 1 s a) t tr u) ∧
    u.osSchedule = some 1 ∧ u.currentTask = 1 := by
  refine ⟨⟨_, Run.of_admits (by decide +kernel)⟩, by decide +kernel, by decide +kernel, ?_,
    ⟨_, Run.of_admits (by decide +kernel)⟩, by decide +kernel, by decide +kernel⟩
  exact Run.step_of_traceOf (by decide +kernel)

end Brtos
