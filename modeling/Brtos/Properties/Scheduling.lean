import Brtos.Invariant.Blocked
import Brtos.Invariant.Stack

/-!
# Brtos.Properties.Scheduling

What the scheduler can rely on, and what it delivers.

`scheduler_tables_consistent` is about the tables: along every execution in which
mutexes are released in last-in-first-out order, a ready bit always leads through
`PriorityVector` to an installed task of that priority, no two tasks share a
priority, and so `OSSchedule` returns a task that is installed, ready and not
blocked whenever there is one.
-/

namespace Brtos

open Bits Kernel

variable {cfg : Config} {s t : Kernel cfg}

/-! ### The tables -/

/-- A ready bit stands for the task in its `PriorityVector` entry. -/
theorem CoreInv.task_of_ready (hc : CoreInv s) {p : Nat} (hp : p ∈ s.ready) :
    s.Installed (s.priorityVector p) ∧ s.prio (s.priorityVector p) = p := by
  obtain ⟨xs, hs⟩ := hc.suspend
  obtain ⟨h, hi, hh⟩ := hs.ready_installed hp
  rw [hc.table.installed_of_pv hi hh]
  exact ⟨hi, hh⟩

/-- When some task is eligible, `OSSchedule` returns the best one. -/
theorem CoreInv.schedule_top (hc : CoreInv s) (hne : s.osReadyList &&& s.osBlockedList ≠ 0) :
    ∃ h, s.osSchedule = some h ∧ s.Installed h ∧ s.IsTop (s.prio h) := by
  have hel : (s.ready ∩ s.unblocked).Nonempty := by
    rw [← bits_and, Finset.nonempty_iff_ne_empty]
    exact fun he => hne (bits_eq_empty.mp he)
  have htop := isTop_saScheduler hel
  obtain ⟨hi, hp⟩ := hc.task_of_ready htop.1
  exact ⟨_, osSchedule_of_isTop htop, hi, by rw [hp]; exact htop⟩

/-- **Scheduler-table consistency.** -/
theorem scheduler_tables_consistent {tr : Trace}
    (hr : RunFromInit (Disciplined LifoRelease) tr s) :
    (∀ p ∈ s.ready, s.Installed (s.priorityVector p) ∧ s.priorityVector p ≠ emptyPrio ∧
      s.priorityVector p ≠ mutexPrio ∧ s.prio (s.priorityVector p) = p) ∧
    (∀ h h', s.Installed h → s.Installed h' → s.prio h = s.prio h' → h = h') ∧
    (s.osReadyList &&& s.osBlockedList ≠ 0 → ∃ h, s.osSchedule = some h ∧ s.Installed h ∧
      s.prio h ∈ s.ready ∧ s.prio h ∈ s.unblocked) := by
  have hc := (lifo_run hr).1.toCoreInv
  refine ⟨?_, ?_, ?_⟩
  · intro p hp
    obtain ⟨hi, hpr⟩ := hc.task_of_ready hp
    exact ⟨hi, hi.ne_emptyPrio, hi.ne_mutexPrio, hpr⟩
  · exact fun h h' hi hi' hp => hc.table.prio_inj hi hi' hp
  · intro hne
    obtain ⟨h, hs, hi, htop⟩ := hc.schedule_top hne
    exact ⟨h, hs, hi, htop.1, htop.2.1⟩

/-- Two tasks, a mutex with ceiling 8, a hand-off to a waiter that has a timeout. -/
def handOffScript : List Action :=
  [.call (.installTask false 256 2), .call (.installTask false 256 3), .call (.mutexCreate 8),
    .brtosStart, .call (.mutexAcquire (some 0) 0), .call (.delayTask 1),
    .call (.mutexAcquire (some 0) 5), .intEnter, .tick, .intExit, .resume,
    .call (.mutexRelease (some 0)), .call (.delayTask 3), .resume]

set_option maxRecDepth 20000 in
theorem scheduler_tables_consistent_handOff :
    let s := Run.after Kernel.step (Kernel.init Config.exampleConfig) handOffScript
    (∀ p ∈ s.ready, s.Installed (s.priorityVector p) ∧ s.priorityVector p ≠ emptyPrio ∧
      s.priorityVector p ≠ mutexPrio ∧ s.prio (s.priorityVector p) = p) ∧
    (∀ h h', s.Installed h → s.Installed h' → s.prio h = s.prio h' → h = h') ∧
    (s.osReadyList &&& s.osBlockedList ≠ 0 → ∃ h, s.osSchedule = some h ∧ s.Installed h ∧
      s.prio h ∈ s.ready ∧ s.prio h ∈ s.unblocked) :=
  scheduler_tables_consistent (Run.of_admits (by decide +kernel))

/-! ### Preemption

Every post, release with waiters, delay, pend, unblock and interrupt exit ends in
`ChangeContext`. Three places do not, although they change who should run: an
install by a task, a release without waiters, which lowers the caller, and the
move of a task to a ceiling that is blocked. -/

/-- The running task keeps its claim to the processor through this action: it does
not install a better task, a release without waiters leaves it the best one, and a
ceiling it takes is not blocked. -/
def PreemptOk (s : Kernel cfg) : Action → Prop
  | .call (.installTask _ bytes p) =>
    s.currentTask ≠ 0 → s.StackFits bytes → s.checkInstall false p = none → s.freeTcb ≠ none →
      p ≤ s.prio s.currentTask ∨ p ∉ s.unblocked
  | .call (.mutexAcquire (some m) _) =>
    s.iNesting = 0 → s.owner m ≠ s.currentTask →
      (s.mutexTable m).osEventState = .availableResource →
      (s.mutexTable m).osMaxPriority ≤ s.prio s.currentTask ∨
        (s.mutexTable m).osMaxPriority ∈ s.unblocked
  | .call (.mutexRelease (some m)) =>
    s.iNesting = 0 → s.owner m = s.currentTask → (s.event (.mutex m)).osEventWait = 0 →
      (s.mutexTable m).osOriginalPriority = s.prio s.currentTask ∨
        ((s.mutexTable m).osOriginalPriority ∈ s.unblocked ∧
          ∀ q ∈ s.ready, q ∈ s.unblocked → q ≠ s.prio s.currentTask →
            q ≤ (s.mutexTable m).osOriginalPriority)
  | .resume =>
    match s.frame s.currentTask with
    | .pend (.mutex m) p _ => p ∉ s.waiting (.mutex m) →
        (s.mutexTable m).osMaxPriority ≤ p ∨ (s.mutexTable m).osMaxPriority ∈ s.unblocked
    | _ => True
  | _ => True

instance (s : Kernel cfg) (a : Action) : Decidable (PreemptOk s a) := by
  unfold PreemptOk
  induction a using Action.casesOn with
  | call c =>
      induction c using Call.casesOn with
      | mutexAcquire m => induction m using Option.casesOn <;> infer_instance
      | mutexRelease m => induction m using Option.casesOn <;> infer_instance
      | _ => infer_instance
  | resume =>
      induction s.frame s.currentTask using Frame.casesOn with
      | pend ev => induction ev using Event.casesOn <;> infer_instance
      | _ => infer_instance
  | _ => infer_instance

/-- The running task is the one `OSSchedule` would choose. -/
def Kernel.NoPreemptionPending (s : Kernel cfg) : Prop :=
  s.osSchedule = some s.currentTask ∧
    (s.osReadyList &&& s.osBlockedList ≠ 0 → s.IsTop (s.prio s.currentTask))

/-- A running task at the top eligible priority is the scheduled one. -/
theorem CoreInv.noPreemption_of_isTop (hc : CoreInv s) (hi : s.Installed s.currentTask)
    (htop : s.IsTop (s.prio s.currentTask)) : s.NoPreemptionPending :=
  ⟨by rw [osSchedule_of_isTop htop, hc.table.pv_prio hi], fun _ => htop⟩

/-- After a context switch no preemption is pending. -/
theorem CoreInv.noPreemption_of_schedule (hc : CoreInv s) {h : Nat}
    (hs : s.osSchedule = some h) : { s with currentTask := h }.NoPreemptionPending := by
  refine ⟨hs, fun hne => ?_⟩
  obtain ⟨h', hs', -, htop⟩ := hc.schedule_top hne
  have : h' = h := Option.some.inj (hs'.symm.trans hs)
  subst this
  exact htop

/-- A running task that is not the idle task is eligible. -/
theorem CoreInv.isTop_of_noPreemption (hc : CoreInv s) (hp : s.NoPreemptionPending)
    (hidle : s.priorityVector 0 ≠ s.currentTask) : s.IsTop (s.prio s.currentTask) := by
  rcases osSchedule_cases hp.1 with ⟨p, htop, hpv⟩ | ⟨-, hpv⟩
  · have := (hc.task_of_ready htop.1).2
    rw [hpv] at this
    rw [this]
    exact htop
  · exact absurd hpv hidle

/-- Fewer rivals leave the running task on top. -/
theorem IsTop.of_subset {p q : Nat} (htop : s.IsTop p) (hq : q ∈ t.ready) (hu : q ∈ t.unblocked)
    (hsub : ∀ r ∈ t.ready, r ∈ t.unblocked → r = q ∨ r ≤ q ∨ (r ∈ s.ready ∧ r ∈ s.unblocked))
    (hle : p ≤ q) : t.IsTop q := by
  refine ⟨hq, hu, fun r hr hru => ?_⟩
  rcases hsub r hr hru with rfl | hrq | ⟨h1, h2⟩
  · exact le_refl _
  · exact hrq
  · exact (htop.2.2 r h1 h2).trans hle

/-- A step that leaves the two lists and the running task's priority alone. -/
theorem isTop_same {h p : Nat} (htop : s.IsTop p) (hr : t.osReadyList = s.osReadyList)
    (hb : t.osBlockedList = s.osBlockedList) (hp : t.prio h = p) : t.IsTop (t.prio h) := by
  unfold Kernel.IsTop Kernel.ready Kernel.unblocked
  rw [hr, hb, hp]
  exact htop

/-- A block call of a task that returns without a context switch blocks others only. -/
theorem blocked_isTop {rule : Kernel cfg → Nat → Prop} (hk : KernelInv s) (hwho : s.inTask = true)
    {c : Call} {b : BitVec cfg.prioBits} (hc : c.isBlock = true) (hd : c.Disciplined rule s)
    (hex : s.exec c = some ({ s with osBlockedList := b }, .returned RetCode.ok.ret)) :
    bits b ⊆ s.unblocked ∧
      (s.prio s.currentTask ∈ s.unblocked → s.prio s.currentTask ∈ bits b) := by
  have hcall := hk.calling hwho
  have hcur := hcall.installed
  have hnest : ¬ 0 < s.iNesting := by rw [hcall.nest]; omega
  have hun : s.unBlockOutcome ≠ .returned RetCode.ok.ret := by
    rw [unBlockOutcome, if_pos ⟨hcur.pos, hcall.nest⟩]
    simp
  -- it takes bits out, and not the caller's
  obtain ⟨hblocks, hnot⟩ : c.blocks = true ∧ ¬ c.names s (s.prio s.currentTask) := by
    cases c with
    | blockPriority p =>
        refine ⟨rfl, fun he => ?_⟩
        have he : s.prio s.currentTask = p := he
        simp only [exec, osBlockPriority, if_neg hnest, Option.some.injEq, Prod.mk.injEq] at hex
        obtain ⟨-, ho⟩ := hex
        rw [← he, hk.table.pv_prio hcur, blockOutcome, if_pos rfl] at ho
        cases ho
    | blockTask h =>
        refine ⟨rfl, fun he => ?_⟩
        have he : s.prio s.currentTask = s.prio (if h = 0 then s.currentTask else h) := he
        simp only [exec, osBlockTask, if_neg hnest, Option.some.injEq] at hex
        by_cases h0 : h = 0
        · rw [if_pos h0, if_neg hcur.pos, blockOutcome, if_pos rfl] at hex
          cases hex
        · rw [if_neg h0] at he
          have hh : s.currentTask = h := hk.table.prio_inj hcur (hd.resolve_left h0) he
          rw [if_neg h0, if_neg h0, blockOutcome, if_pos hh] at hex
          cases hex
    | blockMultipleTask a n =>
        refine ⟨rfl, ?_⟩
        rintro ⟨h, hm, hne, he⟩
        exact hne (hk.table.prio_inj hcur (hd h hm) he).symm
    | unBlockPriority p =>
        simp only [exec, osUnBlockPriority, Option.some.injEq, Prod.mk.injEq] at hex
        exact absurd hex.2 hun
    | unBlockTask h =>
        simp only [exec, osUnBlockTask, Option.some.injEq, Prod.mk.injEq] at hex
        exact absurd hex.2 hun
    | unBlockMultipleTask a n =>
        simp only [exec, osUnBlockMultipleTask, if_neg hnest, Option.some.injEq, Prod.mk.injEq] at hex
        exact absurd hex.2 hun
    | _ => simp [Call.isBlock] at hc
  rcases block_spec hblocks hex with ⟨-, r, hr, herr⟩ | ⟨-, -, -, hspec⟩
  · cases hr
    cases herr
  · exact ⟨fun p hp => ((hspec p).mp hp).1, fun hin => (hspec _).mpr ⟨hin, hnot⟩⟩

/-- The ready list after a task's move to a ceiling. -/
theorem ready_takeCeiling (u : Kernel cfg) {m p : Nat}
    (hlt : (u.mutexTable m).osMaxPriority < cfg.prioBits) :
    (u.takeCeiling m p).ready = if p < (u.mutexTable m).osMaxPriority then
      insert (u.mutexTable m).osMaxPriority (u.ready.erase p) else u.ready := by
  unfold takeCeiling
  dsimp only
  by_cases hp : p < (u.mutexTable m).osMaxPriority
  · rw [if_pos (show (u.mutexTable m).osMaxPriority > p from hp), if_pos hp, ready_setReady hlt,
      ready_clearReady]
    rfl
  · rw [if_neg (show ¬ (u.mutexTable m).osMaxPriority > p from hp), if_neg hp]
    rfl

/-- A running task on top that takes an unblocked ceiling stays on top. -/
theorem isTop_takeCeiling {u : Kernel cfg} {m : Nat}
    (htop : u.IsTop (u.prio u.currentTask))
    (hlt : (u.mutexTable m).osMaxPriority < cfg.prioBits)
    (hun : (u.mutexTable m).osMaxPriority ≤ u.prio u.currentTask ∨
      (u.mutexTable m).osMaxPriority ∈ u.unblocked) :
    (u.takeCeiling m (u.prio u.currentTask)).IsTop
      ((u.takeCeiling m (u.prio u.currentTask)).prio u.currentTask) := by
  have hready := ready_takeCeiling u (p := u.prio u.currentTask) hlt
  obtain ⟨-, -, hprio, -⟩ := takeCeiling_fields u m (u.prio u.currentTask)
  have hb : (u.takeCeiling m (u.prio u.currentTask)).unblocked = u.unblocked := by
    rw [Kernel.unblocked, takeCeiling_blocked]
  rw [hprio]
  by_cases hp : u.prio u.currentTask < (u.mutexTable m).osMaxPriority
  · rw [if_pos ⟨rfl, hp⟩]
    rw [if_pos hp] at hready
    refine IsTop.of_subset htop ?_ ?_ ?_ hp.le
    · rw [hready]
      exact Finset.mem_insert_self _ _
    · rw [hb]
      exact hun.resolve_left (not_le.mpr hp)
    · intro r hr hru
      rw [hready, Finset.mem_insert, Finset.mem_erase] at hr
      rw [hb] at hru
      rcases hr with rfl | hr
      · exact Or.inl rfl
      · exact Or.inr (Or.inr ⟨hr.2, hru⟩)
  · rw [if_neg (fun h => hp h.2)]
    rw [if_neg hp] at hready
    unfold Kernel.IsTop
    rw [hready, hb]
    exact htop

/-- The lists after a release without waiters. -/
theorem released_lists (s : Kernel cfg) {m : Nat}
    (hlt : (s.mutexTable m).osOriginalPriority < cfg.prioBits) :
    ((s.giveUp m).freeMutex m).unblocked = s.unblocked ∧
    ((s.giveUp m).freeMutex m).prio s.currentTask = (s.mutexTable m).osOriginalPriority ∧
    ((s.giveUp m).freeMutex m).ready =
      if s.prio s.currentTask ≠ (s.mutexTable m).osOriginalPriority then
        insert (s.mutexTable m).osOriginalPriority (s.ready.erase (s.prio s.currentTask))
      else s.ready := by
  obtain ⟨hsame, -⟩ := freeMutex_same (s.restorePriority m) m
  have hblock : ((s.giveUp m).freeMutex m).osBlockedList = s.osBlockedList := by
    obtain ⟨ready, pv, ctx, mt, hd, hr⟩ := released_eq s m
    rw [hr]
  refine ⟨by rw [Kernel.unblocked, hblock], ?_, ?_⟩
  · have hctx : ((s.giveUp m).freeMutex m).prio s.currentTask =
        (s.restorePriority m).prio s.currentTask :=
      congrArg (fun c => (c s.currentTask).priority) hsame.contextTask
    rw [hctx, TableInv.restorePriority_prio, if_pos rfl]
  · have hr : ((s.giveUp m).freeMutex m).ready = (s.restorePriority m).ready :=
      congrArg bits hsame.osReadyList
    rw [hr]
    unfold restorePriority
    dsimp only
    split
    · exact (ready_setReady (s := s.clearReady (s.prio s.currentTask)) hlt).trans
        (by rw [ready_clearReady])
    · rfl

/-- What a mutex has as its ceiling is a priority, or 0. -/
theorem osMaxPriority_lt (ht : TableInv s) {m : Nat} (ha : s.Allocated (.mutex m)) :
    (s.mutexTable m).osMaxPriority < cfg.prioBits := by
  rcases Nat.eq_zero_or_pos (s.mutexTable m).osMaxPriority with h0 | hpos
  · rw [h0]
    exact cfg.prioBits_pos
  · exact ht.ceil_lt (m := m) ⟨ha, rfl, hpos⟩

/-- A call that returns without a context switch leaves its caller on top. -/
theorem effect_isTop (hk : KernelInv s) (htop : s.IsTop (s.prio s.currentTask))
    (hwho : s.inTask = true) {c : Call} {r : Ret} (hok : PreemptOk s (.call c))
    (he : Effect NestedRelease s c t (.returned r)) : t.IsTop (t.prio s.currentTask) := by
  have hcall := hk.calling hwho
  have hi := hcall.installed
  have hsame : ∀ {v : Kernel cfg}, v.osReadyList = s.osReadyList →
      v.osBlockedList = s.osBlockedList → v.contextTask = s.contextTask →
      v.IsTop (v.prio s.currentTask) := fun hr hb hc =>
    isTop_same htop hr hb (by rw [Kernel.prio, hc])
  have hwake : ∀ {r' : Ret}, s.afterWake r' ≠ .returned r := by
    intro r'
    rw [afterWake, if_pos hcall.nest]
    simp
  generalize hoc : Outcome.returned r = oc at he
  cases he with
  | installed hw hp hle hpv hfree hfit =>
      rename_i bytes p i a b c d heap
      have hchk : s.checkInstall false p = none := by
        unfold checkInstall
        rw [if_pos (by omega), if_neg (by omega), if_neg (not_not.mpr hpv)]
      -- the guard: the new task is not more urgent than its caller, or is blocked
      have hlow := hok hi.pos hfit hchk (by rw [hfree]; simp)
      have hne : s.currentTask ≠ i + 1 := fun h => TableInv.not_installed_of_free hfree (h ▸ hi)
      have hready : (s.fillTcb i p a b).ready = insert p s.ready :=
        bits_or_mask (cfg.lt_prioBits_iff.mpr hle)
      have hprio : (s.fillTcb i p a b).prio s.currentTask = s.prio s.currentTask := by
        simp only [Kernel.prio, Kernel.fillTcb, Function.update_of_ne hne]
      change (s.fillTcb i p a b).IsTop ((s.fillTcb i p a b).prio s.currentTask)
      rw [hprio]
      refine IsTop.of_subset htop ?_ htop.2.1 ?_ (le_refl _)
      · rw [hready]
        exact Finset.mem_insert_of_mem htop.1
      · intro q hq hqu
        rw [hready] at hq
        rcases Finset.mem_insert.mp hq with rfl | hq
        · rcases hlow with h | h
          · exact Or.inr (Or.inl h)
          · exact absurd hqu h
        · exact Or.inr (Or.inr ⟨hq, hqu⟩)
  | uninstalled htask hw hinst hp hf hown hr =>
      rename_i h task off
      -- a task that uninstalls itself does not return
      have hne : s.currentTask ≠ task := by
        intro he
        rw [uninstallOutcome, if_pos he.symm] at hoc
        cases hoc
      have hpne : s.prio s.currentTask ≠ s.prio task := fun he =>
        hne (hk.table.prio_inj hi hinst he)
      have hprio : ((s.clearReady (s.prio task)).clearTcb task).prio s.currentTask =
          s.prio s.currentTask := by
        simp only [Kernel.prio, Kernel.clearTcb, clearReady, Function.update_of_ne hne]
      have hready : ((s.clearReady (s.prio task)).clearTcb task).ready =
          s.ready.erase (s.prio task) := ready_clearReady _
      rw [hprio]
      refine IsTop.of_subset htop ?_ htop.2.1 ?_ (le_refl _)
      · rw [hready]
        exact Finset.mem_erase.mpr ⟨hpne, htop.1⟩
      · intro q hq hqu
        rw [hready] at hq
        exact Or.inr (Or.inr ⟨Finset.mem_of_mem_erase hq, hqu⟩)
  | uninstalledDelayed htask hw hinst hp hf hown hr hs =>
      rename_i h task found
      have hne : s.currentTask ≠ task := by
        intro he
        rw [uninstallOutcome, if_pos he.symm] at hoc
        cases hoc
      refine isTop_same htop ?_ ?_ ?_
      · split <;> rfl
      · split <;> rfl
      · split <;> simp only [Kernel.prio, Kernel.clearTcb, removeFromDelayList,
          Function.update_of_ne hne]
  | blocked hc hd hex ho =>
      rename_i b
      have hr : r = RetCode.ok.ret := by
        rcases ho with h | h
        · rw [← hoc] at h
          cases h
          rfl
        · rw [← hoc] at h
          cases h.1
      rw [← hoc, hr] at hex
      obtain ⟨hsub, hkeep⟩ := blocked_isTop hk hwho hc hd hex
      exact ⟨htop.1, hkeep htop.2.1, fun q hq hqu => htop.2.2 q hq (hsub hqu)⟩
  -- a post that finds a waiter calls the scheduler
  | semSelected => exact absurd hoc.symm hwake
  | mboxSelected => exact absurd hoc.symm hwake
  | queueSelected => exact absurd hoc.symm hwake
  | mutexCreated =>
      refine hsame ?_ ?_ ?_ <;> dsimp only [setMutex, allocEvent, setEvent] <;> split <;> rfl
  | acquired hw hev hown hst =>
      rename_i m tw
      have hun := hok hcall.nest hown hst
      have hmax : ((s.setMutex m fun c => { c with
          osEventState := .busyResource, osEventOwner := s.currentTask }).mutexTable
          m).osMaxPriority = (s.mutexTable m).osMaxPriority := by simp [setMutex]
      refine isTop_takeCeiling (u := s.setMutex m fun c => { c with
        osEventState := .busyResource, osEventOwner := s.currentTask }) (m := m) htop ?_ ?_
      · rw [hmax]
        exact osMaxPriority_lt hk.table hev
      · rw [hmax]
        exact hun
  | released hw hev hown hrule hwait =>
      rename_i m
      have hlow := hok hcall.nest hown hwait
      have hlt : (s.mutexTable m).osOriginalPriority < cfg.prioBits := by
        rcases hrule with hb | ⟨m', -, -, ha', -, hmax, hpos, -⟩
        · rw [hb]
          exact hk.table.base_lt hi
        · exact hk.table.ceil_lt (m := m') ⟨ha', hmax, hpos⟩
      obtain ⟨hun, hprio, hready⟩ := released_lists s hlt
      rw [hprio]
      unfold Kernel.IsTop
      rw [hun, hready]
      rcases hlow with heq | ⟨hou, hbest⟩
      · -- the priority was not raised
        rw [heq, if_neg (not_not.mpr rfl)]
        exact htop
      · -- nobody is between the ceiling and the priority the caller falls back to
        split
        · refine ⟨Finset.mem_insert_self _ _, hou, fun q hq hqu => ?_⟩
          rw [Finset.mem_insert, Finset.mem_erase] at hq
          rcases hq with rfl | hq
          · exact le_refl _
          · exact hbest q hq.2 hqu hq.1
        · rename_i hne
          rw [← not_not.mp hne]
          exact htop
  | delayed => cases hoc
  | waited => cases hoc
  | handedOff => cases hoc
  | _ => exact hsame rfl rfl rfl

/-- The step lemma of preemption: what a guarded step leaves. -/
theorem move_noPreemption (hk : KernelInv s)
    (hp : s.currentTask ≠ 0 → s.iNesting = 0 → s.NoPreemptionPending) {a : Action} {o : Obs}
    (hok : PreemptOk s a) (hm : Move NestedRelease s a t o) :
    t.currentTask ≠ 0 → t.iNesting = 0 → t.NoPreemptionPending := by
  have hkt := move_inv hk hm
  have hrest : ∀ (hne : t.currentTask ≠ 0), t.IsTop (t.prio t.currentTask) →
      t.NoPreemptionPending :=
    fun hne htop => hkt.toCoreInv.noPreemption_of_isTop (hkt.run hne).1 htop
  -- a task inside a suspended call is not the idle task, so it is on top
  have hresume : ∀ f, s.currentTask ≠ 0 → s.iNesting = 0 → s.frame s.currentTask = f → f ≠ .user →
      s.IsTop (s.prio s.currentTask) := by
    intro f hcur hnest hf hfu
    refine hk.toCoreInv.isTop_of_noPreemption (hp hcur hnest) ?_
    intro hz
    obtain ⟨h, hpv, -, -, -, hfh⟩ := hk.start.idle hcur
    have : h = s.currentTask := hpv.symm.trans hz
    rw [this, hf] at hfh
    exact hfu hfh
  cases hm with
  | returned ha he =>
      intro hcur hnest
      obtain ⟨h1, h2, -⟩ := effect_same he
      rw [h1] at hcur
      rw [h2] at hnest
      have hwho := allowed_inTask ha hcur hnest
      have htop := hk.toCoreInv.isTop_of_noPreemption (hp hcur hnest) (hk.calling hwho).not_idle
      refine hrest (by rw [h1]; exact hcur) ?_
      rw [h1]
      exact effect_isTop hk htop hwho hok he
  | switched ha he hs => exact fun _ _ => (effect_core hk he).core.noPreemption_of_schedule hs
  | suspended ha he hs => exact fun _ _ => (effect_core hk he).core.noPreemption_of_schedule hs
  | startFailed hmain => exact fun hcur => absurd (inMain_currentTask hmain) hcur
  | started hmain hi hu hs =>
      intro _ _
      refine ⟨hs, fun hne => ?_⟩
      obtain ⟨h', hs', -, htop⟩ := hkt.toCoreInv.schedule_top hne
      have heq := Option.some.inj (hs'.symm.trans hs)
      subst heq
      exact htop
  | delayEnded hcur hnest hf =>
      intro _ _
      exact hrest hcur (hresume _ hcur hnest hf (by simp))
  | timedOut hcur hnest hf ht =>
      intro _ _
      exact hrest hcur (hresume _ hcur hnest hf (by simp))
  | woken hcur hnest hf ht =>
      rename_i ev p tw
      have htop := hresume _ hcur hnest hf (by simp)
      obtain ⟨xs, hs⟩ := hk.suspend
      obtain ⟨hi, hr⟩ := hk.run hcur
      have hpr := (hs.pend_spec hi hf).1
      have hsel := hs.selected_of_not_timedOut hi hf hr ht
      obtain ⟨ctx, dl, ops, heq, hprio⟩ := cancelTimeout_eq s tw
      intro hcur' _
      refine hrest hcur' ?_
      rw [heq]
      cases ev with
      | sem e => exact isTop_same htop rfl rfl (hprio _)
      | mbox e => exact isTop_same htop rfl rfl (hprio _)
      | queue q => exact isTop_same htop rfl rfl (hprio _)
      | mutex m =>
          -- the new owner may be raised to the ceiling, which is not blocked
          have hun : (s.mutexTable m).osMaxPriority ≤ p ∨
              (s.mutexTable m).osMaxPriority ∈ s.unblocked := by
            simp only [PreemptOk, hf] at hok
            exact hok hsel
          have hlt := osMaxPriority_lt hk.table (hk.toCoreInv.pend_mutex_allocated hi hf)
          have hpu : (ctx s.currentTask).priority = p := (hprio _).trans hpr
          have htu : { s with contextTask := ctx, delayList := dl, delayOps := ops }.IsTop p := by
            rw [← hpr]
            exact htop
          generalize hu : { s with contextTask := ctx, delayList := dl, delayOps := ops } = u at htu ⊢
          have hcu : u.currentTask = s.currentTask := by subst hu; rfl
          have hpu' : u.prio u.currentTask = p := by subst hu; exact hpu
          have hmu : u.mutexTable = s.mutexTable := by subst hu; rfl
          have hbu : u.unblocked = s.unblocked := by subst hu; rfl
          have hres := isTop_takeCeiling (u := u) (m := m) (by rw [hpu']; exact htu)
            (by rw [hmu]; exact hlt) (by rw [hmu, hbu, hpu']; exact hun)
          rw [hpu'] at hres
          obtain ⟨-, -, -, -, -, hcut, -⟩ := takeCeiling_same u m p
          have hfin : (((u.takeCeiling m p).noteAcquired m).setFrame s.currentTask .user).currentTask =
              u.currentTask := hcut
          dsimp only [Kernel.finishPend]
          rw [hfin]
          exact hres
  | intEnter => exact fun _ hn => absurd hn (Nat.succ_ne_zero _)
  | tick hnest ht =>
      have hc := hk.toCoreInv.osIncCounter
      obtain ⟨xs, hs⟩ := hc.suspend
      obtain ⟨t', ht', -, -, htick⟩ := osTickHandler_spec hc.table hs
      have heq : t' = t := Option.some.inj (ht'.symm.trans ht)
      subst heq
      intro _ hn
      rw [htick.same] at hn
      have hz : s.iNesting = 0 := hn
      omega
  | intExitInner hnest =>
      intro _ hn
      have hz : s.iNesting - 1 = 0 := hn
      omega
  | intExit hnest hs =>
      have hcur := hk.currentTask_of_nesting (by omega)
      exact fun _ _ => (hk.setNesting hcur 0).toCoreInv.noPreemption_of_schedule hs

/-- **Preemption is never left pending** in an execution whose actions all meet
`PreemptOk`: whenever a task has the processor and no interrupt is being served,
it is the task `OSSchedule` would choose, and that is the highest-priority task
that is ready and not blocked. -/
theorem preemption_never_pending {tr : Trace}
    (hr : RunFromInit (fun s a => Disciplined NestedRelease s a ∧ PreemptOk s a) tr s)
    (hcur : s.currentTask ≠ 0) (hnest : s.iNesting = 0) : s.NoPreemptionPending := by
  have hinv := hr.invariant (P := fun s => KernelInv s ∧
    (s.currentTask ≠ 0 → s.iNesting = 0 → s.NoPreemptionPending))
    ⟨init_inv, fun h0 => absurd rfl h0⟩ ?_
  · exact hinv.2 hcur hnest
  · rintro s a t o ⟨hk, hp⟩ ⟨hd, hok⟩ hs
    exact ⟨step_inv hk hd hs, move_noPreemption hk hp hok (hk.move hd hs)⟩

set_option maxRecDepth 20000 in
theorem preemption_never_pending_handOff :
    let s := Run.after Kernel.step (Kernel.init Config.exampleConfig) handOffScript
    s.currentTask = 1 ∧ s.iNesting = 0 ∧ s.NoPreemptionPending :=
  ⟨by decide, by decide, preemption_never_pending (Run.of_admits (by decide +kernel)) (by decide) (by decide)⟩

/-- A task of base priority 2 holds a mutex with ceiling 8 while a tick makes a task
of priority 3 ready, and then releases it. -/
def lateReleaseScript : List Action :=
  [.call (.installTask false 256 2), .call (.installTask false 256 3), .call (.mutexCreate 8),
    .brtosStart, .call (.delayTask 1), .call (.mutexAcquire (some 0) 0),
    .intEnter, .tick, .intExit, .call (.mutexRelease (some 0))]

set_option maxRecDepth 20000 in
/-- The release without waiters keeps the processor although the other task is ready
and better. -/
theorem release_leaves_preemption_pending :
    let s := Run.after Kernel.step (Kernel.init Config.exampleConfig) lateReleaseScript
    RunFromInit (Disciplined LifoRelease)
      (Run.traceOf Kernel.step (Kernel.init Config.exampleConfig) lateReleaseScript) s ∧
    s.currentTask = 1 ∧ s.iNesting = 0 ∧ s.osSchedule = some 2 ∧ s.prio 1 = 2 ∧ s.prio 2 = 3 ∧
    ¬ s.NoPreemptionPending := by
  refine ⟨Run.of_admits (by decide +kernel), by decide, by decide, by decide, by decide, by decide, ?_⟩
  intro h
  exact absurd h.1 (by decide)

end Brtos
