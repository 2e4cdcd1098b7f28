import Brtos.Effect

/-!
# Brtos.Inversion

The machine takes no steps but those of `Brtos.Effect`: `exec_effect` inverts the
critical section of a call, `step_move` a whole step. There is one lemma for each
call, which follows the branches of the source function.

Two facts about the state are assumed, which the invariant provides: installed
tasks have priorities inside the tables, and no entry of `PriorityVector` is 0.
-/

namespace Brtos

open Bits Kernel

variable {cfg : Config}

/-! ### What the priority ceiling writes -/

section Ceiling

variable (s : Kernel cfg) (m : Nat)

/-- An acquire raises the task: it writes the tables of the scheduler and the block
of the mutex. -/
theorem takeCeiling_eq (p : Nat) : ∃ ready pv ctx mt, s.takeCeiling m p =
    { s with osReadyList := ready, priorityVector := pv, contextTask := ctx, mutexTable := mt } := by
  unfold takeCeiling
  dsimp only [setMutex, setPriority, setContext, setPriorityVector, clearReady, setReady]
  split
  · exact ⟨_, _, _, _, rfl⟩
  · exact ⟨_, _, _, _, rfl⟩

/-- A release lowers the task again. -/
theorem restorePriority_eq : ∃ ready ctx, s.restorePriority m =
    { s with osReadyList := ready, contextTask := ctx } := by
  unfold restorePriority
  dsimp only [clearReady, setReady, setPriority, setContext]
  split
  · exact ⟨_, _, rfl⟩
  · exact ⟨_, _, rfl⟩

theorem freeMutex_eq : ∃ pv mt, s.freeMutex m =
    { s with priorityVector := pv, mutexTable := mt } := by
  unfold freeMutex
  dsimp only [setMutex, setPriorityVector]
  split
  · exact ⟨_, _, rfl⟩
  · exact ⟨_, _, rfl⟩

/-- A mutex that nobody waits for is released. -/
theorem released_eq : ∃ ready pv ctx mt hd, (s.giveUp m).freeMutex m =
    { s with osReadyList := ready, priorityVector := pv, contextTask := ctx, mutexTable := mt,
             held := hd } := by
  obtain ⟨ready, ctx, hr⟩ := restorePriority_eq s m
  obtain ⟨pv, mt, hf⟩ := freeMutex_eq (s.giveUp m) m
  rw [hf, giveUp, hr]
  exact ⟨_, _, _, _, _, rfl⟩

end Ceiling

/-! ### Inversion of a call -/

section Inversion

variable {rule : Kernel cfg → Nat → Prop} {s t : Kernel cfg} {oc : Outcome}

/-- The first free block of a table is inside the table and not allocated. -/
theorem freeEvent_spec {kind : Nat → Event} {max e : Nat} (h : s.freeEvent kind max = some e) :
    e < max ∧ ¬ s.Allocated (kind e) := by
  unfold Kernel.freeEvent at h
  have hm := List.mem_of_find?_eq_some h
  have hp := List.find?_some h
  exact ⟨List.mem_range.mp hm, by simpa using hp⟩

/-- The first free slot is inside the table and not allocated. -/
theorem freeTcb_spec {i : Nat} (h : s.freeTcb = some i) :
    i < cfg.numberOfTasks ∧ s.taskAlloc.getLsbD i = false := by
  unfold Kernel.freeTcb at h
  have hm := List.mem_of_find?_eq_some h
  have hp := List.find?_some h
  exact ⟨List.mem_range.mp hm, by simpa using hp⟩

/-- A checked call is refused or its body runs on an allocated block. -/
theorem checkEvent_inv {kind : Nat → Event} {p : Option Nat} {body : Nat → Kernel cfg × Outcome}
    (hd : s.EventOk kind p) (h : s.checkEvent kind p body = some (t, oc)) :
    (∃ r : Ret, r.code.isError = true ∧ t = s ∧ oc = .returned r) ∨
      ∃ i, p = some i ∧ s.Allocated (kind i) ∧ body i = (t, oc) := by
  cases p with
  | none =>
      simp only [Kernel.checkEvent] at h
      split at h
      · cases h
        exact Or.inl ⟨_, rfl, rfl, rfl⟩
      · cases h
  | some i =>
      simp only [Kernel.checkEvent] at h
      split at h
      · cases h
        exact Or.inl ⟨_, rfl, rfl, rfl⟩
      · rename_i hc
        refine Or.inr ⟨i, rfl, ?_, Option.some.inj h⟩
        rcases hd with he | ha
        · by_contra hna
          exact hc ⟨he, hna⟩
        · exact ha

/-- The check lets a call on an allocated block through. -/
theorem checkEvent_allocated {kind : Nat → Event} {i : Nat} {body : Nat → Kernel cfg × Outcome}
    (ha : s.Allocated (kind i)) : s.checkEvent kind (some i) body = some (body i) := by
  unfold Kernel.checkEvent
  dsimp only
  rw [if_neg fun h => h.2 ha]

/-- A checked pend is refused or its body runs in a task, on an allocated block. -/
theorem checkPend_inv {kind : Nat → Event} {p : Option Nat} {out : Out}
    {body : Nat → Kernel cfg × Outcome}
    (ha : (s.inTask || (s.inInterrupt && cfg.errorCheck)) = true) (hd : s.EventOk kind p)
    (h : s.checkPend kind p out body = some (t, oc)) :
    (∃ r : Ret, r.code.isError = true ∧ t = s ∧ oc = .returned r) ∨
      s.inTask = true ∧ ∃ i, p = some i ∧ s.Allocated (kind i) ∧ body i = (t, oc) := by
  unfold Kernel.checkPend at h
  split at h
  · cases h
    exact Or.inl ⟨_, rfl, rfl, rfl⟩
  · rename_i hc
    have htask : s.inTask = true := by
      rcases Bool.or_eq_true_iff.mp ha with h' | h'
      · exact h'
      · simp only [inInterrupt, Bool.and_eq_true, decide_eq_true_eq] at h'
        exact absurd ⟨h'.2, h'.1⟩ hc
    rcases checkEvent_inv hd h with hr | hr
    · exact Or.inl hr
    · exact Or.inr ⟨htask, hr⟩

theorem inTask_iNesting (h : s.inTask = true) : s.iNesting = 0 := by
  simp only [inTask, Bool.and_eq_true, beq_iff_eq] at h
  exact h.1.1.2

theorem inTask_currentTask (h : s.inTask = true) : s.currentTask ≠ 0 := by
  simp only [inTask, Bool.and_eq_true, bne_iff_ne] at h
  exact h.1.1.1

theorem inTask_frame (h : s.inTask = true) : s.frame s.currentTask = .user := by
  simp only [inTask, Bool.and_eq_true, beq_iff_eq] at h
  exact h.1.2

theorem inTask_not_idle (h : s.inTask = true) : s.priorityVector 0 ≠ s.currentTask := by
  simp only [inTask, Bool.and_eq_true, bne_iff_ne] at h
  exact h.2

theorem inMain_currentTask (h : s.inMain = true) : s.currentTask = 0 := by
  simp only [inMain, Bool.and_eq_true, beq_iff_eq] at h
  exact h.1

/-- A pend that may wait at all waits for at most one counter period. -/
theorem TimeOk.le {timeWait : Nat} (h : TimeOk cfg timeWait) (hn : timeWait ≠ cfg.noTimeout) :
    timeWait ≤ cfg.tickCountOverflow := h.resolve_right hn

theorem checkInstall_isError {isIdle : Bool} {p : Nat} {err : RetCode}
    (h : s.checkInstall isIdle p = some err) : err.isError = true := by
  unfold checkInstall at h
  repeat' split at h
  all_goals cases h
  all_goals rfl

/-- An install either fails, with at most the heap changed, or fills a free slot. -/
theorem osInstallTask_inv {isIdle : Bool} {bytes p : Nat} {r : Ret}
    (h : s.osInstallTask isIdle bytes p = (t, r)) :
    (r.code.isError = true ∧ ∃ heap, t = { s with heap := heap }) ∨
      ∃ i stackInit stackSize a b heap,
        s.checkInstall isIdle p = none ∧ s.freeTcb = some i ∧ s.StackFits bytes ∧
        r = ⟨.ok, .handle (i + 1)⟩ ∧
        t = { s.fillTcb i p stackInit stackSize with
          heap := heap, iStackAddress := a, stackAddress := b } := by
  unfold osInstallTask at h
  split at h
  · -- the stack comes from the allocator
    rename_i hdyn
    unfold osInstallTaskDynamic at h
    simp only at h
    split at h
    · cases h
      exact Or.inl ⟨rfl, s.heap, rfl⟩
    rename_i hmin
    cases hc : s.checkInstall isIdle p with
    | some err =>
        rw [hc] at h
        cases h
        exact Or.inl ⟨checkInstall_isError hc, s.heap, rfl⟩
    | none =>
        rw [hc] at h
        simp only at h
        split at h
        · cases h
          exact Or.inl ⟨rfl, _, rfl⟩
        · rename_i hal
          have hfit : s.StackFits bytes := by
            refine ⟨not_lt.mp hmin, ?_⟩
            rw [if_pos hdyn, hal]
            simp
          cases hi : s.freeTcb with
          | none =>
              rw [hi] at h
              cases h
              exact Or.inl ⟨rfl, _, rfl⟩
          | some i =>
              rw [hi] at h
              cases h
              exact Or.inr ⟨i, _, _, s.iStackAddress, s.stackAddress, _, rfl, rfl, hfit, rfl, rfl⟩
  · -- the stack is the next part of `STACK`
    rename_i hdyn
    unfold osInstallTaskStatic at h
    simp only at h
    split at h
    · cases h
      exact Or.inl ⟨rfl, s.heap, rfl⟩
    rename_i hmin
    split at h
    · cases h
      exact Or.inl ⟨rfl, s.heap, rfl⟩
    rename_i hroom
    have hfit : s.StackFits bytes := by
      refine ⟨not_lt.mp hmin, ?_⟩
      rw [if_neg hdyn]
      exact not_lt.mp hroom
    cases hc : s.checkInstall isIdle p with
    | some err =>
        rw [hc] at h
        cases h
        exact Or.inl ⟨checkInstall_isError hc, s.heap, rfl⟩
    | none =>
        rw [hc] at h
        simp only at h
        cases hi : s.freeTcb with
        | none =>
            rw [hi] at h
            cases h
            exact Or.inl ⟨rfl, s.heap, rfl⟩
        | some i =>
            rw [hi] at h
            cases h
            exact Or.inr ⟨i, _, _, _, _, s.heap, rfl, rfl, hfit, rfl, rfl⟩

/-- The priority tests passed by a task that is not `Idle`. -/
theorem checkInstall_none {p : Nat} (h : s.checkInstall false p = none) :
    0 < p ∧ p ≤ cfg.configMaxTaskPriority ∧ s.priorityVector p = emptyPrio := by
  simp only [checkInstall] at h
  split at h
  · split at h
    · cases h
    · split at h
      · cases h
      · exact ⟨by omega, by omega, by simp_all⟩
  · simp at h

theorem installTask_effect {isIdle : Bool} {bytes p : Nat} (hwho : s.inMain ∨ s.inTask)
    (hd : isIdle = false) (h : s.exec (.installTask isIdle bytes p) = some (t, oc)) :
    Effect rule s (.installTask isIdle bytes p) t oc := by
  subst hd
  simp only [exec, Option.some.injEq, Prod.mk.injEq] at h
  obtain ⟨rfl, rfl⟩ := h
  rcases osInstallTask_inv (Prod.mk.eta (p := s.osInstallTask false bytes p)).symm with
    ⟨hr, heap, ht⟩ | ⟨i, si, sz, a, b, heap, hc, hi, hfit, hr, ht⟩
  · rw [ht]
    exact .installFailed hr
  · obtain ⟨hp, hle, hpv⟩ := checkInstall_none hc
    rw [ht, hr]
    exact .installed hwho hp hle hpv hi hfit

theorem uninstallTask_effect {h : Nat} {off : Bool} {taskTimer : Option Nat} (hwho : s.inMain ∨ s.inTask)
    (hlt : ∀ h, s.Installed h → s.prio h < cfg.prioBits)
    (hd : s.UninstallOk (if h = 0 then s.currentTask else h) off taskTimer)
    (hex : s.exec (.uninstallTask h off taskTimer) = some (t, oc)) :
    Effect rule s (.uninstallTask h off taskTimer) t oc := by
  simp only [exec, osUninstallTask] at hex
  generalize htask : (if h = 0 then s.currentTask else h) = task at hd hex
  obtain ⟨hinst, hd⟩ := hd
  split at hex
  · cases hex
    exact .refused rfl
  split at hex
  · cases hex
    exact .refused rfl
  rename_i hp
  have hmask : s.osReadyList &&& priorityMask cfg (s.prio task) = priorityMask cfg (s.prio task) ↔
      s.prio task ∈ s.ready := and_mask_eq_mask (hlt task hinst)
  simp only [ne_eq, hmask] at hex
  split at hex
  · rename_i hnr
    split at hex
    · rename_i hoff
      obtain ⟨v, hv, he⟩ := Option.map_eq_some_iff.mp hex
      cases he
      subst hoff
      obtain ⟨hframe, hown, hok⟩ := hd.resolve_left (by simp)
      obtain ⟨found, hf, rfl⟩ := searchAndRemove_inv hv
      rw [hok hnr] at hf
      cases found with
      | true => exact @Effect.uninstalledDelayed _ _ _ _ _ _ true htask.symm hwho hinst hp hframe hown hnr hf
      | false => exact @Effect.uninstalledDelayed _ _ _ _ _ _ false htask.symm hwho hinst hp hframe hown hnr hf
    · cases hex
      exact .refused rfl
  · rename_i hr
    rw [not_not] at hr
    obtain ⟨hframe, hown, -⟩ := hd.resolve_left (fun hn => hn.1 hr)
    cases hex
    exact .uninstalled htask.symm hwho hinst hp hframe hown hr

theorem delayTask_effect {timeWait : Nat} (ha : (Call.delayTask timeWait).allowed s = true)
    (hex : s.exec (.delayTask timeWait) = some (t, oc)) :
    Effect rule s (.delayTask timeWait) t oc := by
  simp only [exec, Option.some.injEq, osDelayTask] at hex
  split at hex
  · cases hex
    exact .refused rfl
  rename_i hnest
  split at hex
  · cases hex
    exact .refused rfl
  rename_i hcur
  split at hex
  · cases hex
    exact .refused rfl
  rename_i htw
  cases hex
  refine .delayed ?_ htw
  simp only [Call.allowed, inMain, inInterrupt, Bool.or_eq_true, Bool.and_eq_true, beq_iff_eq,
    decide_eq_true_eq] at ha
  rcases ha with (ha | ha) | ha
  · exact absurd ha.1 hcur
  · exact ha
  · exact absurd ha hnest

/-- The range loops write `OSBlockedList` only. -/
theorem foldl_blocked {f : Kernel cfg → Nat → Kernel cfg}
    (hf : ∀ s h, ∃ b, f s h = { s with osBlockedList := b }) :
    ∀ (hs : List Nat) (s : Kernel cfg), ∃ b, hs.foldl f s = { s with osBlockedList := b }
  | [], s => ⟨s.osBlockedList, rfl⟩
  | h :: hs, s => by
      obtain ⟨b, hb⟩ := hf s h
      obtain ⟨b', hb'⟩ := foldl_blocked hf hs (f s h)
      refine ⟨b', ?_⟩
      rw [List.foldl_cons, hb', hb]

/-- A call that is neither refused nor made by an interrupt or by `main`. -/
theorem allowed_inTask {c : Call} (ha : c.allowed s = true) (hcur : s.currentTask ≠ 0)
    (hnest : s.iNesting = 0) : s.inTask = true := by
  have hmain : s.inMain = false := by simp [inMain, hcur]
  have hint : s.inInterrupt = false := by simp [inInterrupt, hnest]
  cases c <;> simp_all [Call.allowed]

theorem blockOutcome_cases {c : Call} {task : Nat} (ha : c.allowed s = true)
    (hnest : s.iNesting = 0) (htask : task ≠ 0) :
    s.blockOutcome task = .returned RetCode.ok.ret ∨
      (s.blockOutcome task = .switched RetCode.ok.ret ∧ s.inTask = true) := by
  unfold blockOutcome
  split
  · rename_i heq
    exact Or.inr ⟨rfl, allowed_inTask ha (heq ▸ htask) hnest⟩
  · exact Or.inl rfl

theorem unBlockOutcome_cases {c : Call} (ha : c.allowed s = true) :
    s.unBlockOutcome = .returned RetCode.ok.ret ∨
      (s.unBlockOutcome = .switched RetCode.ok.ret ∧ s.inTask = true) := by
  unfold unBlockOutcome
  split
  · rename_i h
    exact Or.inr ⟨rfl, allowed_inTask ha h.1 h.2⟩
  · exact Or.inl rfl

theorem block_effect {c : Call} (hc : c.isBlock = true) (ha : c.allowed s = true)
    (hpv : ∀ p ≤ cfg.configMaxTaskPriority, s.priorityVector p ≠ 0)
    (hd : c.Disciplined rule s) (hex : s.exec c = some (t, oc)) :
    Effect rule s c t oc := by
  have hex' := hex
  cases c with
  | blockPriority p =>
      simp only [exec, osBlockPriority, Option.some.injEq] at hex
      split at hex
      · cases hex
        exact .refused rfl
      · cases hex
        exact .blocked hc hd hex' (blockOutcome_cases ha (by omega) (hpv p hd))
  | unBlockPriority p =>
      cases hex
      exact .blocked hc hd hex' (unBlockOutcome_cases ha)
  | blockTask h =>
      simp only [exec, osBlockTask, Option.some.injEq] at hex
      split at hex
      · cases hex
        exact .refused rfl
      · generalize htask : (if h = 0 then s.currentTask else h) = task at hex
        split at hex
        · cases hex
          exact .refused rfl
        · cases hex
          exact .blocked hc hd hex' (blockOutcome_cases ha (by omega) (by assumption))
  | unBlockTask h =>
      cases hex
      exact .blocked hc hd hex' (unBlockOutcome_cases ha)
  | blockMultipleTask a n =>
      simp only [exec, osBlockMultipleTask, Option.some.injEq] at hex
      split at hex
      · cases hex
        exact .refused rfl
      · cases hex
        obtain ⟨b, hb⟩ := foldl_blocked (f := fun s iTask =>
          if iTask ≠ s.currentTask then s.block (s.prio iTask) else s)
          (fun s h => by
            split
            · exact ⟨_, rfl⟩
            · exact ⟨s.osBlockedList, rfl⟩) (taskRange a n) s
        rw [hb] at hex' ⊢
        exact .blocked hc hd hex' (Or.inl rfl)
  | unBlockMultipleTask a n =>
      simp only [exec, osUnBlockMultipleTask, Option.some.injEq] at hex
      split at hex
      · cases hex
        exact .refused rfl
      · cases hex
        obtain ⟨b, hb⟩ := foldl_blocked (f := fun s iTask =>
          if iTask ≠ s.currentTask then s.unBlock (s.prio iTask) else s)
          (fun s h => by
            split
            · exact ⟨_, rfl⟩
            · exact ⟨s.osBlockedList, rfl⟩) (taskRange a n) s
        rw [hb] at hex' ⊢
        exact .blocked hc hd hex' (unBlockOutcome_cases ha)
  | _ => simp [Call.isBlock] at hc

/-! ### Semaphores and mailboxes -/

theorem createSem_effect {c : Call} {count : Nat} {binary : Bool}
    (hc : (∃ cnt : UInt8, c = .semCreate cnt ∧ count = cnt.toNat ∧ binary = false) ∨
      (∃ bit : UInt8, c = .semBinaryCreate bit ∧ count ≤ 1 ∧ binary = true))
    (h : s.createSem count binary = (t, oc)) : Effect rule s c t oc := by
  unfold createSem at h
  split at h
  · cases h
    exact .refused rfl
  · cases hf : s.freeEvent .sem cfg.brtosMaxSem with
    | none =>
        rw [hf] at h
        cases h
        exact .refused rfl
    | some e =>
        rw [hf] at h
        cases h
        exact .semCreated hc hf

theorem semDelete_effect {e : Option Nat} (hd : s.DeleteOk .sem e)
    (hex : s.exec (.semDelete e) = some (t, oc)) : Effect rule s (.semDelete e) t oc := by
  simp only [exec, osSemDelete] at hex
  split at hex
  · cases hex
    exact .refused rfl
  · cases e with
    | none => cases hex
    | some e =>
        cases hex
        exact .semDeleted hd

theorem semPend_effect {e : Option Nat} {timeWait : Nat}
    (ha : (Call.semPend e timeWait).allowed s = true) (hd : s.EventOk .sem e)
    (htw : TimeOk cfg timeWait) (hex : s.exec (.semPend e timeWait) = some (t, oc)) :
    Effect rule s (.semPend e timeWait) t oc := by
  rcases checkPend_inv ha hd hex with ⟨r, hr, rfl, rfl⟩ | ⟨htask, e, rfl, hev, hb⟩
  · exact .refused hr
  simp only [semPend] at hb
  split at hb
  · cases hb
    exact .semTaken htask hev (by assumption)
  · rename_i hcount
    split at hb
    · cases hb
      exact .refused rfl
    · cases hb
      exact @Effect.waited _ _ _ (.sem e) _ htask hev (htw.le (by assumption)) (Nat.eq_zero_of_not_pos hcount)

theorem semPost_effect {e : Option Nat} (hd : s.EventOk .sem e)
    (hex : s.exec (.semPost e) = some (t, oc)) : Effect rule s (.semPost e) t oc := by
  rcases checkEvent_inv hd hex with ⟨r, hr, rfl, rfl⟩ | ⟨e, rfl, hev, hb⟩
  · exact .refused hr
  simp only [semPost] at hb
  split at hb
  · cases hb
    exact .semSelected hev (by assumption)
  · rename_i hw
    split at hb
    · cases hb
      exact .semGiven hev (not_not.mp hw) (by assumption)
    · cases hb
      exact .refused rfl

theorem mboxCreate_effect {message : Nat} (hex : s.exec (.mboxCreate message) = some (t, oc)) :
    Effect rule s (.mboxCreate message) t oc := by
  simp only [exec, osMboxCreate, Option.some.injEq] at hex
  split at hex
  · cases hex
    exact .refused rfl
  · cases hf : s.freeEvent .mbox cfg.brtosMaxMbox with
    | none =>
        rw [hf] at hex
        cases hex
        exact .refused rfl
    | some e =>
        rw [hf] at hex
        cases hex
        exact .mboxCreated hf

theorem mboxDelete_effect {e : Option Nat} (hd : s.DeleteOk .mbox e)
    (hex : s.exec (.mboxDelete e) = some (t, oc)) : Effect rule s (.mboxDelete e) t oc := by
  simp only [exec, osMboxDelete] at hex
  split at hex
  · cases hex
    exact .refused rfl
  · cases e with
    | none => cases hex
    | some e =>
        cases hex
        exact .mboxDeleted hd

theorem mboxPend_effect {e : Option Nat} {timeWait : Nat}
    (ha : (Call.mboxPend e timeWait).allowed s = true) (hd : s.EventOk .mbox e)
    (htw : TimeOk cfg timeWait) (hex : s.exec (.mboxPend e timeWait) = some (t, oc)) :
    Effect rule s (.mboxPend e timeWait) t oc := by
  rcases checkPend_inv ha hd hex with ⟨r, hr, rfl, rfl⟩ | ⟨htask, e, rfl, hev, hb⟩
  · exact .refused hr
  simp only [mboxPend] at hb
  split at hb
  · cases hb
    exact .mboxTaken htask hev (by assumption)
  · rename_i hst
    split at hb
    · cases hb
      exact .refused rfl
    · cases hb
      exact @Effect.waited _ _ _ (.mbox e) _ htask hev (htw.le (by assumption)) hst

theorem mboxPost_effect {e : Option Nat} {message : Nat} (hd : s.EventOk .mbox e)
    (hex : s.exec (.mboxPost e message) = some (t, oc)) :
    Effect rule s (.mboxPost e message) t oc := by
  rcases checkEvent_inv hd hex with ⟨r, hr, rfl, rfl⟩ | ⟨e, rfl, hev, hb⟩
  · exact .refused hr
  simp only [mboxPost] at hb
  split at hb
  · cases hb
    exact .mboxSelected hev (by assumption)
  · rename_i hw
    cases hb
    exact .mboxStored hev (not_not.mp hw)

/-! ### Queues -/

/-- The rounding of `OSQueueCreate` yields whole words. -/
theorem roundUp_mod (cfg : Config) (size : Nat) :
    (if size % cfg.sizeofCpuType ≠ 0 then
        (size + (cfg.sizeofCpuType - size % cfg.sizeofCpuType)) % 65536
      else size) % cfg.sizeofCpuType = 0 := by
  rcases cfg.sizeofCpuType_mem with h | h | h <;> rw [h] <;> split <;> omega

theorem queueCreate_effect {size : UInt16} (hex : s.exec (.queueCreate size) = some (t, oc)) :
    Effect rule s (.queueCreate size) t oc := by
  simp only [exec, osQueueCreate, Option.some.injEq] at hex
  split at hex
  · cases hex
    exact .refused rfl
  have hround := roundUp_mod cfg size.toNat
  generalize (if size.toNat % cfg.sizeofCpuType ≠ 0 then
    (size.toNat + (cfg.sizeofCpuType - size.toNat % cfg.sizeofCpuType)) % 65536
    else size.toNat) = sz at hex hround
  split at hex
  · cases hex
    exact .refused rfl
  rename_i hfit
  have hlt := cfg.queueHeapSize_lt
  cases hf : s.freeEvent .queue cfg.brtosMaxQueue with
  | none =>
      rw [hf] at hex
      cases hex
      exact .refused rfl
  | some q =>
      rw [hf] at hex
      have hmod : (s.iQueueAddress + sz / cfg.sizeofCpuType) % 65536 =
          s.iQueueAddress + sz / cfg.sizeofCpuType := Nat.mod_eq_of_lt (by omega)
      simp only [allocEvent, setEvent, setQueue, hmod] at hex
      cases hex
      exact .queueCreated hf hround (by omega)

theorem queuePend_effect {q : Option Nat} {timeWait : Nat}
    (ha : (Call.queuePend q timeWait).allowed s = true) (hd : s.EventOk .queue q)
    (htw : TimeOk cfg timeWait) (hex : s.exec (.queuePend q timeWait) = some (t, oc)) :
    Effect rule s (.queuePend q timeWait) t oc := by
  cases q with
  | none => cases hex
  | some q =>
      rcases checkPend_inv ha hd hex with ⟨r, hr, rfl, rfl⟩ | ⟨htask, q', hq, hev, hb⟩
      · exact .refused hr
      cases hq
      simp only [queuePend] at hb
      split at hb
      · cases hb
        exact .queueRead (Or.inr ⟨_, rfl⟩) hev (by assumption)
      · rename_i hcount
        split at hb
        · cases hb
          exact .refused rfl
        · cases hb
          exact @Effect.waited _ _ _ (.queue q) _ htask hev (htw.le (by assumption))
            (Nat.eq_zero_of_not_pos hcount)

theorem queuePost_effect {q : Option Nat} {data : UInt8} (hd : s.EventOk .queue q)
    (hex : s.exec (.queuePost q data) = some (t, oc)) :
    Effect rule s (.queuePost q data) t oc := by
  cases q with
  | none => cases hex
  | some q =>
      rcases checkEvent_inv hd hex with ⟨r, hr, rfl, rfl⟩ | ⟨q', hq, hev, hb⟩
      · exact .refused hr
      cases hq
      simp only [queuePost] at hb
      split at hb
      · rename_i hspace
        split at hb
        · cases hb
          exact .queueSelected hev hspace (by assumption)
        · rename_i hw
          cases hb
          exact .queueWritten (Or.inr ⟨rfl, not_not.mp hw⟩) hev hspace
      · cases hb
        exact .refused rfl

theorem rQueue_effect {q : Nat} (hd : s.Allocated (.queue q))
    (hex : s.exec (.rQueue q) = some (t, oc)) : Effect rule s (.rQueue q) t oc := by
  simp only [exec, osRQueue, Option.some.injEq] at hex
  split at hex
  · cases hex
    exact .queueRead (Or.inl rfl) hd (by assumption)
  · cases hex
    exact .refused rfl

theorem wQueue_effect {q : Nat} {data : UInt8} (hd : s.Allocated (.queue q))
    (hex : s.exec (.wQueue q data) = some (t, oc)) : Effect rule s (.wQueue q data) t oc := by
  simp only [exec, osWQueue, Option.some.injEq] at hex
  split at hex
  · cases hex
    exact .queueWritten (Or.inl rfl) hd (by assumption)
  · cases hex
    exact .refused rfl

/-! ### Mutexes -/

theorem mutexCreate_effect {p : Nat} (hd : p ≤ cfg.configMaxTaskPriority)
    (hex : s.exec (.mutexCreate p) = some (t, oc)) : Effect rule s (.mutexCreate p) t oc := by
  simp only [exec, osMutexCreate, Option.some.injEq] at hex
  split at hex
  · cases hex
    exact .refused rfl
  split at hex
  · cases hex
    exact .refused rfl
  rename_i hpv
  have hpv : 0 < p → s.priorityVector p = emptyPrio := fun h => by
    by_contra hne
    exact hpv ⟨h, hne⟩
  have hfe : (if 0 < p then s.setPriorityVector p mutexPrio else s).freeEvent .mutex
      cfg.brtosMaxMutex = s.freeEvent .mutex cfg.brtosMaxMutex := by
    split <;> rfl
  rw [hfe] at hex
  cases hf : s.freeEvent .mutex cfg.brtosMaxMutex with
  | none =>
      rw [hf] at hex
      by_cases hp : 0 < p
      · simp only [if_pos hp] at hex
        cases hex
        exact .mutexReserved hp hd (hpv hp)
      · simp only [if_neg hp] at hex
        cases hex
        exact .refused rfl
  | some m =>
      rw [hf] at hex
      cases hex
      exact .mutexCreated hd hpv hf

theorem mutexDelete_effect {m : Option Nat} (hfree : s.MutexFree m)
    (hex : s.exec (.mutexDelete m) = some (t, oc)) : Effect rule s (.mutexDelete m) t oc := by
  simp only [exec, osMutexDelete] at hex
  split at hex
  · cases hex
    exact .refused rfl
  · cases m with
    | none => cases hex
    | some m =>
        cases hex
        exact .mutexDeleted hfree

theorem mutexAcquire_effect {m : Option Nat} {timeWait : Nat}
    (ha : (Call.mutexAcquire m timeWait).allowed s = true) (hd : s.EventOk .mutex m)
    (htw : TimeOk cfg timeWait) (hex : s.exec (.mutexAcquire m timeWait) = some (t, oc)) :
    Effect rule s (.mutexAcquire m timeWait) t oc := by
  rcases checkPend_inv ha hd hex with ⟨r, hr, rfl, rfl⟩ | ⟨htask, m, rfl, hev, hb⟩
  · exact .refused hr
  simp only [mutexAcquire] at hb
  split at hb
  · rename_i hown
    cases hb
    exact .reacquired htask hev hown.symm
  rename_i hown
  split at hb
  · cases hb
    exact .acquired htask hev (Ne.symm hown) (by assumption)
  rename_i hst
  split at hb
  · cases hb
    exact .refused rfl
  · cases hb
    exact @Effect.waited _ _ _ (.mutex m) _ htask hev (htw.le (by assumption)) ⟨hown, hst⟩

theorem mutexRelease_effect {m : Option Nat} (ha : (Call.mutexRelease m).allowed s = true)
    (hd : s.EventOk .mutex m) (hrule : s.ReleaseObeys rule m)
    (hex : s.exec (.mutexRelease m) = some (t, oc)) :
    Effect rule s (.mutexRelease m) t oc := by
  rcases checkPend_inv ha hd hex with ⟨r, hr, rfl, rfl⟩ | ⟨htask, m, rfl, hev, hb⟩
  · exact .refused hr
  simp only [mutexRelease] at hb
  split at hb
  · cases hb
    exact .refused rfl
  rename_i hown
  have hown := not_not.mp hown
  have hwait : ((((s.restorePriority m).setMutex m fun c =>
      { c with osEventOwner := 0 }).noteReleased m).event (.mutex m)).osEventWait =
      (s.event (.mutex m)).osEventWait := by
    obtain ⟨ready, ctx, hr⟩ := restorePriority_eq s m
    rw [hr]
    rfl
  rw [hwait] at hb
  split at hb
  · cases hb
    exact .handedOff htask hev hown (hrule hown) (by assumption)
  · rename_i hw
    cases hb
    exact .released htask hev hown (hrule hown) (not_not.mp hw)

/-- **Inversion of a call.** The critical section of a disciplined call ends in one
of the ways `Effect` lists. -/
theorem exec_effect {c : Call} (ha : c.allowed s = true) (hd : c.Disciplined rule s)
    (hlt : ∀ h, s.Installed h → s.prio h < cfg.prioBits)
    (hpv : ∀ p ≤ cfg.configMaxTaskPriority, s.priorityVector p ≠ 0)
    (hex : s.exec c = some (t, oc)) : Effect rule s c t oc := by
  cases c with
  | installTask isIdle bytes p =>
      exact installTask_effect (by simpa [Call.allowed] using ha) hd hex
  | uninstallTask h off taskTimer =>
      have hwho : s.inMain = true ∨ s.inTask = true := by
        simp only [Call.allowed, Bool.and_eq_true, Bool.or_eq_true] at ha
        exact ha.2
      exact uninstallTask_effect hwho hlt hd hex
  | delayTask timeWait => exact delayTask_effect ha hex
  | blockPriority p => exact block_effect rfl ha hpv hd hex
  | unBlockPriority p => exact block_effect rfl ha hpv hd hex
  | blockTask h => exact block_effect rfl ha hpv hd hex
  | unBlockTask h => exact block_effect rfl ha hpv hd hex
  | blockMultipleTask a n => exact block_effect rfl ha hpv hd hex
  | unBlockMultipleTask a n => exact block_effect rfl ha hpv hd hex
  | semCreate cnt =>
      exact createSem_effect (Or.inl ⟨cnt, rfl, rfl, rfl⟩) (Option.some.inj hex)
  | semBinaryCreate bit =>
      refine createSem_effect (Or.inr ⟨bit, rfl, ?_, rfl⟩) (Option.some.inj hex)
      split <;> omega
  | semDelete e => exact semDelete_effect hd hex
  | semPend e timeWait => exact semPend_effect ha hd.1 hd.2 hex
  | semPost e => exact semPost_effect hd hex
  | mboxCreate message => exact mboxCreate_effect hex
  | mboxDelete e => exact mboxDelete_effect hd hex
  | mboxPend e timeWait => exact mboxPend_effect ha hd.1 hd.2 hex
  | mboxPost e message => exact mboxPost_effect hd hex
  | queueCreate size => exact queueCreate_effect hex
  | queuePend q timeWait => exact queuePend_effect ha hd.1 hd.2 hex
  | queuePost q data => exact queuePost_effect hd hex
  | rQueue q => exact rQueue_effect hd hex
  | wQueue q data => exact wQueue_effect hd hex
  | queueClean q =>
      cases hex
      exact .queueCleaned hd
  | mutexCreate p => exact mutexCreate_effect hd hex
  | mutexDelete m => exact mutexDelete_effect hd hex
  | mutexAcquire m timeWait => exact mutexAcquire_effect ha hd.1 hd.2 hex
  | mutexRelease m => exact mutexRelease_effect ha hd.1 hd.2 hex

end Inversion

/-! ### Inversion of a step -/

theorem pendResume_of_timedOut {s : Kernel cfg} {ev : Event} {p timeWait : Nat}
    (h : s.TimedOut ev p timeWait) :
    s.pendResume ev p timeWait = (s.leaveWaitList ev p, ev.timeoutRet) := by
  obtain ⟨htw, httw, hw⟩ := h
  have hwake : s.wakeUp ev p timeWait = (s.leaveWaitList ev p, true) := by
    have hbit := and_mask_ne_zero.mpr hw
    simp only [wakeUp, if_pos htw, if_pos httw]
    exact if_pos hbit
  cases ev <;> simp only [pendResume, osSemPendResume, osMboxPendResume, osQueuePendResume,
    osMutexAcquireResume, hwake, Event.timeoutRet]

theorem pendResume_of_not_timedOut {s : Kernel cfg} {ev : Event} {p timeWait : Nat}
    (h : ¬ s.TimedOut ev p timeWait) :
    s.pendResume ev p timeWait = (s.cancelTimeout timeWait).finishPend ev p := by
  have hwake : s.wakeUp ev p timeWait = (s.cancelTimeout timeWait, false) := by
    unfold wakeUp cancelTimeout
    by_cases htw : timeWait ≠ 0
    · by_cases httw : (s.contextTask s.currentTask).timeToWait = cfg.exitByTimeout
      · have hbit : ¬ (s.event ev).osEventWaitList &&& priorityMask cfg p ≠ 0 := fun hb =>
          h ⟨htw, httw, and_mask_ne_zero.mp hb⟩
        rw [if_pos htw, if_pos httw, if_neg hbit, if_neg (fun hc => hc.2 httw)]
      · rw [if_pos htw, if_neg httw, if_pos ⟨htw, httw⟩]
    · rw [if_neg htw, if_neg (fun hc => htw hc.1)]
  cases ev <;> simp only [pendResume, osSemPendResume, osMboxPendResume, osQueuePendResume,
    osMutexAcquireResume, hwake, finishPend]

theorem changeContext_inv {u t : Kernel cfg} (h : u.changeContext = some t) :
    ∃ task, u.osSchedule = some task ∧ t = { u with currentTask := task } := by
  obtain ⟨task, hs, ht⟩ := Option.map_eq_some_iff.mp h
  exact ⟨task, hs, ht.symm⟩

/-- A call is its critical section and then, if it asks for one, the context switch. -/
theorem step_call_inv {s t : Kernel cfg} {c : Call} {o : Obs}
    (h : s.step (.call c) = some (t, o)) :
    c.allowed s = true ∧ ∃ u oc, s.exec c = some (u, oc) ∧
      ((∃ r, oc = .returned r ∧ t = u ∧ o = .returned s.caller c r) ∨
        ∃ task, u.osSchedule = some task ∧ t = { u with currentTask := task } ∧
          ((∃ r, oc = .switched r ∧ o = .returned s.caller c r) ∨
            (oc = .suspended ∧ o = .suspended s.caller c))) := by
  simp only [step, stepCall] at h
  split at h
  · rename_i ha
    refine ⟨ha, ?_⟩
    cases hex : s.exec c with
    | none => simp [hex] at h
    | some q =>
        obtain ⟨u, oc⟩ := q
        refine ⟨u, oc, rfl, ?_⟩
        rw [hex] at h
        cases oc with
        | returned r =>
            cases h
            exact Or.inl ⟨r, rfl, rfl, rfl⟩
        | switched r =>
            obtain ⟨v, hv, hto⟩ := Option.map_eq_some_iff.mp h
            obtain ⟨task, hs, rfl⟩ := changeContext_inv hv
            cases hto
            exact Or.inr ⟨task, hs, rfl, Or.inl ⟨r, rfl, rfl⟩⟩
        | suspended =>
            obtain ⟨v, hv, hto⟩ := Option.map_eq_some_iff.mp h
            obtain ⟨task, hs, rfl⟩ := changeContext_inv hv
            cases hto
            exact Or.inr ⟨task, hs, rfl, Or.inr ⟨rfl, rfl⟩⟩
  · cases h

/-- How a call ends for its caller. -/
theorem step_call_shows {s t u : Kernel cfg} {c : Call} {oc : Outcome} {o : Obs}
    (hstep : s.step (.call c) = some (t, o)) (hex : s.exec c = some (u, oc)) :
    (∃ task, t = { u with currentTask := task }) ∧
      ((∃ r, (oc = .returned r ∨ oc = .switched r) ∧ o = .returned s.caller c r) ∨
        oc = .suspended ∧ o = .suspended s.caller c) := by
  obtain ⟨-, u', oc', hex', ho⟩ := step_call_inv hstep
  rw [hex] at hex'
  cases hex'
  rcases ho with ⟨r, hr, rfl, h⟩ | ⟨task, -, rfl, ⟨r, hr, h⟩ | h⟩
  · exact ⟨⟨_, rfl⟩, .inl ⟨r, .inl hr, h⟩⟩
  · exact ⟨⟨task, rfl⟩, .inl ⟨r, .inr hr, h⟩⟩
  · exact ⟨⟨task, rfl⟩, .inr h⟩

/-- **Inversion of a step.** -/
theorem step_move {rule : Kernel cfg → Nat → Prop} {s t : Kernel cfg} {a : Action} {o : Obs}
    (hd : Disciplined rule s a) (hlt : ∀ h, s.Installed h → s.prio h < cfg.prioBits)
    (hpv : ∀ p ≤ cfg.configMaxTaskPriority, s.priorityVector p ≠ 0)
    (h : s.step a = some (t, o)) : Move rule s a t o := by
  cases a with
  | call c =>
      obtain ⟨ha, u, oc, hex, h⟩ := step_call_inv h
      have he := exec_effect ha hd hlt hpv hex
      rcases h with ⟨r, rfl, rfl, rfl⟩ | ⟨task, hs, rfl, ⟨r, rfl, rfl⟩ | ⟨rfl, rfl⟩⟩
      · exact .returned ha he
      · exact .switched ha he hs
      · exact .suspended ha he hs
  | brtosStart =>
      simp only [step, Kernel.brtosStart] at h
      split at h
      · rename_i hmain
        rcases hi : s.osInstallTask true cfg.idleStackSize 0 with ⟨u, r⟩
        rw [hi] at h
        rcases osInstallTask_inv hi with ⟨hr, heap, rfl⟩ | ⟨i, si, sz, a, b, heap, hc, hf, -, rfl, rfl⟩
        · -- the idle task is not installed, and `BRTOSStart` returns
          split at h
          · rename_i heq
            cases heq
            exact absurd hr Bool.false_ne_true
          · rename_i heq
            cases heq
            cases h
            exact .startFailed hmain
        · obtain ⟨v, hv, hto⟩ := Option.map_eq_some_iff.mp h
          obtain ⟨task, hs, rfl⟩ := changeContext_inv hv
          cases hto
          exact .started hmain hf rfl hs
      · cases h
  | resume =>
      simp only [step, stepResume] at h
      split at h
      · rename_i hwho
        obtain ⟨hcur, hnest⟩ := hwho
        cases hf : s.frame s.currentTask with
        | user => simp [hf] at h
        | delay timeWait =>
            rw [hf] at h
            cases h
            exact .delayEnded hcur hnest hf
        | pend ev p timeWait =>
            simp only [hf] at h
            by_cases ht : s.TimedOut ev p timeWait
            · rw [pendResume_of_timedOut ht] at h
              cases h
              exact .timedOut hcur hnest hf ht
            · rw [pendResume_of_not_timedOut ht] at h
              cases h
              exact .woken hcur hnest hf ht
      · cases h
  | intEnter =>
      simp only [step] at h
      split at h
      · cases h
        exact .intEnter (by assumption)
      · cases h
  | tick =>
      simp only [step] at h
      split at h
      · rename_i hin
        obtain ⟨u, hu, hto⟩ := Option.map_eq_some_iff.mp h
        cases hto
        exact .tick (by simpa [inInterrupt] using hin) hu
      · cases h
  | intExit =>
      simp only [step, osIntExit] at h
      split at h
      · rename_i hin
        have hpos : 0 < s.iNesting := by simpa [inInterrupt] using hin
        split at h
        · -- the outermost interrupt ends, and the scheduler is asked
          rename_i hone
          have hone : s.iNesting = 1 := by
            have hz : s.iNesting - 1 = 0 := hone
            omega
          obtain ⟨u, hu, hto⟩ := Option.map_eq_some_iff.mp h
          obtain ⟨task, hs, rfl⟩ := changeContext_inv hu
          cases hto
          simp only [hone] at hs ⊢
          exact .intExit hone hs
        · rename_i hmore
          have hmore : ¬ s.iNesting - 1 = 0 := hmore
          cases h
          exact .intExitInner (by omega)
      · cases h

end Brtos
