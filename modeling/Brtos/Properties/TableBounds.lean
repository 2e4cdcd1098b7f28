import Brtos.Invariant.Frames
import Brtos.Lib.Logged

/-!
# Brtos.Properties.TableBounds

**Which arguments index the kernel tables in bounds.** The calls that name a priority or a
task use it as an index of `PriorityVector`, `PriorityMask` or `ContextTask`. Here they
are written again with a log of these accesses; `exec_eq` says that nothing else changes.

None of them looks whether its argument is valid (`OSInstallTask` does), and a free slot
has `Priority` 0xFF, which is then an index of `PriorityMask`. So the accesses stay in
bounds, and invalid arguments are rejected, exactly when the argument is valid or the call
is turned away for another reason first (`table_accesses_iff`). In `VERBOSE` builds the
two priority calls also write `ContextTask[PriorityVector[p]]`, which has to be a task.
-/

namespace Brtos

open Bits Kernel Logged

variable {cfg : Config} {s t : Kernel cfg}

/-- An access to one of the three tables. -/
inductive TableAccess
  | priorityVector (i : Nat)
  | priorityMask (i : Nat)
  | contextTask (i : Nat)
  deriving DecidableEq, Repr

/-- The arrays have `configMAX_TASK_PRIORITY + 1` and `NUMBER_OF_TASKS + 1` entries. -/
def TableAccess.InBounds (cfg : Config) : TableAccess → Prop
  | .priorityVector i | .priorityMask i => i ≤ cfg.configMaxTaskPriority
  | .contextTask i => i ≤ cfg.numberOfTasks

instance (a : TableAccess) : Decidable (a.InBounds cfg) := by
  unfold TableAccess.InBounds
  split <;> infer_instance

/-! ### The calls with their accesses -/

namespace Indexed

/-- `PriorityVector[p]`. -/
def readVector (s : Kernel cfg) (p : Nat) : Logged TableAccess Nat :=
  note (.priorityVector p) (s.priorityVector p)

/-- `PriorityVector[p] = v`. -/
def writeVector (s : Kernel cfg) (p v : Nat) : Logged TableAccess (Kernel cfg) :=
  note (.priorityVector p) (s.setPriorityVector p v)

/-- `PriorityMask[p]`. -/
def readMask (cfg : Config) (p : Nat) : Logged TableAccess (BitVec cfg.prioBits) :=
  note (.priorityMask p) (priorityMask cfg p)

/-- `ContextTask[h].Priority`. -/
def readPriority (s : Kernel cfg) (h : Nat) : Logged TableAccess Nat :=
  note (.contextTask h) (s.prio h)

/-- `ContextTask[h].Blocked = ...`, in `VERBOSE` builds. -/
def writeBlocked (verbose : Bool) (h : Nat) : Logged TableAccess Unit :=
  if verbose then note (.contextTask h) () else pure ()

/-- `OSBlockedList = OSBlockedList & ~(PriorityMask[p])`. -/
def block (s : Kernel cfg) (p : Nat) : Logged TableAccess (Kernel cfg) := do
  let m ← readMask cfg p
  pure { s with osBlockedList := s.osBlockedList &&& ~~~ m }

/-- `OSBlockedList = OSBlockedList | (PriorityMask[p])`. -/
def unBlock (s : Kernel cfg) (p : Nat) : Logged TableAccess (Kernel cfg) := do
  let m ← readMask cfg p
  pure { s with osBlockedList := s.osBlockedList ||| m }

/-- `OSBlockPriority`. -/
def osBlockPriority (verbose : Bool) (s : Kernel cfg) (iPriority : Nat) :
    Logged TableAccess (Kernel cfg × Outcome) :=
  if 0 < s.iNesting then pure (s, .returned RetCode.irqPendErr.ret)
  else do
    let blockedTask ← readVector s iPriority
    writeBlocked verbose blockedTask
    let t ← block s iPriority
    pure (t, s.blockOutcome blockedTask)

/-- `OSUnBlockPriority`. -/
def osUnBlockPriority (verbose : Bool) (s : Kernel cfg) (iPriority : Nat) :
    Logged TableAccess (Kernel cfg × Outcome) := do
  if verbose then
    let blockedTask ← readVector s iPriority
    writeBlocked verbose blockedTask
  let t ← unBlock s iPriority
  pure (t, s.unBlockOutcome)

/-- `OSBlockTask`. -/
def osBlockTask (verbose : Bool) (s : Kernel cfg) (taskHandle : Nat) :
    Logged TableAccess (Kernel cfg × Outcome) :=
  if 0 < s.iNesting then pure (s, .returned RetCode.irqPendErr.ret)
  else
    let task := if taskHandle = 0 then s.currentTask else taskHandle
    if task = 0 then pure (s, .returned RetCode.notValidTask.ret)
    else do
      writeBlocked verbose task
      let iPriority ← readPriority s task
      let t ← block s iPriority
      pure (t, s.blockOutcome task)

/-- `OSUnBlockTask`. -/
def osUnBlockTask (verbose : Bool) (s : Kernel cfg) (taskHandle : Nat) :
    Logged TableAccess (Kernel cfg × Outcome) := do
  writeBlocked verbose taskHandle
  let iPriority ← readPriority s taskHandle
  let t ← unBlock s iPriority
  pure (t, s.unBlockOutcome)

/-- The body of the loops of the two range calls; `f` is what is done to the priority. -/
def rangeTask (verbose : Bool) (f : Kernel cfg → Nat → Logged TableAccess (Kernel cfg))
    (s : Kernel cfg) (iTask : Nat) : Logged TableAccess (Kernel cfg) :=
  if iTask ≠ s.currentTask then do
    writeBlocked verbose iTask
    let iPriority ← readPriority s iTask
    f s iPriority
  else pure s

/-- `OSBlockMultipleTask`. -/
def osBlockMultipleTask (verbose : Bool) (s : Kernel cfg) (taskStart taskNumber : Nat) :
    Logged TableAccess (Kernel cfg × Outcome) :=
  if 0 < s.iNesting then pure (s, .returned RetCode.irqPendErr.ret)
  else do
    let t ← (taskRange taskStart taskNumber).foldlM (rangeTask verbose block) s
    pure (t, .returned RetCode.ok.ret)

/-- `OSUnBlockMultipleTask`. -/
def osUnBlockMultipleTask (verbose : Bool) (s : Kernel cfg) (taskStart taskNumber : Nat) :
    Logged TableAccess (Kernel cfg × Outcome) :=
  if 0 < s.iNesting then pure (s, .returned RetCode.irqPendErr.ret)
  else do
    let t ← (taskRange taskStart taskNumber).foldlM (rangeTask verbose unBlock) s
    pure (t, s.unBlockOutcome)

/-- `OSUninstallTask`; the mask is read once for each time it occurs. -/
def osUninstallTask (s : Kernel cfg) (taskHandle : Nat) (safetyOff : Bool) (taskTimer : Option Nat) :
    Logged TableAccess (Option (Kernel cfg × Outcome)) :=
  let task := if taskHandle = 0 then s.currentTask else taskHandle
  if task = 0 then pure (some (s, .returned RetCode.notValidTask.ret))
  else do
    let iPriority ← readPriority s task
    if iPriority = 0 then pure (some (s, .returned RetCode.cannotUninstallIdleTask.ret))
    else do
      let m ← readMask cfg iPriority
      let m' ← readMask cfg iPriority
      if s.osReadyList &&& m ≠ m' then
        if safetyOff then
          match s.searchAndRemove task taskTimer with
          | none => pure none
          | some t => do
            let _ ← writeVector t iPriority emptyPrio
            pure (some (t.clearTcb task, s.uninstallOutcome task))
        else pure (some (s, .returned RetCode.taskWaitingEvent.ret))
      else do
        let _ ← readMask cfg iPriority
        let s := s.clearReady iPriority
        let _ ← writeVector s iPriority emptyPrio
        pure (some (s.clearTcb task, s.uninstallOutcome task))

/-- `OSMutexCreate`. -/
def osMutexCreate (s : Kernel cfg) (higherPriority : Nat) :
    Logged TableAccess (Kernel cfg × Outcome) :=
  if 0 < s.iNesting then pure (s, .returned RetCode.irqPendErr.ret)
  else if 0 < higherPriority then do
    let holder ← readVector s higherPriority
    if holder ≠ emptyPrio then pure (s, .returned RetCode.busyPriority.ret)
    else do
      let _ ← writeVector s higherPriority mutexPrio
      pure (s.osMutexCreate higherPriority)
  else pure (s.osMutexCreate higherPriority)

/-- The calls that name a priority or a task; the others are left as they are. -/
def exec (verbose : Bool) (s : Kernel cfg) :
    Call → Logged TableAccess (Option (Kernel cfg × Outcome))
  | .mutexCreate p => do
    let r ← osMutexCreate s p
    pure (some r)
  | .blockPriority p => do
    let r ← osBlockPriority verbose s p
    pure (some r)
  | .unBlockPriority p => do
    let r ← osUnBlockPriority verbose s p
    pure (some r)
  | .blockTask h => do
    let r ← osBlockTask verbose s h
    pure (some r)
  | .unBlockTask h => do
    let r ← osUnBlockTask verbose s h
    pure (some r)
  | .blockMultipleTask a n => do
    let r ← osBlockMultipleTask verbose s a n
    pure (some r)
  | .unBlockMultipleTask a n => do
    let r ← osUnBlockMultipleTask verbose s a n
    pure (some r)
  | .uninstallTask h off taskTimer => osUninstallTask s h off taskTimer
  | c => pure (s.exec c)

/-! ### The log changes nothing -/

@[simp] theorem value_block (s : Kernel cfg) (p : Nat) : (block s p).value = s.block p := rfl

@[simp] theorem value_unBlock (s : Kernel cfg) (p : Nat) : (unBlock s p).value = s.unBlock p := rfl

theorem value_rangeTask (verbose : Bool) {f : Kernel cfg → Nat → Logged TableAccess (Kernel cfg)}
    {g : Kernel cfg → Nat → Kernel cfg} (h : ∀ s p, (f s p).value = g s p) (s : Kernel cfg)
    (iTask : Nat) : (rangeTask verbose f s iTask).value =
      if iTask ≠ s.currentTask then g s (s.prio iTask) else s := by
  unfold rangeTask
  rw [value_ite]
  split
  · exact h s _
  · rfl

theorem osBlockPriority_eq (verbose : Bool) (s : Kernel cfg) (p : Nat) :
    (osBlockPriority verbose s p).value = s.osBlockPriority p := by
  unfold osBlockPriority Kernel.osBlockPriority
  rw [value_ite]
  rfl

theorem osUnBlockPriority_eq (verbose : Bool) (s : Kernel cfg) (p : Nat) :
    (osUnBlockPriority verbose s p).value = s.osUnBlockPriority p := by
  unfold osUnBlockPriority
  cases verbose <;> rfl

theorem osBlockTask_eq (verbose : Bool) (s : Kernel cfg) (h : Nat) :
    (osBlockTask verbose s h).value = s.osBlockTask h := by
  unfold osBlockTask Kernel.osBlockTask
  dsimp only
  rw [value_ite, value_ite]
  rfl

theorem osUnBlockTask_eq (verbose : Bool) (s : Kernel cfg) (h : Nat) :
    (osUnBlockTask verbose s h).value = s.osUnBlockTask h := rfl

theorem osBlockMultipleTask_eq (verbose : Bool) (s : Kernel cfg) (a n : Nat) :
    (osBlockMultipleTask verbose s a n).value = s.osBlockMultipleTask a n := by
  unfold osBlockMultipleTask Kernel.osBlockMultipleTask
  rw [value_ite, value_bind, value_foldlM (value_rangeTask verbose value_block)]
  rfl

theorem osUnBlockMultipleTask_eq (verbose : Bool) (s : Kernel cfg) (a n : Nat) :
    (osUnBlockMultipleTask verbose s a n).value = s.osUnBlockMultipleTask a n := by
  unfold osUnBlockMultipleTask Kernel.osUnBlockMultipleTask
  rw [value_ite, value_bind, value_foldlM (value_rangeTask verbose value_unBlock)]
  rfl

theorem osUninstallTask_eq (s : Kernel cfg) (h : Nat) (off : Bool) (taskTimer : Option Nat) :
    (osUninstallTask s h off taskTimer).value = s.osUninstallTask h off taskTimer := by
  unfold osUninstallTask Kernel.osUninstallTask
  dsimp only
  generalize (if h = 0 then s.currentTask else h) = task
  rw [value_ite]
  refine if_congr Iff.rfl rfl ?_
  rw [value_bind, value_ite]
  refine if_congr Iff.rfl rfl ?_
  rw [value_bind, value_bind, value_ite]
  refine if_congr Iff.rfl ?_ rfl
  rw [value_ite]
  refine if_congr Iff.rfl ?_ rfl
  cases s.searchAndRemove task taskTimer with
  | none => rfl
  | some u => rfl

theorem osMutexCreate_eq (s : Kernel cfg) (p : Nat) :
    (osMutexCreate s p).value = s.osMutexCreate p := by
  unfold osMutexCreate
  rw [value_ite, value_ite]
  by_cases hnest : 0 < s.iNesting
  · rw [if_pos hnest, Kernel.osMutexCreate, if_pos hnest]
    rfl
  · rw [if_neg hnest]
    by_cases hp : 0 < p
    · rw [if_pos hp, value_bind, value_ite]
      by_cases hbusy : s.priorityVector p ≠ emptyPrio
      · have hread : (readVector s p).value ≠ emptyPrio := hbusy
        rw [if_pos hread, Kernel.osMutexCreate, if_neg hnest, if_pos ⟨hp, hbusy⟩]
        rfl
      · exact if_neg hbusy
    · rw [if_neg hp]
      rfl

/-- **The log changes nothing.** -/
theorem exec_eq (verbose : Bool) (s : Kernel cfg) (c : Call) :
    (exec verbose s c).value = s.exec c := by
  cases c with
  | mutexCreate p => exact congrArg some (osMutexCreate_eq s p)
  | blockPriority p => exact congrArg some (osBlockPriority_eq verbose s p)
  | unBlockPriority p => exact congrArg some (osUnBlockPriority_eq verbose s p)
  | blockTask h => exact congrArg some (osBlockTask_eq verbose s h)
  | unBlockTask h => exact congrArg some (osUnBlockTask_eq verbose s h)
  | blockMultipleTask a n => exact congrArg some (osBlockMultipleTask_eq verbose s a n)
  | unBlockMultipleTask a n => exact congrArg some (osUnBlockMultipleTask_eq verbose s a n)
  | uninstallTask h off taskTimer => exact osUninstallTask_eq s h off taskTimer
  | _ => rfl

end Indexed

/-! ### Valid arguments -/

/-- The calls that name a priority or a task. -/
def Call.indexes : Call → Bool
  | .mutexCreate _ | .blockPriority _ | .unBlockPriority _ | .blockTask _ | .unBlockTask _
  | .blockMultipleTask .. | .unBlockMultipleTask .. | .uninstallTask .. => true
  | _ => false

/-- The priority exists, or every task that is named is installed; handle 0 is the caller's
own where the call says so. -/
def Call.NamesValid (s : Kernel cfg) : Call → Prop
  | .mutexCreate p | .blockPriority p | .unBlockPriority p => p ≤ cfg.configMaxTaskPriority
  | .blockTask h | .uninstallTask h _ _ => s.Installed (if h = 0 then s.currentTask else h)
  | .unBlockTask h => s.Installed h
  | .blockMultipleTask a n | .unBlockMultipleTask a n => ∀ h ∈ List.range' a n, s.Installed h
  | _ => True

instance (s : Kernel cfg) (c : Call) : Decidable (c.NamesValid s) := by
  unfold Call.NamesValid
  induction c using Call.casesOn <;> infer_instance

/-- The call is turned away before it looks at a table. -/
def Call.TurnedAway (s : Kernel cfg) : Call → Prop
  | .mutexCreate _ | .blockPriority _ | .blockMultipleTask .. | .unBlockMultipleTask .. =>
    0 < s.iNesting
  | .blockTask h => 0 < s.iNesting ∨ (h = 0 ∧ s.currentTask = 0)
  | .uninstallTask h _ _ => h = 0 ∧ s.currentTask = 0
  | _ => False

instance (s : Kernel cfg) (c : Call) : Decidable (c.TurnedAway s) := by
  unfold Call.TurnedAway
  induction c using Call.casesOn <;> infer_instance

/-- In `VERBOSE` builds the entry of the priority is used as a task. -/
def Call.EntryIsTask (verbose : Bool) (s : Kernel cfg) : Call → Prop
  | .blockPriority p | .unBlockPriority p =>
    verbose = true → s.priorityVector p ≤ cfg.numberOfTasks
  | _ => True

/-- The call returns an error and leaves the tables as they are. -/
def Call.Rejected (s : Kernel cfg) (c : Call) : Prop :=
  ∃ u r, s.exec c = some (u, .returned r) ∧ r.code.isError = true ∧
    u.osReadyList = s.osReadyList ∧ u.osBlockedList = s.osBlockedList ∧
    u.taskAlloc = s.taskAlloc ∧ u.priorityVector = s.priorityVector

/-- Every access is in bounds, and arguments that are not valid are rejected. -/
def Call.BoundsOk (verbose : Bool) (s : Kernel cfg) (c : Call) : Prop :=
  All (TableAccess.InBounds cfg) (Indexed.exec verbose s c) ∧ (¬ c.NamesValid s → c.Rejected s)

/-! ### Free slots -/

/-- A free slot has the priority `EMPTY_PRIO`. -/
def FreeSlots (s : Kernel cfg) : Prop := ∀ h, h ≠ 0 → ¬ s.Installed h → s.prio h = emptyPrio

/-- A step that installs and uninstalls nobody, and changes the priorities of installed
tasks only. -/
theorem FreeSlots.congr (hf : FreeSlots s) (hinst : ∀ h, t.Installed h ↔ s.Installed h)
    (hprio : ∀ h, ¬ s.Installed h → t.prio h = s.prio h) : FreeSlots t := by
  intro h h0 hno
  have hno : ¬ s.Installed h := fun hi => hno ((hinst h).mpr hi)
  rw [hprio h hno]
  exact hf h h0 hno

theorem FreeSlots.fillTcb (hf : FreeSlots s) {i p a b : Nat} (hi : i < cfg.numberOfTasks) :
    FreeSlots (s.fillTcb i p a b) := by
  intro h h0 hno
  rw [TableInv.installed_fillTcb hi] at hno
  obtain ⟨hne, hno⟩ := not_or.mp hno
  have hctx : (s.fillTcb i p a b).contextTask h = s.contextTask h := Function.update_of_ne hne _ _
  rw [Kernel.prio, hctx]
  exact hf h h0 hno

theorem FreeSlots.clearTcb (hf : FreeSlots s) {task : Nat} (htask : task ≠ 0) :
    FreeSlots (s.clearTcb task) := by
  intro h h0 hno
  rw [TableInv.installed_clearTcb htask] at hno
  by_cases heq : h = task
  · have hctx : (s.clearTcb task).contextTask h = ⟨cfg.noTimeout, emptyPrio, 0, 0⟩ := by
      rw [heq]
      exact Function.update_self ..
    rw [Kernel.prio, hctx]
  · have hctx : (s.clearTcb task).contextTask h = s.contextTask h := Function.update_of_ne heq _ _
    rw [Kernel.prio, hctx]
    exact hf h h0 fun hi => hno ⟨hi, heq⟩

theorem FreeSlots.effect (hk : KernelInv s) (hf : FreeSlots s) {rule : Kernel cfg → Nat → Prop}
    {c : Call} {oc : Outcome} (he : Effect rule s c t oc) : FreeSlots t := by
  -- the caller is installed
  have hother : s.inTask = true → ∀ h, ¬ s.Installed h → h ≠ s.currentTask := by
    rintro hwho h hno rfl
    exact hno (hk.calling hwho).installed
  cases he with
  | installed hwho hp hle hpv hi hfit =>
      rename_i bytes p i a b c d heap
      have hfill := hf.fillTcb (i := i) (p := p) (a := a) (b := b) (freeTcb_spec hi).1
      exact hfill
  | uninstalled htask hwho hinst =>
      have hclear := hf.clearTcb hinst.pos
      exact hclear
  | uninstalledDelayed htask hwho hinst =>
      have hclear := hf.clearTcb hinst.pos
      split
      · exact hclear
      · exact hclear
  | delayed hwho =>
      rw [SuspendInv.startDelay_eq]
      refine hf.congr (fun _ => Iff.rfl) fun h hno => ?_
      exact congrArg ContextType.priority (Function.update_of_ne (hother hwho h hno) _ _)
  | waited hwho =>
      rw [SuspendInv.waitEvent_eq]
      refine hf.congr (fun _ => Iff.rfl) fun h hno => ?_
      exact congrArg ContextType.priority (Function.update_of_ne (hother hwho h hno) _ _)
  | mutexCreated =>
      -- the entry of the ceiling is no task's
      refine hf.congr (fun h => installed_congr ?_ h) fun h _ => ?_ <;>
        dsimp only [setMutex, allocEvent, setEvent]
      · split <;> rfl
      · split <;> rfl
  | acquired hwho =>
      rename_i m tw _ _ _
      -- of the priorities only the caller's changes
      obtain ⟨hta, -⟩ := takeCeiling_same (s.setMutex m fun c =>
        { c with osEventState := .busyResource, osEventOwner := s.currentTask }) m
        (s.prio s.currentTask)
      refine hf.congr (installed_congr hta) fun h hno => ?_
      exact congrArg ContextType.priority (takeCeiling_context (hother hwho h hno))
  | released hwho =>
      rename_i m _ _ _ _
      obtain ⟨-, -, hta, -⟩ := TableInv.restorePriority_same s m
      obtain ⟨hsame, -⟩ := freeMutex_same (s.restorePriority m) m
      refine hf.congr (installed_congr (hsame.taskAlloc.trans hta)) fun h hno => ?_
      exact congrArg ContextType.priority ((congrFun hsame.contextTask h).trans
        (restorePriority_context (hother hwho h hno)))
  | handedOff hwho =>
      rename_i m _ _ _ _
      obtain ⟨-, -, hta, -⟩ := TableInv.restorePriority_same s m
      unfold giveUp
      rw [handOff_eq]
      refine hf.congr (installed_congr hta) fun h hno => ?_
      exact congrArg ContextType.priority (restorePriority_context (hother hwho h hno))
  | queueSelected =>
      rw [SuspendInv.wakeWaiter_eq]
      exact hf
  | _ => exact hf

theorem FreeSlots.move (hk : KernelInv s) (hf : FreeSlots s) {rule : Kernel cfg → Nat → Prop}
    {a : Action} {o : Obs} (hm : Move rule s a t o) : FreeSlots t := by
  cases hm with
  | returned _ he => exact hf.effect hk he
  | switched _ he =>
      have hu := hf.effect hk he
      exact hu
  | suspended _ he =>
      have hu := hf.effect hk he
      exact hu
  | started hmain hfree hu hs =>
      rename_i i a b c d task heap u
      subst hu
      have hfill := hf.fillTcb (i := i) (p := 0) (a := a) (b := b) (freeTcb_spec hfree).1
      exact hfill
  | woken hcur hnest hfr hto =>
      rename_i ev p tw
      obtain ⟨ctx, dl, ops, heq, -⟩ := cancelTimeout_eq s tw
      have hctx : ∀ h, ¬ s.Installed h → h ≠ s.currentTask ∧ ctx h = s.contextTask h := by
        intro h hno
        have hne : h ≠ s.currentTask := fun he => hno (he ▸ (hk.run hcur).1)
        have := cancelTimeout_context (s := s) tw hne
        rw [heq] at this
        exact ⟨hne, this⟩
      rw [heq]
      cases ev with
      | mutex m =>
          obtain ⟨hta, -⟩ := takeCeiling_same
            { s with contextTask := ctx, delayList := dl, delayOps := ops } m p
          refine hf.congr (installed_congr hta) fun h hno => ?_
          obtain ⟨hne, hh⟩ := hctx h hno
          exact congrArg ContextType.priority ((takeCeiling_context (s :=
            { s with contextTask := ctx, delayList := dl, delayOps := ops }) hne).trans hh)
      | _ =>
          exact hf.congr (fun _ => Iff.rfl) fun h hno =>
            congrArg ContextType.priority (hctx h hno).2
  | tick hnest ht =>
      obtain ⟨hinst, -, hprio⟩ := tick_frame hk ht
      exact hf.congr hinst fun h _ => hprio h
  | _ => exact hf

/-- The run lemma. -/
theorem FreeSlots.run {tr : Trace} (hr : RunFromInit (Disciplined NestedRelease) tr s) :
    FreeSlots s := by
  refine (hr.invariant (P := fun s => KernelInv s ∧ FreeSlots s) ⟨init_inv, ?_⟩ ?_).2
  · intro h h0 _
    simp [Kernel.init, Kernel.preInstallTasks, Kernel.prio, h0]
  · rintro t a u o ⟨hk, hf⟩ hd hstep
    exact ⟨step_inv hk hd hstep, hf.move hk (hk.move hd hstep)⟩

/-! ### Accesses in bounds -/

namespace Indexed

theorem all_writeBlocked {verbose : Bool} {h : Nat} (hle : verbose = true → h ≤ cfg.numberOfTasks) :
    All (TableAccess.InBounds cfg) (writeBlocked verbose h) := by
  cases verbose with
  | true => exact all_note.mpr (hle rfl)
  | false => exact all_pure ()

theorem all_block {p : Nat} (hp : p ≤ cfg.configMaxTaskPriority) :
    All (TableAccess.InBounds cfg) (block s p) :=
  all_bind.mpr ⟨all_note.mpr hp, all_pure _⟩

theorem all_unBlock {p : Nat} (hp : p ≤ cfg.configMaxTaskPriority) :
    All (TableAccess.InBounds cfg) (unBlock s p) :=
  all_bind.mpr ⟨all_note.mpr hp, all_pure _⟩

/-- The handles of a range call are those of the range it names. -/
theorem mem_range_of_taskRange {a n h : Nat} (hm : h ∈ taskRange a n) : h ∈ List.range' a n := by
  unfold taskRange at hm
  rw [List.mem_range'_1] at hm ⊢
  have := Nat.mod_le (a + n) 256
  omega

/-- The loops of the range calls touch installed tasks only. -/
theorem all_range {verbose : Bool} {f : Kernel cfg → Nat → Logged TableAccess (Kernel cfg)}
    (hf : ∀ s p, p ≤ cfg.configMaxTaskPriority → All (TableAccess.InBounds cfg) (f s p))
    (hsame : ∀ s p, (f s p).value.contextTask = s.contextTask) (ht : TableInv s) {a n : Nat}
    (hall : ∀ h ∈ List.range' a n, s.Installed h) :
    All (TableAccess.InBounds cfg) ((taskRange a n).foldlM (rangeTask verbose f) s) := by
  -- the loop changes the blocked list only, so the handles stay installed
  refine all_foldlM (I := fun t => t.contextTask = s.contextTask) rfl fun t h hm hctx => ?_
  have hi : s.Installed h := hall h (mem_range_of_taskRange hm)
  have hp : t.prio h ≤ cfg.configMaxTaskPriority := by
    rw [Kernel.prio, hctx]
    exact cfg.lt_prioBits_iff.mp (ht.prio_lt hi)
  unfold rangeTask
  refine ⟨all_ite (fun _ => ?_) fun _ => all_pure _, ?_⟩
  · exact all_bind.mpr ⟨all_writeBlocked fun _ => hi.2.1,
      all_bind.mpr ⟨all_note.mpr hi.2.1, hf t _ hp⟩⟩
  · rw [value_ite]
    split
    · exact (hsame t _).trans hctx
    · exact hctx

/-- An uninstall of an installed task. -/
theorem all_uninstall {task h : Nat} {off : Bool} {taskTimer : Option Nat}
    (htask : task = if h = 0 then s.currentTask else h) (ht : TableInv s) (hi : s.Installed task) :
    All (TableAccess.InBounds cfg) (osUninstallTask s h off taskTimer) := by
  have hp : s.prio task ≤ cfg.configMaxTaskPriority := cfg.lt_prioBits_iff.mp (ht.prio_lt hi)
  have hmask : All (TableAccess.InBounds cfg) (readMask cfg (s.prio task)) := all_note.mpr hp
  have hvec : ∀ u : Kernel cfg, All (TableAccess.InBounds cfg)
      (writeVector u (s.prio task) emptyPrio) := fun u => all_note.mpr hp
  unfold osUninstallTask
  dsimp only
  rw [← htask]
  refine all_ite (fun _ => all_pure _) fun _ => all_bind.mpr ⟨all_note.mpr hi.2.1, ?_⟩
  refine all_ite (fun _ => all_pure _) fun _ => all_bind.mpr ⟨hmask, all_bind.mpr ⟨hmask, ?_⟩⟩
  refine all_ite (fun _ => all_ite (fun _ => ?_) fun _ => all_pure _) fun _ => ?_
  · cases s.searchAndRemove task taskTimer with
    | none => exact all_pure _
    | some u => exact all_bind.mpr ⟨hvec u, all_pure _⟩
  · exact all_bind.mpr ⟨hmask, all_bind.mpr ⟨hvec _, all_pure _⟩⟩

/-- An uninstall of a handle that names no task goes out of bounds: past the control
blocks, or to the mask of `EMPTY_PRIO`. -/
theorem not_all_uninstall {task h : Nat} {off : Bool} {taskTimer : Option Nat}
    (htask : task = if h = 0 then s.currentTask else h) (hf : FreeSlots s) (h0 : task ≠ 0)
    (hno : ¬ s.Installed task) :
    ¬ All (TableAccess.InBounds cfg) (osUninstallTask s h off taskTimer) := by
  intro hall
  have hp : s.prio task = emptyPrio := hf task h0 hno
  unfold osUninstallTask at hall
  dsimp only at hall
  rw [← htask, if_neg h0, all_bind] at hall
  have hread : (readPriority s task).value ≠ 0 := by
    rw [readPriority, value_note, hp]
    decide
  have hrest := hall.2
  rw [if_neg hread, all_bind] at hrest
  have hin : (TableAccess.priorityMask (s.prio task)).InBounds cfg := all_note.mp hrest.1
  have hmask : s.prio task ≤ cfg.configMaxTaskPriority := hin
  have := cfg.prioBits_le
  rw [hp, emptyPrio, Config.configMaxTaskPriority] at hmask
  omega

end Indexed

/-- A call that is turned away returns an error and looks at no table. -/
theorem exec_turnedAway (verbose : Bool) {c : Call} (h : c.TurnedAway s) :
    ∃ r : Ret, r.code.isError = true ∧
      Indexed.exec verbose s c = pure (some (s, .returned r)) := by
  have hdone : ∀ {x : Logged TableAccess (Kernel cfg × Outcome)} {r : Ret}, r.code.isError = true →
      x = pure (s, .returned r) → ∃ r : Ret, r.code.isError = true ∧
        (do let y ← x; pure (some y)) = (pure (some (s, .returned r)) : Logged TableAccess _) := by
    rintro x r herr rfl
    exact ⟨r, herr, rfl⟩
  cases c with
  | mutexCreate p =>
      have hnest : 0 < s.iNesting := h
      exact hdone (r := RetCode.irqPendErr.ret) rfl (if_pos hnest)
  | blockPriority p =>
      have hnest : 0 < s.iNesting := h
      exact hdone (r := RetCode.irqPendErr.ret) rfl (if_pos hnest)
  | blockMultipleTask a n =>
      have hnest : 0 < s.iNesting := h
      exact hdone (r := RetCode.irqPendErr.ret) rfl (if_pos hnest)
  | unBlockMultipleTask a n =>
      have hnest : 0 < s.iNesting := h
      exact hdone (r := RetCode.irqPendErr.ret) rfl (if_pos hnest)
  | blockTask k =>
      by_cases hnest : 0 < s.iNesting
      · exact hdone (r := RetCode.irqPendErr.ret) rfl (if_pos hnest)
      · obtain ⟨h0, hcur⟩ := h.resolve_left hnest
        have htask : (if k = 0 then s.currentTask else k) = 0 := by rw [if_pos h0, hcur]
        exact hdone (r := RetCode.notValidTask.ret) rfl ((if_neg hnest).trans (if_pos htask))
  | uninstallTask k off taskTimer =>
      have htask : (if k = 0 then s.currentTask else k) = 0 := by rw [if_pos h.1, h.2]
      exact ⟨RetCode.notValidTask.ret, rfl, if_pos htask⟩
  | _ => exact absurd h id

/-- Valid arguments keep the accesses in bounds. -/
theorem all_of_namesValid (ht : TableInv s) {verbose : Bool} {c : Call} (hc : c.indexes = true)
    (hv : c.NamesValid s) (he : c.EntryIsTask verbose s) :
    All (TableAccess.InBounds cfg) (Indexed.exec verbose s c) := by
  have hprio : ∀ {h}, s.Installed h → s.prio h ≤ cfg.configMaxTaskPriority := fun hi =>
    cfg.lt_prioBits_iff.mp (ht.prio_lt hi)
  cases c with
  | mutexCreate p =>
      have hvec : (TableAccess.priorityVector p).InBounds cfg := hv
      refine all_bind.mpr ⟨?_, all_pure _⟩
      refine all_ite (fun _ => all_pure _) fun _ => all_ite (fun _ => ?_) fun _ => all_pure _
      refine all_bind.mpr ⟨all_note.mpr hvec, all_ite (fun _ => all_pure _) fun _ => ?_⟩
      exact all_bind.mpr ⟨all_note.mpr hvec, all_pure _⟩
  | blockPriority p =>
      have hvec : (TableAccess.priorityVector p).InBounds cfg := hv
      refine all_bind.mpr ⟨all_ite (fun _ => all_pure _) fun _ => ?_, all_pure _⟩
      exact all_bind.mpr ⟨all_note.mpr hvec, all_bind.mpr ⟨Indexed.all_writeBlocked he,
        all_bind.mpr ⟨Indexed.all_block hv, all_pure _⟩⟩⟩
  | unBlockPriority p =>
      have hvec : (TableAccess.priorityVector p).InBounds cfg := hv
      refine all_bind.mpr ⟨?_, all_pure _⟩
      cases verbose with
      | true =>
          exact all_bind.mpr ⟨all_note.mpr hvec, all_bind.mpr ⟨Indexed.all_writeBlocked he,
            all_bind.mpr ⟨Indexed.all_unBlock hv, all_pure _⟩⟩⟩
      | false => exact all_bind.mpr ⟨Indexed.all_unBlock hv, all_pure _⟩
  | blockTask h =>
      have hi : s.Installed (if h = 0 then s.currentTask else h) := hv
      refine all_bind.mpr ⟨all_ite (fun _ => all_pure _) fun _ => ?_, all_pure _⟩
      refine all_ite (fun _ => all_pure _) fun _ => ?_
      exact all_bind.mpr ⟨Indexed.all_writeBlocked fun _ => hi.2.1, all_bind.mpr
        ⟨all_note.mpr hi.2.1, all_bind.mpr ⟨Indexed.all_block (hprio hi), all_pure _⟩⟩⟩
  | unBlockTask h =>
      have hi : s.Installed h := hv
      refine all_bind.mpr ⟨?_, all_pure _⟩
      exact all_bind.mpr ⟨Indexed.all_writeBlocked fun _ => hi.2.1, all_bind.mpr
        ⟨all_note.mpr hi.2.1, all_bind.mpr ⟨Indexed.all_unBlock (hprio hi), all_pure _⟩⟩⟩
  | blockMultipleTask a n =>
      refine all_bind.mpr ⟨all_ite (fun _ => all_pure _) fun _ => ?_, all_pure _⟩
      exact all_bind.mpr ⟨Indexed.all_range (fun _ _ => Indexed.all_block) (fun _ _ => rfl) ht hv,
        all_pure _⟩
  | unBlockMultipleTask a n =>
      refine all_bind.mpr ⟨all_ite (fun _ => all_pure _) fun _ => ?_, all_pure _⟩
      exact all_bind.mpr ⟨Indexed.all_range (fun _ _ => Indexed.all_unBlock) (fun _ _ => rfl) ht hv,
        all_pure _⟩
  | uninstallTask h off taskTimer => exact Indexed.all_uninstall rfl ht hv
  | _ => cases hc

/-- A call that is not turned away does not reject a priority or a handle. -/
theorem not_rejected {c : Call} (hc : c.indexes = true) (ha : ¬ c.TurnedAway s)
    (hno : ¬ c.NamesValid s) (hrej : c.Rejected s) :
    (∃ p, c = .mutexCreate p) ∨ ∃ h off taskTimer, c = .uninstallTask h off taskTimer := by
  obtain ⟨u, r, hex, herr, -⟩ := hrej
  have hblock : ∀ task, s.blockOutcome task ≠ .returned r := by
    intro task heq
    unfold blockOutcome at heq
    split at heq <;> cases heq
    cases herr
  have hunBlock : s.unBlockOutcome ≠ .returned r := by
    intro heq
    unfold unBlockOutcome at heq
    split at heq <;> cases heq
    cases herr
  cases c with
  | mutexCreate p => exact Or.inl ⟨p, rfl⟩
  | uninstallTask h off taskTimer => exact Or.inr ⟨h, off, taskTimer, rfl⟩
  | blockPriority p =>
      have hnest : ¬ 0 < s.iNesting := ha
      rw [Kernel.exec, osBlockPriority, if_neg hnest] at hex
      exact absurd (congrArg Prod.snd (Option.some.inj hex)) (hblock _)
  | unBlockPriority p => exact absurd (congrArg Prod.snd (Option.some.inj hex)) hunBlock
  | blockTask h =>
      obtain ⟨hnest, hcur⟩ := not_or.mp ha
      have htask : (if h = 0 then s.currentTask else h) ≠ 0 := by
        intro h0
        split at h0
        · exact hcur ⟨by assumption, h0⟩
        · contradiction
      rw [Kernel.exec, osBlockTask, if_neg hnest] at hex
      dsimp only at hex
      rw [if_neg htask] at hex
      exact absurd (congrArg Prod.snd (Option.some.inj hex)) (hblock _)
  | unBlockTask h => exact absurd (congrArg Prod.snd (Option.some.inj hex)) hunBlock
  | blockMultipleTask a n =>
      have hnest : ¬ 0 < s.iNesting := ha
      rw [Kernel.exec, osBlockMultipleTask, if_neg hnest] at hex
      obtain ⟨-, ho⟩ := Prod.mk.inj (Option.some.inj hex)
      cases ho
      cases herr
  | unBlockMultipleTask a n =>
      have hnest : ¬ 0 < s.iNesting := ha
      rw [Kernel.exec, osUnBlockMultipleTask, if_neg hnest] at hex
      exact absurd (congrArg Prod.snd (Option.some.inj hex)) hunBlock
  | _ => cases hc

/-- In bounds, or turned away, a call names valid arguments unless it rejects them. -/
theorem namesValid_of_boundsOk (hf : FreeSlots s) {verbose : Bool} {c : Call}
    (hc : c.indexes = true) (hok : c.BoundsOk verbose s) (ha : ¬ c.TurnedAway s) :
    c.NamesValid s := by
  by_contra hno
  rcases not_rejected hc ha hno (hok.2 hno) with ⟨p, rfl⟩ | ⟨h, off, taskTimer, rfl⟩
  · have hnest : ¬ 0 < s.iNesting := ha
    have hgt : ¬ p ≤ cfg.configMaxTaskPriority := hno
    have hall := (all_bind.mp hok.1).1
    unfold Indexed.osMutexCreate at hall
    rw [if_neg hnest, if_pos (by omega), all_bind] at hall
    have hin : (TableAccess.priorityVector p).InBounds cfg := all_note.mp hall.1
    exact hgt hin
  · have htask : (if h = 0 then s.currentTask else h) ≠ 0 := by
      intro h0
      split at h0
      · exact ha ⟨by assumption, h0⟩
      · contradiction
    exact Indexed.not_all_uninstall rfl hf htask hno hok.1

/-- In `VERBOSE` builds the entry of the priority is a task, or the access to its control
block is out of bounds. -/
theorem entryIsTask_of_boundsOk {verbose : Bool} {c : Call} (hok : c.BoundsOk verbose s)
    (ha : ¬ c.TurnedAway s) : c.EntryIsTask verbose s := by
  cases c with
  | blockPriority p =>
      rintro rfl
      have hnest : ¬ 0 < s.iNesting := ha
      have hall := (all_bind.mp hok.1).1
      unfold Indexed.osBlockPriority at hall
      rw [if_neg hnest, all_bind, all_bind] at hall
      have hin : (TableAccess.contextTask (s.priorityVector p)).InBounds cfg :=
        all_note.mp hall.2.1
      exact hin
  | unBlockPriority p =>
      rintro rfl
      have hall := (all_bind.mp hok.1).1
      have hin : (TableAccess.contextTask (s.priorityVector p)).InBounds cfg :=
        all_note.mp (all_bind.mp (all_bind.mp hall).2).1
      exact hin
  | _ => exact trivial

/-- **When the kernel tables are indexed in bounds**: in every reachable state and for every
call that names a priority or a task, all accesses are in bounds and invalid arguments
are rejected with the tables unchanged, if and only if the call is turned away before it
looks at them, or its arguments are valid (and, in `VERBOSE` builds, the priority somebody's). -/
theorem table_accesses_iff {tr : Trace} {c : Call}
    (hr : RunFromInit (Disciplined NestedRelease) tr s) (hc : c.indexes = true) (verbose : Bool) :
    c.BoundsOk verbose s ↔ c.TurnedAway s ∨ (c.NamesValid s ∧ c.EntryIsTask verbose s) := by
  have hk := run_inv hr
  constructor
  · intro hok
    by_cases ha : c.TurnedAway s
    · exact Or.inl ha
    · exact Or.inr ⟨namesValid_of_boundsOk (FreeSlots.run hr) hc hok ha,
        entryIsTask_of_boundsOk hok ha⟩
  · rintro (ha | ⟨hv, he⟩)
    · obtain ⟨r, herr, hlog⟩ := exec_turnedAway verbose ha
      refine ⟨?_, fun _ => ⟨s, r, ?_, herr, rfl, rfl, rfl, rfl⟩⟩
      · rw [hlog]
        exact all_pure _
      · rw [← Indexed.exec_eq verbose, hlog]
        rfl
    · exact ⟨all_of_namesValid hk.table hc hv he, fun hno => absurd hv hno⟩

/-- One task, which runs. -/
def oneTaskScript : List Action := [.call (.installTask false 256 5), .brtosStart]

set_option maxRecDepth 20000 in
/-- The task blocks its own priority, in a `VERBOSE` build. -/
theorem table_accesses_iff_own : (Call.blockPriority 5).BoundsOk true (kernelAfter oneTaskScript) :=
  (table_accesses_iff (c := .blockPriority 5) (Run.of_admits (by decide +kernel)) rfl true).mpr
    (Or.inr ⟨by decide, fun _ => by decide +kernel⟩)

set_option maxRecDepth 20000 in
/-- **The mask of a free slot**: `OSBlockTask` of a handle that was never installed reads
`PriorityMask[255]` and returns `OK`. -/
theorem free_slot_indexes_mask :
    ∃ tr, ∃ s : Kernel Config.exampleConfig, RunFromInit (Disciplined LifoRelease) tr s ∧
      ¬ s.Installed 7 ∧
      (Indexed.exec false s (.blockTask 7)).log = [.contextTask 7, .priorityMask 255] ∧
      (s.exec (.blockTask 7)).map Prod.snd = some (.returned RetCode.ok.ret) ∧
      ¬ (Call.blockTask 7).BoundsOk false s := by
  have hrun : RunFromInit (Disciplined LifoRelease) _ (kernelAfter oneTaskScript) :=
    Run.of_admits (by decide +kernel)
  have hlog : (Indexed.exec false (kernelAfter oneTaskScript) (.blockTask 7)).log =
      [.contextTask 7, .priorityMask 255] := by decide +kernel
  refine ⟨_, _, hrun, by decide +kernel, hlog, by decide +kernel, fun hok => ?_⟩
  have hin := hok.1 (.priorityMask 255) (by rw [hlog]; simp)
  revert hin
  decide

end Brtos
