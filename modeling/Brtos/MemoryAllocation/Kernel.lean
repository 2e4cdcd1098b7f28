import Brtos.DQueue
import Brtos.Lib.ByteStore

/-!
# Brtos.MemoryAllocation.Kernel

What the kernel keeps of the heap: the heap itself, the slots that are taken and the stack of
each. Only an install and an uninstall write these (`memory_exec`, `memory_step`); every other
function reads and writes other fields. For the dynamic queues the same is true of the addresses
of a queue's blocks: only a creation writes them (`DKernel.Blocks`).
-/

namespace Brtos

open Bits

variable {cfg : Config}

namespace Kernel

variable {s t u : Kernel cfg}

/-- The stack of slot `h`. -/
def stack (s : Kernel cfg) (h : Nat) : Grant :=
  ⟨(s.contextTask h).stackInit, (s.contextTask h).stackSize⟩

/-- The part of the state that has to do with the heap. -/
def memory (s : Kernel cfg) : cfg.mem.Heap × BitVec 32 × (Nat → Grant) :=
  (s.heap, s.taskAlloc, s.stack)

theorem memory_eq {heap : cfg.mem.Heap} {alloc : BitVec 32} {stack : Nat → Grant}
    (h : s.memory = (heap, alloc, stack)) : s.heap = heap ∧ s.taskAlloc = alloc ∧ s.stack = stack := by
  obtain ⟨h1, h2⟩ := Prod.mk.inj h
  exact ⟨h1, Prod.mk.inj h2⟩

/-! ### What the state is put together from -/

@[simp] theorem memory_setReady (p : Nat) : (s.setReady p).memory = s.memory := rfl

@[simp] theorem memory_clearReady (p : Nat) : (s.clearReady p).memory = s.memory := rfl

@[simp] theorem memory_setPriorityVector (p v : Nat) : (s.setPriorityVector p v).memory = s.memory := rfl

@[simp] theorem memory_setEvent (ev : Event) (f : EventWait cfg.prioBits → EventWait cfg.prioBits) :
    (s.setEvent ev f).memory = s.memory := rfl

@[simp] theorem memory_setMutex (m : Nat) (f : BRTOSMutex → BRTOSMutex) :
    (s.setMutex m f).memory = s.memory := rfl

@[simp] theorem memory_setSem (e : Nat) (f : BRTOSSem → BRTOSSem) : (s.setSem e f).memory = s.memory := rfl

@[simp] theorem memory_setMbox (e : Nat) (f : BRTOSMbox → BRTOSMbox) :
    (s.setMbox e f).memory = s.memory := rfl

@[simp] theorem memory_setQueue (q : Nat) (f : OSQueue → OSQueue) :
    (s.setQueue q f).memory = s.memory := rfl

@[simp] theorem memory_setFrame (h : Nat) (f : Frame) : (s.setFrame h f).memory = s.memory := rfl

@[simp] theorem memory_includeTaskIntoDelayList (h : Nat) :
    (s.includeTaskIntoDelayList h).memory = s.memory := rfl

@[simp] theorem memory_removeFromDelayList (h : Nat) :
    (s.removeFromDelayList h).memory = s.memory := rfl

@[simp] theorem memory_noteAcquired (m : Nat) : (s.noteAcquired m).memory = s.memory := rfl

@[simp] theorem memory_noteReleased (m : Nat) : (s.noteReleased m).memory = s.memory := rfl

@[simp] theorem memory_putByte (q : Nat) (data : UInt8) : (s.putByte q data).memory = s.memory := rfl

@[simp] theorem memory_block (p : Nat) : (s.block p).memory = s.memory := rfl

@[simp] theorem memory_unBlock (p : Nat) : (s.unBlock p).memory = s.memory := rfl

@[simp] theorem memory_osIncCounter : s.osIncCounter.memory = s.memory := rfl

/-- A write to a control block that leaves its stack. -/
theorem memory_setContext {h : Nat} {f : ContextType → ContextType}
    (hf : ∀ x, (f x).stackInit = x.stackInit ∧ (f x).stackSize = x.stackSize) :
    (s.setContext h f).memory = s.memory := by
  have hstack : (s.setContext h f).stack = s.stack := by
    funext k
    by_cases hk : k = h
    · subst hk
      simp [stack, setContext, hf]
    · simp [stack, setContext, hk]
  show (s.heap, s.taskAlloc, (s.setContext h f).stack) = _
  rw [hstack]
  rfl

@[simp] theorem memory_setTimeToWait (h v : Nat) : (s.setTimeToWait h v).memory = s.memory :=
  memory_setContext fun _ => ⟨rfl, rfl⟩

@[simp] theorem memory_setPriority (h p : Nat) : (s.setPriority h p).memory = s.memory :=
  memory_setContext fun _ => ⟨rfl, rfl⟩

/-! ### The functions the calls share -/

@[simp] theorem memory_startTimeout (timeWait : Nat) : (s.startTimeout timeWait).memory = s.memory := by
  unfold startTimeout
  split <;> simp

@[simp] theorem memory_leaveWaitList (ev : Event) (p : Nat) : (s.leaveWaitList ev p).memory = s.memory :=
  rfl

@[simp] theorem memory_waitEvent (ev : Event) (timeWait : Nat) :
    (s.waitEvent ev timeWait).memory = s.memory := by
  simp [waitEvent]

@[simp] theorem memory_wakeUp (ev : Event) (p timeWait : Nat) :
    (s.wakeUp ev p timeWait).1.memory = s.memory := by
  unfold wakeUp
  repeat' split
  all_goals simp

@[simp] theorem memory_wakeWaiter (ev : Event) : (s.wakeWaiter ev).memory = s.memory := rfl

@[simp] theorem memory_takeCeiling (m p : Nat) : (s.takeCeiling m p).memory = s.memory := by
  unfold takeCeiling
  dsimp only
  split <;> simp

@[simp] theorem memory_restorePriority (m : Nat) : (s.restorePriority m).memory = s.memory := by
  unfold restorePriority
  dsimp only
  split <;> simp

@[simp] theorem memory_mutexRelease (m : Nat) : (s.mutexRelease m).1.memory = s.memory := by
  unfold mutexRelease
  split
  · rfl
  dsimp only
  split
  · simp
  · dsimp only
    split <;> simp

theorem memory_checkEvent {kind : Nat → Event} {p : Option Nat} {body : Nat → Kernel cfg × Outcome}
    {oc : Outcome} (hb : ∀ i, (body i).1.memory = s.memory)
    (h : s.checkEvent kind p body = some (t, oc)) : t.memory = s.memory := by
  cases p with
  | none =>
      simp only [checkEvent] at h
      split at h
      · cases h
        rfl
      · cases h
  | some i =>
      simp only [checkEvent] at h
      split at h
      · cases h
        rfl
      · rw [← hb i, Option.some.inj h]

theorem memory_checkPend {kind : Nat → Event} {p : Option Nat} {out : Out}
    {body : Nat → Kernel cfg × Outcome} {oc : Outcome} (hb : ∀ i, (body i).1.memory = s.memory)
    (h : s.checkPend kind p out body = some (t, oc)) : t.memory = s.memory := by
  unfold checkPend at h
  split at h
  · cases h
    rfl
  · exact memory_checkEvent hb h

/-- A loop over tasks. -/
theorem memory_foldl {f : Kernel cfg → Nat → Kernel cfg} (hf : ∀ s h, (f s h).memory = s.memory) :
    ∀ (hs : List Nat) (s : Kernel cfg), (hs.foldl f s).memory = s.memory := by
  intro hs
  induction hs with
  | nil => exact fun _ => rfl
  | cons h hs ih => exact fun s => (ih (f s h)).trans (hf s h)

/-- The loop of the tick handler. -/
theorem memory_tickLoop : ∀ (fuel : Nat) (s : Kernel cfg) (first : Option Nat),
    tickLoop fuel s first = some t → t.memory = s.memory := by
  intro fuel
  induction fuel with
  | zero =>
      intro s first h
      cases first with
      | none =>
          cases h
          rfl
      | some h' => cases h
  | succ fuel ih =>
      intro s first h
      cases first with
      | none =>
          cases h
          rfl
      | some task =>
          refine (ih _ _ h).trans ?_
          unfold tickTask
          split
          · simp [expire]
          · rfl

/-! ### Calls and steps -/

/-- Every call but an install and an uninstall leaves the heap and the stacks alone. -/
theorem memory_exec {c : Call} {oc : Outcome} (hi : ∀ isIdle bytes p, c ≠ .installTask isIdle bytes p)
    (hun : ∀ h off taskTimer, c ≠ .uninstallTask h off taskTimer) (hex : s.exec c = some (t, oc)) :
    t.memory = s.memory := by
  cases c with
  | installTask isIdle bytes p => exact absurd rfl (hi isIdle bytes p)
  | uninstallTask h off taskTimer => exact absurd rfl (hun h off taskTimer)
  | delayTask timeWait =>
      simp only [exec, osDelayTask] at hex
      repeat' split at hex
      all_goals
        cases hex
        simp
  | blockPriority p =>
      simp only [exec, osBlockPriority] at hex
      split at hex <;> cases hex <;> simp
  | unBlockPriority p =>
      cases hex
      rfl
  | blockTask h =>
      simp only [exec, osBlockTask] at hex
      repeat' split at hex
      all_goals
        cases hex
        simp
  | unBlockTask h =>
      cases hex
      rfl
  | blockMultipleTask a n =>
      simp only [exec, osBlockMultipleTask] at hex
      split at hex <;> cases hex
      · rfl
      · refine memory_foldl (fun s h => ?_) _ s
        split <;> simp
  | unBlockMultipleTask a n =>
      simp only [exec, osUnBlockMultipleTask] at hex
      split at hex <;> cases hex
      · rfl
      · refine memory_foldl (fun s h => ?_) _ s
        split <;> simp
  | semCreate cnt =>
      simp only [exec, osSemCreate, createSem, allocEvent] at hex
      repeat' split at hex
      all_goals
        cases hex
        simp
  | semBinaryCreate bit =>
      simp only [exec, osSemBinaryCreate, createSem, allocEvent] at hex
      repeat' split at hex
      all_goals
        cases hex
        simp
  | semDelete e =>
      simp only [exec, osSemDelete, deleteEvent] at hex
      split at hex
      · cases hex
        rfl
      · obtain ⟨i, -, h⟩ := Option.map_eq_some_iff.mp hex
        cases h
        simp
  | semPend e timeWait =>
      refine memory_checkPend (fun i => ?_) hex
      unfold semPend
      repeat' split
      all_goals simp
  | semPost e =>
      refine memory_checkEvent (fun i => ?_) hex
      unfold semPost
      repeat' split
      all_goals simp
  | mboxCreate message =>
      simp only [exec, osMboxCreate, allocEvent] at hex
      repeat' split at hex
      all_goals
        cases hex
        simp
  | mboxDelete e =>
      simp only [exec, osMboxDelete, deleteEvent] at hex
      split at hex
      · cases hex
        rfl
      · obtain ⟨i, -, h⟩ := Option.map_eq_some_iff.mp hex
        cases h
        simp
  | mboxPend e timeWait =>
      refine memory_checkPend (fun i => ?_) hex
      unfold mboxPend
      repeat' split
      all_goals simp [takeMessage]
  | mboxPost e message =>
      refine memory_checkEvent (fun i => ?_) hex
      unfold mboxPost
      split <;> simp
  | queueCreate size =>
      simp only [exec, osQueueCreate] at hex
      repeat' split at hex
      all_goals
        cases hex
        rfl
  | queuePend q timeWait =>
      obtain ⟨i, -, hex⟩ := Option.bind_eq_some_iff.mp hex
      refine memory_checkPend (fun i => ?_) hex
      unfold queuePend
      repeat' split
      all_goals simp [getByte]
  | queuePost q data =>
      obtain ⟨i, -, hex⟩ := Option.bind_eq_some_iff.mp hex
      refine memory_checkEvent (fun i => ?_) hex
      unfold queuePost
      dsimp only
      repeat' split
      all_goals simp
  | rQueue q =>
      simp only [exec, osRQueue, getByte] at hex
      split at hex <;> cases hex <;> simp
  | wQueue q data =>
      simp only [exec, osWQueue] at hex
      split at hex <;> cases hex <;> simp
  | queueClean q =>
      cases hex
      rfl
  | mutexCreate p =>
      simp only [exec, osMutexCreate, allocEvent] at hex
      repeat' split at hex
      all_goals
        cases hex
        simp
  | mutexDelete m =>
      simp only [exec, osMutexDelete, deleteEvent] at hex
      split at hex
      · cases hex
        rfl
      · obtain ⟨i, -, h⟩ := Option.map_eq_some_iff.mp hex
        cases h
        simp
  | mutexAcquire m timeWait =>
      refine memory_checkPend (fun i => ?_) hex
      unfold mutexAcquire
      dsimp only
      repeat' split
      all_goals simp
  | mutexRelease m => exact memory_checkPend (fun i => memory_mutexRelease i) hex

/-- The rest of a suspended pend. -/
theorem memory_pendResume (ev : Event) (p timeWait : Nat) :
    (s.pendResume ev p timeWait).1.memory = s.memory := by
  have hw := s.memory_wakeUp ev p timeWait
  cases ev <;> simp only [pendResume, osSemPendResume, osMboxPendResume, osQueuePendResume,
    osMutexAcquireResume]
  all_goals
    split
    all_goals
      rename_i heq
      rw [heq] at hw
      simpa [takeMessage, getByte] using hw

theorem memory_changeContext (h : s.changeContext = some t) : t.memory = s.memory := by
  obtain ⟨task, -, rfl⟩ := Option.map_eq_some_iff.mp h
  rfl

/-- A step that is not an install, an uninstall or the start. -/
theorem memory_step {a : Action} {o : Obs} (hc : ∀ c, a ≠ .call c) (hstart : a ≠ .brtosStart)
    (hs : s.step a = some (t, o)) : t.memory = s.memory := by
  cases a with
  | call c => exact absurd rfl (hc c)
  | brtosStart => exact absurd rfl hstart
  | resume =>
      simp only [step, stepResume] at hs
      split at hs
      · split at hs
        · cases hs
        · cases hs
          simp
        · cases hs
          simp [memory_pendResume]
      · cases hs
  | intEnter =>
      simp only [step] at hs
      split at hs
      · cases hs
        rfl
      · cases hs
  | tick =>
      simp only [step] at hs
      split at hs
      · obtain ⟨u, hu, h⟩ := Option.map_eq_some_iff.mp hs
        cases h
        exact (memory_tickLoop _ _ _ hu).trans rfl
      · cases hs
  | intExit =>
      simp only [step, osIntExit] at hs
      split at hs
      · obtain ⟨u, hu, h⟩ := Option.map_eq_some_iff.mp hs
        cases h
        split at hu
        · exact (memory_changeContext hu).trans rfl
        · cases hu
          rfl
      · cases hs

/-- A call is its critical section and, it may be, a switch, which reads the tables only. -/
theorem memory_call {c : Call} {o : Obs} (hs : s.step (.call c) = some (t, o)) :
    c.allowed s = true ∧ ∃ u oc, s.exec c = some (u, oc) ∧ t.memory = u.memory := by
  simp only [step, stepCall] at hs
  split at hs
  · rename_i ha
    refine ⟨ha, ?_⟩
    split at hs
    · cases hs
    · rename_i u r hex
      cases hs
      exact ⟨_, _, hex, rfl⟩
    · rename_i u r hex
      obtain ⟨v, hv, h⟩ := Option.map_eq_some_iff.mp hs
      cases h
      exact ⟨_, _, hex, memory_changeContext hv⟩
    · rename_i u hex
      obtain ⟨v, hv, h⟩ := Option.map_eq_some_iff.mp hs
      cases h
      exact ⟨_, _, hex, memory_changeContext hv⟩
  · cases hs

/-- `BRTOSStart` installs the idle task and then does nothing to the heap. -/
theorem memory_brtosStart {o : Obs} (hs : s.step .brtosStart = some (t, o)) :
    t.memory = (s.osInstallTask true cfg.idleStackSize 0).1.memory := by
  simp only [step, brtosStart] at hs
  split at hs
  · split at hs
    · rename_i u out hu
      obtain ⟨v, hv, h⟩ := Option.map_eq_some_iff.mp hs
      cases h
      rw [hu]
      exact memory_changeContext hv
    · rename_i hu
      cases hs
      rw [hu]
  · cases hs

/-! ### Install and uninstall -/

/-- What an install of `bytes` bytes, in whole words, does to the heap and the stacks. -/
inductive InstallsStack (s : Kernel cfg) (bytes : Nat) (t : Kernel cfg) : Prop
  | refused (h : t.memory = s.memory)
  | noMemory {heap : cfg.mem.Heap} (ha : cfg.mem.alloc s.heap bytes = (none, heap))
      (h : t.memory = (heap, s.taskAlloc, s.stack))
  /-- There is no control block for the task, and the stack is given back. -/
  | noTcb {stack : Nat} {heap : cfg.mem.Heap} (ha : cfg.mem.alloc s.heap bytes = (some stack, heap))
      (h : t.memory = (cfg.mem.dealloc heap stack, s.taskAlloc, s.stack))
  | installed {i stack : Nat} {heap : cfg.mem.Heap}
      (ha : cfg.mem.alloc s.heap bytes = (some stack, heap)) (hi : s.freeTcb = some i)
      (h : t.memory = (heap, s.taskAlloc ||| mask 32 i, Function.update s.stack (i + 1) ⟨stack, bytes⟩))

theorem stack_fillTcb (i p a b : Nat) :
    (s.fillTcb i p a b).stack = Function.update s.stack (i + 1) ⟨a, b⟩ := by
  funext h
  by_cases hh : h = i + 1
  · subst hh
    simp [stack, fillTcb]
  · simp [stack, fillTcb, hh]

theorem installsStack_of_dynamic (hdyn : cfg.dynamicTasksEnabled = true) (isIdle : Bool) (bytes p : Nat) :
    InstallsStack s (bytes - bytes % cfg.sizeofCpuType) (s.osInstallTask isIdle bytes p).1 := by
  rw [osInstallTask, if_pos hdyn, osInstallTaskDynamic]
  generalize bytes - bytes % cfg.sizeofCpuType = n
  split
  · exact .refused rfl
  split
  · exact .refused rfl
  split
  · rename_i heap ha
    exact .noMemory ha rfl
  · rename_i stack heap ha
    split
    · exact .noTcb ha rfl
    · rename_i i hi
      refine .installed ha hi ?_
      show (heap, s.taskAlloc ||| mask 32 i, ({ s with heap := heap }.fillTcb i p stack n).stack) = _
      rw [stack_fillTcb]
      rfl

/-- In a static build no install asks the heap for anything. -/
theorem heap_install_of_static (hdyn : ¬ cfg.dynamicTasksEnabled = true) (isIdle : Bool) (bytes p : Nat) :
    (s.osInstallTask isIdle bytes p).1.heap = s.heap := by
  rw [osInstallTask, if_neg hdyn, osInstallTaskStatic]
  dsimp only
  repeat' split
  all_goals rfl

/-- An uninstall that is not refused gives the stack back. -/
theorem memory_uninstall {h : Nat} {off : Bool} {taskTimer : Option Nat} {oc : Outcome}
    (hex : s.osUninstallTask h off taskTimer = some (t, oc)) :
    t.memory = s.memory ∨ ∃ task, task = (if h = 0 then s.currentTask else h) ∧ task ≠ 0 ∧
      t.memory = (cfg.mem.dealloc s.heap (s.stack task).ptr, s.taskAlloc &&& ~~~ mask 32 (task - 1),
        Function.update s.stack task ⟨0, 0⟩) := by
  have hclear : ∀ (u : Kernel cfg) task, u.memory = s.memory → (u.clearTcb task).memory =
      (cfg.mem.dealloc s.heap (s.stack task).ptr, s.taskAlloc &&& ~~~ mask 32 (task - 1),
        Function.update s.stack task ⟨0, 0⟩) := by
    intro u task hu
    obtain ⟨hheap, halloc, hstack⟩ := memory_eq hu
    have hc : (u.clearTcb task).stack = Function.update u.stack task ⟨0, 0⟩ := by
      funext k
      by_cases hk : k = task
      · subst hk
        simp [stack, clearTcb]
      · simp [stack, clearTcb, hk]
    show (cfg.mem.dealloc u.heap (u.stack task).ptr, u.taskAlloc &&& ~~~ mask 32 (task - 1),
      (u.clearTcb task).stack) = _
    rw [hc, hheap, halloc, hstack]
  unfold osUninstallTask at hex
  dsimp only at hex
  generalize (if h = 0 then s.currentTask else h) = task at hex
  split at hex
  · cases hex
    exact Or.inl rfl
  rename_i hne
  split at hex
  · cases hex
    exact Or.inl rfl
  split at hex
  · split at hex
    · obtain ⟨v, hv, hu⟩ := Option.map_eq_some_iff.mp hex
      cases hu
      refine Or.inr ⟨task, rfl, hne, hclear _ task ?_⟩
      obtain ⟨found, -, rfl⟩ := searchAndRemove_inv hv
      split <;> rfl
    · cases hex
      exact Or.inl rfl
  · cases hex
    exact Or.inr ⟨task, rfl, hne, hclear _ task rfl⟩

end Kernel

/-! ### The dynamic queues -/

namespace DKernel

variable {dc : DQueueConfig} {s t : DKernel dc}

/-- The part of the state that has to do with the heap: that of the kernel, and where the blocks
of the dynamic queues are. -/
def memory (s : DKernel dc) :
    (dc.mem.Heap × BitVec 32 × (Nat → Grant)) × (Nat → Nat) × (Nat → Nat × Nat) :=
  (s.kernel.memory, (fun e => (s.dEvent e).osEventPointer),
    fun c => ((s.dQueue c).osqStart, (s.dQueue c).osqEnd))

/-- What is outside the kernel is where it was. -/
theorem rest_eq (h : t.memory.2 = s.memory.2) (e c : Nat) :
    (t.dEvent e).osEventPointer = (s.dEvent e).osEventPointer ∧
      (t.dQueue c).osqStart = (s.dQueue c).osqStart ∧ (t.dQueue c).osqEnd = (s.dQueue c).osqEnd := by
  obtain ⟨hp, hb⟩ := Prod.mk.inj h
  exact ⟨congrFun hp e, Prod.mk.inj (congrFun hb c)⟩

theorem memory_setKernel {f : Kernel dc.toConfig → Kernel dc.toConfig}
    (hf : (f s.kernel).memory = s.kernel.memory) : (s.setKernel f).memory = s.memory := by
  show ((f s.kernel).memory, _, _) = _
  rw [hf]
  rfl

@[simp] theorem memory_setDFrame (h : Nat) (f : Option DFrame) : (s.setDFrame h f).memory = s.memory := rfl

theorem memory_setDQueue {c : Nat} {f : OSDQueue → OSDQueue}
    (hf : ∀ x, (f x).osqStart = x.osqStart ∧ (f x).osqEnd = x.osqEnd) :
    (s.setDQueue c f).memory = s.memory := by
  have hq : ∀ k, ((s.setDQueue c f).dQueue k).osqStart = (s.dQueue k).osqStart ∧
      ((s.setDQueue c f).dQueue k).osqEnd = (s.dQueue k).osqEnd := by
    intro k
    by_cases hk : k = c
    · subst hk
      simp [setDQueue, hf]
    · simp [setDQueue, hk]
  simp only [memory, hq]
  rfl

theorem memory_setDEvent {e : Nat} {f : BRTOSQueue dc.prioBits → BRTOSQueue dc.prioBits}
    (hf : ∀ x, (f x).osEventPointer = x.osEventPointer) : (s.setDEvent e f).memory = s.memory := by
  have hp : ∀ k, ((s.setDEvent e f).dEvent k).osEventPointer = (s.dEvent k).osEventPointer := by
    intro k
    by_cases hk : k = e
    · subst hk
      simp [setDEvent, hf]
    · simp [setDEvent, hk]
  simp only [memory, hp]
  rfl

@[simp] theorem memory_leaveWaitList (e p : Nat) : (s.leaveWaitList e p).memory = s.memory :=
  memory_setDEvent fun _ => rfl

theorem memory_readMessage {c n : Nat} {r : DRet} (h : s.readMessage c n = some (t, r)) :
    t.memory = s.memory := by
  obtain ⟨-, h⟩ := Option.ite_none_right_eq_some.mp h
  cases h
  exact memory_setDQueue fun _ => ⟨rfl, rfl⟩

theorem memory_writeMessage {c : Nat} {pdata : List UInt8} (h : s.writeMessage c pdata = some t) :
    t.memory = s.memory := by
  unfold writeMessage at h
  dsimp only at h
  generalize (if (s.dQueue c).osqIn = (s.dQueue c).osqEnd then (s.dQueue c).osqStart
    else (s.dQueue c).osqIn) = i at h
  obtain ⟨-, h⟩ := Option.ite_none_right_eq_some.mp h
  cases h
  have hset : (s.setDQueue c fun x =>
      { x with osqEntries := x.osqEntries + 1, osqIn := i + x.osqTSize }).memory = s.memory :=
    memory_setDQueue fun _ => ⟨rfl, rfl⟩
  exact hset

theorem memory_waitDEvent (e c n timeWait : Nat) : (s.waitDEvent e c n timeWait).memory = s.memory := by
  unfold waitDEvent
  rw [memory_setDFrame, memory_setKernel (by simp)]
  exact memory_setDEvent fun _ => rfl

theorem memory_checkDEvent {p : Option Nat} {body : Nat → Option (DKernel dc × DOutcome)}
    {oc : DOutcome} (hb : ∀ e u oc, body e = some (u, oc) → u.memory = s.memory)
    (h : s.checkDEvent p body = some (t, oc)) : t.memory = s.memory := by
  cases p with
  | none =>
      simp only [checkDEvent] at h
      split at h <;> cases h
      rfl
  | some e =>
      simp only [checkDEvent] at h
      split at h
      · cases h
        rfl
      · exact hb e t oc h

/-- Every call but a creation and a deletion leaves the blocks where they are. -/
theorem memory_exec {c : DCall} {oc : DOutcome} (hc : ∀ queueLength typeSize, c ≠ .create queueLength typeSize)
    (hd : ∀ e, c ≠ .delete e) (hex : s.exec c = some (t, oc)) : t.memory = s.memory := by
  cases c with
  | create queueLength typeSize => exact absurd rfl (hc _ _)
  | delete e => exact absurd rfl (hd e)
  | clean e =>
      cases hex
      exact memory_setDQueue fun _ => ⟨rfl, rfl⟩
  | pend e timeWait =>
      simp only [exec, osDQueuePend] at hex
      split at hex
      · cases hex
        rfl
      refine memory_checkDEvent (fun e u oc h => ?_) hex
      unfold dQueuePend at h
      dsimp only at h
      split at h
      · obtain ⟨x, hx, he⟩ := Option.map_eq_some_iff.mp h
        cases he
        exact memory_readMessage hx
      split at h <;> cases h
      · rfl
      · exact memory_waitDEvent _ _ _ _
  | post e pdata =>
      refine memory_checkDEvent (fun e u oc h => ?_) hex
      unfold dQueuePost at h
      dsimp only at h
      split at h
      · obtain ⟨v, hv, he⟩ := Option.map_eq_some_iff.mp h
        rw [← memory_writeMessage hv]
        split at he
        · cases he
          rw [memory_setKernel (by simp), memory_leaveWaitList]
        · cases he
          rfl
      · cases h
        rfl

theorem memory_resume {f : DFrame} {r : DRet} (h : s.osDQueuePendResume f = some (t, r)) :
    t.memory = s.memory := by
  unfold osDQueuePendResume at h
  dsimp only at h
  split at h
  · split at h
    · split at h
      · cases h
        exact memory_leaveWaitList _ _
      · exact memory_readMessage h
    · rw [memory_readMessage h, memory_setKernel (by simp)]
  · exact memory_readMessage h

/-- The rest of a suspended `OSDQueuePend`. -/
theorem memory_stepResume {o : DObs} (hs : s.step .resume = some (t, o)) :
    t.memory = s.memory ∧ ∃ task r, o = .resumed task r := by
  simp only [step, stepResume] at hs
  split at hs
  · obtain ⟨f, -, h⟩ := Option.bind_eq_some_iff.mp hs
    obtain ⟨⟨u, r⟩, hu, he⟩ := Option.map_eq_some_iff.mp h
    cases he
    refine ⟨?_, _, _, rfl⟩
    rw [memory_setDFrame, memory_setKernel (by simp), memory_resume hu]
  · cases hs

theorem memory_changeContext (h : s.changeContext = some t) : t.memory = s.memory := by
  obtain ⟨k, hk, rfl⟩ := Option.map_eq_some_iff.mp h
  show (k.memory, _, _) = _
  rw [Kernel.memory_changeContext hk]
  rfl

/-- A call that neither creates nor deletes is its critical section and, it may be, a switch. -/
theorem memory_call {c : DCall} {o : DObs} (hc : ∀ queueLength typeSize, c ≠ .create queueLength typeSize)
    (hd : ∀ e, c ≠ .delete e) (hs : s.step (.call c) = some (t, o)) :
    t.memory = s.memory ∧ ((∃ task r, o = .returned task c r) ∨ ∃ task, o = .suspended task c) := by
  obtain ⟨-, u, oc, hex, ⟨r, rfl, rfl, ho⟩ | ⟨hu, ho⟩⟩ := dstep_call_inv hs
  · exact ⟨memory_exec hc hd hex, Or.inl ⟨_, r, ho⟩⟩
  · refine ⟨(memory_changeContext hu).trans (memory_exec hc hd hex), ?_⟩
    rcases ho with ⟨r, -, ho⟩ | ⟨-, ho⟩
    · exact Or.inl ⟨_, r, ho⟩
    · exact Or.inr ⟨_, ho⟩

theorem bytes_writeMessage {c : Nat} {pdata : List UInt8} (h : s.writeMessage c pdata = some t) {x : Nat}
    (hx : t.bytes x ≠ s.bytes x) : (s.dQueue c).osqStart ≤ x ∧ x < (s.dQueue c).osqEnd := by
  unfold writeMessage at h
  dsimp only at h
  generalize (if (s.dQueue c).osqIn = (s.dQueue c).osqEnd then (s.dQueue c).osqStart
    else (s.dQueue c).osqIn) = i at h
  obtain ⟨⟨hstart, hend, -⟩, h⟩ := Option.ite_none_right_eq_some.mp h
  cases h
  dsimp only at hx
  split at hx
  · rename_i hin
    exact ⟨hstart.trans hin.1, hin.2.trans_le hend⟩
  · exact absurd rfl hx

/-- A post copies its message into the buffer of its queue. -/
theorem bytes_post {e : Option Nat} {pdata : List UInt8} {o : DObs}
    (hs : s.step (.call (.post e pdata)) = some (t, o)) {x : Nat} (hx : t.bytes x ≠ s.bytes x) :
    ∃ k, e = some k ∧ (s.dQueue (s.dEvent k).osEventPointer).osqStart ≤ x ∧
      x < (s.dQueue (s.dEvent k).osEventPointer).osqEnd := by
  obtain ⟨-, u, oc, hex, hend⟩ := dstep_call_inv hs
  have hu : t.bytes = u.bytes := by
    obtain ⟨-, -, rfl, -⟩ | ⟨hu, -⟩ := hend
    · rfl
    · obtain ⟨k, -, rfl⟩ := Option.map_eq_some_iff.mp hu
      rfl
  rw [hu] at hx
  cases e with
  | none =>
      simp only [exec, osDQueuePost, checkDEvent] at hex
      split at hex <;> cases hex
      exact absurd rfl hx
  | some k =>
      simp only [exec, osDQueuePost, checkDEvent] at hex
      split at hex
      · cases hex
        exact absurd rfl hx
      unfold dQueuePost at hex
      dsimp only at hex
      split at hex
      · obtain ⟨v, hv, he⟩ := Option.map_eq_some_iff.mp hex
        have hbytes : u.bytes = v.bytes := by
          split at he <;> cases he <;> rfl
        exact ⟨k, rfl, bytes_writeMessage hv (hbytes ▸ hx)⟩
      · cases hex
        exact absurd rfl hx

/-! ### Create and delete -/

/-- What `OSDQueueCreate` does to the heap and the blocks, with a buffer of `size` bytes. -/
inductive CreatesQueue (s : DKernel dc) (size : Nat) (t : DKernel dc) (r : DRet) : Prop
  | refused (h : t.memory = s.memory) (hr : r.code ≠ .allocEventOk)
  | noQueue {heap : dc.mem.Heap} (ha : dc.mem.alloc s.kernel.heap dc.sizeofOSDQueue = (none, heap))
      (h : t.kernel.memory = (heap, s.kernel.taskAlloc, s.kernel.stack)) (hrest : t.memory.2 = s.memory.2)
      (hr : r.code ≠ .allocEventOk)
  /-- There is no room for the buffer. -/
  | noBuffer {c : Nat} {h₁ h₂ : dc.mem.Heap}
      (ha : dc.mem.alloc s.kernel.heap dc.sizeofOSDQueue = (some c, h₁))
      (hb : dc.mem.alloc h₁ size = (none, h₂))
      (h : t.kernel.memory = (dc.mem.dealloc h₂ c, s.kernel.taskAlloc, s.kernel.stack))
      (hp : ∀ e, (t.dEvent e).osEventPointer = (s.dEvent e).osEventPointer)
      (hq : ∀ k, k ≠ c → t.dQueue k = s.dQueue k) (hr : r.code ≠ .allocEventOk)
  /-- There is no room for the event control block. -/
  | noEvent {c start : Nat} {h₁ h₂ h₃ : dc.mem.Heap}
      (ha : dc.mem.alloc s.kernel.heap dc.sizeofOSDQueue = (some c, h₁))
      (hb : dc.mem.alloc h₁ size = (some start, h₂))
      (hc : dc.mem.alloc h₂ dc.sizeofBRTOSQueue = (none, h₃))
      (h : t.kernel.memory = (dc.mem.dealloc (dc.mem.dealloc h₃ start) c, s.kernel.taskAlloc,
        s.kernel.stack))
      (hp : ∀ e, (t.dEvent e).osEventPointer = (s.dEvent e).osEventPointer)
      (hq : ∀ k, k ≠ c → t.dQueue k = s.dQueue k) (hr : r.code ≠ .allocEventOk)
  | created {c start e : Nat} {h₁ h₂ h₃ : dc.mem.Heap}
      (ha : dc.mem.alloc s.kernel.heap dc.sizeofOSDQueue = (some c, h₁))
      (hb : dc.mem.alloc h₁ size = (some start, h₂))
      (hc : dc.mem.alloc h₂ dc.sizeofBRTOSQueue = (some e, h₃))
      (h : t.kernel.memory = (h₃, s.kernel.taskAlloc, s.kernel.stack))
      (hp : ∀ k, (t.dEvent k).osEventPointer = if k = e then c else (s.dEvent k).osEventPointer)
      (hq : ∀ k, k ≠ c → t.dQueue k = s.dQueue k)
      (hnew : (t.dQueue c).osqStart = start ∧ (t.dQueue c).osqEnd = start + size)
      (hr : r = ⟨.allocEventOk, .event e⟩)

theorem createsQueue (s : DKernel dc) (queueLength : UInt16) (typeSize : Nat) :
    CreatesQueue s (queueLength.toNat * typeSize % 65536) (s.osDQueueCreate queueLength typeSize).1
      (s.osDQueueCreate queueLength typeSize).2 := by
  generalize hsize : queueLength.toNat * typeSize % 65536 = size
  unfold osDQueueCreate
  rw [hsize]
  split
  · exact .refused rfl nofun
  split
  case isFalse => exact .refused rfl nofun
  split
  · rename_i heap ha
    exact .noQueue ha rfl rfl nofun
  · rename_i c h₁ ha
    dsimp only
    split
    · rename_i h₂ hb
      refine .noBuffer ha hb rfl (fun _ => rfl) (fun k hk => ?_) nofun
      exact Function.update_of_ne hk _ _
    · rename_i start h₂ hb
      have hstart : ((s.setDQueue c fun x => { x with osqStart := start }).dQueue c).osqStart = start := by
        simp [setDQueue]
      split
      · rename_i h₃ hc
        refine .noEvent ha hb hc ?_ (fun _ => rfl) (fun k hk => Function.update_of_ne hk _ _) nofun
        rw [hstart]
        rfl
      · rename_i e h₃ hc
        refine .created ha hb hc rfl (fun k => ?_) (fun k hk => ?_) ?_ rfl
        · by_cases hk : k = e
          · subst hk
            simp [fillDQueue, setDEvent]
          · simp [fillDQueue, setDEvent, setDQueue, setHeap, setKernel, hk]
        · simp [fillDQueue, setDEvent, setDQueue, setHeap, setKernel, hk]
        · simp [fillDQueue, setDEvent, setDQueue, setHeap, setKernel]

/-- `OSDQueueDelete` gives three blocks back. -/
theorem memory_delete {e : Nat} {r : DRet} (h : s.osDQueueDelete (some e) = some (t, r)) :
    (t.memory = s.memory ∧ r.code ≠ .deleteEventOk) ∨
      (t.memory.2 = s.memory.2 ∧ r.code = .deleteEventOk ∧
        t.kernel.memory = (dc.mem.dealloc (dc.mem.dealloc (dc.mem.dealloc s.kernel.heap
          (s.dQueue (s.dEvent e).osEventPointer).osqStart) (s.dEvent e).osEventPointer) e,
          s.kernel.taskAlloc, s.kernel.stack)) := by
  simp only [osDQueueDelete, Option.map_some, Option.some.injEq] at h
  split at h
  · cases h
    exact Or.inl ⟨rfl, nofun⟩
  · cases h
    refine Or.inr ⟨?_, rfl, rfl⟩
    have hset : ∀ u : DKernel dc, (u.setDEvent e fun c => { c with
        osEventAllocated := 0, osEventCount := 0, osEventWait := 0, osEventWaitList := 0 }).memory =
        u.memory := fun u => memory_setDEvent fun _ => rfl
    have hdealloc : ∀ (u : DKernel dc) b, (u.dealloc b).memory.2 = u.memory.2 := fun _ _ => rfl
    rw [hdealloc, hset]
    rfl

end DKernel

end Brtos
