import Mathlib.Algebra.Group.Nat.Defs
import Mathlib.Data.Set.Insert
import Mathlib.Tactic.Common

/-!
# Brtos.Config

The build-time configuration of the kernel (`BRTOSConfig.h`, the port's `HAL.h`
and the derived defines of `BRTOS.h`), the tick-counter constants and the return
codes.

Everything the preprocessor decides is a field of `Config`, so a theorem about
`Kernel cfg` is about every build. Three constraints are part of the type because
the C types impose them: `TaskAlloc` is a 32-bit word, the queue heap is indexed
by a `uint16_t`, and a word is 1, 2 or 4 bytes.
-/

namespace Brtos

/-- `NUMBER_OF_PRIORITIES` selects one of three widths of `PriorityType`. -/
inductive PrioWidth
  | w8 | w16 | w32
  deriving DecidableEq, Repr

/-- Bits of `PriorityType`; also `configMAX_TASK_INSTALL`. -/
def PrioWidth.bits : PrioWidth → Nat
  | w8 => 8
  | w16 => 16
  | w32 => 32

/-- The types `ostick_t` for which `osdtick_t` is the type twice as wide
(`uint16_t`/`uint32_t`, the default, and `uint32_t`/`uint64_t`). -/
inductive TickWidth
  | t16 | t32
  deriving DecidableEq, Repr

/-- `sizeof_ostick_t`, in bytes. -/
def TickWidth.size : TickWidth → Nat
  | t16 => 2
  | t32 => 4

/-- `BRTOS_ALLOC` and `BRTOS_DEALLOC`, which the application binds. `alloc`
returns `none` for `NULL`. -/
structure Allocator where
  Heap : Type
  init : Heap
  alloc : Heap → Nat → Option Nat × Heap
  dealloc : Heap → Nat → Heap

/-- An allocation that fails changes nothing, and freeing a block undoes the
allocation that made it. -/
structure Allocator.Undoes (mem : Allocator) : Prop where
  refused {h h' : mem.Heap} {n : Nat} : mem.alloc h n = (none, h') → h' = h
  freed {h h' : mem.Heap} {n a : Nat} : mem.alloc h n = (some a, h') → mem.dealloc h' a = h

/-- In addition, blocks may be freed in any order. -/
structure Allocator.UndoesInAnyOrder (mem : Allocator) : Prop extends mem.Undoes where
  comm (h : mem.Heap) (a b : Nat) : mem.dealloc (mem.dealloc h a) b = mem.dealloc (mem.dealloc h b) a

/-- What callers see of a heap is which blocks are in use: a block that is lent was not, and one
that is given back is not any more. Where the free blocks are is the allocator's affair. -/
structure Allocator.Lends (mem : Allocator) (InUse : mem.Heap → Set Nat → Prop) : Prop where
  lent {h h' : mem.Heap} {bs : Set Nat} {n a : Nat} : InUse h bs → n < 65536 →
    mem.alloc h n = (some a, h') → a ∉ bs ∧ InUse h' (insert a bs)
  returned {h : mem.Heap} {bs : Set Nat} {a : Nat} : InUse h bs → a ∈ bs →
    InUse (mem.dealloc h a) (bs \ {a})

/-- One build of the kernel. -/
structure Config where
  priorities : PrioWidth
  tick : TickWidth
  /-- `NUMBER_OF_TASKS`. -/
  numberOfTasks : Nat
  numberOfTasks_le : numberOfTasks ≤ 32
  /-- `BRTOS_DYNAMIC_TASKS_ENABLED`. -/
  dynamicTasksEnabled : Bool
  /-- `ERROR_CHECK`. -/
  errorCheck : Bool
  /-- `OPTIMIZED_SCHEDULER`: `SAScheduler` counts leading zeros. -/
  optimizedScheduler : Bool
  /-- `sizeof(OS_CPU_TYPE)`. -/
  sizeofCpuType : Nat
  sizeofCpuType_mem : sizeofCpuType = 1 ∨ sizeofCpuType = 2 ∨ sizeofCpuType = 4
  /-- `NUMBER_MIN_OF_STACKED_BYTES`. -/
  numberMinOfStackedBytes : Nat
  /-- `IDLE_STACK_SIZE`. -/
  idleStackSize : Nat
  /-- `HEAP_SIZE`, the static stack heap. -/
  heapSize : Nat
  /-- `QUEUE_HEAP_SIZE`. -/
  queueHeapSize : Nat
  queueHeapSize_lt : queueHeapSize / sizeofCpuType < 65536
  /-- `BRTOS_MAX_SEM`. -/
  brtosMaxSem : Nat
  /-- `BRTOS_MAX_MUTEX`. -/
  brtosMaxMutex : Nat
  /-- `BRTOS_MAX_MBOX`. -/
  brtosMaxMbox : Nat
  /-- `BRTOS_MAX_QUEUE`. -/
  brtosMaxQueue : Nat
  mem : Allocator

namespace Config

variable (cfg : Config)

/-- Bits of `PriorityType`. -/
abbrev prioBits : Nat := cfg.priorities.bits

/-- `configMAX_TASK_PRIORITY`. -/
def configMaxTaskPriority : Nat := cfg.prioBits - 1

/-- Bits of `ostick_t`. -/
def tickBits : Nat := 8 * cfg.tick.size

/-- `MAX_TIMER`, after the cast to `ostick_t`. -/
def maxTimer : Nat := 2 ^ cfg.tickBits - 1

/-- `NO_TIMEOUT`. -/
def noTimeout : Nat := cfg.maxTimer - 1

/-- `EXIT_BY_TIMEOUT`. -/
def exitByTimeout : Nat := cfg.maxTimer - 2

/-- `TICK_COUNT_OVERFLOW`. -/
def tickCountOverflow : Nat := cfg.maxTimer - 3

theorem prioBits_pos : 0 < cfg.prioBits := by
  unfold prioBits
  cases cfg.priorities <;> decide

theorem prioBits_le : cfg.prioBits ≤ 32 := by
  unfold prioBits
  cases cfg.priorities <;> decide

theorem lt_prioBits_iff {p : Nat} : p < cfg.prioBits ↔ p ≤ cfg.configMaxTaskPriority := by
  have := cfg.prioBits_pos
  unfold configMaxTaskPriority
  omega

theorem tickBits_cases : cfg.tickBits = 16 ∨ cfg.tickBits = 32 := by
  unfold tickBits
  cases cfg.tick
  · exact Or.inl rfl
  · exact Or.inr rfl

/-- The three sentinels are the largest tick values, above every counter value. -/
theorem tickCountOverflow_spec :
    cfg.tickCountOverflow + 1 = cfg.exitByTimeout ∧ cfg.exitByTimeout + 1 = cfg.noTimeout ∧
      cfg.tickCountOverflow + 4 = 2 ^ cfg.tickBits ∧ 0 < cfg.tickCountOverflow := by
  unfold tickCountOverflow exitByTimeout noTimeout maxTimer
  rcases cfg.tickBits_cases with h | h <;> rw [h] <;> decide

/-- An arena of `size` bytes, handed out from front to back and never taken back. -/
def arena (size : Nat) : Allocator where
  Heap := Nat
  init := 0
  alloc used n := if used + n ≤ size then (some used, used + n) else (none, used)
  dealloc used _ := used

/-- `n` blocks of `size` bytes; the heap says which addresses are in use. -/
def slots (n size : Nat) : Allocator where
  Heap := Nat → Bool
  init := fun _ => false
  alloc used k :=
    match ((List.range n).map fun i => size * (i + 1)).find? fun a => k ≤ size && !used a with
    | some a => (some a, Function.update used a true)
    | none => (none, used)
  dealloc used a := Function.update used a false

theorem update_back {used : Nat → Bool} {a : Nat} (h : used a = false) :
    Function.update (Function.update used a true) a false = used := by
  rw [Function.update_idem, ← h, Function.update_eq_self]

theorem slots_undoes (n size : Nat) : (slots n size).UndoesInAnyOrder where
  refused := by
    intro used used' k h
    simp only [slots] at h
    split at h
    · cases h
    · cases h
      rfl
  freed := by
    intro used used' k a h
    simp only [slots] at h
    split at h
    · rename_i hb
      cases h
      have hfree : (used : Nat → Bool) a = false := by
        have hp := List.find?_some hb
        rw [Bool.and_eq_true, Bool.not_eq_true'] at hp
        exact hp.2
      exact update_back hfree
    · cases h
  comm := by
    intro used a b
    by_cases hab : a = b
    · rw [hab]
    · exact (Function.update_comm hab false false (used : Nat → Bool))

theorem marked_true (used : Nat → Bool) (a : Nat) :
    insert a {x | used x = true} = {x | Function.update used a true x = true} := by
  ext x
  by_cases hx : x = a
  · subst hx
    simp
  · simp [hx]

theorem marked_false (used : Nat → Bool) (a : Nat) :
    {x | used x = true} \ {a} = {x | Function.update used a false x = true} := by
  ext x
  by_cases hx : x = a
  · subst hx
    simp
  · simp [hx]

/-- The blocks of `slots` in use are the marked ones. -/
theorem slots_lends (n size : Nat) :
    (slots n size).Lends fun (used : Nat → Bool) bs => bs = {a | used a = true} where
  lent := by
    rintro used used' bs k a rfl - h
    simp only [slots] at h
    split at h
    · rename_i hb
      cases h
      have hp := List.find?_some hb
      rw [Bool.and_eq_true, Bool.not_eq_true'] at hp
      refine ⟨fun ha => ?_, marked_true used a⟩
      exact absurd (hp.2.symm.trans ha) Bool.false_ne_true
    · cases h
  returned := by
    rintro used bs a rfl -
    exact marked_false used a

/-- `ConfigExample/BRTOSConfig.h` on a 32-bit port. -/
def exampleConfig : Config where
  priorities := .w32
  tick := .t16
  numberOfTasks := 10
  numberOfTasks_le := by decide
  dynamicTasksEnabled := true
  errorCheck := false
  optimizedScheduler := false
  sizeofCpuType := 4
  sizeofCpuType_mem := by decide
  numberMinOfStackedBytes := 64
  idleStackSize := 512
  heapSize := 96 * 128
  queueHeapSize := 8 * 128
  queueHeapSize_lt := by decide
  brtosMaxSem := 20
  brtosMaxMutex := 4
  brtosMaxMbox := 5
  brtosMaxQueue := 20
  mem := arena (20 * 1024)

end Config

/-- The `TimeToWait` value every blocking call computes for a wait of `timeWait`
ticks that starts at tick `count`. The sum is taken in `osdtick_t`; it is reduced
unless `ostick_t` is eight bytes wide. -/
def deadline (cfg : Config) (count timeWait : Nat) : Nat :=
  let timeout := (count + timeWait) % 2 ^ (2 * cfg.tickBits)
  if cfg.tick.size < 8 then
    if timeout ≥ cfg.tickCountOverflow then
      (timeout - cfg.tickCountOverflow) % 2 ^ cfg.tickBits
    else timeout % 2 ^ cfg.tickBits
  else timeout % 2 ^ cfg.tickBits

/-- For a wait of at most one counter period the stored deadline is the sum
modulo the period. -/
theorem deadline_eq_mod {cfg : Config} {count timeWait : Nat}
    (hc : count < cfg.tickCountOverflow) (hw : timeWait ≤ cfg.tickCountOverflow) :
    deadline cfg count timeWait = (count + timeWait) % cfg.tickCountOverflow := by
  obtain ⟨-, -, hspec, hpos⟩ := cfg.tickCountOverflow_spec
  have hsize : cfg.tick.size < 8 := by cases cfg.tick <;> decide
  have hpow : 2 ^ cfg.tickBits * 2 ≤ 2 ^ (2 * cfg.tickBits) := by
    rcases cfg.tickBits_cases with h | h <;> rw [h] <;> decide
  have hsum : (count + timeWait) % 2 ^ (2 * cfg.tickBits) = count + timeWait :=
    Nat.mod_eq_of_lt (by omega)
  simp only [deadline, hsum, hsize, if_true]
  split
  · rename_i hge
    rw [Nat.mod_eq_of_lt (by omega), Nat.mod_eq_sub_mod hge, Nat.mod_eq_of_lt (by omega)]
  · rename_i hlt
    rw [Nat.mod_eq_of_lt (by omega), Nat.mod_eq_of_lt (by omega)]

theorem deadline_lt {cfg : Config} {count timeWait : Nat}
    (hc : count < cfg.tickCountOverflow) (hw : timeWait ≤ cfg.tickCountOverflow) :
    deadline cfg count timeWait < cfg.tickCountOverflow := by
  rw [deadline_eq_mod hc hw]
  exact Nat.mod_lt _ (by omega)

/-- `MUTEX_PRIO`: a priority reserved as a mutex ceiling nobody has taken. -/
def mutexPrio : Nat := 0xFE

/-- `EMPTY_PRIO`: a free priority, or the priority of a free task slot. -/
def emptyPrio : Nat := 0xFF

/-- The return codes of the kernel calls, under the names of `BRTOS.h`. -/
inductive RetCode
  | ok
  | noMemory
  | stackSizeTooSmall
  | endOfAvailablePriorities
  | busyPriority
  | timeout
  | cannotAssignIdleTaskPrio
  | notValidTask
  | noTaskDelay
  | endOfAvailableTcb
  | exitByNoEntryAvailable
  | taskWaitingEvent
  | cannotUninstallIdleTask
  | exitByNoResourceAvailable
  | allocEventOk
  | noAvailableEvent
  | noAvailableMemory
  | invalidParameters
  | irqPendErr
  | errSemOvf
  | errEventNoCreated
  | nullEventPointer
  | errEventOwner
  | deleteEventOk
  | readBufferOk
  | writeBufferOk
  | bufferUnderrun
  | cleanBufferOk
  | noEntryAvailable
  deriving DecidableEq, Repr

end Brtos
