import Brtos.Invariant.Frames
import Brtos.Lib.WordStack

/-!
# Brtos.Port.CreateStack

**The first stack of a task** on the GCC Cortex-M4 port (`HAL.c`): `CreateVirtualStack`
for static and `CreateDVirtualStack` for dynamic tasks.

Both push the frame that the first context switch will pop, and with `WATERMARK` they mark
the lowest word of the stack and fill what is left between it and the frame. The frame has
exactly `NUMBER_MIN_OF_STACKED_BYTES`, so in a stack of that size nothing is left; but the
filling loop writes before it tests, and writes the word below the stack
(`stack_init_iff`). One word more and the loop writes over the mark, which is still inside.

The static `OSInstallTask` records `StackAddress` plus what the frame does not need, while
the frame is pushed at `STACK[iStackAddress + ...]`. The two agree as long as the
`uint16_t` index has not wrapped (`stackAddress_eq`).
-/

namespace Brtos

open Bits Kernel

/-- A build on the GCC Cortex-M4 port: the switches `HAL.c` looks at, and the constants
of `HAL.h`. -/
structure CortexM4 extends Config where
  /-- `FPU_SUPPORT` -/
  fpuSupport : Bool
  /-- `WATERMARK` -/
  watermark : Bool
  /-- `TASK_WITH_PARAMETERS` -/
  taskWithParameters : Bool
  sizeofCpuType_eq : sizeofCpuType = 4
  numberMinOfStackedBytes_eq : numberMinOfStackedBytes = if fpuSupport then 68 else 64

variable {pc : CortexM4} {cfg : Config} {s t u : Kernel cfg} {rule : Kernel cfg → Nat → Prop}

namespace CortexM4

/-- What the code passes on: `FctPtr` and `parameters`. -/
structure Entry where
  fctPtr : UInt32
  parameters : UInt32

/-- The words of the frame, in the order in which they are pushed. -/
def frame (pc : CortexM4) (x : Entry) (r1 : UInt32) : List UInt32 :=
  [0x01000000, x.fctPtr, 0, 0x12121212, 0x03030303, 0x02020202, r1,
    if pc.taskWithParameters then x.parameters else 0] ++
  (if pc.fpuSupport then [0xFFFFFFFD] else []) ++
  [0x11111111, 0x10101010, 0x09090909, 0x08080808, 0x07070707, 0x06060606, 0x05050505, 0x04040404]

/-- The mark: `KST` and the number of the task, as a digit. -/
def mark (numberOfInstalledTasks : Nat) : UInt32 :=
  ((UInt32.ofNat numberOfInstalledTasks + 48) <<< (24 : UInt32)) + 84 +
    ((83 : UInt32) <<< (8 : UInt32)) + ((75 : UInt32) <<< (16 : UInt32))

/-- The body of both functions: the writes to the stack between `base` and `top`, and
where the frame ends. -/
def createStack (pc : CortexM4) (n : Nat) (base top : Int) (frame : List UInt32) :
    Writes UInt32 × Int :=
  let stkPt := afterPush 4 top frame
  ((if pc.watermark then [(base, mark n)] else []) ++ push 4 top frame ++
    (if pc.watermark then fillDown 4 0x24242424 (base + 4) stkPt else []), stkPt)

/-- `CreateVirtualStack`; `stack` is the address of `STACK`. -/
def createVirtualStack (pc : CortexM4) (n : Nat) (stack : Int) (iStackAddress : Nat) (x : Entry)
    (numberOfStackedBytes : Nat) : Writes UInt32 :=
  (pc.createStack n (stack + 4 * iStackAddress)
    (stack + 4 * (iStackAddress + numberOfStackedBytes / 4 : Nat))
    (pc.frame x (UInt32.ofNat (numberOfStackedBytes / 10)))).1

/-- `CreateDVirtualStack`. -/
def createDVirtualStack (pc : CortexM4) (n : Nat) (x : Entry) (stk stkSize : Nat) :
    Writes UInt32 × Int :=
  pc.createStack n stk (stk + stkSize) (pc.frame x 0x01010101)

end CortexM4

/-- A new task's stack: its region, the writes that initialise it, the frame, and
`StackPoint` of the task's control block. -/
structure NewStack where
  base : Int
  size : Nat
  writes : Writes UInt32
  frame : List UInt32
  stackPoint : Int

/-- What `OSInstallTask` does about the stack when it installs a task. -/
def Kernel.newStack (s : Kernel pc.toConfig) (stack : Int) (x : CortexM4.Entry)
    (userStackedBytes : Nat) : Option NewStack :=
  let bytes := userStackedBytes - userStackedBytes % pc.sizeofCpuType
  let n := (s.numberOfInstalledTasks + 1) % 256
  if pc.dynamicTasksEnabled then
    (pc.mem.alloc s.heap bytes).1.map fun (stk : Nat) =>
      { base := (stk : Int)
        size := bytes
        writes := (pc.createDVirtualStack n x stk bytes).1
        frame := pc.frame x 0x01010101
        stackPoint := (pc.createDVirtualStack n x stk bytes).2 }
  else some
    { base := stack + 4 * s.iStackAddress
      size := bytes
      writes := pc.createVirtualStack n stack s.iStackAddress x bytes
      frame := pc.frame x (UInt32.ofNat (bytes / 10))
      stackPoint := stack + s.stackAddress + (bytes - pc.numberMinOfStackedBytes : Nat) }

/-- Every word is written inside the task's region, the frame is there in the end, and
`StackPoint` is the address of its last word. -/
structure StackOk (x : NewStack) : Prop where
  inside : ∀ y ∈ x.writes, x.base ≤ y.1 ∧ y.1 + 4 ≤ x.base + x.size
  intact : ∀ (m : Int → UInt32) (k : Nat) (hk : k < x.frame.length),
    x.writes.apply m (x.base + x.size - 4 * (k + 1)) = x.frame[k]
  stackPoint : x.stackPoint = x.base + x.size - 4 * x.frame.length

/-! ### The two functions -/

theorem CortexM4.length_frame (x : CortexM4.Entry) (r1 : UInt32) :
    4 * (pc.frame x r1).length = pc.numberMinOfStackedBytes := by
  rw [pc.numberMinOfStackedBytes_eq]
  unfold frame
  cases pc.fpuSupport <;> rfl

/-- With a watermark, the word below the frame is written. -/
theorem CortexM4.below_frame_mem {n : Nat} {base top : Int} {frame : List UInt32}
    (hwm : pc.watermark = true) :
    (top - 4 * frame.length - 4, 0x24242424) ∈ (pc.createStack n base top frame).1 := by
  simp only [createStack, if_pos hwm]
  exact List.mem_append_right _ first_mem_fillDown

/-- The writes are inside the region exactly when the loop has room for its first word. -/
theorem CortexM4.createStack_inside_iff {n size : Nat} {base : Int} {frame : List UInt32}
    (hfits : 4 * frame.length ≤ size) (h4 : size % 4 = 0) (hpos : 0 < size) :
    (∀ y ∈ (pc.createStack n base (base + size) frame).1, base ≤ y.1 ∧ y.1 + 4 ≤ base + size) ↔
      ¬ (pc.watermark = true ∧ size = 4 * frame.length) := by
  have hsp : afterPush 4 (base + size) frame = base + size - 4 * frame.length := rfl
  constructor
  · intro h ⟨hwm, hsize⟩
    have hfirst := h _ (below_frame_mem hwm)
    dsimp only at hfirst
    omega
  · intro h y hy
    simp only [createStack] at hy
    rcases List.mem_append.mp hy with hy | hy
    · rcases List.mem_append.mp hy with hy | hy
      · -- the mark
        split at hy
        · obtain rfl := List.mem_singleton.mp hy
          dsimp only
          omega
        · cases hy
      · -- the frame
        obtain ⟨h1, h2⟩ := mem_push (by decide) hy
        omega
    · -- the fill, which has room for a word
      split at hy
      · rename_i hwm
        have hroom : 4 * frame.length + 4 ≤ size := by
          have hne : size ≠ 4 * frame.length := fun heq => h ⟨hwm, heq⟩
          omega
        rcases mem_fillDown hy with h | ⟨h1, h2⟩ <;> omega
      · cases hy

/-- The frame is there in the end: the mark is written before it, the loop below it. -/
theorem CortexM4.createStack_intact {n size : Nat} {base : Int} {frame : List UInt32}
    (m : Int → UInt32) {k : Nat} (hk : k < frame.length) :
    (pc.createStack n base (base + size) frame).1.apply m (base + size - 4 * (k + 1)) = frame[k] := by
  have hsp : afterPush 4 (base + size) frame = base + size - 4 * frame.length := rfl
  simp only [createStack]
  rw [Writes.apply_append, Writes.apply_other, Writes.apply_append, apply_push (by decide) hk]
  intro y hy
  split at hy
  · rcases mem_fillDown hy with h | ⟨h1, h2⟩ <;> omega
  · cases hy

/-- What is left to ask for when a stack of an accepted size has been written. -/
theorem CortexM4.stackOk_iff {y : NewStack} {n : Nat}
    (hwrites : y.writes = (pc.createStack n y.base (y.base + y.size) y.frame).1)
    (hfits : 4 * y.frame.length ≤ y.size) (h4 : y.size % 4 = 0) (hpos : 0 < y.size) :
    StackOk y ↔ ¬ (pc.watermark = true ∧ y.size = 4 * y.frame.length) ∧
      y.stackPoint = y.base + y.size - 4 * y.frame.length := by
  have hinside := @createStack_inside_iff pc n y.size y.base y.frame hfits h4 hpos
  constructor
  · intro h
    exact ⟨hinside.mp (hwrites ▸ h.inside), h.stackPoint⟩
  · intro ⟨hroom, hsp⟩
    refine ⟨hwrites ▸ hinside.mpr hroom, fun m k hk => ?_, hsp⟩
    rw [hwrites]
    exact pc.createStack_intact m hk

/-! ### The index and the address of the next stack -/

/-- The next static stack begins where it did. -/
structure SameStacks (s t : Kernel cfg) : Prop where
  index : t.iStackAddress = s.iStackAddress
  address : t.stackAddress = s.stackAddress

namespace SameStacks

theorem trans (h : SameStacks s t) (h' : SameStacks t u) : SameStacks s u :=
  ⟨h'.index.trans h.index, h'.address.trans h.address⟩

theorem takeCeiling (s : Kernel cfg) (m p : Nat) : SameStacks s (s.takeCeiling m p) := by
  obtain ⟨ready, pv, ctx, mt, ht⟩ := takeCeiling_eq s m p
  rw [ht]
  exact ⟨rfl, rfl⟩

theorem giveUp (s : Kernel cfg) (m : Nat) : SameStacks s (s.giveUp m) := by
  obtain ⟨ready, ctx, hr⟩ := restorePriority_eq s m
  rw [Kernel.giveUp, hr]
  exact ⟨rfl, rfl⟩

theorem freeMutex (s : Kernel cfg) (m : Nat) : SameStacks s (s.freeMutex m) := by
  obtain ⟨pv, mt, hf⟩ := freeMutex_eq s m
  rw [hf]
  exact ⟨rfl, rfl⟩

theorem handOff (s : Kernel cfg) (m : Nat) : SameStacks s (s.handOff m) := ⟨rfl, rfl⟩

theorem effect {c : Call} {oc : Outcome} (he : Effect rule s c u oc)
    (hc : ∀ isIdle bytes p, c ≠ .installTask isIdle bytes p) : SameStacks s u := by
  cases he with
  | installFailed => exact absurd rfl (hc _ _ _)
  | installed => exact absurd rfl (hc _ _ _)
  | delayed =>
      rw [SuspendInv.startDelay_eq]
      exact ⟨rfl, rfl⟩
  | waited =>
      rw [SuspendInv.waitEvent_eq]
      exact ⟨rfl, rfl⟩
  | queueSelected =>
      rw [SuspendInv.wakeWaiter_eq]
      exact ⟨rfl, rfl⟩
  | uninstalledDelayed =>
      unfold clearTcb
      split <;> exact ⟨rfl, rfl⟩
  | mutexCreated =>
      dsimp only [setMutex, allocEvent, setEvent]
      split <;> exact ⟨rfl, rfl⟩
  | acquired =>
      rename_i m tw _ _ _ _
      obtain ⟨hi, ha⟩ := takeCeiling (s.setMutex m fun c =>
        { c with osEventState := .busyResource, osEventOwner := s.currentTask }) m
        (s.prio s.currentTask)
      exact ⟨hi, ha⟩
  | released =>
      rename_i m _ _ _ _ _
      obtain ⟨hi, ha⟩ := (giveUp s m).trans (freeMutex (s.giveUp m) m)
      exact ⟨hi, ha⟩
  | handedOff =>
      rename_i m _ _ _ _ _
      exact (giveUp s m).trans (handOff (s.giveUp m) m)
  | _ => exact ⟨rfl, rfl⟩

/-- Only an install moves on in `STACK`. -/
theorem move (hk : KernelInv s) {a : Action} {o : Obs} (hm : Move rule s a t o)
    (ha : ∀ isIdle bytes p, a ≠ .call (.installTask isIdle bytes p)) (hs : a ≠ .brtosStart) :
    SameStacks s t := by
  cases hm with
  | returned _ he => exact effect he fun _ _ _ h => ha _ _ _ (by rw [h])
  | switched _ he =>
      obtain ⟨hi, ha⟩ := effect he fun _ _ _ h => ha _ _ _ (by rw [h])
      exact ⟨hi, ha⟩
  | suspended _ he =>
      obtain ⟨hi, ha⟩ := effect he fun _ _ _ h => ha _ _ _ (by rw [h])
      exact ⟨hi, ha⟩
  | startFailed => exact absurd rfl hs
  | started => exact absurd rfl hs
  | tick hnest ht =>
      obtain ⟨xs, hsi⟩ := hk.suspend
      obtain ⟨-, htick⟩ := tick_context hk hsi ht
      rw [htick.same]
      exact ⟨rfl, rfl⟩
  | woken =>
      rename_i ev p tw _ _ _ _
      obtain ⟨ctx, dl, ops, heq, -⟩ := cancelTimeout_eq s tw
      rw [heq]
      cases ev with
      | mutex m =>
          obtain ⟨hi, ha⟩ := takeCeiling
            { s with contextTask := ctx, delayList := dl, delayOps := ops } m p
          exact ⟨hi, ha⟩
      | _ => exact ⟨rfl, rfl⟩
  | _ => exact ⟨rfl, rfl⟩

end SameStacks

/-- An install leaves both as they were or moves both on by the size of the stack. -/
theorem osInstallTask_stacks {isIdle : Bool} {bytes p : Nat} {r : Ret}
    (h : s.osInstallTask isIdle bytes p = (t, r)) :
    SameStacks s t ∨ ∃ n, s.iStackAddress + n ≤ cfg.heapSize / cfg.sizeofCpuType ∧
      t.iStackAddress = (s.iStackAddress + n) % 65536 ∧
      t.stackAddress = s.stackAddress + cfg.sizeofCpuType * n := by
  unfold osInstallTask at h
  split at h
  · -- the stack comes from the allocator
    left
    unfold osInstallTaskDynamic at h
    dsimp only at h
    repeat' split at h
    all_goals
      cases h
      exact ⟨rfl, rfl⟩
  · unfold osInstallTaskStatic at h
    dsimp only at h
    split at h
    · cases h
      exact .inl ⟨rfl, rfl⟩
    split at h
    · cases h
      exact .inl ⟨rfl, rfl⟩
    rename_i hheap
    split at h
    · cases h
      exact .inl ⟨rfl, rfl⟩
    split at h
    · cases h
      exact .inl ⟨rfl, rfl⟩
    · cases h
      refine .inr ⟨_, not_lt.mp hheap, rfl, ?_⟩
      have hdvd : cfg.sizeofCpuType ∣ bytes - bytes % cfg.sizeofCpuType := Nat.dvd_sub_mod bytes
      exact congrArg (s.stackAddress + ·) (Nat.mul_div_cancel' hdvd).symm

/-- The index and the address of the next stack denote one place. -/
structure StackPlace (s : Kernel cfg) : Prop where
  address : s.stackAddress = cfg.sizeofCpuType * s.iStackAddress
  fits : s.iStackAddress ≤ cfg.heapSize / cfg.sizeofCpuType

namespace StackPlace

theorem same (hs : StackPlace s) (h : SameStacks s t) : StackPlace t :=
  ⟨by rw [h.address, h.index, hs.address], by rw [h.index]; exact hs.fits⟩

theorem install (hs : StackPlace s) (hheap : cfg.heapSize / cfg.sizeofCpuType < 65536)
    {isIdle : Bool} {bytes p : Nat} {r : Ret} (h : s.osInstallTask isIdle bytes p = (t, r)) :
    StackPlace t := by
  rcases osInstallTask_stacks h with h | ⟨n, hn, hi, ha⟩
  · exact hs.same h
  · -- the index has room for its new value
    rw [Nat.mod_eq_of_lt (by omega)] at hi
    exact ⟨by rw [ha, hi, hs.address, Nat.mul_add], by rw [hi]; exact hn⟩

theorem step (hk : KernelInv s) (hs : StackPlace s)
    (hheap : cfg.heapSize / cfg.sizeofCpuType < 65536) {a : Action} {o : Obs}
    (hd : Disciplined NestedRelease s a) (hstep : s.step a = some (t, o)) : StackPlace t := by
  by_cases hinst : ∃ isIdle bytes p, a = .call (.installTask isIdle bytes p)
  · obtain ⟨isIdle, bytes, p, rfl⟩ := hinst
    obtain ⟨-, u, oc, hex, ho⟩ := step_call_inv hstep
    cases hex
    have hu := @install _ s _ hs hheap isIdle bytes p _ rfl
    rcases ho with ⟨r, -, rfl, -⟩ | ⟨h, -, rfl, -⟩
    · exact hu
    · exact hu.same ⟨rfl, rfl⟩
  by_cases hstart : a = .brtosStart
  · subst hstart
    simp only [Kernel.step, Kernel.brtosStart] at hstep
    split at hstep
    · split at hstep
      · rename_i u r hu
        obtain ⟨v, hv, hvt⟩ := Option.map_eq_some_iff.mp hstep
        obtain ⟨h, -, rfl⟩ := changeContext_inv hv
        cases hvt
        exact (hs.install hheap hu).same ⟨rfl, rfl⟩
      · rename_i hu
        cases hstep
        exact hs.install hheap hu
    · cases hstep
  · refine hs.same (SameStacks.move hk (hk.move hd hstep) ?_ hstart)
    intro isIdle bytes p ha
    exact hinst ⟨isIdle, bytes, p, ha⟩

/-- The run lemma. -/
theorem run {tr : Trace} (hr : RunFromInit (Disciplined NestedRelease) tr s)
    (hheap : cfg.heapSize / cfg.sizeofCpuType < 65536) : StackPlace s := by
  have hrun : KernelInv s ∧ StackPlace s := by
    have hinit : StackPlace (Kernel.init cfg) := ⟨rfl, Nat.zero_le _⟩
    refine hr.invariant (P := fun s => KernelInv s ∧ StackPlace s) ⟨init_inv, hinit⟩ ?_
    intro t a u o ⟨hk, hs⟩ hd hstep
    exact ⟨step_inv hk hd hstep, hs.step hk hheap hd hstep⟩
  exact hrun.2

end StackPlace

/-! ### The new stack -/

/-- **The first stack of a task**: an install that succeeds initialises it as it should
exactly when there is a word left for the watermark or no watermark at all, and, for a
static task, when index and address of the next stack denote one place; they do in every
run, as long as `STACK` has no more words than the index can count. -/
theorem stack_init_iff {s t : Kernel pc.toConfig} {isIdle : Bool} {bytes p h : Nat}
    (stack : Int) (x : CortexM4.Entry)
    (hok : s.osInstallTask isIdle bytes p = (t, ⟨.ok, .handle h⟩)) :
    ∃ y, s.newStack stack x bytes = some y ∧
      (StackOk y ↔
        ¬ (pc.watermark = true ∧ bytes - bytes % 4 = pc.numberMinOfStackedBytes) ∧
        (pc.dynamicTasksEnabled = false → s.stackAddress = 4 * s.iStackAddress)) ∧
      (∀ tr, RunFromInit (Disciplined NestedRelease) tr s → pc.heapSize / 4 < 65536 →
        s.stackAddress = 4 * s.iStackAddress) := by
  have h4 := pc.sizeofCpuType_eq
  have hrun : ∀ tr, RunFromInit (Disciplined NestedRelease) tr s → pc.heapSize / 4 < 65536 →
      s.stackAddress = 4 * s.iStackAddress := by
    intro tr hr hheap
    rw [← h4] at hheap ⊢
    exact (StackPlace.run hr hheap).address
  obtain ⟨hmin, hal⟩ : s.StackFits bytes := by
    rcases osInstallTask_inv hok with ⟨herr, -⟩ | ⟨_, _, _, _, _, _, -, -, hfit, -, -⟩
    · cases herr
    · exact hfit
  have hpos : 0 < pc.numberMinOfStackedBytes := by
    rw [pc.numberMinOfStackedBytes_eq]
    split <;> decide
  have hmod : (bytes - bytes % 4) % 4 = 0 := by omega
  unfold newStack
  rw [h4] at hmin hal ⊢
  dsimp only
  split
  · -- the region comes from the allocator, `StackPoint` from `CreateDVirtualStack`
    rename_i hdyn
    rw [if_pos hdyn] at hal
    obtain ⟨stk, hstk⟩ := Option.ne_none_iff_exists'.mp hal
    refine ⟨_, by rw [hstk]; rfl, ?_, hrun⟩
    rw [pc.stackOk_iff rfl (by rw [pc.length_frame]; exact hmin) hmod (by dsimp only; omega)]
    simp only [pc.length_frame, hdyn, Bool.true_eq_false, false_implies, and_true]
    exact and_iff_left rfl
  · -- the region is found by the index, `StackPoint` by the address
    rename_i hstatic
    refine ⟨_, rfl, ?_, hrun⟩
    rw [pc.stackOk_iff (n := (s.numberOfInstalledTasks + 1) % 256) ?_
      (by rw [pc.length_frame]; exact hmin) hmod (by dsimp only; omega)]
    · simp only [pc.length_frame, eq_false_of_ne_true hstatic, true_implies]
      refine and_congr_right fun _ => ?_
      have hcast : ((bytes - bytes % 4 - pc.numberMinOfStackedBytes : Nat) : Int) =
          (bytes - bytes % 4 : Nat) - pc.numberMinOfStackedBytes := Int.ofNat_sub hmin
      have hlen := pc.length_frame x (UInt32.ofNat ((bytes - bytes % 4) / 10))
      rw [hcast, ← hlen]
      omega
    · -- the top of the stack, as `STACK[iStackAddress + ...]`
      have htop : stack + 4 * ((s.iStackAddress + (bytes - bytes % 4) / 4 : Nat) : Int) =
          stack + 4 * s.iStackAddress + (bytes - bytes % 4 : Nat) := by omega
      unfold CortexM4.createVirtualStack
      rw [htop]

/-- Dynamic tasks, without the FPU. -/
def CortexM4.exampleBuild (watermark : Bool) : CortexM4 where
  toConfig := Config.exampleConfig
  fpuSupport := false
  watermark := watermark
  taskWithParameters := true
  sizeofCpuType_eq := rfl
  numberMinOfStackedBytes_eq := rfl

/-- The first install, with a watermark: its stack is not a word too short. -/
theorem stack_init_iff_256 :
    ∃ y, (Kernel.init (CortexM4.exampleBuild true).toConfig).newStack 0 ⟨0x1001, 0⟩ 256 = some y ∧
      StackOk y := by
  have hok : (Kernel.init (CortexM4.exampleBuild true).toConfig).osInstallTask false 256 5 =
      (((Kernel.init (CortexM4.exampleBuild true).toConfig).osInstallTask false 256 5).1,
        ⟨.ok, .handle 1⟩) := by rfl
  obtain ⟨y, hy, hiff, -⟩ := stack_init_iff 0 ⟨0x1001, 0⟩ hok
  exact ⟨y, hy, hiff.mpr ⟨by decide, fun h => by cases h⟩⟩

/-- **The fill writes below the stack**: `NUMBER_MIN_OF_STACKED_BYTES` is accepted, and with a
watermark the word below a stack of that size is overwritten. -/
theorem watermark_below_stack :
    ∃ y, (Kernel.init (CortexM4.exampleBuild true).toConfig).newStack 0 ⟨0x1001, 0⟩ 64 = some y ∧
      ((Kernel.init (CortexM4.exampleBuild true).toConfig).osInstallTask false 64 5).2 =
        ⟨.ok, .handle 1⟩ ∧
      (y.base - 4, 0x24242424) ∈ y.writes ∧ ¬ StackOk y := by
  have hbelow : ∀ y : NewStack, (y.base - 4, 0x24242424) ∈ y.writes → ¬ StackOk y := by
    intro y hy hok
    have hlow := (hok.inside _ hy).1
    dsimp only at hlow
    omega
  refine ⟨_, rfl, by rfl, ?_, hbelow _ ?_⟩
  all_goals exact @CortexM4.below_frame_mem (CortexM4.exampleBuild true) _ _ _ _ rfl

end Brtos
