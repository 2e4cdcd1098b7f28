import Brtos.Properties.Counter

/-!
# Brtos.LwIP.SysArch

The waits of the **lwIP port**: `sys_arch_sem_wait` and `sys_arch_mbox_fetch`, which are the
same in the `sys_arch.c` of both ports.

Both read the tick counter, pend, read the counter again and return how far it got. With a
timeout they pend once, without one they pend for 10000 ticks at a time until a pend
succeeds. They differ in the call they make and in what it brings, so they are two values
of one structure, `SysArchWait`, and `stepWait` is the function as one party of the machine:
between two of its own steps anything may happen that is not done by the same task.

The counter readings are right for a wait of one tick or more, across the wrap. A wait
within one tick comes out as a whole period, since equal readings are taken for a wrap.
-/

namespace Brtos

open Kernel

/-! ### The functions -/

/-- `SYS_ARCH_TIMEOUT`. -/
def sysArchTimeout : UInt32 := 0xffffffff

/-- `Elapsed`, by the lines that stand in four places. -/
def elapsed (tickCountOverflow startTime endTime : UInt16) : UInt16 :=
  let elapsed :=
    if endTime > startTime then endTime - startTime
    else (tickCountOverflow - startTime) + endTime
  if elapsed = 0 then 1 else elapsed

/-- The `time_wait` of the pend. A timeout is cut to an `ostick_t`. -/
def timeWait (timeout : UInt32) : UInt16 := if timeout ≠ 0 then timeout.toUInt16 else 10000

/-- What a pend shows: that it has suspended its caller, or that it returns 0, with what it
brings, or that it returns another code. -/
inductive Pended (μ : Type)
  | suspended
  | success (msg : μ)
  | failure

/-- Where the function is: before a pend, in it, before the second reading, or at its
end. -/
inductive WaitPc (μ : Type)
  | pend (startTime : UInt16)
  | waiting (startTime : UInt16)
  | succeeded (startTime : UInt16) (msg : μ)
  | returned (r : UInt32) (msg : μ)
  deriving DecidableEq, Repr

/-- The function's next step, or an action of the machine that is not the function's. -/
inductive WaitAction (α : Type)
  | own
  | other (a : α)
  deriving DecidableEq, Repr

/-- One of the functions, called by `task`, over a machine. -/
structure SysArchWait (σ α ο μ : Type) where
  /-- A step of the machine. -/
  step : σ → α → Option (σ × ο)
  osTickCounter : σ → Nat
  tickCountOverflow : Nat
  /-- The action that counts. -/
  tick : α
  task : Nat
  /-- The task that does what is observed. -/
  taskOf : ο → Option Nat
  /-- `OSSemPend` or `OSDQueuePend`. -/
  pend : UInt16 → α
  resume : α
  pended : ο → Option (Pended μ)
  /-- `*msg` after a timeout. -/
  null : μ

namespace SysArchWait

variable {σ α ο μ : Type} (w : SysArchWait σ α ο μ) (timeout : UInt32)

/-- `OSGetTickCount`, in an `INT16U`. -/
def osGetTickCount (s : σ) : UInt16 := .ofNat (w.osTickCounter s)

/-- The function reads `StartTime`. -/
def start (s : σ) : σ × WaitPc μ := (s, .pend (w.osGetTickCount s))

/-- Where a pend leads. A pend that fails is made again if there is no timeout. -/
def next (startTime : UInt16) : Pended μ → WaitPc μ
  | .suspended => .waiting startTime
  | .success msg => .succeeded startTime msg
  | .failure => if timeout ≠ 0 then .returned sysArchTimeout w.null else .pend startTime

/-- The function begins a pend, or goes on with it. -/
def stepPend (startTime : UInt16) (s : σ) (a : α) : Option ((σ × WaitPc μ) × Option ο) :=
  (w.step s a).bind fun (t, o) =>
    if w.taskOf o = some w.task then
      (w.pended o).map fun p => ((t, w.next timeout startTime p), some o)
    else none

/-- A step of the function. -/
def stepOwn : σ × WaitPc μ → Option ((σ × WaitPc μ) × Option ο)
  | (s, .pend startTime) => w.stepPend timeout startTime s (w.pend (timeWait timeout))
  | (s, .waiting startTime) => w.stepPend timeout startTime s w.resume
  | (s, .succeeded startTime msg) =>
    let endTime := w.osGetTickCount s
    some ((s, .returned (elapsed (.ofNat w.tickCountOverflow) startTime endTime).toUInt32 msg), none)
  | (_, .returned ..) => none

/-- A step of the machine that is not the function's, while the function runs. -/
def stepOther (a : α) : σ × WaitPc μ → Option ((σ × WaitPc μ) × Option ο)
  | (_, .returned ..) => none
  | (s, pc) =>
    (w.step s a).bind fun (t, o) =>
      if w.taskOf o = some w.task then none else some ((t, pc), some o)

/-- The function and the machine it runs on. -/
def stepWait (x : σ × WaitPc μ) : WaitAction α → Option ((σ × WaitPc μ) × Option ο)
  | .own => w.stepOwn timeout x
  | .other a => w.stepOther a x

/-- The ticks of a trace. -/
def ticks [DecidableEq α] (tr : List (WaitAction α × Option ο)) : Nat :=
  tr.countP fun x => x.1 = .other w.tick

end SysArchWait

/-- The return codes that are 0 in `BRTOS.h`. -/
def RetCode.isZero : RetCode → Bool
  | .ok | .allocEventOk | .readBufferOk | .writeBufferOk => true
  | _ => false

def Obs.task : Obs → Option Nat
  | .returned task _ _ => some task
  | .suspended task _ => some task
  | .silent => none

def DObs.task : DObs → Option Nat
  | .kernel o => o.task
  | .returned task _ _ => some task
  | .suspended task _ => some task
  | .resumed task _ => some task

/-- `sys_arch_sem_wait`. -/
def sysArchSemWait (cfg : Config) (task : Nat) (sem : Option Nat) :
    SysArchWait (Kernel cfg) Action Obs Unit where
  step := Kernel.step
  osTickCounter := Kernel.osTickCounter
  tickCountOverflow := cfg.tickCountOverflow
  tick := .tick
  task := task
  taskOf := Obs.task
  pend timeWait := .call (.semPend sem timeWait.toNat)
  resume := .resume
  pended
    | .returned _ _ r => some (if r.code.isZero then .success () else .failure)
    | .suspended .. => some .suspended
    | .silent => none
  null := ()

/-- What a return of `OSDQueuePend` says. -/
def DRet.pended (r : DRet) : Pended (Option (List UInt8)) :=
  if r.code.isZero then
    match r.out with
    | .message data => .success (some data)
    | _ => .success none
  else .failure

/-- `sys_arch_mbox_fetch`. A message is what is written through `msg`, or through
`dummyptr` where the caller passes a null pointer; `none` is `NULL`. -/
def sysArchMboxFetch (dc : DQueueConfig) (task : Nat) (mbox : Option Nat) :
    SysArchWait (DKernel dc) DAction DObs (Option (List UInt8)) where
  step := DKernel.step
  osTickCounter s := s.kernel.osTickCounter
  tickCountOverflow := dc.tickCountOverflow
  tick := .kernel .tick
  task := task
  taskOf := DObs.task
  pend timeWait := .call (.pend mbox timeWait.toNat)
  resume := .resume
  pended
    | .returned _ _ r | .resumed _ r => some r.pended
    | .suspended .. => some .suspended
    | .kernel _ => none
  null := none

/-! ### The counter readings -/

/-- From the readings at a tick and `e` ticks later. -/
theorem elapsed_toNat {overflow start e : Nat} (ho : overflow < 65536) (hs : start < overflow)
    (he : e < overflow) :
    (elapsed (.ofNat overflow) (.ofNat start) (.ofNat ((start + e) % overflow))).toNat =
      if e = 0 then overflow else e := by
  have hend := Nat.mod_lt (start + e) (by omega : 0 < overflow)
  have hmod : (start + e) % overflow =
      if start + e < overflow then start + e else start + e - overflow := by
    split
    · exact Nat.mod_eq_of_lt ‹_›
    · rw [Nat.mod_eq_sub_mod (by omega), Nat.mod_eq_of_lt (by omega)]
  have hstart : (UInt16.ofNat start).toNat = start := UInt16.toNat_ofNat_of_lt' (hs.trans ho)
  have hover : (UInt16.ofNat overflow).toNat = overflow := UInt16.toNat_ofNat_of_lt' ho
  have hlast : (UInt16.ofNat ((start + e) % overflow)).toNat = (start + e) % overflow :=
    UInt16.toNat_ofNat_of_lt' (hend.trans ho)
  unfold elapsed
  simp only [gt_iff_lt, UInt16.lt_iff_toNat_lt, ← UInt16.toNat_inj, hstart, hlast]
  have hwrap : (UInt16.ofNat overflow - UInt16.ofNat start).toNat = overflow - start := by
    rw [UInt16.toNat_sub_of_le _ _ (by rw [UInt16.le_iff_toNat_le]; omega), hover, hstart]
  by_cases hlt : start < (start + e) % overflow
  · have hdiff : (UInt16.ofNat ((start + e) % overflow) - UInt16.ofNat start).toNat = e := by
      rw [UInt16.toNat_sub_of_le _ _ (by rw [UInt16.le_iff_toNat_le]; omega), hlast, hstart]
      split at hmod <;> omega
    have hne : e ≠ 0 := by
      split at hmod <;> omega
    rw [if_pos hlt, if_neg (by rw [hdiff]; exact hne), hdiff, if_neg hne]
  · have hsum : (UInt16.ofNat overflow - UInt16.ofNat start +
        UInt16.ofNat ((start + e) % overflow)).toNat = if e = 0 then overflow else e := by
      rw [UInt16.toNat_add, hwrap, hlast]
      split at hmod <;> split <;> omega
    rw [if_neg hlt, if_neg, hsum]
    rw [hsum]
    show ¬ _ = 0
    split <;> omega

namespace SysArchWait

variable {σ α ο μ : Type} {w : SysArchWait σ α ο μ} {timeout : UInt32} {s t : σ}
  {pc : WaitPc μ}

/-- The machine counts its ticks, and a pend is none. -/
structure Counting [DecidableEq α] (w : SysArchWait σ α ο μ) : Prop where
  step {s t : σ} {a : α} {o : ο} : w.osTickCounter s < w.tickCountOverflow →
    w.step s a = some (t, o) → w.osTickCounter t =
      (w.osTickCounter s + if a = w.tick then 1 else 0) % w.tickCountOverflow
  pend (timeWait : UInt16) : w.pend timeWait ≠ w.tick
  resume : w.resume ≠ w.tick

/-- Where the function can be when it has read `startTime`: it keeps the reading, and its
result is the timeout's or the difference to the last reading. -/
def StartedAt (w : SysArchWait σ α ο μ) (startTime : UInt16) (t : σ) : WaitPc μ → Prop
  | .pend first | .waiting first | .succeeded first _ => first = startTime
  | .returned r _ => r = sysArchTimeout ∨
      r = (elapsed (.ofNat w.tickCountOverflow) startTime (w.osGetTickCount t)).toUInt32

theorem startedAt_next (startTime : UInt16) (t : σ) (p : Pended μ) :
    w.StartedAt startTime t (w.next timeout startTime p) := by
  cases p with
  | suspended => rfl
  | success => rfl
  | failure =>
      by_cases h : timeout ≠ 0
      · rw [show w.next timeout startTime .failure = .returned sysArchTimeout w.null from if_pos h]
        exact Or.inl rfl
      · rw [show w.next timeout startTime .failure = .pend startTime from if_neg h]
        rfl

theorem stepPend_inv {first : UInt16} {a : α} {x : σ × WaitPc μ} {o : Option ο}
    (h : w.stepPend timeout first s a = some (x, o)) :
    ∃ o' p, w.step s a = some (x.1, o') ∧ w.taskOf o' = some w.task ∧ w.pended o' = some p ∧
      x.2 = w.next timeout first p := by
  obtain ⟨⟨t, o'⟩, hs, h⟩ := Option.bind_eq_some_iff.mp h
  dsimp only at h
  split at h
  · obtain ⟨p, hp, hx⟩ := Option.map_eq_some_iff.mp h
    cases hx
    exact ⟨o', p, hs, ‹_›, hp, rfl⟩
  · cases h

/-- What a step can be: the second reading, a part of a pend, or something else. -/
theorem stepWait_inv {x y : σ × WaitPc μ} {a : WaitAction α} {o : Option ο}
    (h : w.stepWait timeout x a = some (y, o)) :
    (∃ first msg, a = .own ∧ x.2 = .succeeded first msg ∧ y.1 = x.1 ∧
      y.2 = .returned
        (elapsed (.ofNat w.tickCountOverflow) first (w.osGetTickCount x.1)).toUInt32 msg) ∨
    (∃ first b o' p, a = .own ∧
      ((x.2 = .pend first ∧ b = w.pend (timeWait timeout)) ∨ (x.2 = .waiting first ∧ b = w.resume)) ∧
      w.step x.1 b = some (y.1, o') ∧ w.taskOf o' = some w.task ∧ w.pended o' = some p ∧
      y.2 = w.next timeout first p) ∨
    ∃ b o', a = .other b ∧ (∀ r msg, x.2 ≠ .returned r msg) ∧ w.step x.1 b = some (y.1, o') ∧
      y.2 = x.2 := by
  obtain ⟨s, pc⟩ := x
  cases a with
  | own =>
      cases pc with
      | pend first =>
          obtain ⟨o', p, hs, ht, hp, hy⟩ := stepPend_inv h
          exact Or.inr (Or.inl ⟨first, _, o', p, rfl, Or.inl ⟨rfl, rfl⟩, hs, ht, hp, hy⟩)
      | waiting first =>
          obtain ⟨o', p, hs, ht, hp, hy⟩ := stepPend_inv h
          exact Or.inr (Or.inl ⟨first, _, o', p, rfl, Or.inr ⟨rfl, rfl⟩, hs, ht, hp, hy⟩)
      | succeeded first msg =>
          cases h
          exact Or.inl ⟨first, msg, rfl, rfl, rfl, rfl⟩
      | returned r msg => cases h
  | other b =>
      have hrun : ∀ r msg, pc ≠ .returned r msg := by
        rintro r msg rfl
        cases h
      obtain ⟨⟨t, o'⟩, hs, h⟩ : ∃ z, w.step s b = some z ∧
          (if w.taskOf z.2 = some w.task then none else some ((z.1, pc), some z.2)) =
            some (y, o) := by
        cases pc with
        | returned r msg => cases h
        | _ => exact Option.bind_eq_some_iff.mp h
      dsimp only at h
      split at h
      · cases h
      · cases h
        exact Or.inr (Or.inr ⟨b, o', rfl, hrun, hs, rfl⟩)

/-- A step keeps the first reading. -/
theorem StartedAt.step {startTime : UInt16} {x y : σ × WaitPc μ} {a : WaitAction α} {o : Option ο}
    (hx : w.StartedAt startTime x.1 x.2) (h : w.stepWait timeout x a = some (y, o)) :
    w.StartedAt startTime y.1 y.2 := by
  rcases stepWait_inv h with ⟨first, msg, -, hpc, hs, hy⟩ | ⟨first, b, o', p, -, hb, -, -, -, hy⟩ |
    ⟨b, o', -, hrun, -, hy⟩
  · rw [hpc] at hx
    obtain rfl : first = startTime := hx
    rw [hs, hy]
    exact Or.inr rfl
  · obtain rfl : first = startTime := by
      rcases hb with ⟨hpc, -⟩ | ⟨hpc, -⟩
      all_goals
        rw [hpc] at hx
        exact hx
    rw [hy]
    exact startedAt_next _ _ _
  · rw [hy]
    cases hpc : x.2 with
    | returned r msg => exact absurd hpc (hrun r msg)
    | _ =>
        rw [hpc] at hx
        exact hx

variable [DecidableEq α]

/-- A step of the function, and any other step that is no tick, leaves the counter alone. -/
theorem stepWait_counter (hw : w.Counting) {x y : σ × WaitPc μ} {a : WaitAction α} {o : Option ο}
    (hlt : w.osTickCounter x.1 < w.tickCountOverflow) (h : w.stepWait timeout x a = some (y, o)) :
    w.osTickCounter y.1 =
      (w.osTickCounter x.1 + if a = .other w.tick then 1 else 0) % w.tickCountOverflow := by
  rcases stepWait_inv h with ⟨first, msg, rfl, -, hs, -⟩ | ⟨first, b, o', p, rfl, hb, hs, -⟩ |
    ⟨b, o', rfl, -, hs, -⟩
  · rw [hs]
    exact (Nat.mod_eq_of_lt hlt).symm
  · have hne : b ≠ w.tick := by
      rcases hb with ⟨-, rfl⟩ | ⟨-, rfl⟩
      · exact hw.pend _
      · exact hw.resume
    rw [hw.step hlt hs, if_neg hne, if_neg nofun]
  · rw [hw.step hlt hs]
    by_cases hb : b = w.tick
    · rw [if_pos hb, if_pos (by rw [hb])]
    · rw [if_neg hb, if_neg fun hc => hb (WaitAction.other.inj hc)]

/-- Called in state `s`, the function returns `r` for a pend that has succeeded, `e` ticks
after its first reading. -/
def Returns (w : SysArchWait σ α ο μ) (timeout : UInt32) (s : σ) (e : Nat) (r : UInt32) : Prop :=
  ∃ tr t msg, Run (w.stepWait timeout) (fun _ _ => True) (w.start s) tr (t, .returned r msg) ∧
    r ≠ sysArchTimeout ∧ w.ticks tr = e

theorem Returns.of_script (as : List (WaitAction α)) (msg : μ) {e : Nat} {r : UInt32}
    (hrun : Run.admits (w.stepWait timeout) (fun _ _ => True) (w.start s) as = true)
    (hpc : (Run.after (w.stepWait timeout) (w.start s) as).2 = .returned r msg)
    (hsucc : r ≠ sysArchTimeout)
    (he : w.ticks (Run.traceOf (w.stepWait timeout) (w.start s) as) = e) :
    w.Returns timeout s e r := by
  refine ⟨_, (Run.after (w.stepWait timeout) (w.start s) as).1, msg, ?_, hsucc, he⟩
  rw [← hpc]
  exact Run.of_admits hrun

/-- What the function returns after a wait of less than a period. -/
theorem Returns.toNat_eq (hw : w.Counting) (hover : w.tickCountOverflow < 65536)
    (hlt : w.osTickCounter s < w.tickCountOverflow) {e : Nat} {r : UInt32}
    (hr : w.Returns timeout s e r) (he : e < w.tickCountOverflow) :
    r.toNat = if e = 0 then w.tickCountOverflow else e := by
  obtain ⟨tr, t, msg, hr, hsucc, rfl⟩ := hr
  have hcount : w.osTickCounter t =
      (w.osTickCounter s + w.ticks tr) % w.tickCountOverflow :=
    hr.countP_mod (f := fun x => w.osTickCounter x.1) hlt fun _ _ _ _ hlt hs =>
      stepWait_counter hw hlt hs
  have hstart : w.StartedAt (w.osGetTickCount s) (w.start s).1 (w.start s).2 :=
    Eq.refl (w.osGetTickCount s)
  have hstep : ∀ x a y o, w.StartedAt (w.osGetTickCount s) x.1 x.2 → True →
      w.stepWait timeout x a = some (y, o) → w.StartedAt (w.osGetTickCount s) y.1 y.2 :=
    fun _ _ _ _ hx _ hs => hx.step hs
  have hkeeps := hr.invariant (P := fun x => w.StartedAt (w.osGetTickCount s) x.1 x.2) hstart hstep
  have hpc : w.StartedAt (w.osGetTickCount s) t (.returned r msg) := hkeeps
  rw [hpc.resolve_left hsucc, UInt16.toNat_toUInt32]
  unfold osGetTickCount
  rw [hcount]
  exact elapsed_toNat hover hlt he

/-- It is the number of ticks, but for a wait within one tick. -/
theorem Returns.eq_max_iff (hw : w.Counting) (hover : w.tickCountOverflow < 65536)
    (hone : 1 < w.tickCountOverflow) (hlt : w.osTickCounter s < w.tickCountOverflow) {e : Nat}
    {r : UInt32} (hr : w.Returns timeout s e r) (he : e < w.tickCountOverflow) :
    r.toNat = max 1 e ↔ e ≠ 0 := by
  rw [hr.toNat_eq hw hover hlt he]
  split <;> omega

end SysArchWait

/-! ### The pends -/

section Pend

variable {cfg : Config} {dc : DQueueConfig}

/-- The pend that has led from `s` to `t` has put its caller into the delay list, with a
deadline that comes. -/
structure Kernel.WaitsAwhile (s t : Kernel cfg) : Prop where
  included : t.delayOps = .pushBack s.currentTask :: s.delayOps
  again : s.TakesAgain (t.ttw s.currentTask)

/-- A `time_wait` that is a number of ticks to wait, from tick `count`. -/
structure Waitable (cfg : Config) (count timeWait : Nat) : Prop where
  ne_zero : timeWait ≠ 0
  ne_noTimeout : timeWait ≠ cfg.noTimeout
  lt : count + timeWait < 2 * cfg.tickCountOverflow

instance (count timeWait : Nat) : Decidable (Waitable cfg count timeWait) :=
  decidable_of_iff
    (timeWait ≠ 0 ∧ timeWait ≠ cfg.noTimeout ∧ count + timeWait < 2 * cfg.tickCountOverflow)
    ⟨fun ⟨h0, hno, hlt⟩ => ⟨h0, hno, hlt⟩, fun ⟨h0, hno, hlt⟩ => ⟨h0, hno, hlt⟩⟩

theorem takesAgain_deadline_iff {s : Kernel cfg} {timeWait : Nat}
    (hc : s.osTickCounter < cfg.tickCountOverflow) (hw : timeWait < 2 ^ cfg.tickBits) :
    s.TakesAgain (deadline cfg s.osTickCounter timeWait) ↔
      s.osTickCounter + timeWait < 2 * cfg.tickCountOverflow := by
  refine ⟨?_, fun h => ((deadlineOk_iff hc hw).mpr h).again⟩
  rintro ⟨n, -, hn⟩
  have hlt : deadline cfg s.osTickCounter timeWait < cfg.tickCountOverflow := by
    rw [← hn, iterate_osIncCounter hc]
    exact Nat.mod_lt _ (by omega)
  rw [deadline_eq hc hw] at hlt
  split at hlt <;> omega

/-- A pend that suspends its caller starts a timeout that ends, unless the timeout is 0 or
the deadline no count. -/
theorem waitsAwhile_iff {s t : Kernel cfg} {timeWait : Nat}
    (hc : s.osTickCounter < cfg.tickCountOverflow) (hw : timeWait < 2 ^ cfg.tickBits)
    (hops : t.delayOps = (s.startTimeout timeWait).delayOps)
    (httw : t.ttw s.currentTask = (s.startTimeout timeWait).ttw s.currentTask) :
    s.WaitsAwhile t ↔ timeWait ≠ 0 ∧ s.osTickCounter + timeWait < 2 * cfg.tickCountOverflow := by
  by_cases h0 : timeWait = 0
  · have hsame : (s.startTimeout timeWait).delayOps = s.delayOps := by
      rw [startTimeout, if_neg (not_not.mpr h0)]
      rfl
    refine ⟨fun h => absurd ?_ (List.cons_ne_self (.pushBack s.currentTask) s.delayOps),
      fun h => absurd h0 h.1⟩
    rw [← h.included, hops, hsame]
  · have hdead : t.ttw s.currentTask = deadline cfg s.osTickCounter timeWait :=
      httw.trans (ttw_startTimeout s h0)
    rw [← takesAgain_deadline_iff hc hw, ← hdead]
    refine ⟨fun h => ⟨h0, h.again⟩, fun h => ⟨?_, h.2⟩⟩
    rw [hops, startTimeout, if_pos h0]
    rfl

/-- A pend of a task on a semaphore that has no token. -/
theorem osSemPend_of_unavailable {s : Kernel cfg} {e : Nat} (hnest : s.iNesting = 0)
    (hev : cfg.errorCheck = true → s.Allocated (.sem e)) (hun : s.Unavailable (.sem e)) (timeWait : Nat) :
    s.osSemPend (some e) timeWait = some
      (if timeWait = cfg.noTimeout then (s, .returned RetCode.exitByNoEntryAvailable.ret)
      else (s.waitEvent (.sem e) timeWait, .suspended)) := by
  have hcount : (s.semTable e).osEventCount = 0 := hun
  have hcheck : ¬ (cfg.errorCheck = true ∧ ¬ s.Allocated (.sem e)) := fun h => h.2 (hev h.1)
  simp only [osSemPend, checkPend, checkEvent, semPend, hnest, hcount, hcheck, lt_irrefl, and_false,
    if_false]

/-- A pend of a task on a dynamic queue that is empty. -/
theorem osDQueuePend_of_empty {s : DKernel dc} {e : Nat} (hnest : s.kernel.iNesting = 0)
    (hev : dc.errorCheck = true → (s.dEvent e).osEventAllocated = 1)
    (hempty : (s.dQueue (s.dEvent e).osEventPointer).osqEntries = 0) (timeWait : Nat) :
    s.osDQueuePend (some e) timeWait = some
      (if timeWait = dc.noTimeout then (s, .returned RetCode.exitByNoEntryAvailable.dret)
      else (s.waitDEvent e (s.dEvent e).osEventPointer
        (s.dQueue (s.dEvent e).osEventPointer).osqTSize timeWait, .suspended)) := by
  have hcheck : ¬ (dc.errorCheck = true ∧ (s.dEvent e).osEventAllocated ≠ 1) :=
    fun h => h.2 (hev h.1)
  simp only [DKernel.osDQueuePend, DKernel.checkDEvent, DKernel.dQueuePend, hnest, hempty, hcheck,
    lt_irrefl, and_false, if_false]
  split <;> rfl

theorem SysArchWait.next_waiting_iff {σ α ο μ : Type} (w : SysArchWait σ α ο μ)
    {timeout : UInt32} {startTime : UInt16} {p : Pended μ} :
    w.next timeout startTime p = .waiting startTime ↔ p = .suspended := by
  cases p with
  | failure =>
      by_cases h : timeout ≠ 0 <;> simp [next, h]
  | _ => simp [next]

/-- A `time_wait` is an `ostick_t` of 16 bits. -/
theorem timeWait_lt (h16 : cfg.tick = .t16) (timeout : UInt32) :
    (timeWait timeout).toNat < 2 ^ cfg.tickBits := by
  rw [Config.tickBits, h16]
  exact (timeWait timeout).toNat_lt

/-- The pend of `sys_arch_sem_wait`, where there is no token. -/
theorem sem_pend_iff (h16 : cfg.tick = .t16) {task e : Nat} {timeout : UInt32} {s : Kernel cfg}
    {startTime : UInt16} {t : Kernel cfg} {pc : WaitPc Unit} {o : Option Obs} (htask : task ≠ 0)
    (hc : s.osTickCounter < cfg.tickCountOverflow)
    (hev : cfg.errorCheck = true → s.Allocated (.sem e)) (hun : s.Unavailable (.sem e))
    (hstep : (sysArchSemWait cfg task (some e)).stepWait timeout (s, .pend startTime) .own =
      some ((t, pc), o)) :
    (pc = .waiting startTime ∧ s.WaitsAwhile t) ↔
      Waitable cfg s.osTickCounter (timeWait timeout).toNat := by
  have hw := timeWait_lt h16 timeout
  obtain ⟨o', p, hs, ht, hp, hpc⟩ := SysArchWait.stepPend_inv hstep
  obtain ⟨-, u, oc, hex, ho⟩ := step_call_inv hs
  have hcaller : s.caller = task := by
    rcases ho with ⟨r, -, -, rfl⟩ | ⟨_, -, -, ⟨r, -, rfl⟩ | ⟨-, rfl⟩⟩
    all_goals exact Option.some.inj ht
  have hnest : s.iNesting = 0 := by
    by_contra hne
    exact htask (hcaller.symm.trans (if_neg hne))
  have hpend := (osSemPend_of_unavailable hnest hev hun (timeWait timeout).toNat).symm.trans hex
  rw [show pc = _ from hpc, SysArchWait.next_waiting_iff]
  split at hpend
  · cases hpend
    rcases ho with ⟨r, hr, -, rfl⟩ | ⟨_, -, -, ⟨r, hr, -⟩ | ⟨hr, -⟩⟩
    · cases hr
      cases hp
      exact ⟨fun h => (nomatch h.1), fun h => absurd ‹_› h.ne_noTimeout⟩
    · cases hr
    · cases hr
  · rename_i hno
    cases hpend
    rcases ho with ⟨r, hr, -, -⟩ | ⟨k, -, hto, ⟨r, hr, -⟩ | ⟨-, rfl⟩⟩
    · cases hr
    · cases hr
    · cases hp
      have htime := waitEvent_timeout s (.sem e) (timeWait timeout).toNat
      have hops : t.delayOps = _ := (congrArg Kernel.delayOps hto).trans htime.1
      have httw : t.ttw s.currentTask = _ := (congrArg (·.ttw s.currentTask) hto).trans htime.2
      rw [waitsAwhile_iff hc hw hops httw]
      exact ⟨fun h => ⟨h.2.1, hno, h.2.2⟩, fun h => ⟨rfl, h.ne_zero, h.lt⟩⟩

/-- The pend of `sys_arch_mbox_fetch`, where there is no message. -/
theorem mbox_pend_iff (h16 : dc.tick = .t16) {task e : Nat} {timeout : UInt32} {s : DKernel dc}
    {startTime : UInt16} {t : DKernel dc} {pc : WaitPc (Option (List UInt8))} {o : Option DObs}
    (htask : task ≠ 0) (hc : s.kernel.osTickCounter < dc.tickCountOverflow)
    (hev : dc.errorCheck = true → (s.dEvent e).osEventAllocated = 1)
    (hempty : (s.dQueue (s.dEvent e).osEventPointer).osqEntries = 0)
    (hstep : (sysArchMboxFetch dc task (some e)).stepWait timeout (s, .pend startTime) .own =
      some ((t, pc), o)) :
    (pc = .waiting startTime ∧ s.kernel.WaitsAwhile t.kernel) ↔
      Waitable dc.toConfig s.kernel.osTickCounter (timeWait timeout).toNat := by
  have hw := timeWait_lt h16 timeout
  obtain ⟨o', p, hs, ht, hp, hpc⟩ := SysArchWait.stepPend_inv hstep
  obtain ⟨-, u, oc, hex, ho⟩ := dstep_call_inv hs
  have hcaller : s.kernel.caller = task := by
    rcases ho with ⟨r, -, -, rfl⟩ | ⟨-, ⟨r, -, rfl⟩ | ⟨-, rfl⟩⟩
    all_goals exact Option.some.inj ht
  have hnest : s.kernel.iNesting = 0 := by
    by_contra hne
    exact htask (hcaller.symm.trans (if_neg hne))
  have hpend := (osDQueuePend_of_empty hnest hev hempty (timeWait timeout).toNat).symm.trans hex
  rw [show pc = _ from hpc, SysArchWait.next_waiting_iff]
  split at hpend
  · cases hpend
    rcases ho with ⟨r, hr, -, rfl⟩ | ⟨-, ⟨r, hr, -⟩ | ⟨hr, -⟩⟩
    · cases hr
      cases hp
      exact ⟨fun h => (nomatch h.1), fun h => absurd ‹_› h.ne_noTimeout⟩
    · cases hr
    · cases hr
  · rename_i hno
    cases hpend
    rcases ho with ⟨r, hr, -, -⟩ | ⟨hto, ⟨r, hr, -⟩ | ⟨-, rfl⟩⟩
    · cases hr
    · cases hr
    · cases hp
      obtain ⟨k, hk, htk⟩ := Option.map_eq_some_iff.mp hto
      obtain ⟨next, -, rfl⟩ := Option.map_eq_some_iff.mp hk
      have htime := waitDEvent_timeout s e (s.dEvent e).osEventPointer
        (s.dQueue (s.dEvent e).osEventPointer).osqTSize (timeWait timeout).toNat
      have hops : t.kernel.delayOps = _ :=
        (congrArg (·.kernel.delayOps) htk.symm).trans htime.1
      have httw : t.kernel.ttw s.kernel.currentTask = _ :=
        (congrArg (·.kernel.ttw s.kernel.currentTask) htk.symm).trans htime.2
      rw [waitsAwhile_iff hc hw hops httw]
      exact ⟨fun h => ⟨h.2.1, hno, h.2.2⟩, fun h => ⟨rfl, h.ne_zero, h.lt⟩⟩

end Pend

/-! ### The two functions -/

theorem sysArchSemWait_counting (cfg : Config) (task : Nat) (sem : Option Nat) :
    (sysArchSemWait cfg task sem).Counting where
  step hlt h := step_counter hlt h
  pend _ := nofun
  resume := nofun

theorem sysArchMboxFetch_counting (dc : DQueueConfig) (task : Nat) (mbox : Option Nat) :
    (sysArchMboxFetch dc task mbox).Counting where
  step hlt h := dstep_counter hlt h
  pend _ := nofun
  resume := nofun

/-- A timeout is passed on modulo `2 ^ 16`. -/
theorem timeWait_toNat {timeout : UInt32} (h0 : timeout ≠ 0) :
    (timeWait timeout).toNat = timeout.toNat % 65536 := by
  rw [timeWait, if_pos h0]
  rfl

/-- **The waits of the lwIP port.** With 16-bit ticks, and for whatever timeout, none
included, both functions return the number of ticks the wait took, or 1, exactly for a wait
that a tick falls into. A pend they issue with a timeout, where there is nothing to take,
neither waits for ever nor returns at once exactly if what is left of the timeout in 16 bits
is neither 0 nor `NO_TIMEOUT` and the wait ends before the counter has gone round twice. -/
theorem sys_arch_wait_iff (dc : DQueueConfig) (h16 : dc.tick = .t16) {task : Nat} (htask : task ≠ 0) :
    (∀ {sem timeout s e r}, s.osTickCounter < dc.tickCountOverflow → e < dc.tickCountOverflow →
      (sysArchSemWait dc.toConfig task sem).Returns timeout s e r →
      (r.toNat = max 1 e ↔ e ≠ 0)) ∧
    (∀ {mbox timeout s e r}, s.kernel.osTickCounter < dc.tickCountOverflow →
      e < dc.tickCountOverflow → (sysArchMboxFetch dc task mbox).Returns timeout s e r →
      (r.toNat = max 1 e ↔ e ≠ 0)) ∧
    (∀ {sem timeout s startTime t pc o}, timeout ≠ 0 → s.osTickCounter < dc.tickCountOverflow →
      (dc.errorCheck = true → s.Allocated (.sem sem)) → s.Unavailable (.sem sem) →
      (sysArchSemWait dc.toConfig task (some sem)).stepWait timeout (s, .pend startTime) .own =
        some ((t, pc), o) →
      ((pc = .waiting startTime ∧ s.WaitsAwhile t) ↔
        Waitable dc.toConfig s.osTickCounter (timeout.toNat % 65536))) ∧
    ∀ {mbox timeout s startTime t pc o}, timeout ≠ 0 →
      s.kernel.osTickCounter < dc.tickCountOverflow →
      (dc.errorCheck = true → (s.dEvent mbox).osEventAllocated = 1) →
      (s.dQueue (s.dEvent mbox).osEventPointer).osqEntries = 0 →
      (sysArchMboxFetch dc task (some mbox)).stepWait timeout (s, .pend startTime) .own =
        some ((t, pc), o) →
      ((pc = .waiting startTime ∧ s.kernel.WaitsAwhile t.kernel) ↔
        Waitable dc.toConfig s.kernel.osTickCounter (timeout.toNat % 65536)) := by
  have hover : dc.tickCountOverflow = 65532 := by
    rw [Config.tickCountOverflow, Config.maxTimer, Config.tickBits, h16]
    rfl
  refine ⟨?_, ?_, ?_, ?_⟩
  · intro sem timeout s e r hc he hr
    exact hr.eq_max_iff (sysArchSemWait_counting _ _ _) (hover.trans_lt (by decide))
      ((by decide : 1 < 65532).trans_eq hover.symm) hc he
  · intro mbox timeout s e r hc he hr
    exact hr.eq_max_iff (sysArchMboxFetch_counting _ _ _) (hover.trans_lt (by decide))
      ((by decide : 1 < 65532).trans_eq hover.symm) hc he
  · intro sem timeout s startTime t pc o h0 hc hev hun hstep
    rw [← timeWait_toNat h0]
    exact sem_pend_iff h16 htask hc hev hun hstep
  · intro mbox timeout s startTime t pc o h0 hc hev hempty hstep
    rw [← timeWait_toNat h0]
    exact mbox_pend_iff h16 htask hc hev hempty hstep

/-- A wait of three ticks for a token that an interrupt brings, across the wrap. -/
def semScript : List (WaitAction Action) :=
  [.own, .other .intEnter, .other .tick, .other .tick, .other .tick, .other (.call (.semPost (some 0))),
    .other .intExit, .own, .own]

/-- The same wait for a message. -/
def mboxScript : List (WaitAction DAction) :=
  [.own, .other (.kernel .intEnter), .other (.kernel .tick), .other (.kernel .tick),
    .other (.kernel .tick), .other (.call (.post (some 5120) [1, 2, 3, 4, 5, 6])),
    .other (.kernel .intExit), .own, .own]

set_option maxRecDepth 20000 in
/-- Waits from tick 65530, the second one without a timeout, and the pends of two such waits
with a timeout of 65541, of which 5 ticks are left. -/
theorem sys_arch_wait_iff_wrap :
    let w := sysArchSemWait deadlineConfig.toConfig 1 (some 0)
    let v := sysArchMboxFetch deadlineConfig 1 (some 5120)
    let t := (Run.after (w.stepWait 65541) (runningAt 65530, .pend 65530) [.own]).1
    let u := (Run.after (v.stepWait 65541) (queueAt 65530, .pend 65530) [.own]).1
    (w.Returns 1000 (runningAt 65530) 3 3 ∧ (3 : UInt32).toNat = max 1 3) ∧
    (v.Returns 0 (queueAt 65530) 3 3 ∧ (3 : UInt32).toNat = max 1 3) ∧
    (runningAt 65530).WaitsAwhile t ∧ (queueAt 65530).kernel.WaitsAwhile u.kernel := by
  intro w v t u
  obtain ⟨hsem, hmbox, hsemPend, hmboxPend⟩ :=
    sys_arch_wait_iff deadlineConfig rfl Nat.one_ne_zero
  have hw : w.Returns 1000 (runningAt 65530) 3 3 :=
    .of_script semScript () (by decide +kernel) (by decide +kernel) (by decide)
      (by decide +kernel)
  have hv : v.Returns 0 (queueAt 65530) 3 3 :=
    .of_script mboxScript (some [1, 2, 3, 4, 5, 6]) (by decide +kernel)
      (by decide +kernel) (by decide) (by decide +kernel)
  have hwPend : w.stepWait 65541 (runningAt 65530, .pend 65530) .own =
      some ((t, .waiting 65530), some (.suspended 1 (.semPend (some 0) 5))) :=
    Run.step_of_traceOf (by decide +kernel)
  have hvPend : v.stepWait 65541 (queueAt 65530, .pend 65530) .own =
      some ((u, .waiting 65530), some (.suspended 1 (.pend (some 5120) 5))) :=
    Run.step_of_traceOf (by decide +kernel)
  have hun : (runningAt 65530).Unavailable (.sem 0) := by
    show ((runningAt 65530).semTable 0).osEventCount = 0
    decide +kernel
  have hsemWaits := (hsemPend (by decide) (by decide +kernel) nofun hun hwPend).mpr (by decide +kernel)
  have hmboxWaits := (hmboxPend (by decide) (by decide +kernel) nofun (by decide +kernel) hvPend).mpr
    (by decide +kernel)
  refine ⟨⟨hw, ?_⟩, ⟨hv, ?_⟩, hsemWaits.2, hmboxWaits.2⟩
  · exact (hsem (by decide +kernel) (by decide) hw).mpr (by decide)
  · exact (hmbox (by decide +kernel) (by decide) hv).mpr (by decide)

set_option maxRecDepth 20000 in
/-- **A period for nothing, and timeouts that are none.** A wait for a token that is there
returns 65532. With a timeout of 65536 ticks the pend has no timeout, and with one of 65534
it does not wait. -/
theorem sys_arch_wait_wrong :
    let w := sysArchSemWait deadlineConfig.toConfig 1 (some 0)
    let s := Run.after Kernel.step (runningAt 65530) [.call (.semPost (some 0))]
    let t := (Run.after (w.stepWait 65536) (runningAt 65530, .pend 65530) [.own]).1
    let u := (Run.after (w.stepWait 65534) (runningAt 65530, .pend 65530) [.own]).1
    (w.Returns 1000 s 0 65532 ∧ (65532 : UInt32).toNat ≠ max 1 0) ∧
    (w.stepWait 65536 (runningAt 65530, .pend 65530) .own =
        some ((t, .waiting 65530), some (.suspended 1 (.semPend (some 0) 0))) ∧
      ¬ (runningAt 65530).WaitsAwhile t) ∧
    w.stepWait 65534 (runningAt 65530, .pend 65530) .own =
      some ((u, .returned sysArchTimeout ()),
        some (.returned 1 (.semPend (some 0) 65534) RetCode.exitByNoEntryAvailable.ret)) := by
  intro w s t u
  have hs : w.Returns 1000 s 0 65532 :=
    .of_script [.own, .own] () (by decide +kernel) (by decide +kernel) (by decide)
      (by decide +kernel)
  have ht : w.stepWait 65536 (runningAt 65530, .pend 65530) .own =
      some ((t, .waiting 65530), some (.suspended 1 (.semPend (some 0) 0))) :=
    Run.step_of_traceOf (by decide +kernel)
  have hu : w.stepWait 65534 (runningAt 65530, .pend 65530) .own =
      some ((u, .returned sysArchTimeout ()),
        some (.returned 1 (.semPend (some 0) 65534) RetCode.exitByNoEntryAvailable.ret)) :=
    Run.step_of_traceOf (by decide +kernel)
  have hops : t.delayOps = (runningAt 65530).delayOps := by decide +kernel
  exact ⟨⟨hs, by decide⟩, ⟨ht, fun h => List.cons_ne_self _ _ (h.included.symm.trans hops)⟩, hu⟩

end Brtos
