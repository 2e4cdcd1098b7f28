import Mathlib.Data.Finset.Max
import Brtos.Lib.Simulation
import Brtos.Properties.Semaphore

/-!
# Brtos.Properties.BinarySem

**A binary semaphore is a flag.** `OSSemBinaryCreate` uses the control block, the pend and
the post of counting semaphores; only the post looks at `Binary`. What makes the counter a
flag is that the post stores 1 instead of counting, and that nobody waits while it is 1, so
that a token handed to a waiter leaves the flag clear.

The flag and its waiters are the specification (`Flag`, `FlagStep`); every run from the
creation on follows it (`flag_refined`). The value it starts with is `bit > 1`, not
`bit != 0`: with `bit = 1` the semaphore is created empty (`binary_sem_refines_flag`).
-/

namespace Brtos

open Bits Kernel

variable {cfg : Config} {s t u : Kernel cfg} {rule : Kernel cfg → Nat → Prop} {e : Nat}

/-! ### The specification -/

/-- A flag, and the priorities of the tasks that wait for it. -/
structure Flag where
  set : Bool
  waiters : Finset Nat

namespace Flag

/-- A post sets the flag, or gives the token to the waiter of highest priority. -/
def post (f : Flag) : Flag :=
  if h : f.waiters.Nonempty then ⟨false, f.waiters.erase (f.waiters.max' h)⟩ else ⟨true, ∅⟩

/-- A pend takes the token. -/
def take (f : Flag) : Flag := { f with set := false }

/-- A pend waits. -/
def join (f : Flag) (p : Nat) : Flag := { f with waiters := insert p f.waiters }

/-- A waiter gives up. -/
def leave (f : Flag) (p : Nat) : Flag := { f with waiters := f.waiters.erase p }

end Flag

/-- What an action may show of semaphore `e` when its flag is `f`, and the flag after it. -/
inductive FlagStep (e : Nat) (s : Kernel cfg) (f : Flag) : Action → Obs → Flag → Prop
  /-- A post never fails. -/
  | posted : FlagStep e s f (.call (.semPost (some e)))
      (.returned s.caller (.semPost (some e)) RetCode.ok.ret) f.post
  | taken {timeWait : Nat} (hwho : s.iNesting = 0) (hset : f.set = true) :
      FlagStep e s f (.call (.semPend (some e) timeWait))
        (.returned s.caller (.semPend (some e) timeWait) RetCode.ok.ret) f.take
  | empty (hwho : s.iNesting = 0) (hset : f.set = false) :
      FlagStep e s f (.call (.semPend (some e) cfg.noTimeout))
        (.returned s.caller (.semPend (some e) cfg.noTimeout)
          RetCode.exitByNoEntryAvailable.ret) f
  | waits {timeWait : Nat} (hwho : s.iNesting = 0) (hset : f.set = false)
      (htw : timeWait ≠ cfg.noTimeout) :
      FlagStep e s f (.call (.semPend (some e) timeWait))
        (.suspended s.caller (.semPend (some e) timeWait)) (f.join (s.prio s.currentTask))
  /-- An interrupt may not pend. -/
  | refused {timeWait : Nat} (hwho : 0 < s.iNesting) :
      FlagStep e s f (.call (.semPend (some e) timeWait))
        (.returned s.caller (.semPend (some e) timeWait) RetCode.irqPendErr.ret) f
  | timedOut {p timeWait : Nat} (hf : s.frame s.currentTask = .pend (.sem e) p timeWait)
      (hp : p ∈ f.waiters) :
      FlagStep e s f .resume
        (.returned s.currentTask (.semPend (some e) timeWait) RetCode.timeout.ret) (f.leave p)
  /-- The token was given to the task that waited. -/
  | given {p timeWait : Nat} (hf : s.frame s.currentTask = .pend (.sem e) p timeWait)
      (hp : p ∉ f.waiters) :
      FlagStep e s f .resume
        (.returned s.currentTask (.semPend (some e) timeWait) RetCode.ok.ret) f
  | elsewhere {a : Action} {o : Obs} (ha : ¬ s.ActsOn e a) : FlagStep e s f a o f

/-- The flag decides what an action on the semaphore shows. -/
theorem FlagStep.deterministic {f g g' : Flag} {a : Action} {o o' : Obs} (ha : s.ActsOn e a)
    (h : FlagStep e s f a o g) (h' : FlagStep e s f a o' g') : o = o' ∧ g = g' := by
  cases h <;> cases h' <;> simp_all

/-- The flag a binary semaphore stands for. -/
def Kernel.flag (s : Kernel cfg) (e : Nat) : Flag :=
  ⟨decide (0 < (s.semTable e).osEventCount), s.waiting (.sem e)⟩

/-! ### The code follows it -/

/-- Binary semaphore `e` stands for flag `f`: it counts to one, and nobody waits while its
token is there. -/
structure FlagInv (s : Kernel cfg) (e : Nat) (f : Flag) : Prop where
  alloc : s.Allocated (.sem e)
  binary : (s.semTable e).binary = true
  count_le : (s.semTable e).osEventCount ≤ 1
  count_wait : 0 < (s.semTable e).osEventCount → s.waiting (.sem e) = ∅
  flag : s.flag e = f

theorem FlagInv.set_iff {f : Flag} (hfi : FlagInv s e f) :
    f.set = true ↔ 0 < (s.semTable e).osEventCount := by
  rw [← hfi.flag]
  simp [Kernel.flag]

theorem FlagInv.waiters {f : Flag} (hfi : FlagInv s e f) : f.waiters = s.waiting (.sem e) := by
  rw [← hfi.flag]
  rfl

/-- The invariant, read off the control block. -/
theorem FlagInv.of_block {b : Bool} {w : Finset Nat} (ha : s.Allocated (.sem e))
    (hsem : s.semTable e = ⟨b.toNat, true⟩) (hwait : s.waiting (.sem e) = w)
    (hw : b = true → w = ∅) : FlagInv s e ⟨b, w⟩ := by
  constructor
  case alloc => exact ha
  case binary => rw [hsem]
  case count_le =>
    rw [hsem]
    exact b.toNat_le
  case count_wait =>
    rw [hsem, hwait]
    intro h
    exact hw (by cases b <;> simp_all)
  case flag =>
    rw [Kernel.flag, hsem, hwait]
    cases b <;> rfl

/-- The control block, read off the flag. -/
theorem FlagInv.semTable {f : Flag} (hfi : FlagInv s e f) : s.semTable e = ⟨f.set.toNat, true⟩ := by
  have hle := hfi.count_le
  have hbin := hfi.binary
  have hset := hfi.set_iff
  generalize s.semTable e = c at hle hbin hset ⊢
  obtain ⟨n, b⟩ := c
  cases hf : f.set
  · simp_all
  · simp_all
    omega

theorem FlagInv.clear {f : Flag} (hfi : FlagInv s e f) (hset : f.set = true) : f.waiters = ∅ := by
  rw [hfi.waiters]
  exact hfi.count_wait (hfi.set_iff.mp hset)

/-- A step that leaves the semaphore alone. -/
theorem FlagInv.same {f : Flag} (hfi : FlagInv s e f) (ha : t.Allocated (.sem e))
    (hsem : t.semTable e = s.semTable e) (hwait : t.waiting (.sem e) = s.waiting (.sem e)) :
    FlagInv t e f :=
  .of_block ha (hsem.trans hfi.semTable) (hwait.trans hfi.waiters.symm) hfi.clear

/-- The scheduler's choice is the highest-priority waiter. -/
theorem saScheduler_eq_max' {x : BitVec cfg.prioBits} (hx : (bits x).Nonempty) :
    saScheduler x = (bits x).max' hx :=
  le_antisymm (Finset.le_max' _ _ (saScheduler_mem hx))
    (Finset.max'_le _ _ _ fun _ hp => le_saScheduler hp)

/-- A post on the semaphore. -/
theorem FlagInv.post {f : Flag} (hfi : FlagInv s e f) (hk : KernelInv s) {o : Obs}
    (hstep : s.step (.call (.semPost (some e))) = some (t, o)) (ha : t.Allocated (.sem e)) :
    FlagStep e s f (.call (.semPost (some e))) o f.post ∧ FlagInv t e f.post := by
  obtain ⟨xs, hs⟩ := hk.suspend
  have hex : s.exec (.semPost (some e)) = some (s.semPost e) :=
    @checkEvent_allocated _ _ .sem _ _ hfi.alloc
  by_cases hw : (s.event (.sem e)).osEventWait ≠ 0
  · -- the token goes to the best waiter, and the counter stays at zero
    have hne := hs.waiting_nonempty hw
    have hset : f.set = false := by
      by_contra h
      exact hne.ne_empty (hfi.waiters.symm.trans (hfi.clear (by simpa using h)))
    rw [semPost, if_pos hw] at hex
    obtain ⟨⟨task, rfl⟩, ho⟩ := step_call_shows hstep hex
    have hobs : o = .returned s.caller (.semPost (some e)) RetCode.ok.ret := by
      rcases afterWake_cases (r := RetCode.ok.ret) s with h' | h' <;> rw [h'] at ho
      all_goals
        rcases ho with ⟨r', h | h, rfl⟩ | ⟨h, -⟩ <;> cases h
        rfl
    have hwait : (s.wakeWaiter (.sem e)).waiting (.sem e) =
        (s.waiting (.sem e)).erase ((s.waiting (.sem e)).max' hne) := by
      have hleave := waiting_leaveWaitList (s := s) (.sem e) (.sem e)
        (saScheduler (s.event (.sem e)).osEventWaitList)
      rw [if_pos rfl] at hleave
      exact hleave.trans (congrArg _ (saScheduler_eq_max' hne))
    have hpost : f.post = ⟨false, (s.waiting (.sem e)).erase ((s.waiting (.sem e)).max' hne)⟩ := by
      simp only [Flag.post, hfi.waiters]
      exact dif_pos hne
    have hsem := hfi.semTable
    rw [hset] at hsem
    exact ⟨hobs ▸ .posted, hpost ▸ .of_block ha hsem hwait fun h => by cases h⟩
  · have hempty : s.waiting (.sem e) = ∅ := hs.wait_eq_zero.mp (not_not.mp hw)
    rw [semPost, if_neg hw, if_pos (lt_of_le_of_lt hfi.count_le (by decide))] at hex
    obtain ⟨⟨task, rfl⟩, ho⟩ := step_call_shows hstep hex
    have hobs : o = .returned s.caller (.semPost (some e)) RetCode.ok.ret := by
      rcases ho with ⟨r', h | h, rfl⟩ | ⟨h, -⟩ <;> cases h
      rfl
    have hpost : f.post = ⟨true, ∅⟩ := by
      simp [Flag.post, hfi.waiters, hempty]
    refine ⟨hobs ▸ .posted, hpost ▸ .of_block ha ?_ hempty fun _ => rfl⟩
    simp [setSem, hfi.binary]

/-- A pend on the semaphore. -/
theorem FlagInv.pend {f : Flag} (hfi : FlagInv s e f) (hk : KernelInv s) {timeWait : Nat} {o : Obs}
    (hstep : s.step (.call (.semPend (some e) timeWait)) = some (t, o))
    (ha : t.Allocated (.sem e)) :
    ∃ g, FlagStep e s f (.call (.semPend (some e) timeWait)) o g ∧ FlagInv t e g := by
  have hallow := (step_call_inv hstep).1
  by_cases hint : 0 < s.iNesting
  · -- the caller is an interrupt, which is let in only to be refused
    have hcheck : cfg.errorCheck = true := by
      simp only [Call.allowed, inTask, inInterrupt, Bool.or_eq_true, Bool.and_eq_true,
        beq_iff_eq, decide_eq_true_eq] at hallow
      rcases hallow with h | h
      · omega
      · exact h.2
    have hex : s.exec (.semPend (some e) timeWait) =
        some (s, .returned RetCode.irqPendErr.ret) := if_pos ⟨hcheck, hint⟩
    obtain ⟨⟨task, rfl⟩, ho⟩ := step_call_shows hstep hex
    rcases ho with ⟨r', h | h, rfl⟩ | ⟨h, -⟩ <;> cases h
    exact ⟨f, .refused hint, hfi.same ha rfl rfl⟩
  · have hex : s.exec (.semPend (some e) timeWait) = some (s.semPend timeWait e) := by
      show s.checkPend .sem (some e) .nothing (s.semPend timeWait) = _
      rw [checkPend, if_neg fun h => hint h.2]
      exact @checkEvent_allocated _ _ .sem _ _ hfi.alloc
    have hwho : s.iNesting = 0 := by omega
    by_cases hc : (s.semTable e).osEventCount > 0
    · rw [Kernel.semPend, if_pos hc] at hex
      obtain ⟨⟨task, rfl⟩, ho⟩ := step_call_shows hstep hex
      rcases ho with ⟨r', h | h, rfl⟩ | ⟨h, -⟩ <;> cases h
      have hset := hfi.set_iff.mpr hc
      refine ⟨f.take, .taken hwho hset, .of_block ha ?_ hfi.waiters.symm fun h => by cases h⟩
      simp [setSem, hfi.semTable, hset]
    · have hset : f.set = false := by
        by_contra h
        exact hc (hfi.set_iff.mp (by simpa using h))
      by_cases htw : timeWait = cfg.noTimeout
      · subst htw
        rw [Kernel.semPend, if_neg hc, if_pos rfl] at hex
        obtain ⟨⟨task, rfl⟩, ho⟩ := step_call_shows hstep hex
        rcases ho with ⟨r', h | h, rfl⟩ | ⟨h, -⟩ <;> cases h
        exact ⟨f, .empty hwho hset, hfi.same ha rfl rfl⟩
      · rw [Kernel.semPend, if_neg hc, if_neg htw] at hex
        obtain ⟨⟨task, rfl⟩, ho⟩ := step_call_shows hstep hex
        rcases ho with ⟨r', h | h, rfl⟩ | ⟨h, rfl⟩
        · cases h
        · cases h
        · have htask : s.inTask = true := by
            simpa [Call.allowed, inInterrupt, hwho] using hallow
          have hwait := waiting_waitEvent (.sem e) timeWait
            (hk.table.prio_lt (hk.calling htask).installed) (.sem e)
          rw [if_pos rfl] at hwait
          have hsem : (s.waitEvent (.sem e) timeWait).semTable e = ⟨f.set.toNat, true⟩ := by
            rw [SuspendInv.waitEvent_eq]
            exact hfi.semTable
          refine ⟨f.join (s.prio s.currentTask), .waits hwho hset htw,
            .of_block ha hsem (hwait.trans ?_) fun h => ?_⟩
          · rw [← hfi.waiters]
          · rw [hset] at h
            cases h

/-- The rest of a pend on the semaphore. -/
theorem FlagInv.resume {f : Flag} (hfi : FlagInv s e f) (hk : KernelInv s) {o : Obs}
    {p timeWait : Nat} (hf : s.frame s.currentTask = .pend (.sem e) p timeWait)
    (hm : Move rule s .resume t o) (ha : t.Allocated (.sem e)) :
    ∃ g, FlagStep e s f .resume o g ∧ FlagInv t e g := by
  obtain ⟨xs, hs⟩ := hk.suspend
  cases hm with
  | delayEnded hcur hnest hf' =>
      rw [hf] at hf'
      cases hf'
  | timedOut hcur hnest hf' ht =>
      rw [hf] at hf'
      cases hf'
      have hwait := waiting_leaveWaitList (s := s) (.sem e) (.sem e) p
      rw [if_pos rfl, ← hfi.waiters] at hwait
      refine ⟨f.leave p, .timedOut hf (hfi.waiters ▸ ht.2.2),
        .of_block ha hfi.semTable hwait fun hset => ?_⟩
      rw [hfi.clear hset]
      rfl
  | woken hcur hnest hf' ht =>
      rw [hf] at hf'
      cases hf'
      have hnw := hs.selected_of_not_timedOut (hk.run hcur).1 hf (hk.run hcur).2 ht
      obtain ⟨ctx, dl, ops, heq, -⟩ := cancelTimeout_eq s timeWait
      rw [heq] at ha ⊢
      exact ⟨f, .given hf (hfi.waiters ▸ hnw), hfi.same ha rfl rfl⟩

/-- A step that is not about the semaphore leaves it alone. -/
theorem FlagInv.elsewhere {f : Flag} (hfi : FlagInv s e f) (hk : KernelInv s) {a : Action} {o : Obs}
    (hm : Move rule s a t o) (ha : t.Allocated (.sem e)) (hact : ¬ s.ActsOn e a)
    (hdel : a ≠ .call (.semDelete (some e))) : FlagInv t e f :=
  have ⟨hsem, hwait⟩ := move_elsewhere hk hm hfi.alloc hact hdel
  hfi.same ha hsem hwait

/-- **Step lemma.** Every step other than the delete of the semaphore is one of its flag. -/
theorem FlagInv.step {f : Flag} (hfi : FlagInv s e f) (hk : KernelInv s) {a : Action} {o : Obs}
    (hd : Disciplined rule s a) (hdel : a ≠ .call (.semDelete (some e)))
    (hstep : s.step a = some (t, o)) : ∃ g, FlagStep e s f a o g ∧ FlagInv t e g := by
  have hm := hk.move hd hstep
  have ha : t.Allocated (.sem e) := by
    refine move_allocated hk hm hfi.alloc ?_
    intro c hac hc
    subst hac
    unfold Call.deletes at hc
    split at hc <;> cases hc
    exact hdel rfl
  by_cases hact : s.ActsOn e a
  · rcases hact with ⟨tw, rfl⟩ | rfl | ⟨rfl, p, tw, hf⟩
    · exact hfi.pend hk hstep ha
    · exact ⟨f.post, hfi.post hk hstep ha⟩
    · exact hfi.resume hk hf hm ha
  · exact ⟨f, .elsewhere hact, hfi.elsewhere hk hm ha hact hdel⟩

/-! ### Runs -/

/-- Every run from `t` on in which semaphore `e` is not deleted is one of a flag that
starts at `b`, and the semaphore's count is the flag. -/
def RefinesFlag (t : Kernel cfg) (e : Nat) (b : Bool) : Prop :=
  ∀ tr u, Run Kernel.step (fun v a => Disciplined NestedRelease v a ∧
      a ≠ .call (.semDelete (some e))) t tr u →
    Follows Kernel.step (FlagStep e) t ⟨b, ∅⟩ tr u (u.flag e) ∧
      (u.semTable e).osEventCount = (u.flag e).set.toNat

/-- After the creation the flag is `bit > 1`, and the semaphore refines it. -/
theorem flag_refined {bit : UInt8} (hk : KernelInv s)
    (hcreate : s.step (.call (.semBinaryCreate bit)) =
      some (t, .returned s.caller (.semBinaryCreate bit) ⟨.allocEventOk, .event (.sem e)⟩)) :
    t.flag e = ⟨decide (bit.toNat > 1), ∅⟩ ∧ RefinesFlag t e (decide (bit.toNat > 1)) := by
  have hkt : KernelInv t := step_inv hk (a := .call (.semBinaryCreate bit)) trivial hcreate
  have hfi : FlagInv t e ⟨decide (bit.toNat > 1), ∅⟩ := by
    rw [createSem_spec (c := .semBinaryCreate bit) rfl hcreate]
    obtain ⟨halloc, hsem, hwait⟩ := created_block s e (if bit.toNat > 1 then 1 else 0) true
    refine .of_block halloc (hsem.trans ?_) hwait fun _ => rfl
    by_cases hb : bit.toNat > 1 <;> simp [hb]
  refine ⟨hfi.flag, fun tr u hrun => ?_⟩
  obtain ⟨f, hfollows, hku, hfu⟩ : ∃ f, Follows Kernel.step (FlagStep e) t
      ⟨decide (bit.toNat > 1), ∅⟩ tr u f ∧ KernelInv u ∧ FlagInv u e f := by
    refine hrun.follows (R := fun v f => KernelInv v ∧ FlagInv v e f) ⟨hkt, hfi⟩ ?_
    intro v f a w o ⟨hkv, hfv⟩ ⟨hd, hdel⟩ hstep
    obtain ⟨g, hg, hfw⟩ := hfv.step hkv hd hdel hstep
    exact ⟨g, hg, step_inv hkv hd hstep, hfw⟩
  rw [hfu.flag, hfu.semTable]
  exact ⟨hfollows, rfl⟩

/-- The flag a run starts with is the one the control block shows. -/
theorem RefinesFlag.initial {b : Bool} (h : RefinesFlag t e b) : (t.flag e).set = b := by
  rw [(h [] t .nil).1.nil_inv.2]

/-- **A binary semaphore and its flag.** For every value of `bit`, in every run that
follows the creation: the semaphore is a flag initialised to `bit != 0` exactly when
`bit` is not 1. -/
theorem binary_sem_refines_flag {tr : Trace} {bit : UInt8}
    (hr : RunFromInit (Disciplined NestedRelease) tr s)
    (hcreate : s.step (.call (.semBinaryCreate bit)) =
      some (t, .returned s.caller (.semBinaryCreate bit) ⟨.allocEventOk, .event (.sem e)⟩)) :
    RefinesFlag t e (bit != 0) ↔ bit ≠ 1 := by
  obtain ⟨hflag, href⟩ := flag_refined (run_inv hr) hcreate
  have hbit : (decide (bit.toNat > 1) = (bit != 0)) ↔ bit ≠ 1 := by
    have h0 : bit = 0 ↔ bit.toNat = 0 := UInt8.toNat_inj.symm
    have h1 : bit = 1 ↔ bit.toNat = 1 := UInt8.toNat_inj.symm
    rw [bne, Ne, h1, beq_eq_decide, ← decide_not, decide_eq_decide, h0]
    omega
  rw [← hbit]
  constructor
  · intro h
    rw [← h.initial, hflag]
  · intro h
    rwa [← h]

/-- `main` installs a task, which runs. -/
def flagScript : List Action := [.call (.installTask false 256 2), .brtosStart]

/-- The semaphore is created with `bit = 1`, and a pend does not find its token. -/
theorem binary_sem_bit_one :
    let s := kernelAfter flagScript
    let t := Run.after Kernel.step s [.call (.semBinaryCreate 1)]
    RunFromInit (Disciplined NestedRelease)
        (Run.traceOf Kernel.step (Kernel.init Config.exampleConfig) flagScript) s ∧
      s.step (.call (.semBinaryCreate 1)) =
        some (t, .returned s.caller (.semBinaryCreate 1) ⟨.allocEventOk, .event (.sem 0)⟩) ∧
      (t.step (.call (.semPend (some 0) Config.exampleConfig.noTimeout))).map (·.2) =
        some (.returned 1 (.semPend (some 0) Config.exampleConfig.noTimeout)
          RetCode.exitByNoEntryAvailable.ret) ∧
      ¬ RefinesFlag t 0 ((1 : UInt8) != 0) := by
  refine ⟨Run.of_admits (by decide +kernel), Run.step_of_traceOf (by decide +kernel),
    by decide +kernel, fun h => ?_⟩
  exact absurd h.initial (by decide +kernel)

set_option maxRecDepth 20000 in
theorem binary_sem_refines_flag_two :
    let s := kernelAfter flagScript
    let t := Run.after Kernel.step s [.call (.semBinaryCreate 2)]
    RefinesFlag t 0 true := by
  intro s t
  have hrun : RunFromInit (Disciplined NestedRelease)
      (Run.traceOf Kernel.step (Kernel.init Config.exampleConfig) flagScript) s :=
    Run.of_admits (by decide +kernel)
  have hcreate : s.step (.call (.semBinaryCreate 2)) =
      some (t, .returned s.caller (.semBinaryCreate 2) ⟨.allocEventOk, .event (.sem 0)⟩) :=
    Run.step_of_traceOf (by decide +kernel)
  exact (binary_sem_refines_flag hrun hcreate).mpr (by decide)

end Brtos
