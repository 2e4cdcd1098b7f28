import Brtos.Properties.Scheduling

/-!
# Brtos.Properties.Idle

**Something can always run.** The idle task never leaves the ready list: it makes no
calls, it cannot be uninstalled, and nobody else can have its priority. So `OSSchedule`
has a task to return as long as priority 0 is not blocked. `OSInstallTask` and
`OSUninstallTask` refuse to touch the idle task; the three block calls do not, and
blocking it leaves nothing to schedule as soon as the other tasks wait
(`blocked_idle_leaves_nothing`). What the two schedulers answer then is different: the
comparison tree happens to find the blocked idle task again, the optimised one reads
past `PriorityVector`.
-/

namespace Brtos

open Bits Kernel

variable {cfg : Config} {s t u : Kernel cfg}

/-- The action does not block the idle task's priority. -/
def IdleKept (s : Kernel cfg) : Action → Prop
  | .call (.blockPriority p) => s.iNesting = 0 → p ≠ 0
  | .call (.blockTask h) => s.iNesting = 0 →
    (if h = 0 then s.currentTask else h) ≠ 0 → s.prio (if h = 0 then s.currentTask else h) ≠ 0
  | .call (.blockMultipleTask a b) => s.iNesting = 0 →
    ∀ h ∈ taskRange a b, h ≠ s.currentTask → s.prio h ≠ 0
  | _ => True

instance (s : Kernel cfg) (a : Action) : Decidable (IdleKept s a) := by
  unfold IdleKept
  induction a using Action.casesOn with
  | call c => induction c using Call.casesOn <;> infer_instance
  | _ => infer_instance

/-! ### The blocked list -/

/-- What a block or unblock call does to the idle task's priority. -/
theorem exec_block_unblocked {c : Call} {oc : Outcome} (hc : c.isBlock = true)
    (hi : IdleKept s (.call c)) (hex : s.exec c = some (u, oc)) (h0 : 0 ∈ s.unblocked) :
    0 ∈ u.unblocked := by
  by_cases hb : c.blocks = true
  · rcases block_spec hb hex with ⟨rfl, -⟩ | ⟨hnest, htask, -, hspec⟩
    · exact h0
    · refine (hspec 0).mpr ⟨h0, fun hnames => ?_⟩
      cases c with
      | blockPriority p => exact hi hnest hnames.symm
      | blockTask h => exact hi hnest (htask h rfl) hnames.symm
      | blockMultipleTask a n =>
          obtain ⟨h, hm, hne, hp⟩ := hnames
          exact hi hnest h hm hne hp.symm
      | _ => cases hb
  · rcases unBlock_spec hc (by simpa using hb) hex with ⟨rfl, -⟩ | hspec
    · exact h0
    · exact (hspec 0 cfg.prioBits_pos).mpr (Or.inl h0)

theorem step_idle_unblocked (hk : KernelInv s) {a : Action} {o : Obs}
    (hd : Disciplined NestedRelease s a) (hi : IdleKept s a) (hstep : s.step a = some (t, o))
    (h0 : 0 ∈ s.unblocked) : 0 ∈ t.unblocked := by
  rcases step_blockedList hk hd hstep with heq | ⟨c, u, oc, task, rfl, hc, hex, rfl⟩
  · rw [heq]
    exact h0
  · have hu : 0 ∈ u.unblocked := exec_block_unblocked hc hi hex h0
    exact hu

/-! ### What `OSSchedule` finds -/

/-- The comparison tree of the build's width. -/
def Config.comparisonTree (cfg : Config) : Nat → Nat :=
  match cfg.priorities with
  | .w8 => saTree8
  | .w16 => saTree16
  | .w32 => saTree32

/-- The two schedulers agree on every word that is not empty. -/
theorem schedulers_agree {x : BitVec cfg.prioBits} (hx : x ≠ 0) :
    cfg.comparisonTree x.toNat = saScheduler x ∧ optimizedScheduler x.toNat = saScheduler x := by
  have h0 : x.toNat ≠ 0 := fun h => hx (BitVec.eq_of_toNat_eq (by simpa using h))
  have hlt : x.toNat < 2 ^ cfg.priorities.bits := x.isLt
  have hle : 2 ^ cfg.priorities.bits ≤ 2 ^ 32 := Nat.pow_le_pow_right (by decide) cfg.prioBits_le
  rw [saScheduler_eq_log2 hx]
  refine ⟨?_, optimizedScheduler_eq_log2 h0 (hlt.trans_le hle)⟩
  unfold Config.comparisonTree
  cases hp : cfg.priorities with
  | w8 => rw [hp] at hlt; exact saTree8_eq_log2 h0 hlt
  | w16 => rw [hp] at hlt; exact saTree16_eq_log2 h0 hlt
  | w32 => rw [hp] at hlt; exact saTree32_eq_log2 h0 hlt

/-- **Something is always schedulable** in an execution in which nobody blocks the idle
task: once a task has the processor, some task is ready and not blocked, `OSSchedule`
returns an installed task, and it does so with either scheduler. -/
theorem always_schedulable {tr : Trace}
    (hr : RunFromInit (fun s a => Disciplined NestedRelease s a ∧ IdleKept s a) tr s)
    (hcur : s.currentTask ≠ 0) :
    let eligible := s.osReadyList &&& s.osBlockedList
    eligible ≠ 0 ∧ (∃ h, s.osSchedule = some h ∧ s.Installed h) ∧
      s.Installed (s.priorityVector (cfg.comparisonTree eligible.toNat)) ∧
      s.Installed (s.priorityVector (optimizedScheduler eligible.toNat)) := by
  intro eligible
  obtain ⟨hk, h0⟩ : KernelInv s ∧ 0 ∈ s.unblocked := by
    refine hr.invariant (P := fun s => KernelInv s ∧ 0 ∈ s.unblocked) ⟨init_inv, ?_⟩ ?_
    · show 0 ∈ bits (BitVec.allOnes cfg.prioBits)
      simp [mem_bits, cfg.prioBits_pos]
    · rintro t a u o ⟨hk, h0⟩ ⟨hd, hi⟩ hstep
      exact ⟨step_inv hk hd hstep, step_idle_unblocked hk hd hi hstep h0⟩
  -- the idle task is outside the kernel, so it is ready
  obtain ⟨idle, -, hinst, hprio, -, hframe⟩ := hk.start.idle hcur
  obtain ⟨xs, hs⟩ := hk.suspend
  have hready : 0 ∈ s.ready := hprio ▸ hs.ready_user hinst hframe
  have hne : eligible ≠ 0 := by
    intro he
    have hmem : 0 ∈ bits eligible := by
      rw [bits_and]
      exact Finset.mem_inter.mpr ⟨hready, h0⟩
    rw [he] at hmem
    simp at hmem
  obtain ⟨h, hsch, hi, -⟩ := hk.toCoreInv.schedule_top hne
  obtain ⟨htree, hclz⟩ := schedulers_agree hne
  have htop : s.Installed (s.priorityVector (saScheduler eligible)) :=
    (hk.toCoreInv.task_of_ready (isTop_saScheduler ⟨0, Finset.mem_inter.mpr ⟨hready, h0⟩⟩).1).1
  exact ⟨hne, ⟨h, hsch, hi⟩, htree ▸ htop, hclz ▸ htop⟩

/-- One task, which blocks another priority and delays. -/
def onlyIdleScript : List Action :=
  [.call (.installTask false 256 2), .brtosStart, .call (.blockPriority 5), .call (.delayTask 3)]

set_option maxRecDepth 20000 in
theorem always_schedulable_onlyIdle :
    let s := Run.after Kernel.step (Kernel.init Config.exampleConfig) onlyIdleScript
    s.osReadyList &&& s.osBlockedList ≠ 0 ∧ ∃ h, s.osSchedule = some h ∧ s.Installed h := by
  have h := always_schedulable (s := Run.after Kernel.step (Kernel.init Config.exampleConfig)
    onlyIdleScript) (Run.of_admits (by decide +kernel)) (by decide +kernel)
  exact ⟨h.1, h.2.1⟩

/-- The task blocks priority 0 before it delays. -/
def blockedIdleScript : List Action :=
  [.call (.installTask false 256 2), .brtosStart, .call (.blockPriority 0), .call (.delayTask 3)]

set_option maxRecDepth 20000 in
/-- Nothing is eligible, and the optimised scheduler's answer is no priority at all. -/
theorem blocked_idle_leaves_nothing :
    let s := Run.after Kernel.step (Kernel.init Config.exampleConfig) blockedIdleScript
    RunFromInit (Disciplined NestedRelease)
      (Run.traceOf Kernel.step (Kernel.init Config.exampleConfig) blockedIdleScript) s ∧
    s.currentTask ≠ 0 ∧ s.osReadyList &&& s.osBlockedList = 0 ∧
    optimizedScheduler (s.osReadyList &&& s.osBlockedList).toNat = 255 := by
  refine ⟨Run.of_admits ?_, ?_, ?_, ?_⟩ <;> decide +kernel

end Brtos
