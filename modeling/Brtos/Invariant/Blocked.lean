import Brtos.Invariant.Frames

/-!
# Brtos.Invariant.Blocked

**Who writes the blocked list and who frees a priority.** `OSBlockedList` has one bit for
every priority and is written by the block and unblock calls only (`move_blockedList`);
which bits such a call can write is said in terms of its arguments (`blocked_names`). An
entry of `PriorityVector` becomes free by an uninstall only (`move_freed`).
-/

namespace Brtos

open Bits Kernel

variable {cfg : Config} {s t u : Kernel cfg} {rule : Kernel cfg → Nat → Prop}

/-! ### The blocked list -/

theorem takeCeiling_blocked (u : Kernel cfg) (m p : Nat) :
    (u.takeCeiling m p).osBlockedList = u.osBlockedList := by
  obtain ⟨ready, pv, ctx, mt, ht⟩ := takeCeiling_eq u m p
  rw [ht]

theorem restorePriority_blocked (s : Kernel cfg) (m : Nat) :
    (s.restorePriority m).osBlockedList = s.osBlockedList := by
  obtain ⟨ready, ctx, hr⟩ := restorePriority_eq s m
  rw [hr]

/-- The block and unblock calls. -/
def Action.isBlock : Action → Bool
  | .call c => c.isBlock
  | _ => false

/-- Only the block and unblock calls write `OSBlockedList`. -/
theorem effect_blockedList {c : Call} {oc : Outcome} (he : Effect rule s c u oc)
    (hc : c.isBlock = false) : u.osBlockedList = s.osBlockedList := by
  cases he with
  | blocked hb =>
      rw [hb] at hc
      cases hc
  | uninstalledDelayed => split <;> rfl
  | waited =>
      rw [SuspendInv.waitEvent_eq]
  | queueSelected =>
      rw [SuspendInv.wakeWaiter_eq]
      rfl
  | mutexCreated =>
      dsimp only [setMutex, allocEvent, setEvent]
      split <;> rfl
  | acquired => exact takeCeiling_blocked _ _ _
  | released hwho =>
      rename_i m _ _ _ _
      obtain ⟨ready, pv, ctx, mt, hd, hr⟩ := released_eq s m
      rw [hr]
  | handedOff hwho =>
      rename_i m _ _ _ _
      refine Eq.trans ?_ (restorePriority_blocked s m)
      unfold giveUp
      rw [handOff_eq]
  | _ => rfl

theorem move_blockedList (hk : KernelInv s) {a : Action} {o : Obs} (hm : Move rule s a t o)
    (ha : a.isBlock = false) : t.osBlockedList = s.osBlockedList := by
  cases hm with
  | returned _ he => exact effect_blockedList he ha
  | switched _ he =>
      have hu := effect_blockedList he ha
      exact hu
  | suspended _ he =>
      have hu := effect_blockedList he ha
      exact hu
  | started hmain hfree hu =>
      subst hu
      rfl
  | woken =>
      rename_i ev p tw _ _ _ _
      obtain ⟨ctx, dl, ops, heq, -⟩ := cancelTimeout_eq s tw
      rw [heq]
      cases ev with
      | mutex m =>
          exact takeCeiling_blocked { s with contextTask := ctx, delayList := dl, delayOps := ops } m p
      | _ => rfl
  | tick hnest ht =>
      obtain ⟨xs, hs⟩ := hk.suspend
      rw [(tick_context hk hs ht).2.same]
      rfl
  | _ => rfl

/-- The priorities a block or unblock call names. -/
def Call.names (s : Kernel cfg) : Call → Nat → Prop
  | .blockPriority q, p | .unBlockPriority q, p => p = q
  | .blockTask h, p => p = s.prio (if h = 0 then s.currentTask else h)
  | .unBlockTask h, p => p = s.prio h
  | .blockMultipleTask a n, p | .unBlockMultipleTask a n, p =>
    ∃ h ∈ taskRange a n, h ≠ s.currentTask ∧ p = s.prio h
  | _, _ => False

/-- A call that takes bits out of `OSBlockedList`. -/
def Call.blocks : Call → Bool
  | .blockPriority _ | .blockTask _ | .blockMultipleTask .. => true
  | _ => false

/-- The loop of `OSBlockMultipleTask`. -/
theorem mem_foldl_block {p : Nat} : ∀ (hs : List Nat) (s : Kernel cfg),
    p ∈ (hs.foldl (fun s iTask => if iTask ≠ s.currentTask then s.block (s.prio iTask) else s)
      s).unblocked ↔ p ∈ s.unblocked ∧ ¬ ∃ h ∈ hs, h ≠ s.currentTask ∧ p = s.prio h
  | [], s => by simp
  | h :: hs, s => by
      rw [List.foldl_cons, mem_foldl_block hs, List.exists_mem_cons_iff, not_or, ← and_assoc]
      by_cases hne : h = s.currentTask
      · rw [if_neg (not_not.mpr hne)]
        simp [hne]
      · rw [if_pos hne]
        have hmem : p ∈ (s.block (s.prio h)).unblocked ↔ p ∈ s.unblocked ∧ p ≠ s.prio h := by
          rw [Kernel.unblocked, block, bits_and_not_mask, Finset.mem_erase, and_comm]
        have hhead : ¬ (h ≠ s.currentTask ∧ p = s.prio h) ↔ p ≠ s.prio h := by simp [hne]
        rw [hmem, hhead]
        exact Iff.rfl

/-- The loop of `OSUnBlockMultipleTask`. -/
theorem mem_foldl_unBlock {p : Nat} (hp : p < cfg.prioBits) : ∀ (hs : List Nat) (s : Kernel cfg),
    p ∈ (hs.foldl (fun s iTask => if iTask ≠ s.currentTask then s.unBlock (s.prio iTask) else s)
      s).unblocked ↔ p ∈ s.unblocked ∨ ∃ h ∈ hs, h ≠ s.currentTask ∧ p = s.prio h
  | [], s => by simp
  | h :: hs, s => by
      rw [List.foldl_cons, mem_foldl_unBlock hp hs, List.exists_mem_cons_iff, ← or_assoc]
      by_cases hne : h = s.currentTask
      · rw [if_neg (not_not.mpr hne)]
        simp [hne]
      · rw [if_pos hne]
        have hmem : p ∈ (s.unBlock (s.prio h)).unblocked ↔ p ∈ s.unblocked ∨ p = s.prio h := by
          rw [Kernel.unblocked, unBlock, mem_bits_or_mask hp]
        have hhead : (h ≠ s.currentTask ∧ p = s.prio h) ↔ p = s.prio h := by simp [hne]
        rw [hmem, hhead]
        exact Iff.rfl

/-- A block call is refused, or it blocks the priorities it names. -/
theorem block_spec {c : Call} {oc : Outcome} (hc : c.blocks = true)
    (hex : s.exec c = some (t, oc)) :
    (t = s ∧ ∃ r : Ret, oc = .returned r ∧ r.code.isError = true) ∨
      (s.iNesting = 0 ∧ (∀ h, c = .blockTask h → (if h = 0 then s.currentTask else h) ≠ 0) ∧
        (∃ b, t = { s with osBlockedList := b }) ∧
        ∀ p, p ∈ t.unblocked ↔ p ∈ s.unblocked ∧ ¬ c.names s p) := by
  have hblock : ∀ q p, p ∈ (s.block q).unblocked ↔ p ∈ s.unblocked ∧ p ≠ q := by
    intro q p
    rw [Kernel.unblocked, block, bits_and_not_mask, Finset.mem_erase, and_comm]
  cases c with
  | blockPriority q =>
      simp only [exec, osBlockPriority, Option.some.injEq] at hex
      split at hex
      · cases hex
        exact Or.inl ⟨rfl, _, rfl, rfl⟩
      · cases hex
        exact Or.inr ⟨by omega, (fun _ h => by cases h), ⟨_, rfl⟩, hblock q⟩
  | blockTask h =>
      simp only [exec, osBlockTask, Option.some.injEq] at hex
      split at hex
      · cases hex
        exact Or.inl ⟨rfl, _, rfl, rfl⟩
      · generalize htask : (if h = 0 then s.currentTask else h) = task at hex
        split at hex
        · cases hex
          exact Or.inl ⟨rfl, _, rfl, rfl⟩
        · cases hex
          rename_i hnest h0
          subst htask
          refine Or.inr ⟨by omega, fun h' he => ?_, ⟨_, rfl⟩, hblock _⟩
          cases he
          exact h0
  | blockMultipleTask a n =>
      simp only [exec, osBlockMultipleTask, Option.some.injEq] at hex
      split at hex
      · cases hex
        exact Or.inl ⟨rfl, _, rfl, rfl⟩
      · cases hex
        refine Or.inr ⟨by omega, (fun _ h => by cases h), ?_, fun p => mem_foldl_block _ _⟩
        exact foldl_blocked (fun s h => by
          split
          · exact ⟨_, rfl⟩
          · exact ⟨s.osBlockedList, rfl⟩) _ s
  | _ => simp [Call.blocks] at hc

/-- An unblock call is refused, or it unblocks the priorities it names. -/
theorem unBlock_spec {c : Call} {oc : Outcome} (hc : c.isBlock = true) (hb : c.blocks = false)
    (hex : s.exec c = some (t, oc)) :
    (t = s ∧ ∃ r : Ret, oc = .returned r ∧ r.code.isError = true) ∨
      ∀ p < cfg.prioBits, p ∈ t.unblocked ↔ p ∈ s.unblocked ∨ c.names s p := by
  have hunBlock : ∀ q, ∀ p < cfg.prioBits,
      p ∈ (s.unBlock q).unblocked ↔ p ∈ s.unblocked ∨ p = q := by
    intro q p hp
    rw [Kernel.unblocked, unBlock, mem_bits_or_mask hp]
  cases c with
  | unBlockPriority q =>
      cases hex
      exact Or.inr (hunBlock q)
  | unBlockTask h =>
      cases hex
      exact Or.inr (hunBlock _)
  | unBlockMultipleTask a n =>
      simp only [exec, osUnBlockMultipleTask, Option.some.injEq] at hex
      split at hex
      · cases hex
        exact Or.inl ⟨rfl, _, rfl, rfl⟩
      · cases hex
        exact Or.inr fun p hp => mem_foldl_unBlock hp _ _
  | blockPriority | blockTask | blockMultipleTask => simp [Call.blocks] at hb
  | _ => simp [Call.isBlock] at hc

/-- A step leaves `OSBlockedList` as it is, or is a block or unblock call. -/
theorem step_blockedList (hk : KernelInv s) {a : Action} {o : Obs}
    (hd : Disciplined NestedRelease s a) (hstep : s.step a = some (t, o)) :
    t.unblocked = s.unblocked ∨ ∃ c u oc task, a = .call c ∧ c.isBlock = true ∧
      s.exec c = some (u, oc) ∧ t = { u with currentTask := task } := by
  by_cases hb : a.isBlock = true
  · cases a with
    | call c =>
        obtain ⟨ha, u, oc, hex, ho⟩ := step_call_inv hstep
        rcases ho with ⟨r, -, rfl, -⟩ | ⟨task, -, rfl, -⟩
        · exact Or.inr ⟨c, _, oc, t.currentTask, rfl, hb, hex, rfl⟩
        · exact Or.inr ⟨c, _, oc, task, rfl, hb, hex, rfl⟩
    | _ => cases hb
  · exact Or.inl (congrArg bits (move_blockedList hk (hk.move hd hstep) (by simpa using hb)))

/-! ### Free priorities -/

/-- Where a value other than `EMPTY_PRIO` is stored nothing becomes free. -/
theorem update_free {v : Nat → Nat} {q x p : Nat} (hx : x ≠ emptyPrio)
    (hp : Function.update v q x p = emptyPrio) : v p = emptyPrio := by
  by_cases hpq : p = q
  · rw [hpq, Function.update_self] at hp
    exact absurd hp hx
  · rwa [Function.update_of_ne hpq] at hp

theorem takeCeiling_free {m q p : Nat} (hcur : s.currentTask ≠ emptyPrio)
    (hp : (s.takeCeiling m q).priorityVector p = emptyPrio) : s.priorityVector p = emptyPrio := by
  unfold takeCeiling at hp
  dsimp only at hp
  split at hp
  · exact update_free hcur hp
  · exact hp

theorem freeMutex_free {m p : Nat} (hp : (s.freeMutex m).priorityVector p = emptyPrio) :
    s.priorityVector p = emptyPrio := by
  unfold freeMutex at hp
  dsimp only at hp
  split at hp
  · exact update_free (by decide) hp
  · exact hp

theorem clearTcb_free {task p : Nat} (hp : (s.clearTcb task).priorityVector p = emptyPrio) :
    s.priorityVector p = emptyPrio ∨ p = s.prio task := by
  by_cases heq : p = s.prio task
  · exact Or.inr heq
  · left
    have hne : (s.clearTcb task).priorityVector p = s.priorityVector p :=
      Function.update_of_ne heq _ _
    exact hne.symm.trans hp

/-- The action uninstalls `task`: it is not refused. -/
def Uninstalls (s : Kernel cfg) (task : Nat) : Action → Prop
  | .call (.uninstallTask h off _) => task = (if h = 0 then s.currentTask else h) ∧
      s.Installed task ∧ (s.prio task ∈ s.ready ∨ off = true)
  | _ => False

/-- A priority becomes free when its task is uninstalled, and not otherwise. -/
theorem effect_freed (hk : KernelInv s) {c : Call} {oc : Outcome} (he : Effect rule s c u oc)
    {p : Nat} (hp : u.priorityVector p = emptyPrio) :
    s.priorityVector p = emptyPrio ∨ ∃ task, Uninstalls s task (.call c) ∧ p = s.prio task := by
  cases he with
  | installed hwho hq hle hpv hi hfit =>
      rename_i bytes q i a b c d heap
      have hi' := (freeTcb_spec hi).1
      have h32 := cfg.numberOfTasks_le
      refine Or.inl (update_free (v := s.priorityVector) (q := q) (x := i + 1) ?_ hp)
      unfold emptyPrio
      omega
  | uninstalled htask hwho hinst h0 hf hown hr =>
      rename_i task off
      exact (clearTcb_free hp).imp_right fun heq => ⟨task, ⟨htask, hinst, Or.inl hr⟩, heq⟩
  | uninstalledDelayed htask hwho hinst h0 hf hown hr hs =>
      rename_i task found
      -- the priority is freed, whether the task is in the delay list or not
      have hp' : s.priorityVector p = emptyPrio ∨ p = s.prio task := by
        split at hp
        · exact clearTcb_free hp
        · exact clearTcb_free hp
      exact hp'.imp_right fun heq => ⟨task, ⟨htask, hinst, Or.inr rfl⟩, heq⟩
  | waited =>
      rw [SuspendInv.waitEvent_eq] at hp
      exact Or.inl hp
  | mutexReserved =>
      -- the ceiling's entry becomes `MUTEX_PRIO`, never `EMPTY_PRIO`
      exact Or.inl (update_free (by decide) hp)
  | mutexCreated =>
      left
      dsimp only [setMutex, allocEvent, setEvent] at hp
      split at hp
      · exact update_free (by decide) hp
      · exact hp
  | acquired hwho =>
      rename_i m _ _ _ _
      exact Or.inl (takeCeiling_free (s := s.setMutex m fun c =>
        { c with osEventState := .busyResource, osEventOwner := s.currentTask })
        (hk.calling hwho).installed.ne_emptyPrio hp)
  | released hwho =>
      rename_i m _ _ _ _
      obtain ⟨-, -, -, hvec, -⟩ := TableInv.restorePriority_same s m
      have hgive := freeMutex_free hp
      have hp : (s.restorePriority m).priorityVector p = emptyPrio := hgive
      exact Or.inl (hvec ▸ hp)
  | handedOff hwho =>
      rename_i m _ _ _ _
      obtain ⟨-, -, -, hvec, -⟩ := TableInv.restorePriority_same s m
      unfold giveUp at hp
      rw [handOff_eq] at hp
      have hp : (s.restorePriority m).priorityVector p = emptyPrio := hp
      exact Or.inl (hvec ▸ hp)
  | _ => exact Or.inl hp

theorem move_freed (hk : KernelInv s) {a : Action} {o : Obs} (hm : Move rule s a t o) {p : Nat}
    (hp : t.priorityVector p = emptyPrio) :
    s.priorityVector p = emptyPrio ∨ ∃ task, Uninstalls s task a ∧ p = s.prio task := by
  cases hm with
  | returned _ he => exact effect_freed hk he hp
  | switched _ he =>
      have hu := effect_freed hk he (p := p) hp
      exact hu
  | suspended _ he =>
      have hu := effect_freed hk he (p := p) hp
      exact hu
  | started hmain hfree hu hs =>
      rename_i i a b c d task heap u
      subst hu
      have hi' := (freeTcb_spec hfree).1
      have h32 := cfg.numberOfTasks_le
      refine Or.inl (update_free (v := s.priorityVector) (q := 0) (x := i + 1) ?_ hp)
      unfold emptyPrio
      omega
  | woken hcur =>
      rename_i ev q tw _ _ _
      obtain ⟨ctx, dl, ops, heq, -⟩ := cancelTimeout_eq s tw
      rw [heq] at hp
      cases ev with
      | mutex m =>
          exact Or.inl (takeCeiling_free
            (s := { s with contextTask := ctx, delayList := dl, delayOps := ops })
            (hk.run hcur).1.ne_emptyPrio hp)
      | _ => exact Or.inl hp
  | tick hnest ht =>
      obtain ⟨xs, hs⟩ := hk.suspend
      rw [(tick_context hk hs ht).2.same] at hp
      exact Or.inl hp
  | _ => exact Or.inl hp

/-- A task stays installed until it is uninstalled. -/
theorem effect_installed {c : Call} {oc : Outcome} {h : Nat} (he : Effect rule s c u oc)
    (hi : s.Installed h) (hno : ¬ Uninstalls s h (.call c)) : u.Installed h := by
  cases he with
  | installed hwho hq hle hpv hfree hfit =>
      rename_i bytes q i a b c d heap
      have hfill := (fillTcb_keeps (p := q) (a := a) (b := b) hfree hi).installed
      exact hfill
  | uninstalled htask hwho hinst h0 hf hown hr =>
      have hne := fun heq => hno ⟨(heq : h = _).trans htask, hi, Or.inl (heq ▸ hr)⟩
      have hclear := (clearTcb_keeps hinst.pos hi hne).installed
      exact hclear
  | uninstalledDelayed htask hwho hinst h0 hf hown hr hs =>
      have hne := fun heq => hno ⟨(heq : h = _).trans htask, hi, Or.inr rfl⟩
      have hclear := (clearTcb_keeps hinst.pos hi hne).installed
      split
      · exact hclear
      · exact hclear
  | waited =>
      rw [SuspendInv.waitEvent_eq]
      exact hi
  | mutexCreated =>
      refine (installed_congr ?_ h).mpr hi
      dsimp only [setMutex, allocEvent, setEvent]
      split <;> rfl
  | acquired hwho =>
      rename_i m _ _ _ _
      exact (installed_congr (takeCeiling_same (s.setMutex m fun c =>
        { c with osEventState := .busyResource, osEventOwner := s.currentTask }) m
        (s.prio s.currentTask)).1 h).mpr hi
  | released hwho =>
      rename_i m _ _ _ _
      obtain ⟨-, -, hta, -⟩ := TableInv.restorePriority_same s m
      obtain ⟨hsame, -⟩ := freeMutex_same (s.restorePriority m) m
      exact (installed_congr (hsame.taskAlloc.trans hta) h).mpr hi
  | handedOff hwho =>
      rename_i m _ _ _ _
      obtain ⟨-, -, hta, -⟩ := TableInv.restorePriority_same s m
      unfold giveUp
      rw [handOff_eq]
      exact (installed_congr hta h).mpr hi
  | queueSelected =>
      rw [SuspendInv.wakeWaiter_eq]
      exact hi
  | _ => exact hi

end Brtos
