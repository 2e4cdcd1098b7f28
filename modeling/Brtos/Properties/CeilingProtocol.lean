import Brtos.Lib.Ceilings
import Brtos.Properties.Blocking
import Brtos.Properties.Ceiling

/-!
# Brtos.Properties.CeilingProtocol

What **immediate ceilings** are for: nobody ever waits for a mutex, and nobody is held
back by more than one task of lower priority.

The rules are the usual ones (`CeilingUse`). A task acquires only mutexes whose ceiling is
above its base priority, it does not delay itself or pend on anything while it owns a
mutex, and no call blocks a priority that is a ceiling. Under these rules an owner is
always ready, at or above its ceilings and not blocked, so that the task the scheduler
chooses is one the mutexes in use are out of reach of.

The argument on priorities is `Brtos.Lib.Ceilings`; here it is instantiated with the
tasks of the kernel and carried along its runs.
-/

namespace Brtos

open Bits Kernel

variable {cfg : Config} {s t u : Kernel cfg} {rule : Kernel cfg → Nat → Prop}

/-! ### The rules of use -/

/-- The calls that may suspend their caller, acquiring a mutex apart. -/
def Call.waits : Call → Bool
  | .delayTask _ | .semPend .. | .mboxPend .. | .queuePend .. => true
  | _ => false

instance (c : Call) (s : Kernel cfg) (p : Nat) : Decidable (c.names s p) := by
  unfold Call.names
  induction c using Call.casesOn <;> infer_instance

/-- The rules for mutexes with a ceiling. -/
def CeilingUse (s : Kernel cfg) : Action → Prop
  | .call (.mutexAcquire (some m) _) => s.inTask = true → s.Allocated (.mutex m) →
      s.base s.currentTask < (s.mutexTable m).osMaxPriority
  | .call (.mutexCreate p) => 0 < p → p ∈ s.unblocked
  | .call c => (c.waits = true → s.inTask = true → s.OwnsNone s.currentTask) ∧
      (c.blocks = true → ∀ m < cfg.brtosMaxMutex, s.Allocated (.mutex m) →
        0 < (s.mutexTable m).osMaxPriority → ¬ c.names s (s.mutexTable m).osMaxPriority)
  | _ => True

instance (s : Kernel cfg) (a : Action) : Decidable (CeilingUse s a) := by
  unfold CeilingUse
  induction a using Action.casesOn with
  | call c =>
      induction c using Call.casesOn with
      | mutexAcquire m => induction m using Option.casesOn <;> infer_instance
      | _ => infer_instance
  | _ => infer_instance

/-- A task that may be suspended by its call owns nothing. -/
theorem CeilingUse.waits {c : Call} (huse : CeilingUse s (.call c))
    (hw : c.waits = true) (hwho : s.inTask = true) : s.OwnsNone s.currentTask := by
  cases c with
  | delayTask | semPend | mboxPend | queuePend => exact huse.1 hw hwho
  | _ => cases hw

/-! ### What a step does to bases, ceilings and frames -/

/-- A base priority is for the life of a task. -/
theorem effect_base {c : Call} {oc : Outcome} {h : Nat} (he : Effect rule s c u oc)
    (hi : s.Installed h) : u.base h = s.base h := by
  cases he with
  | installed hwho hp hle hpv hfree hfit =>
      refine Function.update_of_ne (fun heq => ?_) _ _
      exact TableInv.not_installed_of_free hfree (heq ▸ hi)
  | uninstalledDelayed => split <;> rfl
  | waited => rw [SuspendInv.waitEvent_eq]
  | mutexCreated =>
      dsimp only [setMutex, allocEvent, setEvent]
      split <;> rfl
  | acquired hwho =>
      rename_i m tw _ _ _
      exact congrFun (takeCeiling_same (s.setMutex m fun c =>
        { c with osEventState := .busyResource, osEventOwner := s.currentTask }) m
        (s.prio s.currentTask)).2.2.2.2.1 h
  | released =>
      rename_i m _ _ _ _ _
      obtain ⟨ready, pv, ctx, mt, hd, heq⟩ := released_eq s m
      rw [heq]
  | handedOff =>
      rename_i m _ _ _ _ _
      obtain ⟨ready, ctx, heq⟩ := restorePriority_eq s m
      unfold giveUp
      rw [handOff_eq, heq]
  | queueSelected => rw [SuspendInv.wakeWaiter_eq]; rfl
  | _ => rfl

theorem move_base (hk : KernelInv s) {a : Action} {o : Obs} {h : Nat} (hm : Move rule s a t o)
    (hi : s.Installed h) : t.base h = s.base h := by
  cases hm with
  | returned _ he => exact effect_base he hi
  | switched _ he =>
      have hu := effect_base he hi
      exact hu
  | suspended _ he =>
      have hu := effect_base he hi
      exact hu
  | started hmain hfree hu =>
      subst hu
      refine Function.update_of_ne (fun heq => ?_) _ _
      exact TableInv.not_installed_of_free hfree (heq ▸ hi)
  | woken =>
      rename_i ev p tw _ _ _ _
      obtain ⟨ctx, dl, ops, heq, -⟩ := cancelTimeout_eq s tw
      rw [heq]
      cases ev with
      | mutex m =>
          exact congrFun (takeCeiling_same
            { s with contextTask := ctx, delayList := dl, delayOps := ops } m p).2.2.2.2.1 h
      | _ => rfl
  | tick hnest ht =>
      obtain ⟨xs, hs⟩ := hk.suspend
      rw [(tick_context hk hs ht).2.same]
      rfl
  | _ => rfl

/-- An owned mutex keeps the ceiling it was created with. -/
theorem effect_maxPriority {c : Call} {oc : Outcome} {m : Nat} (he : Effect rule s c u oc)
    (ha : s.Allocated (.mutex m)) (h0 : u.owner m ≠ 0) :
    (u.mutexTable m).osMaxPriority = (s.mutexTable m).osMaxPriority := by
  -- what the cases below do to the table: one entry, with the same ceiling
  have hup : ∀ {m' : Nat} {w : BRTOSMutex},
      (m' = m → w.osMaxPriority = (s.mutexTable m).osMaxPriority) →
      (Function.update s.mutexTable m' w m).osMaxPriority = (s.mutexTable m).osMaxPriority := by
    intro m' w hw
    rw [Function.update_apply]
    split
    · rename_i heq
      exact hw heq.symm
    · rfl
  cases he with
  | uninstalledDelayed => split <;> rfl
  | waited => rw [SuspendInv.waitEvent_eq]
  | mutexCreated hle hpv hfree =>
      rename_i p m'
      have hne : m' ≠ m := fun heq => (freeEvent_spec hfree).2 (heq ▸ ha)
      dsimp only [setMutex, allocEvent, setEvent]
      rw [Function.update_of_ne hne.symm]
      split <;> rfl
  | mutexDeleted =>
      rename_i m' _
      refine hup fun heq => absurd ?_ h0
      subst heq
      simp only [Kernel.owner, setMutex, Function.update_self]
  | acquired =>
      rw [takeMutex_table]
      exact hup fun heq => heq ▸ rfl
  | released =>
      rw [released_table]
      exact hup fun heq => heq ▸ rfl
  | handedOff =>
      rw [handedOff_table]
      exact hup fun heq => heq ▸ rfl
  | queueSelected => rw [SuspendInv.wakeWaiter_eq]; rfl
  | _ => rfl

/-- Only a creation makes a priority a ceiling. -/
theorem effect_ceiling {c : Call} {oc : Outcome} {m p : Nat} (he : Effect rule s c u oc)
    (hc : u.Ceiling m p) : s.Ceiling m p ∨ c = .mutexCreate p := by
  obtain ⟨ha, hmax, hpos⟩ := hc
  -- an update of another block, or of this one that leaves the flag and the ceiling
  have hev : ∀ {ev' : Event} {w : EventWait cfg.prioBits},
      (Function.update s.event ev' w (.mutex m)).osEventAllocated = true →
      (ev' = .mutex m → w.osEventAllocated = true → s.Allocated (.mutex m)) →
      s.Allocated (.mutex m) := by
    intro ev' w ha hw
    rw [Function.update_apply] at ha
    split at ha
    · rename_i heq
      exact hw heq.symm ha
    · exact ha
  cases he with
  | uninstalledDelayed =>
      left
      split at ha
      · rename_i hf
        rw [if_pos hf] at hmax
        exact ⟨ha, hmax, hpos⟩
      · rename_i hf
        rw [if_neg hf] at hmax
        exact ⟨ha, hmax, hpos⟩
  | waited =>
      rw [SuspendInv.waitEvent_eq] at ha hmax
      exact Or.inl ⟨hev ha (fun heq _ => heq ▸ by assumption), hmax, hpos⟩
  | semCreated | mboxCreated | queueCreated =>
      exact Or.inl ⟨hev ha (fun heq _ => by cases heq), hmax, hpos⟩
  | semDeleted | mboxDeleted => exact Or.inl ⟨hev ha (fun heq _ => by cases heq), hmax, hpos⟩
  | semSelected | mboxSelected | queueSelected =>
      exact Or.inl ⟨hev ha (fun heq _ => by cases heq), hmax, hpos⟩
  | mutexCreated hle hpv hfree =>
      rename_i p' m'
      by_cases hm : m = m'
      · subst hm
        right
        rw [← hmax]
        simp [setMutex]
      · left
        dsimp only [Kernel.Allocated, setMutex, allocEvent, setEvent] at ha hmax
        rw [Function.update_of_ne (fun heq => hm (Event.mutex.inj heq))] at ha
        rw [Function.update_of_ne hm] at hmax
        split at ha
        · rename_i hp
          rw [if_pos hp] at hmax
          exact ⟨ha, hmax, hpos⟩
        · rename_i hp
          rw [if_neg hp] at hmax
          exact ⟨ha, hmax, hpos⟩
  | mutexDeleted =>
      rename_i m' _
      by_cases hm : m = m'
      · subst hm
        simp [setMutex] at hmax
        omega
      · left
        dsimp only [Kernel.Allocated, setMutex, deleteEvent, setEvent] at ha hmax
        rw [Function.update_of_ne (fun heq => hm (Event.mutex.inj heq))] at ha
        rw [Function.update_of_ne hm] at hmax
        exact ⟨ha, hmax, hpos⟩
  | acquired hwho hall =>
      rename_i m' tw _ _
      have hevs := (takeCeiling_same (s.setMutex m' fun c =>
        { c with osEventState := .busyResource, osEventOwner := s.currentTask }) m'
        (s.prio s.currentTask)).2.2.1
      have ha' : ((s.takeMutex m').event (.mutex m)).osEventAllocated = true := ha
      have hevs : (s.takeMutex m').event = s.event := hevs
      rw [hevs] at ha'
      rw [takeMutex_table, Function.update_apply] at hmax
      refine Or.inl ⟨ha', ?_, hpos⟩
      split at hmax
      · rename_i heq
        exact heq ▸ hmax
      · exact hmax
  | released hwho hall =>
      rename_i m' _ _ _
      obtain ⟨ready, pv, ctx, mt, hd, heq⟩ := released_eq s m'
      have ha' : (((s.giveUp m').freeMutex m').event (.mutex m)).osEventAllocated = true := ha
      rw [heq] at ha'
      rw [released_table, Function.update_apply] at hmax
      refine Or.inl ⟨ha', ?_, hpos⟩
      split at hmax
      · rename_i heq
        exact heq ▸ hmax
      · exact hmax
  | handedOff hwho hall =>
      rename_i m' _ _ _
      obtain ⟨ready, ctx, heq⟩ := restorePriority_eq s m'
      have ha' : (((s.giveUp m').handOff m').event (.mutex m)).osEventAllocated = true := ha
      unfold giveUp at ha'
      rw [handOff_eq, heq] at ha'
      rw [handedOff_table, Function.update_apply] at hmax
      refine Or.inl ⟨hev ha' (fun heq _ => heq ▸ hall), ?_, hpos⟩
      split at hmax
      · rename_i heq
        exact heq ▸ hmax
      · exact hmax
  | _ => exact Or.inl ⟨ha, hmax, hpos⟩

theorem move_ceiling (hk : KernelInv s) {a : Action} {o : Obs} {m p : Nat} (hm : Move rule s a t o)
    (hc : t.Ceiling m p) : s.Ceiling m p ∨ a = .call (.mutexCreate p) := by
  cases hm with
  | returned _ he => exact (effect_ceiling he hc).imp_right (congrArg Action.call)
  | switched _ he =>
      have hu := (effect_ceiling he (m := m) (p := p) hc).imp_right (congrArg Action.call)
      exact hu
  | suspended _ he =>
      have hu := (effect_ceiling he (m := m) (p := p) hc).imp_right (congrArg Action.call)
      exact hu
  | started hmain hfree hu =>
      subst hu
      exact Or.inl hc
  | timedOut =>
      rename_i ev q tw _ _ _ _
      refine Or.inl ⟨?_, hc.2⟩
      have ha := hc.1
      simp only [Kernel.Allocated, leaveWaitList, setFrame, setEvent, Function.update_apply] at ha
      split at ha
      · rename_i heq
        exact heq ▸ ha
      · exact ha
  | woken =>
      rename_i ev q tw _ _ _ _
      obtain ⟨ctx, dl, ops, heq, -⟩ := cancelTimeout_eq s tw
      rw [heq] at hc
      cases ev with
      | mutex m' =>
          generalize hv : { s with contextTask := ctx, delayList := dl, delayOps := ops } = v at hc
          obtain ⟨hmt, -⟩ := takeCeiling_fields v m' q
          have hev := (takeCeiling_same v m' q).2.2.1
          obtain ⟨ha, hmax, hpos⟩ := hc
          dsimp only [Kernel.Allocated, Kernel.finishPend, setFrame, noteAcquired] at ha hmax
          rw [hev] at ha
          rw [hmt, Function.update_apply] at hmax
          subst hv
          refine Or.inl ⟨ha, ?_, hpos⟩
          split at hmax
          · rename_i hm'
            exact hm' ▸ hmax
          · exact hmax
      | _ => exact Or.inl hc
  | tick hnest ht =>
      obtain ⟨xs, hs⟩ := hk.suspend
      rw [(tick_context hk hs ht).2.same] at hc
      exact Or.inl hc
  | _ => exact Or.inl hc

/-- A call leaves the frames as they are, but for a new task's and that of a caller it
suspends: one that may wait, or that acquires a mutex another task owns. -/
theorem effect_frame {c : Call} {oc : Outcome} {h : Nat} (he : Effect rule s c u oc) :
    u.frame h = s.frame h ∨ u.frame h = .user ∨
      (s.inTask = true ∧ h = s.currentTask ∧ u.mutexTable = s.mutexTable ∧
        (c.waits = true ∧ (∀ m p timeWait, u.frame h ≠ .pend (.mutex m) p timeWait) ∨
          ∃ m timeWait, c = .mutexAcquire (some m) timeWait ∧ s.Allocated (.mutex m) ∧
            s.Unavailable (.mutex m))) := by
  cases he with
  | installed =>
      refine Or.imp_right Or.inl ?_
      simp only [Kernel.fillTcb, Function.update_apply]
      split
      · exact Or.inr rfl
      · exact Or.inl rfl
  | uninstalledDelayed =>
      left
      split <;> rfl
  | delayed hwho =>
      rw [SuspendInv.startDelay_eq]
      dsimp only
      rw [Function.update_apply]
      split
      · rename_i heq
        exact Or.inr (Or.inr ⟨hwho, heq, rfl, Or.inl ⟨rfl, fun _ _ _ hf => by cases hf⟩⟩)
      · exact Or.inl rfl
  | waited hwho hev htw hun =>
      rename_i ev tw
      rw [SuspendInv.waitEvent_eq]
      dsimp only
      rw [Function.update_apply]
      split
      · rename_i heq
        refine Or.inr (Or.inr ⟨hwho, heq, rfl, ?_⟩)
        cases ev with
        | mutex m => exact Or.inr ⟨m, tw, rfl, hev, hun⟩
        | _ => exact Or.inl ⟨rfl, fun _ _ _ hf => by cases hf⟩
      · exact Or.inl rfl
  | mutexCreated =>
      left
      dsimp only [setMutex, allocEvent, setEvent]
      split <;> rfl
  | acquired =>
      rename_i m tw _ _ _ _
      exact Or.inl (congrFun (takeCeiling_same (s.setMutex m fun c =>
        { c with osEventState := .busyResource, osEventOwner := s.currentTask }) m
        (s.prio s.currentTask)).2.1 h)
  | released =>
      rename_i m _ _ _ _ _
      obtain ⟨ready, pv, ctx, mt, hd, heq⟩ := released_eq s m
      rw [heq]
      exact Or.inl rfl
  | handedOff =>
      rename_i m _ _ _ _ _
      obtain ⟨ready, ctx, heq⟩ := restorePriority_eq s m
      unfold giveUp
      rw [handOff_eq, heq]
      exact Or.inl rfl
  | queueSelected =>
      rw [SuspendInv.wakeWaiter_eq]
      exact Or.inl rfl
  | _ => exact Or.inl rfl

/-- A mutex without waiters gets an owner by an acquire only. -/
theorem effect_owner {c : Call} {oc : Outcome} {m : Nat} (he : Effect rule s c u oc)
    (hw : (s.event (.mutex m)).osEventWait = 0) (h0 : u.owner m ≠ 0) :
    u.owner m = s.owner m ∨ (s.inTask = true ∧ u.owner m = s.currentTask ∧
      s.Allocated (.mutex m) ∧ ∃ timeWait, c = .mutexAcquire (some m) timeWait) := by
  by_cases hsame : u.owner m = s.owner m
  · exact Or.inl hsame
  rcases effect_new_owner he hsame h0 with ⟨hwho, hcur⟩ | ⟨-, -, -, hw', -⟩
  · refine Or.inr ⟨hwho, hcur, ?_⟩
    cases he with
    | uninstalledDelayed =>
        refine absurd ?_ hsame
        split <;> rfl
    | waited =>
        rw [SuspendInv.waitEvent_eq] at hsame
        exact absurd rfl hsame
    | mutexCreated =>
        refine absurd ?_ hsame
        dsimp only [Kernel.owner, setMutex, allocEvent, setEvent]
        rw [Function.update_apply]
        split
        · rename_i heq
          subst heq
          split <;> rfl
        · split <;> rfl
    | mutexDeleted =>
        simp only [Kernel.owner, setMutex, Function.update_apply] at hsame h0
        split at h0
        · exact absurd rfl h0
        · rename_i hm
          rw [if_neg hm] at hsame
          exact absurd rfl hsame
    | acquired hwho' ha =>
        rename_i m' tw _ _
        rw [Kernel.owner, takeMutex_table, Function.update_apply] at hsame
        split at hsame
        · rename_i heq
          subst heq
          exact ⟨ha, tw, rfl⟩
        · exact absurd rfl hsame
    | released =>
        rw [Kernel.owner, released_table, Function.update_apply] at hsame h0
        split at h0
        · exact absurd rfl h0
        · rename_i hm
          rw [if_neg hm] at hsame
          exact absurd rfl hsame
    | handedOff _ _ _ _ hw' =>
        rw [Kernel.owner, handedOff_table, Function.update_apply] at hsame
        split at hsame
        · rename_i heq
          subst heq
          exact absurd hw hw'
        · exact absurd rfl hsame
    | _ => exact absurd rfl hsame
  · exact absurd hw hw'

/-- The running task stays, or the scheduler has chosen. -/
theorem move_running (hk : KernelInv s) {a : Action} {o : Obs} (hm : Move rule s a t o) :
    t.currentTask = s.currentTask ∨ t.osSchedule = some t.currentTask := by
  by_cases htick : a = .tick
  · subst htick
    cases hm with
    | tick hnest ht =>
        obtain ⟨xs, hs⟩ := hk.suspend
        rw [(tick_context hk hs ht).2.same]
        exact Or.inl rfl
  · exact move_currentTask hm htick

/-- The ceiling of an owned mutex after a step. -/
theorem move_maxPriority (hk : KernelInv s) {a : Action} {o : Obs} {m : Nat}
    (hm : Move rule s a t o) (ha : s.Allocated (.mutex m)) (h0 : t.owner m ≠ 0) :
    (t.mutexTable m).osMaxPriority = (s.mutexTable m).osMaxPriority := by
  by_cases hcall : ∃ c, a = .call c
  · obtain ⟨c, rfl⟩ := hcall
    obtain ⟨-, u, oc, he, ⟨task, rfl⟩, -⟩ := hm.call_inv
    have hu := effect_maxPriority he ha h0
    exact hu
  · exact (move_table hk hm (fun c h => hcall ⟨c, h⟩) m).2

theorem base_le_level (s : Kernel cfg) (h : Nat) : ∀ ms : List Nat, s.base h ≤ s.level h ms
  | [] => le_rfl
  | _ :: ms => (base_le_level s h ms).trans (le_max_right _ _)

/-! ### The invariant -/

/-- The tasks of the kernel; those hold a resource that own a mutex. -/
def Kernel.ceilings (s : Kernel cfg) : Ceilings Nat Nat where
  base := s.base
  prio := s.prio
  Holds := fun h => h ≠ 0 ∧ ∃ m, s.owner m = h

/-- Nobody is inside an acquire, owners are outside the kernel and below the ceilings of
what they own, and no ceiling is blocked. -/
structure CeilingCore (s : Kernel cfg) : Prop where
  noPend : ∀ {h m p tw}, s.Installed h → s.frame h ≠ .pend (.mutex m) p tw
  below : ∀ {m}, s.owner m ≠ 0 → s.base (s.owner m) < (s.mutexTable m).osMaxPriority
  user : ∀ {m}, s.owner m ≠ 0 → s.frame (s.owner m) = .user
  unblocked : ∀ {m p}, s.Ceiling m p → p ∈ s.unblocked
  nested : s.ceilings.Nested

/-- The invariant of the protocol. -/
structure CeilingInv (s : Kernel cfg) : Prop extends CeilingCore s where
  running : s.currentTask ≠ 0 → s.ceilings.Above s.currentTask
  main : s.currentTask = 0 → ∀ m, s.owner m = 0

namespace CeilingCore

/-- Mutexes have no waiters. -/
theorem waiting_empty (hc : CeilingCore s) (hk : CoreInv s) (m : Nat) :
    s.waiting (.mutex m) = ∅ := by
  obtain ⟨xs, hs⟩ := hk.suspend
  refine Finset.eq_empty_of_forall_notMem fun p hp => ?_
  obtain ⟨h, tw, hi, hf⟩ := hs.wait_pend hp
  exact hc.noPend hi hf

theorem wait_zero (hc : CeilingCore s) (hk : CoreInv s) (m : Nat) :
    (s.event (.mutex m)).osEventWait = 0 := by
  obtain ⟨xs, hs⟩ := hk.suspend
  exact hs.wait_eq_zero.mpr (hc.waiting_empty hk m)

/-- An owner is at or above the ceiling of what it owns. -/
theorem maxPriority_le (hc : CeilingCore s) (hk : CoreInv s) (hst : StackInv s) {m : Nat}
    (h0 : s.owner m ≠ 0) : (s.mutexTable m).osMaxPriority ≤ s.prio (s.owner m) := by
  have hi := (hk.table.owner_installed h0).2
  rcases hst.owned hi rfl with hm | ⟨p, tw, hf⟩
  · rw [hst.prio_eq hi]
    exact max_le_level hm
  · exact absurd hf (hc.noPend hi)

/-- An owner is ready, and its priority is a ceiling and so not blocked. -/
theorem eligible (hc : CeilingCore s) (hk : CoreInv s) (hst : StackInv s) {m : Nat}
    (h0 : s.owner m ≠ 0) : s.prio (s.owner m) ∈ s.ready ∧ s.prio (s.owner m) ∈ s.unblocked := by
  obtain ⟨xs, hs⟩ := hk.suspend
  have hi := (hk.table.owner_installed h0).2
  refine ⟨hs.ready_user hi (hc.user h0), ?_⟩
  rcases hk.table.prio_base hi with hb | ⟨m', hceil, -⟩
  · have hlt := (hc.below h0).trans_le (hc.maxPriority_le hk hst h0)
    exact absurd (hb ▸ hlt) (lt_irrefl _)
  · exact hc.unblocked hceil

/-- The task that `OSSchedule` chooses is above the owners by its base priority. -/
theorem above_of_schedule (hc : CeilingCore s) (hk : CoreInv s) (hst : StackInv s) {h : Nat}
    (hi : s.Installed h) (hsch : s.osSchedule = some h) : s.ceilings.Above h := by
  obtain ⟨xs, hs⟩ := hk.suspend
  have hbest : ∀ a, s.ceilings.Holds a → a ≠ h → s.prio a < s.prio h := by
    rintro a ⟨h0, m, rfl⟩ hne
    obtain ⟨hready, hun⟩ := hc.eligible hk hst h0
    rcases osSchedule_cases hsch with ⟨q, htop, hpv⟩ | ⟨hnone, -⟩
    · have hq := (hk.task_of_ready htop.1).2
      rw [hpv] at hq
      have hle := htop.2.2 _ hready hun
      refine hq ▸ hle.lt_of_ne fun heq => hne ?_
      rw [← hpv, ← heq, hk.table.pv_prio (hk.table.owner_installed h0).2]
    · exact absurd (Finset.mem_inter.mpr ⟨hready, hun⟩) (by rw [hnone]; simp)
  exact hc.nested.above hbest fun hplain =>
    hk.table.prio_eq_base hi fun m _ ho => hplain ⟨hi.pos, m, ho⟩

end CeilingCore

namespace CeilingInv

/-- **No waiting.** A mutex with a ceiling above the running task's base priority is free
or the task's own. -/
theorem owner_eq (hc : CeilingInv s) (hk : CoreInv s) (hst : StackInv s) {m : Nat}
    (hcur : s.currentTask ≠ 0) (hbase : s.base s.currentTask < (s.mutexTable m).osMaxPriority)
    (h0 : s.owner m ≠ 0) : s.owner m = s.currentTask :=
  (hc.running hcur).free ⟨h0, m, rfl⟩ (hc.maxPriority_le hk hst h0) hbase

/-- So an acquire that keeps to the rules does not wait. -/
theorem not_unavailable (hc : CeilingInv s) (hk : KernelInv s) (hst : StackInv s) {m tw : Nat}
    (huse : CeilingUse s (.call (.mutexAcquire (some m) tw))) (hwho : s.inTask = true)
    (ha : s.Allocated (.mutex m)) : ¬ s.Unavailable (.mutex m) := by
  rintro ⟨hne, hst'⟩
  have h0 : s.owner m ≠ 0 := fun h0 => hst' ((hk.table.state_owner ha).mpr h0)
  exact hne (hc.owner_eq hk.toCoreInv hst (hk.calling hwho).installed.pos (huse hwho ha) h0).symm

/-- A task's frame after a step: the same, or outside the kernel, or the task has just been
suspended, and then it owns nothing and is not inside an acquire. -/
theorem move_frame (hc : CeilingInv s) (hk : KernelInv s) (hst : StackInv s) {a : Action}
    {o : Obs} (huse : CeilingUse s a) (hm : Move rule s a t o) (h : Nat) :
    t.frame h = s.frame h ∨ t.frame h = .user ∨
      (s.inTask = true ∧ h = s.currentTask ∧ s.OwnsNone h ∧ t.mutexTable = s.mutexTable ∧
        ∀ m p timeWait, t.frame h ≠ .pend (.mutex m) p timeWait) := by
  have hcall : ∀ {c u oc}, CeilingUse s (.call c) → Effect rule s c u oc →
      u.frame h = s.frame h ∨ u.frame h = .user ∨
        (s.inTask = true ∧ h = s.currentTask ∧ s.OwnsNone h ∧ u.mutexTable = s.mutexTable ∧
          ∀ m p timeWait, u.frame h ≠ .pend (.mutex m) p timeWait) := by
    intro c u oc huse he
    rcases effect_frame (h := h) he with hf | hf | ⟨hwho, rfl, htab, ⟨hw, hnp⟩ | ⟨m, tw, rfl, ha, hun⟩⟩
    · exact Or.inl hf
    · exact Or.inr (Or.inl hf)
    · exact Or.inr (Or.inr ⟨hwho, rfl, huse.waits hw hwho, htab, hnp⟩)
    · exact absurd hun (hc.not_unavailable hk hst huse hwho ha)
  cases hm with
  | returned _ he => exact hcall huse he
  | switched _ he =>
      have hu := hcall huse he
      exact hu
  | suspended _ he =>
      have hu := hcall huse he
      exact hu
  | started hmain hfree hu =>
      subst hu
      refine Or.imp_right Or.inl ?_
      simp only [Kernel.fillTcb, Function.update_apply]
      split
      · exact Or.inr rfl
      · exact Or.inl rfl
  | delayEnded | timedOut =>
      refine Or.imp_right Or.inl ?_
      simp only [setFrame, leaveWaitList, setEvent, Function.update_apply]
      split
      · exact Or.inr rfl
      · exact Or.inl rfl
  | woken =>
      rename_i ev p tw _ _ _ _
      by_cases hcur : h = s.currentTask
      · subst hcur
        exact Or.inr (Or.inl (Function.update_self _ _ _))
      · refine Or.inl ((Function.update_of_ne hcur _ _).trans ?_)
        obtain ⟨ctx, dl, ops, heq, -⟩ := cancelTimeout_eq s tw
        rw [heq]
        cases ev with
        | mutex m =>
            exact congrFun (takeCeiling_same
              { s with contextTask := ctx, delayList := dl, delayOps := ops } m p).2.1 h
        | _ => rfl
  | tick hnest ht => exact Or.inl (congrFun (tick_frame hk ht).2.1 h)
  | _ => exact Or.inl rfl

/-- A mutex gets an owner by an acquire of the running task only. -/
theorem move_owner (hc : CeilingInv s) (hk : KernelInv s) {a : Action} {o : Obs} {m : Nat}
    (hm : Move rule s a t o) (h0 : t.owner m ≠ 0) :
    t.owner m = s.owner m ∨ (s.inTask = true ∧ t.owner m = s.currentTask ∧
      s.Allocated (.mutex m) ∧ ∃ timeWait, a = .call (.mutexAcquire (some m) timeWait)) := by
  by_cases hcall : ∃ c, a = .call c
  · obtain ⟨c, rfl⟩ := hcall
    obtain ⟨-, u, oc, he, ⟨task, rfl⟩, -⟩ := hm.call_inv
    rcases effect_owner he (hc.wait_zero hk.toCoreInv m) h0 with h | ⟨hwho, hcur, ha, tw, rfl⟩
    · exact Or.inl h
    · exact Or.inr ⟨hwho, hcur, ha, tw, rfl⟩
  · exact Or.inl (move_table hk hm (fun c h => hcall ⟨c, h⟩) m).1

/-- A step by another task, or by nobody, leaves an owner's priorities. -/
theorem move_holder (hc : CeilingInv s) (hk : KernelInv s) (hkt : KernelInv t) {a : Action} {o : Obs}
    {h : Nat} (hm : Move rule s a t o) (hne : h ≠ s.currentTask) (hh : t.ceilings.Holds h) :
    s.ceilings.Holds h ∧ t.ceilings.prio h = s.ceilings.prio h ∧
      t.ceilings.base h = s.ceilings.base h := by
  obtain ⟨h0, m, rfl⟩ := hh
  have ho : t.owner m = s.owner m := by
    rcases hc.move_owner hk hm h0 with ho | ⟨-, hcur, -⟩
    · exact ho
    · exact absurd hcur hne
  have hi : s.Installed (t.owner m) := ho ▸ (hk.table.owner_installed (ho ▸ h0)).2
  have hit := (hkt.table.owner_installed h0).2
  refine ⟨⟨h0, m, ho.symm⟩, ?_, move_base hk hm hi⟩
  by_cases htick : a = .tick
  · subst htick
    cases hm with
    | tick hnest ht => exact (tick_frame hk ht).2.2 _
  · exact (move_keeps_of_ne hm hi (fun _ => hne) (Or.inr (Or.inr hit)) (fun _ => hne) htick).prio

/-- No ceiling gets blocked. -/
theorem step_unblocked (hc : CeilingInv s) (hk : KernelInv s) {a : Action} {o : Obs} {m p : Nat}
    (hd : Disciplined NestedRelease s a) (huse : CeilingUse s a) (hs : s.step a = some (t, o))
    (hceil : t.Ceiling m p) : p ∈ t.unblocked := by
  have hold := move_ceiling hk (hk.move hd hs) hceil
  have hp : p ∈ s.unblocked := by
    rcases hold with h | rfl
    · exact hc.unblocked h
    · exact huse hceil.2.2
  rcases step_blockedList hk hd hs with heq | ⟨c, u, oc, task, rfl, hb, hex, rfl⟩
  · exact heq ▸ hp
  · have hceil' : s.Ceiling m p := by
      rcases hold with h | h
      · exact h
      · cases h
        cases hb
    by_cases hbl : c.blocks = true
    · rcases block_spec hbl hex with ⟨rfl, -⟩ | ⟨-, -, -, hmem⟩
      · exact hp
      · refine (hmem p).mpr ⟨hp, ?_⟩
        obtain ⟨ha, rfl, hpos⟩ := hceil'
        have hrule : c.blocks = true → ∀ m < cfg.brtosMaxMutex, s.Allocated (.mutex m) →
            0 < (s.mutexTable m).osMaxPriority → ¬ c.names s (s.mutexTable m).osMaxPriority := by
          cases c with
          | blockPriority | blockTask | blockMultipleTask => exact huse.2
          | _ => cases hbl
        exact hrule hbl m (hk.table.mutex_lt ha) ha hpos
    · rcases unBlock_spec hb (by simpa using hbl) hex with ⟨rfl, -⟩ | hmem
      · exact hp
      · exact (hmem p (hk.table.ceil_lt hceil')).mpr (Or.inl hp)

/-- What a step does to the tasks that hold mutexes: the running one may take or give
back, and nobody else changes. -/
theorem move_nested (hc : CeilingInv s) (hk : KernelInv s) (hkt : KernelInv t) (hstt : StackInv t)
    {a : Action} {o : Obs} (hm : Move rule s a t o) (hcur : s.currentTask ≠ 0) :
    t.ceilings.Nested ∧ t.ceilings.Above s.currentTask := by
  refine hc.nested.step (hc.running hcur)
    (fun h hne hh => hc.move_holder hk hkt hm hne hh) (move_base hk hm (hk.run hcur).1) ?_
  rintro ⟨h0, m, ho⟩
  have hi := (hkt.table.owner_installed (ho.symm ▸ h0)).2
  have hle := base_le_level t s.currentTask (t.held s.currentTask)
  rwa [← hstt.prio_eq (ho ▸ hi)] at hle

/-- Before `BRTOSStart` nobody owns anything, and nobody will after one step. -/
theorem move_main (hc : CeilingInv s) (hk : KernelInv s) {a : Action} {o : Obs}
    (hm : Move rule s a t o) (hcur : s.currentTask = 0) (m : Nat) : t.owner m = 0 := by
  by_contra h0
  rcases hc.move_owner hk hm h0 with ho | ⟨hwho, -⟩
  · exact h0 (ho.trans (hc.main hcur m))
  · exact absurd hcur (hk.calling hwho).installed.pos

/-- **Step lemma of the protocol.** -/
theorem step (hc : CeilingInv s) (hk : KernelInv s) (hst : StackInv s) {a : Action} {o : Obs}
    (hd : Disciplined LifoRelease s a) (huse : CeilingUse s a) (hs : s.step a = some (t, o)) :
    CeilingInv t := by
  have hm := hk.move hd hs
  have hn := hd.nested hk hst hs
  have hkt := step_inv hk hn hs
  have hstt := move_stack hk hst hm
  have hframe := hc.move_frame hk hst huse hm
  have hcore : CeilingCore t := by
    constructor
    case noPend =>
      intro h m p tw hi hf
      rcases move_pend hk hm hi hf with ⟨hi', hf', -⟩ | ⟨hwho, rfl, -⟩
      · exact hc.noPend hi' hf'
      · -- it was outside the kernel, so it has just been suspended, and not by an acquire
        rcases hframe s.currentTask with h | h | ⟨-, -, -, -, h⟩
        · rw [hf, inTask_frame hwho] at h
          cases h
        · rw [hf] at h
          cases h
        · exact h m p tw hf
    case below =>
      intro m h0
      rcases hc.move_owner hk hm h0 with ho | ⟨hwho, ho, ha, tw, rfl⟩
      · have h0' : s.owner m ≠ 0 := ho ▸ h0
        obtain ⟨ha, hi⟩ := hk.table.owner_installed h0'
        rw [move_maxPriority hk hm ha h0, ho, move_base hk hm hi]
        exact hc.below h0'
      · rw [move_maxPriority hk hm ha h0, ho, move_base hk hm (hk.calling hwho).installed]
        exact huse hwho ha
    case user =>
      intro m h0
      have hsame : s.frame (t.owner m) = .user := by
        rcases hc.move_owner hk hm h0 with ho | ⟨hwho, ho, -⟩
        · rw [ho]
          exact hc.user (ho ▸ h0)
        · rw [ho]
          exact inTask_frame hwho
      rcases hframe (t.owner m) with h | h | ⟨hwho, ho, hown, htab, -⟩
      · exact h.trans hsame
      · exact h
      · -- a task that owns a mutex is not suspended
        have ho' : s.owner m = t.owner m := by rw [Kernel.owner, Kernel.owner, htab]
        have ha := (hkt.table.owner_installed h0).1
        exact absurd ho' (hown m (hkt.table.mutex_lt ha))
    case unblocked => exact hc.step_unblocked hk hn huse hs
    case nested =>
      by_cases hcur : s.currentTask = 0
      · rintro a b ⟨h0, m, rfl⟩ - -
        exact absurd (hc.move_main hk hm hcur m) h0
      · exact (hc.move_nested hk hkt hstt hm hcur).1
  have hrun := move_running hk hm
  refine ⟨hcore, fun hcur' => ?_, fun hcur' m => ?_⟩
  · rcases hrun with heq | hsch
    · rw [heq] at hcur' ⊢
      exact (hc.move_nested hk hkt hstt hm hcur').2
    · exact hcore.above_of_schedule hkt.toCoreInv hstt (hkt.run hcur').1 hsch
  · rcases hrun with heq | hsch
    · exact hc.move_main hk hm (heq ▸ hcur') m
    · -- no entry of `PriorityVector` is 0
      rw [hcur'] at hsch
      rcases osSchedule_cases hsch with ⟨q, -, hpv⟩ | ⟨-, hpv⟩
      · exact absurd hpv (hkt.table.pv_ne_zero q)
      · exact absurd hpv (hkt.table.pv_ne_zero 0)

end CeilingInv

theorem init_ceiling : CeilingInv (Kernel.init cfg) := by
  have hown : ∀ m, (Kernel.init cfg).owner m = 0 := fun _ => rfl
  have hno := not_installed_init cfg
  refine ⟨⟨fun hi => absurd hi (hno _), fun h0 => absurd (hown _) h0, fun h0 => absurd (hown _) h0,
    fun hc => ?_, ?_⟩, fun h => absurd rfl h, fun _ => hown⟩
  · exact absurd hc.1 Bool.false_ne_true
  · rintro a b ⟨h0, m, rfl⟩ - -
    exact absurd (hown m) h0

/-- What callers promise who use immediate ceilings. -/
def CeilingRules (s : Kernel cfg) (a : Action) : Prop :=
  Disciplined LifoRelease s a ∧ CeilingUse s a

instance (s : Kernel cfg) (a : Action) : Decidable (CeilingRules s a) :=
  inferInstanceAs (Decidable (_ ∧ _))

theorem ceiling_run {tr : Trace} (hr : RunFromInit CeilingRules tr s) :
    KernelInv s ∧ StackInv s ∧ CeilingInv s := by
  refine hr.invariant (P := fun s => KernelInv s ∧ StackInv s ∧ CeilingInv s)
    ⟨init_inv, init_stack, init_ceiling⟩ ?_
  rintro s a t o ⟨hk, hst, hc⟩ ⟨hd, huse⟩ hs
  exact ⟨step_inv hk (hd.nested hk hst hs) hs, move_stack hk hst (hk.move hd hs),
    hc.step hk hst hd huse hs⟩

/-! ### Nobody waits -/

/-- An acquire by a task of a mutex that is free or its own. -/
theorem acquire_ok (hk : KernelInv s) {m : Nat} (tw : Nat) (hwho : s.inTask = true)
    (ha : s.Allocated (.mutex m)) (hfree : s.owner m ≠ 0 → s.owner m = s.currentTask) :
    ∃ t, s.step (.call (.mutexAcquire (some m) tw)) = some (t,
        .returned s.currentTask (.mutexAcquire (some m) tw) RetCode.ok.ret) ∧
      t.owner m = s.currentTask := by
  have hn := inTask_iNesting hwho
  have hcaller : s.caller = s.currentTask := if_pos hn
  have hexec : s.exec (.mutexAcquire (some m) tw) = some (s.mutexAcquire tw m) := by
    rw [Kernel.exec, osMutexAcquire, checkPend, if_neg (by simp [hn]), checkEvent]
    exact if_neg fun h => h.2 ha
  by_cases hown : s.currentTask = s.owner m
  · have hbody : s.mutexAcquire tw m = (s, .returned RetCode.ok.ret) := if_pos hown
    refine ⟨s, ?_, hown.symm⟩
    simp [step, stepCall, Call.allowed, hwho, hexec, hbody, hcaller]
  · have h0 : s.owner m = 0 := by
      by_contra h0
      exact hown (hfree h0).symm
    have hbody : s.mutexAcquire tw m = (s.takeMutex m, .returned RetCode.ok.ret) := by
      rw [Kernel.mutexAcquire, if_neg hown, if_pos ((hk.table.state_owner ha).mpr h0)]
      rfl
    refine ⟨s.takeMutex m, ?_, ?_⟩
    · simp [step, stepCall, Call.allowed, hwho, hexec, hbody, hcaller]
    · rw [Kernel.owner, takeMutex_table, Function.update_self]

/-- What the protocol guarantees of a state: nobody is inside an acquire, the owners of
mutexes are eligible at or above their ceilings, and the running task gets every mutex
whose ceiling is above its base priority at once. -/
structure NeverWaits (s : Kernel cfg) : Prop where
  waiting : ∀ m, s.waiting (.mutex m) = ∅
  outside : ∀ h m p timeWait, s.Installed h → s.frame h ≠ .pend (.mutex m) p timeWait
  owner : ∀ m, s.owner m ≠ 0 → (s.mutexTable m).osMaxPriority ≤ s.prio (s.owner m) ∧
    s.prio (s.owner m) ∈ s.ready ∧ s.prio (s.owner m) ∈ s.unblocked
  acquire : ∀ m timeWait, s.inTask = true → s.Allocated (.mutex m) →
    s.base s.currentTask < (s.mutexTable m).osMaxPriority →
    ∃ t, s.step (.call (.mutexAcquire (some m) timeWait)) = some (t,
        .returned s.currentTask (.mutexAcquire (some m) timeWait) RetCode.ok.ret) ∧
      t.owner m = s.currentTask

/-- **Immediate ceilings: nobody waits for a mutex**, and so no two tasks can wait for each
other's. -/
theorem never_waits {tr : Trace} (hr : RunFromInit CeilingRules tr s) : NeverWaits s := by
  obtain ⟨hk, hst, hc⟩ := ceiling_run hr
  refine ⟨hc.waiting_empty hk.toCoreInv, fun h m p tw hi => hc.noPend hi, fun m h0 => ?_,
    fun m tw hwho ha hbase => ?_⟩
  · exact ⟨hc.maxPriority_le hk.toCoreInv hst h0, hc.eligible hk.toCoreInv hst h0⟩
  · exact acquire_ok hk tw hwho ha fun h0 =>
      hc.owner_eq hk.toCoreInv hst (hk.calling hwho).installed.pos hbase h0

/-- The first task takes two mutexes in turn, is preempted by the second task while it
holds both, and that takes a third one; with the orders of the first two reversed the
tasks could otherwise have locked each other out. -/
def nestedCeilingScript : List Action :=
  [.call (.installTask false 256 2), .call (.installTask false 256 9), .call (.mutexCreate 5),
    .call (.mutexCreate 7), .call (.mutexCreate 12), .brtosStart, .call (.delayTask 1),
    .call (.mutexAcquire (some 1) 0), .call (.mutexAcquire (some 0) 0), .intEnter, .tick, .intExit,
    .resume, .call (.mutexAcquire (some 2) 0)]

set_option maxRecDepth 20000 in
theorem never_waits_nested :
    let s := kernelAfter nestedCeilingScript
    s.currentTask = 2 ∧ s.owner 0 = 1 ∧ s.owner 1 = 1 ∧ s.owner 2 = 2 ∧ NeverWaits s :=
  ⟨by decide +kernel, by decide +kernel, by decide +kernel, by decide +kernel,
    never_waits (Run.of_admits (by decide +kernel))⟩

/-! ### One inversion -/

/-- The task is installed, ready and not blocked. -/
def Kernel.Runnable (s : Kernel cfg) (h : Nat) : Prop :=
  s.Installed h ∧ s.prio h ∈ s.ready ∧ s.prio h ∈ s.unblocked

instance (s : Kernel cfg) (h : Nat) : Decidable (s.Runnable h) :=
  inferInstanceAs (Decidable (_ ∧ _))

/-- Task `a` delays task `h` although its base priority is lower: it has the processor,
or a ceiling that would make the scheduler prefer it. -/
def Delays (s : Kernel cfg) (h a : Nat) : Prop :=
  s.Installed a ∧ s.base a < s.base h ∧ (a = s.currentTask ∨ s.base h ≤ s.prio a)

/-- A task that is lifted above its base priority owns a mutex. -/
theorem TableInv.holds_of_lifted (ht : TableInv s) {a : Nat} (hi : s.Installed a)
    (hlt : s.base a < s.prio a) : s.ceilings.Holds a := by
  rcases ht.prio_base hi with hb | ⟨m, -, ho⟩
  · exact absurd hb hlt.ne'
  · exact ⟨hi.pos, m, ho⟩

/-- At most one task delays another that is above it by base priority. -/
theorem CeilingInv.delays_unique (hc : CeilingInv s) (hk : KernelInv s) {h a b : Nat}
    (ha : Delays s h a) (hb : Delays s h b) : a = b := by
  -- the running task is above whoever is lifted
  have hcur : ∀ {c}, c ≠ s.currentTask → Delays s h c → s.base h ≤ s.prio c →
      s.base s.currentTask < s.base h → s.currentTask ≠ 0 → False := by
    intro c hne hd hlift hbase h0
    have hh := hk.table.holds_of_lifted hd.1 (hd.2.1.trans_le hlift)
    exact hne ((hc.running h0).free hh hlift hbase)
  have hinst : ∀ {c}, c = s.currentTask → Delays s h c → s.currentTask ≠ 0 :=
    fun he hd => he ▸ hd.1.pos
  by_cases hac : a = s.currentTask
  · by_cases hbc : b = s.currentTask
    · exact hac.trans hbc.symm
    · exact (hcur hbc hb (hb.2.2.resolve_left hbc) (hac ▸ ha.2.1) (hinst hac ha)).elim
  · have hla := ha.2.2.resolve_left hac
    by_cases hbc : b = s.currentTask
    · exact (hcur hac ha hla (hbc ▸ hb.2.1) (hinst hbc hb)).elim
    · have hlb := hb.2.2.resolve_left hbc
      refine hc.nested.unique (fun x y hx hy hxy => ?_)
        (hk.table.holds_of_lifted ha.1 (ha.2.1.trans_le hla)) ha.2.1 hla
        (hk.table.holds_of_lifted hb.1 (hb.2.1.trans_le hlb)) hb.2.1 hlb
      obtain ⟨x0, m, rfl⟩ := hx
      obtain ⟨y0, m', rfl⟩ := hy
      exact hk.table.prio_inj (hk.table.owner_installed x0).2 (hk.table.owner_installed y0).2 hxy

/-- While a task is runnable, nobody begins to delay it. -/
theorem CeilingInv.delays_step (hc : CeilingInv s) (hk : KernelInv s) (hkt : KernelInv t)
    (hstt : StackInv t) {a : Action} {o : Obs} {h b : Nat} (hm : Move rule s a t o) (hi : s.Installed h)
    (hrun : t.Runnable h) (hd : Delays t h b) : Delays s h b := by
  obtain ⟨hib, hlt, hor⟩ := hd
  rw [move_base hk hm hi] at hlt hor
  -- one who is lifted was lifted before, or has just acquired a mutex as the running task
  have hlifted : s.base h ≤ t.prio b → Delays s h b := by
    intro hle
    have hh := hkt.table.holds_of_lifted hib (hlt.trans_le hle)
    by_cases hcur : b = s.currentTask
    · have hib' := (hk.run (hcur ▸ hib.pos)).1
      rw [← hcur] at hib'
      exact ⟨hib', move_base hk hm hib' ▸ hlt, Or.inl hcur⟩
    · obtain ⟨⟨h0, m, ho⟩, hprio, hbase⟩ := hc.move_holder hk hkt hm hcur hh
      have hib' := (hk.table.owner_installed (ho.symm ▸ h0)).2
      have hbase : t.base b = s.base b := hbase
      have hprio : t.prio b = s.prio b := hprio
      exact ⟨ho ▸ hib', hbase ▸ hlt, Or.inr (hprio ▸ hle)⟩
  rcases hor with rfl | hle
  · have hswitch : t.currentTask = s.currentTask ∨ t.osSchedule = some t.currentTask :=
      move_running hk hm
    rcases hswitch with heq | hsch
    · have hib' := (hk.run (heq ▸ hib.pos)).1
      rw [heq] at hlt ⊢
      exact ⟨hib', move_base hk hm hib' ▸ hlt, Or.inl rfl⟩
    · -- the scheduler prefers it, so it is lifted
      refine hlifted ?_
      obtain ⟨hih, hready, hun⟩ := hrun
      rcases osSchedule_cases hsch with ⟨q, htop, hpv⟩ | ⟨hnone, -⟩
      · have hq := (hkt.toCoreInv.task_of_ready htop.1).2
        rw [hpv] at hq
        have hbp := base_le_level t h (t.held h)
        rw [← hstt.prio_eq hih] at hbp
        rw [move_base hk hm hi] at hbp
        exact hbp.trans (hq ▸ htop.2.2 _ hready hun)
      · exact absurd (Finset.mem_inter.mpr ⟨hready, hun⟩) (by rw [hnone]; simp)
  · exact hlifted hle

/-- **One inversion.** While a task is runnable, whatever the others do and whatever
interrupts come, at most one task of lower base priority has the processor. -/
theorem inverted_once {tr tr' : Trace} {h : Nat} (hr : RunFromInit CeilingRules tr s)
    (hrun : Run Kernel.step (fun u a => CeilingRules u a ∧ u.Runnable h) s tr' t) :
    ∃ b, Run Kernel.step (fun u _ => u.currentTask ≠ 0 → u.base u.currentTask < u.base h →
      u.currentTask = b) s tr' t := by
  have hs := ceiling_run hr
  -- the one that may delay it at the start, if there is one
  obtain ⟨b, hb⟩ : ∃ b, ∀ a, Delays s h a → a = b := by
    by_cases hex : ∃ b, Delays s h b
    · obtain ⟨b, hb⟩ := hex
      exact ⟨b, fun a ha => hs.2.2.delays_unique hs.1 ha hb⟩
    · exact ⟨0, fun a ha => absurd ⟨a, ha⟩ hex⟩
  refine ⟨b, (hrun.strengthen (P := fun u => (KernelInv u ∧ StackInv u ∧ CeilingInv u) ∧
    (u.Runnable h → ∀ a, Delays u h a → a = b)) ⟨hs, fun _ => hb⟩ ?_ ?_).1⟩
  · rintro u a ⟨⟨hk, -, -⟩, honly⟩ ⟨-, hrunnable⟩ h0 hlt
    exact honly hrunnable _ ⟨(hk.run h0).1, hlt, Or.inl rfl⟩
  · rintro u a v o ⟨⟨hk, hst, hc⟩, honly⟩ - ⟨⟨hd, huse⟩, hrunnable⟩ hstep
    have hm := hk.move hd hstep
    have hkv := step_inv hk (hd.nested hk hst hstep) hstep
    have hstv := move_stack hk hst hm
    refine ⟨⟨hkv, hstv, hc.step hk hst hd huse hstep⟩, fun hrunnable' a ha => ?_⟩
    exact honly hrunnable a (hc.delays_step hk hkv hstv hm hrunnable.1 hrunnable' ha)

/-- A task of priority 4 becomes ready while one of priority 2 is at ceiling 5. -/
def invertedScript : List Action :=
  [.call (.installTask false 256 2), .call (.installTask false 256 4), .call (.mutexCreate 5),
    .brtosStart, .call (.delayTask 1), .call (.mutexAcquire (some 0) 0), .intEnter, .tick]

/-- The interrupt ends in the same task, and the next one after its release does not. -/
def deinvertedScript : List Action :=
  [.intExit, .call (.mutexRelease (some 0)), .intEnter, .tick, .intExit]

set_option maxRecDepth 20000 in
theorem inverted_once_script :
    let s := kernelAfter invertedScript
    s.Runnable 2 ∧ s.currentTask = 1 ∧ s.base 1 < s.base 2 ∧
      (Run.after Kernel.step s deinvertedScript).currentTask = 2 ∧
      ∃ b, Run Kernel.step (fun u _ => u.currentTask ≠ 0 → u.base u.currentTask < u.base 2 →
          u.currentTask = b) s (Run.traceOf Kernel.step s deinvertedScript)
        (Run.after Kernel.step s deinvertedScript) :=
  ⟨by decide +kernel, by decide +kernel, by decide +kernel, by decide +kernel,
    inverted_once (Run.of_admits (by decide +kernel)) (Run.of_admits (by decide +kernel))⟩

end Brtos
