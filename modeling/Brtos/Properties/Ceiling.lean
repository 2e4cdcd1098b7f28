import Brtos.Invariant.Frames
import Brtos.Properties.Scheduling
import Brtos.Properties.WaitLists

/-!
# Brtos.Properties.Ceiling

The **priority ceiling** of a mutex, and the way back to the base priority.

The ceiling is applied in two places: by an acquire that finds the mutex free, and
by a waiter when it runs again after a release has made it the owner. Between the
release and that moment the owner of the mutex runs, or waits to run, at the
priority it waited with.

A release restores the priority its mutex remembers. That is the task's own as
long as the releases are nested; a release out of order can restore the ceiling of
a mutex that was already given back.
-/

namespace Brtos

open Bits Kernel

variable {cfg : Config} {s t u : Kernel cfg}

/-! ### The way back to the base priority -/

/-- A task that owns no mutex is back at its base priority, the ceilings of free
mutexes are nobody's, and every ready bit leads to a task of that priority. -/
structure PrioritiesRestored (s : Kernel cfg) : Prop where
  task : ∀ h, s.Installed h → (∀ m, s.owner m ≠ h) → s.prio h = s.base h ∧
    s.priorityVector (s.base h) = h ∧ (s.frame h = .user → s.base h ∈ s.ready) ∧
    ∀ p ∈ s.ready, s.priorityVector p = h → p = s.base h
  ceiling : ∀ m p, s.Ceiling m p → s.owner m = 0 → s.priorityVector p = mutexPrio
  ready : ∀ p ∈ s.ready, s.Installed (s.priorityVector p) ∧ s.prio (s.priorityVector p) = p

/-- **Priority restoration.** It holds in every state of an execution in which what
each release restores is still the task's own. -/
theorem priorities_restored {tr : Trace} (hr : RunFromInit (Disciplined NestedRelease) tr s) :
    PrioritiesRestored s := by
  have hk := run_inv hr
  obtain ⟨xs, hs⟩ := hk.suspend
  have hready : ∀ p ∈ s.ready, s.Installed (s.priorityVector p) ∧
      s.prio (s.priorityVector p) = p := fun p hp => hk.toCoreInv.task_of_ready hp
  refine ⟨?_, fun m p hc h0 => hk.table.ceil_free hc h0, hready⟩
  intro h hi hown
  have hprio : s.prio h = s.base h := hk.table.prio_eq_base hi fun m _ => hown m
  refine ⟨hprio, hk.table.pv_base hi, ?_, ?_⟩
  · intro hf
    rw [← hprio]
    exact hs.ready_user hi hf
  · intro p hp hpv
    rw [← hprio, ← hpv]
    exact (hready p hp).2.symm

/-- Two mutexes with ceilings 8 and 10, acquired one on top of the other. -/
def nestedScript : List Action :=
  [.call (.installTask false 256 2), .call (.mutexCreate 8), .call (.mutexCreate 10), .brtosStart,
    .call (.mutexAcquire (some 0) 0), .call (.mutexAcquire (some 1) 0)]

set_option maxRecDepth 20000 in
theorem priorities_restored_nested :
    PrioritiesRestored (Run.after Kernel.step (Kernel.init Config.exampleConfig)
      (nestedScript ++ [.call (.mutexRelease (some 1)), .call (.mutexRelease (some 0))])) :=
  priorities_restored (Run.of_admits (by decide +kernel))

set_option maxRecDepth 20000 in
/-- Released in the order of acquisition, the second release restores the ceiling
of the first mutex: the task owns nothing, has priority 8 instead of 2, and its
ready bit leads to `MUTEX_PRIO`. -/
theorem unnested_release_keeps_ceiling :
    let script := nestedScript ++ [.call (.mutexRelease (some 0)), .call (.mutexRelease (some 1))]
    let s := Run.after Kernel.step (Kernel.init Config.exampleConfig) script
    RunFromInit (Disciplined AnyRelease)
      (Run.traceOf Kernel.step (Kernel.init Config.exampleConfig) script) s ∧
    s.Installed 1 ∧ (∀ m < 4, s.owner m = 0) ∧ s.base 1 = 2 ∧ s.prio 1 = 8 ∧ 8 ∈ s.ready ∧
    s.priorityVector 8 = mutexPrio ∧ ¬ PrioritiesRestored s := by
  refine ⟨Run.of_admits (by decide +kernel), by decide +kernel, by decide +kernel, by decide +kernel, by decide +kernel, by decide +kernel,
    by decide +kernel, fun h => ?_⟩
  exact absurd (h.ready 8 (by decide +kernel)).1 (by decide +kernel)

/-! ### Ownership

A mutex changes hands in three ways: a task acquires it while it is free, its
owner releases it, or its owner's release hands it to a waiter. -/

theorem takeMutex_table (s : Kernel cfg) (m : Nat) :
    (s.takeMutex m).mutexTable = Function.update s.mutexTable m
      { s.mutexTable m with
        osEventState := .busyResource
        osEventOwner := s.currentTask
        osOriginalPriority := s.prio s.currentTask } := by
  obtain ⟨hmt, -⟩ := takeCeiling_fields (s.setMutex m fun c =>
    { c with osEventState := .busyResource, osEventOwner := s.currentTask }) m
    (s.prio s.currentTask)
  refine hmt.trans ?_
  simp only [setMutex, Function.update_idem, Function.update_self]

theorem released_table (s : Kernel cfg) (m : Nat) :
    ((s.giveUp m).freeMutex m).mutexTable = Function.update s.mutexTable m
      { s.mutexTable m with osEventState := .availableResource, osEventOwner := 0 } := by
  obtain ⟨hmt, -⟩ := TableInv.restorePriority_same s m
  unfold giveUp freeMutex
  dsimp only [noteReleased, setMutex]
  split <;>
    (dsimp only [setPriorityVector]
     simp only [Function.update_idem, Function.update_self, hmt])

theorem handedOff_table (s : Kernel cfg) (m : Nat) :
    ((s.giveUp m).handOff m).mutexTable = Function.update s.mutexTable m
      { s.mutexTable m with
        osEventOwner := s.priorityVector (saScheduler (s.event (.mutex m)).osEventWaitList) } := by
  obtain ⟨hmt, hev, -, hpv, -⟩ := TableInv.restorePriority_same s m
  unfold giveUp
  rw [handOff_eq]
  dsimp only
  rw [hmt, hev, hpv]

/-- A mutex with an owner is left alone by every call but its owner's. -/
theorem effect_mutex {rule : Kernel cfg → Nat → Prop} (ht : TableInv s) {c : Call} {oc : Outcome}
    {m : Nat} (he : Effect rule s c u oc) (h0 : s.owner m ≠ 0)
    (hne : s.inTask = true → s.owner m ≠ s.currentTask) : u.mutexTable m = s.mutexTable m := by
  cases he with
  | uninstalledDelayed => split <;> rfl
  | waited => rw [SuspendInv.waitEvent_eq]
  | mutexCreated hle hpv hfree =>
      rename_i p mc
      have hmc : m ≠ mc := by
        rintro rfl
        exact (freeEvent_spec hfree).2 (ht.owner_installed h0).1
      dsimp only [setMutex, allocEvent, setEvent]
      rw [Function.update_of_ne hmc]
      split <;> rfl
  | mutexDeleted hfree =>
      rename_i md
      have hmd : m ≠ md := fun he => h0 (he ▸ hfree)
      exact Function.update_of_ne hmd _ _
  | acquired hwho hev hown hst =>
      rename_i ma tw
      have hma : m ≠ ma := by
        rintro rfl
        exact h0 ((ht.state_owner hev).mp hst)
      rw [takeMutex_table, Function.update_of_ne hma]
  | released hwho hev hown =>
      rename_i mr _ _
      have hmr : m ≠ mr := fun he => hne hwho (he ▸ hown)
      rw [released_table, Function.update_of_ne hmr]
  | handedOff hwho hev hown =>
      rename_i mr _ _
      have hmr : m ≠ mr := fun he => hne hwho (he ▸ hown)
      rw [handedOff_table, Function.update_of_ne hmr]
  | _ => rfl

/-- A new owner is a caller that found the mutex free, or the best waiter of a
mutex that its owner released. -/
theorem effect_new_owner {rule : Kernel cfg → Nat → Prop} {c : Call} {oc : Outcome} {m : Nat}
    (he : Effect rule s c u oc) (hne : u.owner m ≠ s.owner m) (h0 : u.owner m ≠ 0) :
    (s.inTask = true ∧ u.owner m = s.currentTask) ∨
      (c = .mutexRelease (some m) ∧ s.inTask = true ∧ s.owner m = s.currentTask ∧
        (s.event (.mutex m)).osEventWait ≠ 0 ∧
        u.owner m = s.priorityVector (saScheduler (s.event (.mutex m)).osEventWaitList) ∧
        (u.mutexTable m).osMaxPriority = (s.mutexTable m).osMaxPriority) := by
  cases he with
  | uninstalledDelayed =>
      refine absurd ?_ hne
      split <;> rfl
  | waited =>
      rw [SuspendInv.waitEvent_eq] at hne
      exact absurd rfl hne
  | mutexCreated =>
      rename_i p mc _ _ _
      -- a create writes the ceiling and leaves the owner it finds
      refine absurd ?_ hne
      dsimp only [Kernel.owner, setMutex, allocEvent, setEvent]
      rw [Function.update_apply]
      split
      · rename_i heq
        subst heq
        split <;> rfl
      · split <;> rfl
  | mutexDeleted =>
      rename_i md _
      simp only [Kernel.owner, setMutex, Function.update_apply] at hne h0
      split at h0
      · exact absurd rfl h0
      · rename_i hmd
        rw [if_neg hmd] at hne
        exact absurd rfl hne
  | acquired hwho =>
      rename_i ma tw _ _ _
      rw [Kernel.owner, takeMutex_table, Function.update_apply] at hne ⊢
      split at hne
      · rename_i heq
        rw [if_pos heq]
        exact Or.inl ⟨hwho, rfl⟩
      · exact absurd rfl hne
  | released =>
      rw [Kernel.owner, released_table, Function.update_apply] at hne h0
      split at h0
      · exact absurd rfl h0
      · rename_i hmr
        rw [if_neg hmr] at hne
        exact absurd rfl hne
  | handedOff hwho hev hown hrule hw =>
      rename_i mr
      rw [Kernel.owner, handedOff_table, Function.update_apply] at hne
      split at hne
      · rename_i heq
        subst heq
        rw [Kernel.owner, handedOff_table, Function.update_self]
        exact Or.inr ⟨rfl, hwho, hown, hw, rfl, rfl⟩
      · exact absurd rfl hne
  | _ => exact absurd rfl hne

/-- Outside calls nobody becomes or stops being an owner. -/
theorem move_table {rule : Kernel cfg → Nat → Prop} (hk : KernelInv s) {a : Action} {o : Obs}
    (hm : Move rule s a t o) (hcall : ∀ c, a ≠ .call c) (m : Nat) :
    t.owner m = s.owner m ∧
      (t.mutexTable m).osMaxPriority = (s.mutexTable m).osMaxPriority := by
  cases hm with
  | returned => exact absurd rfl (hcall _)
  | switched => exact absurd rfl (hcall _)
  | suspended => exact absurd rfl (hcall _)
  | started hmain hfree hu =>
      subst hu
      exact ⟨rfl, rfl⟩
  | woken =>
      rename_i ev p tw _ _ _ _
      obtain ⟨ctx, dl, ops, heq, -⟩ := cancelTimeout_eq s tw
      rw [heq]
      cases ev with
      | mutex m' =>
          obtain ⟨hmt, -⟩ := takeCeiling_fields
            { s with contextTask := ctx, delayList := dl, delayOps := ops } m' p
          dsimp only [Kernel.finishPend, setFrame, noteAcquired, Kernel.owner]
          rw [hmt, Function.update_apply]
          split
          · rename_i he
            rw [he]
            exact ⟨rfl, rfl⟩
          · exact ⟨rfl, rfl⟩
      | _ => exact ⟨rfl, rfl⟩
  | tick hnest ht =>
      obtain ⟨xs, hs⟩ := hk.suspend
      have hsame := (tick_context hk hs ht).2.same
      have hmt : t.mutexTable = s.mutexTable := by rw [hsame]; rfl
      rw [Kernel.owner, hmt]
      exact ⟨rfl, rfl⟩
  | _ => exact ⟨rfl, rfl⟩

/-! ### The ceiling -/

/-- A release does not hand its mutex to a waiter whose priority is below the
ceiling. -/
def HandOffAtCeiling (s : Kernel cfg) : Action → Prop
  | .call (.mutexRelease (some m)) =>
    s.owner m = s.currentTask → (s.event (.mutex m)).osEventWait ≠ 0 →
      (s.mutexTable m).osMaxPriority ≤ saScheduler (s.event (.mutex m)).osEventWaitList
  | _ => True

instance (s : Kernel cfg) (a : Action) : Decidable (HandOffAtCeiling s a) := by
  unfold HandOffAtCeiling
  induction a using Action.casesOn with
  | call c =>
      induction c using Call.casesOn with
      | mutexRelease m => induction m using Option.casesOn <;> infer_instance
      | _ => infer_instance
  | _ => infer_instance

/-- The owner of a mutex has at least the priority of its ceiling, and so, while it
is ready and not blocked, no task between its base priority and the ceiling is
chosen. -/
def CeilingRespected (s : Kernel cfg) : Prop :=
  ∀ m p h, s.Ceiling m p → s.owner m = h → h ≠ 0 → p ≤ s.prio h ∧
    (s.prio h ∈ s.ready → s.prio h ∈ s.unblocked →
      ∀ h', s.osSchedule = some h' → ¬ (s.base h < s.prio h' ∧ s.prio h' < p))

/-- A task that was handed a mutex inside its acquire is at the ceiling already. -/
def HandedAtCeiling (s : Kernel cfg) : Prop :=
  ∀ h m p tw, s.Installed h → s.frame h = .pend (.mutex m) p tw → s.owner m = h →
    (s.mutexTable m).osMaxPriority ≤ p

theorem max_le_level {h m : Nat} : ∀ {ms : List Nat}, m ∈ ms →
    (s.mutexTable m).osMaxPriority ≤ s.level h ms
  | m' :: ms, hm => by
      rcases List.mem_cons.mp hm with rfl | hm
      · exact le_max_left _ _
      · exact (max_le_level hm).trans (le_max_right _ _)

/-- The owner either holds the mutex, on its stack, or was handed it. -/
theorem StackInv.ceiling_le (hst : StackInv s) (hk : KernelInv s) (hh : HandedAtCeiling s)
    {m h : Nat} (ho : s.owner m = h) (h0 : h ≠ 0) : (s.mutexTable m).osMaxPriority ≤ s.prio h := by
  obtain ⟨xs, hs⟩ := hk.suspend
  have hi : s.Installed h := ho ▸ (hk.table.owner_installed (ho.symm ▸ h0)).2
  rcases hst.owned hi ho with hm | ⟨p, tw, hf⟩
  · rw [hst.prio_eq hi]
    exact max_le_level hm
  · rw [(hs.pend_spec hi hf).1]
    exact hh h m p tw hi hf ho

/-- Every call keeps `HandedAtCeiling`, if a release with waiters does. -/
theorem effect_handed (hk : KernelInv s) (hh : HandedAtCeiling s) {c : Call} {oc : Outcome}
    (hok : HandOffAtCeiling s (.call c)) (he : Effect NestedRelease s c u oc) :
    HandedAtCeiling u := by
  intro h m p tw hi hf ho
  obtain ⟨xs, hs⟩ := hk.suspend
  rcases effect_pend he hi hf with ⟨hi', hf'⟩ | ⟨-, hcur, -, hun, rfl, -⟩
  · by_cases hown : s.owner m = h
    · -- it was the owner, suspended inside its acquire, so this is not its call
      rw [effect_mutex hk.table he (by rw [hown]; exact hi'.pos) ?_]
      · exact hh h m p tw hi' hf' hown
      · intro hwho hcur
        rw [← hown, hcur, inTask_frame hwho] at hf'
        cases hf'
    · rcases effect_new_owner he (by rw [ho]; exact Ne.symm hown) (by rw [ho]; exact hi'.pos)
        with ⟨hwho, hcur⟩ | ⟨rfl, hwho, hcur, hw, hpv, hmax⟩
      · rw [← ho, hcur, inTask_frame hwho] at hf'
        cases hf'
      · have hmem := saScheduler_mem (hs.waiting_nonempty hw)
        obtain ⟨h₀, tw₀, hi₀, hf₀, hp₀, -⟩ := hs.waiter hmem
        have hh₀ : h₀ = h := by
          rw [← ho, hpv]
          exact (hk.table.installed_of_pv hi₀ hp₀).symm
        subst hh₀
        rw [hf'] at hf₀
        cases hf₀
        rw [hmax]
        exact hok hcur hw
  · -- a task that begins to wait is not the owner
    rw [SuspendInv.waitEvent_eq] at ho
    exact absurd (hcur ▸ ho.symm) hun.1

/-- The step lemma of the ceiling. -/
theorem move_handed (hk : KernelInv s) (hh : HandedAtCeiling s) {a : Action} {o : Obs}
    (hok : HandOffAtCeiling s a) (hm : Move NestedRelease s a t o) : HandedAtCeiling t := by
  by_cases hcall : ∃ c, a = .call c
  · cases hm with
    | returned ha he => exact effect_handed hk hh hok he
    | switched ha he =>
        exact fun h m p tw hi hf ho => effect_handed hk hh hok he h m p tw hi hf ho
    | suspended ha he =>
        exact fun h m p tw hi hf ho => effect_handed hk hh hok he h m p tw hi hf ho
    | _ => simp at hcall
  · intro h m p tw hi hf ho
    obtain ⟨hown, hmax⟩ := move_table hk hm (fun c hc => hcall ⟨c, hc⟩) m
    rcases move_pend hk hm hi hf with ⟨hi', hf', -⟩ | ⟨-, -, -, -, -, c, hc, -⟩
    · rw [hmax]
      exact hh h m p tw hi' hf' (hown.symm.trans ho)
    · exact absurd ⟨c, hc⟩ hcall

/-- **Priority-ceiling invariant.** It holds in every state of an execution in which
no release hands its mutex to a waiter below the ceiling. -/
theorem ceiling_respected {tr : Trace}
    (hr : RunFromInit (fun s a => Disciplined LifoRelease s a ∧ HandOffAtCeiling s a) tr s) :
    CeilingRespected s := by
  have hinv := hr.invariant (P := fun s => KernelInv s ∧ StackInv s ∧ HandedAtCeiling s)
    ⟨init_inv, init_stack, fun h m p tw hi => absurd hi (not_installed_init _ h)⟩ ?_
  · obtain ⟨hk, hst, hh⟩ := hinv
    intro m p h hc ho h0
    have hp : p ≤ s.prio h := hc.2.1 ▸ hst.ceiling_le hk hh ho h0
    refine ⟨hp, fun hready hun h' hsch ⟨_, hlt⟩ => ?_⟩
    -- the task chosen is at least as good as the owner
    rcases osSchedule_cases hsch with ⟨q, htop, hpv⟩ | ⟨hnone, -⟩
    · have hq := htop.2.2 _ hready hun
      have hq' := (hk.toCoreInv.task_of_ready htop.1).2
      rw [hpv] at hq'
      omega
    · exact absurd (Finset.mem_inter.mpr ⟨hready, hun⟩) (by rw [hnone]; simp)
  · rintro s a t o ⟨hk, hst, hh⟩ ⟨hd, hok⟩ hs
    have hn := hd.nested hk hst hs
    exact ⟨step_inv hk hn hs, move_stack hk hst (hk.move hd hs), move_handed hk hh hok (hk.move hn hs)⟩

set_option maxRecDepth 20000 in
theorem ceiling_respected_waiting :
    let s := Run.after Kernel.step (Kernel.init Config.exampleConfig) waitingScript
    s.owner 0 = 2 ∧ s.base 2 = 3 ∧ s.prio 2 = 8 ∧ CeilingRespected s :=
  ⟨by decide +kernel, by decide +kernel, by decide +kernel,
    ceiling_respected (Run.of_admits (by decide +kernel))⟩

/-- A task of priority 5 releases a mutex with ceiling 8 to a waiter of priority 2
while a task of priority 4 is ready, and then delays itself. -/
def lowHandOffScript : List Action :=
  [.call (.installTask false 256 5), .call (.installTask false 256 2),
    .call (.installTask false 256 4), .call (.mutexCreate 8), .brtosStart,
    .call (.mutexAcquire (some 0) 0), .call (.delayTask 1), .call (.delayTask 1),
    .call (.mutexAcquire (some 0) 0), .intEnter, .tick, .intExit, .resume,
    .call (.mutexRelease (some 0)), .call (.delayTask 5)]

set_option maxRecDepth 20000 in
/-- The new owner is ready, at priority 2, and `OSSchedule` has chosen the task of
priority 4. -/
theorem hand_off_below_ceiling :
    let s := Run.after Kernel.step (Kernel.init Config.exampleConfig) lowHandOffScript
    RunFromInit (Disciplined LifoRelease)
      (Run.traceOf Kernel.step (Kernel.init Config.exampleConfig) lowHandOffScript) s ∧
    s.Ceiling 0 8 ∧ s.owner 0 = 2 ∧ s.base 2 = 2 ∧ s.prio 2 = 2 ∧ 2 ∈ s.ready ∧
    2 ∈ s.unblocked ∧ s.osSchedule = some 3 ∧ s.prio 3 = 4 ∧ ¬ CeilingRespected s := by
  refine ⟨Run.of_admits (by decide +kernel), ?_, by decide +kernel, by decide +kernel,
    by decide +kernel, by decide +kernel, by decide +kernel, by decide +kernel,
    by decide +kernel, fun h => ?_⟩
  · exact ⟨by decide +kernel, by decide +kernel, by decide⟩
  · have := (h 0 8 2 ⟨by decide +kernel, by decide +kernel, by decide⟩ (by decide +kernel)
      (by decide)).1
    exact absurd this (by decide +kernel)

end Brtos
