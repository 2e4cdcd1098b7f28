import Brtos.Inversion

/-!
# Brtos.Invariant.Basic

The **kernel invariant**, in four parts.

* `TableInv` ties the tables that say who has which priority: `PriorityVector`,
  `ContextTask[].Priority`, the mutexes' owners and ceilings, and the base
  priorities. The entry of a task's current priority and the entry of its base
  priority are the task's own; a current priority that is not the base priority
  is the ceiling of a mutex the task owns. Entries of ceilings may be stale (a
  hand-off leaves the former owner in it), which is why nothing is said about a
  ceiling whose mutex is owned.
* `SuspendInv` ties the structures that say who waits for what. The frame of a
  task decides: a task outside the kernel is ready; a delayed task is ready when
  it has left the delay list; a pending task is ready when a post has taken it out
  of the wait list or its timeout has expired, and it is in the delay list when it
  has a timeout that has not expired. So "ready" and "in the delay list" overlap
  exactly for pending tasks that a post has selected before their timeout.
* `HandoffInv` says that a task inside an acquire owns the mutex exactly when a
  release has taken it out of the wait list.
* `RunInv` says who runs: `main` before `BRTOSStart`, then some ready task, with
  the idle task there to fall back on.

A mutex acquired out of nesting order may restore a priority that is no longer the
task's own, so the invariant is one of executions in which every release is a
`NestedRelease`.
-/

namespace Brtos

open Bits Kernel

variable {cfg : Config}

namespace Kernel

/-- `OSEventOwner` of mutex `m`. -/
abbrev owner (s : Kernel cfg) (m : Nat) : Nat := (s.mutexTable m).osEventOwner

/-- `TimeToWait` of task `h`. -/
abbrev ttw (s : Kernel cfg) (h : Nat) : Nat := (s.contextTask h).timeToWait

/-- Priority `p` is the ceiling of mutex `m`. -/
def Ceiling (s : Kernel cfg) (m p : Nat) : Prop :=
  s.Allocated (.mutex m) ∧ (s.mutexTable m).osMaxPriority = p ∧ 0 < p

end Kernel

/-! ### The four parts -/

/-- The priority tables agree. -/
structure TableInv (s : Kernel cfg) : Prop where
  pv_ne_zero : ∀ p, s.priorityVector p ≠ 0
  prio_lt : ∀ {h}, s.Installed h → s.prio h < cfg.prioBits
  base_lt : ∀ {h}, s.Installed h → s.base h < cfg.prioBits
  pv_prio : ∀ {h}, s.Installed h → s.priorityVector (s.prio h) = h
  pv_base : ∀ {h}, s.Installed h → s.priorityVector (s.base h) = h
  prio_base : ∀ {h}, s.Installed h →
    s.prio h = s.base h ∨ ∃ m, s.Ceiling m (s.prio h) ∧ s.owner m = h
  ceil_lt : ∀ {m p}, s.Ceiling m p → p < cfg.prioBits
  ceil_pv : ∀ {m p}, s.Ceiling m p → s.priorityVector p ≠ emptyPrio
  ceil_base : ∀ {m p h}, s.Ceiling m p → s.Installed h → s.base h ≠ p
  ceil_inj : ∀ {m m' p}, s.Ceiling m p → s.Ceiling m' p → m = m'
  ceil_free : ∀ {m p}, s.Ceiling m p → s.owner m = 0 → s.priorityVector p = mutexPrio
  mutex_lt : ∀ {m}, s.Allocated (.mutex m) → m < cfg.brtosMaxMutex
  owner_installed : ∀ {m}, s.owner m ≠ 0 → s.Allocated (.mutex m) ∧ s.Installed (s.owner m)
  state_owner : ∀ {m}, s.Allocated (.mutex m) →
    ((s.mutexTable m).osEventState = .availableResource ↔ s.owner m = 0)

/-- The frames, the ready list, the delay list `xs` and the wait lists agree. -/
structure SuspendInv (s : Kernel cfg) (xs : List Nat) : Prop where
  list : s.delayList.IsList xs
  listed : ∀ {h}, h ∈ xs → s.Installed h ∧ s.frame h ≠ .user
  pend_listed : ∀ {h ev p tw}, s.Installed h → s.frame h = .pend ev p tw →
    (h ∈ xs ↔ tw ≠ 0 ∧ s.ttw h ≠ cfg.exitByTimeout)
  pend_spec : ∀ {h ev p tw}, s.Installed h → s.frame h = .pend ev p tw →
    s.prio h = p ∧ tw ≤ cfg.tickCountOverflow
  wait_pend : ∀ {ev p}, p ∈ s.waiting ev → ∃ h tw, s.Installed h ∧ s.frame h = .pend ev p tw
  wait_count : ∀ ev, (s.event ev).osEventWait = (s.waiting ev).card
  ready_installed : ∀ {p}, p ∈ s.ready → ∃ h, s.Installed h ∧ s.prio h = p
  ready_user : ∀ {h}, s.Installed h → s.frame h = .user → s.prio h ∈ s.ready
  ready_delay : ∀ {h tw}, s.Installed h → s.frame h = .delay tw → (s.prio h ∈ s.ready ↔ h ∉ xs)
  ready_pend : ∀ {h ev p tw}, s.Installed h → s.frame h = .pend ev p tw →
    (p ∈ s.ready ↔ p ∉ s.waiting ev ∨ (tw ≠ 0 ∧ s.ttw h = cfg.exitByTimeout))
  wait_alloc : ∀ {ev p}, p ∈ s.waiting ev → s.Allocated ev

/-- Ownership of a mutex and its wait list agree. -/
structure HandoffInv (s : Kernel cfg) : Prop where
  owner_iff : ∀ {h m p tw}, s.Installed h → s.frame h = .pend (.mutex m) p tw →
    (s.owner m = h ↔ p ∉ s.waiting (.mutex m))
  free_empty : ∀ {m}, s.Allocated (.mutex m) → s.owner m = 0 → s.waiting (.mutex m) = ∅

/-- Who has the processor, except that the running task may just have been suspended. -/
structure StartInv (s : Kernel cfg) : Prop where
  tick_lt : s.osTickCounter < cfg.tickCountOverflow
  main : s.currentTask = 0 → s.iNesting = 0 ∧ s.priorityVector 0 = emptyPrio ∧
    ∀ {h}, s.Installed h → s.frame h = .user
  idle : s.currentTask ≠ 0 → ∃ h, s.priorityVector 0 = h ∧ s.Installed h ∧ s.prio h = 0 ∧
    s.base h = 0 ∧ s.frame h = .user

/-- The running task is ready. -/
def RunInv (s : Kernel cfg) : Prop :=
  s.currentTask ≠ 0 → s.Installed s.currentTask ∧ s.prio s.currentTask ∈ s.ready

/-- What holds inside a call, before the context switch. -/
structure CoreInv (s : Kernel cfg) : Prop where
  table : TableInv s
  suspend : ∃ xs, SuspendInv s xs
  handoff : HandoffInv s
  start : StartInv s

/-- The kernel invariant. -/
structure KernelInv (s : Kernel cfg) : Prop extends CoreInv s where
  run : RunInv s

/-! ### Consequences -/

theorem Kernel.Installed.pos {s : Kernel cfg} {h : Nat} (hi : s.Installed h) : h ≠ 0 :=
  Nat.one_le_iff_ne_zero.mp hi.1

theorem Kernel.Installed.le {s : Kernel cfg} {h : Nat} (hi : s.Installed h) : h ≤ 32 :=
  hi.2.1.trans cfg.numberOfTasks_le

theorem Kernel.Installed.ne_emptyPrio {s : Kernel cfg} {h : Nat} (hi : s.Installed h) :
    h ≠ emptyPrio := by
  have := hi.le
  unfold emptyPrio
  omega

theorem Kernel.Installed.ne_mutexPrio {s : Kernel cfg} {h : Nat} (hi : s.Installed h) :
    h ≠ mutexPrio := by
  have := hi.le
  unfold mutexPrio
  omega

namespace TableInv

variable {s : Kernel cfg} {h h' m p : Nat}

/-- Two installed tasks never have the same current priority. -/
theorem prio_inj (ht : TableInv s) (hi : s.Installed h) (hi' : s.Installed h')
    (hp : s.prio h = s.prio h') : h = h' := by
  rw [← ht.pv_prio hi, hp, ht.pv_prio hi']

/-- A task's current priority is another task's base priority only if they are one. -/
theorem prio_base_inj (ht : TableInv s) (hi : s.Installed h) (hi' : s.Installed h')
    (hp : s.prio h = s.base h') : h = h' := by
  rw [← ht.pv_prio hi, hp, ht.pv_base hi']

/-- Only the owner of a mutex can run at its ceiling. -/
theorem owner_of_prio_eq (ht : TableInv s) (hc : s.Ceiling m p) (hi : s.Installed h)
    (hp : s.prio h = p) : s.owner m = h := by
  subst hp
  rcases ht.prio_base hi with hb | ⟨m', hc', ho⟩
  · exact absurd hb.symm (ht.ceil_base hc hi)
  · rw [ht.ceil_inj hc hc']
    exact ho

theorem installed_of_pv (ht : TableInv s) (hi : s.Installed h) (hp : s.prio h = p) :
    s.priorityVector p = h := hp ▸ ht.pv_prio hi

end TableInv

namespace SuspendInv

variable {s : Kernel cfg} {xs : List Nat} {h p tw : Nat} {ev : Event}

/-- The task in a wait list under `p` has priority `p`. -/
theorem waiter (hs : SuspendInv s xs) (hw : p ∈ s.waiting ev) :
    ∃ h tw, s.Installed h ∧ s.frame h = .pend ev p tw ∧ s.prio h = p ∧ s.Allocated ev := by
  obtain ⟨h, tw, hi, hf⟩ := hs.wait_pend hw
  exact ⟨h, tw, hi, hf, (hs.pend_spec hi hf).1, hs.wait_alloc hw⟩

/-- `OSEventWait` is zero exactly when the wait list is empty. -/
theorem wait_eq_zero (hs : SuspendInv s xs) : (s.event ev).osEventWait = 0 ↔ s.waiting ev = ∅ := by
  rw [hs.wait_count, Finset.card_eq_zero]

theorem waiting_nonempty (hs : SuspendInv s xs) (hw : (s.event ev).osEventWait ≠ 0) :
    (s.waiting ev).Nonempty := by
  rw [Finset.nonempty_iff_ne_empty]
  exact fun he => hw (hs.wait_eq_zero.mpr he)

/-- The task a wait-list bit stands for is the only one with that priority. -/
theorem frame_of_waiting (ht : TableInv s) (hs : SuspendInv s xs) (hw : p ∈ s.waiting ev)
    (hi : s.Installed h) (hp : s.prio h = p) : ∃ tw, s.frame h = .pend ev p tw := by
  obtain ⟨h', tw, hi', hf, hp', -⟩ := hs.waiter hw
  have : h' = h := ht.prio_inj hi' hi (hp'.trans hp.symm)
  exact ⟨tw, this ▸ hf⟩

/-- The wait lists of two objects have no priority in common. -/
theorem waiting_disjoint (ht : TableInv s) (hs : SuspendInv s xs) {ev' : Event}
    (hw : p ∈ s.waiting ev) (hw' : p ∈ s.waiting ev') : ev = ev' := by
  obtain ⟨h, tw, hi, hf, hp, -⟩ := hs.waiter hw
  obtain ⟨tw', hf'⟩ := hs.frame_of_waiting ht hw' hi hp
  rw [hf] at hf'
  cases hf'
  rfl

/-- The wait counter cannot wrap. -/
theorem wait_lt (hs : SuspendInv s xs) (ev : Event) : (s.event ev).osEventWait ≤ 32 := by
  rw [hs.wait_count]
  exact (card_bits_le _).trans cfg.prioBits_le

end SuspendInv

end Brtos
