import Brtos.Invariant.Basic

/-!
# Brtos.Invariant.Tables

`TableInv` and the operations that write the priority tables: install and
uninstall, the mutex calls, and the two moves of a task between priorities (up to
a ceiling, back to the priority a mutex remembers).
-/

namespace Brtos

open Bits Kernel

variable {cfg : Config}

/-- Two states with the same priority tables. -/
structure SameTables (s t : Kernel cfg) : Prop where
  taskAlloc : t.taskAlloc = s.taskAlloc
  prio : ∀ h, t.prio h = s.prio h
  base : t.base = s.base
  priorityVector : t.priorityVector = s.priorityVector
  mutexTable : t.mutexTable = s.mutexTable
  allocated : ∀ m, (t.event (.mutex m)).osEventAllocated = (s.event (.mutex m)).osEventAllocated

theorem installed_congr {s t : Kernel cfg} (h : t.taskAlloc = s.taskAlloc) (task : Nat) :
    t.Installed task ↔ s.Installed task := by
  unfold Installed
  rw [h]

namespace TableInv

variable {s t : Kernel cfg}

theorem congr (ht : TableInv s) (h : SameTables s t) : TableInv t := by
  have hinst := installed_congr h.taskAlloc
  have hceil : ∀ m p, t.Ceiling m p ↔ s.Ceiling m p := fun m p => by
    unfold Ceiling
    rw [Kernel.Allocated, h.allocated, h.mutexTable]
  constructor
  all_goals simp only [hinst, hceil, h.prio, h.base, h.priorityVector, h.mutexTable, h.allocated,
    Kernel.Allocated, Kernel.owner]
  case pv_ne_zero => exact ht.pv_ne_zero
  case prio_lt => exact ht.prio_lt
  case base_lt => exact ht.base_lt
  case pv_prio => exact ht.pv_prio
  case pv_base => exact ht.pv_base
  case prio_base => exact ht.prio_base
  case ceil_lt => exact ht.ceil_lt
  case ceil_pv => exact ht.ceil_pv
  case ceil_base => exact ht.ceil_base
  case ceil_inj => exact ht.ceil_inj
  case ceil_free => exact ht.ceil_free
  case mutex_lt => exact ht.mutex_lt
  case owner_installed => exact ht.owner_installed
  case state_owner => exact ht.state_owner

/-! ### Moving a task between priorities -/

/-- A task moves to a priority whose entry is its own. -/
theorem setPriority (ht : TableInv s) {h p : Nat} (hp : p < cfg.prioBits)
    (hpv : s.priorityVector p = h)
    (hcase : p = s.base h ∨ ∃ m, s.Ceiling m p ∧ s.owner m = h) : TableInv (s.setPriority h p) := by
  have hprio : ∀ h', (s.setPriority h p).prio h' = if h' = h then p else s.prio h' := fun h' => by
    simp only [Kernel.prio, Kernel.setPriority, setContext, Function.update_apply]
    split <;> simp_all
  constructor
  case pv_ne_zero => exact ht.pv_ne_zero
  case prio_lt =>
    intro h' hi
    rw [hprio]
    split
    · exact hp
    · exact ht.prio_lt hi
  case base_lt => exact ht.base_lt
  case pv_prio =>
    intro h' hi
    rw [hprio]
    split
    · rename_i heq
      exact hpv.trans heq.symm
    · exact ht.pv_prio hi
  case pv_base => exact ht.pv_base
  case prio_base =>
    intro h' hi
    rw [hprio]
    split
    · rename_i heq
      exact heq ▸ hcase
    · exact ht.prio_base hi
  case ceil_lt => exact ht.ceil_lt
  case ceil_pv => exact ht.ceil_pv
  case ceil_base => exact ht.ceil_base
  case ceil_inj => exact ht.ceil_inj
  case ceil_free => exact ht.ceil_free
  case mutex_lt => exact ht.mutex_lt
  case owner_installed => exact ht.owner_installed
  case state_owner => exact ht.state_owner

/-- An entry is rewritten that is no task's. -/
theorem setPriorityVector (ht : TableInv s) {p v : Nat}
    (hprio : ∀ h, s.Installed h → s.prio h ≠ p) (hbase : ∀ h, s.Installed h → s.base h ≠ p)
    (hv : v ≠ 0) (hve : v ≠ emptyPrio)
    (hfree : ∀ m, s.Ceiling m p → s.owner m = 0 → v = mutexPrio) :
    TableInv (s.setPriorityVector p v) := by
  have hpv : ∀ q, q ≠ p → (s.setPriorityVector p v).priorityVector q = s.priorityVector q :=
    fun q hq => Function.update_of_ne hq _ _
  have hself : (s.setPriorityVector p v).priorityVector p = v := Function.update_self _ _ _
  constructor
  case pv_ne_zero =>
    intro q
    by_cases hq : q = p
    · rw [hq, hself]
      exact hv
    · rw [hpv q hq]
      exact ht.pv_ne_zero q
  case prio_lt => exact ht.prio_lt
  case base_lt => exact ht.base_lt
  case pv_prio =>
    intro h hi
    exact (hpv _ (hprio h hi)).trans (ht.pv_prio hi)
  case pv_base =>
    intro h hi
    exact (hpv _ (hbase h hi)).trans (ht.pv_base hi)
  case prio_base => exact ht.prio_base
  case ceil_lt => exact ht.ceil_lt
  case ceil_pv =>
    intro m q hc
    by_cases hq : q = p
    · rw [hq, hself]
      exact hve
    · rw [hpv q hq]
      exact ht.ceil_pv hc
  case ceil_base => exact ht.ceil_base
  case ceil_inj => exact ht.ceil_inj
  case ceil_free =>
    intro m q hc ho
    by_cases hq : q = p
    · subst hq
      rw [hself]
      exact hfree m hc ho
    · rw [hpv q hq]
      exact ht.ceil_free hc ho
  case mutex_lt => exact ht.mutex_lt
  case owner_installed => exact ht.owner_installed
  case state_owner => exact ht.state_owner

/-- The fields of a mutex that no invariant of the tables reads. -/
theorem setMutex_congr (ht : TableInv s) {m : Nat} {f : BRTOSMutex → BRTOSMutex}
    (hst : (f (s.mutexTable m)).osEventState = (s.mutexTable m).osEventState)
    (hown : (f (s.mutexTable m)).osEventOwner = (s.mutexTable m).osEventOwner)
    (hmax : (f (s.mutexTable m)).osMaxPriority = (s.mutexTable m).osMaxPriority) :
    TableInv (s.setMutex m f) := by
  have htab : ∀ m', ((s.setMutex m f).mutexTable m').osEventState = (s.mutexTable m').osEventState ∧
      (s.setMutex m f).owner m' = s.owner m' ∧
      ((s.setMutex m f).mutexTable m').osMaxPriority = (s.mutexTable m').osMaxPriority := by
    intro m'
    simp only [Kernel.setMutex, Kernel.owner, Function.update_apply]
    split
    · rename_i heq
      subst heq
      exact ⟨hst, hown, hmax⟩
    · exact ⟨rfl, rfl, rfl⟩
  have hceil : ∀ m' p, (s.setMutex m f).Ceiling m' p ↔ s.Ceiling m' p := fun m' p => by
    unfold Ceiling
    rw [(htab m').2.2]
    rfl
  constructor
  case pv_ne_zero => exact ht.pv_ne_zero
  case prio_lt => exact ht.prio_lt
  case base_lt => exact ht.base_lt
  case pv_prio => exact ht.pv_prio
  case pv_base => exact ht.pv_base
  case prio_base =>
    intro h hi
    rcases ht.prio_base hi with hb | ⟨m', hc, ho⟩
    · exact Or.inl hb
    · exact Or.inr ⟨m', (hceil _ _).mpr hc, (htab m').2.1.trans ho⟩
  case ceil_lt => exact fun hc => ht.ceil_lt ((hceil _ _).mp hc)
  case ceil_pv => exact fun hc => ht.ceil_pv ((hceil _ _).mp hc)
  case ceil_base => exact fun hc => ht.ceil_base ((hceil _ _).mp hc)
  case ceil_inj => exact fun hc hc' => ht.ceil_inj ((hceil _ _).mp hc) ((hceil _ _).mp hc')
  case ceil_free =>
    intro m' p hc ho
    exact ht.ceil_free ((hceil _ _).mp hc) ((htab m').2.1 ▸ ho)
  case mutex_lt => exact ht.mutex_lt
  case owner_installed =>
    intro m' ho
    rw [(htab m').2.1] at ho ⊢
    exact ht.owner_installed ho
  case state_owner =>
    intro m' ha
    rw [(htab m').1, (htab m').2.1]
    exact ht.state_owner ha

/-- A mutex changes hands: it goes to an installed task, or to nobody, while the
former owner does not run at its ceiling. -/
theorem setOwner (ht : TableInv s) {m v : Nat} {f : BRTOSMutex → BRTOSMutex}
    (ha : s.Allocated (.mutex m))
    (hown : (f (s.mutexTable m)).osEventOwner = v)
    (hst : (f (s.mutexTable m)).osEventState = .availableResource ↔ v = 0)
    (hmax : (f (s.mutexTable m)).osMaxPriority = (s.mutexTable m).osMaxPriority)
    (hinst : v ≠ 0 → s.Installed v)
    (hleft : ∀ h, s.Installed h → s.owner m = h → ¬ s.Ceiling m (s.prio h))
    (hfree : v = 0 → ∀ p, s.Ceiling m p → s.priorityVector p = mutexPrio) :
    TableInv (s.setMutex m f) := by
  have hother : ∀ m', m' ≠ m → (s.setMutex m f).mutexTable m' = s.mutexTable m' :=
    fun m' hm => Function.update_of_ne hm _ _
  have hself : (s.setMutex m f).mutexTable m = f (s.mutexTable m) := Function.update_self _ _ _
  have hceil : ∀ m' p, (s.setMutex m f).Ceiling m' p ↔ s.Ceiling m' p := by
    intro m' p
    unfold Ceiling
    by_cases hm : m' = m
    · subst hm
      rw [hself, hmax]
      rfl
    · rw [hother m' hm]
      rfl
  constructor
  case pv_ne_zero => exact ht.pv_ne_zero
  case prio_lt => exact ht.prio_lt
  case base_lt => exact ht.base_lt
  case pv_prio => exact ht.pv_prio
  case pv_base => exact ht.pv_base
  case prio_base =>
    intro h hi
    rcases ht.prio_base hi with hb | ⟨m', hc, ho⟩
    · exact Or.inl hb
    · have hm : m' ≠ m := by
        rintro rfl
        exact hleft h hi ho hc
      refine Or.inr ⟨m', (hceil _ _).mpr hc, ?_⟩
      rw [Kernel.owner, hother m' hm]
      exact ho
  case ceil_lt => exact fun hc => ht.ceil_lt ((hceil _ _).mp hc)
  case ceil_pv => exact fun hc => ht.ceil_pv ((hceil _ _).mp hc)
  case ceil_base => exact fun hc => ht.ceil_base ((hceil _ _).mp hc)
  case ceil_inj => exact fun hc hc' => ht.ceil_inj ((hceil _ _).mp hc) ((hceil _ _).mp hc')
  case ceil_free =>
    intro m' p hc ho
    rw [hceil] at hc
    by_cases hm : m' = m
    · subst hm
      rw [Kernel.owner, hself, hown] at ho
      exact hfree ho p hc
    · rw [Kernel.owner, hother m' hm] at ho
      exact ht.ceil_free hc ho
  case mutex_lt => exact ht.mutex_lt
  case owner_installed =>
    intro m' ho
    by_cases hm : m' = m
    · subst hm
      rw [Kernel.owner, hself, hown] at ho ⊢
      exact ⟨ha, hinst ho⟩
    · rw [Kernel.owner, hother m' hm] at ho ⊢
      exact ht.owner_installed ho
  case state_owner =>
    intro m' ha'
    by_cases hm : m' = m
    · subst hm
      rw [Kernel.owner, hself, hown]
      exact hst
    · rw [Kernel.owner, hother m' hm]
      exact ht.state_owner ha'

/-! ### Acquire -/

/-- The owner takes the ceiling of its mutex. -/
theorem takeCeiling (ht : TableInv s) {m : Nat} (ha : s.Allocated (.mutex m))
    (hown : s.owner m = s.currentTask) (hi : s.Installed s.currentTask) :
    TableInv (s.takeCeiling m (s.prio s.currentTask)) := by
  have h1 : TableInv (s.setMutex m fun c =>
      { c with osOriginalPriority := s.prio s.currentTask }) :=
    ht.setMutex_congr rfl rfl rfl
  unfold Kernel.takeCeiling
  dsimp only
  split
  · rename_i hgt
    generalize hu : s.setMutex m (fun c =>
      { c with osOriginalPriority := s.prio s.currentTask }) = u at h1 ⊢
    have hmax : (u.mutexTable m).osMaxPriority = (s.mutexTable m).osMaxPriority := by
      simp [← hu, Kernel.setMutex]
    have hc : u.Ceiling m (s.mutexTable m).osMaxPriority := by
      subst hu
      exact ⟨ha, hmax, by omega⟩
    have hou : u.owner m = s.currentTask := by
      simp only [← hu, Kernel.owner, Kernel.setMutex, Function.update_self]
      exact hown
    have hprio : ∀ h, u.prio h = s.prio h := fun h => by rw [← hu]; rfl
    have hinst : ∀ h, u.Installed h ↔ s.Installed h := installed_congr (by rw [← hu]; rfl)
    -- nobody else runs at the ceiling, because its owner is the running task
    have hnobody : ∀ h, u.Installed h → u.prio h ≠ (s.mutexTable m).osMaxPriority := by
      intro h hih hp
      have : h = s.currentTask := (h1.owner_of_prio_eq hc hih hp).symm.trans hou
      rw [this, hprio] at hp
      omega
    have h2 : TableInv (u.setPriorityVector (s.mutexTable m).osMaxPriority s.currentTask) :=
      h1.setPriorityVector hnobody (fun h hih => h1.ceil_base hc hih) hi.pos hi.ne_emptyPrio
        (fun m' hc' h0 => absurd (hou.symm.trans (h1.ceil_inj hc' hc ▸ h0)) hi.pos)
    have h3 := h2.setPriority (h := s.currentTask) (h2.ceil_lt hc)
      (Function.update_self _ _ _) (Or.inr ⟨m, hc, hou⟩)
    subst hu
    exact h3.congr ⟨rfl, fun _ => rfl, rfl, rfl, rfl, fun _ => rfl⟩
  · exact h1

/-- The uncontended acquire. -/
theorem takeMutex (ht : TableInv s) {m : Nat} (ha : s.Allocated (.mutex m))
    (hst : (s.mutexTable m).osEventState = .availableResource)
    (hi : s.Installed s.currentTask) : TableInv (s.takeMutex m) := by
  have h0 : s.owner m = 0 := (ht.state_owner ha).mp hst
  have h1 : TableInv (s.setMutex m fun c =>
      { c with osEventState := .busyResource, osEventOwner := s.currentTask }) := by
    refine ht.setOwner (v := s.currentTask) ha rfl ?_ rfl (fun _ => hi) ?_ ?_
    · simp [hi.pos]
    · intro h hih ho
      exact absurd (ho.symm.trans h0) hih.pos
    · exact fun hz => absurd hz hi.pos
  have h2 := h1.takeCeiling (m := m) ha (by simp [Kernel.owner, Kernel.setMutex]) hi
  exact h2.congr ⟨rfl, fun _ => rfl, rfl, rfl, rfl, fun _ => rfl⟩

/-! ### Release -/

theorem restorePriority_prio {s : Kernel cfg} (m h : Nat) :
    (s.restorePriority m).prio h =
      if h = s.currentTask then (s.mutexTable m).osOriginalPriority else s.prio h := by
  unfold restorePriority
  dsimp only
  split
  · simp only [Kernel.prio, Kernel.setPriority, setContext, Function.update_apply]
    split
    · rfl
    · rfl
  · rename_i hne
    split
    · rename_i heq
      subst heq
      exact not_not.mp hne
    · rfl

theorem restorePriority (ht : TableInv s) {m : Nat} (hi : s.Installed s.currentTask)
    (hrule : s.NestedRelease m) : TableInv (s.restorePriority m) := by
  unfold Kernel.restorePriority
  dsimp only
  split
  · have hto : (s.mutexTable m).osOriginalPriority < cfg.prioBits ∧
        s.priorityVector (s.mutexTable m).osOriginalPriority = s.currentTask ∧
        ((s.mutexTable m).osOriginalPriority = s.base s.currentTask ∨
          ∃ m', s.Ceiling m' (s.mutexTable m).osOriginalPriority ∧
            s.owner m' = s.currentTask) := by
      rcases hrule with hb | ⟨m', -, -, ha', ho', hmax, hpos, hpv⟩
      · rw [hb]
        exact ⟨ht.base_lt hi, ht.pv_base hi, Or.inl rfl⟩
      · have hc : s.Ceiling m' (s.mutexTable m).osOriginalPriority := ⟨ha', hmax, hpos⟩
        exact ⟨ht.ceil_lt hc, hpv, Or.inr ⟨m', hc, ho'⟩⟩
    exact (ht.setPriority hto.1 hto.2.1 hto.2.2).congr
      ⟨rfl, fun _ => rfl, rfl, rfl, rfl, fun _ => rfl⟩
  · exact ht

/-- After the priority is restored nobody runs at the ceiling of the mutex. -/
theorem restorePriority_left (ht : TableInv s) {m : Nat} (hi : s.Installed s.currentTask)
    (hown : s.owner m = s.currentTask) (hrule : s.NestedRelease m) {h p : Nat}
    (hih : s.Installed h) (hc : s.Ceiling m p) : (s.restorePriority m).prio h ≠ p := by
  rw [restorePriority_prio]
  split
  · rcases hrule with hb | ⟨m', -, hne, ha', ho', hmax, hpos, hpv⟩
    · rw [hb]
      exact ht.ceil_base hc hi
    · rintro rfl
      exact hne (ht.ceil_inj ⟨ha', hmax, hpos⟩ hc)
  · rename_i hne
    intro hp
    exact hne ((ht.owner_of_prio_eq hc hih hp).symm.trans hown)

theorem restorePriority_same (s : Kernel cfg) (m : Nat) :
    (s.restorePriority m).mutexTable = s.mutexTable ∧ (s.restorePriority m).event = s.event ∧
      (s.restorePriority m).taskAlloc = s.taskAlloc ∧
      (s.restorePriority m).priorityVector = s.priorityVector ∧
      (s.restorePriority m).currentTask = s.currentTask ∧
      (s.restorePriority m).base = s.base ∧ (s.restorePriority m).frame = s.frame ∧
      (s.restorePriority m).iNesting = s.iNesting ∧
      (s.restorePriority m).osTickCounter = s.osTickCounter := by
  unfold Kernel.restorePriority
  dsimp only
  split <;> exact ⟨rfl, rfl, rfl, rfl, rfl, rfl, rfl, rfl, rfl⟩

/-- A release leaves the delay list and the deadlines alone. -/
theorem restorePriority_delay (s : Kernel cfg) (m : Nat) :
    (s.restorePriority m).delayList = s.delayList ∧ (s.restorePriority m).delayOps = s.delayOps ∧
      ∀ h, (s.restorePriority m).ttw h = s.ttw h := by
  unfold Kernel.restorePriority
  dsimp only
  split
  · refine ⟨rfl, rfl, fun h => ?_⟩
    simp only [Kernel.ttw, Kernel.setPriority, setContext, Function.update_apply]
    split
    · rename_i heq
      rw [heq]
      rfl
    · rfl
  · exact ⟨rfl, rfl, fun _ => rfl⟩

/-- Taking a priority out of a wait list leaves the blocks allocated as they were. -/
theorem leaveWaitList_allocated (s : Kernel cfg) (ev ev' : Event) (p : Nat) :
    ((s.leaveWaitList ev p).event ev').osEventAllocated = (s.event ev').osEventAllocated := by
  simp only [leaveWaitList, setEvent, Function.update_apply]
  split
  · rename_i heq
    rw [heq]
  · rfl

/-- A release with no waiter: the mutex is free and so is its ceiling. -/
theorem released (ht : TableInv s) {m : Nat} (ha : s.Allocated (.mutex m))
    (hi : s.Installed s.currentTask) (hown : s.owner m = s.currentTask)
    (hrule : s.NestedRelease m) : TableInv ((s.giveUp m).freeMutex m) := by
  have hu := ht.restorePriority hi hrule
  obtain ⟨hmt, hev, hta, hpv, -⟩ := restorePriority_same s m
  have hleft := fun h p => ht.restorePriority_left (h := h) (p := p) hi hown hrule
  unfold giveUp
  generalize s.restorePriority m = u at *
  have hau : u.Allocated (.mutex m) := by rw [Kernel.Allocated, hev]; exact ha
  have hceil : ∀ p, u.Ceiling m p → s.Ceiling m p := fun p hc => by
    unfold Ceiling at hc ⊢
    rw [hmt] at hc
    exact ⟨ha, hc.2⟩
  have hinst := fun h => (installed_congr hta h).mp
  -- the two writes to the mutex, as one
  have hfin : ∀ v : Kernel cfg, TableInv v → v.mutexTable = u.mutexTable → v.event = u.event →
      v.taskAlloc = u.taskAlloc → v.contextTask = u.contextTask →
      (∀ p, v.Ceiling m p → v.priorityVector p = mutexPrio) →
      TableInv (v.setMutex m fun c =>
        { c with osEventState := .availableResource, osEventOwner := 0 }) := by
    intro v hv hvm hve hvt hvc hvp
    refine hv.setOwner (v := 0) (by rw [Kernel.Allocated, hve]; exact hau) rfl (by simp) rfl
      (fun h => absurd rfl h) ?_ (fun _ => hvp)
    intro h hih ho hc
    have hih' := hinst h ((installed_congr hvt h).mp hih)
    have hpr : v.prio h = u.prio h := by rw [Kernel.prio, hvc]
    refine hleft h (v.prio h) hih' (hceil _ ?_) hpr.symm
    unfold Ceiling at hc ⊢
    rw [hvm] at hc
    exact ⟨hau, hc.2⟩
  by_cases hpos : 0 < (u.mutexTable m).osMaxPriority
  · have hc : u.Ceiling m (u.mutexTable m).osMaxPriority := ⟨hau, rfl, hpos⟩
    have hv := hu.setPriorityVector (v := mutexPrio)
      (fun h hih => hleft h _ (hinst h hih) (hceil _ hc)) (fun h hih => hu.ceil_base hc hih)
      (by decide) (by decide) (fun _ _ _ => rfl)
    refine (hfin _ hv rfl rfl rfl rfl ?_).congr ?_
    · intro p hcp
      have hp : (u.mutexTable m).osMaxPriority = p := hcp.2.1
      rw [← hp]
      exact Function.update_self _ _ _
    · unfold freeMutex
      dsimp only [noteReleased, Kernel.setMutex]
      simp only [Function.update_self, Function.update_idem, if_pos hpos]
      exact ⟨rfl, fun _ => rfl, rfl, rfl, rfl, fun _ => rfl⟩
  · refine (hfin u hu rfl rfl rfl rfl ?_).congr ?_
    · intro p hcp
      have hp : (u.mutexTable m).osMaxPriority = p := hcp.2.1
      exact absurd (hp ▸ hcp.2.2) hpos
    · unfold freeMutex
      dsimp only [noteReleased, Kernel.setMutex]
      simp only [Function.update_self, Function.update_idem, if_neg hpos]
      exact ⟨rfl, fun _ => rfl, rfl, rfl, rfl, fun _ => rfl⟩

/-- A release with waiters: the mutex goes to an installed task. The entry of its
ceiling stays as it is. -/
theorem handedOff (ht : TableInv s) {m : Nat} (ha : s.Allocated (.mutex m))
    (hi : s.Installed s.currentTask) (hown : s.owner m = s.currentTask)
    (hrule : s.NestedRelease m)
    (hnew : s.Installed (s.priorityVector (saScheduler (s.event (.mutex m)).osEventWaitList))) :
    TableInv ((s.giveUp m).handOff m) := by
  have hu := ht.restorePriority hi hrule
  obtain ⟨hmt, hev, hta, hpv, -⟩ := restorePriority_same s m
  have hleft := fun h p => ht.restorePriority_left (h := h) (p := p) hi hown hrule
  unfold giveUp
  generalize s.restorePriority m = u at *
  have hau : u.Allocated (.mutex m) := by rw [Kernel.Allocated, hev]; exact ha
  have hstate : (u.mutexTable m).osEventState ≠ .availableResource := by
    rw [hmt]
    intro hst
    exact hi.pos (hown.symm.trans ((ht.state_owner ha).mp hst))
  rw [← hpv, ← hev] at hnew
  generalize hp : saScheduler (u.event (.mutex m)).osEventWaitList = p at hnew
  have hnew' : u.Installed (u.priorityVector p) := (installed_congr hta _).mpr hnew
  have hv : TableInv (u.setMutex m fun c => { c with osEventOwner := u.priorityVector p }) := by
    refine hu.setOwner (v := u.priorityVector p) hau rfl ?_ rfl (fun _ => hnew') ?_ ?_
    · exact ⟨fun h => absurd h hstate, fun h => absurd h (hu.pv_ne_zero p)⟩
    · intro h hih ho hc
      refine hleft h _ ((installed_congr hta h).mp hih) ?_ rfl
      unfold Ceiling at hc ⊢
      rw [hmt] at hc
      exact ⟨ha, hc.2⟩
    · exact fun h => absurd h (hu.pv_ne_zero p)
  refine hv.congr ?_
  unfold handOff leaveWaitList
  dsimp only [noteReleased, Kernel.setMutex, Kernel.setReady, setEvent]
  rw [hp]
  refine ⟨rfl, fun _ => rfl, rfl, rfl, ?_, fun m' => ?_⟩
  · simp only [Function.update_self, Function.update_idem]
  · dsimp only
    by_cases hm : m' = m
    · subst hm
      rw [Function.update_self]
    · rw [Function.update_of_ne (by simpa using hm)]

/-! ### Creating and deleting a mutex -/

/-- A priority with an empty entry belongs to nobody. -/
theorem not_prio_of_empty (ht : TableInv s) {p h : Nat} (hpv : s.priorityVector p = emptyPrio)
    (hi : s.Installed h) : s.prio h ≠ p ∧ s.base h ≠ p := by
  constructor
  · rintro rfl
    exact hi.ne_emptyPrio ((ht.pv_prio hi).symm.trans hpv)
  · rintro rfl
    exact hi.ne_emptyPrio ((ht.pv_base hi).symm.trans hpv)

/-- A free priority is claimed as a ceiling. -/
theorem reserve (ht : TableInv s) {p : Nat} (hpv : s.priorityVector p = emptyPrio) :
    TableInv (s.setPriorityVector p mutexPrio) :=
  ht.setPriorityVector (fun _ hi => (ht.not_prio_of_empty hpv hi).1)
    (fun _ hi => (ht.not_prio_of_empty hpv hi).2) (by decide) (by decide) (fun _ _ _ => rfl)

/-- A free control block becomes a free mutex with a ceiling that nobody has. -/
theorem mutexCreated (ht : TableInv s) {m p : Nat} (hm : m < cfg.brtosMaxMutex)
    (hna : ¬ s.Allocated (.mutex m)) (hp : p < cfg.prioBits)
    (hpv : 0 < p → s.priorityVector p = mutexPrio) (hnew : 0 < p → ∀ m', ¬ s.Ceiling m' p) :
    TableInv ((s.allocEvent (.mutex m)).setMutex m fun c =>
      { c with osEventState := .availableResource, osMaxPriority := p }) := by
  generalize ht' : (s.allocEvent (.mutex m)).setMutex m (fun c =>
      { c with osEventState := .availableResource, osMaxPriority := p }) = t
  have hown0 : s.owner m = 0 := by
    by_contra h
    exact hna (ht.owner_installed h).1
  have hown : ∀ m', t.owner m' = s.owner m' := fun m' => by
    subst ht'
    simp only [Kernel.owner, Kernel.setMutex, allocEvent, setEvent, Function.update_apply]
    split
    · rename_i heq
      rw [heq]
    · rfl
  have hall : ∀ m', t.Allocated (.mutex m') ↔ m' = m ∨ s.Allocated (.mutex m') := fun m' => by
    subst ht'
    by_cases hmm : m' = m <;>
      simp [Kernel.Allocated, Kernel.setMutex, allocEvent, setEvent, hmm]
  have hother : ∀ m', m' ≠ m → t.mutexTable m' = s.mutexTable m' := fun m' hmm => by
    subst ht'
    exact Function.update_of_ne hmm _ _
  have hself : (t.mutexTable m).osEventState = .availableResource ∧
      (t.mutexTable m).osMaxPriority = p := by
    subst ht'
    simp [Kernel.setMutex]
  have hceil : ∀ m' q, t.Ceiling m' q → (m' = m ∧ q = p ∧ 0 < p) ∨ s.Ceiling m' q := by
    rintro m' q ⟨ha, hmax, hpos⟩
    by_cases hmm : m' = m
    · subst hmm
      have hq : q = p := hmax.symm.trans hself.2
      exact Or.inl ⟨rfl, hq, hq ▸ hpos⟩
    · rw [hother m' hmm] at hmax
      exact Or.inr ⟨((hall m').mp ha).resolve_left hmm, hmax, hpos⟩
  have hceil' : ∀ m' q, s.Ceiling m' q → t.Ceiling m' q := by
    rintro m' q ⟨ha, hmax, hpos⟩
    have hmm : m' ≠ m := by
      rintro rfl
      exact hna ha
    exact ⟨(hall m').mpr (Or.inr ha), by rw [hother m' hmm]; exact hmax, hpos⟩
  have hpvt : t.priorityVector = s.priorityVector := by subst ht'; rfl
  have hprio : ∀ h, t.prio h = s.prio h := fun h => by subst ht'; rfl
  have hbase : t.base = s.base := by subst ht'; rfl
  have hinst := installed_congr (s := s) (t := t) (by subst ht'; rfl)
  -- the priority is nobody's, because its entry is not a handle
  have hnobody : ∀ h, 0 < p → s.Installed h → s.base h ≠ p := by
    rintro h hpos hi rfl
    exact hi.ne_mutexPrio ((ht.pv_base hi).symm.trans (hpv hpos))
  constructor
  all_goals try simp only [hpvt, hprio, hbase, hinst, hown]
  case pv_ne_zero => exact ht.pv_ne_zero
  case prio_lt => exact ht.prio_lt
  case base_lt => exact ht.base_lt
  case pv_prio => exact ht.pv_prio
  case pv_base => exact ht.pv_base
  case prio_base =>
    intro h hi
    rcases ht.prio_base hi with hb | ⟨m', hc, ho⟩
    · exact Or.inl hb
    · exact Or.inr ⟨m', hceil' _ _ hc, ho⟩
  case ceil_lt =>
    intro m' q hc
    rcases hceil _ _ hc with ⟨-, rfl, -⟩ | hc
    · exact hp
    · exact ht.ceil_lt hc
  case ceil_pv =>
    intro m' q hc
    rcases hceil _ _ hc with ⟨-, rfl, hpos⟩ | hc
    · rw [hpv hpos]
      decide
    · exact ht.ceil_pv hc
  case ceil_base =>
    intro m' q h hc hi
    rcases hceil _ _ hc with ⟨-, rfl, hpos⟩ | hc
    · exact hnobody h hpos hi
    · exact ht.ceil_base hc hi
  case ceil_inj =>
    intro m₁ m₂ q hc₁ hc₂
    rcases hceil _ _ hc₁ with ⟨hm₁, hq, hpos⟩ | hc₁ <;>
      rcases hceil _ _ hc₂ with ⟨hm₂, hq', hpos'⟩ | hc₂
    · exact hm₁.trans hm₂.symm
    · exact absurd (hq ▸ hc₂) (hnew hpos m₂)
    · exact absurd (hq' ▸ hc₁) (hnew hpos' m₁)
    · exact ht.ceil_inj hc₁ hc₂
  case ceil_free =>
    intro m' q hc ho
    rcases hceil _ _ hc with ⟨-, rfl, hpos⟩ | hc
    · exact hpv hpos
    · exact ht.ceil_free hc ho
  case mutex_lt =>
    intro m' ha
    rcases (hall m').mp ha with rfl | ha
    · exact hm
    · exact ht.mutex_lt ha
  case owner_installed =>
    intro m' ho
    exact ⟨(hall m').mpr (Or.inr (ht.owner_installed ho).1), (ht.owner_installed ho).2⟩
  case state_owner =>
    intro m' ha
    by_cases hmm : m' = m
    · subst hmm
      simp [hself.1, hown0]
    · rw [hother m' hmm]
      exact ht.state_owner (((hall m').mp ha).resolve_left hmm)

/-- A free mutex goes; the entry of its ceiling stays claimed. -/
theorem mutexDeleted (ht : TableInv s) {m : Nat} (hfree : s.owner m = 0) :
    TableInv ((s.deleteEvent (.mutex m)).setMutex m fun _ => ⟨.zero, 0, 0, 0⟩) := by
  generalize ht' : (s.deleteEvent (.mutex m)).setMutex m (fun _ => ⟨.zero, 0, 0, 0⟩) = t
  have hown : ∀ m', t.owner m' = s.owner m' := fun m' => by
    subst ht'
    simp only [Kernel.owner, Kernel.setMutex, deleteEvent, setEvent, Function.update_apply]
    split
    · rename_i heq
      rw [heq]
      exact hfree.symm
    · rfl
  have hall : ∀ m', t.Allocated (.mutex m') ↔ m' ≠ m ∧ s.Allocated (.mutex m') := fun m' => by
    subst ht'
    by_cases hmm : m' = m <;>
      simp [Kernel.Allocated, Kernel.setMutex, deleteEvent, setEvent, hmm]
  have hother : ∀ m', m' ≠ m → t.mutexTable m' = s.mutexTable m' := fun m' hmm => by
    subst ht'
    exact Function.update_of_ne hmm _ _
  have hceil : ∀ m' q, t.Ceiling m' q ↔ m' ≠ m ∧ s.Ceiling m' q := by
    intro m' q
    unfold Ceiling
    rw [hall]
    by_cases hmm : m' = m
    · simp [hmm]
    · simp [hmm, hother m' hmm]
  have hpvt : t.priorityVector = s.priorityVector := by subst ht'; rfl
  have hprio : ∀ h, t.prio h = s.prio h := fun h => by subst ht'; rfl
  have hbase : t.base = s.base := by subst ht'; rfl
  have hinst := installed_congr (s := s) (t := t) (by subst ht'; rfl)
  constructor
  all_goals try simp only [hpvt, hprio, hbase, hinst, hown, hceil]
  case pv_ne_zero => exact ht.pv_ne_zero
  case prio_lt => exact ht.prio_lt
  case base_lt => exact ht.base_lt
  case pv_prio => exact ht.pv_prio
  case pv_base => exact ht.pv_base
  case prio_base =>
    intro h hi
    rcases ht.prio_base hi with hb | ⟨m', hc, ho⟩
    · exact Or.inl hb
    · refine Or.inr ⟨m', ⟨?_, hc⟩, ho⟩
      rintro rfl
      exact hi.pos (ho.symm.trans hfree)
  case ceil_lt => exact fun hc => ht.ceil_lt hc.2
  case ceil_pv => exact fun hc => ht.ceil_pv hc.2
  case ceil_base => exact fun hc => ht.ceil_base hc.2
  case ceil_inj => exact fun hc hc' => ht.ceil_inj hc.2 hc'.2
  case ceil_free => exact fun hc => ht.ceil_free hc.2
  case mutex_lt => exact fun ha => ht.mutex_lt ((hall _).mp ha).2
  case owner_installed =>
    intro m' ho
    have hmm : m' ≠ m := by
      rintro rfl
      exact ho hfree
    exact ⟨(hall m').mpr ⟨hmm, (ht.owner_installed ho).1⟩, (ht.owner_installed ho).2⟩
  case state_owner =>
    intro m' ha
    obtain ⟨hmm, ha⟩ := (hall m').mp ha
    rw [hother m' hmm]
    exact ht.state_owner ha

/-! ### Install and uninstall -/

theorem installed_fillTcb {i p a b : Nat} (hi : i < cfg.numberOfTasks) (h : Nat) :
    (s.fillTcb i p a b).Installed h ↔ h = i + 1 ∨ s.Installed h := by
  have hle := cfg.numberOfTasks_le
  unfold Installed
  simp only [fillTcb, BitVec.getLsbD_or, getLsbD_mask, Bool.or_eq_true, decide_eq_true_eq]
  constructor
  · rintro ⟨h1, h2, h3 | ⟨-, h3⟩⟩
    · exact Or.inr ⟨h1, h2, h3⟩
    · exact Or.inl (by omega)
  · rintro (rfl | ⟨h1, h2, h3⟩)
    · exact ⟨by omega, by omega, Or.inr ⟨by omega, by omega⟩⟩
    · exact ⟨h1, h2, Or.inl h3⟩

theorem installed_clearTcb {task : Nat} (ht : task ≠ 0) (h : Nat) :
    (s.clearTcb task).Installed h ↔ s.Installed h ∧ h ≠ task := by
  have hle := cfg.numberOfTasks_le
  unfold Installed
  simp only [clearTcb, BitVec.getLsbD_and, BitVec.getLsbD_not, getLsbD_mask, Bool.and_eq_true,
    decide_eq_true_eq, Bool.not_eq_true', decide_eq_false_iff_not]
  constructor
  · rintro ⟨h1, h2, h3, h4, h5⟩
    exact ⟨⟨h1, h2, h3⟩, fun heq => h5 ⟨h4, by rw [heq]⟩⟩
  · rintro ⟨⟨h1, h2, h3⟩, hne⟩
    exact ⟨h1, h2, h3, by omega, fun h => hne (by omega)⟩

theorem not_installed_of_free {i : Nat} (h : s.freeTcb = some i) : ¬ s.Installed (i + 1) := by
  rintro ⟨-, -, h3⟩
  rw [Nat.add_sub_cancel, (freeTcb_spec h).2] at h3
  cases h3

/-- A new task gets a priority whose entry is empty. -/
theorem fillTcb (ht : TableInv s) {i p a b : Nat} (hi : s.freeTcb = some i) (hp : p < cfg.prioBits)
    (hpv : s.priorityVector p = emptyPrio) : TableInv (s.fillTcb i p a b) := by
  have hinst := fun h => installed_fillTcb (s := s) (p := p) (a := a) (b := b) (freeTcb_spec hi).1 h
  have hnew := not_installed_of_free hi
  have hprio : ∀ h, (s.fillTcb i p a b).prio h = if h = i + 1 then p else s.prio h := fun h => by
    simp only [Kernel.prio, Kernel.fillTcb, Function.update_apply]
    split <;> rfl
  have hbase : ∀ h, (s.fillTcb i p a b).base h = if h = i + 1 then p else s.base h := fun h => by
    simp only [Kernel.fillTcb, Function.update_apply]
  have hpvt : ∀ q, (s.fillTcb i p a b).priorityVector q =
      if q = p then i + 1 else s.priorityVector q := fun q => by
    simp only [Kernel.fillTcb, Function.update_apply]
  have hold : ∀ h, s.Installed h → h ≠ i + 1 := fun h hh heq => hnew (heq ▸ hh)
  have hceilp : ∀ m, ¬ s.Ceiling m p := fun m hc => ht.ceil_pv hc hpv
  constructor
  case pv_ne_zero =>
    intro q
    rw [hpvt]
    split
    · omega
    · exact ht.pv_ne_zero q
  case prio_lt =>
    intro h hh
    rw [hprio]
    split
    · exact hp
    · exact ht.prio_lt (((hinst h).mp hh).resolve_left (by assumption))
  case base_lt =>
    intro h hh
    rw [hbase]
    split
    · exact hp
    · exact ht.base_lt (((hinst h).mp hh).resolve_left (by assumption))
  case pv_prio =>
    intro h hh
    rw [hprio, hpvt]
    by_cases heq : h = i + 1
    · simp [heq]
    · have hh := ((hinst h).mp hh).resolve_left heq
      rw [if_neg heq, if_neg (ht.not_prio_of_empty hpv hh).1]
      exact ht.pv_prio hh
  case pv_base =>
    intro h hh
    rw [hbase, hpvt]
    by_cases heq : h = i + 1
    · simp [heq]
    · have hh := ((hinst h).mp hh).resolve_left heq
      rw [if_neg heq, if_neg (ht.not_prio_of_empty hpv hh).2]
      exact ht.pv_base hh
  case prio_base =>
    intro h hh
    rw [hprio, hbase]
    split
    · exact Or.inl rfl
    · exact ht.prio_base (((hinst h).mp hh).resolve_left (by assumption))
  case ceil_lt => exact ht.ceil_lt
  case ceil_pv =>
    intro m q hc
    rw [hpvt, if_neg]
    · exact ht.ceil_pv hc
    · rintro rfl
      exact hceilp m hc
  case ceil_base =>
    intro m q h hc hh
    rw [hbase]
    split
    · rintro rfl
      exact hceilp m hc
    · exact ht.ceil_base hc (((hinst h).mp hh).resolve_left (by assumption))
  case ceil_inj => exact ht.ceil_inj
  case ceil_free =>
    intro m q hc ho
    rw [hpvt, if_neg]
    · exact ht.ceil_free hc ho
    · rintro rfl
      exact hceilp m hc
  case mutex_lt => exact ht.mutex_lt
  case owner_installed =>
    intro m ho
    exact ⟨(ht.owner_installed ho).1, (hinst _).mpr (Or.inr (ht.owner_installed ho).2)⟩
  case state_owner => exact ht.state_owner

/-- A task that owns no mutex is at its base priority. -/
theorem prio_eq_base (ht : TableInv s) {h : Nat} (hi : s.Installed h) (hown : s.OwnsNone h) :
    s.prio h = s.base h := by
  rcases ht.prio_base hi with hb | ⟨m, hc, ho⟩
  · exact hb
  · exact absurd ho (hown m (ht.mutex_lt hc.1))

/-- A task that owns no mutex goes, and its priority is free again. -/
theorem clearTcb (ht : TableInv s) {task : Nat} (hi : s.Installed task) (hown : s.OwnsNone task) :
    TableInv (s.clearTcb task) := by
  have hinst := fun h => installed_clearTcb (s := s) hi.pos h
  have hb := ht.prio_eq_base hi hown
  have hprio : ∀ h, h ≠ task → (s.clearTcb task).prio h = s.prio h := fun h hne => by
    simp only [Kernel.prio, Kernel.clearTcb, Function.update_of_ne hne]
  have hpvt : ∀ q, (s.clearTcb task).priorityVector q =
      if q = s.prio task then emptyPrio else s.priorityVector q := fun q => by
    simp only [Kernel.clearTcb, Function.update_apply]
  have hceil : ∀ m q, s.Ceiling m q → q ≠ s.prio task := fun m q hc heq =>
    ht.ceil_base hc hi (hb.symm.trans heq.symm)
  constructor
  case pv_ne_zero =>
    intro q
    rw [hpvt]
    split
    · decide
    · exact ht.pv_ne_zero q
  case prio_lt =>
    intro h hh
    obtain ⟨hh, hne⟩ := (hinst h).mp hh
    rw [hprio h hne]
    exact ht.prio_lt hh
  case base_lt =>
    intro h hh
    exact ht.base_lt ((hinst h).mp hh).1
  case pv_prio =>
    intro h hh
    obtain ⟨hh, hne⟩ := (hinst h).mp hh
    rw [hprio h hne, hpvt, if_neg (fun he => hne (ht.prio_inj hh hi he))]
    exact ht.pv_prio hh
  case pv_base =>
    intro h hh
    obtain ⟨hh, hne⟩ := (hinst h).mp hh
    rw [hpvt, if_neg (fun he => hne (ht.prio_base_inj hi hh he.symm).symm)]
    exact ht.pv_base hh
  case prio_base =>
    intro h hh
    obtain ⟨hh, hne⟩ := (hinst h).mp hh
    rw [hprio h hne]
    exact ht.prio_base hh
  case ceil_lt => exact ht.ceil_lt
  case ceil_pv =>
    intro m q hc
    rw [hpvt, if_neg (hceil m q hc)]
    exact ht.ceil_pv hc
  case ceil_base =>
    intro m q h hc hh
    exact ht.ceil_base hc ((hinst h).mp hh).1
  case ceil_inj => exact ht.ceil_inj
  case ceil_free =>
    intro m q hc ho
    rw [hpvt, if_neg (hceil m q hc)]
    exact ht.ceil_free hc ho
  case mutex_lt => exact ht.mutex_lt
  case owner_installed =>
    intro m ho
    have hm := ht.owner_installed ho
    exact ⟨hm.1, (hinst _).mpr ⟨hm.2, hown m (ht.mutex_lt hm.1)⟩⟩
  case state_owner => exact ht.state_owner

end TableInv

end Brtos
