import Brtos.DQueue

/-!
# Brtos.Resources

What creations claim and deletions give back: the entries of `PriorityVector`, the
allocation flags of the control blocks and the heap.

On `Resources` alone, creating an object and giving back what it holds are two functions
(`Resources.create`, `Resources.giveBack`), and giving back undoes creating but for where
the heap has its free blocks (`giveBack_create`, `ObjectCreation.turn`). Almost no operation of the kernel touches any of it (the `claims`
simp set). Using a mutex rewrites the entry of its own ceiling (`Claims.Rewritten`,
`step_rewritten`), and the calls on dynamic queues leave the pointers that their delete
follows (`DKernel.Keeps`, `run_keeps`).
-/

namespace Brtos

open Bits Kernel

variable {cfg : Config} {dc : DQueueConfig}

/-! ### What creations claim -/

/-- What creations claim and deletions give back. -/
@[ext] structure Resources (cfg : Config) where
  priorityVector : Nat → Nat
  allocated : Event → Bool
  heap : cfg.mem.Heap

/-- The resources, and `OSMaxPriority` of the mutexes, by which a mutex rewrites the entry
it has claimed. -/
@[ext] structure Claims (cfg : Config) extends Resources cfg where
  maxPriority : Nat → Nat

def Kernel.claims (s : Kernel cfg) : Claims cfg where
  priorityVector := s.priorityVector
  allocated := fun ev => (s.event ev).osEventAllocated
  heap := s.heap
  maxPriority := fun m => (s.mutexTable m).osMaxPriority

section ClaimsLemmas

variable (s : Kernel cfg)

@[simp] theorem claims_setReady (p : Nat) : (s.setReady p).claims = s.claims := rfl

@[simp] theorem claims_clearReady (p : Nat) : (s.clearReady p).claims = s.claims := rfl

@[simp] theorem claims_setTimeToWait (h v : Nat) : (s.setTimeToWait h v).claims = s.claims := rfl

@[simp] theorem claims_setPriority (h p : Nat) : (s.setPriority h p).claims = s.claims := rfl

@[simp] theorem claims_setSem (e : Nat) (f : BRTOSSem → BRTOSSem) :
    (s.setSem e f).claims = s.claims := rfl

@[simp] theorem claims_setMbox (e : Nat) (f : BRTOSMbox → BRTOSMbox) :
    (s.setMbox e f).claims = s.claims := rfl

@[simp] theorem claims_setQueue (q : Nat) (f : OSQueue → OSQueue) :
    (s.setQueue q f).claims = s.claims := rfl

@[simp] theorem claims_setFrame (h : Nat) (f : Frame) : (s.setFrame h f).claims = s.claims := rfl

@[simp] theorem claims_includeTaskIntoDelayList (h : Nat) :
    (s.includeTaskIntoDelayList h).claims = s.claims := rfl

@[simp] theorem claims_removeFromDelayList (h : Nat) :
    (s.removeFromDelayList h).claims = s.claims := rfl

@[simp] theorem claims_putByte (q : Nat) (data : UInt8) : (s.putByte q data).claims = s.claims := rfl

@[simp] theorem claims_getByte (q : Nat) : (s.getByte q).1.claims = s.claims := rfl

@[simp] theorem claims_noteAcquired (m : Nat) : (s.noteAcquired m).claims = s.claims := rfl

@[simp] theorem claims_noteReleased (m : Nat) : (s.noteReleased m).claims = s.claims := rfl

@[simp] theorem claims_block (p : Nat) : (s.block p).claims = s.claims := rfl

@[simp] theorem claims_unBlock (p : Nat) : (s.unBlock p).claims = s.claims := rfl

@[simp] theorem claims_takeMessage (e : Nat) : (s.takeMessage e).1.claims = s.claims := rfl

/-- An update of an event control block that leaves `OSEventAllocated`. -/
theorem claims_setEvent (ev : Event) {f : EventWait cfg.prioBits → EventWait cfg.prioBits}
    (hf : ∀ e, (f e).osEventAllocated = e.osEventAllocated) :
    (s.setEvent ev f).claims = s.claims := by
  ext x
  · rfl
  · show ((Function.update s.event ev (f (s.event ev))) x).osEventAllocated = _
    by_cases hx : x = ev
    · subst hx
      rw [Function.update_self, hf]
      rfl
    · rw [Function.update_of_ne hx]
      rfl
  · rfl
  · rfl

/-- An update of a mutex that leaves `OSMaxPriority`. -/
theorem claims_setMutex (m : Nat) {f : BRTOSMutex → BRTOSMutex}
    (hf : ∀ c, (f c).osMaxPriority = c.osMaxPriority) : (s.setMutex m f).claims = s.claims := by
  ext x
  · rfl
  · rfl
  · rfl
  · show ((Function.update s.mutexTable m (f (s.mutexTable m))) x).osMaxPriority = _
    by_cases hx : x = m
    · subst hx
      rw [Function.update_self, hf]
      rfl
    · rw [Function.update_of_ne hx]
      rfl

@[simp] theorem claims_leaveWaitList (ev : Event) (p : Nat) :
    (s.leaveWaitList ev p).claims = s.claims := claims_setEvent s ev fun _ => rfl

@[simp] theorem claims_wakeWaiter (ev : Event) : (s.wakeWaiter ev).claims = s.claims := by
  simp [Kernel.wakeWaiter]

@[simp] theorem claims_startTimeout (timeWait : Nat) :
    (s.startTimeout timeWait).claims = s.claims := by
  unfold Kernel.startTimeout
  split <;> simp

@[simp] theorem claims_waitEvent (ev : Event) (timeWait : Nat) :
    (s.waitEvent ev timeWait).claims = s.claims := by
  simp only [Kernel.waitEvent, claims_setFrame, claims_startTimeout, claims_clearReady]
  exact claims_setEvent s ev fun _ => rfl

@[simp] theorem claims_wakeUp (ev : Event) (p timeWait : Nat) :
    (s.wakeUp ev p timeWait).1.claims = s.claims := by
  unfold Kernel.wakeUp
  repeat' split
  all_goals simp

@[simp] theorem claims_restorePriority (m : Nat) : (s.restorePriority m).claims = s.claims := by
  unfold Kernel.restorePriority
  dsimp only
  split <;> simp

end ClaimsLemmas

@[simp] theorem claims_setPriorityVector (s : Kernel cfg) (p v : Nat) :
    (s.setPriorityVector p v).claims =
      { s.claims with priorityVector := Function.update s.claims.priorityVector p v } := rfl

/-! ### Using an object -/

/-- The claims are the same, or the entry of ceiling `c` was rewritten, but not freed. -/
inductive Claims.Rewritten (c : Nat) (a : Claims cfg) : Claims cfg → Prop
  | same : Rewritten c a a
  | entry {v : Nat} (hc : 0 < c) (hv : v ≠ emptyPrio) :
      Rewritten c a { a with priorityVector := Function.update a.priorityVector c v }

namespace Claims.Rewritten

variable {c : Nat} {a b d : Claims cfg}

theorem of_eq (h : b = a) : Rewritten c a b := h ▸ .same

theorem trans (hab : Rewritten c a b) (hbd : Rewritten c b d) : Rewritten c a d := by
  cases hab with
  | same => exact hbd
  | entry hc hv =>
      cases hbd with
      | same => exact .entry hc hv
      | entry _ hv' =>
          have hlast := @entry cfg c a _ hc hv'
          simpa [Function.update_idem] using hlast

theorem maxPriority (h : Rewritten c a b) : b.maxPriority = a.maxPriority := by
  cases h <;> rfl

theorem allocated (h : Rewritten c a b) : b.allocated = a.allocated := by
  cases h <;> rfl

theorem heap (h : Rewritten c a b) : b.heap = a.heap := by
  cases h <;> rfl

/-- Without a ceiling nothing is rewritten. -/
theorem eq_of_zero (h : Rewritten 0 a b) : b = a := by
  cases h with
  | same => rfl
  | entry hc _ => exact absurd hc (lt_irrefl 0)

/-- The ceiling stays claimed. -/
theorem entry_ne (h : Rewritten c a b) (ha : a.priorityVector c ≠ emptyPrio) :
    b.priorityVector c ≠ emptyPrio := by
  cases h with
  | same => exact ha
  | entry hc hv => simpa using hv

end Claims.Rewritten

open Claims (Rewritten)

section Calls

variable {s t : Kernel cfg} {oc : Outcome} {c : Nat}

theorem checkEvent_rewritten {kind : Nat → Event} {p : Option Nat}
    {body : Nat → Kernel cfg × Outcome}
    (hbody : ∀ i, p = some i → Rewritten c s.claims (body i).1.claims)
    (h : s.checkEvent kind p body = some (t, oc)) : Rewritten c s.claims t.claims := by
  unfold Kernel.checkEvent at h
  split at h
  · split at h
    · cases h
      exact .same
    · cases h
  · rename_i i
    split at h
    · cases h
      exact .same
    · have hb := hbody i rfl
      rw [Option.some.inj h] at hb
      exact hb

theorem checkPend_rewritten {kind : Nat → Event} {p : Option Nat} {out : Out}
    {body : Nat → Kernel cfg × Outcome}
    (hbody : ∀ i, p = some i → Rewritten c s.claims (body i).1.claims)
    (h : s.checkPend kind p out body = some (t, oc)) : Rewritten c s.claims t.claims := by
  unfold Kernel.checkPend at h
  split at h
  · cases h
    exact .same
  · exact checkEvent_rewritten hbody h

theorem claims_semPend (timeWait e : Nat) : (s.semPend timeWait e).1.claims = s.claims := by
  unfold Kernel.semPend
  repeat' split
  all_goals simp

theorem claims_semPost (e : Nat) : (s.semPost e).1.claims = s.claims := by
  unfold Kernel.semPost
  repeat' split
  all_goals simp

theorem claims_mboxPend (timeWait e : Nat) : (s.mboxPend timeWait e).1.claims = s.claims := by
  unfold Kernel.mboxPend
  repeat' split
  all_goals simp

theorem claims_mboxPost (message e : Nat) : (s.mboxPost message e).1.claims = s.claims := by
  unfold Kernel.mboxPost
  split <;> simp

theorem claims_queuePend (timeWait q : Nat) : (s.queuePend timeWait q).1.claims = s.claims := by
  unfold Kernel.queuePend
  repeat' split
  all_goals simp

theorem claims_queuePost (data : UInt8) (q : Nat) : (s.queuePost data q).1.claims = s.claims := by
  unfold Kernel.queuePost
  dsimp only
  repeat' split
  all_goals simp

theorem claims_osDelayTask (timeWait : Nat) : (s.osDelayTask timeWait).1.claims = s.claims := by
  unfold Kernel.osDelayTask
  repeat' split
  all_goals simp

theorem claims_foldl {f : Kernel cfg → Nat → Kernel cfg} (hf : ∀ s h, (f s h).claims = s.claims)
    (l : List Nat) (s : Kernel cfg) : (l.foldl f s).claims = s.claims := by
  induction l generalizing s with
  | nil => rfl
  | cons h l ih =>
      rw [List.foldl_cons, ih]
      exact hf s h

theorem claims_osBlockMultipleTask (taskStart taskNumber : Nat) :
    (s.osBlockMultipleTask taskStart taskNumber).1.claims = s.claims := by
  unfold Kernel.osBlockMultipleTask
  split
  · rfl
  · refine claims_foldl (fun u h => ?_) _ _
    split <;> simp

theorem claims_osUnBlockMultipleTask (taskStart taskNumber : Nat) :
    (s.osUnBlockMultipleTask taskStart taskNumber).1.claims = s.claims := by
  unfold Kernel.osUnBlockMultipleTask
  split
  · rfl
  · refine claims_foldl (fun u h => ?_) _ _
    split <;> simp

/-- The owner of a mutex rewrites the entry of its ceiling. -/
theorem takeCeiling_rewritten (m iPriority : Nat) (hcur : s.currentTask ≠ emptyPrio) :
    Rewritten (s.claims.maxPriority m) s.claims (s.takeCeiling m iPriority).claims := by
  unfold Kernel.takeCeiling
  dsimp only
  have hnote : (s.setMutex m fun c => { c with osOriginalPriority := iPriority }).claims = s.claims :=
    claims_setMutex s m fun _ => rfl
  split
  · rename_i hgt
    simp only [claims_setReady, claims_clearReady, claims_setPriorityVector, claims_setPriority,
      hnote]
    exact .entry (lt_of_le_of_lt (Nat.zero_le _) hgt) hcur
  · exact .of_eq hnote

theorem mutexAcquire_rewritten (timeWait m : Nat) (hcur : s.currentTask ≠ emptyPrio) :
    Rewritten (s.claims.maxPriority m) s.claims (s.mutexAcquire timeWait m).1.claims := by
  unfold Kernel.mutexAcquire
  split
  · exact .same
  · split
    · dsimp only
      rw [claims_noteAcquired]
      have hown : (s.setMutex m fun c =>
          { c with osEventState := .busyResource, osEventOwner := s.currentTask }).claims =
          s.claims := claims_setMutex s m fun _ => rfl
      have hceil := takeCeiling_rewritten m (s.prio s.currentTask) (s := s.setMutex m fun c =>
          { c with osEventState := .busyResource, osEventOwner := s.currentTask }) hcur
      rw [hown] at hceil
      exact hceil
    · split
      · exact .same
      · exact .of_eq (claims_waitEvent ..)

theorem mutexRelease_rewritten (m : Nat) :
    Rewritten (s.claims.maxPriority m) s.claims (s.mutexRelease m).1.claims := by
  unfold Kernel.mutexRelease
  split
  · exact .same
  · extract_lets u₁ u₂ iPriority u₃ u₄ u₅ maxPriority
    have h₂ : u₂.claims = s.claims := by
      have hown : (u₁.setMutex m fun c => { c with osEventOwner := 0 }).claims = u₁.claims :=
        claims_setMutex u₁ m fun _ => rfl
      exact hown.trans (claims_restorePriority s m)
    split
    · have h₄ : u₄.claims = u₃.claims := claims_setMutex u₃ m fun _ => rfl
      refine .of_eq ?_
      simp only [claims_setReady, h₄, u₃, claims_leaveWaitList, h₂]
    · have hfree : u₅.claims = u₂.claims := claims_setMutex u₂ m fun _ => rfl
      have h₅ : u₅.claims = s.claims := hfree.trans h₂
      have hmax : maxPriority = s.claims.maxPriority m := by
        rw [← h₅]
        rfl
      dsimp only
      split
      · rename_i hpos
        rw [claims_setPriorityVector, h₅, hmax]
        exact .entry (hmax ▸ hpos) (by decide)
      · exact .of_eq h₅

end Calls

/-- A call that creates, deletes, installs and uninstalls nothing, and is on no mutex
but `om`. -/
def Call.Uses (om : Option Nat) : Call → Prop
  | .installTask .. | .uninstallTask .. | .semCreate _ | .semBinaryCreate _ | .semDelete _
  | .mboxCreate _ | .mboxDelete _ | .queueCreate _ | .mutexCreate _ | .mutexDelete _ => False
  | .mutexAcquire m _ | .mutexRelease m => m = none ∨ m = om
  | _ => True

instance (om : Option Nat) (c : Call) : Decidable (c.Uses om) := by
  unfold Call.Uses
  induction c using Call.casesOn <;> infer_instance

/-- The task is suspended on no mutex but `om`. -/
def Frame.Uses (om : Option Nat) : Frame → Prop
  | .pend (.mutex m) _ _ => some m = om
  | _ => True

instance (om : Option Nat) (f : Frame) : Decidable (f.Uses om) := by
  unfold Frame.Uses
  split <;> infer_instance

/-- A step that uses what there is, and no mutex but `om`. -/
def Action.Uses (om : Option Nat) (s : Kernel cfg) : Action → Prop
  | .call c => c.Uses om
  | .resume => (s.frame s.currentTask).Uses om
  | .brtosStart => False
  | .intEnter | .tick | .intExit => True

instance (om : Option Nat) (s : Kernel cfg) : (a : Action) → Decidable (a.Uses om s)
  | .call c => inferInstanceAs (Decidable (c.Uses om))
  | .resume => inferInstanceAs (Decidable ((s.frame s.currentTask).Uses om))
  | .brtosStart => isFalse id
  | .intEnter | .tick | .intExit => isTrue trivial

section Steps

variable {s t : Kernel cfg} {c : Nat} {om : Option Nat}

/-- One case for each call: the calls on a mutex may rewrite its ceiling's entry, no other
call that is a use claims anything. -/
theorem exec_rewritten {call : Call} {oc : Outcome} (hcur : s.currentTask ≠ emptyPrio)
    (huse : call.Uses om) (hmax : ∀ m, om = some m → s.claims.maxPriority m = c)
    (h : s.exec call = some (t, oc)) : Rewritten c s.claims t.claims := by
  cases call with
  | delayTask timeWait =>
      obtain rfl : _ = t := congrArg Prod.fst (Option.some.inj h)
      exact .of_eq (claims_osDelayTask timeWait)
  | blockPriority p =>
      obtain rfl : _ = t := congrArg Prod.fst (Option.some.inj h)
      unfold Kernel.osBlockPriority
      split <;> exact .same
  | unBlockPriority p =>
      obtain rfl : _ = t := congrArg Prod.fst (Option.some.inj h)
      exact .same
  | blockTask h' =>
      obtain rfl : _ = t := congrArg Prod.fst (Option.some.inj h)
      unfold Kernel.osBlockTask
      dsimp only
      repeat' split
      all_goals exact .same
  | unBlockTask h' =>
      obtain rfl : _ = t := congrArg Prod.fst (Option.some.inj h)
      exact .same
  | blockMultipleTask a b =>
      obtain rfl : _ = t := congrArg Prod.fst (Option.some.inj h)
      exact .of_eq (claims_osBlockMultipleTask a b)
  | unBlockMultipleTask a b =>
      obtain rfl : _ = t := congrArg Prod.fst (Option.some.inj h)
      exact .of_eq (claims_osUnBlockMultipleTask a b)
  | semPend e timeWait =>
      exact checkPend_rewritten (fun e _ => .of_eq (claims_semPend timeWait e)) h
  | semPost e => exact checkEvent_rewritten (fun e _ => .of_eq (claims_semPost e)) h
  | mboxPend e timeWait =>
      exact checkPend_rewritten (fun e _ => .of_eq (claims_mboxPend timeWait e)) h
  | mboxPost e message =>
      exact checkEvent_rewritten (fun e _ => .of_eq (claims_mboxPost message e)) h
  | queuePend q timeWait =>
      obtain ⟨q, rfl, hq⟩ := Option.bind_eq_some_iff.mp h
      exact checkPend_rewritten (fun q _ => .of_eq (claims_queuePend timeWait q)) hq
  | queuePost q data =>
      obtain ⟨q, rfl, hq⟩ := Option.bind_eq_some_iff.mp h
      exact checkEvent_rewritten (fun q _ => .of_eq (claims_queuePost data q)) hq
  | rQueue q =>
      obtain rfl : _ = t := congrArg Prod.fst (Option.some.inj h)
      unfold Kernel.osRQueue
      split
      · exact .of_eq (claims_getByte s q)
      · exact .same
  | wQueue q data =>
      obtain rfl : _ = t := congrArg Prod.fst (Option.some.inj h)
      unfold Kernel.osWQueue
      split
      · exact .of_eq (claims_putByte s q data)
      · exact .same
  | queueClean q =>
      obtain rfl : _ = t := congrArg Prod.fst (Option.some.inj h)
      exact .same
  | mutexAcquire m timeWait =>
      refine checkPend_rewritten (fun i hi => ?_) h
      have hm : s.claims.maxPriority i = c := by
        rcases huse with hnone | hsome
        · cases hnone.symm.trans hi
        · exact hmax i (hsome.symm.trans hi)
      exact hm ▸ mutexAcquire_rewritten timeWait i hcur
  | mutexRelease m =>
      refine checkPend_rewritten (fun i hi => ?_) h
      have hm : s.claims.maxPriority i = c := by
        rcases huse with hnone | hsome
        · cases hnone.symm.trans hi
        · exact hmax i (hsome.symm.trans hi)
      exact hm ▸ mutexRelease_rewritten i
  | installTask | uninstallTask | semCreate | semBinaryCreate | semDelete | mboxCreate
  | mboxDelete | queueCreate | mutexCreate | mutexDelete => exact absurd huse id

theorem claims_changeContext (h : s.changeContext = some t) : t.claims = s.claims := by
  obtain ⟨task, -, rfl⟩ := Option.map_eq_some_iff.mp h
  rfl

theorem claims_tickTask (s : Kernel cfg) (task : Nat) : (s.tickTask task).claims = s.claims := by
  unfold Kernel.tickTask Kernel.expire
  split <;> simp

theorem claims_tickLoop {fuel : Nat} {task : Option Nat} (h : tickLoop fuel s task = some t) :
    t.claims = s.claims := by
  induction fuel generalizing s task with
  | zero =>
      cases task with
      | none =>
          cases h
          rfl
      | some task => cases h
  | succ fuel ih =>
      cases task with
      | none =>
          cases h
          rfl
      | some task => exact (ih h).trans (claims_tickTask s task)

/-- A woken pend of a mutex takes the ceiling; the others claim nothing. -/
theorem pendResume_rewritten {ev : Event} {p timeWait : Nat} (hcur : s.currentTask ≠ emptyPrio)
    (huse : (Frame.pend ev p timeWait).Uses om)
    (hmax : ∀ m, om = some m → s.claims.maxPriority m = c) :
    Rewritten c s.claims (s.pendResume ev p timeWait).1.claims := by
  have hwake := claims_wakeUp s ev p timeWait
  have hrun : (s.wakeUp ev p timeWait).1.currentTask = s.currentTask := by
    unfold Kernel.wakeUp
    repeat' split
    all_goals rfl
  cases ev with
  | sem e =>
      unfold Kernel.pendResume Kernel.osSemPendResume
      dsimp only
      split <;> rename_i hu <;> rw [hu] at hwake <;> exact .of_eq hwake
  | mbox e =>
      unfold Kernel.pendResume Kernel.osMboxPendResume
      dsimp only
      split <;> rename_i hu <;> rw [hu] at hwake <;> exact .of_eq hwake
  | queue q =>
      unfold Kernel.pendResume Kernel.osQueuePendResume
      dsimp only
      split <;> rename_i hu <;> rw [hu] at hwake <;> exact .of_eq hwake
  | mutex m =>
      unfold Kernel.pendResume Kernel.osMutexAcquireResume
      dsimp only
      split
      · rename_i hu
        rw [hu] at hwake
        exact .of_eq hwake
      · rename_i u hu
        rw [hu] at hwake hrun
        have hm : u.claims.maxPriority m = c := by
          rw [hwake]
          exact hmax m (Eq.symm huse)
        have htake := takeCeiling_rewritten m p (s := u) (by rw [hrun]; exact hcur)
        rw [hm, hwake] at htake
        exact htake

/-- What a step of the kernel does to the claims while the mutex `om` is in use. -/
theorem step_rewritten {a : Action} {o : Obs} (hcur : s.currentTask ≠ emptyPrio)
    (huse : a.Uses om s) (hmax : ∀ m, om = some m → s.claims.maxPriority m = c)
    (h : s.step a = some (t, o)) : Rewritten c s.claims t.claims := by
  cases a with
  | call call =>
      simp only [Kernel.step, Kernel.stepCall] at h
      split at h
      · split at h
        · cases h
        · rename_i u r hexec
          cases h
          exact exec_rewritten hcur huse hmax hexec
        · rename_i u r hexec
          obtain ⟨u', hu, hpair⟩ := Option.map_eq_some_iff.mp h
          cases hpair
          exact claims_changeContext hu ▸ exec_rewritten hcur huse hmax hexec
        · rename_i u hexec
          obtain ⟨u', hu, hpair⟩ := Option.map_eq_some_iff.mp h
          cases hpair
          exact claims_changeContext hu ▸ exec_rewritten hcur huse hmax hexec
      · cases h
  | brtosStart => exact absurd huse id
  | resume =>
      simp only [Kernel.step, Kernel.stepResume] at h
      split at h
      · split at h
        · cases h
        · cases h
          exact .of_eq (claims_setFrame ..)
        · rename_i ev p timeWait hf
          cases h
          have huse : (s.frame s.currentTask).Uses om := huse
          rw [hf] at huse
          have hrest := pendResume_rewritten hcur huse hmax
          rw [← claims_setFrame _ s.currentTask .user] at hrest
          exact hrest
      · cases h
  | intEnter =>
      simp only [Kernel.step] at h
      split at h
      · cases h
        exact .same
      · cases h
  | tick =>
      simp only [Kernel.step] at h
      split at h
      · obtain ⟨u, hu, hpair⟩ := Option.map_eq_some_iff.mp h
        cases hpair
        exact .of_eq (claims_tickLoop (s := s.osIncCounter) hu)
      · cases h
  | intExit =>
      simp only [Kernel.step, Kernel.osIntExit] at h
      split at h
      · obtain ⟨u, hu, hpair⟩ := Option.map_eq_some_iff.mp h
        cases hpair
        split at hu
        · have hsame := claims_changeContext hu
          exact .of_eq hsame
        · cases hu
          exact .same
      · cases h

end Steps

/-! ### Dynamic queues, in use -/

/-- What a use leaves: the claims but for ceiling `c`, and the pointers a delete of a
dynamic queue follows. -/
structure DKernel.Keeps (c : Nat) (s t : DKernel dc) : Prop where
  claims : Rewritten c s.kernel.claims t.kernel.claims
  start : ∀ a, (t.dQueue a).osqStart = (s.dQueue a).osqStart
  pointer : ∀ e, (t.dEvent e).osEventPointer = (s.dEvent e).osEventPointer

namespace DKernel.Keeps

variable {c : Nat} {s t u : DKernel dc}

theorem refl (s : DKernel dc) : Keeps c s s := ⟨.same, fun _ => rfl, fun _ => rfl⟩

theorem trans (h₁ : Keeps c s t) (h₂ : Keeps c t u) : Keeps c s u where
  claims := h₁.claims.trans h₂.claims
  start a := (h₂.start a).trans (h₁.start a)
  pointer e := (h₂.pointer e).trans (h₁.pointer e)

/-- A change of the kernel, of buffers or of frames only. -/
theorem of_eq (hk : Rewritten c s.kernel.claims t.kernel.claims) (hq : t.dQueue = s.dQueue)
    (he : t.dEvent = s.dEvent) : Keeps c s t :=
  ⟨hk, fun a => by rw [hq], fun e => by rw [he]⟩

theorem setDQueue (cqueue : Nat) {f : OSDQueue → OSDQueue}
    (hf : ∀ q, (f q).osqStart = q.osqStart) : Keeps c s (s.setDQueue cqueue f) where
  claims := .same
  start a := by
    show (Function.update s.dQueue cqueue (f (s.dQueue cqueue)) a).osqStart = _
    by_cases ha : a = cqueue
    · subst ha
      rw [Function.update_self, hf]
    · rw [Function.update_of_ne ha]
  pointer _ := rfl

theorem setDEvent (e : Nat) {f : BRTOSQueue dc.prioBits → BRTOSQueue dc.prioBits}
    (hf : ∀ q, (f q).osEventPointer = q.osEventPointer) : Keeps c s (s.setDEvent e f) where
  claims := .same
  start _ := rfl
  pointer x := by
    show (Function.update s.dEvent e (f (s.dEvent e)) x).osEventPointer = _
    by_cases hx : x = e
    · subst hx
      rw [Function.update_self, hf]
    · rw [Function.update_of_ne hx]

theorem leaveWaitList (e p : Nat) : Keeps c s (s.leaveWaitList e p) := setDEvent e fun _ => rfl

theorem readMessage {cqueue n : Nat} {r : DRet} (h : s.readMessage cqueue n = some (t, r)) :
    Keeps c s t := by
  unfold DKernel.readMessage at h
  extract_lets q out at h
  split at h
  · cases h
    exact setDQueue cqueue fun _ => rfl
  · cases h

theorem writeMessage {cqueue : Nat} {pdata : List UInt8} (h : s.writeMessage cqueue pdata = some t) :
    Keeps c s t := by
  unfold DKernel.writeMessage at h
  extract_lets q i at h
  split at h
  · cases h
    have hqueue := setDQueue (c := c) (s := s) cqueue (f := fun q =>
      { q with osqEntries := q.osqEntries + 1, osqIn := i + q.osqTSize }) fun _ => rfl
    exact hqueue.trans (of_eq .same rfl rfl)
  · cases h

theorem waitDEvent (e cqueue n timeWait : Nat) : Keeps c s (s.waitDEvent e cqueue n timeWait) := by
  have hlist := setDEvent (c := c) (s := s) e (f := fun q =>
    { q with
      osEventWait := (q.osEventWait + 1) % 256
      osEventWaitList := q.osEventWaitList |||
        priorityMask dc.toConfig (s.kernel.prio s.kernel.currentTask) }) fun _ => rfl
  refine hlist.trans (of_eq (.of_eq ?_) rfl rfl)
  show ((_ : Kernel dc.toConfig).setFrame _ _).claims = _
  rw [claims_setFrame, claims_startTimeout, claims_clearReady]

end DKernel.Keeps

/-- A step that uses what there is, on a build whose `ContextTask` has an entry for the
running task. -/
def DAction.Uses (om : Option Nat) (s : DKernel dc) (a : DAction) : Prop :=
  s.kernel.currentTask ≤ dc.numberOfTasks ∧
    match a with
    | .kernel a => a.Uses om s.kernel
    | .call (.create ..) | .call (.delete _) => False
    | .call _ | .resume => True

instance (om : Option Nat) (s : DKernel dc) (a : DAction) : Decidable (a.Uses om s) := by
  unfold DAction.Uses
  cases a with
  | kernel a => exact inferInstanceAs (Decidable (_ ∧ a.Uses om s.kernel))
  | call c => cases c <;> (dsimp only; infer_instance)
  | resume => exact inferInstanceAs (Decidable (_ ∧ True))

section DSteps

variable {s t : DKernel dc} {c : Nat} {om : Option Nat}

theorem dQueuePend_keeps {timeWait e : Nat} {oc : DOutcome}
    (h : s.dQueuePend timeWait e = some (t, oc)) : DKernel.Keeps c s t := by
  unfold DKernel.dQueuePend at h
  dsimp only at h
  split at h
  · obtain ⟨⟨u, r⟩, hread, hpair⟩ := Option.map_eq_some_iff.mp h
    cases hpair
    exact .readMessage hread
  · split at h
    · cases h
      exact .refl s
    · cases h
      exact .waitDEvent ..

theorem dQueuePost_keeps {pdata : List UInt8} {e : Nat} {oc : DOutcome}
    (h : s.dQueuePost pdata e = some (t, oc)) : DKernel.Keeps c s t := by
  unfold DKernel.dQueuePost at h
  dsimp only at h
  split at h
  · obtain ⟨u, hwrite, hpair⟩ := Option.map_eq_some_iff.mp h
    split at hpair
    · cases hpair
      exact (DKernel.Keeps.writeMessage hwrite).trans
        ((DKernel.Keeps.leaveWaitList e _).trans (.of_eq .same rfl rfl))
    · cases hpair
      exact .writeMessage hwrite
  · cases h
    exact .refl s

theorem checkDEvent_keeps {p : Option Nat} {body : Nat → Option (DKernel dc × DOutcome)}
    {oc : DOutcome} (hbody : ∀ i u oc, body i = some (u, oc) → DKernel.Keeps c s u)
    (h : s.checkDEvent p body = some (t, oc)) : DKernel.Keeps c s t := by
  unfold DKernel.checkDEvent at h
  split at h
  · split at h
    · cases h
      exact .refl s
    · cases h
  · split at h
    · cases h
      exact .refl s
    · exact hbody _ _ _ h

/-- Clean, pend and post leave what the delete needs. -/
theorem dexec_keeps {call : DCall} {oc : DOutcome}
    (hcreate : ∀ queueLength typeSize, call ≠ .create queueLength typeSize)
    (hdelete : ∀ e, call ≠ .delete e) (h : s.exec call = some (t, oc)) :
    DKernel.Keeps c s t := by
  cases call with
  | create queueLength typeSize => exact absurd rfl (hcreate _ _)
  | delete e => exact absurd rfl (hdelete e)
  | clean e =>
      cases h
      exact DKernel.Keeps.setDQueue (s.dEvent e).osEventPointer (f := fun q =>
        { q with osqEntries := 0, osqIn := q.osqStart, osqOut := q.osqStart }) fun _ => rfl
  | pend e timeWait =>
      simp only [DKernel.exec, DKernel.osDQueuePend] at h
      split at h
      · cases h
        exact .refl s
      · exact checkDEvent_keeps (fun i u oc => dQueuePend_keeps) h
  | post e pdata => exact checkDEvent_keeps (fun i u oc => dQueuePost_keeps) h

theorem dresume_keeps {f : DFrame} {r : DRet} (h : s.osDQueuePendResume f = some (t, r)) :
    DKernel.Keeps c s t := by
  unfold DKernel.osDQueuePendResume at h
  dsimp only at h
  split at h
  · split at h
    · split at h
      · cases h
        exact .leaveWaitList ..
      · exact .readMessage h
    · have hread := DKernel.Keeps.readMessage (c := c) h
      have hwoken : DKernel.Keeps c s (s.setKernel fun k =>
          (k.setTimeToWait s.kernel.currentTask dc.noTimeout).removeFromDelayList
            s.kernel.currentTask) := .of_eq .same rfl rfl
      exact hwoken.trans hread
  · exact .readMessage h

theorem dchangeContext_keeps (h : s.changeContext = some t) : DKernel.Keeps c s t := by
  obtain ⟨k, hk, rfl⟩ := Option.map_eq_some_iff.mp h
  exact .of_eq (.of_eq (claims_changeContext hk)) rfl rfl

/-- **The step lemma**: what one step of a use leaves. -/
theorem dstep_keeps {a : DAction} {o : DObs} (huse : a.Uses om s)
    (hmax : ∀ m, om = some m → s.kernel.claims.maxPriority m = c)
    (h : s.step a = some (t, o)) : DKernel.Keeps c s t := by
  obtain ⟨hrange, huse⟩ := huse
  have hcur : s.kernel.currentTask ≠ emptyPrio := by
    have hle := dc.numberOfTasks_le
    unfold emptyPrio
    omega
  cases a with
  | kernel a =>
      simp only [DKernel.step, DKernel.stepKernel] at h
      split at h
      · cases h
      · obtain ⟨⟨k, o'⟩, hk, hpair⟩ := Option.map_eq_some_iff.mp h
        cases hpair
        exact .of_eq (step_rewritten hcur huse hmax hk) rfl rfl
  | call call =>
      have hcreate : ∀ queueLength typeSize, call ≠ .create queueLength typeSize := by
        rintro _ _ rfl
        exact huse
      have hdelete : ∀ e, call ≠ .delete e := by
        rintro _ rfl
        exact huse
      obtain ⟨-, u, oc, hexec, ho⟩ := dstep_call_inv h
      have hu : DKernel.Keeps c s u := dexec_keeps hcreate hdelete hexec
      rcases ho with ⟨r, -, rfl, -⟩ | ⟨hto, -⟩
      · exact hu
      · exact hu.trans (dchangeContext_keeps hto)
  | resume =>
      simp only [DKernel.step, DKernel.stepResume] at h
      split at h
      · obtain ⟨f, -, hf⟩ := Option.bind_eq_some_iff.mp h
        obtain ⟨⟨u, r⟩, hu, hpair⟩ := Option.map_eq_some_iff.mp hf
        cases hpair
        exact (dresume_keeps hu).trans (.of_eq .same rfl rfl)
      · cases h

/-- **The run lemma**: what a whole use leaves. -/
theorem run_keeps {tr : List (DAction × DObs)}
    (h : Run DKernel.step (fun s a => a.Uses om s) s tr t)
    (hmax : ∀ m, om = some m → s.kernel.claims.maxPriority m = c) : DKernel.Keeps c s t := by
  refine h.invariant (.refl s) fun u a v o hu hok hstep => hu.trans (dstep_keeps hok ?_ hstep)
  intro m hm
  rw [hu.claims.maxPriority]
  exact hmax m hm

end DSteps

/-! ### Creating and deleting, on the resources alone -/

/-- The creations that a deletion can undo. -/
inductive ObjectCreation
  | sem (cnt : UInt8)
  | semBinary (bit : UInt8)
  | mutex (higherPriority : Nat)
  | mbox (message : Nat)
  | dQueue (queueLength : UInt16) (typeSize : Nat)
  deriving DecidableEq, Repr

/-- The ceiling the creation reserves, 0 for none. -/
def ObjectCreation.ceiling : ObjectCreation → Nat
  | .mutex higherPriority => higherPriority
  | _ => 0

/-- What creating and deleting a dynamic queue does to the heap, in the order of `OSDQueueCreate`
and `OSDQueueDelete`; `none` when a block is refused. -/
def DQueueConfig.turn (dc : DQueueConfig) (size : Nat) (heap : dc.mem.Heap) : Option dc.mem.Heap :=
  match dc.mem.alloc heap dc.sizeofOSDQueue with
  | (none, _) => none
  | (some cqueue, heap) =>
    match dc.mem.alloc heap size with
    | (none, _) => none
    | (some start, heap) =>
      match dc.mem.alloc heap dc.sizeofBRTOSQueue with
      | (none, _) => none
      | (some e, heap) =>
        some (dc.mem.dealloc (dc.mem.dealloc (dc.mem.dealloc heap start) cqueue) e)

/-- The same for any creation: only dynamic queues have blocks. -/
def ObjectCreation.turn (dc : DQueueConfig) (heap : dc.mem.Heap) :
    ObjectCreation → Option dc.mem.Heap
  | .dQueue queueLength typeSize =>
    if 0 < queueLength.toNat ∧ 0 < typeSize then
      dc.turn (queueLength.toNat * typeSize % 65536) heap
    else none
  | _ => some heap

/-- However often the heap has served the creation and has its blocks back, it serves it again. -/
def ObjectCreation.Refills (dc : DQueueConfig) (heap : dc.mem.Heap) (cr : ObjectCreation) : Prop :=
  ∀ heap', Relation.ReflTransGen (fun h h' => cr.turn dc h = some h') heap heap' →
    ∃ heap'', cr.turn dc heap' = some heap''

/-- Where freeing undoes allocating, in any order, a turn leaves the heap as it was. -/
theorem DQueueConfig.turn_eq (hmem : dc.mem.UndoesInAnyOrder) {size : Nat} {heap heap' : dc.mem.Heap}
    (h : dc.turn size heap = some heap') : heap' = heap := by
  unfold turn at h
  split at h
  · cases h
  · rename_i cqueue h₁ hcqueue
    split at h
    · cases h
    · rename_i start h₂ hstart
      split at h
      · cases h
      · rename_i e h₃ he
        cases h
        -- the event control block was allocated last, and is freed last
        calc dc.mem.dealloc (dc.mem.dealloc (dc.mem.dealloc h₃ start) cqueue) e
            = dc.mem.dealloc (dc.mem.dealloc (dc.mem.dealloc h₃ start) e) cqueue :=
              hmem.comm _ cqueue e
          _ = dc.mem.dealloc (dc.mem.dealloc (dc.mem.dealloc h₃ e) start) cqueue := by
              rw [hmem.comm h₃ start e]
          _ = dc.mem.dealloc (dc.mem.dealloc h₂ start) cqueue := by rw [hmem.freed he]
          _ = dc.mem.dealloc h₁ cqueue := by rw [hmem.freed hstart]
          _ = heap := hmem.freed hcqueue

theorem ObjectCreation.turn_eq (hmem : dc.mem.UndoesInAnyOrder) {cr : ObjectCreation}
    {heap heap' : dc.mem.Heap} (h : cr.turn dc heap = some heap') : heap' = heap := by
  cases cr with
  | dQueue queueLength typeSize =>
      simp only [turn] at h
      split at h
      · exact dc.turn_eq hmem h
      · cases h
  | sem | semBinary | mbox | mutex => exact (Option.some.inj h).symm

/-- A turn leaves the same blocks in use. -/
theorem DQueueConfig.inUse_turn {InUse : dc.mem.Heap → Set Nat → Prop} (hmem : dc.mem.Lends InUse)
    (hqueue : dc.sizeofOSDQueue < 65536) (hevent : dc.sizeofBRTOSQueue < 65536) {size : Nat}
    (hsize : size < 65536) {heap heap' : dc.mem.Heap} {bs : Set Nat} (hbs : InUse heap bs)
    (h : dc.turn size heap = some heap') : InUse heap' bs := by
  unfold turn at h
  split at h
  · cases h
  · rename_i cqueue h₁ hcqueue
    split at h
    · cases h
    · rename_i start h₂ hstart
      split at h
      · cases h
      · rename_i e h₃ he
        cases h
        obtain ⟨hn₁, hu₁⟩ := hmem.lent hbs hqueue hcqueue
        obtain ⟨hn₂, hu₂⟩ := hmem.lent hu₁ hsize hstart
        obtain ⟨hn₃, hu₃⟩ := hmem.lent hu₂ hevent he
        rw [Set.mem_insert_iff, not_or] at hn₂ hn₃
        rw [Set.mem_insert_iff, not_or] at hn₃
        -- start, cqueue and e are given back, and they are three
        have hd₁ := hmem.returned (a := start) hu₃ (by simp)
        have hd₂ := hmem.returned (a := cqueue) hd₁ (by simp [Ne.symm hn₂.1])
        have hd₃ := hmem.returned (a := e) hd₂ (by simp [hn₃.1, hn₃.2.1])
        convert hd₃ using 1
        ext x
        simp only [Set.mem_sdiff, Set.mem_insert_iff, Set.mem_singleton_iff]
        grind

theorem ObjectCreation.inUse_turn {InUse : dc.mem.Heap → Set Nat → Prop} (hmem : dc.mem.Lends InUse)
    (hqueue : dc.sizeofOSDQueue < 65536) (hevent : dc.sizeofBRTOSQueue < 65536) {cr : ObjectCreation}
    {heap heap' : dc.mem.Heap} {bs : Set Nat} (hbs : InUse heap bs)
    (h : cr.turn dc heap = some heap') : InUse heap' bs := by
  cases cr with
  | dQueue queueLength typeSize =>
      simp only [turn] at h
      split at h
      · exact dc.inUse_turn hmem hqueue hevent (Nat.mod_lt _ (by decide)) hbs h
      · cases h
  | sem | semBinary | mbox | mutex => exact Option.some.inj h ▸ hbs

/-- Such a heap can be turned for ever, if it can be turned once. -/
theorem ObjectCreation.refills_of_undoes (hmem : dc.mem.UndoesInAnyOrder) {cr : ObjectCreation}
    {heap heap' : dc.mem.Heap} (h : cr.turn dc heap = some heap') : cr.Refills dc heap := by
  intro g hg
  obtain rfl : g = heap := by
    induction hg with
    | refl => rfl
    | tail _ hturn ih => exact (turn_eq hmem hturn).trans ih
  exact ⟨_, h⟩

/-- What an object holds: a control block of the tables, or three blocks of the heap. -/
inductive Holding
  | event (ev : Event)
  | blocks (cqueue start e : Nat)

namespace Resources

/-- Take the first control block that is not allocated. -/
def take (a : Resources cfg) (kind : Nat → Event) (max : Nat) : Option (Holding × Resources cfg) :=
  ((List.range max).find? fun i => !a.allocated (kind i)).map fun i =>
    (.event (kind i), { a with allocated := Function.update a.allocated (kind i) true })

/-- Take the three blocks of a dynamic queue. -/
def takeBlocks (a : Resources dc.toConfig) (size : Nat) :
    Option (Holding × Resources dc.toConfig) :=
  match dc.mem.alloc a.heap dc.sizeofOSDQueue with
  | (none, _) => none
  | (some cqueue, heap) =>
    match dc.mem.alloc heap size with
    | (none, _) => none
    | (some start, heap) =>
      match dc.mem.alloc heap dc.sizeofBRTOSQueue with
      | (none, _) => none
      | (some e, heap) => some (.blocks cqueue start e, { a with heap := heap })

/-- Reserve a free ceiling; 0 asks for none. -/
def reserve (a : Resources cfg) (p : Nat) : Option (Resources cfg) :=
  if 0 < p then
    if a.priorityVector p = emptyPrio then
      some { a with priorityVector := Function.update a.priorityVector p mutexPrio }
    else none
  else some a

/-- What a creation takes, `none` when something is missing. -/
def create (a : Resources dc.toConfig) : ObjectCreation → Option (Holding × Resources dc.toConfig)
  | .sem _ | .semBinary _ => a.take .sem dc.brtosMaxSem
  | .mbox _ => a.take .mbox dc.brtosMaxMbox
  | .mutex p => (a.reserve p).bind fun a => a.take .mutex dc.brtosMaxMutex
  | .dQueue queueLength typeSize =>
    if 0 < queueLength.toNat ∧ 0 < typeSize then
      a.takeBlocks (queueLength.toNat * typeSize % 65536)
    else none

/-- What a deletion gives back. -/
def giveBack (a : Resources cfg) : Holding → Resources cfg
  | .event ev => { a with allocated := Function.update a.allocated ev false }
  | .blocks cqueue start e =>
    { a with
      heap := cfg.mem.dealloc (cfg.mem.dealloc (cfg.mem.dealloc a.heap start) cqueue) e }

theorem giveBack_take {a b : Resources cfg} {kind : Nat → Event} {max : Nat} {hold : Holding}
    (h : a.take kind max = some (hold, b)) : b.giveBack hold = a := by
  obtain ⟨i, hi, hpair⟩ := Option.map_eq_some_iff.mp h
  cases hpair
  have hfree : a.allocated (kind i) = false := by simpa using List.find?_some hi
  show { a with allocated := Function.update (Function.update a.allocated _ true) _ false } = a
  rw [Function.update_idem, ← hfree, Function.update_eq_self]

/-- What the three blocks of a dynamic queue, taken and given back, leave of the heap. -/
theorem giveBack_takeBlocks {a b : Resources dc.toConfig} {size : Nat} {hold : Holding}
    (h : a.takeBlocks size = some (hold, b)) :
    dc.turn size a.heap = some (b.giveBack hold).heap ∧
      b.giveBack hold = { a with heap := (b.giveBack hold).heap } := by
  unfold takeBlocks at h
  split at h
  · cases h
  · rename_i cqueue h₁ hcqueue
    split at h
    · cases h
    · rename_i start h₂ hstart
      split at h
      · cases h
      · rename_i e h₃ he
        cases h
        refine ⟨?_, rfl⟩
        simp only [DQueueConfig.turn, hcqueue, hstart, he]
        rfl

theorem takeBlocks_of_turn {a : Resources dc.toConfig} {size : Nat} {heap : dc.mem.Heap}
    (h : dc.turn size a.heap = some heap) : ∃ x, a.takeBlocks size = some x := by
  unfold DQueueConfig.turn at h
  split at h
  · cases h
  · rename_i cqueue h₁ hcqueue
    split at h
    · cases h
    · rename_i start h₂ hstart
      split at h
      · cases h
      · rename_i e h₃ he
        simp only [takeBlocks, hcqueue, hstart, he]
        exact ⟨_, rfl⟩

/-- **Giving back undoes a creation** that reserves no ceiling, but for where the allocator now
has its free blocks. -/
theorem giveBack_create {a b : Resources dc.toConfig} {cr : ObjectCreation} {hold : Holding}
    (hceil : cr.ceiling = 0) (h : a.create cr = some (hold, b)) :
    cr.turn dc a.heap = some (b.giveBack hold).heap ∧
      b.giveBack hold = { a with heap := (b.giveBack hold).heap } := by
  have htaken : ∀ {a' : Resources dc.toConfig} {kind : Nat → Event} {max : Nat}, a' = a →
      a'.take kind max = some (hold, b) → some a.heap = some (b.giveBack hold).heap ∧
        b.giveBack hold = { a with heap := (b.giveBack hold).heap } := by
    rintro a' kind max rfl htake
    rw [giveBack_take htake]
    exact ⟨rfl, rfl⟩
  cases cr with
  | sem cnt => exact htaken rfl h
  | semBinary bit => exact htaken rfl h
  | mbox message => exact htaken rfl h
  | mutex p =>
      obtain ⟨a', ha', htake⟩ := Option.bind_eq_some_iff.mp h
      have hp : p = 0 := hceil
      rw [reserve, hp, if_neg (lt_irrefl 0)] at ha'
      exact htaken (Option.some.inj ha').symm htake
  | dQueue queueLength typeSize =>
      simp only [create] at h
      split at h
      · rename_i hargs
        rw [ObjectCreation.turn, if_pos hargs]
        exact giveBack_takeBlocks h
      · cases h

/-- A creation without a ceiling succeeds where one has succeeded, if the heap serves it. -/
theorem create_again {a b : Resources dc.toConfig} {cr : ObjectCreation}
    {x : Holding × Resources dc.toConfig} (hceil : cr.ceiling = 0) (h : a.create cr = some x)
    (hb : b = { a with heap := b.heap }) {heap : dc.mem.Heap} (hturn : cr.turn dc b.heap = some heap) :
    ∃ y, b.create cr = some y := by
  have htaken : ∀ {kind : Nat → Event} {max : Nat}, a.take kind max = some x →
      ∃ y, b.take kind max = some y := by
    intro kind max htake
    obtain ⟨i, hi, -⟩ := Option.map_eq_some_iff.mp htake
    rw [hb]
    exact ⟨_, Option.map_eq_some_iff.mpr ⟨i, hi, rfl⟩⟩
  cases cr with
  | sem cnt => exact htaken h
  | semBinary bit => exact htaken h
  | mbox message => exact htaken h
  | mutex p =>
      obtain ⟨a', ha', htake⟩ := Option.bind_eq_some_iff.mp h
      have hp : p = 0 := hceil
      rw [reserve, hp, if_neg (lt_irrefl 0)] at ha'
      cases ha'
      rw [create, reserve, hp, if_neg (lt_irrefl 0)]
      exact htaken htake
  | dQueue queueLength typeSize =>
      simp only [ObjectCreation.turn] at hturn
      split at hturn
      · rename_i hargs
        rw [create, if_pos hargs]
        exact takeBlocks_of_turn hturn
      · cases hturn

theorem priorityVector_take {a b : Resources cfg} {kind : Nat → Event} {max : Nat}
    {hold : Holding} (h : a.take kind max = some (hold, b)) :
    b.priorityVector = a.priorityVector := by
  obtain ⟨i, -, hpair⟩ := Option.map_eq_some_iff.mp h
  cases hpair
  rfl

@[simp] theorem priorityVector_giveBack (a : Resources cfg) (hold : Holding) :
    (a.giveBack hold).priorityVector = a.priorityVector := by
  cases hold <;> rfl

/-- A ceiling that is not free cannot be reserved. -/
theorem create_of_busy {a : Resources dc.toConfig} {cr : ObjectCreation} (hceil : 0 < cr.ceiling)
    (hbusy : a.priorityVector cr.ceiling ≠ emptyPrio) : a.create cr = none := by
  cases cr with
  | mutex p =>
      have hp : 0 < p := hceil
      have hpv : a.priorityVector p ≠ emptyPrio := hbusy
      simp [create, reserve, hp, hpv]
  | sem | semBinary | mbox | dQueue => exact absurd hceil (lt_irrefl 0)

/-- A reserved ceiling is not free. -/
theorem create_reserves {a b : Resources dc.toConfig} {cr : ObjectCreation} {hold : Holding}
    (hceil : 0 < cr.ceiling) (h : a.create cr = some (hold, b)) :
    b.priorityVector cr.ceiling ≠ emptyPrio := by
  cases cr with
  | mutex p =>
      obtain ⟨a', ha', htake⟩ := Option.bind_eq_some_iff.mp h
      have hp : 0 < p := hceil
      rw [reserve, if_pos hp] at ha'
      split at ha'
      · cases ha'
        rw [priorityVector_take htake]
        show Function.update a.priorityVector p mutexPrio p ≠ emptyPrio
        rw [Function.update_self]
        decide
      · cases ha'
  | sem | semBinary | mbox | dQueue => exact absurd hceil (lt_irrefl 0)

end Resources

end Brtos
