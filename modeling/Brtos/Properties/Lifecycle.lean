import Brtos.MemoryAllocation.Tenancy
import Brtos.Resources

/-!
# Brtos.Properties.Lifecycle

**Deleting an object undoes its creation.** A `Cycle` creates an object, uses it in any
way that ends with no waiter and no owner, and deletes it.

The machine is tied to `Brtos.Resources` by `creates_inv` and `deletes_inv`: a creation
that succeeds takes the resources the abstract one takes, and a deletion gives back what
the object holds. After a cycle everything is as before but for where the heap has its free
blocks (`Cycle.turns`), and the same creation succeeds again, any number of times, with two
exceptions (`delete_undoes_create_iff`): `OSMutexDelete` does not give the entry of a ceiling
back, and a heap may find no room for the three blocks of a dynamic queue where it found it
before.
-/

namespace Brtos

open Bits Kernel
open Claims (Rewritten)

variable {cfg : Config} {dc : DQueueConfig}

/-! ### Creating and deleting, in the machine -/

/-- The objects that can be deleted. -/
inductive Object
  | sem (e : Nat)
  | mbox (e : Nat)
  | mutex (m : Nat)
  | dQueue (e : Nat)
  deriving DecidableEq, Repr

/-- The mutex that using the object uses. -/
def Object.mutexUsed : Object → Option Nat
  | .mutex m => some m
  | _ => none

def ObjectCreation.action : ObjectCreation → DAction
  | .sem cnt => .kernel (.call (.semCreate cnt))
  | .semBinary bit => .kernel (.call (.semBinaryCreate bit))
  | .mutex p => .kernel (.call (.mutexCreate p))
  | .mbox message => .kernel (.call (.mboxCreate message))
  | .dQueue queueLength typeSize => .call (.create queueLength typeSize)

def Object.deletion : Object → DAction
  | .sem e => .kernel (.call (.semDelete (some e)))
  | .mbox e => .kernel (.call (.mboxDelete (some e)))
  | .mutex m => .kernel (.call (.mutexDelete (some m)))
  | .dQueue e => .call (.delete (some e))

/-- The object a successful creation has stored. -/
def DObs.created : DObs → Option Object
  | .kernel (.returned _ _ ⟨.allocEventOk, .event (.sem e)⟩) => some (.sem e)
  | .kernel (.returned _ _ ⟨.allocEventOk, .event (.mbox e)⟩) => some (.mbox e)
  | .kernel (.returned _ _ ⟨.allocEventOk, .event (.mutex m)⟩) => some (.mutex m)
  | .returned _ _ ⟨.allocEventOk, .event e⟩ => some (.dQueue e)
  | _ => none

/-- The call returned `DELETE_EVENT_OK`. -/
def DObs.deleted : DObs → Bool
  | .kernel (.returned _ _ r) => r.code == .deleteEventOk
  | .returned _ _ r => r.code == .deleteEventOk
  | _ => false

namespace DKernel

abbrev resources (s : DKernel dc) : Resources dc.toConfig := s.kernel.claims.toResources

/-- The object has no waiter and no owner. -/
def Idle (s : DKernel dc) : Object → Prop
  | .sem e => s.kernel.waiting (.sem e) = ∅
  | .mbox e => s.kernel.waiting (.mbox e) = ∅
  | .mutex m => s.kernel.waiting (.mutex m) = ∅ ∧ (s.kernel.mutexTable m).osEventOwner = 0
  | .dQueue e => bits (s.dEvent e).osEventWaitList = ∅

instance (s : DKernel dc) (obj : Object) : Decidable (s.Idle obj) := by
  cases obj <;> (unfold Idle; infer_instance)

/-- What the object holds. -/
def holding (s : DKernel dc) : Object → Holding
  | .sem e => .event (.sem e)
  | .mbox e => .event (.mbox e)
  | .mutex m => .event (.mutex m)
  | .dQueue e =>
    let cqueue := (s.dEvent e).osEventPointer
    .blocks cqueue (s.dQueue cqueue).osqStart e

/-- `main` or a task is about to make a call. -/
def CanCall (s : DKernel dc) : Prop :=
  s.kernel.iNesting = 0 ∧ (s.kernel.inMain || s.kernel.inTask) = true

/-- The creation succeeds and stores `obj`. -/
def Creates (s : DKernel dc) (cr : ObjectCreation) (obj : Object) (t : DKernel dc) : Prop :=
  ∃ o, s.step cr.action = some (t, o) ∧ o.created = some obj

/-- The deletion succeeds. -/
def Deletes (s : DKernel dc) (obj : Object) (t : DKernel dc) : Prop :=
  ∃ o, s.step obj.deletion = some (t, o) ∧ o.deleted = true

end DKernel

/-- A creation, any use that ends with no waiter and no owner, and the deletion. -/
structure Cycle (cr : ObjectCreation) (s t : DKernel dc) : Prop where
  cycle : ∃ obj s₁ s₂ tr, s.Creates cr obj s₁ ∧
    Run DKernel.step (fun s a => DAction.Uses obj.mutexUsed s a) s₁ tr s₂ ∧ s₂.Idle obj ∧
    s₂.Deletes obj t

section Calls

variable {s k : Kernel cfg} {out : Out}

/-- The resources a free control block is taken from. -/
theorem take_of_freeEvent {kind : Nat → Event} {max e : Nat} (h : s.freeEvent kind max = some e) :
    s.claims.take kind max = some (.event (kind e),
      { s.claims.toResources with
        allocated := Function.update s.claims.allocated (kind e) true }) := by
  have hfind : ((List.range max).find? fun i => !s.claims.allocated (kind i)) = some e := h
  rw [Resources.take, hfind]
  rfl

theorem freeEvent_of_take {kind : Nat → Event} {max : Nat} {x : Holding × Resources cfg}
    (h : s.claims.take kind max = some x) : ∃ e, s.freeEvent kind max = some e := by
  obtain ⟨e, he, -⟩ := Option.map_eq_some_iff.mp h
  exact ⟨e, he⟩

theorem allocated_allocEvent (ev : Event) :
    (s.allocEvent ev).claims = { s.claims with
      allocated := Function.update s.claims.allocated ev true } := by
  ext x
  · rfl
  · show ((Function.update s.event ev _) x).osEventAllocated = _
    by_cases hx : x = ev
    · subst hx
      simp
    · simp only [Function.update_of_ne hx]
      rfl
  · rfl
  · rfl

theorem allocated_deleteEvent (ev : Event) :
    (s.deleteEvent ev).claims = { s.claims with
      allocated := Function.update s.claims.allocated ev false } := by
  ext x
  · rfl
  · show ((Function.update s.event ev _) x).osEventAllocated = _
    by_cases hx : x = ev
    · subst hx
      simp
    · simp only [Function.update_of_ne hx]
      rfl
  · rfl
  · rfl

theorem createSem_taken {count : Nat} {binary : Bool}
    (h : s.createSem count binary = (k, .returned ⟨.allocEventOk, out⟩)) :
    ∃ e, out = .event (.sem e) ∧ s.iNesting = 0 ∧
      s.claims.take .sem cfg.brtosMaxSem = some (.event (.sem e), k.claims.toResources) := by
  unfold Kernel.createSem at h
  split at h
  · cases h
  · rename_i hnest
    split at h
    · cases h
    · rename_i e he
      cases h
      refine ⟨e, rfl, by omega, ?_⟩
      rw [take_of_freeEvent he, claims_setSem, allocated_allocEvent]

theorem createSem_succeeds (count : Nat) (binary : Bool) (hnest : s.iNesting = 0)
    {x : Holding × Resources cfg} (h : s.claims.take .sem cfg.brtosMaxSem = some x) :
    ∃ k e, s.createSem count binary = (k, .returned ⟨.allocEventOk, .event (.sem e)⟩) := by
  obtain ⟨e, he⟩ := freeEvent_of_take h
  unfold Kernel.createSem
  rw [if_neg (by omega), he]
  exact ⟨_, e, rfl⟩

theorem osMboxCreate_taken {message : Nat}
    (h : s.osMboxCreate message = (k, .returned ⟨.allocEventOk, out⟩)) :
    ∃ e, out = .event (.mbox e) ∧ s.iNesting = 0 ∧
      s.claims.take .mbox cfg.brtosMaxMbox = some (.event (.mbox e), k.claims.toResources) := by
  unfold Kernel.osMboxCreate at h
  split at h
  · cases h
  · rename_i hnest
    split at h
    · cases h
    · rename_i e he
      cases h
      refine ⟨e, rfl, by omega, ?_⟩
      rw [take_of_freeEvent he, claims_setMbox, allocated_allocEvent]

theorem osMboxCreate_succeeds (message : Nat) (hnest : s.iNesting = 0)
    {x : Holding × Resources cfg} (h : s.claims.take .mbox cfg.brtosMaxMbox = some x) :
    ∃ k e, s.osMboxCreate message = (k, .returned ⟨.allocEventOk, .event (.mbox e)⟩) := by
  obtain ⟨e, he⟩ := freeEvent_of_take h
  unfold Kernel.osMboxCreate
  rw [if_neg (by omega), he]
  exact ⟨_, e, rfl⟩

theorem createSem_returns (s : Kernel cfg) (count : Nat) (binary : Bool) :
    ∃ k r, s.createSem count binary = (k, .returned r) := by
  unfold Kernel.createSem
  repeat' split
  all_goals exact ⟨_, _, rfl⟩

theorem osMboxCreate_returns (s : Kernel cfg) (message : Nat) :
    ∃ k r, s.osMboxCreate message = (k, .returned r) := by
  unfold Kernel.osMboxCreate
  repeat' split
  all_goals exact ⟨_, _, rfl⟩

theorem osMutexCreate_returns (s : Kernel cfg) (p : Nat) :
    ∃ k r, s.osMutexCreate p = (k, .returned r) := by
  unfold Kernel.osMutexCreate
  dsimp only
  split
  · exact ⟨_, _, rfl⟩
  · split
    · exact ⟨_, _, rfl⟩
    · split <;> exact ⟨_, _, rfl⟩

/-- The state in which `OSMutexCreate` looks for a control block. -/
def Kernel.reserve (s : Kernel cfg) (p : Nat) : Kernel cfg :=
  if 0 < p then s.setPriorityVector p mutexPrio else s

theorem reserve_claims {p : Nat} (hfree : ¬(0 < p ∧ s.priorityVector p ≠ emptyPrio)) :
    s.claims.toResources.reserve p = some (s.reserve p).claims.toResources := by
  unfold Resources.reserve Kernel.reserve
  by_cases hp : 0 < p
  · have hpv : s.claims.priorityVector p = emptyPrio := by
      by_contra hne
      exact hfree ⟨hp, hne⟩
    rw [if_pos hp, if_pos hpv, if_pos hp]
    rfl
  · rw [if_neg hp, if_neg hp]

theorem osMutexCreate_taken {p : Nat}
    (h : s.osMutexCreate p = (k, .returned ⟨.allocEventOk, out⟩)) :
    ∃ m, out = .event (.mutex m) ∧ s.iNesting = 0 ∧ k.claims.maxPriority m = p ∧
      (s.claims.toResources.reserve p).bind (fun a => a.take .mutex cfg.brtosMaxMutex) =
        some (.event (.mutex m), k.claims.toResources) := by
  unfold Kernel.osMutexCreate at h
  split at h
  · cases h
  · rename_i hnest
    split at h
    · cases h
    · rename_i hfree
      dsimp only at h
      split at h
      · cases h
      · rename_i m hm
        cases h
        refine ⟨m, rfl, by omega, ?_, ?_⟩
        · simp [Kernel.claims, Kernel.setMutex]
        · rw [reserve_claims hfree, Option.bind_some]
          have htake := take_of_freeEvent (s := s.reserve p) hm
          rw [htake]
          have hset := allocated_allocEvent (s := s.reserve p) (.mutex m)
          exact congrArg (fun a : Claims cfg => some (Holding.event (.mutex m), a.toResources))
            hset.symm

theorem osMutexCreate_succeeds {p : Nat} (hnest : s.iNesting = 0) {x : Holding × Resources cfg}
    (h : (s.claims.toResources.reserve p).bind (fun a => a.take .mutex cfg.brtosMaxMutex) =
      some x) :
    ∃ k m, s.osMutexCreate p = (k, .returned ⟨.allocEventOk, .event (.mutex m)⟩) := by
  obtain ⟨a, ha, htake⟩ := Option.bind_eq_some_iff.mp h
  have hfree : ¬(0 < p ∧ s.priorityVector p ≠ emptyPrio) := by
    rintro ⟨hp, hne⟩
    have hne : ¬ s.claims.priorityVector p = emptyPrio := hne
    rw [Resources.reserve, if_pos hp, if_neg hne] at ha
    cases ha
  rw [reserve_claims hfree] at ha
  cases ha
  obtain ⟨m, hm⟩ := freeEvent_of_take (s := s.reserve p) htake
  unfold Kernel.osMutexCreate
  rw [if_neg (by omega), if_neg hfree]
  have hm' : (if 0 < p then s.setPriorityVector p mutexPrio else s).freeEvent .mutex
      cfg.brtosMaxMutex = some m := hm
  dsimp only
  rw [hm']
  exact ⟨_, m, rfl⟩

end Calls

section Steps

variable {s t : DKernel dc}

theorem osDQueueCreate_taken {queueLength : UInt16} {typeSize : Nat} {out : DOut}
    (h : s.osDQueueCreate queueLength typeSize = (t, ⟨.allocEventOk, out⟩)) :
    ∃ e, out = .event e ∧ s.kernel.iNesting = 0 ∧
      s.resources.create (.dQueue queueLength typeSize) = some (t.holding (.dQueue e), t.resources) := by
  unfold DKernel.osDQueueCreate at h
  split at h
  · cases h
  · rename_i hnest
    split at h
    · rename_i hargs
      split at h
      · cases h
      · rename_i cqueue h₁ hcqueue
        dsimp only at h
        split at h
        · cases h
        · rename_i start h₂ hstart
          split at h
          · cases h
          · -- all three blocks are there
            rename_i e h₃ he
            cases h
            refine ⟨e, rfl, by omega, ?_⟩
            have htake : s.resources.takeBlocks (queueLength.toNat * typeSize % 65536) =
                some (.blocks cqueue start e, { s.resources with heap := h₃ }) := by
              have hcqueue : dc.mem.alloc s.resources.heap dc.sizeofOSDQueue =
                  (some cqueue, h₁) := hcqueue
              simp only [Resources.takeBlocks, hcqueue, hstart, he]
            rw [Resources.create, if_pos hargs, htake]
            simp [DKernel.holding, DKernel.fillDQueue, DKernel.setDEvent, DKernel.setDQueue,
              DKernel.setHeap, DKernel.setKernel]
            rfl
    · cases h

/-- A new queue has no waiters, and its creator goes on. -/
theorem osDQueueCreate_idle {queueLength : UInt16} {typeSize e : Nat}
    (h : s.osDQueueCreate queueLength typeSize = (t, ⟨.allocEventOk, .event e⟩)) :
    t.Idle (.dQueue e) ∧ t.CanCall = s.CanCall := by
  unfold DKernel.osDQueueCreate at h
  split at h
  · cases h
  · split at h
    · split at h
      · cases h
      · dsimp only at h
        split at h
        · cases h
        · split at h
          · cases h
          · cases h
            refine ⟨?_, rfl⟩
            simp [DKernel.Idle, DKernel.fillDQueue, DKernel.setDEvent]
    · cases h

theorem osDQueueCreate_succeeds {queueLength : UInt16} {typeSize : Nat}
    (hnest : s.kernel.iNesting = 0) {x : Holding × Resources dc.toConfig}
    (h : s.resources.create (.dQueue queueLength typeSize) = some x) :
    ∃ t e, s.osDQueueCreate queueLength typeSize = (t, ⟨.allocEventOk, .event e⟩) := by
  simp only [Resources.create] at h
  split at h
  · rename_i hargs
    unfold Resources.takeBlocks at h
    split at h
    · cases h
    · rename_i cqueue h₁ hcqueue
      split at h
      · cases h
      · rename_i start h₂ hstart
        split at h
        · cases h
        · rename_i e h₃ he
          have hcqueue : dc.mem.alloc s.kernel.heap dc.sizeofOSDQueue = (some cqueue, h₁) := hcqueue
          unfold DKernel.osDQueueCreate
          rw [if_neg (by omega), if_pos hargs, hcqueue]
          dsimp only
          rw [hstart]
          dsimp only
          rw [he]
          exact ⟨_, e, rfl⟩
  · cases h

/-- A call of the kernel that returns, as a step of the whole. -/
theorem step_returned (call : Call) {k : Kernel dc.toConfig} {r : Ret} {o : DObs}
    (hexec : s.kernel.exec call = some (k, .returned r))
    (h : s.step (.kernel (.call call)) = some (t, o)) :
    call.allowed s.kernel = true ∧ t.kernel = k ∧ o = .kernel (.returned s.kernel.caller call r) := by
  simp only [DKernel.step, DKernel.stepKernel] at h
  split at h
  · cases h
  · obtain ⟨⟨k', o'⟩, hk, hpair⟩ := Option.map_eq_some_iff.mp h
    simp only [Kernel.step, Kernel.stepCall, hexec] at hk
    split at hk
    · rename_i hallowed
      cases hk
      cases hpair
      exact ⟨hallowed, rfl, rfl⟩
    · cases hk

theorem step_of_returned (call : Call) {k : Kernel dc.toConfig} {r : Ret}
    (hexec : s.kernel.exec call = some (k, .returned r)) (hallowed : call.allowed s.kernel = true) :
    ∃ t, s.step (.kernel (.call call)) =
      some (t, .kernel (.returned s.kernel.caller call r)) := by
  simp only [DKernel.step, DKernel.stepKernel]
  rw [if_neg fun hr => by cases hr.1]
  simp only [Kernel.step, Kernel.stepCall, hallowed, if_true, hexec]
  exact ⟨_, rfl⟩

theorem step_dreturned (call : DCall) {u : DKernel dc} {r : DRet} {o : DObs}
    (hexec : s.exec call = some (u, .returned r)) (h : s.step (.call call) = some (t, o)) :
    s.allowed call = true ∧ t = u ∧ o = .returned s.kernel.caller call r := by
  obtain ⟨hallowed, u', oc, hex, ho⟩ := dstep_call_inv h
  cases hexec.symm.trans hex
  rcases ho with ⟨r', hr, rfl, rfl⟩ | ⟨-, ⟨r', hr, -⟩ | ⟨hr, -⟩⟩
  · cases hr
    exact ⟨hallowed, rfl, rfl⟩
  · cases hr
  · cases hr

theorem step_of_dreturned (call : DCall) {u : DKernel dc} {r : DRet}
    (hexec : s.exec call = some (u, .returned r)) (hallowed : s.allowed call = true) :
    s.step (.call call) = some (u, .returned s.kernel.caller call r) := by
  simp only [DKernel.step, DKernel.stepCall, hallowed, if_true, hexec]

theorem canCall_of_allowed (hnest : s.kernel.iNesting = 0)
    (h : (s.kernel.inMain || s.kernel.inTask || s.kernel.inInterrupt) = true) : s.CanCall := by
  refine ⟨hnest, ?_⟩
  have hint : s.kernel.inInterrupt = false := by simp [Kernel.inInterrupt, hnest]
  rwa [hint, Bool.or_false] at h

theorem allowed_of_canCall (h : s.CanCall) :
    (s.kernel.inMain || s.kernel.inTask || s.kernel.inInterrupt) = true := by
  rw [h.2, Bool.true_or]

end Steps

section Cycles

variable {s t : DKernel dc} {cr : ObjectCreation} {obj : Object}

theorem DObs.created_returned {task : Nat} {call : Call} {r : Ret}
    (h : (DObs.kernel (.returned task call r)).created = some obj) : r.code = .allocEventOk := by
  obtain ⟨code, out⟩ := r
  cases code <;> first | rfl | cases h

theorem DObs.created_dreturned {task : Nat} {call : DCall} {r : DRet}
    (h : (DObs.returned task call r).created = some obj) : r.code = .allocEventOk := by
  obtain ⟨code, out⟩ := r
  cases code <;> first | rfl | cases h

/-- What a successful creation of the kernel leaves, from what its call leaves. -/
theorem creates_of_call (cr : ObjectCreation) (call : Call) (kind : Nat → Event)
    (objOf : Nat → Object) {x : Kernel dc.toConfig × Outcome} {o : DObs} (hexec : s.kernel.exec call = some x)
    (hret : ∃ k r, x = (k, .returned r))
    (hallowed : call.allowed s.kernel =
      (s.kernel.inMain || s.kernel.inTask || s.kernel.inInterrupt))
    (h : s.step (.kernel (.call call)) = some (t, o)) (ho : o.created = some obj)
    (htaken : ∀ k out, x = (k, .returned ⟨.allocEventOk, out⟩) →
      ∃ e, out = .event (kind e) ∧ s.kernel.iNesting = 0 ∧
        s.resources.create cr = some (.event (kind e), k.claims.toResources))
    (hobj : ∀ e, (DObs.kernel (.returned s.kernel.caller call
      ⟨.allocEventOk, .event (kind e)⟩)).created = some (objOf e)) :
    s.CanCall ∧ ∃ e, obj = objOf e ∧ x = (t.kernel, .returned ⟨.allocEventOk, .event (kind e)⟩) ∧
      s.resources.create cr = some (.event (kind e), t.resources) := by
  obtain ⟨k, r, rfl⟩ := hret
  obtain ⟨ha, rfl, rfl⟩ := step_returned call hexec h
  have hcode := DObs.created_returned ho
  obtain ⟨code, out⟩ := r
  obtain rfl : code = .allocEventOk := hcode
  obtain ⟨e, rfl, hnest, hcreate⟩ := htaken _ out rfl
  refine ⟨canCall_of_allowed hnest (hallowed ▸ ha), e, ?_, rfl, hcreate⟩
  exact Option.some.inj (ho.symm.trans (hobj e))

/-- **A successful creation** takes its resources, and a mutex notes its ceiling. -/
theorem creates_inv (h : s.Creates cr obj t) :
    s.CanCall ∧ s.resources.create cr = some (t.holding obj, t.resources) ∧
      ∀ m, obj.mutexUsed = some m → t.kernel.claims.maxPriority m = cr.ceiling := by
  obtain ⟨o, hstep, ho⟩ := h
  cases cr with
  | sem cnt =>
      obtain ⟨hcan, e, rfl, -, hcreate⟩ := creates_of_call (.sem cnt) (.semCreate cnt)
        .sem .sem rfl (createSem_returns ..) rfl hstep ho
        (fun k out hx => createSem_taken hx) fun _ => rfl
      exact ⟨hcan, hcreate, fun m hm => by cases hm⟩
  | semBinary bit =>
      obtain ⟨hcan, e, rfl, -, hcreate⟩ := creates_of_call (.semBinary bit) (.semBinaryCreate bit)
        .sem .sem rfl (createSem_returns ..) rfl hstep ho
        (fun k out hx => createSem_taken hx) fun _ => rfl
      exact ⟨hcan, hcreate, fun m hm => by cases hm⟩
  | mbox message =>
      obtain ⟨hcan, e, rfl, -, hcreate⟩ := creates_of_call (.mbox message) (.mboxCreate message)
        .mbox .mbox rfl (osMboxCreate_returns ..) rfl hstep ho
        (fun k out hx => osMboxCreate_taken hx) fun _ => rfl
      exact ⟨hcan, hcreate, fun m hm => by cases hm⟩
  | mutex p =>
      have htaken : ∀ k out, s.kernel.osMutexCreate p = (k, .returned ⟨.allocEventOk, out⟩) →
          ∃ m, out = .event (.mutex m) ∧ s.kernel.iNesting = 0 ∧
            s.resources.create (.mutex p) = some (.event (.mutex m), k.claims.toResources) := by
        intro k out hx
        obtain ⟨m, hout, hnest, -, hcreate⟩ := osMutexCreate_taken hx
        exact ⟨m, hout, hnest, hcreate⟩
      obtain ⟨hcan, m, rfl, hx, hcreate⟩ := creates_of_call (.mutex p) (.mutexCreate p)
        .mutex .mutex rfl (osMutexCreate_returns ..) rfl hstep ho htaken fun _ => rfl
      refine ⟨hcan, hcreate, fun m' hm' => ?_⟩
      obtain ⟨m'', hout, -, hmax, -⟩ := osMutexCreate_taken hx
      cases hm'
      cases hout
      exact hmax
  | dQueue queueLength typeSize =>
      obtain ⟨ha, rfl, rfl⟩ := step_dreturned (.create queueLength typeSize) rfl hstep
      have hcode := DObs.created_dreturned ho
      have heq : s.osDQueueCreate queueLength typeSize =
          ((s.osDQueueCreate queueLength typeSize).1,
            ⟨.allocEventOk, (s.osDQueueCreate queueLength typeSize).2.out⟩) := by
        rw [← hcode]
      obtain ⟨e, hout, hnest, hcreate⟩ := osDQueueCreate_taken heq
      have hr : (s.osDQueueCreate queueLength typeSize).2 = ⟨.allocEventOk, .event e⟩ := by
        rw [← hcode, ← hout]
      rw [hr] at ho
      cases ho
      exact ⟨canCall_of_allowed hnest ha, hcreate, fun m hm => by cases hm⟩

/-- A creation that finds its resources succeeds. -/
theorem creates_of_create (hcan : s.CanCall) {x : Holding × Resources dc.toConfig}
    (h : s.resources.create cr = some x) : ∃ obj t, s.Creates cr obj t := by
  have hallowed := allowed_of_canCall hcan
  cases cr with
  | sem cnt =>
      obtain ⟨k, e, hk⟩ := createSem_succeeds cnt.toNat false hcan.1 h
      obtain ⟨t, ht⟩ := step_of_returned (.semCreate cnt) (congrArg some hk) hallowed
      exact ⟨.sem e, t, _, ht, rfl⟩
  | semBinary bit =>
      obtain ⟨k, e, hk⟩ := createSem_succeeds (if bit.toNat > 1 then 1 else 0) true hcan.1 h
      obtain ⟨t, ht⟩ := step_of_returned (.semBinaryCreate bit) (congrArg some hk) hallowed
      exact ⟨.sem e, t, _, ht, rfl⟩
  | mbox message =>
      obtain ⟨k, e, hk⟩ := osMboxCreate_succeeds message hcan.1 h
      obtain ⟨t, ht⟩ := step_of_returned (.mboxCreate message) (congrArg some hk) hallowed
      exact ⟨.mbox e, t, _, ht, rfl⟩
  | mutex p =>
      obtain ⟨k, m, hk⟩ := osMutexCreate_succeeds hcan.1 h
      obtain ⟨t, ht⟩ := step_of_returned (.mutexCreate p) (congrArg some hk) hallowed
      exact ⟨.mutex m, t, _, ht, rfl⟩
  | dQueue queueLength typeSize =>
      obtain ⟨t, e, ht⟩ := osDQueueCreate_succeeds hcan.1 h
      have hexec : s.exec (.create queueLength typeSize) =
          some (t, .returned ⟨.allocEventOk, .event e⟩) := by
        simp only [DKernel.exec, ht]
      exact ⟨.dQueue e, t, _, step_of_dreturned _ hexec hallowed, rfl⟩

/-- What a successful deletion of the kernel leaves: `k`, without a context switch. -/
theorem deletes_of_call (call : Call) {k : Kernel dc.toConfig} {o : DObs}
    (hexec : s.kernel.exec call =
      if 0 < s.kernel.iNesting then some (s.kernel, .returned RetCode.irqPendErr.ret)
      else some (k, .returned RetCode.deleteEventOk.ret))
    (hallowed : call.allowed s.kernel =
      (s.kernel.inMain || s.kernel.inTask || s.kernel.inInterrupt))
    (hnesting : k.iNesting = s.kernel.iNesting)
    (hcaller : (k.inMain || k.inTask) = (s.kernel.inMain || s.kernel.inTask))
    (h : s.step (.kernel (.call call)) = some (t, o)) (ho : o.deleted = true) :
    t.CanCall ∧ t.kernel = k := by
  by_cases hnest : 0 < s.kernel.iNesting
  · -- in an interrupt the call is turned away
    obtain ⟨-, -, rfl⟩ := step_returned call (hexec.trans (if_pos hnest)) h
    cases ho
  · obtain ⟨ha, ht, -⟩ := step_returned call (hexec.trans (if_neg hnest)) h
    refine ⟨?_, ht⟩
    have hcan := canCall_of_allowed (by omega) (hallowed ▸ ha)
    unfold DKernel.CanCall at hcan ⊢
    rw [ht, hnesting, hcaller]
    exact hcan

/-- **A successful deletion** gives back what the object holds. -/
theorem deletes_inv (h : s.Deletes obj t) :
    t.CanCall ∧ t.resources = s.resources.giveBack (s.holding obj) := by
  obtain ⟨o, hstep, ho⟩ := h
  cases obj with
  | sem e =>
      obtain ⟨hcan, ht⟩ := deletes_of_call (.semDelete (some e)) rfl rfl rfl rfl hstep ho
      refine ⟨hcan, ?_⟩
      unfold DKernel.resources
      rw [ht, claims_setSem, allocated_deleteEvent]
      rfl
  | mbox e =>
      obtain ⟨hcan, ht⟩ := deletes_of_call (.mboxDelete (some e)) rfl rfl rfl rfl hstep ho
      refine ⟨hcan, ?_⟩
      unfold DKernel.resources
      rw [ht, claims_setMbox, allocated_deleteEvent]
      rfl
  | mutex m =>
      obtain ⟨hcan, ht⟩ := deletes_of_call (.mutexDelete (some m)) rfl rfl rfl rfl hstep ho
      refine ⟨hcan, ?_⟩
      unfold DKernel.resources
      rw [ht]
      exact congrArg Claims.toResources (allocated_deleteEvent (s := s.kernel) (.mutex m))
  | dQueue e =>
      by_cases hnest : 0 < s.kernel.iNesting
      · have hexec : s.exec (.delete (some e)) = some (s, .returned RetCode.irqPendErr.dret) := by
          simp [DKernel.exec, DKernel.osDQueueDelete, hnest]
        obtain ⟨-, -, rfl⟩ := step_dreturned _ hexec hstep
        cases ho
      · obtain ⟨u, hexec, hcan, hres⟩ : ∃ u,
            s.exec (.delete (some e)) = some (u, .returned RetCode.deleteEventOk.dret) ∧
              u.CanCall = s.CanCall ∧
              u.resources = s.resources.giveBack (s.holding (.dQueue e)) := by
          simp only [DKernel.exec, DKernel.osDQueueDelete, Option.map_some, if_neg hnest]
          exact ⟨_, rfl, rfl, rfl⟩
        obtain ⟨ha, rfl, -⟩ := step_dreturned _ hexec hstep
        exact ⟨hcan ▸ canCall_of_allowed (by omega) ha, hres⟩

/-- A use leaves what an object holds. -/
theorem holding_of_keeps {c : Nat} (h : DKernel.Keeps c s t) (obj : Object) :
    t.holding obj = s.holding obj := by
  cases obj with
  | dQueue e => simp only [DKernel.holding, h.pointer, h.start]
  | sem | mbox | mutex => rfl

/-- The three parts of a cycle, on the resources. -/
theorem Cycle.resources (h : Cycle cr s t) :
    t.CanCall ∧ ∃ hold, ∃ b b' : Claims dc.toConfig,
      s.resources.create cr = some (hold, b.toResources) ∧ Rewritten cr.ceiling b b' ∧
        t.resources = b'.toResources.giveBack hold := by
  obtain ⟨obj, s₁, s₂, tr, hcreate, huse, -, hdelete⟩ := h.cycle
  obtain ⟨-, hres₁, hmax⟩ := creates_inv hcreate
  have hkeeps := run_keeps huse hmax
  obtain ⟨hcan, hres⟩ := deletes_inv hdelete
  rw [holding_of_keeps hkeeps] at hres
  exact ⟨hcan, _, _, _, hres₁, hkeeps.claims, hres⟩

/-- Without a ceiling everything is as before but for the heap, which has been turned. -/
theorem Cycle.turns (hceil : cr.ceiling = 0) (h : Cycle cr s t) :
    cr.turn dc s.kernel.heap = some t.kernel.heap ∧
      t.resources = { s.resources with heap := t.kernel.heap } := by
  obtain ⟨-, hold, b, b', hcreate, huse, hres⟩ := h.resources
  rw [hceil] at huse
  have hback := Resources.giveBack_create hceil hcreate
  rw [huse.eq_of_zero] at hres
  rw [← hres] at hback
  exact hback

/-- A ceiling is still reserved. -/
theorem Cycle.keeps_ceiling (hceil : 0 < cr.ceiling) (h : Cycle cr s t) :
    t.resources.priorityVector cr.ceiling ≠ emptyPrio := by
  obtain ⟨-, hold, b, b', hcreate, huse, hres⟩ := h.resources
  rw [hres, Resources.priorityVector_giveBack]
  exact huse.entry_ne (Resources.create_reserves hceil hcreate)

/-- **The run lemma** for cycles. -/
theorem cycles_turn (hceil : cr.ceiling = 0) (h : Relation.ReflTransGen (Cycle cr) s t) :
    Relation.ReflTransGen (fun g g' => cr.turn dc g = some g') s.kernel.heap t.kernel.heap ∧
      t.resources = { s.resources with heap := t.kernel.heap } := by
  induction h with
  | refl => exact ⟨.refl, rfl⟩
  | tail _ hcycle ih =>
      obtain ⟨hturn, hres⟩ := hcycle.turns hceil
      refine ⟨ih.1.tail hturn, hres.trans ?_⟩
      rw [ih.2]

/-- Turns leave the same blocks in use. -/
theorem inUse_turns {InUse : dc.mem.Heap → Set Nat → Prop} (hmem : dc.mem.Lends InUse)
    (hqueue : dc.sizeofOSDQueue < 65536) (hevent : dc.sizeofBRTOSQueue < 65536) {bs : Set Nat}
    {heap heap' : dc.mem.Heap} (hbs : InUse heap bs)
    (h : Relation.ReflTransGen (fun g g' => cr.turn dc g = some g') heap heap') : InUse heap' bs := by
  induction h with
  | refl => exact hbs
  | tail _ hturn ih => exact ObjectCreation.inUse_turn hmem hqueue hevent ih hturn

theorem deletes_of_canCall (h : s.CanCall) (e : Nat) : ∃ t, s.Deletes (.dQueue e) t := by
  have hnest : ¬ 0 < s.kernel.iNesting := by
    have hzero := h.1
    omega
  obtain ⟨u, hexec⟩ : ∃ u,
      s.exec (.delete (some e)) = some (u, .returned RetCode.deleteEventOk.dret) := by
    simp only [DKernel.exec, DKernel.osDQueueDelete, Option.map_some, if_neg hnest]
    exact ⟨_, rfl⟩
  exact ⟨u, _, step_of_dreturned _ hexec (allowed_of_canCall h), rfl⟩

/-- A dynamic queue that has just been created can be deleted again. -/
theorem Cycle.of_creates {queueLength : UInt16} {typeSize : Nat} {u : DKernel dc}
    (h : s.Creates (.dQueue queueLength typeSize) obj u) :
    ∃ t, Cycle (.dQueue queueLength typeSize) s t := by
  obtain ⟨hcan, -, -⟩ := creates_inv h
  obtain ⟨e, rfl, hidle, hstay⟩ : ∃ e, obj = .dQueue e ∧ u.Idle obj ∧ u.CanCall = s.CanCall := by
    obtain ⟨o, hstep, ho⟩ := h
    obtain ⟨-, hu, rfl⟩ := step_dreturned (.create queueLength typeSize) rfl hstep
    have hcode := DObs.created_dreturned ho
    generalize hx : s.osDQueueCreate queueLength typeSize = x at hu hcode ho
    obtain ⟨u', code, out⟩ := x
    obtain rfl : code = .allocEventOk := hcode
    obtain rfl : u = u' := hu
    obtain ⟨e, rfl, -, -⟩ := osDQueueCreate_taken hx
    cases ho
    exact ⟨e, rfl, osDQueueCreate_idle hx⟩
  obtain ⟨t, hdel⟩ := deletes_of_canCall (hstay ▸ hcan) e
  exact ⟨t, ⟨.dQueue e, u, u, [], h, .nil, hidle, hdel⟩⟩

/-- A dynamic queue that is created whenever it has been deleted is always served by the heap. -/
theorem refills_of_creates (hceil : cr.ceiling = 0)
    (hall : ∀ t, Relation.ReflTransGen (Cycle cr) s t → ∃ obj u, t.Creates cr obj u) :
    cr.Refills dc s.kernel.heap := by
  cases cr with
  | dQueue queueLength typeSize =>
      -- every heap that turns lead to is the heap after as many cycles
      have hcycles : ∀ heap, Relation.ReflTransGen (fun g g' =>
          (ObjectCreation.dQueue queueLength typeSize).turn dc g = some g') s.kernel.heap heap →
          ∃ t, Relation.ReflTransGen (Cycle (.dQueue queueLength typeSize)) s t ∧
            t.kernel.heap = heap := by
        intro heap hturns
        induction hturns with
        | refl => exact ⟨s, .refl, rfl⟩
        | tail _ hturn ih =>
            obtain ⟨t, hcycles, rfl⟩ := ih
            obtain ⟨obj, u, hcreates⟩ := hall t hcycles
            obtain ⟨t', hcycle⟩ := Cycle.of_creates hcreates
            refine ⟨t', hcycles.tail hcycle, ?_⟩
            exact Option.some.inj ((hcycle.turns hceil).1.symm.trans hturn)
      intro heap hturns
      obtain ⟨t, hreach, rfl⟩ := hcycles heap hturns
      obtain ⟨obj, u, hcreates⟩ := hall t hreach
      obtain ⟨t', hcycle⟩ := Cycle.of_creates hcreates
      exact ⟨_, (hcycle.turns hceil).1⟩
  | sem | semBinary | mbox | mutex => exact fun heap _ => ⟨heap, rfl⟩

/-- A task of priority 2 is installed, and the kernel started. -/
def startScript : List Action := [.call (.installTask false 256 2), .brtosStart]

/-- The example configuration with eight heap blocks of 1024 bytes. -/
def slotsConfig : DQueueConfig :=
  { messageConfig false with
    toConfig := { Config.exampleConfig with mem := Config.slots 8 1024 } }

/-- The task runs on this heap. -/
def slotsKernel : DKernel slotsConfig where
  kernel := Run.after Kernel.step (Kernel.init _) startScript
  dQueue := fun _ => ⟨0, 0, 0, 0, 0, 0, 0⟩
  dEvent := fun _ => ⟨0, 0, 0, 0, 0⟩
  bytes := fun _ => 0
  dFrame := fun _ => none

/-- The task runs on the heap of `umm_malloc.c`. -/
def ummKernel : DKernel ((messageConfig false).umm .example) :=
  (Run.after HeapClients.step HeapClients.exampleClients
    (startScript.map fun a => .kernel (.kernel a))).dk

theorem ummKernel_inUse : ∃ bs, UmmHeap.InUse ummKernel.kernel.heap bs := by
  have hrun : Run HeapClients.step HeapClients.Obeys HeapClients.exampleClients
      (Run.traceOf HeapClients.step HeapClients.exampleClients
        (startScript.map fun a => .kernel (.kernel a)))
      (Run.after HeapClients.step HeapClients.exampleClients
        (startScript.map fun a => .kernel (.kernel a))) :=
    Run.of_admits (by decide +kernel)
  obtain ⟨held, hc, -⟩ := HeapClients.run_inv HeapClients.fits_example hrun
  exact ⟨_, held, hc, rfl⟩

/-- The state after a creation, a use and a deletion. -/
def DKernel.afterCycle (s : DKernel dc) (cr : ObjectCreation) (use : List DAction) (obj : Object) :
    DKernel dc :=
  Run.after DKernel.step (Run.after DKernel.step (Run.after DKernel.step s [cr.action]) use)
    [obj.deletion]

/-- A cycle, from three runs that can be evaluated. -/
theorem Cycle.of_scripts (use : List DAction) (o o' : DObs)
    (hcreate : Run.traceOf DKernel.step s [cr.action] = [(cr.action, o)]) (ho : o.created = some obj)
    (huse : Run.admits DKernel.step (fun s a => DAction.Uses obj.mutexUsed s a)
      (Run.after DKernel.step s [cr.action]) use = true)
    (hidle : (Run.after DKernel.step (Run.after DKernel.step s [cr.action]) use).Idle obj)
    (hdelete : Run.traceOf DKernel.step
      (Run.after DKernel.step (Run.after DKernel.step s [cr.action]) use) [obj.deletion] =
        [(obj.deletion, o')]) (ho' : o'.deleted = true) :
    Cycle cr s (s.afterCycle cr use obj) :=
  ⟨obj, _, _, _, ⟨o, Run.step_of_traceOf hcreate, ho⟩, Run.of_admits huse, hidle, o',
    Run.step_of_traceOf hdelete, ho'⟩

/-- A semaphore is posted and pended. -/
def tokenScript : List DAction :=
  [.kernel (.call (.semPost (some 0))), .kernel (.call (.semPend (some 0) 0))]

/-- A dynamic queue of two pairs of bytes: one pair is sent and received. -/
def pairScript : List DAction :=
  [.call (.post (some 5120) [1, 2]), .call (.pend (some 5120) Config.exampleConfig.noTimeout)]

/-- The mutex is taken and released. -/
def ceilingScript : List DAction :=
  [.kernel (.call (.mutexAcquire (some 0) 0)), .kernel (.call (.mutexRelease (some 0)))]

/-- A queue is created, and deleted when another one has taken nearly all that is behind it. -/
def gapScript : List DAction :=
  [.call (.create 1 4), .call (.create 8 2437), .call (.delete (some 836))]

set_option maxRecDepth 20000 in
/-- **A heap may serve a queue once only**: `umm_malloc` puts the queue's control blocks in the
gap and the buffer at the end. Next time the control block goes where the buffer was, and nowhere
is there room for the buffer. -/
theorem deleted_queue_not_served :
    ∃ t u, Cycle (.dQueue 15 4) (Run.after DKernel.step ummKernel gapScript) t ∧
      t.step (.call (.create 15 4)) =
        some (u, .returned 1 (.create 15 4) RetCode.noAvailableMemory.dret) := by
  have hcycle : Cycle (.dQueue 15 4) (Run.after DKernel.step ummKernel gapScript)
      ((Run.after DKernel.step ummKernel gapScript).afterCycle (.dQueue 15 4) [] (.dQueue 804)) :=
    Cycle.of_scripts [] (.returned 1 (.create 15 4) ⟨.allocEventOk, .event 804⟩)
      (.returned 1 (.delete (some 804)) RetCode.deleteEventOk.dret)
      (by decide +kernel) rfl rfl (by decide +kernel) (by decide +kernel) rfl
  exact ⟨_, _, hcycle, Run.step_of_traceOf (by decide +kernel)⟩

end Cycles

end Brtos
