import Brtos.MemoryAllocation.Info
import Brtos.MemoryAllocation.Kernel

/-!
# Brtos.MemoryAllocation.Clients

**The kernel as a caller of its heap.** In a build whose `BRTOS_ALLOC` and `BRTOS_DEALLOC` are
`umm_malloc` and `umm_free`, the heap holds the stacks of the installed tasks and three blocks of
each dynamic queue. `HeapClients` is the kernel with its dynamic queues, and the list of the
queues that have been created and not deleted; the owners of a block are the tasks' slots and
the parts of these queues (`Owner`).

The messages are bytes of the heap: a step of the kernel finds them there and a post writes its
own there (`load`, `save`), and so is `OSEventAllocated`, which a creation leaves as it finds it.
The other bytes that tasks and the kernel store in their blocks come as steps of their own
(`ClientAction.store`): at any time, any value, in any block that is held. What a function of the
kernel stores in a control block or at the top of a new stack are such steps next to its own; the
kernel reads its control blocks where `DKernel` keeps them, and a task has no business there.

`Client.alloc` and `Client.dealloc` say what a call of the kernel does to the heap in the terms
of `UmmSystem`: it is one of the calls made there by a caller that keeps to the rules.
-/

namespace Brtos

open Bits

/-- The two functions as `BRTOS_ALLOC` and `BRTOS_DEALLOC`. Where one of them leaves `umm_heap` or
does not return there is no value; here it does nothing. -/
def UmmConfig.allocator (uc : UmmConfig) : Allocator where
  Heap := UmmHeap uc
  init := .init uc
  alloc h n := (h.ummMalloc n).getD (none, h)
  dealloc h p := (h.ummFree (some p)).getD h

/-- The build, with this heap. -/
def DQueueConfig.umm (dc : DQueueConfig) (uc : UmmConfig) : DQueueConfig :=
  { dc with toConfig := { dc.toConfig with mem := uc.allocator } }

/-! ### The heap under a caller that keeps to the rules -/

variable {uc : UmmConfig}

section

variable {heap heap' : UmmHeap uc} {held : List Grant}

/-- The heap and the blocks its callers hold, after calls that kept to the rules. -/
def Client (heap : UmmHeap uc) (held : List Grant) : Prop :=
  ∃ tr, Run UmmSystem.step UmmSystem.Obeys (.init uc) tr ⟨heap, held⟩

/-- The bytes of the held blocks are the same. -/
def Kept (held : List Grant) (heap heap' : UmmHeap uc) : Prop :=
  UmmHeap.SameAt (fun x => ∃ g ∈ held, g.Owns x) heap heap'

theorem Kept.mono {held' : List Grant} (h : Kept held' heap heap') (hsub : ∀ g ∈ held, g ∈ held') :
    Kept held heap heap' := by
  rintro x ⟨g, hg, hx⟩
  exact h x ⟨g, hsub g hg, hx⟩

namespace Client

theorem inv (hc : Client heap held) : ∃ n, UmmSystem.Inv (⟨heap, held⟩ : UmmSystem uc) n := by
  obtain ⟨tr, hr⟩ := hc
  obtain ⟨hi, -⟩ := UmmSystem.run_inv hr
  exact ⟨_, hi⟩

theorem nodup (hc : Client heap held) : (held.map Grant.ptr).Nodup := by
  obtain ⟨n, ⟨hi, -⟩ | ⟨A, -, hh, -⟩⟩ := hc.inv
  · rw [show held = [] from congrArg UmmSystem.held hi]
    exact List.nodup_nil
  · exact hh.nodup

/-- One more call. -/
theorem step {c : MemCall} (hc : Client heap held) (ho : UmmSystem.Obeys (⟨heap, held⟩ : UmmSystem uc) c) :
    ∃ heap' r, (⟨heap, held⟩ : UmmSystem uc).step c = some (⟨heap', c.held held r⟩, r) ∧
      Client heap' (c.held held r) ∧
      ∀ x, (∃ g ∈ held, g.Owns x) → (∃ g ∈ c.held held r, g.Owns x) → ¬ c.StoresAt x →
        heap'.mem x = heap.mem x := by
  obtain ⟨n, hi⟩ := hc.inv
  obtain ⟨⟨heap', held'⟩, r, hs, hi', ha⟩ := hi.step ho
  obtain rfl : held' = c.held held r := ha.held
  obtain ⟨tr, hr⟩ := hc
  refine ⟨heap', r, hs, ⟨_, hr.snoc ho hs⟩, fun x hx hx' hstore => ?_⟩
  exact ha.bytes_eq hx hx' fun v hv => hstore (hv ▸ rfl)

/-- `BRTOS_ALLOC`. -/
theorem alloc (hc : Client heap held) {n : Nat} (hn : n < 65536) (hbits : 16 ≤ uc.sizeTBits) :
    ∃ p heap', heap.ummMalloc n = some (p, heap') ∧ uc.allocator.alloc heap n = (p, heap') ∧
      Client heap' (MemCall.held held (.malloc n) (.pointer p)) ∧ Kept held heap heap' := by
  have ho : UmmSystem.Obeys (⟨heap, held⟩ : UmmSystem uc) (.malloc n) := by
    have hpow : 2 ^ 16 ≤ 2 ^ uc.sizeTBits := Nat.pow_le_pow_right (by decide) hbits
    refine le_min ?_ (by omega)
    unfold ummMost
    omega
  obtain ⟨heap', r, hs, hc', hx⟩ := hc.step ho
  obtain ⟨⟨p, h⟩, hm, he⟩ := Option.map_eq_some_iff.mp hs
  simp only [Prod.mk.injEq, UmmSystem.mk.injEq] at he
  obtain ⟨⟨rfl, -⟩, rfl⟩ := he
  refine ⟨p, h, hm, ?_, hc', fun x hown => hx x hown ?_ not_false⟩
  · show (heap.ummMalloc n).getD (none, heap) = _
    rw [hm]
    rfl
  · obtain ⟨g, hg, hgx⟩ := hown
    exact ⟨g, UmmSystem.mem_held hg _ _ nofun, hgx⟩

/-- `BRTOS_DEALLOC`. -/
theorem dealloc (hc : Client heap held) {g : Grant} (hg : g ∈ held) :
    ∃ heap', heap.ummFree (some g.ptr) = some heap' ∧ uc.allocator.dealloc heap g.ptr = heap' ∧
      Client heap' (held.filter fun k => k.ptr ≠ g.ptr) ∧
      Kept (held.filter fun k => k.ptr ≠ g.ptr) heap heap' := by
  obtain ⟨heap', r, hs, hc', hx⟩ := hc.step (c := .free (some g.ptr)) ⟨g, hg, rfl⟩
  obtain ⟨h, hm, he⟩ := Option.map_eq_some_iff.mp hs
  simp only [Prod.mk.injEq, UmmSystem.mk.injEq] at he
  obtain ⟨⟨rfl, -⟩, rfl⟩ := he
  refine ⟨h, hm, ?_, hc', ?_⟩
  · show (heap.ummFree (some g.ptr)).getD heap = _
    rw [hm]
    rfl
  · rintro x ⟨k, hk, hkx⟩
    exact hx x ⟨k, List.mem_of_mem_filter hk, hkx⟩ ⟨k, hk, hkx⟩ not_false

/-- The holders of the blocks have written in them. -/
theorem write (hc : Client heap held) {mem : Bytes}
    (hown : ∀ x, mem x ≠ heap.mem x → ∃ g ∈ held, g.Owns x) : Client (⟨mem⟩ : UmmHeap uc) held := by
  obtain ⟨n, hi⟩ := hc.inv
  have hlt : ∀ x, (∃ g ∈ held, g.Owns x) → x < 8 * uc.numblocks := by
    rintro x ⟨g, hg, -, hx⟩
    exact hx.trans_le (hi.le_numblocks hg)
  -- byte after byte, up to the end of the heap
  have hwritten : ∀ k, Client (⟨fun x => if x < k then mem x else heap.mem x⟩ : UmmHeap uc) held := by
    intro k
    induction k with
    | zero => simpa using hc
    | succ k ih =>
        have hnext : (fun x => if x < k + 1 then mem x else heap.mem x) =
            Function.update (fun x => if x < k then mem x else heap.mem x) k (mem k) := by
          funext x
          rcases Nat.lt_trichotomy x k with hx | rfl | hx
          · rw [Function.update_of_ne hx.ne, if_pos hx, if_pos (Nat.lt_succ_of_lt hx)]
          · rw [Function.update_self, if_pos (Nat.lt_succ_self x)]
          · rw [Function.update_of_ne hx.ne', if_neg (by omega), if_neg (by omega)]
        rw [hnext]
        by_cases hk : mem k = heap.mem k
        · rwa [Function.update_eq_self_iff.mpr (by simp [hk])]
        · obtain ⟨heap₁, r, hs, hc₁, -⟩ := ih.step (c := .store k (mem k)) (hown k hk)
          rw [UmmSystem.step, if_pos (hlt k (hown k hk))] at hs
          simp only [Option.some.injEq, Prod.mk.injEq, UmmSystem.mk.injEq] at hs
          obtain ⟨⟨rfl, -⟩, rfl⟩ := hs
          exact hc₁
  have hall : mem = fun x => if x < 8 * uc.numblocks then mem x else heap.mem x := by
    funext x
    split
    · rfl
    · rename_i hx
      by_contra hne
      exact hx (hlt x (hown x hne))
  rw [hall]
  exact hwritten _

/-- A block that is handed out and given back at once leaves everything as it was. -/
theorem undo {g : Grant} (hc : Client heap' (g :: held)) (hx : Kept held heap heap') :
    Client (uc.allocator.dealloc heap' g.ptr) held ∧
      Kept held heap (uc.allocator.dealloc heap' g.ptr : UmmHeap uc) := by
  obtain ⟨heap'', -, hd, hc', hx'⟩ := hc.dealloc List.mem_cons_self
  have hback : ((g :: held).filter fun k => k.ptr ≠ g.ptr) = held := by
    have hno : ∀ k ∈ held, k.ptr ≠ g.ptr := fun k hk he =>
      (List.nodup_cons.mp hc.nodup).1 (he ▸ List.mem_map_of_mem hk)
    rw [List.filter_cons_of_neg (by simp), List.filter_eq_self]
    exact fun k hk => decide_eq_true (hno k hk)
  rw [hback] at hc' hx'
  rw [hd]
  exact ⟨hc', hx.trans hx'⟩

end Client

/-- The addresses of the blocks that are held. -/
def UmmHeap.InUse (heap : UmmHeap uc) (bs : Set Nat) : Prop :=
  ∃ held, Client heap held ∧ bs = {p | p ∈ held.map Grant.ptr}

/-- **`umm_malloc` and `umm_free` lend blocks.** -/
theorem umm_lends (hbits : 16 ≤ uc.sizeTBits) : uc.allocator.Lends UmmHeap.InUse where
  lent := by
    rintro heap heap' bs n a ⟨held, hc, rfl⟩ hn h
    obtain ⟨p, heap₁, -, ha, hc₁, -⟩ := hc.alloc hn hbits
    obtain ⟨rfl, rfl⟩ := Prod.mk.inj (ha.symm.trans h)
    exact ⟨(List.nodup_cons.mp hc₁.nodup).1, _, hc₁, by ext; simp [MemCall.held]⟩
  returned := by
    rintro heap bs a ⟨held, hc, rfl⟩ ha
    obtain ⟨g, hg, rfl⟩ := List.mem_map.mp ha
    obtain ⟨heap₁, -, hd, hc₁, -⟩ := hc.dealloc hg
    refine ⟨_, hd ▸ hc₁, ?_⟩
    ext p
    simp only [Set.mem_sdiff, Set.mem_ofPred_eq, Set.mem_singleton_iff, List.mem_map, List.mem_filter,
      decide_eq_true_eq]
    constructor
    · rintro ⟨⟨k, hk, rfl⟩, hne⟩
      exact ⟨k, ⟨hk, hne⟩, rfl⟩
    · rintro ⟨k, ⟨hk, hne⟩, rfl⟩
      exact ⟨⟨k, hk, rfl⟩, hne⟩

end

/-! ### Owners -/

/-- Who a block belongs to: a task's slot, or one of the three parts of the dynamic queue whose
event control block is at `e`. -/
inductive Owner
  | stack (h : Nat)
  | event (e : Nat)
  | queue (e : Nat)
  | buffer (e : Nat)
  deriving DecidableEq, Repr

/-- The kernel with its dynamic queues, and the queues there are. -/
structure HeapClients (dc : DQueueConfig) where
  dk : DKernel dc
  queues : List Nat

/-- A step of the kernel, or a byte that the owner of a block, a task or the kernel, stores in it. -/
inductive ClientAction
  | kernel (a : DAction)
  | store (x : Nat) (v : UInt8)
  deriving DecidableEq, Repr

/-- It may write byte `x` of the block of `o`: it stores it, or it posts to the queue whose buffer
this is. -/
def ClientAction.Writes (o : Owner) (x : Nat) : ClientAction → Prop
  | .store y _ => y = x
  | .kernel (.call (.post (some e) _)) => o = .buffer e
  | _ => False

instance (o : Owner) (x : Nat) (a : ClientAction) : Decidable (a.Writes o x) := by
  unfold ClientAction.Writes
  split <;> infer_instance

/-- The queues there are after a step. -/
def DObs.queues (queues : List Nat) : DObs → List Nat
  | .returned _ (.create ..) ⟨.allocEventOk, .event e⟩ => e :: queues
  | .returned _ (.delete (some e)) ⟨.deleteEventOk, _⟩ => queues.filter (· ≠ e)
  | _ => queues

namespace DObs

variable {queues : List Nat} {task : Nat} {c : DCall} {r : DRet}

theorem queues_of_not_created {queueLength : UInt16} {typeSize : Nat} (hr : r.code ≠ .allocEventOk) :
    (returned task (.create queueLength typeSize) r).queues queues = queues := by
  obtain ⟨code, out⟩ := r
  cases code <;> first | rfl | exact absurd rfl hr

theorem queues_of_deleted {e : Nat} (hr : r.code = .deleteEventOk) :
    (returned task (.delete (some e)) r).queues queues = queues.filter (· ≠ e) := by
  obtain ⟨code, out⟩ := r
  obtain rfl : code = .deleteEventOk := hr
  rfl

theorem queues_of_not_deleted {e : Nat} (hr : r.code ≠ .deleteEventOk) :
    (returned task (.delete (some e)) r).queues queues = queues := by
  obtain ⟨code, out⟩ := r
  cases code <;> first | rfl | exact absurd rfl hr

/-- The other calls neither make nor remove a queue. -/
theorem queues_of_call (hc : ∀ queueLength typeSize, c ≠ .create queueLength typeSize)
    (hd : ∀ e, c ≠ .delete e) : (returned task c r).queues queues = queues := by
  cases c with
  | create queueLength typeSize => exact absurd rfl (hc _ _)
  | delete e => exact absurd rfl (hd e)
  | _ => rfl

end DObs

namespace HeapClients

variable {dc : DQueueConfig}

/-- The block of an owner. -/
def block (s : HeapClients dc) : Owner → Grant
  | .stack h => s.dk.kernel.stack h
  | .event e => ⟨e, dc.sizeofBRTOSQueue⟩
  | .queue e => ⟨(s.dk.dEvent e).osEventPointer, dc.sizeofOSDQueue⟩
  | .buffer e =>
    let c := s.dk.dQueue (s.dk.dEvent e).osEventPointer
    ⟨c.osqStart, c.osqEnd - c.osqStart⟩

/-- The owners there are. Stacks come from the heap in dynamic builds only. -/
def owners (s : HeapClients dc) : List Owner :=
  (if dc.dynamicTasksEnabled then
    ((List.range' 1 dc.numberOfTasks).filter fun h => s.dk.kernel.Installed h).map .stack
  else []) ++ s.queues.flatMap fun e => [.event e, .queue e, .buffer e]

theorem stack_mem {s : HeapClients dc} {h : Nat} :
    Owner.stack h ∈ s.owners ↔ dc.dynamicTasksEnabled = true ∧ s.dk.kernel.Installed h := by
  have hrange : s.dk.kernel.Installed h → h ∈ List.range' 1 dc.numberOfTasks := by
    rintro ⟨h1, h2, -⟩
    rw [List.mem_range'_1]
    omega
  simp only [owners, List.mem_append, List.mem_flatMap, List.mem_cons, reduceCtorEq, List.not_mem_nil,
    or_self, and_false, exists_false, or_false]
  split
  · rename_i hdyn
    simp only [List.mem_map, List.mem_filter, decide_eq_true_eq, Owner.stack.injEq, exists_eq_right, hdyn,
      true_and]
    exact ⟨fun h => h.2, fun h => ⟨hrange h, h⟩⟩
  · rename_i hdyn
    simp [hdyn]

/-- The parts of a queue live as long as it does. -/
theorem queue_mem {s : HeapClients dc} {e : Nat} :
    (Owner.event e ∈ s.owners ↔ e ∈ s.queues) ∧ (Owner.queue e ∈ s.owners ↔ e ∈ s.queues) ∧
      (Owner.buffer e ∈ s.owners ↔ e ∈ s.queues) := by
  have hstack : ∀ o, (∀ h, o ≠ Owner.stack h) → (o ∈ s.owners ↔ o ∈ s.queues.flatMap fun e =>
      [.event e, .queue e, .buffer e]) := by
    intro o ho
    rw [owners, List.mem_append]
    refine or_iff_right fun h => ?_
    split at h
    · obtain ⟨k, -, rfl⟩ := List.mem_map.mp h
      exact ho k rfl
    · exact List.not_mem_nil h
  refine ⟨(hstack _ fun h => by simp).trans ?_, (hstack _ fun h => by simp).trans ?_,
    (hstack _ fun h => by simp).trans ?_⟩ <;> simp

/-- `umm_heap`. -/
def heap (s : HeapClients (dc.umm uc)) : UmmHeap uc := s.dk.kernel.heap

/-- What the kernel finds in the heap: the messages, and `OSEventAllocated`, which is the first
byte of an event control block. -/
def load (s : HeapClients (dc.umm uc)) : DKernel (dc.umm uc) :=
  { s.dk with
    dEvent := fun e => { s.dk.dEvent e with osEventAllocated := (s.heap.mem e).toNat }
    bytes := s.heap.mem }

/-- A post, which does nothing to the heap itself, has written its message there. -/
def save (dk : DKernel (dc.umm uc)) : DAction → DKernel (dc.umm uc)
  | .call (.post ..) => dk.setHeap (⟨dk.bytes⟩ : UmmHeap uc)
  | _ => dk

/-- One step. -/
def step (s : HeapClients (dc.umm uc)) : ClientAction → Option (HeapClients (dc.umm uc) × DObs)
  | .kernel a => (s.load.step a).map fun (dk, o) => (⟨save dk a, o.queues s.queues⟩, o)
  | .store x v =>
    if x < 8 * uc.numblocks then
      some ({ s with dk := s.dk.setHeap (⟨Function.update s.heap.mem x v⟩ : UmmHeap uc) }, .kernel .silent)
    else none

/-- What the kernel's callers have to keep to: a task that is uninstalled is installed, and so is
one that pends, a stack is asked for with a `uint16_t`, so is a buffer, a dynamic queue that is used
has been created, one that is deleted has nobody waiting, and whoever stores a byte stores it in a
block that is held. -/
def Obeys (s : HeapClients dc) : ClientAction → Prop
  | .kernel (.kernel (.call (.installTask _ bytes _))) => bytes < 65536
  | .kernel (.kernel (.call (.uninstallTask h _ _))) =>
    s.dk.kernel.Installed (if h = 0 then s.dk.kernel.currentTask else h)
  -- `OSDQueueCreate` cuts the size to 16 bits, and posts would write behind a buffer that is cut
  | .kernel (.call (.create queueLength typeSize)) => queueLength.toNat * typeSize < 65536
  | .kernel (.call (.delete (some e))) =>
    e ∈ s.queues ∧ ∀ h ≤ dc.numberOfTasks, ∀ f ∈ s.dk.dFrame h, f.pontEvent ≠ e
  | .kernel (.call (.clean e)) => e ∈ s.queues
  | .kernel (.call (.pend (some e) _)) =>
    e ∈ s.queues ∧ (s.dk.kernel.inTask = true → s.dk.kernel.Installed s.dk.kernel.currentTask)
  | .kernel (.call (.post (some e) _)) => e ∈ s.queues
  | .store x _ => ∃ o ∈ s.owners, (s.block o).Owns x
  | _ => True

instance (s : HeapClients dc) (a : ClientAction) : Decidable (Obeys s a) := by
  unfold Obeys
  split <;> infer_instance

/-- After `BRTOSInit`, with anything in the control blocks that will be handed out. -/
def init (dc : DQueueConfig) (dQueue : Nat → OSDQueue) (dEvent : Nat → BRTOSQueue dc.prioBits) :
    HeapClients dc :=
  ⟨⟨Kernel.init _, dQueue, dEvent, fun _ => 0, fun _ => none⟩, []⟩

end HeapClients

end Brtos
