import Brtos.MemoryAllocation.Tenancy

/-!
# Brtos.MemoryAllocation.Messages

**No message is copied over the end of its buffer.** In a run of the kernel with its dynamic
queues whatever `OSDQueuePost` writes and `OSDQueuePend` reads lies in the queue's own buffer,
and so it disturbs neither the heap nor another block (`kernel_heap_owned`).

The count of entries is no help: a message that is taken while the task it was meant for has not
run yet leaves the count at 65535. What holds in every state is that both positions are whole
messages behind the start (`OSDQueue.Aligned`), and that a task inside a pend remembers a queue
that is still there, with the size of its messages (`Placed`).
-/

namespace Brtos

open Bits Kernel

/-- Both positions are at whole messages. -/
def OSDQueue.Aligned (c : OSDQueue) : Prop :=
  c.ring.Stands c.osqTSize c.osqIn ∧ c.ring.Stands c.osqTSize c.osqOut

namespace DKernel

variable {dc : DQueueConfig} {s t u : DKernel dc}

/-- The queues stay aligned, and their messages as long as they were. -/
def KeepsQueues (s t : DKernel dc) : Prop :=
  ∀ c, (s.dQueue c).Aligned → (t.dQueue c).Aligned ∧ (t.dQueue c).osqTSize = (s.dQueue c).osqTSize

theorem keepsQueues_of_eq (h : t.dQueue = s.dQueue) : KeepsQueues s t := by
  intro c hc
  rw [h]
  exact ⟨hc, rfl⟩

theorem KeepsQueues.trans (h : KeepsQueues s t) (h' : KeepsQueues t u) : KeepsQueues s u := by
  intro c hc
  obtain ⟨hc', hsize⟩ := h c hc
  obtain ⟨hc'', hsize'⟩ := h' c hc'
  exact ⟨hc'', hsize'.trans hsize⟩

theorem keepsQueues_setDQueue {c : Nat} {f : OSDQueue → OSDQueue}
    (hf : (s.dQueue c).Aligned →
      (f (s.dQueue c)).Aligned ∧ (f (s.dQueue c)).osqTSize = (s.dQueue c).osqTSize) :
    KeepsQueues s (s.setDQueue c f) := by
  intro k hk
  by_cases hkc : k = c
  · subst hkc
    simpa [setDQueue] using hf hk
  · simpa [setDQueue, hkc] using hk

/-- A message is copied to or from the buffer of an aligned queue. -/
theorem copies_of_aligned {c : Nat} (h : (s.dQueue c).Aligned) :
    (∀ pdata : List UInt8, (s.dQueue c).osqTSize ≤ pdata.length → (s.writeMessage c pdata).isSome) ∧
      (s.readMessage c (s.dQueue c).osqTSize).isSome := by
  constructor
  · intro pdata hlen
    rw [writeMessage_eq hlen h.1.inside]
    rfl
  · rw [readMessage_eq h.2.inside]
    rfl

/-! ### The calls on a queue -/

theorem keepsQueues_readMessage {c n : Nat} {r : DRet} (hn : n = (s.dQueue c).osqTSize)
    (h : s.readMessage c n = some (t, r)) : KeepsQueues s t ∧ t.dFrame = s.dFrame := by
  obtain ⟨-, h⟩ := Option.ite_none_right_eq_some.mp h
  cases h
  refine ⟨keepsQueues_setDQueue fun ha => ⟨⟨ha.1, ?_⟩, rfl⟩, rfl⟩
  subst hn
  exact ha.2.next

theorem keepsQueues_writeMessage {c : Nat} {pdata : List UInt8} (h : s.writeMessage c pdata = some t) :
    KeepsQueues s t ∧ t.dFrame = s.dFrame := by
  obtain ⟨-, h⟩ := Option.ite_none_right_eq_some.mp h
  cases h
  have hset : KeepsQueues s (s.setDQueue c fun x =>
      { x with
        osqEntries := x.osqEntries + 1
        osqIn := (s.dQueue c).ring.wrap (s.dQueue c).osqIn + x.osqTSize }) :=
    keepsQueues_setDQueue fun ha => ⟨⟨ha.1.next, ha.2⟩, rfl⟩
  exact ⟨hset, rfl⟩

theorem keepsQueues_clean (e : Nat) : KeepsQueues s (s.osDQueueClean e).1 := by
  have hset : KeepsQueues s (s.setDQueue (s.dEvent e).osEventPointer fun c =>
      { c with osqEntries := 0, osqIn := c.osqStart, osqOut := c.osqStart }) := by
    refine keepsQueues_setDQueue fun ha => ⟨?_, rfl⟩
    obtain ⟨n, k, hn, hstop, -, -⟩ := ha.1
    exact ⟨RingBuffer.stands_start hn hstop, RingBuffer.stands_start hn hstop⟩
  exact hset

/-- The locals a task keeps while it waits on the queue of `e`. -/
def waitFrame (s : DKernel dc) (e timeWait : Nat) : DFrame :=
  let cqueue := (s.dEvent e).osEventPointer
  ⟨e, cqueue, (s.dQueue cqueue).osqTSize, s.kernel.prio s.kernel.currentTask, timeWait⟩

/-- Every call but a creation and a deletion keeps the queues; what it may do to a frame is to
begin a pend of the running task. -/
theorem keepsQueues_exec {c : DCall} {oc : DOutcome}
    (hc : ∀ queueLength typeSize, c ≠ .create queueLength typeSize) (hd : ∀ e, c ≠ .delete e)
    (ha : s.allowed c = true) (hex : s.exec c = some (t, oc)) :
    KeepsQueues s t ∧ (t.dFrame = s.dFrame ∨ ∃ e timeWait, c = .pend (some e) timeWait ∧
      s.kernel.inTask = true ∧
      t.dFrame = Function.update s.dFrame s.kernel.currentTask (some (s.waitFrame e timeWait))) := by
  cases c with
  | create queueLength typeSize => exact absurd rfl (hc _ _)
  | delete e => exact absurd rfl (hd e)
  | clean e =>
      cases hex
      exact ⟨keepsQueues_clean e, Or.inl rfl⟩
  | pend e timeWait =>
      simp only [exec, osDQueuePend] at hex
      split at hex
      · cases hex
        exact ⟨keepsQueues_of_eq rfl, Or.inl rfl⟩
      rename_i hirq
      have hwho : s.kernel.inTask = true := by
        simp only [allowed, Bool.or_eq_true, Bool.and_eq_true, inInterrupt, decide_eq_true_eq] at ha
        exact ha.resolve_right fun h => hirq ⟨h.2, h.1⟩
      cases e with
      | none =>
          simp only [checkDEvent] at hex
          split at hex <;> cases hex
          exact ⟨keepsQueues_of_eq rfl, Or.inl rfl⟩
      | some e =>
          simp only [checkDEvent] at hex
          split at hex
          · cases hex
            exact ⟨keepsQueues_of_eq rfl, Or.inl rfl⟩
          unfold dQueuePend at hex
          dsimp only at hex
          split at hex
          · obtain ⟨⟨v, r⟩, hv, he⟩ := Option.map_eq_some_iff.mp hex
            cases he
            exact (keepsQueues_readMessage rfl hv).imp_right Or.inl
          split at hex <;> cases hex
          · exact ⟨keepsQueues_of_eq rfl, Or.inl rfl⟩
          · exact ⟨keepsQueues_of_eq rfl, Or.inr ⟨e, timeWait, rfl, hwho, rfl⟩⟩
  | post e pdata =>
      cases e with
      | none =>
          simp only [exec, osDQueuePost, checkDEvent] at hex
          split at hex <;> cases hex
          exact ⟨keepsQueues_of_eq rfl, Or.inl rfl⟩
      | some e =>
          simp only [exec, osDQueuePost, checkDEvent] at hex
          split at hex
          · cases hex
            exact ⟨keepsQueues_of_eq rfl, Or.inl rfl⟩
          unfold dQueuePost at hex
          dsimp only at hex
          split at hex
          · obtain ⟨v, hv, he⟩ := Option.map_eq_some_iff.mp hex
            obtain ⟨hkeeps, hframe⟩ := keepsQueues_writeMessage hv
            split at he <;> cases he
            · exact ⟨hkeeps.trans (keepsQueues_of_eq rfl), Or.inl hframe⟩
            · exact ⟨hkeeps, Or.inl hframe⟩
          · cases hex
            exact ⟨keepsQueues_of_eq rfl, Or.inl rfl⟩

/-- The rest of a pend, if its frame has the size of the messages. -/
theorem keepsQueues_resume {f : DFrame} {r : DRet} (hn : f.n = (s.dQueue f.cqueue).osqTSize)
    (h : s.osDQueuePendResume f = some (t, r)) : KeepsQueues s t ∧ t.dFrame = s.dFrame := by
  unfold osDQueuePendResume at h
  dsimp only at h
  split at h
  · split at h
    · split at h
      · cases h
        exact ⟨keepsQueues_of_eq rfl, rfl⟩
      · exact keepsQueues_readMessage hn h
    · -- the message is read after the task has left the delay list
      obtain ⟨hkeeps, hframe⟩ := keepsQueues_readMessage (s := s.setKernel _) hn h
      exact ⟨hkeeps, hframe⟩
  · exact keepsQueues_readMessage hn h

/-! ### Create and delete -/

/-- A creation writes its own two control blocks only. -/
theorem osDQueueCreate_others (s : DKernel dc) (queueLength : UInt16) (typeSize : Nat) :
    (s.osDQueueCreate queueLength typeSize).1.dFrame = s.dFrame ∧
    (∀ e, (s.osDQueueCreate queueLength typeSize).2 ≠ ⟨.allocEventOk, .event e⟩ →
      ((s.osDQueueCreate queueLength typeSize).1.dEvent e).osEventPointer =
        (s.dEvent e).osEventPointer) ∧
    ∀ c, (dc.mem.alloc s.kernel.heap dc.sizeofOSDQueue).1 ≠ some c →
      (s.osDQueueCreate queueLength typeSize).1.dQueue c = s.dQueue c := by
  unfold osDQueueCreate
  split
  · exact ⟨rfl, fun _ _ => rfl, fun _ _ => rfl⟩
  split
  case isFalse => exact ⟨rfl, fun _ _ => rfl, fun _ _ => rfl⟩
  split
  · exact ⟨rfl, fun _ _ => rfl, fun _ _ => rfl⟩
  rename_i c₀ h₁ hc₀
  rw [hc₀]
  have hne : ∀ c, some c₀ ≠ some c → c ≠ c₀ := fun c h he => h (he ▸ rfl)
  dsimp only
  split
  · exact ⟨rfl, fun _ _ => rfl, fun c hc => Function.update_of_ne (hne c hc) _ _⟩
  split
  · exact ⟨rfl, fun _ _ => rfl, fun c hc => Function.update_of_ne (hne c hc) _ _⟩
  · rename_i e₀ h₃ he₀
    refine ⟨rfl, fun e he => ?_, fun c hc => ?_⟩
    · have hee : e ≠ e₀ := by
        rintro rfl
        exact he rfl
      simp [fillDQueue, setDEvent, setDQueue, setHeap, setKernel, hee]
    · simp [fillDQueue, setDEvent, setDQueue, setHeap, setKernel, hne c hc]

theorem osDQueueDelete_others {e : Option Nat} {r : DRet} (h : s.osDQueueDelete e = some (t, r)) :
    t.dFrame = s.dFrame ∧ t.dQueue = s.dQueue ∧
      ∀ k, (t.dEvent k).osEventPointer = (s.dEvent k).osEventPointer := by
  obtain ⟨e, -, h⟩ := Option.map_eq_some_iff.mp h
  split at h <;> cases h
  · exact ⟨rfl, rfl, fun _ => rfl⟩
  · refine ⟨rfl, rfl, fun k => ?_⟩
    by_cases hk : k = e
    · subst hk
      simp [dealloc, setDEvent, setHeap, setKernel]
    · simp [dealloc, setDEvent, setHeap, setKernel, hk]

end DKernel

/-- A creation that succeeds makes one queue, and any other makes none. -/
theorem DObs.queues_of_create (queues : List Nat) (task : Nat) (queueLength : UInt16) (typeSize : Nat)
    (r : DRet) :
    (∃ e, r = ⟨.allocEventOk, .event e⟩ ∧
      (returned task (.create queueLength typeSize) r).queues queues = e :: queues) ∨
    ((∀ e, r ≠ ⟨.allocEventOk, .event e⟩) ∧
      (returned task (.create queueLength typeSize) r).queues queues = queues) := by
  obtain ⟨code, out⟩ := r
  by_cases hcode : code = .allocEventOk
  · subst hcode
    cases out with
    | event e => exact Or.inl ⟨e, rfl, rfl⟩
    | nothing => exact Or.inr ⟨nofun, rfl⟩
    | message data => exact Or.inr ⟨nofun, rfl⟩
  · refine Or.inr ⟨fun e h => hcode (congrArg DRet.code h), ?_⟩
    exact queues_of_not_created hcode

namespace HeapClients

variable {dc : DQueueConfig} {uc : UmmConfig} {s t : HeapClients (dc.umm uc)}

/-- The frame is one of a task, and names a queue there is, with the size of its messages. -/
def Remembers (s : HeapClients (dc.umm uc)) (h : Nat) (f : DFrame) : Prop :=
  h ≤ dc.numberOfTasks ∧ f.pontEvent ∈ s.queues ∧
    f.cqueue = (s.dk.dEvent f.pontEvent).osEventPointer ∧ f.n = (s.dk.dQueue f.cqueue).osqTSize

/-- The queues there are are aligned, and whoever is inside a pend remembers one of them. -/
structure Placed (s : HeapClients (dc.umm uc)) : Prop where
  aligned : ∀ e ∈ s.queues, (s.dk.dQueue (s.dk.dEvent e).osEventPointer).Aligned
  frame : ∀ h f, s.dk.dFrame h = some f → s.Remembers h f

/-- The same queues, kept. -/
theorem Placed.keep (hp : Placed s) (hq : t.queues = s.queues)
    (hevent : ∀ e, (t.dk.dEvent e).osEventPointer = (s.dk.dEvent e).osEventPointer)
    (hkeeps : DKernel.KeepsQueues s.dk t.dk)
    (hframe : ∀ h f, t.dk.dFrame h = some f → s.Remembers h f) : Placed t := by
  refine ⟨fun e he => ?_, fun h f hf => ?_⟩
  · rw [hevent]
    exact (hkeeps _ (hp.aligned e (hq ▸ he))).1
  · obtain ⟨hh, he, hc, hn⟩ := hframe h f hf
    refine ⟨hh, hq ▸ he, (hevent _).symm ▸ hc, hn.trans ?_⟩
    rw [hc]
    exact (hkeeps _ (hp.aligned _ he)).2.symm

/-! ### Steps -/

/-- The control block a creation takes is nobody's yet. -/
theorem Inv.create_keeps (hfit : Fits dc uc) (hi : Inv s) (queueLength : UInt16) (typeSize : Nat)
    {e : Nat} (he : e ∈ s.queues) :
    (s.dk.osDQueueCreate queueLength typeSize).1.dQueue (s.dk.dEvent e).osEventPointer =
      s.dk.dQueue (s.dk.dEvent e).osEventPointer := by
  refine (s.dk.osDQueueCreate_others queueLength typeSize).2.2 _ fun hc => ?_
  obtain ⟨held, hcl, hten, -⟩ := hi
  obtain ⟨p, heap₁, -, ha, hc₁, -⟩ := hcl.alloc hfit.queue hfit.sizeTBits
  have ha' : (dc.umm uc).mem.alloc s.dk.kernel.heap (dc.umm uc).sizeofOSDQueue = (p, heap₁) := ha
  rw [ha'] at hc
  obtain rfl : p = some _ := hc
  exact (List.nodup_cons.mp hc₁.nodup).1 (hten.ptr_mem (o := .queue e) (mem_owners.mpr he))

/-- The queues there were, and whoever waits on them, when their control blocks are as before. -/
theorem Placed.others (hp : Placed s) (hframe : t.dk.dFrame = s.dk.dFrame)
    (hevent : ∀ e ∈ s.queues, (t.dk.dEvent e).osEventPointer = (s.dk.dEvent e).osEventPointer)
    (hqueue : ∀ e ∈ s.queues, t.dk.dQueue (s.dk.dEvent e).osEventPointer =
      s.dk.dQueue (s.dk.dEvent e).osEventPointer)
    (hsub : ∀ e ∈ s.queues, e ∈ t.queues) :
    (∀ e ∈ s.queues, (t.dk.dQueue (t.dk.dEvent e).osEventPointer).Aligned) ∧
      ∀ h f, t.dk.dFrame h = some f → t.Remembers h f := by
  refine ⟨fun e he => ?_, fun h f hf => ?_⟩
  · rw [hevent e he, hqueue e he]
    exact hp.aligned e he
  · rw [hframe] at hf
    obtain ⟨hh, he, hc, hn⟩ := hp.frame h f hf
    refine ⟨hh, hsub _ he, hc.trans (hevent _ he).symm, hn.trans ?_⟩
    rw [hc, hqueue _ he]

/-- A creation. -/
theorem Placed.create (hfit : Fits dc uc) (hi : Inv s) (hi' : Inv t) (hp : Placed s)
    {queueLength : UInt16} {typeSize task : Nat} {r : DRet}
    (hsize : queueLength.toNat * typeSize < 65536)
    (hex : s.dk.osDQueueCreate queueLength typeSize = (t.dk, r))
    (hq : t.queues = (DObs.returned task (.create queueLength typeSize) r).queues s.queues) :
    Placed t := by
  obtain ⟨hframe, hevent, -⟩ := s.dk.osDQueueCreate_others queueLength typeSize
  have hqueue : ∀ e ∈ s.queues, t.dk.dQueue (s.dk.dEvent e).osEventPointer =
      s.dk.dQueue (s.dk.dEvent e).osEventPointer := fun e he => by
    have h := hi.create_keeps hfit queueLength typeSize he
    rwa [hex] at h
  rw [hex] at hframe hevent
  rcases DObs.queues_of_create s.queues task queueLength typeSize r with ⟨e, rfl, hqs⟩ | ⟨hr, hqs⟩
  · rw [hqs] at hq
    have hnew : e ∉ s.queues := by
      obtain ⟨_, _, _, hnd⟩ := hi'
      exact (List.nodup_cons.mp (hq ▸ hnd)).1
    have hold : ∀ e' ∈ s.queues,
        (t.dk.dEvent e').osEventPointer = (s.dk.dEvent e').osEventPointer := by
      refine fun e' he' => hevent e' fun h => ?_
      cases h
      exact hnew he'
    obtain ⟨haligned, hframes⟩ := hp.others hframe hold hqueue fun e' he' =>
      hq ▸ List.mem_cons_of_mem _ he'
    refine ⟨fun e' he' => ?_, hframes⟩
    rw [hq, List.mem_cons] at he'
    rcases he' with rfl | he'
    · obtain ⟨⟨hlen, -⟩, -, -, start, hfilled⟩ := osDQueueCreate_ok hex
      have htsize : typeSize % 65536 = typeSize :=
        Nat.mod_eq_of_lt (lt_of_le_of_lt (Nat.le_mul_of_pos_left _ hlen) hsize)
      rw [htsize, Nat.mod_eq_of_lt hsize, Nat.mul_comm] at hfilled
      rw [hfilled]
      exact ⟨RingBuffer.stands_start hlen rfl, RingBuffer.stands_start hlen rfl⟩
    · exact haligned e' he'
  · rw [hqs] at hq
    obtain ⟨haligned, hframes⟩ := hp.others hframe (fun e _ => hevent e (hr e)) hqueue
      fun e he => hq ▸ he
    exact ⟨fun e he => haligned e (hq ▸ he), hframes⟩

/-- A deletion of a queue nobody waits on. -/
theorem Placed.delete (hp : Placed s) {e : Nat} {r : DRet}
    (hnobody : ∀ h ≤ dc.numberOfTasks, ∀ f ∈ s.dk.dFrame h, f.pontEvent ≠ e)
    (hex : s.dk.osDQueueDelete (some e) = some (t.dk, r))
    (hq : t.queues = s.queues ∨ t.queues = s.queues.filter (· ≠ e)) : Placed t := by
  obtain ⟨hframe, hqueue, hevent⟩ := DKernel.osDQueueDelete_others hex
  refine ⟨fun k hk => ?_, fun h f hf => ?_⟩
  · have hk' : k ∈ s.queues := by
      rcases hq with hq | hq
      · exact hq ▸ hk
      · exact (List.mem_filter.mp (hq ▸ hk)).1
    rw [hevent, hqueue]
    exact hp.aligned k hk'
  · rw [hframe] at hf
    obtain ⟨hh, he, hc, hn⟩ := hp.frame h f hf
    have he' : f.pontEvent ∈ t.queues := by
      rcases hq with hq | hq
      · exact hq ▸ he
      · rw [hq]
        exact List.mem_filter.mpr ⟨he, decide_eq_true (hnobody h hh f hf)⟩
    exact ⟨hh, he', hc.trans (hevent _).symm, hqueue ▸ hn⟩

/-- A call that neither creates nor deletes. -/
theorem Placed.call (hp : Placed s) {c : DCall} {r : DObs}
    (hc : ∀ queueLength typeSize, c ≠ .create queueLength typeSize) (hd : ∀ e, c ≠ .delete e)
    (ho : Obeys s (.kernel (.call c))) (hs : s.dk.step (.call c) = some (t.dk, r))
    (hq : t.queues = r.queues s.queues) : Placed t := by
  obtain ⟨ha, u, oc, hex, hend⟩ := dstep_call_inv hs
  obtain ⟨hkeeps, hframe⟩ := DKernel.keepsQueues_exec hc hd ha hex
  -- a switch is the kernel's
  have hu : t.dk.dQueue = u.dQueue ∧ t.dk.dFrame = u.dFrame := by
    obtain ⟨-, -, rfl, -⟩ | ⟨hu, -⟩ := hend
    · exact ⟨rfl, rfl⟩
    · obtain ⟨k, -, he⟩ := Option.map_eq_some_iff.mp hu
      rw [← he]
      exact ⟨rfl, rfl⟩
  obtain ⟨hm, hobs⟩ := DKernel.memory_call hc hd hs
  have hq' : t.queues = s.queues := by
    obtain ⟨task, r, rfl⟩ | ⟨task, rfl⟩ := hobs
    · exact hq.trans (DObs.queues_of_call hc hd)
    · exact hq
  have hevent : ∀ e, (t.dk.dEvent e).osEventPointer = (s.dk.dEvent e).osEventPointer := fun e =>
    (DKernel.rest_eq (congrArg Prod.snd hm) e 0).1
  refine hp.keep hq' hevent (hkeeps.trans (DKernel.keepsQueues_of_eq hu.1)) fun h f hf => ?_
  rw [hu.2] at hf
  rcases hframe with hframe | ⟨e, timeWait, rfl, hwho, hframe⟩
  · rw [hframe] at hf
    exact hp.frame h f hf
  · obtain ⟨he, hinst⟩ := ho
    rw [hframe] at hf
    by_cases hh : h = s.dk.kernel.currentTask
    · subst hh
      rw [Function.update_self] at hf
      cases hf
      exact ⟨(hinst hwho).2.1, he, rfl, rfl⟩
    · rw [Function.update_of_ne hh] at hf
      exact hp.frame h f hf

/-- A step of the kernel with its dynamic queues. -/
theorem Placed.dstep (hfit : Fits dc uc) (hi : Inv s) (hp : Placed s) {a : DAction}
    {dk : DKernel (dc.umm uc)} {o : DObs} (ho : Obeys s (.kernel a)) (hdk : s.dk.step a = some (dk, o)) :
    Placed ⟨dk, o.queues s.queues⟩ := by
  have hi' := (hi.dstep hfit ho hdk).1
  cases a with
  | kernel a =>
      simp only [DKernel.step, DKernel.stepKernel] at hdk
      split at hdk
      · cases hdk
      obtain ⟨⟨k, o⟩, hk, he⟩ := Option.map_eq_some_iff.mp hdk
      cases he
      refine hp.keep rfl (fun _ => rfl) (DKernel.keepsQueues_of_eq rfl) fun h f hf => ?_
      dsimp only at hf
      split at hf
      · cases hf
      · exact hp.frame h f hf
  | resume =>
      obtain ⟨hm, task, r, rfl⟩ := DKernel.memory_stepResume hdk
      simp only [DKernel.step, DKernel.stepResume] at hdk
      split at hdk
      case isFalse => cases hdk
      obtain ⟨f, hf, hdk⟩ := Option.bind_eq_some_iff.mp hdk
      obtain ⟨⟨u, q⟩, hu, he⟩ := Option.map_eq_some_iff.mp hdk
      cases he
      obtain ⟨-, -, -, hn⟩ := hp.frame _ f hf
      obtain ⟨hkeeps, hframe⟩ := DKernel.keepsQueues_resume hn hu
      refine hp.keep rfl (fun e => (DKernel.rest_eq (congrArg Prod.snd hm) e 0).1) hkeeps
        fun h g hg => ?_
      by_cases hh : h = s.dk.kernel.currentTask
      · subst hh
        simp [DKernel.setDFrame] at hg
      · refine hp.frame h g ?_
        rw [← hframe]
        simpa [DKernel.setDFrame, DKernel.setKernel, hh] using hg
  | call c =>
      obtain ⟨ha, u, oc, hex, hend⟩ := dstep_call_inv hdk
      by_cases hc : ∃ queueLength typeSize, c = .create queueLength typeSize
      · obtain ⟨queueLength, typeSize, rfl⟩ := hc
        cases hex
        obtain ⟨r, hr, rfl, rfl⟩ | ⟨-, ⟨r, hr, -⟩ | ⟨hr, -⟩⟩ := hend
        · cases hr
          exact hp.create hfit hi hi' ho rfl rfl
        · cases hr
        · cases hr
      by_cases hd : ∃ e, c = .delete e
      · obtain ⟨e, rfl⟩ := hd
        obtain ⟨⟨v, r⟩, hdel, he⟩ := Option.map_eq_some_iff.mp hex
        cases he
        obtain ⟨q, hr, rfl, rfl⟩ | ⟨-, ⟨q, hr, -⟩ | ⟨hr, -⟩⟩ := hend
        · cases hr
          cases e with
          | none => cases hdel
          | some e =>
              refine hp.delete ho.2 hdel ?_
              rcases DKernel.memory_delete hdel with ⟨-, hr⟩ | ⟨-, hr, -⟩
              · exact Or.inl (DObs.queues_of_not_deleted hr)
              · exact Or.inr (DObs.queues_of_deleted hr)
        · cases hr
        · cases hr
      · have hc' := fun queueLength typeSize h => hc ⟨queueLength, typeSize, h⟩
        have hd' := fun e h => hd ⟨e, h⟩
        exact hp.call hc' hd' ho hdk rfl

/-! ### Runs -/

theorem Placed.step (hfit : Fits dc uc) (hi : Inv s) (hp : Placed s) {a : ClientAction} {r : DObs}
    (ho : Obeys s a) (hs : s.step a = some (t, r)) : Placed t := by
  cases a with
  | kernel a =>
      obtain ⟨⟨dk, o⟩, hdk, he⟩ := Option.map_eq_some_iff.mp hs
      cases he
      have hload : Placed ⟨s.load, s.queues⟩ := ⟨hp.aligned, hp.frame⟩
      have hp' := hload.dstep hfit hi.load ho hdk
      -- what is written to the heap is not among these
      unfold HeapClients.save
      split <;> exact ⟨hp'.aligned, hp'.frame⟩
  | store x v =>
      obtain ⟨-, hs⟩ := Option.ite_none_right_eq_some.mp hs
      cases hs
      exact ⟨hp.aligned, hp.frame⟩

theorem run_placed (hfit : Fits dc uc) {dQueue : Nat → OSDQueue}
    {dEvent : Nat → BRTOSQueue (dc.umm uc).prioBits} {tr : List (ClientAction × DObs)}
    (hr : Run step Obeys (init (dc.umm uc) dQueue dEvent) tr s) : Inv s ∧ Placed s := by
  refine hr.invariant (P := fun s => Inv s ∧ Placed s)
    ⟨inv_init dQueue dEvent, fun _ h => absurd h List.not_mem_nil, nofun⟩ ?_
  rintro s a t r ⟨hi, hp⟩ ho hs
  exact ⟨(hi.step hfit ho hs).1, hp.step hfit hi ho hs⟩

/-- A queue of five messages, the first of which is taken from the task it was meant for; three
tasks, of which one is removed again; and another queue. -/
def tenancyScript : List ClientAction :=
  [.kernel (.kernel (.call (.installTask false 512 3))),
    .kernel (.kernel (.call (.installTask false 256 5))), .kernel (.kernel .brtosStart),
    .kernel (.call (.create 5 6)), .store 20 7, .kernel (.kernel (.call (.delayTask 1))),
    .kernel (.call (.pend (some 1388) 0)), .kernel (.kernel .intEnter), .kernel (.kernel .tick),
    .kernel (.call (.post (some 1388) [1, 2, 3, 4, 5, 6])), .kernel (.kernel .intExit),
    .kernel (.kernel .resume), .kernel (.call (.pend (some 1388) 0)),
    .kernel (.kernel (.call (.delayTask 1))), .kernel .resume,
    .kernel (.kernel (.call (.uninstallTask 2 true (some 2)))),
    .kernel (.kernel (.call (.installTask false 128 4))), .kernel (.call (.create 3 2))]

/-- The owner is there, and byte `x` of its block is left alone. -/
def Leaves (o : Owner) (x : Nat) (s : HeapClients dc) (a : ClientAction) : Prop :=
  Obeys s a ∧ o ∈ s.owners ∧ ¬ a.Writes o x

instance (o : Owner) (x : Nat) (s : HeapClients dc) (a : ClientAction) : Decidable (Leaves o x s a) :=
  inferInstanceAs (Decidable (_ ∧ _))

end HeapClients

end Brtos
