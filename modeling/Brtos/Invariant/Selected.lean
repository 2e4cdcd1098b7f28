import Brtos.Invariant.Frames

/-!
# Brtos.Invariant.Selected

**Selected tasks.** A post takes the best waiter out of the wait list and makes it
ready; until that task runs again and its pend returns, it is *selected*: still inside
the pend, and no longer in the list. What a step does to the selected tasks of an
object follows from what it does to the object's wait list (`mem_selected_move`).

The module also says which steps leave the objects themselves (the counts of the
semaphores, the queues and their buffers) alone.
-/

namespace Brtos

open Bits Kernel

variable {cfg : Config} {s t u : Kernel cfg} {rule : Kernel cfg → Nat → Prop} {ev : Event}

/-- A task in this frame is inside a pend on `ev` and not in the wait list. -/
def Frame.SelectedFrom (ev : Event) (waiting : Finset Nat) : Frame → Prop
  | .pend ev' p _ => ev' = ev ∧ p ∉ waiting
  | _ => False

instance (ev : Event) (waiting : Finset Nat) : (f : Frame) → Decidable (f.SelectedFrom ev waiting)
  | .pend _ _ _ => inferInstanceAs (Decidable (_ ∧ _))
  | .user | .delay _ => isFalse id

/-- The tasks a post on `ev` has selected whose pend has not returned yet. -/
def Kernel.selected (s : Kernel cfg) (ev : Event) : Finset Nat :=
  (Finset.range (cfg.numberOfTasks + 1)).filter fun h =>
    s.Installed h ∧ (s.frame h).SelectedFrom ev (s.waiting ev)

theorem mem_selected {h : Nat} : h ∈ s.selected ev ↔
    s.Installed h ∧ ∃ p timeWait, s.frame h = .pend ev p timeWait ∧ p ∉ s.waiting ev := by
  rw [Kernel.selected, Finset.mem_filter, Finset.mem_range, Nat.lt_succ_iff]
  constructor
  · rintro ⟨-, hi, hsel⟩
    refine ⟨hi, ?_⟩
    cases hf : s.frame h with
    | pend ev' p tw =>
        rw [hf] at hsel
        obtain ⟨rfl, hp⟩ := hsel
        exact ⟨p, tw, rfl, hp⟩
    | _ =>
        rw [hf] at hsel
        exact hsel.elim
  · rintro ⟨hi, p, tw, hf, hp⟩
    refine ⟨hi.2.1, hi, ?_⟩
    rw [hf]
    exact ⟨rfl, hp⟩

theorem not_selected_of_frame {h : Nat}
    (hf : ∀ p timeWait, s.frame h ≠ .pend ev p timeWait) : h ∉ s.selected ev := by
  rw [mem_selected]
  rintro ⟨-, p, tw, hf', -⟩
  exact hf p tw hf'

/-- A pend goes on until its task continues it. -/
theorem move_pend_keeps (hk : KernelInv s) {a : Action} {o : Obs} {h p timeWait : Nat}
    (hm : Move rule s a t o) (hi : s.Installed h) (hf : s.frame h = .pend ev p timeWait)
    (hres : a = .resume → h ≠ s.currentTask) : t.Installed h ∧ t.frame h = .pend ev p timeWait := by
  by_cases htick : a = .tick
  · subst htick
    cases hm with
    | tick hnest ht =>
        obtain ⟨hinst, hframe, -⟩ := tick_frame hk ht
        exact ⟨(hinst h).mpr hi, by rw [hframe]; exact hf⟩
  · have hkeep := move_keeps hm hi (by rw [hf]; simp) (Or.inl (by rw [hf]; rfl)) hres htick
    exact ⟨hkeep.installed, hkeep.frame.trans hf⟩

/-- The selected tasks after a step are those that were inside a pend before it, do not
continue it now, and are not in the wait list after it. -/
theorem mem_selected_move (hk : KernelInv s) {a : Action} {o : Obs} (hm : Move rule s a t o)
    {h : Nat} : h ∈ t.selected ev ↔ (a = .resume → h ≠ s.currentTask) ∧ s.Installed h ∧
      ∃ p timeWait, s.frame h = .pend ev p timeWait ∧ p ∉ t.waiting ev := by
  rw [mem_selected]
  constructor
  · rintro ⟨hi, p, tw, hf, hp⟩
    rcases move_pend hk hm hi hf with ⟨hi', hf', hres⟩ | ⟨hwho, rfl, rfl, -, ⟨task, rfl⟩, -⟩
    · exact ⟨hres, hi', p, tw, hf', hp⟩
    · -- a pend that has just begun is in the list
      refine absurd ?_ hp
      have hwait := waiting_waitEvent ev tw
        (hk.table.prio_lt (hk.calling hwho).installed) ev
      exact (Finset.ext_iff.mp hwait _).mpr (by simp)
  · rintro ⟨hres, hi, p, tw, hf, hp⟩
    obtain ⟨hi', hf'⟩ := move_pend_keeps hk hm hi hf hres
    exact ⟨hi', p, tw, hf', hp⟩

/-- The tasks inside a pend on `ev` have different priorities. -/
theorem KernelInv.pend_inj (hk : KernelInv s) {h h' p timeWait timeWait' : Nat} {ev' : Event}
    (hi : s.Installed h) (hf : s.frame h = .pend ev p timeWait) (hi' : s.Installed h')
    (hf' : s.frame h' = .pend ev' p timeWait') : h = h' := by
  obtain ⟨xs, hs⟩ := hk.suspend
  exact hk.table.prio_inj hi hi' ((hs.pend_spec hi hf).1.trans (hs.pend_spec hi' hf').1.symm)

section

variable {a : Action} {o : Obs}

theorem selected_same (ev : Event) (hk : KernelInv s) (hm : Move rule s a t o)
    (hwait : t.waiting ev = s.waiting ev) (hres : a = .resume → s.currentTask ∉ s.selected ev) :
    t.selected ev = s.selected ev := by
  ext h
  rw [mem_selected_move hk hm, hwait, ← mem_selected]
  refine ⟨fun hh => hh.2, fun hh => ⟨?_, hh⟩⟩
  rintro ha rfl
  exact hres ha hh

/-- The running task continues its pend. -/
theorem selected_resume (hk : KernelInv s) (hm : Move rule s .resume t o)
    (hwait : t.waiting ev = s.waiting ev) :
    t.selected ev = (s.selected ev).erase s.currentTask := by
  ext h
  rw [mem_selected_move hk hm, hwait, ← mem_selected, Finset.mem_erase]
  simp

/-- A waiter leaves the list and is selected. -/
theorem selected_insert (hk : KernelInv s) (hm : Move rule s a t o) (ha : a ≠ .resume) {q : Nat}
    (hq : q ∈ s.waiting ev) (hwait : t.waiting ev = (s.waiting ev).erase q) :
    ∃ h timeWait, s.Installed h ∧ s.frame h = .pend ev q timeWait ∧ h ∉ s.selected ev ∧
      t.selected ev = insert h (s.selected ev) := by
  obtain ⟨xs, hs⟩ := hk.suspend
  obtain ⟨h, tw, hi, hf⟩ := hs.wait_pend hq
  refine ⟨h, tw, hi, hf, ?_, ?_⟩
  · rw [mem_selected]
    rintro ⟨-, p, tw', hf', hp⟩
    rw [hf] at hf'
    cases hf'
    exact hp hq
  · ext h'
    rw [mem_selected_move hk hm, Finset.mem_insert, mem_selected]
    constructor
    · rintro ⟨-, hi', p, tw', hf', hp⟩
      by_cases hpq : p = q
      · subst hpq
        exact Or.inl (hk.pend_inj hi' hf' hi hf)
      · refine Or.inr ⟨hi', p, tw', hf', fun hw => hp ?_⟩
        rw [hwait]
        exact Finset.mem_erase.mpr ⟨hpq, hw⟩
    · rintro (rfl | ⟨hi', p, tw', hf', hp⟩)
      · refine ⟨fun h => absurd h ha, hi, q, tw, hf, ?_⟩
        rw [hwait]
        exact Finset.notMem_erase _ _
      · refine ⟨fun h => absurd h ha, hi', p, tw', hf', fun hw => hp ?_⟩
        rw [hwait] at hw
        exact Finset.mem_of_mem_erase hw

/-- A task that joins the list is not selected. -/
theorem selected_join (hk : KernelInv s) (hm : Move rule s a t o) (ha : a ≠ .resume)
    (hwho : s.inTask = true)
    (hwait : t.waiting ev = insert (s.prio s.currentTask) (s.waiting ev)) :
    t.selected ev = s.selected ev := by
  obtain ⟨xs, hs⟩ := hk.suspend
  have hcall := hk.calling hwho
  ext h
  rw [mem_selected_move hk hm, mem_selected, hwait]
  constructor
  · rintro ⟨-, hi, p, tw, hf, hp⟩
    exact ⟨hi, p, tw, hf, fun hw => hp (Finset.mem_insert_of_mem hw)⟩
  · rintro ⟨hi, p, tw, hf, hp⟩
    refine ⟨fun h => absurd h ha, hi, p, tw, hf, fun hw => ?_⟩
    rcases Finset.mem_insert.mp hw with heq | hw
    · have hcur := hk.table.prio_inj hi hcall.installed ((hs.pend_spec hi hf).1.trans heq)
      subst hcur
      rw [hcall.frame] at hf
      cases hf
    · exact hp hw

/-- A task that leaves the list by itself was not selected. -/
theorem selected_leave (hk : KernelInv s) (hm : Move rule s .resume t o) {p timeWait : Nat}
    (hi : s.Installed s.currentTask) (hf : s.frame s.currentTask = .pend ev p timeWait)
    (hp : p ∈ s.waiting ev) (hwait : t.waiting ev = (s.waiting ev).erase p) :
    t.selected ev = s.selected ev := by
  ext h
  rw [mem_selected_move hk hm, mem_selected, hwait]
  constructor
  · rintro ⟨hne, hi', q, tw, hf', hq⟩
    refine ⟨hi', q, tw, hf', fun hw => hq (Finset.mem_erase.mpr ⟨?_, hw⟩)⟩
    rintro rfl
    exact hne rfl (hk.pend_inj hi' hf' hi hf)
  · rintro ⟨hi', q, tw, hf', hq⟩
    refine ⟨?_, hi', q, tw, hf', fun hw => hq (Finset.mem_of_mem_erase hw)⟩
    rintro - rfl
    rw [hf] at hf'
    cases hf'
    exact hq hp

end

/-! ### Steps that have nothing to do with an object -/

/-- A call that is no pend and no post on `ev` leaves its wait list alone. -/
theorem WaitStep.of_call_elsewhere {c : Call} (h : WaitStep s t (.call c)) (ev : Event)
    (hpend : ∀ timeWait, c ≠ (Frame.pend ev 0 timeWait).call) (hpost : c.signals ≠ some ev) :
    t.waiting ev = s.waiting ev := by
  cases h with
  | same hwait => exact hwait ev
  | joined ha hwho hwait =>
      rename_i ev' tw
      rw [hwait]
      split
      · rename_i heq
        subst heq
        exact absurd (by simpa using ha) (hpend tw)
      · rfl
  | selected ha hsig hacc hmem hwait =>
      rename_i c' ev'
      obtain rfl : c = c' := by simpa using ha
      rw [hwait]
      split
      · rename_i heq
        subst heq
        exact absurd hsig hpost
      · rfl
  | left ha => cases ha

/-- The block a delete call frees. -/
def Call.deletes : Call → Option Event
  | .semDelete (some e) => some (.sem e)
  | .mboxDelete (some e) => some (.mbox e)
  | .mutexDelete (some m) => some (.mutex m)
  | _ => none

/-- A block stays allocated until it is deleted. -/
theorem effect_allocated {c : Call} {oc : Outcome} (he : Effect rule s c u oc)
    (ha : s.Allocated ev) (hdel : c.deletes ≠ some ev) : u.Allocated ev := by
  -- what the cases below do to the event table: one entry, which is or stays allocated
  have hup : ∀ {ev' : Event} {w : EventWait cfg.prioBits},
      (ev' = ev → w.osEventAllocated = true) →
      (Function.update s.event ev' w ev).osEventAllocated = true := by
    intro ev' w hw
    rw [Function.update_apply]
    split
    · rename_i heq
      exact hw heq.symm
    · exact ha
  cases he with
  | uninstalledDelayed =>
      unfold Kernel.Allocated clearTcb
      split <;> exact ha
  | waited =>
      rw [SuspendInv.waitEvent_eq]
      exact hup fun heq => heq ▸ ha
  | semCreated | mboxCreated | queueCreated => exact hup fun _ => rfl
  | mutexCreated =>
      rename_i q m _ _ _
      have h := @hup (.mutex m) ⟨true, 0, 0⟩ fun _ => rfl
      unfold Kernel.Allocated
      dsimp only [setMutex, allocEvent, setEvent]
      split <;> exact h
  | semDeleted | mboxDeleted | mutexDeleted =>
      exact hup fun heq => absurd (by rw [Call.deletes, heq]) hdel
  | semSelected | mboxSelected => exact hup fun heq => heq ▸ ha
  | queueSelected => exact hup fun heq => heq ▸ ha
  | acquired =>
      rename_i m tw _ _ _ _
      obtain ⟨-, -, hev, -⟩ := takeCeiling_same (s.setMutex m fun c =>
        { c with osEventState := .busyResource, osEventOwner := s.currentTask }) m
        (s.prio s.currentTask)
      have hev : (s.takeMutex m).event = s.event := hev
      rw [Kernel.Allocated, hev]
      exact ha
  | released =>
      rename_i m _ _ _ _ _
      obtain ⟨-, hev, -⟩ := TableInv.restorePriority_same s m
      obtain ⟨hsame, -⟩ := freeMutex_same (s.restorePriority m) m
      unfold giveUp
      rw [Kernel.Allocated, hsame.event, hev]
      exact ha
  | handedOff =>
      rename_i m _ _ _ _ _
      obtain ⟨-, hev, -⟩ := TableInv.restorePriority_same s m
      unfold giveUp
      rw [handOff_eq, hev]
      exact hup fun heq => heq ▸ ha
  | _ => exact ha

theorem move_allocated (hk : KernelInv s) {a : Action} {o : Obs} (hm : Move rule s a t o)
    (ha : s.Allocated ev) (hdel : ∀ c, a = .call c → c.deletes ≠ some ev) : t.Allocated ev := by
  cases hm with
  | returned _ he => exact effect_allocated he ha (hdel _ rfl)
  | switched _ he =>
      have hu := effect_allocated he ha (hdel _ rfl)
      exact hu
  | suspended _ he =>
      have hu := effect_allocated he ha (hdel _ rfl)
      exact hu
  | started hmain hfree hu =>
      subst hu
      exact ha
  | timedOut =>
      simp only [Kernel.Allocated, leaveWaitList, setFrame, setEvent, Function.update_apply]
      split
      · rename_i heq
        exact heq ▸ ha
      · exact ha
  | woken =>
      rename_i ev' p tw _ _ _ _
      obtain ⟨ctx, dl, ops, heq, -⟩ := cancelTimeout_eq s tw
      rw [heq]
      cases ev' with
      | mutex m =>
          have hev := (takeCeiling_same
            { s with contextTask := ctx, delayList := dl, delayOps := ops } m p).2.2.1
          dsimp only [Kernel.Allocated, Kernel.finishPend, setFrame, noteAcquired]
          rw [hev]
          exact ha
      | _ => exact ha
  | tick hnest ht =>
      obtain ⟨xs, hs⟩ := hk.suspend
      rw [(tick_context hk hs ht).2.same]
      exact ha
  | _ => exact ha

/-- The counts of the semaphores, the queues and their buffers are the same. -/
structure SameObjects (s t : Kernel cfg) : Prop where
  semTable : t.semTable = s.semTable
  osQueueTable : t.osQueueTable = s.osQueueTable
  queueStack : t.queueStack = s.queueStack
  iQueueAddress : t.iQueueAddress = s.iQueueAddress

theorem takeCeiling_objects (s : Kernel cfg) (m p : Nat) : SameObjects s (s.takeCeiling m p) := by
  obtain ⟨ready, pv, ctx, mt, ht⟩ := takeCeiling_eq s m p
  rw [ht]
  exact ⟨rfl, rfl, rfl, rfl⟩

theorem released_objects (s : Kernel cfg) (m : Nat) :
    SameObjects s ((s.giveUp m).freeMutex m) := by
  obtain ⟨ready, pv, ctx, mt, hd, hr⟩ := released_eq s m
  rw [hr]
  exact ⟨rfl, rfl, rfl, rfl⟩

theorem handedOff_objects (s : Kernel cfg) (m : Nat) : SameObjects s ((s.giveUp m).handOff m) := by
  obtain ⟨ready, ctx, hr⟩ := restorePriority_eq s m
  rw [giveUp, handOff_eq, hr]
  exact ⟨rfl, rfl, rfl, rfl⟩

end Brtos
