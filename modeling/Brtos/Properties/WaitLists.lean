import Brtos.Invariant.Stack

/-!
# Brtos.Properties.WaitLists

The **wait lists** of semaphores, mailboxes, queues and mutexes.

The counter `OSEventWait` and the bitmap `OSEventWaitList` of an object agree in
every state, a bit stands for exactly one task, which is inside a pend on that
object, and no task is in two lists. So a post or release that finds
`OSEventWait` different from zero applies `SAScheduler` to a list that is not
empty, and what it takes out of the list and makes ready is the best waiter and
nothing else (`WakesBest`).

Two kinds of call find waiters and wake nobody: a post to a queue whose buffer is
full, and a release by a caller that is not the owner. They change nothing.
-/

namespace Brtos

open Bits Kernel

variable {cfg : Config} {s t u : Kernel cfg}

/-! ### Posts and releases -/

/-- From `s` to `t`, task `h` was woken: it is the best of the tasks waiting for
`ev`, and no other task leaves a wait list or becomes ready. -/
structure WakesBest (s t : Kernel cfg) (ev : Event) (h : Nat) : Prop where
  installed : s.Installed h
  pending : ∃ timeWait, s.frame h = .pend ev (s.prio h) timeWait
  waiting : s.prio h ∈ s.waiting ev
  best : ∀ p ∈ s.waiting ev, p ≤ s.prio h
  removed : t.waiting ev = (s.waiting ev).erase (s.prio h)
  counted : (t.event ev).osEventWait + 1 = (s.event ev).osEventWait
  others : ∀ ev', ev' ≠ ev → t.event ev' = s.event ev'
  ready : s.prio h ∈ t.ready
  frame : t.frame = s.frame
  prio : ∀ h', s.Installed h' → s.frame h' ≠ .user → t.prio h' = s.prio h'
  suspended : ∀ h', s.Installed h' → s.frame h' ≠ .user → h' ≠ h →
    (s.prio h' ∈ t.ready ↔ s.prio h' ∈ s.ready)

/-- The context switch that follows changes none of this. -/
theorem WakesBest.setCurrent {ev : Event} {h : Nat} (hw : WakesBest s t ev h) (task : Nat) :
    WakesBest s { t with currentTask := task } ev h :=
  ⟨hw.installed, hw.pending, hw.waiting, hw.best, hw.removed, hw.counted, hw.others, hw.ready,
    hw.frame, hw.prio, hw.suspended⟩

/-- A suspended task that is not selected is ready after the step exactly when it
was before: its frame, its deadline and its wait-list bit decide, and none of
these has changed. -/
theorem suspended_ready_iff {xs : List Nat} (hs : SuspendInv s xs) (ht : SuspendInv t xs)
    {h p : Nat} {ev : Event} (hinst : ∀ h, t.Installed h ↔ s.Installed h)
    (hframe : t.frame = s.frame) (httw : ∀ h, t.ttw h = s.ttw h)
    (hwait : ∀ ev', t.waiting ev' = if ev' = ev then (s.waiting ev).erase p else s.waiting ev')
    (hi : s.Installed h) (hfu : s.frame h ≠ .user) (hprio : t.prio h = s.prio h)
    (hne : s.prio h ≠ p) : s.prio h ∈ t.ready ↔ s.prio h ∈ s.ready := by
  have hit := (hinst h).mpr hi
  cases hf : s.frame h with
  | user => exact absurd hf hfu
  | delay tw =>
      have h1 := ht.ready_delay hit (hframe ▸ hf)
      rw [hprio] at h1
      rw [h1, hs.ready_delay hi hf]
  | pend ev' q tw =>
      have hq := (hs.pend_spec hi hf).1
      rw [hq, ht.ready_pend hit (hframe ▸ hf), hs.ready_pend hi hf, httw, hwait]
      split
      · rename_i heq
        subst heq
        rw [hq] at hne
        simp [hne]
      · rfl

/-- What a step that takes the best waiter out of its list and makes it ready does. -/
theorem wakesBest_of_select (hc : CoreInv s) (hct : CoreInv t) {ev : Event}
    (hw : (s.event ev).osEventWait ≠ 0)
    (hevent : t.event =
      (s.leaveWaitList ev (saScheduler (s.event ev).osEventWaitList)).event)
    (hready : saScheduler (s.event ev).osEventWaitList ∈ t.ready)
    (hinst : ∀ h, t.Installed h ↔ s.Installed h) (hlist : t.delayList = s.delayList)
    (hframe : t.frame = s.frame) (httw : ∀ h, t.ttw h = s.ttw h)
    (hprio : ∀ h, s.Installed h → s.frame h ≠ .user → t.prio h = s.prio h) :
    ∃ h, WakesBest s t ev h := by
  obtain ⟨xs, hs⟩ := hc.suspend
  obtain ⟨ys, hst⟩ := hct.suspend
  have hxy : ys = xs := DList.IsList.unique (hlist ▸ hst.list) hs.list
  subst hxy
  have hmem := saScheduler_mem (hs.waiting_nonempty hw)
  have hbest : ∀ q ∈ s.waiting ev, q ≤ saScheduler (s.event ev).osEventWaitList :=
    fun q hq => le_saScheduler hq
  generalize saScheduler (s.event ev).osEventWaitList = p at *
  obtain ⟨h, tw, hi, hf, rfl, -⟩ := hs.waiter hmem
  have hwait : ∀ ev', t.waiting ev' =
      if ev' = ev then (s.waiting ev).erase (s.prio h) else s.waiting ev' := fun ev' => by
    rw [← waiting_leaveWaitList, Kernel.waiting, hevent]
  have hcount := osEventWait_leaveWaitList hmem (hs.wait_count ev) (hs.wait_lt _)
  refine ⟨h, hi, ⟨tw, hf⟩, hmem, hbest, ?_, ?_, ?_, hready, hframe, hprio, ?_⟩
  · rw [hwait, if_pos rfl]
  · have hcard : 0 < (s.waiting ev).card := Finset.card_pos.mpr ⟨_, hmem⟩
    rw [hevent, hcount, waiting_leaveWaitList, if_pos rfl, Finset.card_erase_of_mem hmem,
      hs.wait_count ev]
    exact Nat.sub_add_cancel hcard
  · intro ev' hne
    rw [hevent]
    exact Function.update_of_ne hne _ _
  · intro h' hi' hfu hne
    exact suspended_ready_iff hs hst hinst hframe httw hwait hi' hfu (hprio h' hi' hfu)
      fun he => hne (hc.table.prio_inj hi' hi he)

/-- **A post or release that finds waiters** is refused or wakes the best one. -/
theorem effect_signal (hk : KernelInv s) {c : Call} {ev : Event} {oc : Outcome}
    (he : Effect NestedRelease s c u oc) (hsig : c.signals = some ev)
    (hw : (s.event ev).osEventWait ≠ 0)
    (hok : ∀ r, oc = .returned r → r.code.isError = false) : ∃ h, WakesBest s u ev h := by
  have hcu := (effect_core hk he).core
  have hc := hk.toCoreInv
  obtain ⟨xs, hs⟩ := hk.suspend
  have hlt := lt_of_mem_bits (saScheduler_mem (hs.waiting_nonempty hw))
  have hins : ∀ x : BitVec cfg.prioBits, saScheduler (s.event ev).osEventWaitList ∈
      bits (x ||| priorityMask cfg (saScheduler (s.event ev).osEventWaitList)) := fun x => by
    rw [bits_or_mask hlt]
    exact Finset.mem_insert_self _ _
  cases he with
  | refused hr =>
      have := hok _ rfl
      rw [hr] at this
      cases this
  | semSelected =>
      cases hsig
      exact wakesBest_of_select hc hcu hw rfl (hins _) (fun _ => Iff.rfl) rfl rfl (fun _ => rfl)
        fun _ _ _ => rfl
  | mboxSelected =>
      cases hsig
      exact wakesBest_of_select hc hcu hw rfl (hins _) (fun _ => Iff.rfl) rfl rfl (fun _ => rfl)
        fun _ _ _ => rfl
  | queueSelected =>
      cases hsig
      dsimp only [Kernel.wakeWaiter, putByte, leaveWaitList, setEvent, Kernel.setReady, setQueue]
        at hcu ⊢
      exact wakesBest_of_select hc hcu hw rfl (hins _) (fun _ => Iff.rfl) rfl rfl (fun _ => rfl)
        fun _ _ _ => rfl
  | semGiven _ hw0 =>
      cases hsig
      exact absurd hw0 hw
  | mboxStored _ hw0 =>
      cases hsig
      exact absurd hw0 hw
  | queueWritten hcall =>
      rcases hcall with rfl | ⟨rfl, hw0⟩
      · cases hsig
      · cases hsig
        exact absurd hw0 hw
  | released _ _ _ _ hw0 =>
      cases hsig
      exact absurd hw0 hw
  | handedOff hwho hev hown hrule hwm =>
      rename_i m
      cases hsig
      have hcall := hk.calling hwho
      obtain ⟨-, hev, hta, -, -, -, hframe, -⟩ := TableInv.restorePriority_same s m
      obtain ⟨hdl, -, httw⟩ := TableInv.restorePriority_delay s m
      have hprio := fun h => TableInv.restorePriority_prio (s := s) m h
      unfold giveUp at hcu ⊢
      rw [handOff_eq] at hcu ⊢
      rw [hev] at hcu ⊢
      refine wakesBest_of_select hc hcu hw ?_ (hins _) (fun h => installed_congr hta h) hdl hframe
        httw ?_
      · simp only [leaveWaitList, setEvent]
      · intro h hi hfu
        refine (hprio h).trans (if_neg ?_)
        rintro rfl
        exact hfu hcall.frame
  | blocked hb =>
      cases c <;> simp [Call.signals, Call.isBlock] at hsig hb
  | waited =>
      rename_i ev' tw _ _ _ _
      cases ev' <;> simp [Call.signals, Frame.call] at hsig
  | semCreated hcall =>
      rcases hcall with ⟨_, rfl, -⟩ | ⟨_, rfl, -⟩ <;> cases hsig
  | queueRead hcall =>
      rcases hcall with rfl | ⟨_, rfl⟩ <;> cases hsig
  | _ => cases hsig

/-- Whether a call that finds waiters is refused is decided by `Accepts`. -/
theorem signal_accepts {c : Call} {ev : Event} {oc : Outcome} (hc : CoreInv s)
    (ha : c.allowed s = true) (hsig : c.signals = some ev) (hw : (s.event ev).osEventWait ≠ 0)
    (hex : s.exec c = some (u, oc)) :
    (s.Accepts c → ∀ r, oc = .returned r → r.code.isError = false) ∧
    (¬ s.Accepts c → u = s ∧ ∃ r, oc = .returned r ∧ r.code.isError = true) := by
  obtain ⟨xs, hs⟩ := hc.suspend
  obtain ⟨p, hp⟩ := hs.waiting_nonempty hw
  have hal : s.Allocated ev := hs.wait_alloc hp
  have hwake : ∀ {v : Kernel cfg} {r' : Ret}, r'.code.isError = false →
      ∀ r, v.afterWake r' = .returned r → r.code.isError = false := by
    intro v r' hr' r h
    rcases afterWake_cases (r := r') v with h' | h'
    · rw [h'] at h
      cases h
    · rw [h'] at h
      cases h
      exact hr'
  cases c with
  | semPost e =>
      cases e with
      | none => cases hsig
      | some e =>
          cases hsig
          simp only [exec, osSemPost, checkEvent_allocated hal, Kernel.semPost, if_pos hw] at hex
          cases hex
          exact ⟨fun _ => hwake rfl, fun h => absurd trivial h⟩
  | mboxPost e message =>
      cases e with
      | none => cases hsig
      | some e =>
          cases hsig
          simp only [exec, osMboxPost, checkEvent_allocated hal, Kernel.mboxPost, if_pos hw] at hex
          cases hex
          exact ⟨fun _ => hwake rfl, fun h => absurd trivial h⟩
  | queuePost q data =>
      cases q with
      | none => cases hsig
      | some q =>
          cases hsig
          simp only [exec, osQueuePost, Option.bind_some, checkEvent_allocated hal,
            Kernel.queuePost] at hex
          split at hex
          · rename_i hroom
            have hw' : ((s.putByte q data).event (.queue q)).osEventWait ≠ 0 := hw
            rw [if_pos hw'] at hex
            cases hex
            exact ⟨fun _ => hwake rfl, fun h => absurd hroom h⟩
          · rename_i hfull
            cases hex
            exact ⟨fun h => absurd h hfull, fun _ => ⟨rfl, _, rfl, rfl⟩⟩
  | mutexRelease m =>
      cases m with
      | none => cases hsig
      | some m =>
          cases hsig
          -- a mutex with waiters has an owner
          have hown : s.owner m ≠ 0 := fun h0 => by
            rw [hc.handoff.free_empty hal h0] at hp
            simp at hp
          by_cases hn : 0 < s.iNesting
          · -- an interrupt owns nothing: the release is turned away
            have hcheck : cfg.errorCheck = true := by
              simp only [Call.allowed, inTask, inInterrupt] at ha
              simp [Nat.ne_of_gt hn, hn] at ha
              exact ha
            simp only [exec, osMutexRelease, checkPend, if_pos (And.intro hcheck hn)] at hex
            cases hex
            refine ⟨fun h => absurd ?_ hown, fun _ => ⟨rfl, _, rfl, rfl⟩⟩
            exact h.trans (if_neg (by omega))
          · have hcaller : s.caller = s.currentTask := if_pos (by omega)
            simp only [exec, osMutexRelease, checkPend, hn, and_false, if_false,
              checkEvent_allocated hal, Kernel.mutexRelease] at hex
            split at hex
            · rename_i hne
              cases hex
              exact ⟨fun h => absurd (h.trans hcaller) hne, fun _ => ⟨rfl, _, rfl, rfl⟩⟩
            · rename_i heq
              refine ⟨fun _ r hr => ?_, fun h => absurd (not_not.mp heq) (hcaller ▸ h)⟩
              split at hex
              · cases hex
                cases hr
              · cases hex
                cases hr
                rfl
  | _ => cases hsig

/-! ### The wait lists -/

/-- **Wait-list invariant.** In every state of an execution, the counter and the
bitmap of an object agree, a bit stands for exactly one task, which is inside a
pend on the object, and no task is in two lists; and a post or release that finds
waiters and is not turned away wakes the best one and nobody else. -/
theorem wait_lists_consistent {tr : Trace} (hr : RunFromInit (Disciplined LifoRelease) tr s) :
    (∀ ev, (s.event ev).osEventWait = (s.waiting ev).card) ∧
    (∀ ev, ∀ p ∈ s.waiting ev, ∃ h, s.Installed h ∧ s.prio h = p ∧
      (∃ timeWait, s.frame h = .pend ev p timeWait) ∧
      ∀ h', s.Installed h' → s.prio h' = p → h' = h) ∧
    (∀ ev ev' h, s.Installed h → s.prio h ∈ s.waiting ev → s.prio h ∈ s.waiting ev' → ev = ev') ∧
    (∀ c ev t o, c.signals = some ev → (s.event ev).osEventWait ≠ 0 →
      Disciplined LifoRelease s (.call c) → s.step (.call c) = some (t, o) →
      (s.waiting ev).Nonempty ∧ (s.Accepts c → ∃ h, WakesBest s t ev h) ∧
      (¬ s.Accepts c → t = s ∧ ∃ r, o = .returned s.caller c r ∧ r.code.isError = true)) := by
  obtain ⟨hk, hst⟩ := lifo_run hr
  have hc := hk.toCoreInv
  obtain ⟨xs, hs⟩ := hk.suspend
  refine ⟨hs.wait_count, ?_, ?_, ?_⟩
  · intro ev p hp
    obtain ⟨h, tw, hi, hf, hpr, -⟩ := hs.waiter hp
    exact ⟨h, hi, hpr, ⟨tw, hf⟩, fun h' hi' hp' => hk.table.prio_inj hi' hi (hp'.trans hpr.symm)⟩
  · exact fun ev ev' h _ hw hw' => hs.waiting_disjoint hk.table hw hw'
  · intro c ev t o hsig hw hd hstep
    refine ⟨hs.waiting_nonempty hw, ?_⟩
    obtain ⟨ha, u, oc, hex, hto⟩ := step_call_inv hstep
    obtain ⟨hacc, hrej⟩ := signal_accepts hc ha hsig hw hex
    constructor
    · intro hA
      have he := hk.effect ha (hd.nested hk hst hstep) hex
      obtain ⟨h, hwb⟩ := effect_signal hk he hsig hw (hacc hA)
      rcases hto with ⟨r, -, rfl, -⟩ | ⟨task, -, rfl, -⟩
      · exact ⟨h, hwb⟩
      · exact ⟨h, hwb.setCurrent task⟩
    · intro hR
      obtain ⟨rfl, r, rfl, herr⟩ := hrej hR
      rcases hto with ⟨r', hr', rfl, rfl⟩ | ⟨task, -, -, ⟨r', hr', -⟩ | ⟨hr', -⟩⟩
      · cases hr'
        exact ⟨rfl, r, rfl, herr⟩
      · cases hr'
      · cases hr'

/-- A task of priority 2 waits, with a timeout, for the mutex that the task of
priority 3 holds. -/
def waitingScript : List Action :=
  [.call (.installTask false 256 2), .call (.installTask false 256 3), .call (.mutexCreate 8),
    .brtosStart, .call (.mutexAcquire (some 0) 0), .call (.delayTask 1),
    .call (.mutexAcquire (some 0) 5), .intEnter, .tick, .intExit, .resume]

set_option maxRecDepth 20000 in
theorem wait_lists_consistent_release :
    let s := Run.after Kernel.step (Kernel.init Config.exampleConfig) waitingScript
    (s.event (.mutex 0)).osEventWait = 1 ∧ s.waiting (.mutex 0) = {2} ∧
      s.Accepts (.mutexRelease (some 0)) ∧
      ∀ t o, s.step (.call (.mutexRelease (some 0))) = some (t, o) →
        ∃ h, WakesBest s t (.mutex 0) h := by
  refine ⟨by decide, by decide, by decide, fun t o hstep => ?_⟩
  exact ((wait_lists_consistent (Run.of_admits (by decide +kernel))).2.2.2 _ _ t o rfl (by decide)
    (by decide) hstep).2.1 (by decide)

/-- Five tasks wait for a queue of four bytes; an interrupt posts four bytes. -/
def fullQueueScript : List Action :=
  [.call (.installTask false 256 1), .call (.installTask false 256 2),
    .call (.installTask false 256 3), .call (.installTask false 256 4),
    .call (.installTask false 256 5), .call (.queueCreate 4), .brtosStart,
    .call (.queuePend (some 0) 0), .call (.queuePend (some 0) 0), .call (.queuePend (some 0) 0),
    .call (.queuePend (some 0) 0), .call (.queuePend (some 0) 0), .intEnter,
    .call (.queuePost (some 0) 1), .call (.queuePost (some 0) 2), .call (.queuePost (some 0) 3),
    .call (.queuePost (some 0) 4)]

set_option maxRecDepth 40000 in
/-- The fifth post finds a waiter and a full buffer: it wakes nobody. -/
theorem full_queue_post_wakes_nobody :
    let s := Run.after Kernel.step (Kernel.init Config.exampleConfig) fullQueueScript
    let post := Call.queuePost (some 0) 5
    let t := Run.after Kernel.step s [.call post]
    RunFromInit (Disciplined LifoRelease)
      (Run.traceOf Kernel.step (Kernel.init Config.exampleConfig) fullQueueScript) s ∧
    Disciplined LifoRelease s (.call post) ∧ (s.event (.queue 0)).osEventWait ≠ 0 ∧
    Run.traceOf Kernel.step s [.call post] =
      [(.call post, .returned 0 post RetCode.bufferUnderrun.ret)] ∧
    ∀ h, ¬ WakesBest s t (.queue 0) h := by
  intro s post t
  refine ⟨Run.of_admits (by decide +kernel), by decide, by decide, by decide, fun h hw => ?_⟩
  have hsame : t.waiting (.queue 0) = s.waiting (.queue 0) := by decide
  have hmem := hw.waiting
  rw [← hsame, hw.removed] at hmem
  simp at hmem

end Brtos
