import Brtos.Invariant.Selected

/-!
# Brtos.Properties.Semaphore

**Conservation of tokens.** A post that finds a waiter hands its token to that task
directly: the count stays as it is and the token is on its way until the task's pend
returns. So the tokens of a semaphore are in its count, in the pends that returned
`OK`, and with the selected tasks, and nowhere else (`tokens_conserved`).

A timeout and a post may both hit a waiter before it runs again. What its pend then
returns is decided by the wait-list bit alone: a waiter that was selected takes the
token, whatever its `TimeToWait` says, and one that was not takes itself out of the
list.

The books are kept from the trace. A control block may be used again after a delete,
while a task that a post on the former semaphore selected has not run yet; that task's
pend belongs to the former semaphore, so the books say which tasks are inside a pend
that began on this one.
-/

namespace Brtos

open Bits Kernel

variable {cfg : Config} {s t u : Kernel cfg} {rule : Kernel cfg → Nat → Prop} {e n : Nat}

/-! ### The books of a semaphore -/

/-- The posts and pends on a semaphore that returned `OK`, and the tasks inside a pend
on it. -/
structure Ledger where
  okPosts : Nat
  okPends : Nat
  inside : Nat → Bool

/-- The books when the semaphore is created. -/
def Ledger.new : Ledger := ⟨0, 0, fun _ => false⟩

/-- Enter one action and what it showed into the books of semaphore `e`. -/
def Ledger.note (e : Nat) (l : Ledger) (x : Action × Obs) : Ledger :=
  match x.2 with
  | .suspended h (.semPend (some e') _) =>
    if e' = e then { l with inside := Function.update l.inside h true } else l
  | .returned h (.semPend (some e') _) r =>
    if e' = e then
      if x.1 = .resume then
        if l.inside h then
          { l with
            okPends := if r.code = .ok then l.okPends + 1 else l.okPends
            inside := Function.update l.inside h false }
        else l
      else if r.code = .ok then { l with okPends := l.okPends + 1 } else l
    else l
  | .returned _ (.semPost (some e')) r =>
    if e' = e ∧ r.code = .ok then { l with okPosts := l.okPosts + 1 } else l
  | _ => l

/-- The books of semaphore `e` after a trace that begins with its creation. -/
def ledger (e : Nat) (tr : Trace) : Ledger := tr.foldl (Ledger.note e) .new

theorem ledger_snoc (e : Nat) (tr : Trace) (x : Action × Obs) :
    ledger e (tr ++ [x]) = (ledger e tr).note e x := by
  simp [ledger]

/-- The tasks that a post on semaphore `e` has selected, by the books. -/
def Ledger.selected (l : Ledger) (s : Kernel cfg) (e : Nat) : Finset Nat :=
  (s.selected (.sem e)).filter fun h => l.inside h = true

/-! ### What a step does to a semaphore -/

/-- What a step does to the count of semaphore `e`, to its wait list and to its books. -/
inductive SemStep (e : Nat) (s t : Kernel cfg) (a : Action) (o : Obs) : Prop
  | quiet (hsem : t.semTable e = s.semTable e) (hwait : t.waiting (.sem e) = s.waiting (.sem e))
      (hres : a = .resume → ∀ p timeWait, s.frame s.currentTask ≠ .pend (.sem e) p timeWait)
      (hnote : ∀ l, Ledger.note e l (a, o) = l)
  | taken (hcount : 0 < (s.semTable e).osEventCount) (ha : a ≠ .resume)
      (hsem : t.semTable e = { s.semTable e with osEventCount := (s.semTable e).osEventCount - 1 })
      (hwait : t.waiting (.sem e) = s.waiting (.sem e))
      (hnote : ∀ l, Ledger.note e l (a, o) = { l with okPends := l.okPends + 1 })
  | given (hempty : s.waiting (.sem e) = ∅) (ha : a ≠ .resume)
      (hsem : t.semTable e = { s.semTable e with osEventCount := (s.semTable e).osEventCount + 1 })
      (hwait : t.waiting (.sem e) = s.waiting (.sem e))
      (hnote : ∀ l, Ledger.note e l (a, o) = { l with okPosts := l.okPosts + 1 })
  | selected {p : Nat} (hmem : p ∈ s.waiting (.sem e)) (ha : a ≠ .resume)
      (hsem : t.semTable e = s.semTable e)
      (hwait : t.waiting (.sem e) = (s.waiting (.sem e)).erase p)
      (hnote : ∀ l, Ledger.note e l (a, o) = { l with okPosts := l.okPosts + 1 })
  | joined (hwho : s.inTask = true) (hzero : (s.semTable e).osEventCount = 0) (ha : a ≠ .resume)
      (hsem : t.semTable e = s.semTable e)
      (hwait : t.waiting (.sem e) = insert (s.prio s.currentTask) (s.waiting (.sem e)))
      (hframe : t.Installed s.currentTask ∧
        ∃ p timeWait, t.frame s.currentTask = .pend (.sem e) p timeWait)
      (hnote : ∀ l, Ledger.note e l (a, o) =
        { l with inside := Function.update l.inside s.currentTask true })
  | timedOut {p timeWait : Nat} (ha : a = .resume) (hi : s.Installed s.currentTask)
      (hf : s.frame s.currentTask = .pend (.sem e) p timeWait)
      (hmem : p ∈ s.waiting (.sem e)) (hsem : t.semTable e = s.semTable e)
      (hwait : t.waiting (.sem e) = (s.waiting (.sem e)).erase p)
      (hnote : ∀ l, Ledger.note e l (a, o) =
        if l.inside s.currentTask then
          { l with inside := Function.update l.inside s.currentTask false }
        else l)
  | woken {p timeWait : Nat} (ha : a = .resume) (hi : s.Installed s.currentTask)
      (hf : s.frame s.currentTask = .pend (.sem e) p timeWait)
      (hmem : p ∉ s.waiting (.sem e)) (hsem : t.semTable e = s.semTable e)
      (hwait : t.waiting (.sem e) = s.waiting (.sem e))
      (hnote : ∀ l, Ledger.note e l (a, o) =
        if l.inside s.currentTask then
          { l with
            okPends := l.okPends + 1
            inside := Function.update l.inside s.currentTask false }
        else l)

/-- Calls that are not about semaphore `e` do not enter its books. -/
theorem note_elsewhere {c : Call} {h : Nat} {r : Ret} {a : Action}
    (hpend : ∀ timeWait, c ≠ .semPend (some e) timeWait) (hpost : c ≠ .semPost (some e))
    (l : Ledger) :
    l.note e (a, .returned h c r) = l ∧ l.note e (a, .suspended h c) = l := by
  constructor
  · unfold Ledger.note
    split
    · rename_i heq
      cases heq
    · rename_i e' tw r' heq
      cases heq
      refine if_neg ?_
      rintro rfl
      exact hpend tw rfl
    · rename_i e' r' heq
      cases heq
      refine if_neg ?_
      rintro ⟨rfl, -⟩
      exact hpost rfl
    · rfl
  · unfold Ledger.note
    split
    · rename_i e' tw heq
      cases heq
      refine if_neg ?_
      rintro rfl
      exact hpend tw rfl
    · rename_i heq
      cases heq
    · rename_i heq
      cases heq
    · rfl

/-- The count of semaphore `e` is left alone by the calls that are not about it. -/
theorem effect_semTable {c : Call} {oc : Outcome} (he : Effect rule s c u oc)
    (ha : s.Allocated (.sem e)) (hpend : ∀ timeWait, c ≠ .semPend (some e) timeWait)
    (hpost : c ≠ .semPost (some e)) (hdel : c ≠ .semDelete (some e)) :
    u.semTable e = s.semTable e := by
  cases he with
  | uninstalledDelayed =>
      unfold clearTcb
      split <;> rfl
  | waited => rw [SuspendInv.waitEvent_eq]
  | semCreated hc hfree =>
      refine Function.update_of_ne ?_ _ _
      rintro rfl
      exact (freeEvent_spec hfree).2 ha
  | semDeleted =>
      refine Function.update_of_ne ?_ _ _
      rintro rfl
      exact hdel rfl
  | semTaken =>
      refine Function.update_of_ne ?_ _ _
      rintro rfl
      exact hpend _ rfl
  | semGiven =>
      refine Function.update_of_ne ?_ _ _
      rintro rfl
      exact hpost rfl
  | mutexCreated =>
      dsimp only [setMutex, allocEvent, setEvent]
      split <;> rfl
  | acquired =>
      rename_i m tw _ _ _ _
      exact congrFun (takeCeiling_objects (s.setMutex m fun c =>
        { c with osEventState := .busyResource, osEventOwner := s.currentTask }) m
        (s.prio s.currentTask)).semTable e
  | released => exact congrFun (released_objects s _).semTable e
  | handedOff => exact congrFun (handedOff_objects s _).semTable e
  | _ => rfl

/-- A post or a pend on semaphore `e`, or the rest of a pend. -/
def Kernel.ActsOn (s : Kernel cfg) (e : Nat) (a : Action) : Prop :=
  (∃ timeWait, a = .call (.semPend (some e) timeWait)) ∨ a = .call (.semPost (some e)) ∨
    a = .resume ∧ ∃ p timeWait, s.frame s.currentTask = .pend (.sem e) p timeWait

/-- A step that is not about semaphore `e` leaves its control block alone. -/
theorem move_elsewhere (hk : KernelInv s) {a : Action} {o : Obs} (hm : Move rule s a t o)
    (ha : s.Allocated (.sem e)) (hact : ¬ s.ActsOn e a) (hdel : a ≠ .call (.semDelete (some e))) :
    t.semTable e = s.semTable e ∧ t.waiting (.sem e) = s.waiting (.sem e) := by
  cases a with
  | call c =>
      have hpend : ∀ timeWait, c ≠ .semPend (some e) timeWait := fun tw h =>
        hact (.inl ⟨tw, by rw [h]⟩)
      have hpost : c ≠ .semPost (some e) := fun h => hact (.inr (.inl (by rw [h])))
      have hdel : c ≠ .semDelete (some e) := fun h => hdel (by rw [h])
      have hsig : c.signals ≠ some (.sem e) := by
        unfold Call.signals
        split
        · rename_i e'
          rintro h
          cases h
          exact hpost rfl
        all_goals simp
      refine ⟨?_, (move_wait hk hm).of_call_elsewhere (.sem e) hpend hsig⟩
      cases hm with
      | returned _ he => exact effect_semTable he ha hpend hpost hdel
      | switched _ he => exact (effect_semTable he ha hpend hpost hdel :)
      | suspended _ he => exact (effect_semTable he ha hpend hpost hdel :)
  | resume =>
      have hother : ∀ {ev : Event} {p timeWait : Nat},
          s.frame s.currentTask = .pend ev p timeWait → .sem e ≠ ev := by
        rintro ev p tw hf rfl
        exact hact (.inr (.inr ⟨rfl, p, tw, hf⟩))
      cases hm with
      | delayEnded hcur hnest hf => exact ⟨rfl, rfl⟩
      | timedOut hcur hnest hf ht =>
          rename_i ev p tw
          have hwait := waiting_leaveWaitList (s := s) ev (.sem e) p
          rw [if_neg (hother hf)] at hwait
          exact ⟨rfl, hwait⟩
      | woken hcur hnest hf ht =>
          rename_i ev p tw
          obtain ⟨ctx, dl, ops, heq, -⟩ := cancelTimeout_eq s tw
          rw [heq]
          cases ev with
          | mutex m =>
              obtain ⟨-, -, hevent, -⟩ := takeCeiling_same
                { s with contextTask := ctx, delayList := dl, delayOps := ops } m p
              have hobj := takeCeiling_objects
                { s with contextTask := ctx, delayList := dl, delayOps := ops } m p
              refine ⟨congrFun hobj.semTable e, ?_⟩
              dsimp only [Kernel.finishPend, setFrame, noteAcquired, Kernel.waiting]
              rw [hevent]
          | _ => exact ⟨rfl, rfl⟩
  | tick =>
      cases hm with
      | tick hnest ht =>
          obtain ⟨xs, hs⟩ := hk.suspend
          have hsame := (tick_context hk hs ht).2.same
          constructor
          · rw [hsame]
            rfl
          · rw [Kernel.waiting, hsame]
            rfl
  | brtosStart =>
      cases hm with
      | startFailed => exact ⟨rfl, rfl⟩
      | started hmain hfree hu =>
          subst hu
          exact ⟨rfl, rfl⟩
  | intEnter =>
      cases hm
      exact ⟨rfl, rfl⟩
  | intExit =>
      cases hm with
      | _ => exact ⟨rfl, rfl⟩

/-- A call that changes nothing and returns an error enters no books. -/
theorem note_error {a : Action} (ha : a ≠ .resume) {h : Nat} {c : Call} {r : Ret}
    (hr : r.code.isError = true) (l : Ledger) : l.note e (a, .returned h c r) = l := by
  have hne : r.code ≠ .ok := by
    intro heq
    rw [heq] at hr
    cases hr
  unfold Ledger.note
  split
  · rename_i heq
    cases heq
  · rename_i heq
    cases heq
    simp [ha, hne]
  · rename_i heq
    cases heq
    simp [hne]
  · rfl

/-- How the critical section of `OSSemPend` ends. -/
theorem Effect.semPend_cases {timeWait : Nat} {oc : Outcome}
    (he : Effect rule s (.semPend (some e) timeWait) u oc) :
    (u = s ∧ ∃ r, oc = .returned r ∧ r.code.isError = true) ∨
    (0 < (s.semTable e).osEventCount ∧
      u = s.setSem e (fun c => { c with osEventCount := c.osEventCount - 1 }) ∧
      oc = .returned RetCode.ok.ret) ∨
    (s.inTask = true ∧ (s.semTable e).osEventCount = 0 ∧ u = s.waitEvent (.sem e) timeWait ∧
      oc = .suspended) := by
  generalize hc : Call.semPend (some e) timeWait = c at he
  cases he with
  | refused hr => exact Or.inl ⟨rfl, _, rfl, hr⟩
  | semTaken hwho hev hcount =>
      cases hc
      exact Or.inr (Or.inl ⟨hcount, rfl, rfl⟩)
  | waited hwho hev htw hun =>
      rename_i ev tw
      obtain ⟨rfl, rfl⟩ : ev = .sem e ∧ tw = timeWait := by
        cases ev <;> cases hc
        exact ⟨rfl, rfl⟩
      exact Or.inr (Or.inr ⟨hwho, hun, rfl, rfl⟩)
  | queueRead h =>
      subst hc
      rcases h with h | ⟨_, h⟩ <;> cases h
  | queueWritten h =>
      subst hc
      rcases h with h | ⟨h, -⟩ <;> cases h
  | blocked hb =>
      subst hc
      cases hb
  | semCreated h =>
      subst hc
      rcases h with ⟨_, h, -⟩ | ⟨_, h, -⟩ <;> cases h
  | _ => cases hc

/-- How the critical section of `OSSemPost` ends. -/
theorem Effect.semPost_cases {oc : Outcome} (he : Effect rule s (.semPost (some e)) u oc) :
    (u = s ∧ ∃ r, oc = .returned r ∧ r.code.isError = true) ∨
    ((s.event (.sem e)).osEventWait ≠ 0 ∧ u = s.wakeWaiter (.sem e) ∧
      oc = s.afterWake RetCode.ok.ret) ∨
    ((s.event (.sem e)).osEventWait = 0 ∧ u = s.setSem e (fun c =>
        { c with osEventCount := if c.binary = false then c.osEventCount + 1 else 1 }) ∧
      oc = .returned RetCode.ok.ret) := by
  generalize hc : Call.semPost (some e) = c at he
  cases he with
  | refused hr => exact Or.inl ⟨rfl, _, rfl, hr⟩
  | semSelected hev hw =>
      cases hc
      exact Or.inr (Or.inl ⟨hw, rfl, rfl⟩)
  | semGiven hev hw hcount =>
      cases hc
      exact Or.inr (Or.inr ⟨hw, rfl, rfl⟩)
  | waited =>
      rename_i ev _ _ _ _ _
      cases ev <;> cases hc
  | queueRead h =>
      subst hc
      rcases h with h | ⟨_, h⟩ <;> cases h
  | queueWritten h =>
      subst hc
      rcases h with h | ⟨h, -⟩ <;> cases h
  | blocked hb =>
      subst hc
      cases hb
  | semCreated h =>
      subst hc
      rcases h with ⟨_, h, -⟩ | ⟨_, h, -⟩ <;> cases h
  | _ => cases hc

/-- A pend on semaphore `e`: it fails, takes a token, or waits. -/
theorem SemStep.of_pend (hk : KernelInv s) {timeWait : Nat} {o : Obs}
    (hm : Move rule s (.call (.semPend (some e) timeWait)) t o) :
    SemStep e s t (.call (.semPend (some e) timeWait)) o := by
  obtain ⟨-, u, oc, he, ⟨task, rfl⟩, ho⟩ := hm.call_inv
  rcases he.semPend_cases with ⟨rfl, r, rfl, hr⟩ | ⟨hcount, rfl, rfl⟩ | ⟨hwho, hzero, rfl, rfl⟩
  · rcases ho with ⟨r', h | h, rfl⟩ | ⟨h, -⟩ <;> cases h
    exact .quiet rfl rfl (fun h => by cases h) (note_error (by simp) hr)
  · rcases ho with ⟨r', h | h, rfl⟩ | ⟨h, -⟩ <;> cases h
    refine .taken hcount (by simp) (Function.update_self _ _ _) rfl fun l => ?_
    simp [Ledger.note]
  · rcases ho with ⟨r', h | h, rfl⟩ | ⟨-, rfl⟩
    · cases h
    · cases h
    · have hcall := hk.calling hwho
      have hwait := waiting_waitEvent (.sem e) timeWait
        (hk.table.prio_lt hcall.installed) (.sem e)
      have hcaller : s.caller = s.currentTask := if_pos hcall.nest
      rw [if_pos rfl] at hwait
      rw [SuspendInv.waitEvent_eq] at hwait ⊢
      refine .joined hwho hzero (by simp) rfl hwait ⟨hcall.installed, _, _,
        Function.update_self _ _ _⟩ fun l => ?_
      simp [Ledger.note, hcaller]

/-- A post on semaphore `e`: it fails, selects the best waiter, or adds a token. -/
theorem SemStep.of_post (hk : KernelInv s) (hbin : (s.semTable e).binary = false) {o : Obs}
    (hm : Move rule s (.call (.semPost (some e))) t o) :
    SemStep e s t (.call (.semPost (some e))) o := by
  obtain ⟨xs, hs⟩ := hk.suspend
  obtain ⟨-, u, oc, he, ⟨task, rfl⟩, ho⟩ := hm.call_inv
  rcases he.semPost_cases with ⟨rfl, r, rfl, hr⟩ | ⟨hw, rfl, rfl⟩ | ⟨hw, rfl, rfl⟩
  · rcases ho with ⟨r', h | h, rfl⟩ | ⟨h, -⟩ <;> cases h
    exact .quiet rfl rfl (fun h => by cases h) (note_error (by simp) hr)
  · have ho : o = .returned s.caller (.semPost (some e)) RetCode.ok.ret := by
      rcases afterWake_cases (r := RetCode.ok.ret) s with h' | h' <;> rw [h'] at ho
      all_goals
        rcases ho with ⟨r', h | h, rfl⟩ | ⟨h, -⟩ <;> cases h
        rfl
    subst ho
    have hwait := waiting_leaveWaitList (s := s) (.sem e) (.sem e)
      (saScheduler (s.event (.sem e)).osEventWaitList)
    rw [if_pos rfl] at hwait
    refine .selected (saScheduler_mem (hs.waiting_nonempty hw)) (by simp) rfl hwait fun l => ?_
    simp [Ledger.note]
  · rcases ho with ⟨r', h | h, rfl⟩ | ⟨h, -⟩ <;> cases h
    refine .given (hs.wait_eq_zero.mp hw) (by simp) ?_ rfl fun l => ?_
    · simp [setSem, hbin]
    · simp [Ledger.note]

/-- The books do not change when the running task ends a call on another object. -/
theorem note_resume_elsewhere {h : Nat} {ev : Event} {p timeWait : Nat} {r : Ret}
    (hne : ev ≠ .sem e) (l : Ledger) :
    l.note e (.resume, .returned h (Frame.pend ev p timeWait).call r) = l :=
  (note_elsewhere (by cases ev <;> simp_all [Frame.call])
    (by cases ev <;> simp [Frame.call]) l).1

/-- The running task continues a pend on semaphore `e`. -/
theorem SemStep.of_resume (hk : KernelInv s) {o : Obs} {p timeWait : Nat}
    (hf : s.frame s.currentTask = .pend (.sem e) p timeWait) (hm : Move rule s .resume t o) :
    SemStep e s t .resume o := by
  obtain ⟨xs, hs⟩ := hk.suspend
  cases hm with
  | delayEnded hcur hnest hf' =>
      rw [hf] at hf'
      cases hf'
  | timedOut hcur hnest hf' ht =>
      have hwait := waiting_leaveWaitList (s := s) (.sem e) (.sem e) p
      rw [if_pos rfl] at hwait
      rw [hf] at hf'
      cases hf'
      refine .timedOut rfl (hk.run hcur).1 hf ht.2.2 rfl hwait fun l => ?_
      simp [Ledger.note, Frame.call, Event.timeoutRet]
  | woken hcur hnest hf' ht =>
      rw [hf] at hf'
      cases hf'
      have hnw := hs.selected_of_not_timedOut (hk.run hcur).1 hf (hk.run hcur).2 ht
      obtain ⟨ctx, dl, ops, heq, -⟩ := cancelTimeout_eq s timeWait
      rw [heq]
      refine .woken rfl (hk.run hcur).1 hf hnw rfl rfl fun l => ?_
      simp [Ledger.note, Frame.call, Kernel.finishPend]

/-- A step that is not about semaphore `e`. -/
theorem SemStep.of_elsewhere (hk : KernelInv s) {a : Action} {o : Obs} (hm : Move rule s a t o)
    (ha : s.Allocated (.sem e)) (hact : ¬ s.ActsOn e a) (hdel : a ≠ .call (.semDelete (some e))) :
    SemStep e s t a o := by
  obtain ⟨hsem, hwait⟩ := move_elsewhere hk hm ha hact hdel
  refine .quiet hsem hwait (fun ha p tw hf => hact (.inr (.inr ⟨ha, p, tw, hf⟩))) fun l => ?_
  have hcall : ∀ c, a = .call c → (∀ timeWait, c ≠ .semPend (some e) timeWait) ∧
      c ≠ .semPost (some e) := by
    rintro c rfl
    exact ⟨fun tw h => hact (.inl ⟨tw, by rw [h]⟩), fun h => hact (.inr (.inl (by rw [h])))⟩
  have hother : a = .resume → ∀ {ev : Event} {p timeWait : Nat},
      s.frame s.currentTask = .pend ev p timeWait → ev ≠ .sem e := by
    rintro rfl ev p tw hf rfl
    exact hact (.inr (.inr ⟨rfl, p, tw, hf⟩))
  cases hm with
  | returned => exact (note_elsewhere (hcall _ rfl).1 (hcall _ rfl).2 l).1
  | switched => exact (note_elsewhere (hcall _ rfl).1 (hcall _ rfl).2 l).1
  | suspended =>
      exact (note_elsewhere (r := RetCode.ok.ret) (hcall _ rfl).1 (hcall _ rfl).2 l).2
  | timedOut hcur hnest hf => exact note_resume_elsewhere (hother rfl hf) l
  | woken hcur hnest hf => exact note_resume_elsewhere (hother rfl hf) l
  | _ => rfl

/-- Every step other than the delete of the semaphore. -/
theorem move_sem (hk : KernelInv s) {a : Action} {o : Obs} (hm : Move rule s a t o)
    (ha : s.Allocated (.sem e)) (hbin : (s.semTable e).binary = false)
    (hdel : a ≠ .call (.semDelete (some e))) : SemStep e s t a o := by
  by_cases hact : s.ActsOn e a
  · rcases hact with ⟨tw, rfl⟩ | rfl | ⟨rfl, p, tw, hf⟩
    · exact .of_pend hk hm
    · exact .of_post hk hbin hm
    · exact .of_resume hk hf hm
  · exact .of_elsewhere hk hm ha hact hdel

/-! ### The invariant -/

/-- Semaphore `e` and its books, `n` being the count it was created with. -/
structure SemInv (s : Kernel cfg) (e n : Nat) (l : Ledger) : Prop where
  alloc : s.Allocated (.sem e)
  counting : (s.semTable e).binary = false
  inside_pend : ∀ {h}, l.inside h = true →
    s.Installed h ∧ ∃ p timeWait, s.frame h = .pend (.sem e) p timeWait
  wait_inside : ∀ {h p timeWait}, s.Installed h → s.frame h = .pend (.sem e) p timeWait →
    p ∈ s.waiting (.sem e) → l.inside h = true
  count_wait : 0 < (s.semTable e).osEventCount → s.waiting (.sem e) = ∅
  conserved : n + l.okPosts = (s.semTable e).osEventCount + l.okPends + (l.selected s e).card

/-- Counting the selected tasks when the books change at one task only. -/
theorem selected_update {S : Finset Nat} {inside : Nat → Bool} {h : Nat} {b : Bool} (hn : h ∉ S) :
    S.filter (fun x => Function.update inside h b x = true) =
      S.filter fun x => inside x = true := by
  refine Finset.filter_congr fun x hx => ?_
  rw [Function.update_of_ne]
  rintro rfl
  exact hn hx

/-- The books know who is inside: a step that lets nobody join the wait list and drops
from the books at most the task that continues its pend. -/
theorem SemInv.inside_move {l : Ledger} (hsi : SemInv s e n l) (l' : Ledger) (hk : KernelInv s) {a : Action}
    {o : Obs} (hm : Move rule s a t o) (hsub : t.waiting (.sem e) ⊆ s.waiting (.sem e))
    (hin : ∀ h, l'.inside h = true → l.inside h = true ∧ (a = .resume → h ≠ s.currentTask))
    (hin' : ∀ h, (a = .resume → h ≠ s.currentTask) → l.inside h = true → l'.inside h = true) :
    (∀ h, l'.inside h = true →
      t.Installed h ∧ ∃ p timeWait, t.frame h = .pend (.sem e) p timeWait) ∧
    ∀ h p timeWait, t.Installed h → t.frame h = .pend (.sem e) p timeWait →
      p ∈ t.waiting (.sem e) → l'.inside h = true := by
  obtain ⟨xs, hs⟩ := hk.suspend
  constructor
  · intro h hh
    obtain ⟨hl, hres⟩ := hin h hh
    obtain ⟨hi, p, tw, hf⟩ := hsi.inside_pend hl
    obtain ⟨hi', hf'⟩ := move_pend_keeps hk hm hi hf hres
    exact ⟨hi', p, tw, hf'⟩
  · intro h p tw hi hf hp
    rcases move_pend hk hm hi hf with ⟨hi', hf', hres⟩ | ⟨hwho, rfl, rfl, -⟩
    · exact hin' h hres (hsi.wait_inside hi' hf' (hsub hp))
    · have hcall := hk.calling hwho
      exact absurd (hsub hp) (hs.user_not_waiting hk.table hcall.installed hcall.frame _)

/-- **Step lemma.** The invariant and the books are kept by every step other than the
delete of the semaphore. -/
theorem SemInv.step {l : Ledger} (hsi : SemInv s e n l) (hk : KernelInv s) {a : Action} {o : Obs}
    (hm : Move rule s a t o) (hdel : a ≠ .call (.semDelete (some e))) :
    SemInv t e n (l.note e (a, o)) := by
  have halloc : t.Allocated (.sem e) := by
    refine move_allocated hk hm hsi.alloc ?_
    rintro c rfl hc
    unfold Call.deletes at hc
    split at hc <;> cases hc
    exact hdel rfl
  have hcons := hsi.conserved
  cases move_sem hk hm hsi.alloc hsi.counting hdel with
  | quiet hsem hwait hres hnote =>
      have hsel := selected_same (.sem e) hk hm hwait fun ha =>
        not_selected_of_frame (hres ha)
      obtain ⟨h1, h2⟩ := hsi.inside_move l hk hm hwait.subset
        (fun h hh => ⟨hh, fun ha => by
          rintro rfl
          obtain ⟨-, p, tw, hf⟩ := hsi.inside_pend hh
          exact hres ha p tw hf⟩) fun _ _ hh => hh
      rw [hnote]
      refine ⟨halloc, by rw [hsem]; exact hsi.counting, h1 _, h2 _ _ _, ?_, ?_⟩
      · rw [hsem, hwait]
        exact hsi.count_wait
      · rw [hsem, Ledger.selected, hsel]
        exact hcons
  | taken hcount ha hsem hwait hnote =>
      -- one unit less in the counter, one acquisition more in the books
      have hsel := selected_same (.sem e) hk hm hwait fun h => absurd h ha
      obtain ⟨h1, h2⟩ := hsi.inside_move l hk hm hwait.subset
        (fun h hh => ⟨hh, fun h => absurd h ha⟩) fun _ _ hh => hh
      rw [hnote]
      refine ⟨halloc, by rw [hsem]; exact hsi.counting, h1 _, h2 _ _ _, ?_, ?_⟩
      · rw [hwait]
        exact fun _ => hsi.count_wait hcount
      · simp only [hsem, Ledger.selected, hsel] at hcons ⊢
        omega
  | given hempty ha hsem hwait hnote =>
      -- one unit more in the counter, one post more in the books
      have hsel := selected_same (.sem e) hk hm hwait fun h => absurd h ha
      obtain ⟨h1, h2⟩ := hsi.inside_move l hk hm hwait.subset
        (fun h hh => ⟨hh, fun h => absurd h ha⟩) fun _ _ hh => hh
      rw [hnote]
      refine ⟨halloc, by rw [hsem]; exact hsi.counting, h1 _, h2 _ _ _, ?_, ?_⟩
      · rw [hwait]
        exact fun _ => hempty
      · simp only [hsem, Ledger.selected, hsel] at hcons ⊢
        omega
  | selected hmem ha hsem hwait hnote =>
      rename_i p
      -- the unit goes to the selected waiter, and not into the counter
      obtain ⟨h, tw, hi, hf, hnot, hsel⟩ := selected_insert hk hm ha hmem hwait
      have hin := hsi.wait_inside hi hf hmem
      obtain ⟨h1, h2⟩ := hsi.inside_move l hk hm (hwait ▸ Finset.erase_subset _ _)
        (fun h hh => ⟨hh, fun h => absurd h ha⟩) fun _ _ hh => hh
      rw [hnote]
      refine ⟨halloc, by rw [hsem]; exact hsi.counting, h1 _, h2 _ _ _, ?_, ?_⟩
      · intro hc
        rw [hsem] at hc
        rw [hwait, hsi.count_wait hc]
        rfl
      · have hcard : (l.selected t e).card = (l.selected s e).card + 1 := by
          rw [Ledger.selected, hsel, Finset.filter_insert, if_pos hin, Finset.card_insert_of_notMem]
          · rfl
          · exact fun hm => hnot (Finset.mem_filter.mp hm).1
        have hcard : (Ledger.selected { l with okPosts := l.okPosts + 1 } t e).card =
          (l.selected s e).card + 1 := hcard
        rw [hcard, hsem]
        dsimp only
        omega
  | joined hwho hzero ha hsem hwait hframe hnote =>
      have hcall := hk.calling hwho
      obtain ⟨xs, hs⟩ := hk.suspend
      have hsel := selected_join hk hm ha hwho hwait
      rw [hnote]
      refine ⟨halloc, by rw [hsem]; exact hsi.counting, fun {h} hh => ?_, fun {h p tw} hi hf hp => ?_,
        fun hc => ?_, ?_⟩
      · by_cases heq : h = s.currentTask
        · exact heq ▸ hframe
        · obtain ⟨hi, p, tw, hf⟩ := hsi.inside_pend (by simpa [heq] using hh)
          obtain ⟨hi', hf'⟩ := move_pend_keeps hk hm hi hf fun h => absurd h ha
          exact ⟨hi', p, tw, hf'⟩
      · by_cases heq : h = s.currentTask
        · simp [heq]
        · rcases move_pend hk hm hi hf with ⟨hi', hf', -⟩ | ⟨-, h, -⟩
          · have hpr := (hs.pend_spec hi' hf').1
            have hne : p ≠ s.prio s.currentTask := fun h =>
              heq (hk.table.prio_inj hi' hcall.installed (hpr.trans h))
            rw [hwait, Finset.mem_insert] at hp
            simpa [heq] using hsi.wait_inside hi' hf' (hp.resolve_left hne)
          · exact absurd h heq
      · rw [hsem, hzero] at hc
        exact absurd hc (lt_irrefl 0)
      · have hnot : s.currentTask ∉ s.selected (.sem e) :=
          not_selected_of_frame fun p tw hf => by simp [hcall.frame] at hf
        simp only [Ledger.selected, hsel, selected_update hnot, hsem] at hcons ⊢
        exact hcons
  | timedOut ha hi hf hmem hsem hwait hnote =>
      rename_i p tw
      subst ha
      -- the task leaves the wait list without a unit
      have hsel := selected_leave hk hm hi hf hmem hwait
      have hin := hsi.wait_inside hi hf hmem
      obtain ⟨h1, h2⟩ := hsi.inside_move
        { l with inside := Function.update l.inside s.currentTask false } hk hm
        (hwait ▸ Finset.erase_subset _ _)
        (fun h hh => by
          by_cases heq : h = s.currentTask
          · simp [heq] at hh
          · exact ⟨by simpa [heq] using hh, fun _ => heq⟩)
        fun h hne hh => by simpa [hne rfl] using hh
      rw [hnote, if_pos hin]
      refine ⟨halloc, by rw [hsem]; exact hsi.counting, h1 _, h2 _ _ _, fun hc => ?_, ?_⟩
      · rw [hsem] at hc
        rw [hwait, hsi.count_wait hc]
        rfl
      · have hnot : s.currentTask ∉ s.selected (.sem e) := by
          rw [mem_selected]
          rintro ⟨-, q, tw', hf', hq⟩
          rw [hf] at hf'
          cases hf'
          exact hq hmem
        simp only [Ledger.selected, hsel, selected_update hnot, hsem] at hcons ⊢
        exact hcons
  | woken ha hi hf hmem hsem hwait hnote =>
      rename_i p tw
      subst ha
      have hsel := selected_resume hk hm hwait
      have hcur : s.currentTask ∈ s.selected (.sem e) := mem_selected.mpr ⟨hi, p, tw, hf, hmem⟩
      rw [hnote]
      by_cases hin : l.inside s.currentTask = true
      · -- a selected task of these books takes the unit it was selected for
        obtain ⟨h1, h2⟩ := hsi.inside_move
          { l with inside := Function.update l.inside s.currentTask false } hk hm hwait.subset
          (fun h hh => by
            by_cases heq : h = s.currentTask
            · simp [heq] at hh
            · exact ⟨by simpa [heq] using hh, fun _ => heq⟩)
          fun h hne hh => by simpa [hne rfl] using hh
        rw [if_pos hin]
        refine ⟨halloc, by rw [hsem]; exact hsi.counting, h1 _, h2 _ _ _, ?_, ?_⟩
        · rw [hsem, hwait]
          exact hsi.count_wait
        · have hmem : s.currentTask ∈ l.selected s e := Finset.mem_filter.mpr ⟨hcur, hin⟩
          have hcard := Finset.card_erase_add_one hmem
          simp only [Ledger.selected, hsel, selected_update (Finset.notMem_erase _ _),
            Finset.filter_erase, hsem] at hcons hcard ⊢
          omega
      · -- the task was selected by a post on a former semaphore of this block
        obtain ⟨h1, h2⟩ := hsi.inside_move l hk hm hwait.subset
          (fun h hh => ⟨hh, fun _ heq => hin (heq ▸ hh)⟩) fun _ _ hh => hh
        rw [if_neg hin]
        refine ⟨halloc, by rw [hsem]; exact hsi.counting, h1 _, h2 _ _ _, ?_, ?_⟩
        · rw [hsem, hwait]
          exact hsi.count_wait
        · have hnot : s.currentTask ∉ l.selected s e := fun hm => hin (Finset.mem_filter.mp hm).2
          rw [Ledger.selected, hsel, Finset.filter_erase, hsem]
          exact (Finset.erase_eq_of_notMem hnot).symm ▸ hcons

/-- What a successful create leaves behind. -/
theorem createSem_spec {count h : Nat} {binary : Bool} {c : Call}
    (hexec : s.exec c = some (s.createSem count binary))
    (hstep : s.step (.call c) = some (t, .returned h c ⟨.allocEventOk, .event (.sem e)⟩)) :
    t = (s.allocEvent (.sem e)).setSem e fun _ => ⟨count, binary⟩ := by
  obtain ⟨-, u, oc, hex, ho⟩ := step_call_inv hstep
  rw [hexec] at hex
  simp only [createSem] at hex
  split at hex
  · cases hex
    rcases ho with ⟨r, hr, -, h⟩ | ⟨-, -, -, ⟨r, hr, -⟩ | ⟨hr, -⟩⟩ <;> cases hr
    cases h
  · split at hex
    · cases hex
      rcases ho with ⟨r, hr, -, h⟩ | ⟨-, -, -, ⟨r, hr, -⟩ | ⟨hr, -⟩⟩ <;> cases hr
      cases h
    · cases hex
      rcases ho with ⟨r, hr, rfl, h⟩ | ⟨-, -, -, ⟨r, hr, -⟩ | ⟨hr, -⟩⟩ <;> cases hr
      cases h
      rfl

/-- A new control block has no waiters. -/
theorem created_block (s : Kernel cfg) (e n : Nat) (binary : Bool) :
    ((s.allocEvent (.sem e)).setSem e fun _ => ⟨n, binary⟩).Allocated (.sem e) ∧
      ((s.allocEvent (.sem e)).setSem e fun _ => ⟨n, binary⟩).semTable e = ⟨n, binary⟩ ∧
      ((s.allocEvent (.sem e)).setSem e fun _ => ⟨n, binary⟩).waiting (.sem e) = ∅ := by
  have hevent : ((s.allocEvent (.sem e)).setSem e fun _ => ⟨n, binary⟩).event (.sem e) =
      ⟨true, 0, 0⟩ := Function.update_self _ _ _
  refine ⟨by rw [Kernel.Allocated, hevent], Function.update_self _ _ _, ?_⟩
  rw [Kernel.waiting, hevent]
  exact bits_zero

/-- The invariant holds when the semaphore has been created: nobody waits for it. -/
theorem SemInv.created (s : Kernel cfg) (e n : Nat) :
    SemInv ((s.allocEvent (.sem e)).setSem e fun _ => ⟨n, false⟩) e n .new := by
  obtain ⟨halloc, hsem, hwait⟩ := created_block s e n false
  constructor
  case alloc => exact halloc
  case counting => exact by rw [hsem]
  case inside_pend => exact (by intro h hh; cases hh)
  case wait_inside =>
    intro h p tw _ _ hp
    rw [hwait] at hp
    cases hp
  case count_wait => exact fun _ => hwait
  case conserved =>
    rw [hsem]
    simp [Ledger.selected, Ledger.new]

/-! ### Failures -/

/-- A task outside the kernel is in no wait list and not in the delay list. -/
theorem KernelInv.user_nowhere (hk : KernelInv s) {h : Nat} (hi : s.Installed h)
    (hf : s.frame h = .user) :
    (∀ ev, s.prio h ∉ s.waiting ev) ∧ ∀ xs, s.delayList.IsList xs → h ∉ xs := by
  obtain ⟨ys, hs⟩ := hk.suspend
  refine ⟨hs.user_not_waiting hk.table hi hf, fun xs hxs => ?_⟩
  rw [hxs.unique hs.list]
  exact hs.user_not_listed hf

/-- A pend that does not return `OK` leaves the semaphore as it was, and its caller is in
no wait list and not in the delay list. -/
theorem pend_failed (hk : KernelInv s) {a : Action} {h timeWait : Nat} {r : Ret}
    (hm : Move NestedRelease s a t (.returned h (.semPend (some e) timeWait) r))
    (hr : r.code ≠ .ok) :
    t.semTable e = s.semTable e ∧
      (h ≠ 0 → (∀ ev, t.prio h ∉ t.waiting ev) ∧ ∀ xs, t.delayList.IsList xs → h ∉ xs) := by
  have hkt := move_inv hk hm
  generalize ho : Obs.returned h (.semPend (some e) timeWait) r = o at hm
  cases hm with
  | returned ha he =>
      cases ho
      rcases he.semPend_cases with ⟨hts, -⟩ | ⟨-, -, h⟩ | ⟨-, -, -, h⟩
      · rw [hts]
        refine ⟨rfl, fun hne => ?_⟩
        have hnest : s.iNesting = 0 := by
          by_contra hn
          exact hne (if_neg hn)
        have hwho : s.inTask = true := by
          simpa [Call.allowed, inInterrupt, hnest] using ha
        have hcall := hk.calling hwho
        rw [show s.caller = s.currentTask from if_pos hnest]
        exact hk.user_nowhere hcall.installed hcall.frame
      · cases h
        exact absurd rfl hr
      · cases h
  | switched ha he =>
      cases ho
      rcases he.semPend_cases with ⟨-, r', h, -⟩ | ⟨-, -, h⟩ | ⟨-, -, -, h⟩ <;> cases h
  | timedOut hcur hnest hf ht =>
      rename_i ev p tw
      obtain rfl : h = s.currentTask := by injection ho
      refine ⟨rfl, fun _ => hkt.user_nowhere ?_ (Function.update_self _ _ _)⟩
      exact (hk.run hcur).1
  | woken hcur hnest hf ht =>
      rename_i ev p tw
      exfalso
      cases ev <;> injection ho with _ hcall hret
      · exact hr (hret ▸ rfl)
      all_goals cases hcall
  | _ => cases ho

/-- A post that finds the counter at its limit changes nothing. -/
theorem post_overflow {a : Action} {h : Nat} {r : Ret}
    (hm : Move rule s a t (.returned h (.semPost (some e)) r)) (hr : r.code = .errSemOvf) :
    t = s := by
  generalize ho : Obs.returned h (.semPost (some e)) r = o at hm
  have hwake : ∀ {oc : Outcome}, oc = s.afterWake RetCode.ok.ret →
      oc ≠ .returned r ∧ oc ≠ .switched r := by
    rintro oc rfl
    constructor <;>
    · intro h
      rcases afterWake_cases (r := RetCode.ok.ret) s with h' | h' <;> rw [h'] at h <;> cases h
      cases hr
  cases hm with
  | returned ha he =>
      cases ho
      rcases he.semPost_cases with ⟨rfl, -⟩ | ⟨-, -, h⟩ | ⟨-, -, h⟩
      · rfl
      · exact absurd rfl (hwake h).1
      · cases h
        cases hr
  | switched ha he =>
      cases ho
      rcases he.semPost_cases with ⟨-, r', h, -⟩ | ⟨-, -, h⟩ | ⟨-, -, h⟩
      · cases h
      · exact absurd rfl (hwake h).2
      · cases h
  | timedOut =>
      rename_i ev _ _ _ _ _ _
      cases ev <;> cases ho
  | woken =>
      rename_i ev _ _ _ _ _ _
      cases ev <;> cases ho
  | _ => cases ho

/-! ### Conservation -/

/-- **Conservation of tokens.** From the creation of a counting semaphore on, and as long
as it is not deleted: its first tokens and those of the posts that returned `OK` are in
its count, with the pends that returned `OK`, and with the tasks a post has selected
whose pend has not returned. A pend that fails takes none and leaves its caller in no
list, a post that overflows changes nothing, and nobody waits while tokens are left. -/
theorem tokens_conserved {tr tr' : Trace} {n : UInt8}
    (hr : RunFromInit (Disciplined NestedRelease) tr s)
    (hcreate : s.step (.call (.semCreate n)) =
      some (t, .returned s.caller (.semCreate n) ⟨.allocEventOk, .event (.sem e)⟩))
    (hrun : Run Kernel.step (fun v a => Disciplined NestedRelease v a ∧
      a ≠ .call (.semDelete (some e))) t tr' u) :
    n.toNat + (ledger e tr').okPosts = (u.semTable e).osEventCount + (ledger e tr').okPends +
      ((ledger e tr').selected u e).card ∧
    (0 < (u.semTable e).osEventCount → u.waiting (.sem e) = ∅) ∧
    (∀ a h timeWait r v, Disciplined NestedRelease u a →
      u.step a = some (v, .returned h (.semPend (some e) timeWait) r) → r.code ≠ .ok →
      v.semTable e = u.semTable e ∧
        (h ≠ 0 → (∀ ev, v.prio h ∉ v.waiting ev) ∧ ∀ xs, v.delayList.IsList xs → h ∉ xs)) ∧
    (∀ a h r v, Disciplined NestedRelease u a →
      u.step a = some (v, .returned h (.semPost (some e)) r) → r.code = .errSemOvf → v = u) := by
  have hk := run_inv hr
  have hkt : KernelInv t := step_inv hk (a := .call (.semCreate n)) trivial hcreate
  obtain ⟨hku, hsi⟩ : KernelInv u ∧ SemInv u e n.toNat (ledger e tr') := by
    refine hrun.induction_on (P := fun tr v => KernelInv v ∧ SemInv v e n.toNat (ledger e tr))
      ⟨hkt, ?_⟩ ?_
    · rw [createSem_spec (c := .semCreate n) rfl hcreate]
      exact .created s e _
    · rintro tr v a w o - ⟨hkv, hsv⟩ ⟨hd, hdel⟩ hstep
      have hm := hkv.move hd hstep
      rw [ledger_snoc]
      exact ⟨move_inv hkv hm, hsv.step hkv hm hdel⟩
  refine ⟨hsi.conserved, hsi.count_wait, ?_, ?_⟩
  · intro a h tw r v hd hstep hne
    exact pend_failed hku (hku.move hd hstep) hne
  · intro a h r v hd hstep hov
    exact post_overflow (hku.move hd hstep) hov

/-- Task 2 takes the token and pends again; its timeout expires, and before it runs a
post selects it. -/
def lateTokenScript : List Action :=
  [.brtosStart, .call (.semPend (some 0) 0), .call (.semPend (some 0) 1), .intEnter, .tick,
    .call (.semPost (some 0))]

set_option maxRecDepth 20000 in
theorem tokens_conserved_lateToken :
    let s := Run.after Kernel.step (Kernel.init Config.exampleConfig)
      [.call (.installTask false 256 2), .call (.installTask false 256 3)]
    let t := Run.after Kernel.step s [.call (.semCreate 1)]
    let tr := Run.traceOf Kernel.step t lateTokenScript
    let u := Run.after Kernel.step t lateTokenScript
    (ledger 0 tr).selected u 0 = {2} ∧ (ledger 0 tr).okPosts = 1 ∧
      1 + (ledger 0 tr).okPosts = (u.semTable 0).osEventCount + (ledger 0 tr).okPends +
        ((ledger 0 tr).selected u 0).card :=
  ⟨by decide +kernel, by decide +kernel,
    (tokens_conserved (n := 1) (Run.of_admits (by decide +kernel))
      (Run.step_of_traceOf (by decide +kernel)) (Run.of_admits (by decide +kernel))).1⟩

end Brtos
