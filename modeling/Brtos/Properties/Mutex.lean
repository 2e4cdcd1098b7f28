import Brtos.Properties.Ceiling

/-!
# Brtos.Properties.Mutex

**Mutual exclusion and hand-off.**

A task is a *holder* of a mutex from an acquire that returned `OK` to its next
release that returns `OK`; this is read off the trace of an execution (`Holder`).
The holders of the trace are the tasks whose history has the mutex, and the
history has what `OSEventOwner` says, so there is at most one.

A release with waiters writes the best waiter into `OSEventOwner` while that task
is still suspended. From then on only the task's own continuation can end its
acquire, and it returns `OK` even if the tick has expired its timeout: its
wait-list bit is gone (`HandedTo`).
-/

namespace Brtos

open Bits Kernel

variable {cfg : Config} {s t u : Kernel cfg}

/-! ### One holder at a time -/

/-- What an observation says about task `h` holding mutex `m`, given whether it did
before: an acquire that returns `OK` makes it a holder, a release that returns `OK`
ends that. -/
def Obs.holds (h m : Nat) (before : Bool) : Obs → Bool
  | .returned h' (.mutexAcquire (some m') _) r =>
    if h' = h ∧ m' = m ∧ r.code = .ok then true else before
  | .returned h' (.mutexRelease (some m')) r =>
    if h' = h ∧ m' = m ∧ r.code = .ok then false else before
  | _ => before

/-- Task `h` is a holder of mutex `m` after the trace. -/
def Holder (h m : Nat) (tr : Trace) : Bool :=
  tr.foldl (fun before x => x.2.holds h m before) false

theorem holder_snoc (h m : Nat) (tr : Trace) (x : Action × Obs) :
    Holder h m (tr ++ [x]) = x.2.holds h m (Holder h m tr) := by
  simp [Holder]

/-- The history of held mutexes follows what the step shows. -/
def HeldFollows (s t : Kernel cfg) (o : Obs) : Prop :=
  ∀ h m, m ∈ t.held h ↔ o.holds h m (decide (m ∈ s.held h)) = true

theorem HeldFollows.same {o : Obs} (hheld : t.held = s.held) (ho : ∀ h m b, o.holds h m b = b) :
    HeldFollows s t o := by
  intro h m
  rw [hheld, ho, decide_eq_true_eq]

theorem holds_of_isError {h h' m : Nat} {b : Bool} {c : Call} {r : Ret}
    (hr : r.code.isError = true) : (Obs.returned h' c r).holds h m b = b := by
  have hne : r.code ≠ .ok := by
    intro h0
    rw [h0] at hr
    cases hr
  cases c with
  | mutexAcquire m' tw => cases m' <;> simp [Obs.holds, hne]
  | mutexRelease m' => cases m' <;> simp [Obs.holds, hne]
  | _ => rfl

/-- The running task's acquire of `m` returns `OK` and puts it on the stack. -/
theorem HeldFollows.acquired {m timeWait : Nat}
    (hheld : t.held = Function.update s.held s.currentTask (m :: s.held s.currentTask)) :
    HeldFollows s t (.returned s.currentTask (.mutexAcquire (some m) timeWait) RetCode.ok.ret) := by
  intro h m'
  rw [hheld, Function.update_apply]
  by_cases heq : h = s.currentTask
  · subst heq
    by_cases hm : m = m'
    · simp [Obs.holds, hm]
    · simp [Obs.holds, hm, Ne.symm hm]
  · simp [Obs.holds, heq, Ne.symm heq]

/-- The running task's release of `m` returns `OK` and takes it off the stack. -/
theorem HeldFollows.released {m : Nat} (hnd : (s.held s.currentTask).Nodup)
    (hheld : t.held = Function.update s.held s.currentTask ((s.held s.currentTask).erase m)) :
    HeldFollows s t (.returned s.currentTask (.mutexRelease (some m)) RetCode.ok.ret) := by
  intro h m'
  rw [hheld, Function.update_apply]
  by_cases heq : h = s.currentTask
  · subst heq
    rw [if_pos rfl, hnd.mem_erase_iff]
    by_cases hm : m = m'
    · simp [Obs.holds, hm]
    · simp [Obs.holds, hm, Ne.symm hm]
  · simp [Obs.holds, heq, Ne.symm heq]

/-- A new task holds nothing, and nobody was in its slot before. -/
theorem StackInv.held_new (hst : StackInv s) {i : Nat} (hfree : s.freeTcb = some i) :
    Function.update s.held (i + 1) [] = s.held := by
  have h0 := hst.absent (TableInv.not_installed_of_free hfree)
  exact (congrArg (Function.update s.held (i + 1)) h0.symm).trans (Function.update_eq_self _ _)

/-- Every call that returns leaves the history as what it returns says. -/
theorem effect_held (hk : KernelInv s) (hst : StackInv s) {c : Call} {oc : Outcome} {r : Ret}
    (hoc : oc = .returned r ∨ oc = .switched r) (he : Effect LifoRelease s c u oc) :
    HeldFollows s u (.returned s.caller c r) := by
  have hcaller : s.inTask = true → s.caller = s.currentTask := fun h => if_pos (inTask_iNesting h)
  have hret : ∀ {r' : Ret}, Outcome.returned r' = .returned r ∨
      Outcome.returned r' = .switched r → r' = r := by
    rintro r' (h | h)
    · cases h
      rfl
    · cases h
  cases he with
  | refused hr =>
      cases hret hoc
      exact .same rfl fun _ _ _ => holds_of_isError hr
  | installed hwho hp hle hpv hfree hfit => exact .same (hst.held_new hfree) fun _ _ _ => rfl
  | uninstalledDelayed =>
      -- in the delay list or not, an uninstall changes nobody's history
      exact .same (by split <;> rfl) fun _ _ _ => rfl
  | blocked hb =>
      refine .same rfl fun _ _ _ => ?_
      cases c <;> first | rfl | cases hb
  | semCreated hc =>
      rcases hc with ⟨_, rfl, -⟩ | ⟨_, rfl, -⟩
      · exact .same rfl fun _ _ _ => rfl
      · exact .same rfl fun _ _ _ => rfl
  | queueRead hc =>
      rcases hc with rfl | ⟨_, rfl⟩
      · exact .same rfl fun _ _ _ => rfl
      · exact .same rfl fun _ _ _ => rfl
  | queueWritten hc =>
      rcases hc with rfl | ⟨rfl, -⟩
      · exact .same rfl fun _ _ _ => rfl
      · exact .same rfl fun _ _ _ => rfl
  | mutexCreated =>
      refine .same ?_ fun _ _ _ => rfl
      dsimp only [setMutex, allocEvent, setEvent]
      split <;> rfl
  | reacquired hwho hev hown =>
      -- the caller is outside the kernel, so it holds what it owns
      rename_i m tw
      cases hret hoc
      have hcall := hk.calling hwho
      have hheld := hst.held_of_owner hcall.installed
        (fun p tw hf => by rw [hcall.frame] at hf; cases hf) hown
      rw [hcaller hwho]
      intro h m'
      by_cases heq : s.currentTask = h ∧ m = m'
      · obtain ⟨rfl, rfl⟩ := heq
        simp [Obs.holds, hheld]
      · have hne : ¬ (s.currentTask = h ∧ m = m' ∧ RetCode.ok.ret.code = .ok) :=
          fun h0 => heq ⟨h0.1, h0.2.1⟩
        rw [Obs.holds, if_neg hne, decide_eq_true_eq]
  | acquired hwho =>
      rename_i m tw _ _ _
      cases hret hoc
      rw [hcaller hwho]
      refine .acquired ?_
      obtain ⟨-, -, -, hheld⟩ := takeCeiling_fields (s.setMutex m fun c =>
        { c with osEventState := .busyResource, osEventOwner := s.currentTask }) m
        (s.prio s.currentTask)
      obtain ⟨-, -, -, -, -, hcu, -⟩ := takeCeiling_same (s.setMutex m fun c =>
        { c with osEventState := .busyResource, osEventOwner := s.currentTask }) m
        (s.prio s.currentTask)
      dsimp only [takeMutex, noteAcquired]
      rw [hheld, hcu]
      rfl
  | released hwho =>
      rename_i m _ _ _ _
      cases hret hoc
      rw [hcaller hwho]
      refine .released (hst.nodup (hk.calling hwho).installed) ?_
      obtain ⟨-, -, -, -, hcu, -⟩ := TableInv.restorePriority_same s m
      unfold giveUp freeMutex
      dsimp only [noteReleased, setMutex]
      split <;> (dsimp only [setPriorityVector]; rw [restorePriority_held, hcu])
  | handedOff hwho =>
      rename_i m _ _ _ _
      have hr : r = RetCode.ok.ret := by
        rcases hoc with h | h <;> cases h
        rfl
      rw [hcaller hwho, hr]
      refine .released (hst.nodup (hk.calling hwho).installed) ?_
      obtain ⟨-, -, -, -, hcu, -⟩ := TableInv.restorePriority_same s m
      unfold giveUp
      rw [handOff_eq]
      dsimp only
      rw [restorePriority_held, hcu]
  | waited => rcases hoc with h | h <;> cases h
  | queueSelected =>
      rw [SuspendInv.wakeWaiter_eq]
      exact .same rfl fun _ _ _ => rfl
  | _ => exact .same rfl fun _ _ _ => rfl

/-- The step lemma of the history. -/
theorem move_held (hk : KernelInv s) (hst : StackInv s) {a : Action} {o : Obs}
    (hm : Move LifoRelease s a t o) : HeldFollows s t o := by
  cases hm with
  | returned ha he => exact effect_held hk hst (Or.inl rfl) he
  | switched ha he => exact fun h m => effect_held hk hst (Or.inr rfl) he h m
  | suspended ha he =>
      refine .same ?_ fun _ _ _ => rfl
      generalize hoc : Outcome.suspended = oc at he
      cases he with
      | uninstalledDelayed => split <;> rfl
      | waited => rw [SuspendInv.waitEvent_eq]
      | installed | mutexCreated | acquired | released | handedOff => cases hoc
      | _ => rfl
  | started hmain hfree hu =>
      subst hu
      exact .same (hst.held_new hfree) fun _ _ _ => rfl
  | timedOut hcur hnest hf ht =>
      rename_i ev p tw
      refine .same rfl fun _ _ _ => holds_of_isError ?_
      cases ev <;> rfl
  | woken hcur hnest hf ht =>
      rename_i ev p tw
      obtain ⟨ctx, dl, ops, heq, -⟩ := cancelTimeout_eq s tw
      rw [heq]
      cases ev with
      | mutex m =>
          refine .acquired ?_
          obtain ⟨-, -, -, hheld⟩ := takeCeiling_fields
            { s with contextTask := ctx, delayList := dl, delayOps := ops } m p
          obtain ⟨-, -, -, -, -, hcu, -⟩ := takeCeiling_same
            { s with contextTask := ctx, delayList := dl, delayOps := ops } m p
          dsimp only [Kernel.finishPend, setFrame, noteAcquired]
          rw [hheld, hcu]
      | _ => exact .same rfl fun _ _ _ => rfl
  | tick hnest ht =>
      obtain ⟨xs, hs⟩ := hk.suspend
      have hsame := (tick_context hk hs ht).2.same
      exact .same (by rw [hsame]; rfl) fun _ _ _ => rfl
  | _ => exact .same rfl fun _ _ _ => rfl

/-- The holders of the trace are the tasks whose history has the mutex. -/
theorem holder_iff {tr : Trace} (hr : RunFromInit (Disciplined LifoRelease) tr s) (h m : Nat) :
    Holder h m tr = true ↔ m ∈ s.held h := by
  have hinv := hr.induction_on (P := fun tr s => KernelInv s ∧ StackInv s ∧
    ∀ h m, Holder h m tr = true ↔ m ∈ s.held h) ⟨init_inv, init_stack, fun h m => ?_⟩ ?_
  · exact hinv.2.2 h m
  · constructor
    · intro h0
      cases h0
    · intro h0
      cases h0
  · rintro tr s a t o - ⟨hk, hst, hh⟩ hd hs
    refine ⟨step_inv hk (hd.nested hk hst hs) hs, move_stack hk hst (hk.move hd hs), fun h m => ?_⟩
    rw [holder_snoc, move_held hk hst (hk.move hd hs) h m]
    have hb : Holder h m tr = decide (m ∈ s.held h) := by
      rw [Bool.eq_iff_iff, hh, decide_eq_true_eq]
    rw [hb]

/-! ### The hand-off -/

/-- Task `h` is inside an acquire of `m` and a release has made it the owner. -/
structure HandedTo (s : Kernel cfg) (h m p timeWait : Nat) : Prop where
  installed : s.Installed h
  frame : s.frame h = .pend (.mutex m) p timeWait
  owner : s.owner m = h

/-- When such a task runs, its acquire returns `OK`, whatever its timeout did. -/
theorem HandedTo.resume_ok (hk : KernelInv s) {h m p timeWait : Nat}
    (hh : HandedTo s h m p timeWait) (hcur : s.currentTask = h) (hnest : s.iNesting = 0) :
    ∃ t, s.step .resume =
      some (t, .returned h (.mutexAcquire (some m) timeWait) RetCode.ok.ret) := by
  have hsel := (hk.handoff.owner_iff hh.installed hh.frame).mp hh.owner
  have hf : s.frame s.currentTask = .pend (.mutex m) p timeWait := by rw [hcur, hh.frame]
  have hto : ¬ s.TimedOut (.mutex m) p timeWait := fun ht => hsel ht.2.2
  have hcur0 : s.currentTask ≠ 0 := by rw [hcur]; exact hh.installed.pos
  refine ⟨((s.cancelTimeout timeWait).finishPend (.mutex m) p).1.setFrame s.currentTask .user, ?_⟩
  simp only [step, stepResume, if_pos (And.intro hcur0 hnest), hf]
  rw [pendResume_of_not_timedOut hto, hcur]
  rfl

/-- The step lemma of the hand-off: the task stays the owner until its own
continuation, and that returns `OK`. -/
theorem move_handedTo {rule : Kernel cfg → Nat → Prop} (hk : KernelInv s) {a : Action} {o : Obs}
    {h m p timeWait : Nat} (hh : HandedTo s h m p timeWait) (hm : Move rule s a t o) :
    HandedTo t h m p timeWait ∨
      (a = .resume ∧ o = .returned h (.mutexAcquire (some m) timeWait) RetCode.ok.ret) := by
  obtain ⟨hi, hf, ho⟩ := hh
  have hfu : s.frame h ≠ .user := by rw [hf]; simp
  have hown : t.owner m = h := by
    by_cases hcall : ∃ c, a = .call c
    · have hne : s.inTask = true → s.owner m ≠ s.currentTask := by
        intro hwho hcur
        rw [← ho, hcur, inTask_frame hwho] at hf
        cases hf
      have h0 : s.owner m ≠ 0 := by rw [ho]; exact hi.pos
      cases hm with
      | returned ha he => rw [← ho, Kernel.owner, effect_mutex hk.table he h0 hne]
      | switched ha he =>
          have hmt := effect_mutex hk.table he h0 hne
          exact (congrArg BRTOSMutex.osEventOwner hmt).trans ho
      | suspended ha he =>
          have hmt := effect_mutex hk.table he h0 hne
          exact (congrArg BRTOSMutex.osEventOwner hmt).trans ho
      | _ => simp at hcall
    · exact (move_table hk hm (fun c hc => hcall ⟨c, hc⟩) m).1.trans ho
  by_cases hres : a = .resume → h ≠ s.currentTask
  · left
    by_cases htick : a = .tick
    · subst htick
      cases hm with
      | tick hnest ht =>
          obtain ⟨hinst, hfr, -⟩ := tick_frame hk ht
          exact ⟨(hinst h).mpr hi, by rw [hfr]; exact hf, hown⟩
    · have hkeep := move_keeps hm hi hfu (Or.inl (by rw [hf]; rfl)) hres htick
      exact ⟨hkeep.installed, hkeep.frame.trans hf, hown⟩
  · -- its own continuation: the release took it out of the wait list
    right
    push Not at hres
    obtain ⟨rfl, hcur⟩ := hres
    rw [hcur] at hf
    cases hm with
    | delayEnded _ _ hf' =>
        rw [hf] at hf'
        cases hf'
    | timedOut _ _ hf' ht =>
        rw [hf] at hf'
        cases hf'
        rw [hcur] at hi ho
        exact absurd ht.2.2 ((hk.handoff.owner_iff hi hf).mp ho)
    | woken _ _ hf' ht =>
        rw [hf] at hf'
        cases hf'
        rw [hcur]
        exact ⟨rfl, rfl⟩

/-- The run lemma of the hand-off. -/
theorem run_handedTo {tr : Trace} {h m p timeWait : Nat} (hk : KernelInv s) (hst : StackInv s)
    (hh : HandedTo s h m p timeWait) (hr : Run Kernel.step (Disciplined LifoRelease) s tr t) :
    KernelInv t ∧ (HandedTo t h m p timeWait ∨
      (.resume, .returned h (.mutexAcquire (some m) timeWait) RetCode.ok.ret) ∈ tr) := by
  have hinv := hr.induction_on (P := fun tr t => KernelInv t ∧ StackInv t ∧
    (HandedTo t h m p timeWait ∨
      (.resume, .returned h (.mutexAcquire (some m) timeWait) RetCode.ok.ret) ∈ tr))
    ⟨hk, hst, Or.inl hh⟩ ?_
  · exact ⟨hinv.1, hinv.2.2⟩
  · rintro tr s a t o - ⟨hk, hst, hor⟩ hd hs
    refine ⟨step_inv hk (hd.nested hk hst hs) hs, move_stack hk hst (hk.move hd hs), ?_⟩
    rcases hor with hh | hmem
    · rcases move_handedTo hk hh (hk.move hd hs) with hh' | ⟨rfl, rfl⟩
      · exact Or.inl hh'
      · exact Or.inr (by simp)
    · exact Or.inr (List.mem_append_left _ hmem)

/-! ### Acquires that fail -/

/-- An acquire that returns at once without the mutex changed nothing, and its
caller is a task that does not own the mutex. -/
theorem mutexAcquire_failed {m timeWait : Nat} {oc : Outcome}
    (ha : (Call.mutexAcquire (some m) timeWait).allowed s = true)
    (hex : s.exec (.mutexAcquire (some m) timeWait) = some (u, oc)) :
    oc ≠ .switched RetCode.exitByNoResourceAvailable.ret ∧
      (oc = .returned RetCode.exitByNoResourceAvailable.ret →
        u = s ∧ s.inTask = true ∧ s.owner m ≠ s.currentTask) := by
  simp only [exec, osMutexAcquire, checkPend] at hex
  split at hex
  · cases hex
    simp
  · rename_i hnest
    have htask : s.inTask = true := by
      rcases Bool.or_eq_true_iff.mp ha with h' | h'
      · exact h'
      · simp only [inInterrupt, Bool.and_eq_true, decide_eq_true_eq] at h'
        exact absurd ⟨h'.2, h'.1⟩ hnest
    simp only [checkEvent] at hex
    split at hex
    · cases hex
      simp
    · simp only [Kernel.mutexAcquire] at hex
      split at hex
      · cases hex
        simp
      · rename_i hown
        split at hex
        · cases hex
          simp
        · split at hex
          · cases hex
            exact ⟨by simp, fun _ => ⟨rfl, htask, Ne.symm hown⟩⟩
          · cases hex
            simp

/-- An acquire that gives up leaves its caller without the mutex and outside the
wait list. -/
theorem acquire_failed {rule : Kernel cfg → Nat → Prop} (hk : KernelInv s) {a : Action} {o : Obs}
    {h m timeWait : Nat} (hd : Disciplined rule s a) (hs : s.step a = some (t, o))
    (ho : o = .returned h (.mutexAcquire (some m) timeWait)
      RetCode.exitByNoResourceAvailable.ret) :
    t.owner m ≠ h ∧ t.prio h ∉ t.waiting (.mutex m) := by
  obtain ⟨xs, hsus⟩ := hk.suspend
  have hmove := hk.move hd hs
  by_cases hcall : ∃ c, a = .call c
  · -- refused at once: the caller is outside the kernel and not the owner
    obtain ⟨c, rfl⟩ := hcall
    obtain ⟨ha, u, oc, hex, hto⟩ := step_call_inv hs
    rcases hto with ⟨r, rfl, rfl, rfl⟩ | ⟨task, -, rfl, ⟨r, rfl, rfl⟩ | ⟨rfl, rfl⟩⟩
    · cases ho
      obtain ⟨rfl, htask, hown⟩ := (mutexAcquire_failed ha hex).2 rfl
      have hcaller : t.caller = t.currentTask := if_pos (inTask_iNesting htask)
      have hcl := hk.calling htask
      rw [hcaller]
      exact ⟨hown, hsus.user_not_waiting hk.table hcl.installed hcl.frame _⟩
    · cases ho
      exact absurd rfl (mutexAcquire_failed ha hex).1
    · cases ho
  · cases hmove with
    | timedOut hcur hnest hf ht =>
        rename_i ev p tw
        obtain ⟨hi, -⟩ := hk.run hcur
        cases ev with
        | mutex m' =>
            cases ho
            have hp := (hsus.pend_spec hi hf).1
            refine ⟨fun h0 => (hk.handoff.owner_iff hi hf).mp h0 ht.2.2, ?_⟩
            have hw : ((s.leaveWaitList (.mutex m) p).setFrame s.currentTask .user).waiting
                (.mutex m) = (s.waiting (.mutex m)).erase p :=
              (waiting_leaveWaitList (.mutex m) (.mutex m) p).trans (if_pos rfl)
            rw [hw]
            intro hmem
            exact (Finset.mem_erase.mp hmem).1 hp
        | _ => cases ho
    | woken hcur hnest hf ht =>
        rename_i ev p tw
        cases ev <;> cases ho
    | returned | switched | suspended => simp at hcall
    | _ => cases ho

/-! ### Mutual exclusion and hand-off -/

/-- A release that finds waiters and is not refused is the hand-off. -/
theorem release_handOff {rule : Kernel cfg → Nat → Prop} {m : Nat} {oc : Outcome}
    (he : Effect rule s (.mutexRelease (some m)) u oc)
    (hw : (s.event (.mutex m)).osEventWait ≠ 0)
    (hok : ∀ r, oc = .returned r → r.code.isError = false) : u = (s.giveUp m).handOff m := by
  generalize hc : Call.mutexRelease (some m) = c at he
  cases he with
  | refused hr =>
      have := hok _ rfl
      rw [hr] at this
      cases this
  | blocked hb =>
      subst hc
      cases hb
  | waited =>
      rename_i ev tw _ _ _ _
      cases ev <;> cases hc
  | semCreated hcall =>
      subst hc
      rcases hcall with ⟨_, h, -⟩ | ⟨_, h, -⟩ <;> cases h
  | queueRead hcall =>
      subst hc
      rcases hcall with h | ⟨_, h⟩ <;> cases h
  | queueWritten hcall =>
      subst hc
      rcases hcall with h | ⟨h, -⟩ <;> cases h
  | released _ _ _ _ hw0 =>
      cases hc
      exact absurd hw0 hw
  | handedOff =>
      cases hc
      rfl
  | _ => cases hc

/-- What a release with waiters does to the owners: the task it wakes, and no other,
becomes the owner of this mutex, and of no other mutex. -/
theorem handOff_owner (hk : KernelInv s) {m h : Nat}
    (hw : WakesBest s ((s.giveUp m).handOff m) (.mutex m) h) :
    ((s.giveUp m).handOff m).owner m = h ∧
      ∀ m', m' ≠ m → ((s.giveUp m).handOff m).owner m' = s.owner m' := by
  have hsa : saScheduler (s.event (.mutex m)).osEventWaitList = s.prio h :=
    le_antisymm (hw.best _ (saScheduler_mem ⟨_, hw.waiting⟩)) (le_saScheduler hw.waiting)
  refine ⟨?_, fun m' hne => ?_⟩
  · rw [Kernel.owner, handedOff_table, Function.update_self, hsa]
    exact hk.table.pv_prio hw.installed
  · rw [Kernel.owner, handedOff_table, Function.update_of_ne hne]

/-- A release by a task that is not the owner. -/
theorem release_not_owner {m : Nat} {o : Obs} (ha : s.Allocated (.mutex m))
    (hnest : s.iNesting = 0) (hown : s.owner m ≠ s.currentTask)
    (hs : s.step (.call (.mutexRelease (some m))) = some (t, o)) :
    t = s ∧ o = .returned s.currentTask (.mutexRelease (some m)) RetCode.errEventOwner.ret := by
  have hcaller : s.caller = s.currentTask := if_pos hnest
  obtain ⟨-, u, oc, hex, hto⟩ := step_call_inv hs
  simp only [exec, osMutexRelease, checkPend, hnest, Nat.lt_irrefl, and_false, if_false,
    checkEvent_allocated ha, Kernel.mutexRelease, if_pos hown] at hex
  cases hex
  rcases hto with ⟨r, hr, rfl, rfl⟩ | ⟨task, -, -, ⟨r, hr, -⟩ | ⟨hr, -⟩⟩
  · cases hr
    exact ⟨rfl, by rw [hcaller]⟩
  · cases hr
  · cases hr

/-- **Mutual exclusion and hand-off**, in every execution with last-in-first-out
releases: a mutex has at most one holder; it is available exactly when it has no
owner; a release by another task is refused; a release with waiters makes the best
waiter the owner, whose acquire then returns `OK` whenever it runs again; and an
acquire that gives up leaves its task without the mutex and without its place in
the wait list. -/
theorem mutex_exclusion_and_hand_off {tr : Trace}
    (hr : RunFromInit (Disciplined LifoRelease) tr s) :
    (∀ m h h', Holder h m tr = true → Holder h' m tr = true → s.owner m = h ∧ h = h') ∧
    (∀ m, s.Allocated (.mutex m) →
      ((s.mutexTable m).osEventState = .availableResource ↔ s.owner m = 0)) ∧
    (∀ m t o, s.Allocated (.mutex m) → s.iNesting = 0 → s.owner m ≠ s.currentTask →
      s.step (.call (.mutexRelease (some m))) = some (t, o) →
      t = s ∧ o = .returned s.currentTask (.mutexRelease (some m)) RetCode.errEventOwner.ret) ∧
    (∀ m t o, s.owner m = s.caller → (s.waiting (.mutex m)).Nonempty →
      Disciplined LifoRelease s (.call (.mutexRelease (some m))) →
      s.step (.call (.mutexRelease (some m))) = some (t, o) →
      ∃ h p timeWait, WakesBest s t (.mutex m) h ∧ t.owner m = h ∧
        (∀ m', m' ≠ m → t.owner m' = s.owner m') ∧
        ∀ tr' s', Run Kernel.step (Disciplined LifoRelease) t tr' s' →
          (HandedTo s' h m p timeWait ∧ (s'.currentTask = h → s'.iNesting = 0 →
            ∃ t', s'.step .resume =
              some (t', .returned h (.mutexAcquire (some m) timeWait) RetCode.ok.ret))) ∨
          (.resume, .returned h (.mutexAcquire (some m) timeWait) RetCode.ok.ret) ∈ tr') ∧
    (∀ a t o h m timeWait, Disciplined LifoRelease s a → s.step a = some (t, o) →
      o = .returned h (.mutexAcquire (some m) timeWait) RetCode.exitByNoResourceAvailable.ret →
      t.owner m ≠ h ∧ t.prio h ∉ t.waiting (.mutex m)) := by
  obtain ⟨hk, hst⟩ := lifo_run hr
  obtain ⟨xs, hsus⟩ := hk.suspend
  have howner : ∀ m h, Holder h m tr = true → s.owner m = h := by
    intro m h hh
    have hm := (holder_iff hr h m).mp hh
    by_cases hi : s.Installed h
    · exact hst.owner_of_held hi hm
    · rw [hst.absent hi] at hm
      cases hm
  refine ⟨?_, fun m ha => hk.table.state_owner ha, ?_, ?_, ?_⟩
  · exact fun m h h' hh hh' => ⟨howner m h hh, (howner m h hh).symm.trans (howner m h' hh')⟩
  · exact fun m t o ha hnest hown hs => release_not_owner ha hnest hown hs
  · intro m t o hown hne hd hs
    have hw : (s.event (.mutex m)).osEventWait ≠ 0 := by
      rw [Ne, hsus.wait_eq_zero]
      exact Finset.nonempty_iff_ne_empty.mp hne
    have hn := hd.nested hk hst hs
    obtain ⟨ha, u, oc, hex, hto⟩ := step_call_inv hs
    have he := hk.effect ha hn hex
    have hok := (signal_accepts hk.toCoreInv ha rfl hw hex).1 hown
    obtain ⟨h, hwb⟩ := effect_signal hk he rfl hw hok
    obtain ⟨tw, hf⟩ := hwb.pending
    obtain rfl := release_handOff he hw hok
    obtain ⟨ho, hother⟩ := handOff_owner hk hwb
    have hkt := step_inv hk hn hs
    have hstt := move_stack hk hst (hk.move hd hs)
    have htask : ∃ task, t = { (s.giveUp m).handOff m with currentTask := task } := by
      rcases hto with ⟨r, -, rfl, -⟩ | ⟨task, -, rfl, -⟩
      · exact ⟨_, rfl⟩
      · exact ⟨task, rfl⟩
    obtain ⟨task, rfl⟩ := htask
    have hi : ((s.giveUp m).handOff m).Installed h := by
      have hne : ((s.giveUp m).handOff m).owner m ≠ 0 := by rw [ho]; exact hwb.installed.pos
      have := (hkt.table.owner_installed (m := m) hne).2
      rwa [ho] at this
    have hh : HandedTo { (s.giveUp m).handOff m with currentTask := task } h m (s.prio h) tw :=
      ⟨hi, (congrFun hwb.frame h).trans hf, ho⟩
    refine ⟨h, s.prio h, tw, hwb.setCurrent task, ho, hother, fun tr' s' hr' => ?_⟩
    obtain ⟨hk', hor⟩ := run_handedTo hkt hstt hh hr'
    rcases hor with hh' | hmem
    · exact Or.inl ⟨hh', fun hcur hnest => hh'.resume_ok hk' hcur hnest⟩
    · exact Or.inr hmem
  · exact fun a t o h m tw hd hs ho => acquire_failed hk hd hs ho

set_option maxRecDepth 20000 in
theorem mutex_exclusion_and_hand_off_waiting :
    let tr := Run.traceOf Kernel.step (Kernel.init Config.exampleConfig) waitingScript
    let s := Run.after Kernel.step (Kernel.init Config.exampleConfig) waitingScript
    Holder 2 0 tr = true ∧ Holder 1 0 tr = false ∧ s.waiting (.mutex 0) = {2} ∧
      (∀ h, Holder h 0 tr = true → h = 2) ∧
      ∀ t o, s.step (.call (.mutexRelease (some 0))) = some (t, o) →
        ∃ h, WakesBest s t (.mutex 0) h ∧ t.owner 0 = h := by
  intro tr s
  have hr : RunFromInit (Disciplined LifoRelease) tr s := Run.of_admits (by decide +kernel)
  have h2 : Holder 2 0 tr = true := by decide +kernel
  have hw : s.waiting (.mutex 0) = {2} := by decide +kernel
  refine ⟨h2, by decide +kernel, hw, fun h hh => ?_, fun t o hs => ?_⟩
  · exact ((mutex_exclusion_and_hand_off hr).1 0 h 2 hh h2).2
  · obtain ⟨h, p, tw, hwb, ho, -⟩ := (mutex_exclusion_and_hand_off hr).2.2.2.1 0 t o
      (by decide +kernel) (by rw [hw]; simp) (by decide +kernel) hs
    exact ⟨h, hwb, ho⟩

end Brtos
