import Brtos.Invariant.Step

/-!
# Brtos.Invariant.Frames

**What a step leaves alone.** A task that is suspended inside a call is touched by
four things only: the tick, a post or release that selects it, its own
continuation, and an uninstall. Every other step leaves its control block and its
frame as they are (`move_keeps`), whoever takes it. The same holds of any task whose
step it is not (`move_keeps_of_ne`).
-/

namespace Brtos

open Bits Kernel

variable {cfg : Config} {s t u : Kernel cfg} {rule : Kernel cfg → Nat → Prop}

/-- Task `h` is installed in `t`, in the same call and with the same control block
as in `s`. -/
structure Keeps (s t : Kernel cfg) (h : Nat) : Prop where
  installed : t.Installed h
  frame : t.frame h = s.frame h
  context : t.contextTask h = s.contextTask h

theorem Keeps.prio {h : Nat} (hk : Keeps s t h) : t.prio h = s.prio h := by
  rw [Kernel.prio, hk.context]

theorem Keeps.ttw {h : Nat} (hk : Keeps s t h) : t.ttw h = s.ttw h := by
  rw [Kernel.ttw, hk.context]

/-- The action does not uninstall `h`. -/
def NotUninstalling (h : Nat) (s : Kernel cfg) : Action → Prop
  | .call (.uninstallTask task _ _) => h ≠ if task = 0 then s.currentTask else task
  | _ => True

instance (h : Nat) (s : Kernel cfg) (a : Action) : Decidable (NotUninstalling h s a) := by
  unfold NotUninstalling
  split <;> infer_instance

/-! ### Control blocks of other tasks -/

theorem takeCeiling_context {h m p : Nat} (hne : h ≠ s.currentTask) :
    (s.takeCeiling m p).contextTask h = s.contextTask h := by
  unfold takeCeiling
  dsimp only
  split
  · exact Function.update_of_ne hne _ _
  · rfl

theorem restorePriority_context {h m : Nat} (hne : h ≠ s.currentTask) :
    (s.restorePriority m).contextTask h = s.contextTask h := by
  unfold restorePriority
  dsimp only
  split
  · exact Function.update_of_ne hne _ _
  · rfl

theorem cancelTimeout_context {h : Nat} (timeWait : Nat) (hne : h ≠ s.currentTask) :
    (s.cancelTimeout timeWait).contextTask h = s.contextTask h := by
  unfold cancelTimeout
  split
  · exact Function.update_of_ne hne _ _
  · rfl

theorem fillTcb_keeps {h i p a b : Nat} (hfree : s.freeTcb = some i) (hi : s.Installed h) :
    Keeps s (s.fillTcb i p a b) h := by
  have hne : h ≠ i + 1 := fun he => TableInv.not_installed_of_free hfree (he ▸ hi)
  exact ⟨(TableInv.installed_fillTcb (freeTcb_spec hfree).1 h).mpr (Or.inr hi),
    Function.update_of_ne hne _ _, Function.update_of_ne hne _ _⟩

theorem clearTcb_keeps {h task : Nat} (htask : task ≠ 0) (hi : s.Installed h) (hne : h ≠ task) :
    Keeps s (s.clearTcb task) h :=
  ⟨(TableInv.installed_clearTcb htask h).mpr ⟨hi, hne⟩, rfl, Function.update_of_ne hne _ _⟩

/-! ### Calls -/

/-- A call touches no task but its caller and the one it uninstalls, and that one is not
inside a pend. -/
theorem effect_keeps_of_ne {c : Call} {oc : Outcome} {h : Nat}
    (he : Effect rule s c u oc) (hi : s.Installed h) (hother : s.inTask = true → h ≠ s.currentTask)
    (hun : (s.frame h).isPend = true ∨ NotUninstalling h s (.call c) ∨ u.Installed h) :
    Keeps s u h := by
  -- each of the three alternatives says that the call does not uninstall `h`
  have hgone : ∀ {k task : Nat} {off : Bool} {taskTimer : Option Nat} {v : Kernel cfg},
      task = (if k = 0 then s.currentTask else k) → s.Installed task →
      (s.frame task).isPend = false →
      ((s.frame h).isPend = true ∨ NotUninstalling h s (.call (.uninstallTask k off taskTimer)) ∨
        (v.clearTcb task).Installed h) → h ≠ task := by
    rintro k task off taskTimer v rfl hinst hnp hun rfl
    rcases hun with hp | hun | hi
    · rw [hnp] at hp
      cases hp
    · exact hun rfl
    · exact ((TableInv.installed_clearTcb hinst.pos _).mp hi).2 rfl
  cases he with
  | installed hwho hp hle hpv hfree hfit =>
      rename_i bytes p i a b c d heap
      obtain ⟨h1, h2, h3⟩ := fillTcb_keeps (p := p) (a := a) (b := b) hfree hi
      exact ⟨h1, h2, h3⟩
  | uninstalled htask hwho hinst hp hnp =>
      obtain ⟨h1, h2, h3⟩ := clearTcb_keeps hinst.pos hi (hgone htask hinst hnp hun)
      exact ⟨h1, h2, h3⟩
  | uninstalledDelayed htask hwho hinst hp hnp =>
      obtain ⟨h1, h2, h3⟩ := clearTcb_keeps hinst.pos hi (hgone htask hinst hnp hun)
      split
      · exact ⟨h1, h2, h3⟩
      · exact ⟨h1, h2, h3⟩
  | delayed hwho =>
      have hne := hother hwho
      rw [SuspendInv.startDelay_eq]
      exact ⟨hi, Function.update_of_ne hne _ _, Function.update_of_ne hne _ _⟩
  | waited hwho =>
      have hne := hother hwho
      rw [SuspendInv.waitEvent_eq]
      exact ⟨hi, Function.update_of_ne hne _ _, Function.update_of_ne hne _ _⟩
  | mutexCreated =>
      refine ⟨?_, ?_, ?_⟩ <;> dsimp only [setMutex, allocEvent, setEvent]
      · refine (installed_congr ?_ h).mpr hi
        dsimp only
        split <;> rfl
      · split <;> rfl
      · split <;> rfl
  | acquired hwho =>
      rename_i m tw _ _ _
      have hne := hother hwho
      obtain ⟨hta, hfr, -⟩ := takeCeiling_same (s.setMutex m fun c =>
        { c with osEventState := .busyResource, osEventOwner := s.currentTask }) m
        (s.prio s.currentTask)
      exact ⟨(installed_congr hta h).mpr hi, congrFun hfr h, takeCeiling_context hne⟩
  | released hwho =>
      rename_i m _ _ _ _
      obtain ⟨-, -, hta, -, -, -, hfr, -⟩ := TableInv.restorePriority_same s m
      obtain ⟨hsame, -⟩ := freeMutex_same (s.restorePriority m) m
      exact ⟨(installed_congr (hsame.taskAlloc.trans hta) h).mpr hi,
        congrFun (hsame.frame.trans hfr) h,
        (congrFun hsame.contextTask h).trans (restorePriority_context (hother hwho))⟩
  | handedOff hwho =>
      rename_i m _ _ _ _
      obtain ⟨-, -, hta, -, -, -, hfr, -⟩ := TableInv.restorePriority_same s m
      unfold giveUp
      rw [handOff_eq]
      exact ⟨(installed_congr hta h).mpr hi, congrFun hfr h, restorePriority_context (hother hwho)⟩
  | queueSelected =>
      rw [SuspendInv.wakeWaiter_eq]
      exact ⟨hi, rfl, rfl⟩
  | _ => exact ⟨hi, rfl, rfl⟩

/-- The caller of a call is outside the kernel. -/
theorem ne_caller {h : Nat} (hf : s.frame h ≠ .user) (hwho : s.inTask = true) :
    h ≠ s.currentTask := by
  rintro rfl
  exact hf (inTask_frame hwho)

/-- A task that is inside a pend after a call was inside it before, or is the caller
and has just begun to wait. -/
theorem effect_pend {c : Call} {oc : Outcome} {h p timeWait : Nat} {ev : Event}
    (he : Effect rule s c u oc) (hi : u.Installed h) (hf : u.frame h = .pend ev p timeWait) :
    (s.Installed h ∧ s.frame h = .pend ev p timeWait) ∨
      (s.inTask = true ∧ h = s.currentTask ∧ p = s.prio h ∧ s.Unavailable ev ∧
        u = s.waitEvent ev timeWait ∧ oc = .suspended) := by
  cases he with
  | installed hwho hp hle hpv hfree hfit =>
      rename_i bytes q i a b c d heap
      have hi' : (s.fillTcb i q a b).Installed h := hi
      rw [TableInv.installed_fillTcb (freeTcb_spec hfree).1] at hi'
      simp only [Kernel.fillTcb, Function.update_apply] at hf
      split at hf
      · cases hf
      · exact Or.inl ⟨hi'.resolve_left (by assumption), hf⟩
  | uninstalled htask hwho hinst =>
      exact Or.inl ⟨((TableInv.installed_clearTcb hinst.pos h).mp hi).1, hf⟩
  | uninstalledDelayed htask hwho hinst =>
      have hi' := ((TableInv.installed_clearTcb hinst.pos h).mp hi).1
      refine Or.inl ⟨?_, ?_⟩
      · split at hi' <;> exact hi'
      · rw [← hf]
        split <;> rfl
  | delayed hwho =>
      rw [SuspendInv.startDelay_eq] at hi hf
      simp only [Function.update_apply] at hf
      split at hf
      · cases hf
      · exact Or.inl ⟨hi, hf⟩
  | waited hwho hev htw hun =>
      have hi' : s.Installed h := by
        rw [SuspendInv.waitEvent_eq] at hi
        exact hi
      rw [SuspendInv.waitEvent_eq] at hf
      simp only [Function.update_apply] at hf
      split at hf
      · rename_i heq
        cases hf
        exact Or.inr ⟨hwho, heq, by rw [heq], hun, rfl, rfl⟩
      · exact Or.inl ⟨hi', hf⟩
  | mutexCreated =>
      rename_i q m _ _ _
      refine Or.inl ⟨?_, ?_⟩
      · refine (installed_congr (t := s) ?_ h).mpr hi
        dsimp only [setMutex, allocEvent, setEvent]
        split <;> rfl
      · rw [← hf]
        dsimp only [setMutex, allocEvent, setEvent]
        split <;> rfl
  | acquired hwho =>
      rename_i m tw _ _ _
      obtain ⟨hta, hfr, -⟩ := takeCeiling_same (s.setMutex m fun c =>
        { c with osEventState := .busyResource, osEventOwner := s.currentTask }) m
        (s.prio s.currentTask)
      exact Or.inl ⟨(installed_congr hta h).mp hi, (congrFun hfr h).symm.trans hf⟩
  | released hwho =>
      rename_i m _ _ _ _
      obtain ⟨-, -, hta, -, -, -, hfr, -⟩ := TableInv.restorePriority_same s m
      obtain ⟨hsame, -⟩ := freeMutex_same (s.restorePriority m) m
      exact Or.inl ⟨(installed_congr (hsame.taskAlloc.trans hta) h).mp hi,
        (congrFun (hsame.frame.trans hfr) h).symm.trans hf⟩
  | handedOff hwho =>
      rename_i m _ _ _ _
      obtain ⟨-, -, hta, -, -, -, hfr, -⟩ := TableInv.restorePriority_same s m
      unfold giveUp at hi hf
      rw [handOff_eq] at hi hf
      exact Or.inl ⟨(installed_congr hta h).mp hi, (congrFun hfr h).symm.trans hf⟩
  | queueSelected =>
      rw [SuspendInv.wakeWaiter_eq] at hi hf
      exact Or.inl ⟨hi, hf⟩
  | _ => exact Or.inl ⟨hi, hf⟩

/-! ### Steps -/

/-- The continuation of a pend touches the running task only. -/
theorem finishPend_keeps {ev : Event} {p timeWait h : Nat} (hi : s.Installed h)
    (hne : h ≠ s.currentTask) :
    Keeps s (((s.cancelTimeout timeWait).finishPend ev p).1.setFrame s.currentTask .user) h := by
  obtain ⟨ctx, dl, ops, heq, -⟩ := cancelTimeout_eq s timeWait
  have hctx : ctx h = s.contextTask h := by
    have := cancelTimeout_context (s := s) timeWait hne
    rwa [heq] at this
  rw [heq]
  cases ev with
  | mutex m =>
      generalize hu : { s with contextTask := ctx, delayList := dl, delayOps := ops } = u
      obtain ⟨hta, hfr, -⟩ := takeCeiling_same u m p
      have hcu : u.currentTask = s.currentTask := by subst hu; rfl
      refine ⟨(installed_congr (hta.trans (by subst hu; rfl)) h).mpr hi, ?_, ?_⟩
      · refine (Function.update_of_ne hne _ _).trans ((congrFun hfr h).trans ?_)
        subst hu
        rfl
      · refine (takeCeiling_context (hcu ▸ hne)).trans ?_
        subst hu
        exact hctx
  | _ => exact ⟨hi, Function.update_of_ne hne _ _, hctx⟩

/-- What the tick does to a task: if its deadline has come, its `TimeToWait` says so. -/
theorem tick_context {xs : List Nat} (hk : KernelInv s) (hs : SuspendInv s xs)
    (ht : s.osIncCounter.osTickHandler = some t) :
    SuspendInv t (xs.filter fun h => s.ttw h ≠ s.osIncCounter.osTickCounter) ∧
      Ticked s.osIncCounter t xs := by
  have hc := hk.toCoreInv.osIncCounter
  obtain ⟨t', ht', -, hst, htick⟩ := osTickHandler_spec hc.table
    (hs.congr ⟨rfl, rfl, rfl, rfl, rfl, rfl⟩ : SuspendInv s.osIncCounter xs)
  have heq : t' = t := Option.some.inj (ht'.symm.trans ht)
  subst heq
  exact ⟨hst, htick⟩

/-- The tick leaves the tasks installed, in their calls and at their priorities. -/
theorem tick_frame (hk : KernelInv s) (ht : s.osIncCounter.osTickHandler = some t) :
    (∀ h, t.Installed h ↔ s.Installed h) ∧ t.frame = s.frame ∧ ∀ h, t.prio h = s.prio h := by
  obtain ⟨xs, hs⟩ := hk.suspend
  obtain ⟨-, htick⟩ := tick_context hk hs ht
  have hsame := htick.same
  exact ⟨installed_congr (by rw [hsame]; rfl), by rw [hsame]; rfl, htick.prio⟩

/-- **Frame rule.** A step other than a tick touches no task but the one that takes it
and the one it uninstalls. -/
theorem move_keeps_of_ne {a : Action} {o : Obs} {h : Nat}
    (hm : Move rule s a t o) (hi : s.Installed h) (hother : s.inTask = true → h ≠ s.currentTask)
    (hun : (s.frame h).isPend = true ∨ NotUninstalling h s a ∨ t.Installed h)
    (hres : a = .resume → h ≠ s.currentTask) (htick : a ≠ .tick) : Keeps s t h := by
  cases hm with
  | returned ha he => exact effect_keeps_of_ne he hi hother hun
  | switched ha he =>
      obtain ⟨h1, h2, h3⟩ := effect_keeps_of_ne he hi hother hun
      exact ⟨h1, h2, h3⟩
  | suspended ha he =>
      obtain ⟨h1, h2, h3⟩ := effect_keeps_of_ne he hi hother hun
      exact ⟨h1, h2, h3⟩
  | started hmain hfree hu hs =>
      rename_i i a b c d task heap u
      subst hu
      obtain ⟨h1, h2, h3⟩ := fillTcb_keeps (p := 0) (a := a) (b := b) hfree hi
      exact ⟨h1, h2, h3⟩
  | delayEnded => exact ⟨hi, Function.update_of_ne (hres rfl) _ _, rfl⟩
  | timedOut => exact ⟨hi, Function.update_of_ne (hres rfl) _ _, rfl⟩
  | woken => exact finishPend_keeps hi (hres rfl)
  | tick => exact absurd rfl htick
  | _ => exact ⟨hi, rfl, rfl⟩

/-- A step other than a tick touches no suspended task but the one it continues or
uninstalls. -/
theorem move_keeps {a : Action} {o : Obs} {h : Nat}
    (hm : Move rule s a t o) (hi : s.Installed h) (hf : s.frame h ≠ .user)
    (hun : (s.frame h).isPend = true ∨ NotUninstalling h s a ∨ t.Installed h)
    (hres : a = .resume → h ≠ s.currentTask) (htick : a ≠ .tick) : Keeps s t h :=
  move_keeps_of_ne hm hi (ne_caller hf) hun hres htick

/-- What a call shows, from how its critical section ended. -/
theorem Move.call_inv {c : Call} {o : Obs} (hm : Move rule s (.call c) t o) :
    c.allowed s = true ∧ ∃ u oc, Effect rule s c u oc ∧
      (∃ task, t = { u with currentTask := task }) ∧
      ((∃ r, (oc = .returned r ∨ oc = .switched r) ∧ o = .returned s.caller c r) ∨
        (oc = .suspended ∧ o = .suspended s.caller c)) := by
  cases hm with
  | returned ha he => exact ⟨ha, _, _, he, ⟨_, rfl⟩, Or.inl ⟨_, Or.inl rfl, rfl⟩⟩
  | switched ha he hsch => exact ⟨ha, _, _, he, ⟨_, rfl⟩, Or.inl ⟨_, Or.inr rfl, rfl⟩⟩
  | suspended ha he hsch => exact ⟨ha, _, _, he, ⟨_, rfl⟩, Or.inr ⟨rfl, rfl⟩⟩

/-- Only the tick moves the clock. -/
theorem move_counter {a : Action} {o : Obs} (hm : Move rule s a t o) (htick : a ≠ .tick) :
    t.osTickCounter = s.osTickCounter := by
  cases hm with
  | returned ha he => exact (effect_same he).2.2
  | switched ha he => exact (effect_same he).2.2
  | suspended ha he => exact (effect_same he).2.2
  | started hmain hfree hu =>
      subst hu
      rfl
  | woken =>
      rename_i ev p tw _ _ _ _
      obtain ⟨ctx, dl, ops, heq, -⟩ := cancelTimeout_eq s tw
      rw [heq]
      cases ev with
      | mutex m =>
          exact (takeCeiling_same { s with contextTask := ctx, delayList := dl, delayOps := ops }
            m p).2.2.2.2.2.2.2.1
      | _ => rfl
  | tick => exact absurd rfl htick
  | _ => rfl

/-- A continuation ends the call. -/
theorem resume_frame {o : Obs} (hm : Move rule s .resume t o) : t.frame s.currentTask = .user := by
  cases hm with
  | delayEnded => exact Function.update_self _ _ _
  | timedOut => exact Function.update_self _ _ _
  | woken => exact Function.update_self _ _ _

/-- The continuation of a pend ends it. -/
theorem finishPend_frame (s : Kernel cfg) (ev : Event) (p timeWait : Nat) :
    (∀ h, (((s.cancelTimeout timeWait).finishPend ev p).1.setFrame s.currentTask .user).Installed h ↔
      s.Installed h) ∧
    (((s.cancelTimeout timeWait).finishPend ev p).1.setFrame s.currentTask .user).frame =
      Function.update s.frame s.currentTask .user := by
  obtain ⟨ctx, dl, ops, heq, -⟩ := cancelTimeout_eq s timeWait
  rw [heq]
  cases ev with
  | mutex m =>
      obtain ⟨hta, hfr, -⟩ := takeCeiling_same
        { s with contextTask := ctx, delayList := dl, delayOps := ops } m p
      exact ⟨installed_congr hta, by dsimp only [Kernel.finishPend, setFrame, noteAcquired]; rw [hfr]⟩
  | _ => exact ⟨fun _ => Iff.rfl, rfl⟩

/-- A task that is inside a pend after a step was inside it before, or is the caller
of a pend and has just begun to wait. -/
theorem move_pend (hk : KernelInv s) {a : Action} {o : Obs} {h p timeWait : Nat} {ev : Event}
    (hm : Move rule s a t o) (hi : t.Installed h) (hf : t.frame h = .pend ev p timeWait) :
    (s.Installed h ∧ s.frame h = .pend ev p timeWait ∧ (a = .resume → h ≠ s.currentTask)) ∨
      (s.inTask = true ∧ h = s.currentTask ∧ p = s.prio h ∧ s.Unavailable ev ∧
        (∃ task, t = { s.waitEvent ev timeWait with currentTask := task }) ∧
        ∃ c, a = .call c ∧ o = .suspended s.caller c) := by
  have hend : ∀ {v : Kernel cfg}, v.Installed h → v.frame h = .pend ev p timeWait →
      (∀ h, v.Installed h ↔ s.Installed h) →
      v.frame = Function.update s.frame s.currentTask .user →
      s.Installed h ∧ s.frame h = .pend ev p timeWait ∧ h ≠ s.currentTask := by
    intro v hi hf hinst hfr
    rw [hfr, Function.update_apply] at hf
    split at hf
    · cases hf
    · exact ⟨(hinst h).mp hi, hf, by assumption⟩
  cases hm with
  | returned ha he =>
      rcases effect_pend he hi hf with ⟨h1, h2⟩ | ⟨-, -, -, -, -, hoc⟩
      · exact Or.inl ⟨h1, h2, by simp⟩
      · cases hoc
  | switched ha he =>
      rcases effect_pend he hi hf with ⟨h1, h2⟩ | ⟨-, -, -, -, -, hoc⟩
      · exact Or.inl ⟨h1, h2, by simp⟩
      · cases hoc
  | suspended ha he =>
      rcases effect_pend he hi hf with ⟨h1, h2⟩ | ⟨h1, h2, h3, h4, rfl, -⟩
      · exact Or.inl ⟨h1, h2, by simp⟩
      · exact Or.inr ⟨h1, h2, h3, h4, ⟨_, rfl⟩, _, rfl, rfl⟩
  | started hmain hfree hu hs =>
      rename_i i a b c d task heap u
      subst hu
      have hi' : (s.fillTcb i 0 a b).Installed h := hi
      rw [TableInv.installed_fillTcb (freeTcb_spec hfree).1] at hi'
      simp only [Kernel.fillTcb, Function.update_apply] at hf
      split at hf
      · cases hf
      · exact Or.inl ⟨hi'.resolve_left (by assumption), hf, by simp⟩
  | delayEnded =>
      obtain ⟨h1, h2, h3⟩ := hend hi hf (fun _ => Iff.rfl) rfl
      exact Or.inl ⟨h1, h2, fun _ => h3⟩
  | timedOut =>
      obtain ⟨h1, h2, h3⟩ := hend hi hf (fun _ => Iff.rfl) rfl
      exact Or.inl ⟨h1, h2, fun _ => h3⟩
  | woken =>
      rename_i ev' p' tw' _ _ _ _
      obtain ⟨hinst, hfr⟩ := finishPend_frame s ev' p' tw'
      obtain ⟨h1, h2, h3⟩ := hend hi hf hinst hfr
      exact Or.inl ⟨h1, h2, fun _ => h3⟩
  | tick hnest ht =>
      obtain ⟨hinst, hfr, -⟩ := tick_frame hk ht
      rw [hfr] at hf
      exact Or.inl ⟨(hinst h).mp hi, hf, by simp⟩
  | _ => exact Or.inl ⟨hi, hf, by simp⟩

/-! ### The wait lists -/

/-- What a step can do to the wait lists: nothing, let the calling task join one, let
a post or release take the best waiter out of one, or let the running task leave the
one its wait has timed out on. -/
inductive WaitStep (s t : Kernel cfg) (a : Action) : Prop
  | same (hwait : ∀ ev, t.waiting ev = s.waiting ev)
  | joined {ev : Event} {timeWait : Nat} (ha : a = .call (Frame.pend ev 0 timeWait).call)
      (hwho : s.inTask = true)
      (hwait : ∀ ev', t.waiting ev' =
        if ev' = ev then insert (s.prio s.currentTask) (s.waiting ev) else s.waiting ev')
  | selected {c : Call} {ev : Event} (ha : a = .call c) (hsig : c.signals = some ev)
      (hacc : s.Accepts c) (hmem : saScheduler (s.event ev).osEventWaitList ∈ s.waiting ev)
      (hwait : ∀ ev', t.waiting ev' =
        if ev' = ev then (s.waiting ev).erase (saScheduler (s.event ev).osEventWaitList)
        else s.waiting ev')
  | left {ev : Event} {p timeWait : Nat} (ha : a = .resume)
      (hf : s.frame s.currentTask = .pend ev p timeWait) (hmem : p ∈ s.waiting ev)
      (hwait : ∀ ev', t.waiting ev' =
        if ev' = ev then (s.waiting ev).erase p else s.waiting ev')

theorem WaitStep.of_event (h : t.event = s.event) {a : Action} : WaitStep s t a :=
  .same fun ev => by rw [Kernel.waiting, h]

theorem WaitStep.setCurrent {a : Action} (h : WaitStep s u a) (task : Nat) :
    WaitStep s { u with currentTask := task } a := by
  cases h with
  | same hwait => exact .same hwait
  | joined ha hwho hwait => exact .joined ha hwho hwait
  | selected ha hsig hacc hmem hwait => exact .selected ha hsig hacc hmem hwait
  | left ha hf hmem hwait => exact .left ha hf hmem hwait

/-- A control block whose wait list is empty is filled in or cleared. -/
theorem waiting_reset {ev : Event} {b : Bool} (hempty : s.waiting ev = ∅) (ev' : Event) :
    bits ((Function.update s.event ev ⟨b, 0, 0⟩) ev').osEventWaitList = s.waiting ev' := by
  rw [Function.update_apply]
  split
  · rename_i heq
    rw [heq, hempty]
    exact bits_zero
  · rfl

theorem waiting_waitEvent (ev : Event) (timeWait : Nat)
    (hlt : s.prio s.currentTask < cfg.prioBits) (ev' : Event) : (s.waitEvent ev timeWait).waiting ev' =
      if ev' = ev then insert (s.prio s.currentTask) (s.waiting ev) else s.waiting ev' := by
  rw [SuspendInv.waitEvent_eq]
  simp only [Kernel.waiting, Function.update_apply]
  split
  · exact bits_or_mask hlt
  · rfl

theorem effect_wait (hk : KernelInv s) {c : Call} {oc : Outcome} (he : Effect rule s c u oc) :
    WaitStep s u (.call c) := by
  obtain ⟨xs, hs⟩ := hk.suspend
  have hbest : ∀ {ev : Event}, (s.event ev).osEventWait ≠ 0 →
      saScheduler (s.event ev).osEventWaitList ∈ s.waiting ev := fun hw =>
    saScheduler_mem (hs.waiting_nonempty hw)
  cases he with
  | uninstalledDelayed =>
      refine .of_event ?_
      split <;> rfl
  | waited hwho hev htw hun =>
      exact .joined rfl hwho (waiting_waitEvent _ _ (hk.table.prio_lt (hk.calling hwho).installed))
  | semCreated hc hfree =>
      exact .same (waiting_reset (hs.empty_of_free (freeEvent_spec hfree).2))
  | semDeleted hno => exact .same (waiting_reset hno)
  | semSelected hev hw =>
      exact .selected rfl rfl trivial (hbest hw) fun ev' => waiting_leaveWaitList _ ev' _
  | mboxCreated hfree =>
      exact .same (waiting_reset (hs.empty_of_free (freeEvent_spec hfree).2))
  | mboxDeleted hno => exact .same (waiting_reset hno)
  | mboxSelected hev hw =>
      exact .selected rfl rfl trivial (hbest hw) fun ev' => waiting_leaveWaitList _ ev' _
  | queueCreated hfree =>
      exact .same (waiting_reset (hs.empty_of_free (freeEvent_spec hfree).2))
  | queueSelected hev hq hw =>
      exact .selected rfl rfl hq (hbest hw) fun ev' => waiting_leaveWaitList _ ev' _
  | mutexCreated hle hpv hfree =>
      refine .same fun ev' => ?_
      rw [← waiting_reset (b := true) (hs.empty_of_free (freeEvent_spec hfree).2) ev']
      dsimp only [setMutex, allocEvent, setEvent]
      split <;> rfl
  | mutexDeleted hfree =>
      rename_i m
      refine .same (waiting_reset ?_)
      by_cases ha : s.Allocated (.mutex m)
      · exact hk.handoff.free_empty ha hfree
      · exact hs.empty_of_free ha
  | acquired =>
      rename_i m tw _ _ _ _
      obtain ⟨-, -, hev, -⟩ := takeCeiling_same (s.setMutex m fun c =>
        { c with osEventState := .busyResource, osEventOwner := s.currentTask }) m
        (s.prio s.currentTask)
      exact .of_event (s := s) (t := s.takeMutex m) hev
  | released =>
      rename_i m _ _ _ _ _
      obtain ⟨-, hev, -⟩ := TableInv.restorePriority_same s m
      obtain ⟨hsame, -⟩ := freeMutex_same (s.restorePriority m) m
      exact .of_event (hsame.event.trans hev)
  | handedOff hwho hev hown hrule hw =>
      rename_i m
      obtain ⟨-, hsame, -⟩ := TableInv.restorePriority_same s m
      refine .selected rfl rfl ?_ (hbest hw) fun ev' => ?_
      · exact hown.trans (if_pos (inTask_iNesting hwho)).symm
      · unfold giveUp
        rw [handOff_eq, hsame]
        exact waiting_leaveWaitList _ ev' _
  | _ => exact .same fun _ => rfl

/-- Every step. -/
theorem move_wait (hk : KernelInv s) {a : Action} {o : Obs} (hm : Move rule s a t o) :
    WaitStep s t a := by
  cases hm with
  | returned ha he => exact effect_wait hk he
  | switched ha he => exact (effect_wait hk he).setCurrent _
  | suspended ha he => exact (effect_wait hk he).setCurrent _
  | started hmain hfree hu =>
      subst hu
      exact .same fun _ => rfl
  | timedOut hcur hnest hf ht =>
      exact .left rfl hf ht.2.2 fun ev' => waiting_leaveWaitList _ ev' _
  | woken =>
      rename_i ev p tw _ _ _ _
      refine .of_event ?_
      obtain ⟨ctx, dl, ops, heq, -⟩ := cancelTimeout_eq s tw
      rw [heq]
      cases ev with
      | mutex m =>
          exact (takeCeiling_same { s with contextTask := ctx, delayList := dl, delayOps := ops }
            m p).2.2.1
      | _ => rfl
  | tick hnest ht =>
      obtain ⟨xs, hs⟩ := hk.suspend
      obtain ⟨-, htick⟩ := tick_context hk hs ht
      refine .of_event ?_
      rw [htick.same]
      rfl
  | _ => exact .same fun _ => rfl

end Brtos
