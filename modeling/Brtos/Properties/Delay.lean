import Brtos.Invariant.Frames

/-!
# Brtos.Properties.Delay

The **delay list** and the **time at which a task wakes up**.

`delay_list_ok` says what the list is in every state: the links are those of a
doubly linked list, the tasks in it are the ones the history of
`IncludeTaskIntoDelayList` and `RemoveFromDelayList` leaves in it, none was
included twice or removed without being there, their deadlines are counter values,
and the tick handler walks the whole list once, whatever it removes on the way.

`wake_up_exact` is about one task: from the call that suspends it for `w` ticks its
ready bit is clear until the `w`-th tick, and that tick sets it. Deadlines are
compared for equality with a counter that wraps at `TICK_COUNT_OVERFLOW`, so the
argument counts the ticks modulo that number.
-/

namespace Brtos

open Bits Kernel

variable {cfg : Config} {s t u : Kernel cfg} {rule : Kernel cfg → Nat → Prop} {xs : List Nat}

/-! ### What a step does to the list -/

/-- What a step other than a tick can do to the delay list `xs`: nothing, put the
running task at its end, or take one task out, which is the one it continues or
uninstalls. -/
inductive DelayStep (s t : Kernel cfg) (a : Action) (xs : List Nat) : Prop
  | same (hops : t.delayOps = s.delayOps) (hlist : t.delayList.IsList xs)
  | pushed {timeWait : Nat}
      (hcall : a = .call (.delayTask timeWait) ∨ timeWait ≤ cfg.tickCountOverflow)
      (hnot : s.currentTask ∉ xs) (hops : t.delayOps = .pushBack s.currentTask :: s.delayOps)
      (hlist : t.delayList.IsList (xs ++ [s.currentTask]))
      (hdl : t.ttw s.currentTask = deadline cfg s.osTickCounter timeWait)
  | removed {task : Nat}
      (hwho : (a = .resume ∧ task = s.currentTask) ∨ ¬ NotUninstalling task s a)
      (hin : task ∈ xs) (hops : t.delayOps = .remove task :: s.delayOps)
      (hlist : t.delayList.IsList (xs.erase task))

theorem takeCeiling_delay (s : Kernel cfg) (m p : Nat) :
    (s.takeCeiling m p).delayList = s.delayList ∧ (s.takeCeiling m p).delayOps = s.delayOps := by
  obtain ⟨ready, pv, ctx, mt, ht⟩ := takeCeiling_eq s m p
  rw [ht]
  exact ⟨rfl, rfl⟩

theorem released_delay (s : Kernel cfg) (m : Nat) :
    ((s.giveUp m).freeMutex m).delayList = s.delayList ∧
      ((s.giveUp m).freeMutex m).delayOps = s.delayOps := by
  obtain ⟨ready, pv, ctx, mt, hd, hr⟩ := released_eq s m
  rw [hr]
  exact ⟨rfl, rfl⟩

/-- Calls. -/
theorem effect_delay (hk : KernelInv s) (hs : SuspendInv s xs) {c : Call} {oc : Outcome}
    (he : Effect rule s c u oc) : DelayStep s u (.call c) xs := by
  cases he with
  | installed hwho hp hle hpv hfree hfit =>
      have hnm : _ ∉ xs := fun hm => TableInv.not_installed_of_free hfree (hs.listed hm).1
      exact .same rfl (hs.list.unlink hnm)
  | uninstalled htask hwho hi hp hf hown hr =>
      have hnm := (hs.listed_iff hi hf).not.mpr (not_not.mpr hr)
      exact .same rfl (hs.list.unlink hnm)
  | uninstalledDelayed htask hwho hi hp hf hown hr hsearch =>
      rename_i k task found
      have hm : task ∈ xs := (hs.listed_iff hi hf).mpr hr
      obtain rfl : found = true := hs.found hm hsearch
      refine @DelayStep.removed _ _ _ _ _ task (Or.inr fun hne => hne htask) hm rfl ?_
      refine (hs.list.erase hm).unlink ?_
      rw [hs.list.nodup.mem_erase_iff]
      exact fun h => h.1 rfl
  | delayed hwho htw =>
      have hnm := hs.user_not_listed (hk.calling hwho).frame
      refine .pushed (Or.inl rfl) hnm rfl (hs.list.pushBack hnm) ?_
      simp [Kernel.ttw, SuspendInv.startDelay_eq]
  | waited hwho hev htw hun =>
      rename_i ev tw
      have hnm := hs.user_not_listed (hk.calling hwho).frame
      rw [SuspendInv.waitEvent_eq]
      by_cases h0 : tw = 0
      · refine .same ?_ ?_
        · simp [h0]
        · simpa [h0] using hs.list
      · refine .pushed (Or.inr htw) hnm ?_ ?_ ?_
        · simp [h0]
        · simpa [h0] using hs.list.pushBack hnm
        · simp [Kernel.ttw, h0]
  | mutexCreated =>
      refine .same ?_ ?_
      · dsimp only [setMutex, allocEvent, setEvent]
        split <;> rfl
      · dsimp only [setMutex, allocEvent, setEvent]
        split <;> exact hs.list
  | acquired =>
      rename_i m tw _ _ _ _
      obtain ⟨hl, ho⟩ := takeCeiling_delay (s.setMutex m fun c =>
        { c with osEventState := .busyResource, osEventOwner := s.currentTask }) m
        (s.prio s.currentTask)
      refine .same ho ?_
      rw [show (s.takeMutex m).delayList = s.delayList from hl]
      exact hs.list
  | released =>
      rename_i m _ _ _ _ _
      obtain ⟨hl, ho⟩ := released_delay s m
      exact .same ho (by rw [hl]; exact hs.list)
  | handedOff =>
      rename_i m _ _ _ _ _
      obtain ⟨hl, ho, -⟩ := TableInv.restorePriority_delay s m
      unfold giveUp
      rw [handOff_eq]
      exact .same ho (by dsimp only; rw [hl]; exact hs.list)
  | queueSelected =>
      rw [SuspendInv.wakeWaiter_eq]
      exact .same rfl hs.list
  | _ => exact .same rfl hs.list

theorem DelayStep.setCurrent {a : Action} (h : DelayStep s u a xs) (task : Nat) :
    DelayStep s { u with currentTask := task } a xs := by
  cases h with
  | same hops hlist => exact .same hops hlist
  | pushed hcall hnot hops hlist hdl => exact .pushed hcall hnot hops hlist hdl
  | removed hwho hin hops hlist => exact .removed hwho hin hops hlist

/-- A task whose pend ends takes itself out of the list if its timeout is running. -/
theorem woken_delay (hk : KernelInv s) (hs : SuspendInv s xs) (hcur : s.currentTask ≠ 0)
    {ev : Event} {p timeWait : Nat} (hf : s.frame s.currentTask = .pend ev p timeWait) :
    DelayStep s (((s.cancelTimeout timeWait).finishPend ev p).1.setFrame s.currentTask .user)
      .resume xs := by
  have hfin : ∀ v : Kernel cfg, ((v.finishPend ev p).1.setFrame s.currentTask .user).delayList =
      v.delayList ∧ ((v.finishPend ev p).1.setFrame s.currentTask .user).delayOps = v.delayOps := by
    intro v
    cases ev with
    | mutex m => exact takeCeiling_delay v m p
    | _ => exact ⟨rfl, rfl⟩
  obtain ⟨hl, ho⟩ := hfin (s.cancelTimeout timeWait)
  have hlisted := hs.pend_listed (hk.run hcur).1 hf
  by_cases hc : timeWait ≠ 0 ∧ s.ttw s.currentTask ≠ cfg.exitByTimeout
  · have hin := hlisted.mpr hc
    rw [show s.cancelTimeout timeWait = (s.setTimeToWait s.currentTask
      cfg.noTimeout).removeFromDelayList s.currentTask from if_pos hc] at hl ho ⊢
    exact .removed (Or.inl ⟨rfl, rfl⟩) hin ho (by rw [hl]; exact hs.list.erase hin)
  · rw [show s.cancelTimeout timeWait = s from if_neg hc] at hl ho ⊢
    exact .same ho (by rw [hl]; exact hs.list)

/-- Steps other than ticks. -/
theorem move_delay (hk : KernelInv s) (hs : SuspendInv s xs) {a : Action} {o : Obs}
    (hm : Move rule s a t o) (htick : a ≠ .tick) : DelayStep s t a xs := by
  cases hm with
  | returned ha he => exact effect_delay hk hs he
  | switched ha he => exact (effect_delay hk hs he).setCurrent _
  | suspended ha he => exact (effect_delay hk hs he).setCurrent _
  | started hmain hfree hu =>
      subst hu
      have hnm : _ ∉ xs := fun hm => TableInv.not_installed_of_free hfree (hs.listed hm).1
      exact .same rfl (hs.list.unlink hnm)
  | woken hcur hnest hf ht => exact woken_delay hk hs hcur hf
  | tick => exact absurd rfl htick
  | _ => exact .same rfl hs.list

/-! ### The list and its history -/

/-- The delay list is what its history leaves in it, and the history is legal. -/
structure DelayLog (s : Kernel cfg) : Prop where
  list : s.delayList.IsList (DList.replay s.delayOps)
  legal : DList.Legal s.delayOps

theorem DelayLog.replay_eq (hd : DelayLog s) (hs : SuspendInv s xs) :
    DList.replay s.delayOps = xs := hd.list.unique hs.list

theorem DelayLog.step (hd : DelayLog s) (hs : SuspendInv s xs) {a : Action}
    (h : DelayStep s t a xs) : DelayLog t := by
  have hxs := hd.replay_eq hs
  cases h with
  | same hops hlist => exact ⟨by rw [hops, hxs]; exact hlist, by rw [hops]; exact hd.legal⟩
  | pushed hcall hnot hops hlist hdl =>
      refine ⟨?_, ?_⟩
      · rw [hops, DList.replay, hxs]
        exact hlist
      · rw [hops]
        exact ⟨by rw [hxs]; exact hnot, hd.legal⟩
  | removed hwho hin hops hlist =>
      refine ⟨?_, ?_⟩
      · rw [hops, DList.replay, hxs]
        exact hlist
      · rw [hops]
        exact ⟨by rw [hxs]; exact hin, hd.legal⟩

theorem DelayLog.expire (hd : DelayLog s) (hs : SuspendInv s xs) {h : Nat} (hm : h ∈ xs) :
    DelayLog (s.expire h) := by
  have hxs := hd.replay_eq hs
  have hin : h ∈ DList.replay s.delayOps := by rw [hxs]; exact hm
  exact ⟨hd.list.erase hin, hin, hd.legal⟩

theorem DelayLog.tick (hd : DelayLog s) (hk : KernelInv s)
    (ht : s.osIncCounter.osTickHandler = some t) : DelayLog t := by
  obtain ⟨xs, hs⟩ := hk.suspend
  have hsi : SuspendInv s.osIncCounter ([] ++ xs) := hs.congr ⟨rfl, rfl, rfl, rfl, rfl, rfl⟩
  have hl : tickLoop (tickFuel cfg) s.osIncCounter xs.head? = some t := by
    rw [← hs.list.head_eq]
    exact ht
  exact tickLoop_induct (P := DelayLog) (fun _ hs hm hd => hd.expire hs hm)
    hk.toCoreInv.osIncCounter.table hsi ⟨hd.list, hd.legal⟩ hl

/-! ### Deadlines -/

/-- A task that stays in the list through a step other than a tick is not touched by it. -/
theorem listed_keeps {ys : List Nat} (hs : SuspendInv s xs) (hst : SuspendInv t ys) {a : Action}
    {o : Obs} (hm : Move rule s a t o) (htick : a ≠ .tick) {h : Nat} (hin : h ∈ xs) (hin' : h ∈ ys) :
    Keeps s t h := by
  obtain ⟨hi, hf⟩ := hs.listed hin
  obtain ⟨hi', hf'⟩ := hst.listed hin'
  refine move_keeps hm hi hf (Or.inr (Or.inr hi')) ?_ htick
  rintro rfl rfl
  exact hf' (resume_frame hm)

/-- Every task in the list has a deadline the counter will reach. -/
def Deadlines (s : Kernel cfg) (xs : List Nat) : Prop :=
  ∀ h ∈ xs, s.ttw h < cfg.tickCountOverflow

/-- The delay asked for is at most one counter period. -/
def DelayOk (cfg : Config) : Action → Prop
  | .call (.delayTask timeWait) => timeWait ≤ cfg.tickCountOverflow
  | _ => True

instance (a : Action) : Decidable (DelayOk cfg a) := by
  unfold DelayOk
  split <;> infer_instance

theorem Deadlines.move (hdl : Deadlines s xs) (hk : KernelInv s) (hs : SuspendInv s xs)
    {ys : List Nat} (hst : SuspendInv t ys) {a : Action} {o : Obs} (hm : Move rule s a t o)
    (htw : DelayOk cfg a) : Deadlines t ys := by
  intro h hin
  by_cases htick : a = .tick
  · subst htick
    obtain ⟨hnest, ht⟩ : 0 < s.iNesting ∧ s.osIncCounter.osTickHandler = some t := by
      cases hm with
      | tick hnest ht => exact ⟨hnest, ht⟩
    obtain ⟨hst', hticked⟩ := tick_context hk hs ht
    rw [hst.list.unique hst'.list, List.mem_filter] at hin
    have hne : s.ttw h ≠ s.osIncCounter.osTickCounter := by simpa using hin.2
    rw [hticked.ttw, if_neg fun hc => hne hc.2]
    exact hdl h hin.1
  · have hold : h ∈ xs → t.ttw h < cfg.tickCountOverflow := fun hx => by
      rw [(listed_keeps hs hst hm htick hx hin).ttw]
      exact hdl h hx
    cases move_delay hk hs hm htick with
    | same hops hlist => exact hold (hlist.unique hst.list ▸ hin)
    | pushed hcall hnot hops hlist hd =>
        rename_i timeWait
        have hle : timeWait ≤ cfg.tickCountOverflow := by
          rcases hcall with rfl | hle
          · exact htw
          · exact hle
        rw [hst.list.unique hlist, List.mem_append, List.mem_singleton] at hin
        rcases hin with hx | rfl
        · exact hold hx
        · rw [hd]
          exact deadline_lt hk.start.tick_lt hle
    | removed hwho hx hops hlist =>
        rw [hst.list.unique hlist] at hin
        exact hold (List.mem_of_mem_erase hin)

/-! ### The delay list -/

/-- What the delay list is in a state, and what the tick handler would make of it. -/
structure DelayListOk (s : Kernel cfg) : Prop where
  list : s.delayList.IsList (DList.replay s.delayOps)
  ends : s.delayList.head = none ↔ s.delayList.tail = none
  legal : DList.Legal s.delayOps
  deadline : ∀ h ∈ DList.replay s.delayOps, s.ttw h < cfg.tickCountOverflow
  tick : ∃ t, s.osIncCounter.osTickHandler = some t ∧
    tickExamined (tickFuel cfg) s.osIncCounter s.delayList.head = DList.replay s.delayOps ∧
    t.delayList.IsList ((DList.replay s.delayOps).filter fun h =>
      s.ttw h ≠ s.osIncCounter.osTickCounter) ∧
    ∀ p, p ∈ t.ready ↔ p ∈ s.ready ∨
      ∃ h ∈ DList.replay s.delayOps, s.ttw h = s.osIncCounter.osTickCounter ∧ s.prio h = p

theorem DelayLog.ok (hd : DelayLog s) (hk : KernelInv s)
    (hdl : Deadlines s (DList.replay s.delayOps)) : DelayListOk s := by
  obtain ⟨xs, hs⟩ := hk.suspend
  have hxs := hd.replay_eq hs
  refine ⟨hd.list, ?_, hd.legal, hdl, ?_⟩
  · rw [hd.list.head_eq, hd.list.tail_eq]
    simp
  · rw [hxs]
    have hsi : SuspendInv s.osIncCounter xs := hs.congr ⟨rfl, rfl, rfl, rfl, rfl, rfl⟩
    obtain ⟨t, ht, hex, hst, htick⟩ := osTickHandler_spec hk.toCoreInv.osIncCounter.table hsi
    exact ⟨t, ht, hex, hst.list, htick.ready⟩

/-- **The delay list.** In every execution whose releases are all nested and whose
delays are at most one counter period, the delay list is a doubly linked list of the
tasks its history left in it, nobody was included twice or removed without being
there, and the tick handler examines each task once and removes and makes ready
exactly those whose deadline has come. -/
theorem delay_list_ok {tr : Trace}
    (hr : RunFromInit (fun s a => Disciplined NestedRelease s a ∧ DelayOk cfg a) tr s) :
    DelayListOk s := by
  have hinv : KernelInv s ∧ DelayLog s ∧ Deadlines s (DList.replay s.delayOps) := by
    refine hr.invariant (P := fun s => KernelInv s ∧ DelayLog s ∧
      Deadlines s (DList.replay s.delayOps)) ?_ ?_
    · exact ⟨init_inv, ⟨DList.isList_empty, trivial⟩, fun h hm => by cases hm⟩
    · rintro t a u o ⟨hk, hd, hdl⟩ ⟨hdis, htw⟩ hstep
      obtain ⟨xs, hs⟩ := hk.suspend
      have hm := hk.move hdis hstep
      have hku := move_inv hk hm
      obtain ⟨ys, hsu⟩ := hku.suspend
      have hdu : DelayLog u := by
        by_cases htick : a = .tick
        · subst htick
          cases hm with
          | tick hnest ht => exact hd.tick hk ht
        · exact hd.step hs (move_delay hk hs hm htick)
      rw [hd.replay_eq hs] at hdl
      refine ⟨hku, hdu, ?_⟩
      rw [hdu.replay_eq hsu]
      exact hdl.move hk hs hsu hm htw
  exact hinv.2.1.ok hinv.1 hinv.2.2

/-- The task of priority 3 delays, the task of priority 2 pends with a timeout. -/
def twoListedScript : List Action :=
  [.call (.installTask false 256 2), .call (.installTask false 256 3), .call (.semCreate 0),
    .brtosStart, .call (.delayTask 3), .call (.semPend (some 0) 2)]

set_option maxRecDepth 20000 in
theorem delay_list_ok_twoListed :
    let s := Run.after Kernel.step (Kernel.init Config.exampleConfig) twoListedScript
    DList.replay s.delayOps = [2, 1] ∧ DelayListOk s :=
  ⟨by decide, delay_list_ok (Run.of_admits (by decide +kernel))⟩

/-- Task 1 acquires the mutexes of ceilings 8 and 10, gives up the first one to task 2,
which then runs at priority 8, and still holds the other one, which remembers 8. -/
def sharedCeilingScript : List Action :=
  [.call (.installTask false 256 2), .call (.installTask false 256 3),
    .call (.installTask false 256 4), .call (.mutexCreate 8), .call (.mutexCreate 10), .brtosStart,
    .call (.delayTask 1), .call (.delayTask 1), .call (.mutexAcquire (some 0) 50),
    .call (.mutexAcquire (some 1) 50), .call (.delayTask 2), .intEnter, .tick, .intExit, .resume,
    .call (.mutexAcquire (some 1) 50), .resume, .call (.mutexAcquire (some 0) 50), .intEnter, .tick,
    .intExit, .resume, .call (.mutexRelease (some 0)), .resume]

set_option maxRecDepth 40000 in
/-- Task 2 delays. When task 1 gives up its second mutex it returns to priority 8 and sets
the ready bit of task 2, which runs and delays again: it is in the list twice. -/
theorem unnested_release_lists_twice :
    let script := sharedCeilingScript ++ [.call (.delayTask 5), .call (.mutexRelease (some 1)),
      .resume, .call (.delayTask 5)]
    let s := Run.after Kernel.step (Kernel.init Config.exampleConfig) script
    RunFromInit (fun s a => Disciplined AnyRelease s a ∧ DelayOk Config.exampleConfig a)
      (Run.traceOf Kernel.step (Kernel.init Config.exampleConfig) script) s ∧
    ¬ DelayListOk s := by
  intro script s
  refine ⟨Run.of_admits (by decide +kernel), fun hok => ?_⟩
  have hno : ¬ DList.Legal s.delayOps := by decide +kernel
  exact hno hok.legal

/-! ### The time of waking up -/

/-- The ticks of a trace. -/
def ticks (tr : Trace) : Nat := tr.countP fun x => x.1 = .tick

theorem ticks_snoc (tr : Trace) (a : Action) (o : Obs) :
    ticks (tr ++ [(a, o)]) = ticks tr + if a = .tick then 1 else 0 := by
  unfold ticks
  rw [List.countP_append]
  by_cases h : a = .tick <;> simp [h]

/-- The action does not satisfy the pend task `h` is in: no post or release that is
accepted finds it the best waiter. -/
def NotSelecting (h : Nat) (s : Kernel cfg) : Action → Prop
  | .call c => ∀ ev ∈ c.signals, s.Accepts c → (s.frame h).pendsOn ev = true →
      s.prio h ≠ saScheduler (s.event ev).osEventWaitList
  | _ => True

instance (h : Nat) (s : Kernel cfg) : (a : Action) → Decidable (NotSelecting h s a)
  | .call c => inferInstanceAs (Decidable (∀ ev ∈ c.signals, _ → _ → _))
  | .brtosStart | .resume | .intEnter | .tick | .intExit => isTrue trivial

/-- Task `h` waits for the tick: it is in the delay list, since `k` ticks, with a deadline `w`
ticks after the count `c`, and not ready. -/
structure Sleeping (s : Kernel cfg) (xs : List Nat) (h p c w k : Nat) : Prop where
  listed : h ∈ xs
  prio : s.prio h = p
  ttw : s.ttw h = (c + w) % cfg.tickCountOverflow
  count : s.osTickCounter = (c + k) % cfg.tickCountOverflow
  waits : ∀ {ev q tw}, s.frame h = .pend ev q tw → q ∈ s.waiting ev

namespace Sleeping

variable {h p c w k : Nat}

/-- A sleeping task is not ready. -/
theorem not_ready (hsl : Sleeping s xs h p c w k) (hs : SuspendInv s xs) : p ∉ s.ready := by
  obtain ⟨hi, hfu⟩ := hs.listed hsl.listed
  cases hf : s.frame h with
  | user => exact absurd hf hfu
  | delay tw =>
      rw [← hsl.prio, hs.ready_delay hi hf]
      exact not_not.mpr hsl.listed
  | pend ev q tw =>
      obtain ⟨hq, -⟩ := hs.pend_spec hi hf
      have hlisted := (hs.pend_listed hi hf).mp hsl.listed
      rw [← hsl.prio, hq, hs.ready_pend hi hf]
      rintro (hw | ht)
      · exact hw (hsl.waits hf)
      · exact hlisted.2 ht.2

/-- So it does not run. -/
theorem not_running (hsl : Sleeping s xs h p c w k) (hk : KernelInv s) (hs : SuspendInv s xs) :
    h ≠ s.currentTask := by
  rintro rfl
  obtain ⟨-, hready⟩ := hk.run (hs.listed hsl.listed).1.pos
  exact hsl.not_ready hs (hsl.prio ▸ hready)

/-- Its wait-list bit stays as long as no post selects it. -/
theorem waits_move (hsl : Sleeping s xs h p c w k) (hk : KernelInv s) (hs : SuspendInv s xs)
    {a : Action} {o : Obs} (hm : Move rule s a t o) (hsel : NotSelecting h s a) {ev : Event}
    {q tw : Nat} (hf : s.frame h = .pend ev q tw) : q ∈ t.waiting ev := by
  have hq := hsl.waits hf
  have hi := (hs.listed hsl.listed).1
  have hpr := (hs.pend_spec hi hf).1
  cases move_wait hk hm with
  | same hwait => rw [hwait]; exact hq
  | joined ha hwho hwait =>
      rw [hwait]
      split
      · rename_i heq
        exact Finset.mem_insert_of_mem (heq ▸ hq)
      · exact hq
  | selected ha hsig hacc hmem hwait =>
      subst ha
      rw [hwait]
      split
      · rename_i heq
        subst heq
        refine Finset.mem_erase.mpr ⟨?_, hq⟩
        rw [← hpr]
        exact hsel _ hsig hacc (by rw [hf]; simp)
      · exact hq
  | left ha hf' hmem hwait =>
      rw [hwait]
      split
      · rename_i heq
        subst heq
        refine Finset.mem_erase.mpr ⟨?_, hq⟩
        rintro rfl
        -- the task that leaves the list is the running one
        have hne := hsl.not_running hk hs
        have hcur : s.currentTask ≠ 0 := fun h0 => by
          have := (hk.start.main h0).2.2 hi
          rw [hf] at this
          cases this
        have hi' := (hk.run hcur).1
        exact hne (hk.table.prio_inj hi hi' (hpr.trans (hs.pend_spec hi' hf').1.symm))
      · exact hq

/-- A step other than a tick leaves a sleeping task asleep. -/
theorem move (hsl : Sleeping s xs h p c w k) (hk : KernelInv s) (hs : SuspendInv s xs)
    {ys : List Nat} (hst : SuspendInv t ys) {a : Action} {o : Obs} (hm : Move rule s a t o)
    (htick : a ≠ .tick) (hun : NotUninstalling h s a) (hsel : NotSelecting h s a) :
    Sleeping t ys h p c w k := by
  have hne := hsl.not_running hk hs
  obtain ⟨hi, hfu⟩ := hs.listed hsl.listed
  have hkeep := move_keeps hm hi hfu (Or.inr (Or.inl hun)) (fun _ => hne) htick
  refine ⟨?_, hkeep.prio.trans hsl.prio, hkeep.ttw.trans hsl.ttw,
    (move_counter hm htick).trans hsl.count, fun hf => ?_⟩
  · cases move_delay hk hs hm htick with
    | same hops hlist =>
        rw [hst.list.unique hlist]
        exact hsl.listed
    | pushed hcall hnot hops hlist hdl =>
        rw [hst.list.unique hlist]
        exact List.mem_append_left _ hsl.listed
    | removed hwho hin hops hlist =>
        rw [hst.list.unique hlist]
        refine (List.mem_erase_of_ne ?_).mpr hsl.listed
        rintro rfl
        rcases hwho with ⟨-, rfl⟩ | hno
        · exact hne rfl
        · exact hno hun
  · rw [hkeep.frame] at hf
    exact hsl.waits_move hk hs hm hsel hf

theorem count_tick (hsl : Sleeping s xs h p c w k) (hk : KernelInv s) :
    s.osIncCounter.osTickCounter = (c + (k + 1)) % cfg.tickCountOverflow := by
  rw [osIncCounter_eq hk.start.tick_lt, hsl.count, Nat.mod_add_mod]
  rfl

/-- A tick before the last one leaves it asleep: within one counter period the deadline
is met once. -/
theorem tick (hsl : Sleeping s xs h p c w k) (hk : KernelInv s) (hs : SuspendInv s xs)
    {ys : List Nat} (hst : SuspendInv t ys) (ht : s.osIncCounter.osTickHandler = some t)
    (hlt : k + 1 < w) (hle : w ≤ cfg.tickCountOverflow) : Sleeping t ys h p c w (k + 1) := by
  obtain ⟨hst', hticked⟩ := tick_context hk hs ht
  obtain ⟨-, hframe, hprio⟩ := tick_frame hk ht
  have hcount := hsl.count_tick hk
  have hne : s.ttw h ≠ s.osIncCounter.osTickCounter := by
    rw [hsl.ttw, hcount]
    intro heq
    have hzero := Nat.sub_mod_eq_zero_of_mod_eq heq
    rw [Nat.mod_eq_of_lt (by omega)] at hzero
    omega
  refine ⟨?_, (hprio h).trans hsl.prio, ?_, ?_, fun {ev q tw} hf => ?_⟩
  · rw [hst.list.unique hst'.list, List.mem_filter]
    exact ⟨hsl.listed, by simpa using hne⟩
  · rw [hticked.ttw, if_neg fun hc => hne hc.2]
    exact hsl.ttw
  · rw [hticked.same]
    exact hcount
  · rw [hframe] at hf
    have hwait : t.waiting ev = s.waiting ev := by
      rw [Kernel.waiting, hticked.same]
      rfl
    rw [hwait]
    exact hsl.waits hf

/-- The last tick makes it ready. -/
theorem last_tick (hsl : Sleeping s xs h p c w k) (hk : KernelInv s) (hs : SuspendInv s xs)
    (ht : s.osIncCounter.osTickHandler = some t) (hlast : k + 1 = w) :
    t.prio h = p ∧ p ∈ t.ready := by
  obtain ⟨-, hticked⟩ := tick_context hk hs ht
  refine ⟨(hticked.prio h).trans hsl.prio, (hticked.ready p).mpr (Or.inr ⟨h, hsl.listed, ?_, ?_⟩)⟩
  · rw [hsl.count_tick hk, hlast]
    exact hsl.ttw
  · exact hsl.prio

end Sleeping

theorem Frame.call_inj {ev ev' : Event} {timeWait timeWait' : Nat}
    (h : (Frame.pend ev 0 timeWait).call = (Frame.pend ev' 0 timeWait').call) :
    ev = ev' ∧ timeWait = timeWait' := by
  cases ev <;> cases ev' <;> simp_all [Frame.call]

/-- The call that suspends a task for `w` ticks puts it to sleep. -/
theorem Sleeping.of_call {ys : List Nat} {c : Call} {w : Nat} (hk : KernelInv s)
    (hs : SuspendInv s xs) (hst : SuspendInv t ys)
    (hc : c = .delayTask w ∨ ∃ ev, c = (Frame.pend ev 0 w).call) (hw : w ≠ 0)
    (hle : w ≤ cfg.tickCountOverflow) (hm : Move rule s (.call c) t (.suspended s.caller c)) :
    Sleeping t ys s.currentTask (s.prio s.currentTask) s.osTickCounter w 0 := by
  have hlt := hk.start.tick_lt
  have hdl := deadline_eq_mod hlt hle
  have hcount := (Nat.mod_eq_of_lt hlt).symm
  have hnot : ∀ h off taskTimer, c ≠ .uninstallTask h off taskTimer := by
    rintro h off taskTimer rfl
    rcases hc with h | ⟨ev, h⟩
    · cases h
    · cases ev <;> cases h
  cases hm with
  | suspended ha he hsch =>
      obtain ⟨hwho, ⟨tw, rfl, rfl⟩ | ⟨ev, tw, rfl, -, rfl⟩⟩ := he.suspended_cases hnot
      · obtain rfl : tw = w := by
          rcases hc with h | ⟨ev, h⟩
          · cases h
            rfl
          · cases ev <;> cases h
        have hnm := hs.user_not_listed (hk.calling hwho).frame
        have hys := hst.list.unique (hs.list.pushBack hnm)
        rw [SuspendInv.startDelay_eq]
        refine ⟨by simp [hys], ?_, ?_, hcount, fun h => ?_⟩
        · simp [Kernel.prio]
        · simpa [Kernel.ttw] using hdl
        · simp at h
      · obtain rfl : tw = w := by
          rcases hc with h | ⟨ev', h⟩
          · cases ev <;> cases h
          · exact (Frame.call_inj h).2
        have hcall := hk.calling hwho
        have hnm := hs.user_not_listed hcall.frame
        have hwait := waiting_waitEvent ev tw
          (hk.table.prio_lt hcall.installed)
        rw [SuspendInv.waitEvent_eq] at hwait hst ⊢
        have hys : ys = xs ++ [s.currentTask] := by
          refine hst.list.unique ?_
          simpa [hw] using hs.list.pushBack hnm
        refine ⟨by simp [hys], ?_, ?_, hcount, fun {ev' q tw'} h => ?_⟩
        · simp [Kernel.prio]
        · simpa [Kernel.ttw, hw] using hdl
        · obtain ⟨rfl, rfl, rfl⟩ : ev = ev' ∧ s.prio s.currentTask = q ∧ tw = tw' := by
            simpa using h
          refine (Finset.ext_iff.mp (hwait ev) _).mpr ?_
          rw [if_pos rfl]
          exact Finset.mem_insert_self _ _

/-- Asleep after `k` ticks, for as long as `k` is below `w`. -/
theorem Sleeping.run {h p c w : Nat} {tr : Trace} (hk : KernelInv s)
    (hsl : ∃ xs, SuspendInv s xs ∧ Sleeping s xs h p c w 0) (hle : w ≤ cfg.tickCountOverflow)
    (hr : Run Kernel.step (fun v a => Disciplined NestedRelease v a ∧ NotUninstalling h v a ∧
      NotSelecting h v a) s tr t) :
    KernelInv t ∧ (ticks tr < w → ∃ xs, SuspendInv t xs ∧ Sleeping t xs h p c w (ticks tr)) := by
  refine hr.induction_on (P := fun tr t => KernelInv t ∧
    (ticks tr < w → ∃ xs, SuspendInv t xs ∧ Sleeping t xs h p c w (ticks tr))) ⟨hk, fun _ => hsl⟩ ?_
  rintro tr t a u o - ⟨hk, hsl⟩ ⟨hd, hun, hsel⟩ hstep
  have hm := hk.move hd hstep
  have hku := move_inv hk hm
  refine ⟨hku, fun hlt => ?_⟩
  rw [ticks_snoc] at hlt ⊢
  obtain ⟨xs, hs, hsl⟩ := hsl (by omega)
  obtain ⟨ys, hsu⟩ := hku.suspend
  refine ⟨ys, hsu, ?_⟩
  by_cases htick : a = .tick
  · subst htick
    rw [if_pos rfl] at hlt ⊢
    cases hm with
    | tick hnest ht => exact hsl.tick hk hs hsu ht hlt hle
  · rw [if_neg htick]
    exact hsl.move hk hs hsu hm htick hun hsel

/-- **Exact wake-up.** A task that delays for `w` ticks, or pends with timeout `w` and is
not selected by a post, is not ready until the `w`-th tick after the call, and that tick
makes it ready, at whatever count the call was made. -/
theorem wake_up_exact {tr tr' : Trace} {c : Call} {w : Nat}
    (hr : RunFromInit (Disciplined NestedRelease) tr s)
    (hc : c = .delayTask w ∨ ∃ ev, c = (Frame.pend ev 0 w).call) (hw : 1 ≤ w)
    (hle : w ≤ cfg.tickCountOverflow) (hd : Disciplined NestedRelease s (.call c))
    (hstep : s.step (.call c) = some (t, .suspended s.currentTask c))
    (hrun : Run Kernel.step (fun v a => Disciplined NestedRelease v a ∧
      NotUninstalling s.currentTask v a ∧ NotSelecting s.currentTask v a) t tr' u) :
    (ticks tr' < w → u.prio s.currentTask = s.prio s.currentTask ∧
      s.prio s.currentTask ∉ u.ready) ∧
    (ticks tr' + 1 = w → ∀ v o, u.step .tick = some (v, o) →
      v.prio s.currentTask = s.prio s.currentTask ∧ s.prio s.currentTask ∈ v.ready) := by
  have hk := run_inv hr
  obtain ⟨xs, hs⟩ := hk.suspend
  have hcaller : s.currentTask = s.caller := by
    obtain ⟨-, v, oc, -, ⟨r, -, -, h⟩ | ⟨task, -, -, ⟨r, -, h⟩ | ⟨-, h⟩⟩⟩ := step_call_inv hstep
    · cases h
    · cases h
    · injection h
  have hm := hk.move hd hstep
  have hkt := move_inv hk hm
  obtain ⟨ys, hst⟩ := hkt.suspend
  have hsl := Sleeping.of_call hk hs hst hc (Nat.one_le_iff_ne_zero.mp hw) hle (hcaller ▸ hm)
  obtain ⟨hku, hasleep⟩ := Sleeping.run hkt ⟨ys, hst, hsl⟩ hle hrun
  constructor
  · intro hlt
    obtain ⟨zs, hsu, hsl⟩ := hasleep hlt
    exact ⟨hsl.prio, hsl.not_ready hsu⟩
  · intro hlast v o htick
    obtain ⟨zs, hsu, hsl⟩ := hasleep (by omega)
    have htriv : Disciplined NestedRelease u .tick := trivial
    cases hku.move htriv htick with
    | tick hnest ht => exact hsl.last_tick hku hsu ht hlast

/-- Two tasks, of priorities 2 and 3, of which the second one runs. -/
def twoTasksScript : List Action :=
  [.call (.installTask false 256 2), .call (.installTask false 256 3), .brtosStart]

set_option maxRecDepth 20000 in
/-- A delay of two ticks, of which one has come. -/
theorem wake_up_exact_delay :
    let s := Run.after Kernel.step (Kernel.init Config.exampleConfig) twoTasksScript
    let t := Run.after Kernel.step s [.call (.delayTask 2)]
    let u := Run.after Kernel.step t [.intEnter, .tick, .intExit, .call (.delayTask 7), .intEnter]
    s.prio s.currentTask = 3 ∧ 3 ∉ u.ready ∧ ∀ v o, u.step .tick = some (v, o) → 3 ∈ v.ready := by
  intro s t u
  have h := wake_up_exact (s := s) (t := t) (u := u) (c := .delayTask 2) (w := 2)
    (Run.of_admits (by decide +kernel)) (Or.inl rfl) (by decide) (by decide) trivial
    (Run.step_of_traceOf (by decide +kernel)) (Run.of_admits (by decide +kernel))
  exact ⟨by decide, (h.1 (by decide +kernel)).2, fun v o hv => (h.2 (by decide +kernel) v o hv).2⟩

set_option maxRecDepth 40000 in
/-- The release of the second mutex sets the ready bit of the delayed task, five ticks
before its time. -/
theorem unnested_release_wakes_early :
    let s := Run.after Kernel.step (Kernel.init Config.exampleConfig) sharedCeilingScript
    let t := Run.after Kernel.step s [.call (.delayTask 5)]
    let u := Run.after Kernel.step t [.call (.mutexRelease (some 1))]
    let tr := Run.traceOf Kernel.step t [.call (.mutexRelease (some 1))]
    RunFromInit (Disciplined AnyRelease)
      (Run.traceOf Kernel.step (Kernel.init Config.exampleConfig) sharedCeilingScript) s ∧
    s.step (.call (.delayTask 5)) = some (t, .suspended s.currentTask (.delayTask 5)) ∧
    Run Kernel.step (fun v a => Disciplined AnyRelease v a ∧
      NotUninstalling s.currentTask v a ∧ NotSelecting s.currentTask v a) t tr u ∧
    ticks tr = 0 ∧ s.prio s.currentTask ∈ u.ready := by
  refine ⟨Run.of_admits ?_, Run.step_of_traceOf ?_, Run.of_admits ?_, ?_, ?_⟩ <;> decide +kernel

end Brtos
