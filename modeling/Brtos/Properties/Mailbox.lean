import Brtos.Invariant.Selected

/-!
# Brtos.Properties.Mailbox

**Single delivery of mailbox messages.** A mailbox has one slot. A post that finds a
waiter selects it and leaves the message in the slot, marked available; the waiter
takes it when it runs again. Until then the slot is anybody's: a second post overwrites
the message, and a pend that does not wait takes it, while the selected task copies
whatever the slot holds when its turn comes.

So a message may be received twice (`mailbox_message_received_twice`). It is not in
runs that leave the mailbox alone while a selected task is on its way
(`LeavesSelected`): there every receipt directly follows the post it is of, and a
waiter that a post selected receives that post's message
(`mailbox_single_delivery`).
-/

namespace Brtos

open Bits Kernel

variable {cfg : Config} {s t u : Kernel cfg} {rule : Kernel cfg → Nat → Prop} {e : Nat}

/-! ### The history of a mailbox -/

/-- A message put into a mailbox, and one a pend returned with `OK`. -/
inductive Letter
  | posted (message : Nat)
  | received (task message : Nat)
  deriving DecidableEq, Repr

/-- What an action has to do with the messages of mailbox `e`. -/
def letter (e : Nat) (x : Action × Obs) : Option Letter :=
  match x.2 with
  | .returned _ (.mboxPost (some e') message) r =>
    if e' = e ∧ r.code = .ok then some (.posted message) else none
  | .returned h (.mboxPend (some e') _) ⟨.ok, .message message⟩ =>
    if e' = e then some (.received h message) else none
  | _ => none

/-- The history of mailbox `e`, created with the message `initial`; `NULL` is no message. -/
def letters (e initial : Nat) (tr : Trace) : List Letter :=
  (if initial = 0 then [] else [.posted initial]) ++ tr.filterMap (letter e)

theorem letters_snoc (e initial : Nat) (tr : Trace) (x : Action × Obs) :
    letters e initial (tr ++ [x]) = letters e initial tr ++ (letter e x).toList := by
  unfold letters
  rw [List.filterMap_append, List.append_assoc]
  cases h : letter e x <;> simp [h]

/-- Every receipt is of an earlier post with that message, and no two receipts are of
the same post. -/
def SingleDelivery (ls : List Letter) : Prop :=
  ∃ source : Nat → Nat,
    (∀ i h message, ls[i]? = some (.received h message) →
      source i < i ∧ ls[source i]? = some (.posted message)) ∧
    ∀ i j h h' message message', ls[i]? = some (.received h message) →
      ls[j]? = some (.received h' message') → source i = source j → i = j

/-- Every receipt directly follows the post it is of. -/
def Alternating (ls : List Letter) : Prop :=
  ∀ i h message, ls[i]? = some (.received h message) →
    0 < i ∧ ls[i - 1]? = some (.posted message)

theorem Alternating.singleDelivery {ls : List Letter} (ha : Alternating ls) :
    SingleDelivery ls := by
  refine ⟨fun i => i - 1, ?_, ?_⟩
  · intro i h message hi
    obtain ⟨hpos, hpost⟩ := ha i h message hi
    exact ⟨Nat.sub_lt hpos Nat.one_pos, hpost⟩
  · intro i j h h' message message' hi hj heq
    have hipos := (ha i h message hi).1
    have hjpos := (ha j h' message' hj).1
    have heq : i - 1 = j - 1 := heq
    omega

/-- A post may come at any time. -/
theorem Alternating.post {ls : List Letter} (ha : Alternating ls) (message : Nat) :
    Alternating (ls ++ [.posted message]) := by
  intro i h message' hi
  rcases Nat.lt_trichotomy i ls.length with hlt | heq | hgt
  · rw [List.getElem?_append_left hlt] at hi
    obtain ⟨hpos, hpost⟩ := ha i h message' hi
    exact ⟨hpos, by rwa [List.getElem?_append_left (by omega)]⟩
  · subst heq
    simp at hi
  · rw [List.getElem?_eq_none (by simp; omega)] at hi
    cases hi

/-- A receipt comes after the post of its message. -/
theorem Alternating.receive {ls : List Letter} (ha : Alternating ls) {message : Nat} (h : Nat)
    (hlast : ls.getLast? = some (.posted message)) :
    Alternating (ls ++ [.received h message]) := by
  have hlen : 0 < ls.length := by
    cases ls
    · cases hlast
    · simp
  intro i h' message' hi
  rcases Nat.lt_trichotomy i ls.length with hlt | heq | hgt
  · rw [List.getElem?_append_left hlt] at hi
    obtain ⟨hpos, hpost⟩ := ha i h' message' hi
    exact ⟨hpos, by rwa [List.getElem?_append_left (by omega)]⟩
  · subst heq
    simp only [List.getElem?_concat_length, Option.some.injEq, Letter.received.injEq] at hi
    obtain ⟨-, rfl⟩ := hi
    rw [List.getLast?_eq_getElem?] at hlast
    exact ⟨hlen, by rwa [List.getElem?_append_left (by omega)]⟩
  · rw [List.getElem?_eq_none (by simp; omega)] at hi
    cases hi

/-! ### What a step does to a mailbox -/

/-- What a step does to the slot of mailbox `e`, to its selected tasks and to its
history. -/
inductive MboxStep (e : Nat) (s t : Kernel cfg) (a : Action) (o : Obs) : Prop
  | quiet (hslot : t.mboxTable e = s.mboxTable e)
      (hsel : t.selected (.mbox e) = s.selected (.mbox e))
      (hres : a = .resume → s.currentTask ∉ s.selected (.mbox e))
      (hletter : letter e (a, o) = none)
  | stored {message : Nat} (ha : a = .call (.mboxPost (some e) message))
      (hempty : s.waiting (.mbox e) = ∅)
      (hslot : t.mboxTable e = ⟨.availableMessage, message⟩)
      (hsel : t.selected (.mbox e) = s.selected (.mbox e))
      (hletter : letter e (a, o) = some (.posted message))
  | selected {message h : Nat} (ha : a = .call (.mboxPost (some e) message))
      (hslot : t.mboxTable e = ⟨.availableMessage, message⟩)
      (hsel : t.selected (.mbox e) = insert h (s.selected (.mbox e)))
      (hletter : letter e (a, o) = some (.posted message))
  | taken {timeWait : Nat} (ha : a = .call (.mboxPend (some e) timeWait))
      (hst : (s.mboxTable e).osEventState = .availableMessage) (hwho : s.inTask = true)
      (hslot : t.mboxTable e = { s.mboxTable e with osEventState := .noMessage })
      (hsel : t.selected (.mbox e) = s.selected (.mbox e))
      (hletter : letter e (a, o) =
        some (.received s.caller (s.mboxTable e).osEventPointer))
  | woken {timeWait : Nat} (ha : a = .resume) (hcur : s.currentTask ∈ s.selected (.mbox e))
      (ho : o = .returned s.currentTask (.mboxPend (some e) timeWait)
        ⟨.ok, .message (s.mboxTable e).osEventPointer⟩)
      (hslot : t.mboxTable e = { s.mboxTable e with osEventState := .noMessage })
      (hsel : t.selected (.mbox e) = (s.selected (.mbox e)).erase s.currentTask)
      (hletter : letter e (a, o) =
        some (.received s.currentTask (s.mboxTable e).osEventPointer))

/-- Calls that are not about mailbox `e` do not enter its history. -/
theorem letter_elsewhere {c : Call} {h : Nat} {r : Ret} {a : Action}
    (hpend : ∀ timeWait, c ≠ .mboxPend (some e) timeWait)
    (hpost : ∀ message, c ≠ .mboxPost (some e) message) :
    letter e (a, .returned h c r) = none := by
  unfold letter
  split
  · rename_i e' message r' heq
    cases heq
    refine if_neg ?_
    rintro ⟨rfl, -⟩
    exact hpost message rfl
  · rename_i e' tw message heq
    cases heq
    refine if_neg ?_
    rintro rfl
    exact hpend tw rfl
  · rfl

/-- A call that fails does not enter the history. -/
theorem letter_error {a : Action} {h : Nat} {c : Call} {r : Ret} (hr : r.code.isError = true) :
    letter e (a, .returned h c r) = none := by
  have hne : r.code ≠ .ok := by
    intro heq
    rw [heq] at hr
    cases hr
  unfold letter
  split
  · rename_i heq
    cases heq
    exact if_neg fun hok => hne hok.2
  · rename_i heq
    cases heq
    exact absurd rfl hne
  · rfl

theorem takeCeiling_mboxTable (s : Kernel cfg) (m p : Nat) :
    (s.takeCeiling m p).mboxTable = s.mboxTable := by
  obtain ⟨ready, pv, ctx, mt, ht⟩ := takeCeiling_eq s m p
  rw [ht]

theorem giveUp_mboxTable (s : Kernel cfg) (m : Nat) : (s.giveUp m).mboxTable = s.mboxTable := by
  obtain ⟨ready, ctx, hr⟩ := restorePriority_eq s m
  rw [giveUp, hr]
  rfl

/-- The slot of mailbox `e` is left alone by the calls that are not about it. -/
theorem effect_mboxTable {c : Call} {oc : Outcome} (he : Effect rule s c u oc)
    (ha : s.Allocated (.mbox e)) (hpend : ∀ timeWait, c ≠ .mboxPend (some e) timeWait)
    (hpost : ∀ message, c ≠ .mboxPost (some e) message) (hdel : c ≠ .mboxDelete (some e)) :
    u.mboxTable e = s.mboxTable e := by
  cases he with
  | uninstalledDelayed =>
      unfold clearTcb
      split <;> rfl
  | waited => rw [SuspendInv.waitEvent_eq]
  | mboxCreated hfree =>
      refine Function.update_of_ne ?_ _ _
      rintro rfl
      exact (freeEvent_spec hfree).2 ha
  | mboxDeleted =>
      refine Function.update_of_ne ?_ _ _
      rintro rfl
      exact hdel rfl
  | mboxTaken =>
      refine Function.update_of_ne ?_ _ _
      rintro rfl
      exact hpend _ rfl
  | mboxSelected | mboxStored =>
      refine Function.update_of_ne ?_ _ _
      rintro rfl
      exact hpost _ rfl
  | mutexCreated =>
      dsimp only [setMutex, allocEvent, setEvent]
      split <;> rfl
  | acquired =>
      rename_i m tw _ _ _ _
      exact congrFun (takeCeiling_mboxTable (s.setMutex m fun c =>
        { c with osEventState := .busyResource, osEventOwner := s.currentTask }) m
        (s.prio s.currentTask)) e
  | released =>
      rename_i m _ _ _ _ _
      have hslot := congrFun (giveUp_mboxTable s m) e
      unfold freeMutex
      dsimp only [setMutex, setPriorityVector]
      split <;> exact hslot
  | handedOff =>
      rename_i m _ _ _ _ _
      have hslot := congrFun (giveUp_mboxTable s m) e
      unfold giveUp at hslot ⊢
      rw [handOff_eq]
      exact hslot
  | _ => rfl

/-- A call that is not about mailbox `e`. -/
theorem MboxStep.of_call_elsewhere (hk : KernelInv s) {c : Call} {o : Obs}
    (hm : Move rule s (.call c) t o) (ha : s.Allocated (.mbox e))
    (hpend : ∀ timeWait, c ≠ .mboxPend (some e) timeWait)
    (hpost : ∀ message, c ≠ .mboxPost (some e) message)
    (hdel : c ≠ .mboxDelete (some e)) : MboxStep e s t (.call c) o := by
  have hsig : c.signals ≠ some (.mbox e) := by
    unfold Call.signals
    split
    case h_2 e' message =>
      intro h
      cases h
      exact hpost message rfl
    all_goals simp
  have hwait := (move_wait hk hm).of_call_elsewhere (.mbox e) hpend hsig
  refine .quiet ?_ (selected_same _ hk hm hwait fun h => by cases h) (fun h => by cases h) ?_
  · cases hm with
    | returned _ he => exact effect_mboxTable he ha hpend hpost hdel
    | switched _ he => exact (effect_mboxTable he ha hpend hpost hdel :)
    | suspended _ he => exact (effect_mboxTable he ha hpend hpost hdel :)
  · cases hm with
    | returned => exact letter_elsewhere hpend hpost
    | switched => exact letter_elsewhere hpend hpost
    | suspended => rfl

/-- How the critical section of `OSMboxPend` ends. -/
theorem Effect.mboxPend_cases {timeWait : Nat} {oc : Outcome}
    (he : Effect rule s (.mboxPend (some e) timeWait) u oc) :
    (u = s ∧ ∃ r, oc = .returned r ∧ r.code.isError = true) ∨
    ((s.mboxTable e).osEventState = .availableMessage ∧ s.inTask = true ∧
      u = (s.takeMessage e).1 ∧ oc = .returned (s.takeMessage e).2) ∨
    (s.inTask = true ∧ u = s.waitEvent (.mbox e) timeWait ∧ oc = .suspended) := by
  generalize hc : Call.mboxPend (some e) timeWait = c at he
  cases he with
  | refused hr => exact Or.inl ⟨rfl, _, rfl, hr⟩
  | mboxTaken hwho hev hst =>
      cases hc
      exact Or.inr (Or.inl ⟨hst, hwho, rfl, rfl⟩)
  | waited hwho hev htw hun =>
      rename_i ev tw
      obtain ⟨rfl, rfl⟩ : ev = .mbox e ∧ tw = timeWait := by
        cases ev <;> cases hc
        exact ⟨rfl, rfl⟩
      exact Or.inr (Or.inr ⟨hwho, rfl, rfl⟩)
  | queueRead h =>
      subst hc
      rcases h with h | ⟨_, h⟩ <;> cases h
  | queueWritten h =>
      subst hc
      rcases h with h | ⟨h, -⟩ <;> cases h
  | blocked hb =>
      subst hc
      cases hb
  | semCreated h =>
      subst hc
      rcases h with ⟨_, h, -⟩ | ⟨_, h, -⟩ <;> cases h
  | _ => cases hc

/-- How the critical section of `OSMboxPost` ends. -/
theorem Effect.mboxPost_cases {message : Nat} {oc : Outcome}
    (he : Effect rule s (.mboxPost (some e) message) u oc) :
    (u = s ∧ ∃ r, oc = .returned r ∧ r.code.isError = true) ∨
    ((s.event (.mbox e)).osEventWait ≠ 0 ∧
      u = (s.wakeWaiter (.mbox e)).setMbox e (fun _ => ⟨.availableMessage, message⟩) ∧
      oc = s.afterWake RetCode.ok.ret) ∨
    ((s.event (.mbox e)).osEventWait = 0 ∧
      u = s.setMbox e (fun _ => ⟨.availableMessage, message⟩) ∧
      oc = .returned RetCode.ok.ret) := by
  generalize hc : Call.mboxPost (some e) message = c at he
  cases he with
  | refused hr => exact Or.inl ⟨rfl, _, rfl, hr⟩
  | mboxSelected hev hw =>
      cases hc
      exact Or.inr (Or.inl ⟨hw, rfl, rfl⟩)
  | mboxStored hev hw =>
      cases hc
      exact Or.inr (Or.inr ⟨hw, rfl, rfl⟩)
  | waited =>
      rename_i ev _ _ _ _ _
      cases ev <;> cases hc
  | queueRead h =>
      subst hc
      rcases h with h | ⟨_, h⟩ <;> cases h
  | queueWritten h =>
      subst hc
      rcases h with h | ⟨h, -⟩ <;> cases h
  | blocked hb =>
      subst hc
      cases hb
  | semCreated h =>
      subst hc
      rcases h with ⟨_, h, -⟩ | ⟨_, h, -⟩ <;> cases h
  | _ => cases hc

/-- A pend on mailbox `e`: it fails, takes the message, or waits. -/
theorem MboxStep.of_pend (hk : KernelInv s) {timeWait : Nat} {o : Obs}
    (hm : Move rule s (.call (.mboxPend (some e) timeWait)) t o) :
    MboxStep e s t (.call (.mboxPend (some e) timeWait)) o := by
  have hm' := hm
  obtain ⟨-, u, oc, he, ⟨task, rfl⟩, ho⟩ := hm'.call_inv
  have hcall : ∀ {b : Prop}, Action.call (.mboxPend (some e) timeWait) = .resume → b :=
    fun h => by cases h
  rcases he.mboxPend_cases with ⟨rfl, r, rfl, hr⟩ | ⟨hst, hwho, rfl, rfl⟩ | ⟨hwho, rfl, rfl⟩
  · rcases ho with ⟨r', h | h, rfl⟩ | ⟨h, -⟩ <;> cases h
    exact .quiet rfl (selected_same _ hk hm rfl hcall) hcall (letter_error hr)
  · rcases ho with ⟨r', h | h, rfl⟩ | ⟨h, -⟩ <;> cases h
    refine .taken rfl hst hwho (Function.update_self _ _ _) (selected_same _ hk hm rfl hcall) ?_
    simp [letter, takeMessage]
  · rcases ho with ⟨r', h | h, rfl⟩ | ⟨-, rfl⟩
    · cases h
    · cases h
    · have hwait := waiting_waitEvent (.mbox e) timeWait
        (hk.table.prio_lt (hk.calling hwho).installed) (.mbox e)
      rw [if_pos rfl] at hwait
      refine .quiet ?_ (selected_join hk hm (by simp) hwho hwait) hcall rfl
      rw [SuspendInv.waitEvent_eq]

/-- A post on mailbox `e`: it fails, selects the best waiter, or fills the slot. -/
theorem MboxStep.of_post (hk : KernelInv s) {message : Nat} {o : Obs}
    (hm : Move rule s (.call (.mboxPost (some e) message)) t o) :
    MboxStep e s t (.call (.mboxPost (some e) message)) o := by
  obtain ⟨xs, hs⟩ := hk.suspend
  have hm' := hm
  obtain ⟨-, u, oc, he, ⟨task, rfl⟩, ho⟩ := hm'.call_inv
  have hcall : ∀ {b : Prop}, Action.call (.mboxPost (some e) message) = .resume → b :=
    fun h => by cases h
  rcases he.mboxPost_cases with ⟨rfl, r, rfl, hr⟩ | ⟨hw, rfl, rfl⟩ | ⟨hw, rfl, rfl⟩
  · rcases ho with ⟨r', h | h, rfl⟩ | ⟨h, -⟩ <;> cases h
    exact .quiet rfl (selected_same _ hk hm rfl hcall) hcall (letter_error hr)
  · have ho : o = .returned s.caller (.mboxPost (some e) message) RetCode.ok.ret := by
      rcases afterWake_cases (r := RetCode.ok.ret) s with h' | h' <;> rw [h'] at ho
      all_goals
        rcases ho with ⟨r', h | h, rfl⟩ | ⟨h, -⟩ <;> cases h
        rfl
    subst ho
    have hwait := waiting_leaveWaitList (s := s) (.mbox e) (.mbox e)
      (saScheduler (s.event (.mbox e)).osEventWaitList)
    rw [if_pos rfl] at hwait
    obtain ⟨h, tw, -, -, -, hsel⟩ := selected_insert hk hm (by simp)
      (saScheduler_mem (hs.waiting_nonempty hw)) hwait
    refine .selected rfl (Function.update_self _ _ _) hsel ?_
    simp [letter]
  · rcases ho with ⟨r', h | h, rfl⟩ | ⟨h, -⟩ <;> cases h
    refine .stored rfl (hs.wait_eq_zero.mp hw) (Function.update_self _ _ _)
      (selected_same _ hk hm rfl hcall) ?_
    simp [letter]

/-- The running task continues a call it was suspended in. -/
theorem MboxStep.of_resume (hk : KernelInv s) {o : Obs} (hm : Move rule s .resume t o) :
    MboxStep e s t .resume o := by
  obtain ⟨xs, hs⟩ := hk.suspend
  have hm' := hm
  cases hm with
  | delayEnded hcur hnest hf =>
      have hnot : s.currentTask ∉ s.selected (.mbox e) :=
        not_selected_of_frame fun p tw hf' => by simp [hf] at hf'
      exact .quiet rfl (selected_same _ hk hm' rfl fun _ => hnot) (fun _ => hnot) rfl
  | timedOut hcur hnest hf ht =>
      rename_i ev p tw
      have hwait := waiting_leaveWaitList (s := s) ev (.mbox e) p
      by_cases hev : ev = .mbox e
      · subst hev
        rw [if_pos rfl] at hwait
        -- a task that times out is still in the wait list, so no post has selected it
        refine .quiet rfl (selected_leave hk hm' (hk.run hcur).1 hf ht.2.2 hwait) ?_
          (letter_error rfl)
        intro _ hsel
        obtain ⟨-, q, tw', hf', hq⟩ := mem_selected.mp hsel
        rw [hf] at hf'
        cases hf'
        exact hq ht.2.2
      · rw [if_neg (Ne.symm hev)] at hwait
        have hnot : s.currentTask ∉ s.selected (.mbox e) := not_selected_of_frame fun q tw' hf' => by
          rw [hf] at hf'
          cases hf'
          exact hev rfl
        exact .quiet rfl (selected_same _ hk hm' hwait fun _ => hnot) (fun _ => hnot)
          (by cases ev <;> rfl)
  | woken hcur hnest hf ht =>
      rename_i ev p tw
      have hnw := hs.selected_of_not_timedOut (hk.run hcur).1 hf (hk.run hcur).2 ht
      obtain ⟨ctx, dl, ops, heq, -⟩ := cancelTimeout_eq s tw
      rw [heq] at hm' ⊢
      by_cases hev : ev = .mbox e
      · subst hev
        refine .woken rfl (mem_selected.mpr ⟨(hk.run hcur).1, p, tw, hf, hnw⟩) rfl
          (Function.update_self _ _ _) (selected_resume hk hm' rfl) ?_
        simp [letter, Frame.call, Kernel.finishPend, takeMessage]
      · have hnot : s.currentTask ∉ s.selected (.mbox e) := not_selected_of_frame fun q tw' hf' => by
          rw [hf] at hf'
          cases hf'
          exact hev rfl
        cases ev with
        | mutex m =>
            have hevent := (takeCeiling_same
              { s with contextTask := ctx, delayList := dl, delayOps := ops } m p).2.2.1
            have hslot := takeCeiling_mboxTable
              { s with contextTask := ctx, delayList := dl, delayOps := ops } m p
            refine .quiet (congrFun hslot e) (selected_same _ hk hm' ?_ fun _ => hnot)
              (fun _ => hnot) rfl
            dsimp only [Kernel.finishPend, setFrame, noteAcquired, Kernel.waiting]
            rw [hevent]
        | mbox e' =>
            refine .quiet (Function.update_of_ne ?_ _ _) (selected_same _ hk hm' rfl fun _ => hnot)
              (fun _ => hnot) (letter_elsewhere ?_ (by simp [Frame.call]))
            · rintro rfl
              exact hev rfl
            · intro tw' h
              cases h
              exact hev rfl
        | _ => exact .quiet rfl (selected_same _ hk hm' rfl fun _ => hnot) (fun _ => hnot) rfl

/-- Every step other than the delete of the mailbox. -/
theorem move_mbox (hk : KernelInv s) {a : Action} {o : Obs} (hm : Move rule s a t o)
    (ha : s.Allocated (.mbox e)) (hdel : a ≠ .call (.mboxDelete (some e))) :
    MboxStep e s t a o := by
  have hm' := hm
  cases a with
  | call c =>
      by_cases hpend : ∃ timeWait, c = .mboxPend (some e) timeWait
      · obtain ⟨tw, rfl⟩ := hpend
        exact .of_pend hk hm
      · by_cases hpost : ∃ message, c = .mboxPost (some e) message
        · obtain ⟨message, rfl⟩ := hpost
          exact .of_post hk hm
        · exact .of_call_elsewhere hk hm ha (fun tw h => hpend ⟨tw, h⟩)
            (fun message h => hpost ⟨message, h⟩) fun h => hdel (by rw [h])
  | resume => exact .of_resume hk hm
  | tick =>
      cases hm with
      | tick hnest ht =>
          obtain ⟨xs, hs⟩ := hk.suspend
          have hsame := (tick_context hk hs ht).2.same
          refine .quiet ?_ (selected_same _ hk hm' ?_ fun h => by cases h) (fun h => by cases h) rfl
          · rw [hsame]
            rfl
          · rw [Kernel.waiting, hsame]
            rfl
  | brtosStart =>
      cases hm with
      | startFailed =>
          exact .quiet rfl (selected_same _ hk hm' rfl fun h => by cases h) (fun h => by cases h) rfl
      | started hmain hfree hu =>
          subst hu
          exact .quiet rfl (selected_same _ hk hm' rfl fun h => by cases h) (fun h => by cases h) rfl
  | intEnter =>
      cases hm
      exact .quiet rfl (selected_same _ hk hm' rfl fun h => by cases h) (fun h => by cases h) rfl
  | intExit =>
      cases hm with
      | _ =>
          exact .quiet rfl (selected_same _ hk hm' rfl fun h => by cases h) (fun h => by cases h) rfl

/-! ### Leaving the selected task alone -/

/-- No post on mailbox `e`, and no pend that finds its message, comes while a task that
an earlier post selected has not run yet. -/
def LeavesSelected (e : Nat) (s : Kernel cfg) : Action → Prop
  | .call (.mboxPost (some e') _) => e' = e → s.selected (.mbox e) = ∅
  | .call (.mboxPend (some e') _) =>
    e' = e → s.inTask = true → (s.mboxTable e).osEventState = .availableMessage →
      s.selected (.mbox e) = ∅
  | _ => True

instance (e : Nat) (s : Kernel cfg) (a : Action) : Decidable (LeavesSelected e s a) := by
  unfold LeavesSelected
  split <;> infer_instance

/-- The actions of a run that keeps mailbox `e` and leaves its selected tasks alone. -/
def KeepsMailbox (e : Nat) (s : Kernel cfg) (a : Action) : Prop :=
  Disciplined NestedRelease s a ∧ a ≠ .call (.mboxDelete (some e)) ∧ LeavesSelected e s a

instance (e : Nat) (s : Kernel cfg) (a : Action) : Decidable (KeepsMailbox e s a) :=
  inferInstanceAs (Decidable (_ ∧ _ ∧ _))

/-- Mailbox `e` and its history. A message that is available is the last one posted, and
at most one task is on its way to it. -/
structure MboxInv (s : Kernel cfg) (e : Nat) (ls : List Letter) : Prop where
  alloc : s.Allocated (.mbox e)
  alternating : Alternating ls
  last : (s.mboxTable e).osEventState = .availableMessage →
    ls.getLast? = some (.posted (s.mboxTable e).osEventPointer)
  selected : s.selected (.mbox e) = ∅ ∨
    (s.mboxTable e).osEventState = .availableMessage ∧ ∃ h, s.selected (.mbox e) = {h}

theorem move_mbox_allocated (hk : KernelInv s) {a : Action} {o : Obs} (hm : Move rule s a t o)
    (ha : s.Allocated (.mbox e)) (hdel : a ≠ .call (.mboxDelete (some e))) :
    t.Allocated (.mbox e) := by
  refine move_allocated hk hm ha ?_
  intro c hc hd
  subst hc
  unfold Call.deletes at hd
  split at hd <;> cases hd
  exact hdel rfl

/-- **Step lemma.** Every step of such a run keeps the invariant. -/
theorem MboxInv.step {ls : List Letter} (hi : MboxInv s e ls) (hk : KernelInv s) {a : Action}
    {o : Obs} (hm : Move rule s a t o) (hdel : a ≠ .call (.mboxDelete (some e)))
    (hleave : LeavesSelected e s a) : MboxInv t e (ls ++ (letter e (a, o)).toList) := by
  have halloc := move_mbox_allocated hk hm hi.alloc hdel
  cases move_mbox hk hm hi.alloc hdel with
  | quiet hslot hsel hres hletter =>
      rw [hletter, Option.toList_none, List.append_nil]
      refine ⟨halloc, hi.alternating, ?_, ?_⟩
      · rw [hslot]
        exact hi.last
      · rw [hslot, hsel]
        exact hi.selected
  | stored ha hempty hslot hsel hletter =>
      subst ha
      rw [hletter]
      refine ⟨halloc, hi.alternating.post _, fun _ => ?_, Or.inl ?_⟩
      · rw [hslot]
        exact List.getLast?_concat
      · rw [hsel]
        exact hleave rfl
  | selected ha hslot hsel hletter =>
      rename_i message h
      subst ha
      rw [hletter]
      refine ⟨halloc, hi.alternating.post _, fun _ => ?_, Or.inr ⟨by rw [hslot], h, ?_⟩⟩
      · rw [hslot]
        exact List.getLast?_concat
      · rw [hsel, hleave rfl]
        rfl
  | taken ha hst hwho hslot hsel hletter =>
      subst ha
      rw [hletter]
      refine ⟨halloc, hi.alternating.receive _ (hi.last hst), fun h => ?_, Or.inl ?_⟩
      · rw [hslot] at h
        cases h
      · rw [hsel]
        exact hleave rfl hwho hst
  | woken ha hcur ho hslot hsel hletter =>
      -- the only task on its way has arrived
      obtain ⟨hst, h, heq⟩ : (s.mboxTable e).osEventState = .availableMessage ∧
          ∃ h, s.selected (.mbox e) = {h} := by
        refine hi.selected.resolve_left fun hnone => ?_
        rw [hnone] at hcur
        cases hcur
      rw [hletter]
      refine ⟨halloc, hi.alternating.receive _ (hi.last hst), fun h => ?_, Or.inl ?_⟩
      · rw [hslot] at h
        cases h
      · rw [heq, Finset.mem_singleton] at hcur
        rw [hsel, heq, hcur]
        exact Finset.erase_singleton _

/-- Task `h` is on its way to the message in mailbox `e`. -/
structure Owed (s : Kernel cfg) (e h message : Nat) : Prop where
  alloc : s.Allocated (.mbox e)
  selected : s.selected (.mbox e) = {h}
  slot : s.mboxTable e = ⟨.availableMessage, message⟩

/-- The message waits for the selected task. -/
theorem Owed.step {h message : Nat} (hw : Owed s e h message) (hk : KernelInv s) {a : Action}
    {o : Obs} (hm : Move rule s a t o) (hdel : a ≠ .call (.mboxDelete (some e)))
    (hleave : LeavesSelected e s a) (hnot : ∀ c r, (a, o) ≠ (.resume, .returned h c r)) :
    Owed t e h message := by
  have halloc := move_mbox_allocated hk hm hw.alloc hdel
  have hne : s.selected (.mbox e) ≠ ∅ := by
    rw [hw.selected]
    exact Finset.singleton_ne_empty h
  cases move_mbox hk hm hw.alloc hdel with
  | quiet hslot hsel hres hletter => exact ⟨halloc, hsel.trans hw.selected, hslot.trans hw.slot⟩
  | stored ha | selected ha =>
      subst ha
      exact absurd (hleave rfl) hne
  | taken ha hst hwho =>
      subst ha
      exact absurd (hleave rfl hwho hst) hne
  | woken ha hcur ho =>
      rw [hw.selected, Finset.mem_singleton] at hcur
      rw [ha, ho, hcur] at hnot
      exact absurd rfl (hnot _ _)

/-- The selected task receives the message when it runs. -/
theorem Owed.receives {h message : Nat} (hw : Owed s e h message) (hk : KernelInv s) {o : Obs}
    (hm : Move rule s .resume t o) (hcur : s.currentTask = h) :
    ∃ timeWait, o = .returned h (.mboxPend (some e) timeWait) ⟨.ok, .message message⟩ := by
  have hsel : s.currentTask ∈ s.selected (.mbox e) := by
    rw [hw.selected, hcur]
    exact Finset.mem_singleton_self h
  cases MboxStep.of_resume (e := e) hk hm with
  | quiet hslot _ hres => exact absurd hsel (hres rfl)
  | stored ha | selected ha | taken ha => cases ha
  | woken _ _ ho => exact ⟨_, by rw [ho, hw.slot, hcur]⟩

/-- What `OSMboxCreate` leaves behind. -/
theorem mboxCreate_spec {message h : Nat} {c : Call}
    (hstep : s.step (.call (.mboxCreate message)) =
      some (t, .returned h c ⟨.allocEventOk, .event (.mbox e)⟩)) :
    t = (s.allocEvent (.mbox e)).setMbox e fun _ =>
      ⟨if message ≠ 0 then .availableMessage else .noMessage, message⟩ := by
  obtain ⟨-, u, oc, hex, ho⟩ := step_call_inv hstep
  simp only [exec, osMboxCreate] at hex
  split at hex
  · cases hex
    rcases ho with ⟨r, hr, -, h⟩ | ⟨-, -, -, ⟨r, hr, -⟩ | ⟨hr, -⟩⟩ <;> cases hr
    cases h
  · split at hex
    · cases hex
      rcases ho with ⟨r, hr, -, h⟩ | ⟨-, -, -, ⟨r, hr, -⟩ | ⟨hr, -⟩⟩ <;> cases hr
      cases h
    · cases hex
      rcases ho with ⟨r, hr, rfl, h⟩ | ⟨-, -, -, ⟨r, hr, -⟩ | ⟨hr, -⟩⟩ <;> cases hr
      cases h
      rfl

/-- The invariant holds when the mailbox has been created in a block no task is still
pending on. -/
theorem MboxInv.created (hk : KernelInv s) {message : Nat} {o : Obs}
    (hm : Move rule s (.call (.mboxCreate message)) t o) (hno : s.NoPending (.mbox e))
    (ht : t = (s.allocEvent (.mbox e)).setMbox e fun _ =>
      ⟨if message ≠ 0 then .availableMessage else .noMessage, message⟩) :
    MboxInv t e (letters e message []) := by
  have hslot : t.mboxTable e =
      ⟨if message ≠ 0 then .availableMessage else .noMessage, message⟩ := by
    rw [ht]
    exact Function.update_self _ _ _
  have hevent : t.event (.mbox e) = ⟨true, 0, 0⟩ := by
    rw [ht]
    exact Function.update_self _ _ _
  refine ⟨by rw [Kernel.Allocated, hevent], ?_, ?_, Or.inl ?_⟩
  · intro i h message' hi
    by_cases h0 : message = 0
    · simp [letters, h0] at hi
    · cases i <;> simp [letters, h0] at hi
  · rw [hslot]
    intro hst
    by_cases h0 : message = 0
    · simp [h0] at hst
    · simp [letters, h0]
  · rw [Finset.eq_empty_iff_forall_notMem]
    intro h hsel
    obtain ⟨-, hi, p, tw, hf, -⟩ := (mem_selected_move hk hm).mp hsel
    have := hno h hi.2.1 hi
    rw [hf] at this
    simp [Frame.pendsOn] at this

/-! ### Single delivery -/

/-- **Single delivery.** From the creation of a mailbox on, in a control block that no
task is still pending on, and as long as it is not deleted and left alone while a task
that a post selected has not run yet: every pend that returns `OK` returns the message
of an earlier post (or the one of the creation), no two of them that of the same post,
and the task a post selects returns with that post's message. -/
theorem mailbox_single_delivery {tr tr' : Trace} {initial : Nat}
    (hr : RunFromInit (Disciplined NestedRelease) tr s) (hno : s.NoPending (.mbox e))
    (hcreate : s.step (.call (.mboxCreate initial)) =
      some (t, .returned s.caller (.mboxCreate initial) ⟨.allocEventOk, .event (.mbox e)⟩))
    (hrun : Run Kernel.step (KeepsMailbox e) t tr' u) :
    SingleDelivery (letters e initial tr') ∧
    ∀ message v, KeepsMailbox e u (.call (.mboxPost (some e) message)) →
      u.step (.call (.mboxPost (some e) message)) =
        some (v, .returned u.caller (.mboxPost (some e) message) RetCode.ok.ret) →
      u.waiting (.mbox e) ≠ ∅ →
      ∃ h, v.selected (.mbox e) = {h} ∧ h ∉ u.selected (.mbox e) ∧
        ∀ tr'' w x o, Run Kernel.step (KeepsMailbox e) v tr'' w →
          (∀ c r, (Action.resume, Obs.returned h c r) ∉ tr'') →
          w.currentTask = h → w.step .resume = some (x, o) →
          ∃ timeWait, o = .returned h (.mboxPend (some e) timeWait) ⟨.ok, .message message⟩ := by
  have hk := run_inv hr
  have hmt : Move NestedRelease s (.call (.mboxCreate initial)) t _ := hk.move trivial hcreate
  obtain ⟨hku, hiu⟩ : KernelInv u ∧ MboxInv u e (letters e initial tr') := by
    refine hrun.induction_on (P := fun tr v => KernelInv v ∧ MboxInv v e (letters e initial tr))
      ⟨move_inv hk hmt, .created hk hmt hno (mboxCreate_spec hcreate)⟩ ?_
    intro tr v a w o _ hv hok hstep
    obtain ⟨hkv, hiv⟩ := hv
    obtain ⟨hd, hdel, hleave⟩ := hok
    have hm := hkv.move hd hstep
    rw [letters_snoc]
    exact ⟨move_inv hkv hm, hiv.step hkv hm hdel hleave⟩
  refine ⟨hiu.alternating.singleDelivery, ?_⟩
  intro message v hok hpost hwait
  obtain ⟨hd, hdel, hleave⟩ := hok
  have hm := hku.move hd hpost
  have hkv := move_inv hku hm
  have hletter : letter e (.call (.mboxPost (some e) message),
      .returned u.caller (.mboxPost (some e) message) RetCode.ok.ret) =
      some (.posted message) := by
    simp [letter]
  obtain ⟨h, howed, hnot⟩ : ∃ h, Owed v e h message ∧ h ∉ u.selected (.mbox e) := by
    have halloc := move_mbox_allocated hku hm hiu.alloc hdel
    cases move_mbox hku hm hiu.alloc hdel with
    | quiet _ _ _ hnone =>
        rw [hletter] at hnone
        cases hnone
    | stored _ hempty => exact absurd hempty hwait
    | selected ha hslot hsel hposted =>
        rename_i message' h
        cases ha
        refine ⟨h, ⟨halloc, ?_, hslot⟩, ?_⟩
        · rw [hsel, hleave rfl]
          rfl
        · rw [hleave rfl]
          exact Finset.notMem_empty h
    | taken ha => cases ha
    | woken ha => cases ha
  refine ⟨h, howed.selected, hnot, ?_⟩
  intro tr'' w x o hrun' hquiet hcur hres
  -- along the run the task stays owed its message
  obtain ⟨hkw, hww⟩ : KernelInv w ∧ Owed w e h message := by
    refine hrun'.induction_on
      (P := fun tr z => (∀ c r, (Action.resume, Obs.returned h c r) ∉ tr) →
        KernelInv z ∧ Owed z e h message) (fun _ => ⟨hkv, howed⟩) ?_ hquiet
    intro tr y a z o _ ih hok hstep hquiet
    obtain ⟨hky, hoy⟩ := ih fun c r hmem => hquiet c r (List.mem_append_left _ hmem)
    have hm := hky.move hok.1 hstep
    refine ⟨move_inv hky hm, hoy.step hky hm hok.2.1 hok.2.2 fun c r heq => ?_⟩
    exact hquiet c r (List.mem_append_right _ (by simp [heq]))
  have hm : Move NestedRelease w .resume x o := hkw.move trivial hres
  exact hww.receives hkw hm hcur

/-- Tasks 1 and 2 of priorities 3 and 2, and a mailbox with no message. -/
def mailboxSetup : List Action :=
  [.call (.installTask false 256 3), .call (.installTask false 256 2)]

/-- Both tasks wait; an interrupt posts 10, task 1 takes it, and the next post goes to
task 2. -/
def twoLettersScript : List Action :=
  [.brtosStart, .call (.mboxPend (some 0) 0), .call (.mboxPend (some 0) 0), .intEnter,
    .call (.mboxPost (some 0) 10), .intExit, .resume]

set_option maxRecDepth 20000 in
theorem mailbox_single_delivery_twoLetters :
    let s := Run.after Kernel.step (Kernel.init Config.exampleConfig) mailboxSetup
    let t := Run.after Kernel.step s [.call (.mboxCreate 0)]
    let tr := Run.traceOf Kernel.step t twoLettersScript
    let u := Run.after Kernel.step t twoLettersScript
    letters 0 0 tr = [.posted 10, .received 1 10] ∧ SingleDelivery (letters 0 0 tr) ∧
      u.waiting (.mbox 0) = {2} ∧
      ∃ h, (Run.after Kernel.step u [.call (.mboxPost (some 0) 20)]).selected (.mbox 0) = {h} := by
  have hmain := mailbox_single_delivery (e := 0)
    (u := Run.after Kernel.step (Run.after Kernel.step (Run.after Kernel.step
      (Kernel.init Config.exampleConfig) mailboxSetup) [.call (.mboxCreate 0)]) twoLettersScript)
    (Run.of_admits (by decide +kernel)) (by decide +kernel)
    (Run.step_of_traceOf (by decide +kernel)) (Run.of_admits (by decide +kernel))
  refine ⟨by decide +kernel, hmain.1, by decide +kernel, ?_⟩
  obtain ⟨h, hsel, -⟩ := hmain.2 20 _ (by decide +kernel)
    (Run.step_of_traceOf (by decide +kernel)) (by decide +kernel)
  exact ⟨h, hsel⟩

/-- Both tasks wait, and an interrupt posts twice before either of them runs. -/
def twoPostsScript : List Action :=
  [.brtosStart, .call (.mboxPend (some 0) 0), .call (.mboxPend (some 0) 0), .intEnter,
    .call (.mboxPost (some 0) 10), .call (.mboxPost (some 0) 20), .intExit, .resume,
    .call (.mboxPend (some 0) 0), .resume]

/-- Two receipts of the one message `m`. -/
theorem not_singleDelivery {h h' m n : Nat} (hne : m ≠ n) :
    ¬ SingleDelivery [.posted n, .posted m, .received h m, .received h' m] := by
  rintro ⟨source, hof, hinj⟩
  have hsource : ∀ i, i < 4 →
      [Letter.posted n, .posted m, .received h m, .received h' m][i]? = some (.posted m) →
      i = 1 := by
    intro i hi hpost
    match i, hi with
    | 0, _ => simp [Ne.symm hne] at hpost
    | 1, _ => rfl
    | 2, _ => simp at hpost
    | 3, _ => simp at hpost
  obtain ⟨hlt, hpost⟩ := hof 2 h m rfl
  obtain ⟨hlt', hpost'⟩ := hof 3 h' m rfl
  have heq := (hsource _ (by omega) hpost).trans (hsource _ (by omega) hpost').symm
  exact absurd (hinj 2 3 h h' m m rfl rfl heq) (by decide)

set_option maxRecDepth 20000 in
/-- The message of the second post is received twice, and the first post's by nobody. -/
theorem mailbox_message_received_twice :
    let s := Run.after Kernel.step (Kernel.init Config.exampleConfig) mailboxSetup
    let t := Run.after Kernel.step s [.call (.mboxCreate 0)]
    let tr := Run.traceOf Kernel.step t twoPostsScript
    let u := Run.after Kernel.step t twoPostsScript
    Run Kernel.step (Disciplined NestedRelease) t tr u ∧ s.NoPending (.mbox 0) ∧
      letters 0 0 tr = [.posted 10, .posted 20, .received 1 20, .received 2 20] ∧
      ¬ SingleDelivery (letters 0 0 tr) := by
  have hletters : letters 0 0 (Run.traceOf Kernel.step (Run.after Kernel.step (Run.after Kernel.step
      (Kernel.init Config.exampleConfig) mailboxSetup) [.call (.mboxCreate 0)]) twoPostsScript) =
      [.posted 10, .posted 20, .received 1 20, .received 2 20] := by decide +kernel
  refine ⟨Run.of_admits (by decide +kernel), by decide +kernel, hletters, ?_⟩
  rw [hletters]
  exact not_singleDelivery (by decide)

end Brtos
