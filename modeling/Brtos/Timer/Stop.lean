import Brtos.Timer.Lists

/-!
# Brtos.Timer.Stop

**When `OSTimerStop` removes its argument.** The list to search is guessed from the
timeout, and the timer is taken to the root with a strict comparison after its timeout has
been set to 0. Both can go wrong: the timer may be in the other list (it is due and has
not been processed, or its timeout equals the tick count after a wrap), and a timer with
timeout 0 that is at the root already stays there and is removed instead.

`stop_removes_iff` says exactly when the right timer goes, for every state that is reached
and whose lists are heaps, whatever is in them twice.
-/

namespace Brtos

open BinaryHeap

variable {tc : TimerConfig} {l : TimerList} {s t : TimerService tc} {p x : Nat}

/-- The timer is in the list exactly once. -/
def TimerList.Once (l : TimerList) (x : Nat) : Prop :=
  ∃ i < l.count + 1, (1 ≤ i ∧ l.timers i = some x) ∧
    ∀ j < l.count + 1, 1 ≤ j → l.timers j = some x → j = i

instance (l : TimerList) (x : Nat) : Decidable (l.Once x) :=
  inferInstanceAs (Decidable (∃ i < l.count + 1, _ ∧ ∀ j < l.count + 1, _))

/-- The order of the heap. -/
abbrev TimerList.Ordered (mem : Nat → Timer) (l : TimerList) : Prop :=
  Heap (timerKey mem) l.count l.timers

namespace TimerService

/-- The list `OSTimerStop` does not look in. -/
def otherList (s : TimerService tc) (p : Nat) : TimerList :=
  if s.stopsInCurrent p then s.future else s.current

/-- The timer is in the list `OSTimerStop` looks in, once, and in that list only; and it
can get to the root there. -/
def Stoppable (s : TimerService tc) (p : Nat) : Prop :=
  (s.stopList p).Once p ∧ ¬ (s.otherList p).Has p ∧
    ((s.stopList p).timers 1 = some p ∨ timerKey s.mem ((s.stopList p).timers 1) ≠ 0)

instance (s : TimerService tc) (p : Nat) : Decidable (s.Stoppable p) :=
  inferInstanceAs (Decidable (_ ∧ _ ∧ (_ ∨ _)))

/-- `OSTimerStop` takes out its argument and nothing else, and leaves heaps. -/
structure StopsExactly (s : TimerService tc) (p : Nat) (t : TimerService tc) : Prop where
  current_gone : ¬ t.current.Has p
  future_gone : ¬ t.future.Has p
  current_others : ∀ x, x ≠ p → (t.current.Has x ↔ s.current.Has x)
  future_others : ∀ x, x ≠ p → (t.future.Has x ↔ s.future.Has x)
  timeouts : ∀ x, x ≠ p → (t.mem x).timeout = (s.mem x).timeout
  current_heap : t.current.Ordered t.mem
  future_heap : t.future.Ordered t.mem

end TimerService

/-! ### One list -/

/-- A timer that is in the list once and can get to the root is what is taken out. -/
theorem takeOut_exact (hf : Filled tc l) (ho : l.Ordered s.mem)
    (hno : ∀ x, (s.mem x).state ≠ .search) (honce : l.Once p)
    (hroot : l.timers 1 = some p ∨ timerKey s.mem (l.timers 1) ≠ 0) :
    ∃ l', s.takeOut l p = some (s.searched p, l') ∧ ¬ l'.Has p ∧
      (∀ x, x ≠ p → (l'.Has x ↔ l.Has x)) ∧ l'.Ordered (s.searched p).mem := by
  obtain ⟨i, hi, ⟨hi1, hpi⟩, huniq⟩ := honce
  have hp : l.Has p := ⟨i, hi, hi1, hpi⟩
  obtain ⟨k, l', ⟨hk1, hk, hpk⟩, htake, hhas, hheap⟩ := hf.takeOut hno hp
  have hki : k = i := huniq k (Nat.lt_succ_of_le hk) hk1 hpk
  have hatk : ∀ j, 1 ≤ j → j ≤ l.count → l.timers j = some p → j = k := fun j hj hn hq =>
    (huniq j (Nat.lt_succ_of_le hn) hj hq).trans hki.symm
  have hroot' : k = 1 ∨ timerKey s.mem (l.timers 1) ≠ 0 :=
    hroot.imp_left fun h => (hatk 1 le_rfl (hk1.trans hk) h).symm
  obtain ⟨hfirst, hup⟩ := hf.siftUp_searched ho hk1 hk hpk hatk hroot'
  have hrearr := (hf.subir (s.searched p).mem hk1 hk).2
  obtain ⟨-, hsame⟩ := hf.rearrange hrearr
  refine ⟨l', htake, ?_, fun x hx => ?_, hheap fun i hi hn _ => hup i hi hn⟩
  · -- the one place of the timer is the root now
    rw [hhas]
    intro hrest
    obtain ⟨j, hj, hn, hq⟩ := hrest.elim
    obtain ⟨f, hinj, hfrom⟩ := hrearr.source
    obtain ⟨ha, hb, hqj⟩ := hfrom j (by omega) hn
    obtain ⟨hc, hd, hq1⟩ := hfrom 1 le_rfl (hk1.trans hk)
    have hj1 := hatk _ ha hb (hqj.symm.trans hq)
    have h11 := hatk _ hc hd (hq1.symm.trans hfirst)
    have := hinj (hj1.trans h11.symm)
    omega
  · rw [hhas, ← hsame x, TimerList.has_iff_rest (by exact hk1.trans hk)]
    refine ⟨Or.inr, fun h => h.resolve_left fun heq => hx ?_⟩
    exact Option.some.inj (heq.symm.trans hfirst)

/-- If the timer is gone afterwards, it was in the list once and could get to the root. -/
theorem takeOut_gone (hf : Filled tc l) (hno : ∀ x, (s.mem x).state ≠ .search) (hp : l.Has p)
    {y : TimerService tc × TimerList} (htake : s.takeOut l p = some y) (hgone : ¬ y.2.Has p) :
    l.Once p ∧ (l.timers 1 = some p ∨ timerKey s.mem (l.timers 1) ≠ 0) := by
  obtain ⟨k, l', ⟨hk1, hk, hpk⟩, htake', hhas, -⟩ := hf.takeOut hno hp
  obtain rfl := Option.some.inj (htake'.symm.trans htake)
  have hrearr := (hf.subir (s.searched p).mem hk1 hk).2
  have hnot : ∀ i, 2 ≤ i → i ≤ l.count →
      siftUp (timerKey (s.searched p).mem) 256 l.timers k i ≠ some p := fun i hi hn hq =>
    hgone ((hhas p).mpr (.intro hi hn hq))
  obtain ⟨g, hinj, hto⟩ := hrearr.symm.source
  have hone : ∀ j, 1 ≤ j → j ≤ l.count → l.timers j = some p → g j = 1 := by
    intro j hj hn hq
    obtain ⟨ha, hb, heq⟩ := hto j hj hn
    by_contra hne
    exact hnot (g j) (by omega) hb (heq.symm.trans hq)
  have hfirst : siftUp (timerKey (s.searched p).mem) 256 l.timers k 1 = some p := by
    obtain ⟨-, -, heq⟩ := hto k hk1 hk
    rw [← hone k hk1 hk hpk, ← heq]
    exact hpk
  refine ⟨⟨k, Nat.lt_succ_of_le hk, ⟨hk1, hpk⟩, fun j hj hj1 hq => ?_⟩, ?_⟩
  · exact hinj ((hone j hj1 (Nat.le_of_lt_succ hj) hq).trans (hone k hk1 hk hpk).symm)
  · by_contra hcond
    obtain ⟨hne, hzero⟩ := not_or.mp hcond
    have hk' : 1 < k := by
      refine lt_of_le_of_ne hk1 fun h => hne ?_
      exact h.symm ▸ hpk
    -- the root has the timeout 0 and stays where it is
    obtain ⟨r, hr⟩ := hf.filled 1 le_rfl (hk1.trans hk)
    have hrp : r ≠ p := fun h => hne (h ▸ hr)
    have hstay : siftUp (timerKey (s.searched p).mem) 256 l.timers k 1 = l.timers 1 := by
      refine siftUp_root_eq hk' ?_
      rw [hr, timerKey_some, s.searched_of_ne hrp]
      rw [hr, timerKey_some, not_not] at hzero
      omega
    exact hne (hstay.symm.trans hfirst)

/-! ### The call -/

/-- `OSTimerStop` on the list it looks in. -/
theorem osTimerStop_eq (s : TimerService tc) (p : Nat) (del : Bool) :
    s.osTimerStop (some p) del = (s.takeOut (s.stopList p) p).map fun x =>
      ((if s.stopsInCurrent p then x.1.setCurrent x.2 else x.1.setFuture x.2).setTimer p fun t =>
        if del then { t with state := .notUsed, funcCb := none } else { t with state := .stopped },
        .ok) := by
  unfold TimerService.osTimerStop TimerService.stopList
  by_cases hin : s.stopsInCurrent p = true
  · simp only [if_pos hin]
    rw [Option.map_map]
    rfl
  · simp only [if_neg hin]
    rw [Option.map_map]
    rfl

/-- The new state of the timer is no timeout. -/
theorem timeout_stopped (s : TimerService tc) (p x : Nat) (del : Bool) :
    ((s.setTimer p fun t => if del then { t with state := .notUsed, funcCb := none }
      else { t with state := .stopped }).mem x).timeout = (s.mem x).timeout := by
  by_cases hx : x = p
  · rw [hx]
    simp only [TimerService.setTimer, Function.update_self]
    split <;> rfl
  · simp only [TimerService.setTimer, Function.update_of_ne hx]

/-- A heap stays one when the timeouts of its timers do not change. -/
theorem TimerList.Ordered.congr {mem mem' : Nat → Timer} (ho : l.Ordered mem)
    (hf : Filled tc l) (h : ∀ x, l.Has x → (mem' x).timeout = (mem x).timeout) : l.Ordered mem' := by
  intro i hi hn
  obtain ⟨q, hq⟩ := hf.filled (i / 2) (by omega) (by omega)
  obtain ⟨r, hr⟩ := hf.filled i (by omega) hn
  have hord := ho i hi hn
  rw [hq, hr, timerKey_some, timerKey_some] at hord ⊢
  rw [h q (.intro (by omega) (by omega) hq), h r (.intro (by omega) hn hr)]
  exact hord

/-- The heaps after the timer has been taken out of `l` and has got its new state. -/
theorem ordered_stopped {u : TimerService tc} {l' : TimerList} {del : Bool}
    (hl' : l'.Ordered (s.searched p).mem) (hu : u.mem = (s.searched p).mem) :
    l'.Ordered (u.setTimer p fun t => if del then { t with state := .notUsed, funcCb := none }
      else { t with state := .stopped }).mem := by
  have hkey : timerKey (u.setTimer p fun t => if del then
      { t with state := .notUsed, funcCb := none } else { t with state := .stopped }).mem =
      timerKey (s.searched p).mem := by
    funext o
    cases o with
    | none => rfl
    | some q => rw [timerKey_some, timerKey_some, timeout_stopped, hu]
  unfold TimerList.Ordered
  rw [hkey]
  exact hl'

/-- The other timers keep their timeouts. -/
theorem timeout_taken {u : TimerService tc} {del : Bool} (hu : u.mem = (s.searched p).mem)
    (hx : x ≠ p) :
    ((u.setTimer p fun t => if del then { t with state := .notUsed, funcCb := none }
      else { t with state := .stopped }).mem x).timeout = (s.mem x).timeout := by
  rw [timeout_stopped, hu, s.searched_of_ne hx]

/-- The list the timer is not in stays a heap. -/
theorem ordered_other {u : TimerService tc} {del : Bool} (hf : Filled tc l)
    (ho : l.Ordered s.mem) (hnot : ¬ l.Has p) (hu : u.mem = (s.searched p).mem) :
    l.Ordered (u.setTimer p fun t => if del then { t with state := .notUsed, funcCb := none }
      else { t with state := .stopped }).mem :=
  ho.congr hf fun _ hx => timeout_taken hu fun h => hnot (h ▸ hx)

/-- **When `OSTimerStop` removes exactly its argument**: in every state that is reached and
whose lists are heaps, and for every timer in one of them, if and only if the timer is in
the list it looks in, once, and not in the other one, and is at the root there or the root
has another timeout than 0. -/
theorem stop_removes_iff {tr : List (TimerAct × TimerObs)}
    (hr : Run TimerService.step (fun _ _ => True) (TimerService.init tc) tr s)
    (hcur : s.current.Ordered s.mem) (hfut : s.future.Ordered s.mem)
    (hp : s.current.Has p ∨ s.future.Has p) (del : Bool) :
    (∃ t, s.osTimerStop (some p) del = some (t, .ok) ∧ s.StopsExactly p t) ↔ s.Stoppable p := by
  have hpacked := PackedLists.run hr (.init tc)
  have hno := hpacked.noSearch
  rw [osTimerStop_eq]
  by_cases hin : s.stopsInCurrent p = true
  · have hlist : s.stopList p = s.current := if_pos hin
    have hother : s.otherList p = s.future := if_pos hin
    unfold TimerService.Stoppable
    rw [hlist, hother]
    simp only [if_pos hin]
    constructor
    · intro ⟨t, hstop, hexact⟩
      obtain ⟨⟨u, l'⟩, htake, ht⟩ := Option.map_eq_some_iff.mp hstop
      obtain ⟨rfl, -⟩ := Prod.mk.inj ht
      obtain ⟨rfl, -⟩ := hpacked.current.takeOut hno htake
      obtain ⟨honce, hroot⟩ := takeOut_gone hpacked.current.toFilled hno
        (hp.resolve_right hexact.future_gone) htake hexact.current_gone
      exact ⟨honce, hexact.future_gone, hroot⟩
    · intro ⟨honce, hnot, hroot⟩
      obtain ⟨l', htake, hgone, hothers, hheap⟩ :=
        takeOut_exact hpacked.current.toFilled hcur hno honce hroot
      rw [htake]
      exact ⟨_, rfl, hgone, hnot, hothers, fun _ _ => Iff.rfl, fun _ => timeout_taken rfl,
        ordered_stopped hheap rfl, ordered_other hpacked.future.toFilled hfut hnot rfl⟩
  · have hlist : s.stopList p = s.future := if_neg hin
    have hother : s.otherList p = s.current := if_neg hin
    unfold TimerService.Stoppable
    rw [hlist, hother]
    simp only [if_neg hin]
    constructor
    · intro ⟨t, hstop, hexact⟩
      obtain ⟨⟨u, l'⟩, htake, ht⟩ := Option.map_eq_some_iff.mp hstop
      obtain ⟨rfl, -⟩ := Prod.mk.inj ht
      obtain ⟨rfl, -⟩ := hpacked.future.takeOut hno htake
      obtain ⟨honce, hroot⟩ := takeOut_gone hpacked.future.toFilled hno
        (hp.resolve_left hexact.current_gone) htake hexact.future_gone
      exact ⟨honce, hexact.current_gone, hroot⟩
    · intro ⟨honce, hnot, hroot⟩
      obtain ⟨l', htake, hgone, hothers, hheap⟩ :=
        takeOut_exact hpacked.future.toFilled hfut hno honce hroot
      rw [htake]
      exact ⟨_, rfl, hnot, hgone, fun _ _ => Iff.rfl, hothers, fun _ => timeout_taken rfl,
        ordered_other hpacked.current.toFilled hcur hnot rfl, ordered_stopped hheap rfl⟩

/-- Three timers, one of them past the wrap. -/
def stopScript : List TimerAct :=
  [.call (.set true (some 0) 9), .call (.set true (some 1) 5), .call (.set true (some 2) 65532)]

/-- The state after a script. -/
abbrev timersAfter (as : List TimerAct) : TimerService exampleTimerConfig :=
  Run.after TimerService.step (TimerService.init exampleTimerConfig) as

/-- The timer that comes second is stopped, with another one in either list. -/
theorem stop_removes_iff_second :
    ∃ t, (timersAfter stopScript).osTimerStop (some 0) false = some (t, .ok) ∧
      (timersAfter stopScript).StopsExactly 0 t := by
  have hrun : Run TimerService.step KeepsLists (TimerService.init exampleTimerConfig) _
      (timersAfter stopScript) := Run.of_admits (by decide +kernel)
  have hinv := timerInv_run (fun _ _ h => h) hrun
  exact (stop_removes_iff (hrun.mono fun _ _ _ => trivial) hinv.current.ordered
    hinv.future.ordered (by decide +kernel) false).mpr (by decide +kernel)

/-- **A stop that does not find its timer**: the timer is due since the last tick and has
not been processed. `OSTimerStop` looks for it in the future list and returns `OK`, and
the timer is still in the current one. -/
theorem stop_looks_in_future :
    let s := timersAfter [.call (.set true (some 0) 2), .brtosStart, .task 0, .task 0, .task 0,
      .tick, .tick, .tick]
    ∃ tr t, Run TimerService.step KeepsLists (TimerService.init exampleTimerConfig) tr s ∧
      TimerInv s ∧ (s.mem 0).state = .running ∧ s.current.Has 0 ∧
      s.osTimerStop (some 0) false = some (t, .ok) ∧ t.current.Has 0 := by
  have hrun : Run TimerService.step KeepsLists (TimerService.init exampleTimerConfig) _
      (timersAfter [.call (.set true (some 0) 2), .brtosStart, .task 0, .task 0, .task 0,
        .tick, .tick, .tick]) := Run.of_admits (by decide +kernel)
  refine ⟨_, _, hrun, timerInv_run (fun _ _ h => h) hrun, ?_, ?_, rfl, ?_⟩
  all_goals decide +kernel

end Brtos
