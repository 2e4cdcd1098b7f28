import Brtos.Timer.Early

/-!
# Brtos.Timer.Get

**The remaining time of a timer.** `OSTimerGet` computes the distance from the tick counter
to the timer's timeout, going around the counter's period if the timeout lies behind
(`osTimerGet_eq`). Arming makes that distance the time asked for, a tick makes it one less,
and nothing else changes it as long as the timer is not armed anew: a step on another timer
leaves the control block alone, and a step on this one that does not arm it takes it out of
`TIMER_RUNNING` (`step_spares`).
-/

namespace Brtos

variable {tc : TimerConfig} {s t u : TimerService tc} {p q x v w n repeats : Nat}

/-! ### Which timer an operation writes -/

/-- Of the control blocks only that of timer `q` may change, and no tick comes. -/
structure OnlyTimer (q : Nat) (s t : TimerService tc) : Prop where
  mem : ∀ p, p ≠ q → t.mem p = s.mem p
  count : t.osTickCounter = s.osTickCounter

namespace OnlyTimer

theorem of_eq (hmem : t.mem = s.mem) (hcount : t.osTickCounter = s.osTickCounter) :
    OnlyTimer q s t :=
  ⟨fun p _ => by rw [hmem], hcount⟩

theorem refl (s : TimerService tc) : OnlyTimer q s s := .of_eq rfl rfl

theorem trans (h : OnlyTimer q s t) (h' : OnlyTimer q t u) : OnlyTimer q s u :=
  ⟨fun p hp => (h'.mem p hp).trans (h.mem p hp), h'.count.trans h.count⟩

theorem of_update {b : Timer} (hmem : t.mem = Function.update s.mem q b)
    (hcount : t.osTickCounter = s.osTickCounter) : OnlyTimer q s t :=
  ⟨fun p hp => by rw [hmem, Function.update_of_ne hp], hcount⟩

theorem setTimer (s : TimerService tc) (f : Timer → Timer) : OnlyTimer q s (s.setTimer q f) :=
  .of_update rfl rfl

theorem setWake (s : TimerService tc) (v : Nat) : OnlyTimer q s (s.setWake v) := by
  unfold TimerService.setWake
  split
  · exact refl s
  · exact .of_eq rfl rfl

theorem armFuture (ht : s.armFuture q v = some t) : OnlyTimer q s t := by
  obtain ⟨list, -, rfl⟩ := Option.map_eq_some_iff.mp ht
  have hlist : OnlyTimer q s ((s.setTimer q fun t => { t with timeout := v }).setFuture list) :=
    .of_update rfl rfl
  exact hlist.trans (setTimer _ _)

theorem armCurrent (ht : s.armCurrent q v = some t) : OnlyTimer q s t := by
  obtain ⟨list, -, ht⟩ := Option.bind_eq_some_iff.mp ht
  obtain ⟨u, hu, rfl⟩ := Option.map_eq_some_iff.mp ht
  have hlist : OnlyTimer q s ((s.setTimer q fun t => { t with timeout := v }).setCurrent list) :=
    .of_update rfl rfl
  refine OnlyTimer.trans ?_ (setTimer u _)
  split at hu
  · obtain ⟨first, -, rfl⟩ := Option.map_eq_some_iff.mp hu
    split
    · exact hlist.trans (setWake _ _)
    · exact hlist
  · exact Option.some.inj hu ▸ hlist

theorem arm (ht : s.arm q n = some t) : OnlyTimer q s t := by
  have hdue : OnlyTimer q s (s.setDue q (s.now + n)) := .of_eq rfl rfl
  unfold TimerService.arm at ht
  dsimp only at ht
  split at ht
  · exact hdue.trans (armFuture ht)
  · exact hdue.trans (armCurrent ht)

theorem takeOut {l : TimerList} {y : TimerService tc × TimerList} (hy : s.takeOut l q = some y) :
    OnlyTimer q s y.1 := by
  obtain ⟨pos, -, hy⟩ := Option.bind_eq_some_iff.mp hy
  obtain ⟨timers, -, hy⟩ := Option.bind_eq_some_iff.mp hy
  obtain ⟨l', -, rfl⟩ := Option.map_eq_some_iff.mp hy
  have hsearch := setTimer (q := q) s fun t => { t with state := .search }
  have hzero := setTimer (q := q) (s.setTimer q fun t => { t with state := .search })
    fun t => { t with timeout := 0 }
  exact hsearch.trans hzero

theorem nextRoot {pc : TaskPc} (ht : s.nextRoot pc = some t) : OnlyTimer q s t := by
  obtain ⟨list, -, rfl⟩ := Option.map_eq_some_iff.mp ht
  exact .of_eq rfl rfl

theorem release (s : TimerService tc) : OnlyTimer q s (s.release q) :=
  .of_update rfl rfl

theorem rearm (s : TimerService tc) (n : Nat) : OnlyTimer q s (s.rearm q n) :=
  .of_update rfl rfl

theorem moveToFuture (ht : s.moveToFuture q v = some t) : OnlyTimer q s t := by
  obtain ⟨list, -, rfl⟩ := Option.map_eq_some_iff.mp ht
  exact .of_update rfl rfl

end OnlyTimer

/-! ### What a step does to a timer -/

/-- The action arms timer `p`: by a call, or by what its callback returned. -/
def TimerService.ArmsTimer (s : TimerService tc) (p : Nat) : TimerAct → Prop
  | .call (.set cbp cb timeWait) =>
    cbp = true ∧ cb.isSome = true ∧ 0 < timeWait ∧
      TimerService.searchFree s.mem tc.brtosMaxTimer 0 = .ok p
  | .call (.start q timeWait) => q = some p ∧ timeWait ≠ 0
  | .task repeats =>
    (s.pc = .drainCallback ∨ s.pc = .callback) ∧ s.p = some p ∧ 0 < s.repeatOf repeats
  | _ => False

instance (s : TimerService tc) (p : Nat) (a : TimerAct) : Decidable (s.ArmsTimer p a) := by
  unfold TimerService.ArmsTimer
  induction a using TimerAct.casesOn with
  | call c => induction c using TimerCall.casesOn <;> infer_instance
  | _ => infer_instance

/-- The timer is as it was, or does not run. -/
structure Spares (p : Nat) (s t : TimerService tc) : Prop where
  mem : t.mem p = s.mem p ∨ (t.mem p).state ≠ .running
  count : t.osTickCounter = s.osTickCounter

theorem OnlyTimer.spares (h : OnlyTimer q s t) (hp : p = q → (t.mem q).state ≠ .running) :
    Spares p s t := by
  refine ⟨?_, h.count⟩
  by_cases hpq : p = q
  · subst hpq
    exact .inr (hp rfl)
  · exact .inl (h.mem p hpq)

theorem Spares.of_eq (hmem : t.mem = s.mem) (hcount : t.osTickCounter = s.osTickCounter) :
    Spares p s t :=
  ⟨.inl (by rw [hmem]), hcount⟩

/-- `OSTimerSet`. -/
theorem Spares.set {cbp : Bool} {cb : Option Nat} {y : TimerService tc × RetCode × Option Nat}
    (hno : ¬ s.ArmsTimer p (.call (.set cbp cb n))) (hy : s.osTimerSet cbp cb n = some y) :
    Spares p s y.1 := by
  cases cb with
  | none => exact Option.some.inj hy ▸ .of_eq rfl rfl
  | some cb =>
      cases cbp with
      | false => exact Option.some.inj hy ▸ .of_eq rfl rfl
      | true =>
          unfold TimerService.osTimerSet at hy
          cases hfree : TimerService.searchFree s.mem tc.brtosMaxTimer 0 with
          | error code =>
              simp only [hfree] at hy
              exact Option.some.inj hy ▸ .of_eq rfl rfl
          | ok q =>
              simp only [hfree] at hy
              obtain ⟨u, hu, rfl⟩ := Option.map_eq_some_iff.mp hy
              have hset := OnlyTimer.setTimer (q := q) s
                fun t => { t with state := .stopped, funcCb := some cb }
              split at hu
              · refine (hset.trans (OnlyTimer.arm hu)).spares ?_
                rintro rfl
                exact absurd ⟨rfl, rfl, ‹0 < n›, hfree⟩ hno
              · obtain rfl := Option.some.inj hu
                exact hset.spares fun _ => by simp [TimerService.setTimer]

/-- `OSTimerStart`. -/
theorem Spares.start {o : Option Nat} {y : TimerService tc × RetCode}
    (hno : ¬ s.ArmsTimer p (.call (.start o n))) (hy : s.osTimerStart o n = some y) :
    Spares p s y.1 := by
  unfold TimerService.osTimerStart at hy
  split at hy
  · rename_i q
    split at hy
    · rename_i hn
      generalize (if n > tc.timerMaxCounter then tc.timerMaxCounter else n) = m at hy
      obtain ⟨u, hu, rfl⟩ := Option.map_eq_some_iff.mp hy
      split at hu
      · refine (OnlyTimer.arm hu).spares ?_
        rintro rfl
        exact absurd ⟨rfl, hn⟩ hno
      · exact Option.some.inj hu ▸ .of_eq rfl rfl
    · exact Option.some.inj hy ▸ .of_eq rfl rfl
  · exact Option.some.inj hy ▸ .of_eq rfl rfl

/-- `OSTimerStop`. -/
theorem Spares.stop {o : Option Nat} {del : Bool} {y : TimerService tc × RetCode}
    (hy : s.osTimerStop o del = some y) : Spares p s y.1 := by
  unfold TimerService.osTimerStop at hy
  split at hy
  · rename_i q
    obtain ⟨u, hu, rfl⟩ := Option.map_eq_some_iff.mp hy
    have hu : OnlyTimer q s u := by
      split at hu
      · obtain ⟨z, hz, rfl⟩ := Option.map_eq_some_iff.mp hu
        exact (OnlyTimer.takeOut hz).trans (.of_eq rfl rfl)
      · obtain ⟨z, hz, rfl⟩ := Option.map_eq_some_iff.mp hu
        exact (OnlyTimer.takeOut hz).trans (.of_eq rfl rfl)
    have hstop := hu.trans (OnlyTimer.setTimer u fun t =>
      if del then { t with state := .notUsed, funcCb := none } else { t with state := .stopped })
    refine hstop.spares fun _ => ?_
    cases del <;> simp [TimerService.setTimer]
  · exact Option.some.inj hy ▸ .of_eq rfl rfl

/-- A timer expires. -/
theorem Spares.fire (s : TimerService tc) (q : Nat) (pc : TaskPc) : Spares p s (s.fire q pc) := by
  have hq : OnlyTimer q s (s.fire q pc) := .of_update rfl rfl
  exact hq.spares fun _ => by simp [TimerService.fire, TimerService.setTimer]

/-- The end of an expiry that frees the timer. -/
theorem Spares.release {pc : TaskPc} (ht : (s.release q).nextRoot pc = some t) : Spares p s t := by
  have hmem : t.mem = (s.release q).mem := by
    obtain ⟨list, -, rfl⟩ := Option.map_eq_some_iff.mp ht
    rfl
  refine ((OnlyTimer.release s).trans (OnlyTimer.nextRoot ht)).spares fun _ => ?_
  rw [hmem]
  simp [TimerService.release, TimerService.setTimer, TimerService.setCurrent]

/-- The end of an expiry that arms the timer again. -/
theorem OnlyTimer.finishDrain (hn : 0 < n) (ht : s.finishDrain q n = some t) : OnlyTimer q s t := by
  unfold TimerService.finishDrain at ht
  rw [if_pos hn] at ht
  obtain ⟨u, hu, ht⟩ := Option.bind_eq_some_iff.mp ht
  exact ((rearm s n).trans (moveToFuture hu)).trans (nextRoot ht)

theorem OnlyTimer.finishExpired (hn : 0 < n) (ht : s.finishExpired q n = some t) :
    OnlyTimer q s t := by
  unfold TimerService.finishExpired at ht
  rw [if_pos hn] at ht
  obtain ⟨u, hu, ht⟩ := Option.bind_eq_some_iff.mp ht
  refine OnlyTimer.trans ?_ (nextRoot ht)
  dsimp only at hu
  split at hu
  · exact (rearm s n).trans (moveToFuture hu)
  · obtain rfl := Option.some.inj hu
    exact (rearm s n).trans (setTimer _ _)

/-- A step of the timer task. -/
theorem Spares.task {o : TimerObs} (hno : ¬ s.ArmsTimer p (.task repeats))
    (ht : s.taskStep repeats = some (t, o)) : Spares p s t := by
  unfold TimerService.taskStep at ht
  have hrepeat : ∀ {q : Nat}, s.pc = .drainCallback ∨ s.pc = .callback → s.p = some q →
      0 < s.repeatOf repeats → p ≠ q := by
    rintro q hpc hq hn rfl
    exact hno ⟨hpc, hq, hn⟩
  split at ht
  case h_8 hpc =>
    -- the callback of the emptying loop is over
    obtain ⟨q, hq, ht⟩ := Option.bind_eq_some_iff.mp ht
    obtain ⟨u, hu, ht⟩ := Option.map_eq_some_iff.mp ht
    cases ht
    by_cases hn : 0 < s.repeatOf repeats
    · exact (OnlyTimer.finishDrain hn hu).spares fun h => absurd h (hrepeat (.inl hpc) hq hn)
    · rw [TimerService.finishDrain, if_neg hn] at hu
      exact .release hu
  case h_10 hpc =>
    -- the callback of an expired timer is over
    obtain ⟨q, hq, ht⟩ := Option.bind_eq_some_iff.mp ht
    obtain ⟨u, hu, ht⟩ := Option.map_eq_some_iff.mp ht
    cases ht
    by_cases hn : 0 < s.repeatOf repeats
    · exact (OnlyTimer.finishExpired hn hu).spares fun h => absurd h (hrepeat (.inr hpc) hq hn)
    · rw [TimerService.finishExpired, if_neg hn] at hu
      exact .release hu
  all_goals repeat' split at ht
  all_goals first | cases ht; exact .of_eq rfl rfl | cases ht; exact .fire s _ _ | cases ht

/-- **Step lemma.** A step that does not arm the timer leaves it as it is or takes it out of
`TIMER_RUNNING`, and only a tick counts. -/
theorem step_spares {a : TimerAct} {o : TimerObs} (hno : ¬ s.ArmsTimer p a)
    (ht : s.step a = some (t, o)) :
    (t.mem p = s.mem p ∨ (t.mem p).state ≠ .running) ∧
      t.osTickCounter = if a = .tick then s.nextCount else s.osTickCounter := by
  unfold TimerService.step at ht
  split at ht
  case isFalse => cases ht
  have hspares : ∀ {a : TimerAct}, a ≠ .tick → Spares p s t →
      (t.mem p = s.mem p ∨ (t.mem p).state ≠ .running) ∧
        t.osTickCounter = if a = .tick then s.nextCount else s.osTickCounter := by
    intro a ha h
    rw [if_neg ha]
    exact ⟨h.mem, h.count⟩
  cases a with
  | call c =>
      cases c with
      | set cbp cb timeWait =>
          obtain ⟨x, hx, ht⟩ := Option.map_eq_some_iff.mp ht
          cases ht
          exact hspares (by simp) (.set hno hx)
      | start o timeWait =>
          obtain ⟨x, hx, ht⟩ := Option.map_eq_some_iff.mp ht
          cases ht
          exact hspares (by simp) (.start hno hx)
      | stop o del =>
          obtain ⟨x, hx, ht⟩ := Option.map_eq_some_iff.mp ht
          cases ht
          exact hspares (by simp) (.stop hx)
  | tick =>
      cases ht
      unfold TimerService.tick
      extract_lets count u
      rw [if_pos rfl]
      split <;> exact ⟨.inl rfl, rfl⟩
  | brtosStart =>
      cases ht
      exact hspares (by simp) (.of_eq rfl rfl)
  | task repeats => exact hspares (by simp) (.task hno ht)

/-! ### The distance to the timeout -/

/-- The values the expression of `OSTimerGet` goes through, computed without a bound. -/
def TimerService.getValues (s : TimerService tc) (p : Nat) : List Int :=
  let tickcount : Int := s.osTickCounter
  let timeout : Int := (s.mem p).timeout
  if (s.mem p).timeout ≥ s.osTickCounter then [timeout - tickcount]
  else
    let timerMaxCounter : Int := tc.timerMaxCounter
    [timerMaxCounter - tickcount, timerMaxCounter - tickcount + timeout,
      timerMaxCounter - tickcount + timeout + 1]

/-- `OSTimerGet` is the distance, and none of its values leaves `TIMER_CNT`. -/
theorem osTimerGet_eq (hc : s.osTickCounter < tc.tickCountOverflow)
    (hv : (s.mem p).timeout < tc.tickCountOverflow) (hrun : (s.mem p).state = .running) :
    s.osTimerGet (some p) = tc.ticksUntil s.osTickCounter (s.mem p).timeout ∧
      (s.getValues p).getLast? = some (s.osTimerGet (some p) : Int) ∧
      ∀ y ∈ s.getValues p, 0 ≤ y ∧ y < 2 ^ tc.tickBits := by
  have hlt := (two_overflow_lt tc).2
  have hcast : ((2 ^ tc.tickBits : Nat) : Int) = 2 ^ tc.tickBits := by norm_cast
  have hmax : tc.timerMaxCounter + 1 = tc.tickCountOverflow := by
    unfold TimerConfig.timerMaxCounter
    omega
  simp only [TimerService.osTimerGet, TimerService.getValues, TimerConfig.ticksUntil, hrun, if_true,
    ← hcast]
  by_cases hge : (s.mem p).timeout ≥ s.osTickCounter
  · simp only [if_pos hge, List.getLast?_singleton, List.mem_singleton, forall_eq,
      Option.some.injEq]
    refine ⟨trivial, ?_, ?_, ?_⟩ <;> omega
  · have hmod : (tc.timerMaxCounter + 2 ^ tc.tickBits - s.osTickCounter + (s.mem p).timeout + 1) %
        2 ^ tc.tickBits = (s.mem p).timeout + tc.tickCountOverflow - s.osTickCounter := by
      rw [show tc.timerMaxCounter + 2 ^ tc.tickBits - s.osTickCounter + (s.mem p).timeout + 1 =
        (s.mem p).timeout + tc.tickCountOverflow - s.osTickCounter + 2 ^ tc.tickBits by omega,
        Nat.add_mod_right, Nat.mod_eq_of_lt (by omega)]
    simp only [if_neg hge, hmod, List.mem_cons, List.not_mem_nil, or_false]
    refine ⟨trivial, ?_, ?_⟩
    · simp only [List.getLast?_cons_cons, List.getLast?_singleton, Option.some.injEq]
      omega
    · rintro y (rfl | rfl | rfl) <;> omega

/-- A tick brings the timeout one tick nearer. -/
theorem ticksUntil_tick (hc : s.osTickCounter < tc.tickCountOverflow) (hv : v < tc.tickCountOverflow)
    (hpos : 0 < tc.ticksUntil s.osTickCounter v) :
    tc.ticksUntil s.nextCount v = tc.ticksUntil s.osTickCounter v - 1 := by
  unfold TimerConfig.ticksUntil at *
  rcases nextCount_cases hc with ⟨h1, h2⟩ | ⟨h1, h2⟩ <;> rw [h2] <;> grind

theorem setWake_mem (s : TimerService tc) (v : Nat) : (s.setWake v).mem = s.mem := by
  unfold TimerService.setWake
  split <;> rfl

/-- The timeout that arming stores. -/
theorem arm_timeout (ht : s.arm p n = some t) :
    (t.mem p).timeout = if tc.wraps (s.osTickCounter + n) then tc.wrapped (s.osTickCounter + n)
      else tc.unwrapped (s.osTickCounter + n) := by
  unfold TimerService.arm at ht
  dsimp only at ht
  split at ht
  · rename_i hwrap
    rw [if_pos (show tc.wraps (s.osTickCounter + n) from hwrap)]
    obtain ⟨list, -, rfl⟩ := Option.map_eq_some_iff.mp ht
    simp [TimerService.setTimer, TimerService.setFuture, TimerConfig.wrapped]
  · rename_i hwrap
    rw [if_neg (show ¬ tc.wraps (s.osTickCounter + n) from hwrap)]
    obtain ⟨list, -, ht⟩ := Option.bind_eq_some_iff.mp ht
    obtain ⟨u, hu, rfl⟩ := Option.map_eq_some_iff.mp ht
    have hmem : (u.mem p).timeout = tc.unwrapped (s.osTickCounter + n) := by
      split at hu
      · obtain ⟨first, -, rfl⟩ := Option.map_eq_some_iff.mp hu
        split
        · rw [setWake_mem]
          simp [TimerService.setTimer, TimerService.setCurrent, TimerConfig.unwrapped]
        · simp [TimerService.setTimer, TimerService.setCurrent, TimerConfig.unwrapped]
      · obtain rfl := Option.some.inj hu
        simp [TimerService.setTimer, TimerService.setCurrent, TimerConfig.unwrapped]
    simpa [TimerService.setTimer] using hmem

/-- It lies as many ticks ahead as the timer is armed for. -/
theorem arm_ticksUntil (hc : s.osTickCounter < tc.tickCountOverflow) (hpos : 0 < n)
    (hn : n ≤ tc.timerMaxCounter) (ht : s.arm p n = some t) :
    (t.mem p).timeout < tc.tickCountOverflow ∧
      tc.ticksUntil s.osTickCounter (t.mem p).timeout = n := by
  rw [arm_timeout ht]
  by_cases hwrap : tc.wraps (s.osTickCounter + n)
  · rw [if_pos hwrap]
    exact (armed_wrapped hc hpos hn hwrap).2
  · rw [if_neg hwrap]
    exact (armed_unwrapped hc hpos hn hwrap).2

/-- The timer, while it runs, has timeout `v`, which lies `d` ticks ahead. -/
structure Ahead (s : TimerService tc) (p v d : Nat) : Prop where
  count_lt : s.osTickCounter < tc.tickCountOverflow
  timeout_lt : v < tc.tickCountOverflow
  ticksUntil : tc.ticksUntil s.osTickCounter v = d
  timeout : (s.mem p).state = .running → (s.mem p).timeout = v

/-- The call that arms the timer puts it ahead by the time asked for. -/
theorem Ahead.of_call {c : TimerCall} {o : TimerObs} (hc : s.osTickCounter < tc.tickCountOverflow)
    (harm : s.ArmsTimer p (.call c)) (hpos : 1 ≤ c.ticks tc) (hw : c.ticks tc ≤ tc.timerMaxCounter)
    (hstep : s.step (.call c) = some (t, o)) : ∃ v, Ahead t p v (c.ticks tc) := by
  have harmed : ∀ {s : TimerService tc} {n : Nat}, s.osTickCounter < tc.tickCountOverflow →
      0 < n → n ≤ tc.timerMaxCounter → s.arm p n = some t → ∃ v, Ahead t p v n := by
    intro s n hc hpos hn ht
    obtain ⟨hlt, hn⟩ := arm_ticksUntil hc hpos hn ht
    have hcount := (OnlyTimer.arm ht).count
    exact ⟨_, hcount ▸ hc, hlt, hcount ▸ hn, fun _ => rfl⟩
  cases c with
  | set cbp cb n =>
      obtain ⟨rfl, hcb, hn, hfree⟩ := harm
      obtain ⟨cb, rfl⟩ := Option.isSome_iff_exists.mp hcb
      obtain ⟨x, hx, ht⟩ := Option.map_eq_some_iff.mp hstep
      cases ht
      simp only [TimerService.osTimerSet, hfree, hn, if_true] at hx
      obtain ⟨u, hu, rfl⟩ := Option.map_eq_some_iff.mp hx
      exact harmed (s := s.setTimer p _) hc hpos hw hu
  | start q n =>
      obtain ⟨rfl, hn⟩ := harm
      obtain ⟨x, hx, ht⟩ := Option.map_eq_some_iff.mp hstep
      cases ht
      have hmin : (if n > tc.timerMaxCounter then tc.timerMaxCounter else n) =
          min n tc.timerMaxCounter := by
        split <;> omega
      have hpos' : 0 < min n tc.timerMaxCounter := hpos
      simp only [TimerService.osTimerStart, if_pos hn, hmin, if_pos hpos'] at hx
      obtain ⟨u, hu, rfl⟩ := Option.map_eq_some_iff.mp hx
      exact harmed hc hpos hw hu
  | stop q del => exact harm.elim

/-- A step that does not arm the timer: the timeout comes nearer with a tick only. -/
theorem Ahead.step {a : TimerAct} {o : TimerObs} {d : Nat} (ha : Ahead s p v d)
    (hno : ¬ s.ArmsTimer p a) (ht : s.step a = some (t, o)) (hd : a = .tick → 0 < d) :
    Ahead t p v (if a = .tick then d - 1 else d) := by
  obtain ⟨hmem, hcount⟩ := step_spares hno ht
  constructor
  case count_lt =>
    rw [hcount]
    split
    · exact nextCount_lt ha.count_lt
    · exact ha.count_lt
  case timeout_lt => exact ha.timeout_lt
  case ticksUntil =>
    rw [hcount]
    split
    · rw [ticksUntil_tick ha.count_lt ha.timeout_lt (ha.ticksUntil ▸ hd ‹_›), ha.ticksUntil]
    · exact ha.ticksUntil
  case timeout =>
    intro hrun
    rcases hmem with hmem | hmem
    · rw [hmem] at hrun ⊢
      exact ha.timeout hrun
    · exact absurd hrun hmem

/-! ### The remaining time -/

/-- The ticks of a trace of the timer service. -/
def timerTicks (tr : List (TimerAct × TimerObs)) : Nat := tr.countP fun x => x.1 = .tick

theorem timerTicks_snoc (tr : List (TimerAct × TimerObs)) (a : TimerAct) (o : TimerObs) :
    timerTicks (tr ++ [(a, o)]) = timerTicks tr + if a = .tick then 1 else 0 := by
  unfold timerTicks
  rw [List.countP_append]
  by_cases h : a = .tick <;> simp [h]

/-- **The remaining time is exact.** A timer is armed in any state of the counter for one
to `TIMER_MAX_COUNTER` ticks; `k` of them later, whatever else has happened, it is running
and has not been armed again: `OSTimerGet` returns what is left, and no value it computes
on the way wraps. -/
theorem timer_get_remaining {c : TimerCall} {o : TimerObs} {tr : List (TimerAct × TimerObs)}
    (hc : s.osTickCounter < tc.tickCountOverflow) (harm : s.ArmsTimer p (.call c))
    (hpos : 1 ≤ c.ticks tc) (hw : c.ticks tc ≤ tc.timerMaxCounter)
    (hstep : s.step (.call c) = some (t, o))
    (hrun : Run TimerService.step (fun v a => ¬ v.ArmsTimer p a) t tr u)
    (hk : timerTicks tr ≤ c.ticks tc) (hrunning : (u.mem p).state = .running) :
    u.osTimerGet (some p) = c.ticks tc - timerTicks tr ∧
      (u.getValues p).getLast? = some (u.osTimerGet (some p) : Int) ∧
      ∀ y ∈ u.getValues p, 0 ≤ y ∧ y < 2 ^ tc.tickBits := by
  obtain ⟨v, ht⟩ := Ahead.of_call hc harm hpos hw hstep
  have hu : timerTicks tr ≤ c.ticks tc → Ahead u p v (c.ticks tc - timerTicks tr) := by
    refine hrun.induction_on
      (P := fun tr u => timerTicks tr ≤ c.ticks tc → Ahead u p v (c.ticks tc - timerTicks tr))
      (fun _ => ht) ?_
    intro tr x a y o _ ih hno hstep hle
    rw [timerTicks_snoc] at hle ⊢
    have hnext := (ih (by omega)).step hno hstep fun htick => by
      rw [if_pos htick] at hle
      omega
    split
    · rwa [if_pos ‹_›, Nat.sub_sub] at hnext
    · rwa [if_neg ‹_›] at hnext
  have hahead := hu hk
  have htimeout := hahead.timeout hrunning
  obtain ⟨hget, hvalues⟩ := osTimerGet_eq hahead.count_lt (htimeout ▸ hahead.timeout_lt) hrunning
  refine ⟨?_, hvalues⟩
  rw [hget, htimeout, hahead.ticksUntil]

/-- The scheduler runs, two ticks before the counter wraps. -/
def beforeWrap : TimerService exampleTimerConfig :=
  { TimerService.init exampleTimerConfig with osTickCounter := 65530, started := true }

/-- Ten ticks, read after four of them: six are left. -/
theorem timer_get_remaining_wrap :
    let t := Run.after TimerService.step beforeWrap [.call (.set true (some 1) 10)]
    let u := Run.after TimerService.step t [.tick, .tick, .tick, .tick]
    u.osTickCounter = 2 ∧ u.osTimerGet (some 0) = 6 := by
  intro t u
  have hget := timer_get_remaining (s := beforeWrap) (t := t) (u := u) (p := 0)
    (c := .set true (some 1) 10) (o := .returned .ok (some 0)) (by decide) ⟨rfl, rfl, by decide, rfl⟩
    (by decide) (by decide) (Run.step_of_traceOf (by decide +kernel))
    (Run.of_admits (by decide +kernel)) (by decide +kernel) (by decide +kernel)
  exact ⟨by decide +kernel, hget.1⟩

end Brtos
