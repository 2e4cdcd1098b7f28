import Brtos.Timer.Lists

/-!
# Brtos.Timer.Early

**No timer fires early.** The timer task runs callbacks in two loops. The second one looks
at the timeouts, but a timeout says which counter value is meant, not whether the counter
has to wrap first; the first one, for a counter that has wrapped while the task was
delayed, looks at nothing. What keeps both from firing early is

- that no timer of the current list is *wrapped* when the task looks at it: still to
  expire, with a timeout the counter has passed (`EarlyInv.looking`);
- that the task never sleeps past the first timeout of that list, so that a root in the
  future means a counter that has wrapped since (`EarlyInv.waiting`, `EarlyInv.woken`);
- that every timer of the current list has then expired (`Overrun`).

`KeepsDue` is what the second and third need of the calls: a timer that is armed while the
task is delayed over the wrap, and a stop that leaves a root the task does not expect, break
them.
-/

namespace Brtos

variable {tc : TimerConfig} {s t : TimerService tc} {x y p n v w : Nat} {l : TimerList}

/-! ### The clock -/

/-- The ticks from counter value `c` to counter value `v`. -/
def TimerConfig.ticksUntil (tc : TimerConfig) (c v : Nat) : Nat :=
  if c ≤ v then v - c else v + tc.tickCountOverflow - c

theorem two_overflow_lt (tc : TimerConfig) :
    2 * tc.tickCountOverflow < 2 ^ (2 * tc.tickBits) ∧ tc.tickCountOverflow < 2 ^ tc.tickBits := by
  obtain ⟨-, -, h, -⟩ := tc.tickCountOverflow_spec
  rcases tc.tickBits_cases with hb | hb <;> rw [hb] at h ⊢ <;> omega

theorem nextCount_cases (hc : s.osTickCounter < tc.tickCountOverflow) :
    s.osTickCounter + 1 < tc.tickCountOverflow ∧ s.nextCount = s.osTickCounter + 1 ∨
    s.osTickCounter + 1 = tc.tickCountOverflow ∧ s.nextCount = 0 := by
  have h2 := (two_overflow_lt tc).2
  unfold TimerService.nextCount
  rw [Nat.mod_eq_of_lt (by omega)]
  split <;> omega

theorem nextCount_lt (hc : s.osTickCounter < tc.tickCountOverflow) :
    s.nextCount < tc.tickCountOverflow := by
  rcases nextCount_cases hc with h | h <;> omega

/-- A wait of at most `TIMER_MAX_COUNTER` ticks wraps at most once. -/
theorem wraps_iff {c : Nat} (hc : c < tc.tickCountOverflow) (hw : w ≤ tc.timerMaxCounter) :
    tc.wraps (c + w) ↔ tc.tickCountOverflow ≤ c + w := by
  have h2 := (two_overflow_lt tc).1
  unfold TimerConfig.timerMaxCounter at hw
  unfold TimerConfig.wraps
  rw [Nat.mod_eq_of_lt (by omega)]

theorem wrapped_eq {c : Nat} (hc : c < tc.tickCountOverflow) (hw : w ≤ tc.timerMaxCounter) :
    tc.wrapped (c + w) = c + w - tc.tickCountOverflow := by
  have h2 := two_overflow_lt tc
  unfold TimerConfig.timerMaxCounter at hw
  unfold TimerConfig.wrapped
  rw [Nat.mod_eq_of_lt (a := c + w) (by omega), Nat.mod_eq_of_lt (by omega)]

theorem unwrapped_eq {c : Nat} (hc : c + w < tc.tickCountOverflow) :
    tc.unwrapped (c + w) = c + w := by
  have h2 := two_overflow_lt tc
  unfold TimerConfig.unwrapped
  rw [Nat.mod_eq_of_lt (a := c + w) (by omega), Nat.mod_eq_of_lt (by omega)]

/-! ### The discipline -/

/-- Some timer of the list satisfies `q`. -/
def TimerList.Any (l : TimerList) (q : Nat → Prop) : Prop :=
  ∃ i < l.count + 1, 1 ≤ i ∧ ∃ y ∈ l.timers i, q y

instance (l : TimerList) (q : Nat → Prop) [DecidablePred q] : Decidable (l.Any q) :=
  inferInstanceAs (Decidable (∃ i < l.count + 1, _))

theorem TimerList.any_iff {q : Nat → Prop} : l.Any q ↔ ∃ y, l.Has y ∧ q y := by
  constructor
  · rintro ⟨i, hi, h1, y, hy, hq⟩
    exact ⟨y, ⟨i, hi, h1, hy⟩, hq⟩
  · rintro ⟨y, ⟨i, hi, h1, hy⟩, hq⟩
    exact ⟨i, hi, h1, y, hy, hq⟩

/-- The tick the task is about to sleep until. -/
def TimerService.wakeAt (s : TimerService tc) : Nat :=
  if s.pc = .store then s.nextTimeToWake else s.timeToWait

/-- A timer may be armed for `timeWait` ticks: not in the current list, once the counter
has wrapped, as long as the task has not emptied it; not in the future list between the
wrap and the exchange of the lists; and not, as the only timer of the current list, for a
tick after the wake-up tick the task is about to store. -/
def TimerService.ArmsInTime (s : TimerService tc) (timeWait : Nat) : Prop :=
  timeWait ≤ tc.timerMaxCounter ∧
  match s.pc with
  | .store => ¬ tc.wraps (s.osTickCounter + timeWait) →
      s.current.count ≠ 0 ∨ s.osTickCounter + timeWait ≤ s.nextTimeToWake
  | .woken => s.current.Any (fun y => (s.mem y).timeout ≤ s.osTickCounter) ∨
      tc.wraps (s.osTickCounter + timeWait) ∧ s.current.count = 0
  | .wrapTest => ∀ y ∈ s.p, (s.mem y).timeout ≤ s.osTickCounter
  | .drain => ¬ tc.wraps (s.osTickCounter + timeWait) ∧ s.p = none
  | .drainCallback => False
  | _ => True

instance (s : TimerService tc) (timeWait : Nat) : Decidable (s.ArmsInTime timeWait) := by
  unfold TimerService.ArmsInTime
  induction s.pc using TaskPc.casesOn <;> infer_instance

/-- If the current list has a timer with a timeout of at most `b`, it has another one than
`x`, or `x` is its only timer. -/
def TimerService.LeavesBy (s : TimerService tc) (b x : Nat) : Prop :=
  s.current.Any (fun y => (s.mem y).timeout ≤ b) → s.current.Any (· ≠ x) →
    s.current.Any fun y => y ≠ x ∧ (s.mem y).timeout ≤ b

instance (s : TimerService tc) (b x : Nat) : Decidable (s.LeavesBy b x) :=
  inferInstanceAs (Decidable (_ → _ → _))

/-- A timer of the current list may be stopped: not the one the task has in hand, and not
the one it is going to wake up for. -/
def TimerService.StopsInTime (s : TimerService tc) (x : Nat) : Prop :=
  match s.pc with
  | .store | .sleep | .asleep => s.LeavesBy s.wakeAt x
  | .woken => s.LeavesBy s.osTickCounter x
  | .wrapTest | .test | .switchTest | .plan => s.p ≠ some x
  | _ => True

instance (s : TimerService tc) (x : Nat) : Decidable (s.StopsInTime x) := by
  unfold TimerService.StopsInTime
  induction s.pc using TaskPc.casesOn <;> infer_instance

/-- A callback asks for a repetition within one period, and while the task is emptying the
list, before the next wrap. -/
def TimerService.RepeatsInTime (s : TimerService tc) (repeats : Nat) : Prop :=
  (s.pc = .callback ∨ s.pc = .drainCallback → s.repeatOf repeats ≤ tc.timerMaxCounter) ∧
  (s.pc = .drainCallback → s.osTickCounter + s.repeatOf repeats < tc.tickCountOverflow)

instance (s : TimerService tc) (repeats : Nat) : Decidable (s.RepeatsInTime repeats) :=
  inferInstanceAs (Decidable (_ ∧ _))

/-- What the expiry of the timers needs of an action. -/
def KeepsDue (s : TimerService tc) : TimerAct → Prop
  | .call (.stop (some p) _) => s.stopsInCurrent p = true → s.StopsInTime p
  | .call c => s.Arms c → s.ArmsInTime (c.ticks tc)
  | .task repeats => s.RepeatsInTime repeats
  | _ => True

instance (s : TimerService tc) (a : TimerAct) : Decidable (KeepsDue s a) := by
  unfold KeepsDue
  induction a using TimerAct.casesOn with
  | call c =>
      induction c using TimerCall.casesOn with
      | stop p => induction p using Option.casesOn <;> infer_instance
      | _ => infer_instance
  | _ => infer_instance

theorem KeepsDue.arms {c : TimerCall} (hk : KeepsDue s (.call c)) (harm : s.Arms c) :
    s.ArmsInTime (c.ticks tc) := by
  cases c with
  | set cbp cb timeWait => exact hk harm
  | start p timeWait => exact hk harm
  | stop p del => exact harm.elim

/-! ### The invariant -/

def TimerService.Listed (s : TimerService tc) (x : Nat) : Prop := s.current.Has x ∨ s.future.Has x

/-- The timer is still to expire, and its timeout is a counter value after the wrap. -/
def TimerService.Wrapped (s : TimerService tc) (x : Nat) : Prop :=
  s.now < s.due x ∧ (s.mem x).timeout ≤ s.osTickCounter

def TimerService.NoWrapped (s : TimerService tc) (l : TimerList) : Prop :=
  ∀ x, l.Has x → ¬ s.Wrapped x

/-- The counter has wrapped since the timers of the current list were armed. -/
def TimerService.Overrun (s : TimerService tc) : Prop :=
  (∀ x, s.current.Has x → s.due x ≤ s.now) ∧ s.NoWrapped s.future

/-- The current list has a timeout of at most `b`, if it has any. -/
def TimerService.RootBy (s : TimerService tc) (b : Nat) : Prop :=
  (∀ x, ¬ s.current.Has x) ∨ ∃ y, s.current.Has y ∧ (s.mem y).timeout ≤ b

/-- The task has looked at the current list and goes by what it saw. -/
def TaskPc.inHand : TaskPc → Bool
  | .wrapTest | .test | .switchTest | .plan => true
  | _ => false

/-- The task may call callbacks before it sleeps again, or has not slept yet. -/
def TaskPc.looking : TaskPc → Bool
  | .init | .woken | .wrapTest | .test | .callback | .switchTest => true
  | _ => false

/-- The task has settled when to wake up. -/
def TaskPc.waiting : TaskPc → Bool
  | .store | .sleep | .asleep => true
  | _ => false

/-- The tick counter and the timeouts. -/
structure ClockInv (s : TimerService tc) : Prop where
  count_lt : s.osTickCounter < tc.tickCountOverflow
  started : s.pc ≠ .init → s.started = true
  timeout_lt : ∀ x, s.Listed x → (s.mem x).timeout < tc.tickCountOverflow
  due_le : ∀ x, s.Listed x → s.due x ≤ s.now + tc.ticksUntil s.osTickCounter (s.mem x).timeout

/-- What keeps the timer task from firing early, by where it is. -/
structure EarlyInv (s : TimerService tc) : Prop where
  inHand : s.pc.inHand = true → ∀ y, s.p = some y → s.current.Has y
  looking : s.pc.looking = true → s.NoWrapped s.current
  planned : s.pc = .plan → s.NoWrapped s.current ∨ ∃ y, s.p = some y ∧ (s.mem y).timeout ≤ s.osTickCounter
  rootBy : s.pc.waiting = true → s.RootBy s.wakeAt
  waiting : s.pc.waiting = true → s.NoWrapped s.current ∨ s.wakeAt ≤ s.osTickCounter
  woken : s.pc = .woken → s.RootBy s.osTickCounter ∨ s.Overrun
  wrapTest : s.pc = .wrapTest → ∀ y, s.p = some y → (s.mem y).timeout ≤ s.osTickCounter ∨ s.Overrun
  draining : s.pc = .drain ∨ s.pc = .drainCallback →
    ((∃ y, s.p = some y) → ∀ x, s.current.Has x → s.due x ≤ s.now) ∧ s.NoWrapped s.future

theorem arms_pos {c : TimerCall} (h : s.Arms c) : 0 < c.ticks tc := by
  cases c with
  | set cbp cb timeWait => exact h.2.2.1
  | start p timeWait =>
      have hpos : 0 < timeWait := Nat.pos_of_ne_zero h.2
      obtain ⟨h1, h2, h3, -⟩ := tc.tickCountOverflow_spec
      show 0 < min timeWait tc.timerMaxCounter
      unfold TimerConfig.timerMaxCounter
      rcases tc.tickBits_cases with hb | hb <;> rw [hb] at h3 <;> omega
  | stop p del => exact h.elim

/-! ### The clock, step by step -/

/-- A timer whose timeout is reached within this period. -/
theorem ticksUntil_add (c : Nat) : tc.ticksUntil c (c + w) = w := by
  rw [TimerConfig.ticksUntil, if_pos (Nat.le_add_right c w), Nat.add_sub_cancel_left]

/-- A timer whose timeout is reached in the next period. -/
theorem ticksUntil_wrap {c : Nat} (hc : c < tc.tickCountOverflow) (hpos : 0 < w)
    (hw : w < tc.tickCountOverflow) (hwrap : tc.tickCountOverflow ≤ c + w) :
    tc.ticksUntil c (c + w - tc.tickCountOverflow) = w := by
  unfold TimerConfig.ticksUntil
  split <;> omega

/-- The bound on the expiry is kept by a tick. -/
theorem ticksUntil_next {d : Nat} (hc : s.osTickCounter < tc.tickCountOverflow)
    (hv : v < tc.tickCountOverflow) (h : d ≤ s.now + tc.ticksUntil s.osTickCounter v) :
    d ≤ s.now + 1 + tc.ticksUntil s.nextCount v := by
  unfold TimerConfig.ticksUntil at *
  rcases nextCount_cases hc with ⟨h1, h2⟩ | ⟨h1, h2⟩ <;> rw [h2] <;> grind

/-- A step between ticks: the timers it does not arm keep their timeout. -/
theorem ClockInv.change (hc : ClockInv s) (hcount : t.osTickCounter = s.osTickCounter)
    (hnow : t.now = s.now) (hstarted : t.pc ≠ .init → t.started = true)
    (h : ∀ x, t.Listed x →
      s.Listed x ∧ (t.mem x).timeout = (s.mem x).timeout ∧ t.due x = s.due x ∨
      (t.mem x).timeout < tc.tickCountOverflow ∧
        t.due x = s.now + tc.ticksUntil s.osTickCounter (t.mem x).timeout) : ClockInv t := by
  refine ⟨hcount ▸ hc.count_lt, hstarted, fun x hx => ?_, fun x hx => ?_⟩
  all_goals rcases h x hx with ⟨hl, hv, hd⟩ | ⟨hv, hd⟩
  · exact hv ▸ hc.timeout_lt x hl
  · exact hv
  · rw [hcount, hnow, hv, hd]
    exact hc.due_le x hl
  · rw [hcount, hnow, hd]

/-- The value stored for a timer armed past the wrap. -/
theorem armed_wrapped {c : Nat} (hc : c < tc.tickCountOverflow) (hpos : 0 < w)
    (hw : w ≤ tc.timerMaxCounter) (hwrap : tc.wraps (c + w)) :
    tc.wrapped (c + w) < c ∧ tc.wrapped (c + w) < tc.tickCountOverflow ∧
      tc.ticksUntil c (tc.wrapped (c + w)) = w := by
  have hle := (wraps_iff hc hw).mp hwrap
  rw [wrapped_eq hc hw]
  unfold TimerConfig.timerMaxCounter at hw
  exact ⟨by omega, by omega, ticksUntil_wrap hc hpos (by omega) hle⟩

/-- The value stored for a timer armed before the wrap. -/
theorem armed_unwrapped {c : Nat} (hc : c < tc.tickCountOverflow) (hpos : 0 < w)
    (hw : w ≤ tc.timerMaxCounter) (hwrap : ¬ tc.wraps (c + w)) :
    c < tc.unwrapped (c + w) ∧ tc.unwrapped (c + w) < tc.tickCountOverflow ∧
      tc.ticksUntil c (tc.unwrapped (c + w)) = w := by
  rw [wraps_iff hc hw, not_le] at hwrap
  rw [unwrapped_eq hwrap]
  exact ⟨by omega, hwrap, ticksUntil_add c⟩

/-- A step of the task that arms no timer. -/
theorem ClockInv.task (hc : ClockInv s) (hpc : s.pc ≠ .init ∨ t.started = true)
    (hcount : t.osTickCounter = s.osTickCounter) (hnow : t.now = s.now)
    (hstarted : t.started = s.started) (hdue : t.due = s.due)
    (h : ∀ x, t.Listed x → s.Listed x ∧ (t.mem x).timeout = (s.mem x).timeout) : ClockInv t := by
  refine hc.change hcount hnow (fun _ => ?_) fun x hx => Or.inl ⟨(h x hx).1, (h x hx).2, by rw [hdue]⟩
  rcases hpc with hpc | hst
  · rw [hstarted]
    exact hc.started hpc
  · exact hst

/-- `t` is `s` one tick later, as far as the timers go. -/
structure Later (s t : TimerService tc) : Prop where
  count : t.osTickCounter = s.nextCount
  now : t.now = s.now + 1
  mem : t.mem = s.mem
  due : t.due = s.due
  current : t.current = s.current
  future : t.future = s.future

theorem Later.listed (h : Later s t) : t.Listed x ↔ s.Listed x := by
  rw [TimerService.Listed, h.current, h.future]
  rfl

theorem ClockInv.later (hc : ClockInv s) (h : Later s t) (hstarted : t.pc ≠ .init → t.started = true) :
    ClockInv t := by
  refine ⟨h.count ▸ nextCount_lt hc.count_lt, hstarted, fun x hx => ?_, fun x hx => ?_⟩
  all_goals rw [h.listed] at hx
  · rw [h.mem]
    exact hc.timeout_lt x hx
  · rw [h.count, h.now, h.mem, h.due]
    exact ticksUntil_next hc.count_lt (hc.timeout_lt x hx) (hc.due_le x hx)

theorem fire_timeout {pc : TaskPc} :
    ((s.fire p pc).mem x).timeout = (s.mem x).timeout := by
  by_cases hx : x = p <;> simp [TimerService.fire, TimerService.setTimer, hx]

/-- The value stored for a timer that moves to the future list. -/
theorem moved_value {repeats : Nat} {pc : TaskPc} (hc : ClockInv s)
    (hk : KeepsDue s (.task repeats)) (hpos : 0 < s.repeatOf repeats)
    (hpc : s.pc = .drainCallback ∧ pc = .drain ∧
        v = tc.unwrapped (s.osTickCounter + s.repeatOf repeats) ∨
      s.pc = .callback ∧ pc = .test ∧ tc.wraps (s.osTickCounter + s.repeatOf repeats) ∧
        v = tc.wrapped (s.osTickCounter + s.repeatOf repeats)) :
    v < tc.tickCountOverflow ∧ tc.ticksUntil s.osTickCounter v = s.repeatOf repeats := by
  rcases hpc with ⟨hpc, -, rfl⟩ | ⟨hpc, -, hwrap, rfl⟩
  · have hlt := hk.2 hpc
    rw [unwrapped_eq hlt]
    exact ⟨hlt, ticksUntil_add _⟩
  · exact (armed_wrapped hc.count_lt hpos (hk.1 (Or.inl hpc)) hwrap).2

/-- **A step keeps the clock.** -/
theorem TimerMove.clock {a : TimerAct} {o : TimerObs} (hi : TimerInv s) (hc : ClockInv s)
    (he : s.enabled a = true) (hk : KeepsDue s a) (hm : TimerMove s a t o) : ClockInv t := by
  cases hm with
  | refused hcode => exact hc
  | @allocated c p cb h0 hfree =>
      refine hc.change rfl rfl hc.started fun x hx => Or.inl ⟨hx, ?_, rfl⟩
      by_cases hxp : x = p <;> simp [hxp]
  | @armedFuture c p cb out list harm hno hwrap hlist hhas =>
      obtain ⟨-, hv, hd⟩ := armed_wrapped hc.count_lt (arms_pos harm) (hk.arms harm).1 hwrap
      -- the timer is due when it asked to be; the others are as they were
      refine hc.change rfl rfl hc.started fun x hx => ?_
      by_cases hxp : x = p
      · subst hxp
        exact Or.inr (by simp [hv, hd])
      · refine Or.inl ⟨hx.imp_right fun h => ((hhas x).mp h).resolve_right hxp, ?_, ?_⟩ <;>
          simp [hxp]
  | @armedCurrent c p wake cb out list harm hno hwrap hlist hhas hwake hkeep =>
      obtain ⟨-, hv, hd⟩ := armed_unwrapped hc.count_lt (arms_pos harm) (hk.arms harm).1 hwrap
      refine hc.change rfl rfl hc.started fun x hx => ?_
      by_cases hxp : x = p
      · subst hxp
        exact Or.inr (by simp [hv, hd])
      · refine Or.inl ⟨hx.imp_left fun h => ((hhas x).mp h).resolve_right hxp, ?_, ?_⟩ <;>
          simp [hxp]
  | @stoppedCurrent p del cb state list hrun hhas hin hstate hlist hhas' =>
      have hfut := hi.disjoint p hhas
      refine hc.change rfl rfl hc.started fun x hx => Or.inl ?_
      have hxp : x ≠ p := by
        rintro rfl
        exact hx.elim (fun h => ((hhas' x).mp h).2 rfl) hfut
      exact ⟨hx.imp_left fun h => ((hhas' x).mp h).1, by simp [hxp], rfl⟩
  | @stoppedFuture p del cb state list hrun hhas hin hstate hlist hhas' =>
      have hcur : ¬ s.current.Has p := fun h => hi.disjoint p h hhas
      refine hc.change rfl rfl hc.started fun x hx => Or.inl ?_
      have hxp : x ≠ p := by
        rintro rfl
        exact hx.elim hcur fun h => ((hhas' x).mp h).2 rfl
      exact ⟨hx.imp_right fun h => ((hhas' x).mp h).1, by simp [hxp], rfl⟩
  | brtosStart => exact hc.change rfl rfl (fun _ => rfl) fun x hx => Or.inl ⟨hx, rfl, rfl⟩
  | ticked hstay => exact hc.later ⟨rfl, rfl, rfl, rfl, rfl, rfl⟩ hc.started
  | woke hpc hwake =>
      exact hc.later ⟨rfl, rfl, rfl, rfl, rfl, rfl⟩ fun _ => hc.started (by simp [hpc])
  | begun hpc =>
      have hst : s.started = true := by
        simp only [TimerService.enabled, Bool.and_eq_true] at he
        exact he.1
      exact hc.task (Or.inr hst) rfl rfl rfl rfl fun x hx => ⟨hx, rfl⟩
  | stored hpc => exact hc.task (by simp [hpc]) rfl rfl rfl rfl fun x hx => ⟨hx, rfl⟩
  | slept hpc => exact hc.task (by simp [hpc]) rfl rfl rfl rfl fun x hx => ⟨hx, rfl⟩
  | looked hpc => exact hc.task (by simp [hpc]) rfl rfl rfl rfl fun x hx => ⟨hx, rfl⟩
  | drains hpc hp hlate => exact hc.task (by simp [hpc]) rfl rfl rfl rfl fun x hx => ⟨hx, rfl⟩
  | tests hpc hp => exact hc.task (by simp [hpc]) rfl rfl rfl rfl fun x hx => ⟨hx, rfl⟩
  | @drainFired repeats p hpc hp hhas =>
      exact hc.task (by simp [hpc]) rfl rfl rfl rfl fun x hx => ⟨hx, fire_timeout⟩
  | drained hpc hp => exact hc.task (by simp [hpc]) rfl rfl rfl rfl fun x hx => ⟨hx.symm, rfl⟩
  | @fired repeats p hpc hp hdue hhas =>
      exact hc.task (by simp [hpc]) rfl rfl rfl rfl fun x hx => ⟨hx, fire_timeout⟩
  | notDue hpc hp => exact hc.task (by simp [hpc]) rfl rfl rfl rfl fun x hx => ⟨hx, rfl⟩
  | @released repeats p pc list hpc hp hroot hlist hhas =>
      have hfut := hi.disjoint p (hi.current.root_spec hroot).1
      have hpc' : s.pc ≠ .init := by grind
      refine hc.task (Or.inl hpc') rfl rfl rfl rfl fun x hx => ?_
      have hxp : x ≠ p := by
        rintro rfl
        exact hx.elim (fun h => ((hhas x).mp h).2 rfl) hfut
      exact ⟨hx.imp_left fun h => ((hhas x).mp h).1, by simp [hxp]⟩
  | @moved repeats p v pc list list' hpc hp hroot hpos hlist hhas hlist' hhas' =>
      obtain ⟨hv, hd⟩ := moved_value hc hk hpos hpc
      have hpc' : s.pc ≠ .init := by grind
      refine hc.change rfl rfl (fun _ => hc.started hpc') fun x hx => ?_
      by_cases hxp : x = p
      · subst hxp
        exact Or.inr ⟨by simpa [runTimer_self] using hv, by simp [runTimer_self, hd]⟩
      · refine Or.inl ⟨hx.imp (fun h => ((hhas x).mp h).1)
          fun h => ((hhas' x).mp h).resolve_right hxp, ?_, by simp [hxp]⟩
        exact congrArg _ (runTimer_ne hxp)
  | @kept repeats p v list hpc hp hroot hpos hwrap hv hlist hhas =>
      subst hv
      obtain ⟨-, hv, hd⟩ := armed_unwrapped hc.count_lt hpos (hk.1 (Or.inl hpc)) hwrap
      refine hc.change rfl rfl (fun _ => hc.started (by simp [hpc])) fun x hx => ?_
      by_cases hxp : x = p
      · subst hxp
        exact Or.inr ⟨by simpa [runTimer_self] using hv, by simp [runTimer_self, hd]⟩
      · exact Or.inl ⟨hx.imp_left fun h => (hhas x).mp h, congrArg _ (runTimer_ne hxp),
          by simp [hxp]⟩
  | switched hpc hout hp => exact hc.task (by simp [hpc]) rfl rfl rfl rfl fun x hx => ⟨hx.symm, rfl⟩
  | stays hpc hor => exact hc.task (by simp [hpc]) rfl rfl rfl rfl fun x hx => ⟨hx, rfl⟩
  | planned hpc => exact hc.task (by simp [hpc]) rfl rfl rfl rfl fun x hx => ⟨hx, rfl⟩

/-! ### Where the task is, step by step -/

/-- The loop over the expired timers. -/
theorem EarlyInv.of_test (hpc : t.pc = .test ∨ t.pc = .callback ∨ t.pc = .switchTest)
    (hcur : t.NoWrapped t.current) (hp : ∀ y, t.p = some y → t.current.Has y) : EarlyInv t := by
  constructor
  case inHand => exact fun _ => hp
  case looking => exact fun _ => hcur
  all_goals
    intro h
    rcases hpc with hpc | hpc | hpc <;> simp [hpc, TaskPc.waiting] at h

/-- The loop that empties the list. -/
theorem EarlyInv.of_drain (hpc : t.pc = .drain ∨ t.pc = .drainCallback)
    (hcur : (∃ y, t.p = some y) → ∀ x, t.current.Has x → t.due x ≤ t.now)
    (hfut : t.NoWrapped t.future) : EarlyInv t := by
  constructor
  case draining => exact fun _ => ⟨hcur, hfut⟩
  all_goals
    intro h
    rcases hpc with hpc | hpc <;> simp [hpc, TaskPc.inHand, TaskPc.looking, TaskPc.waiting] at h

/-- From the next wake-up tick on to the delay list. -/
theorem EarlyInv.of_waiting (hpc : t.pc = .store ∨ t.pc = .sleep ∨ t.pc = .asleep)
    (hroot : t.RootBy t.wakeAt) (hcur : t.NoWrapped t.current ∨ t.wakeAt ≤ t.osTickCounter) :
    EarlyInv t := by
  constructor
  case rootBy => exact fun _ => hroot
  case waiting => exact fun _ => hcur
  all_goals
    intro h
    rcases hpc with hpc | hpc | hpc <;> simp [hpc, TaskPc.inHand, TaskPc.looking] at h

theorem EarlyInv.of_plan (hpc : t.pc = .plan) (hp : ∀ y, t.p = some y → t.current.Has y)
    (hcur : t.NoWrapped t.current ∨ ∃ y, t.p = some y ∧ (t.mem y).timeout ≤ t.osTickCounter) :
    EarlyInv t := by
  constructor
  case inHand => exact fun _ => hp
  case planned => exact fun _ => hcur
  all_goals
    intro h
    simp [hpc, TaskPc.looking, TaskPc.waiting] at h

theorem EarlyInv.of_woken (hpc : t.pc = .woken) (hcur : t.NoWrapped t.current)
    (hroot : t.RootBy t.osTickCounter ∨ t.Overrun) : EarlyInv t := by
  constructor
  case looking => exact fun _ => hcur
  case woken => exact fun _ => hroot
  all_goals
    intro h
    simp [hpc, TaskPc.inHand, TaskPc.waiting] at h

theorem EarlyInv.of_wrapTest (hpc : t.pc = .wrapTest) (hcur : t.NoWrapped t.current)
    (hp : ∀ y, t.p = some y → t.current.Has y)
    (hroot : ∀ y, t.p = some y → (t.mem y).timeout ≤ t.osTickCounter ∨ t.Overrun) :
    EarlyInv t := by
  constructor
  case inHand => exact fun _ => hp
  case looking => exact fun _ => hcur
  case wrapTest => exact fun _ => hroot
  all_goals
    intro h
    simp [hpc, TaskPc.waiting] at h

/-- What the invariant looks at. -/
theorem EarlyInv.congr (he : EarlyInv s) (hpc : t.pc = s.pc) (hp : t.p = s.p)
    (hcur : t.current = s.current) (hfut : t.future = s.future)
    (hmem : ∀ x, (t.mem x).timeout = (s.mem x).timeout) (hcount : t.osTickCounter = s.osTickCounter)
    (hnow : t.now = s.now) (hdue : t.due = s.due) (hnext : t.nextTimeToWake = s.nextTimeToWake)
    (hwait : t.timeToWait = s.timeToWait) : EarlyInv t := by
  have hwake : t.wakeAt = s.wakeAt := by simp [TimerService.wakeAt, hpc, hnext, hwait]
  constructor
  all_goals
    simp only [TimerService.NoWrapped, TimerService.Wrapped, TimerService.RootBy,
      TimerService.Overrun, hpc, hp, hcur, hfut, hmem, hcount, hnow, hdue, hwake]
  case inHand => exact he.inHand
  case looking => exact he.looking
  case planned => exact he.planned
  case rootBy => exact he.rootBy
  case waiting => exact he.waiting
  case woken => exact he.woken
  case wrapTest => exact he.wrapTest
  case draining => exact he.draining

/-! #### Ticks -/

/-- A timer whose timeout the tick reaches has expired. -/
theorem Later.not_wrapped (h : Later s t) (hc : ClockInv s) (hl : s.Listed x)
    (hw : ¬ s.Wrapped x) : ¬ t.Wrapped x := by
  rintro ⟨hlate, hle⟩
  have hd := hc.due_le x hl
  rw [h.now, h.due] at hlate
  rw [h.count, h.mem] at hle
  have hgt : s.osTickCounter < (s.mem x).timeout := by
    by_contra hnot
    exact hw ⟨by omega, by omega⟩
  rw [TimerConfig.ticksUntil, if_pos hgt.le] at hd
  rcases nextCount_cases hc.count_lt with ⟨-, h⟩ | ⟨-, h⟩ <;> omega

/-- No timer is wrapped when the counter has just wrapped. -/
theorem Later.not_wrapped_zero (h : Later s t) (hc : ClockInv s) (hzero : s.nextCount = 0)
    (hl : s.Listed x) : ¬ t.Wrapped x := by
  rintro ⟨hlate, hle⟩
  have hd := hc.due_le x hl
  rw [h.now, h.due] at hlate
  rw [h.count, h.mem, hzero] at hle
  have hlt := hc.count_lt
  have hmax : s.osTickCounter + 1 = tc.tickCountOverflow := by
    rcases nextCount_cases hc.count_lt with ⟨-, h⟩ | ⟨h, -⟩ <;> omega
  unfold TimerConfig.ticksUntil at hd
  split at hd <;> omega

theorem Later.noWrapped (h : Later s t) (hc : ClockInv s) (hl : ∀ x, l.Has x → s.Listed x)
    (hw : s.NoWrapped l) : t.NoWrapped l :=
  fun x hx => h.not_wrapped hc (hl x hx) (hw x hx)

theorem Later.noWrapped_zero (h : Later s t) (hc : ClockInv s) (hzero : s.nextCount = 0)
    (hl : ∀ x, l.Has x → s.Listed x) : t.NoWrapped l :=
  fun x hx => h.not_wrapped_zero hc hzero (hl x hx)

theorem Later.overrun (h : Later s t) (hc : ClockInv s) (ho : s.Overrun) : t.Overrun := by
  obtain ⟨hdue, hfut⟩ := ho
  refine ⟨fun x hx => ?_, ?_⟩
  · rw [h.due, h.now]
    exact (hdue x (h.current ▸ hx)).trans (Nat.le_succ _)
  · rw [h.future]
    exact h.noWrapped hc (fun x => Or.inr) hfut

/-- The counter wraps: the timers of the current list have expired. -/
theorem Later.overrun_zero (h : Later s t) (hc : ClockInv s) (hzero : s.nextCount = 0)
    (hcur : s.NoWrapped s.current) : t.Overrun := by
  refine ⟨fun x hx => ?_, ?_⟩
  · rw [h.current] at hx
    have hd := hc.due_le x (Or.inl hx)
    have hv := hc.timeout_lt x (Or.inl hx)
    have hmax : s.osTickCounter + 1 = tc.tickCountOverflow := by
      rcases nextCount_cases hc.count_lt with ⟨-, h⟩ | ⟨h, -⟩ <;> omega
    rw [h.due, h.now]
    by_contra hlate
    refine hcur x hx ⟨by omega, by omega⟩
  · rw [h.future]
    exact h.noWrapped_zero hc hzero fun x => Or.inr

theorem Later.rootBy (h : Later s t) {b b' : Nat} (hb : b ≤ b') (hr : s.RootBy b) :
    t.RootBy b' := by
  unfold TimerService.RootBy
  rw [h.current, h.mem]
  exact hr.imp_right fun ⟨y, hy, hv⟩ => ⟨y, hy, hv.trans hb⟩

/-- A tick that does not wake the task. -/
theorem EarlyInv.later (he : EarlyInv s) (hc : ClockInv s) (h : Later s t) (hpc : t.pc = s.pc)
    (hp : t.p = s.p) (hwake : t.wakeAt = s.wakeAt) : EarlyInv t := by
  have hcur : s.NoWrapped s.current → t.NoWrapped t.current := by
    rw [h.current]
    exact h.noWrapped hc fun x => Or.inl
  -- the counter counts on, or it wraps and nothing is wrapped
  have hcount : s.osTickCounter ≤ t.osTickCounter ∨ s.nextCount = 0 := by
    rw [h.count]
    rcases nextCount_cases hc.count_lt with ⟨-, h⟩ | ⟨-, h⟩ <;> omega
  have hzero : s.nextCount = 0 → t.NoWrapped t.current := by
    rw [h.current]
    exact fun hz => h.noWrapped_zero hc hz fun x => Or.inl
  constructor
  case inHand =>
    rw [hpc, hp, h.current]
    exact he.inHand
  case looking =>
    rw [hpc]
    exact fun hl => hcur (he.looking hl)
  case planned =>
    intro hplan
    rw [hpc] at hplan
    rcases he.planned hplan with hn | ⟨y, hy, hv⟩
    · exact Or.inl (hcur hn)
    · rcases hcount with hle | hz
      · exact Or.inr ⟨y, hp.trans hy, by rw [h.mem]; exact hv.trans hle⟩
      · exact Or.inl (hzero hz)
  case rootBy =>
    rw [hpc, hwake]
    exact fun hw => h.rootBy le_rfl (he.rootBy hw)
  case waiting =>
    intro hw
    rw [hpc] at hw
    rw [hwake]
    rcases he.waiting hw with hn | hle
    · exact Or.inl (hcur hn)
    · rcases hcount with hle' | hz
      · exact Or.inr (hle.trans hle')
      · exact Or.inl (hzero hz)
  case woken =>
    intro hw
    rw [hpc] at hw
    rcases he.woken hw with hr | ho
    · rcases hcount with hle | hz
      · exact Or.inl (h.rootBy hle hr)
      · exact Or.inr (h.overrun_zero hc hz (he.looking (by rw [hw]; rfl)))
    · exact Or.inr (h.overrun hc ho)
  case wrapTest =>
    intro hw y hy
    rw [hpc] at hw
    rw [hp] at hy
    rcases he.wrapTest hw y hy with hv | ho
    · rcases hcount with hle | hz
      · exact Or.inl (by rw [h.mem]; exact hv.trans hle)
      · exact Or.inr (h.overrun_zero hc hz (he.looking (by rw [hw]; rfl)))
    · exact Or.inr (h.overrun hc ho)
  case draining =>
    intro hd
    rw [hpc] at hd
    obtain ⟨hdue, hfut⟩ := he.draining hd
    refine ⟨fun ⟨y, hy⟩ x hx => ?_, ?_⟩
    · rw [h.due, h.now]
      exact (hdue ⟨y, hp ▸ hy⟩ x (h.current ▸ hx)).trans (Nat.le_succ _)
    · rw [h.future]
      exact h.noWrapped hc (fun x => Or.inr) hfut

/-! #### Calls -/

/-- The clock and the timers other than `p` are as before. -/
structure OthersSame (s t : TimerService tc) (p : Nat) : Prop where
  count : t.osTickCounter = s.osTickCounter
  now : t.now = s.now
  mem : ∀ x, x ≠ p → t.mem x = s.mem x
  due : ∀ x, x ≠ p → t.due x = s.due x

/-- So is the task. -/
structure Besides (s t : TimerService tc) (p : Nat) : Prop extends OthersSame s t p where
  pc : t.pc = s.pc
  inHand : t.p = s.p
  next : t.nextTimeToWake = s.nextTimeToWake

theorem OthersSame.wrapped (h : OthersSame s t p) (hx : x ≠ p) : t.Wrapped x ↔ s.Wrapped x := by
  rw [TimerService.Wrapped, h.now, h.due x hx, h.mem x hx, h.count]
  rfl

theorem OthersSame.noWrapped {l' : TimerList} (h : OthersSame s t p)
    (hl : ∀ x, l'.Has x → l.Has x ∧ x ≠ p) (hw : s.NoWrapped l) : t.NoWrapped l' := by
  intro x hx
  rw [h.wrapped (hl x hx).2]
  exact hw x (hl x hx).1

/-- A list with a timer whose timeout is ahead. -/
theorem OthersSame.noWrapped_insert {l' : TimerList} (h : OthersSame s t p)
    (hl : ∀ x, l'.Has x → l.Has x ∨ x = p) (hv : s.osTickCounter < (t.mem p).timeout)
    (hw : s.NoWrapped l) : t.NoWrapped l' := by
  intro x hx
  by_cases hxp : x = p
  · rintro ⟨-, hle⟩
    rw [h.count, hxp] at hle
    omega
  · rw [h.wrapped hxp]
    exact hw x ((hl x hx).resolve_right hxp)

/-- If the task is not told of a timer, another one comes before it. -/
theorem ClockInv.exists_before (hc : ClockInv s) (hpc : s.pc ≠ .init) (h : ¬ s.WakesFor v) :
    ∃ z, s.current.Has z ∧ (s.mem z).timeout < v := by
  by_contra hnone
  refine h ⟨hc.started hpc, hpc, fun z hz => ?_⟩
  by_contra hlt
  exact hnone ⟨z, hz, not_le.mp hlt⟩

/-- A timer enters the current list. -/
theorem EarlyInv.armCurrent (he : EarlyInv s) (hc : ClockInv s) (h : Besides s t p)
    (hno : ¬ s.current.Has p) (hfut : ¬ s.future.Has p)
    (hcur : ∀ x, t.current.Has x ↔ s.current.Has x ∨ x = p) (hfuture : t.future = s.future)
    (hv : s.osTickCounter < (t.mem p).timeout)
    (hwake : s.WakesFor (t.mem p).timeout → t.timeToWait = (t.mem p).timeout)
    (hkeep : ¬ s.WakesFor (t.mem p).timeout → t.timeToWait = s.timeToWait)
    (hstore : s.pc = .store → (∀ x, ¬ s.current.Has x) → (t.mem p).timeout ≤ s.nextTimeToWake)
    (hwoken : s.pc = .woken → s.current.Any fun y => (s.mem y).timeout ≤ s.osTickCounter)
    (htest : s.pc = .wrapTest → ∀ y ∈ s.p, (s.mem y).timeout ≤ s.osTickCounter)
    (hdrain : s.pc = .drain → s.p = none) (hcb : s.pc ≠ .drainCallback) : EarlyInv t := by
  have hne : ∀ {x}, s.current.Has x → x ≠ p := fun hx h => hno (h ▸ hx)
  have hnofut : s.NoWrapped s.future → t.NoWrapped t.future := by
    rw [hfuture]
    exact h.toOthersSame.noWrapped fun x hx => ⟨hx, fun h => hfut (h ▸ hx)⟩
  have hnocur : s.NoWrapped s.current → t.NoWrapped t.current := by
    exact h.noWrapped_insert (fun x => (hcur x).mp) hv
  have hex : ∀ {b}, (∃ y, s.current.Has y ∧ (s.mem y).timeout ≤ b) → t.RootBy b := by
    rintro b ⟨y, hy, hle⟩
    exact Or.inr ⟨y, (hcur y).mpr (Or.inl hy), by rw [h.mem y (hne hy)]; exact hle⟩
  have hatStore : s.pc = .store → t.wakeAt = s.nextTimeToWake := by
    intro hpc
    simp [TimerService.wakeAt, h.pc, hpc, h.next]
  have hatSleep : s.pc ≠ .store → t.wakeAt = t.timeToWait := by
    intro hpc
    simp [TimerService.wakeAt, h.pc, hpc]
  have hpc : s.pc.waiting = true → s.pc ≠ .init := by
    intro hw hpc
    simp [hpc, TaskPc.waiting] at hw
  constructor
  case inHand =>
    rw [h.pc, h.inHand]
    exact fun hi y hy => (hcur y).mpr (Or.inl (he.inHand hi y hy))
  case looking =>
    rw [h.pc]
    exact fun hl => hnocur (he.looking hl)
  case planned =>
    rw [h.pc, h.inHand, h.count]
    intro hplan
    refine (he.planned hplan).imp hnocur fun ⟨y, hy, hle⟩ => ⟨y, hy, ?_⟩
    rw [h.mem y (hne (he.inHand (by rw [hplan]; rfl) y hy))]
    exact hle
  case rootBy =>
    rw [h.pc]
    intro hw
    by_cases hst : s.pc = .store
    · rw [hatStore hst]
      rcases he.rootBy hw with hempty | hex'
      · exact Or.inr ⟨p, (hcur p).mpr (Or.inr rfl), hstore hst hempty⟩
      · rw [TimerService.wakeAt, if_pos hst] at hex'
        exact hex hex'
    · rw [hatSleep hst]
      by_cases hfirst : s.WakesFor (t.mem p).timeout
      · exact Or.inr ⟨p, (hcur p).mpr (Or.inr rfl), (hwake hfirst).ge⟩
      · -- a timer of the list comes before it
        obtain ⟨z, hz, -⟩ := hc.exists_before (hpc hw) hfirst
        rw [hkeep hfirst]
        have hold := he.rootBy hw
        rw [TimerService.wakeAt, if_neg hst] at hold
        exact hex (hold.resolve_left fun hempty => hempty z hz)
  case waiting =>
    rw [h.pc, h.count]
    intro hw
    by_cases hn : s.NoWrapped s.current
    · exact Or.inl (hnocur hn)
    · have hold := (he.waiting hw).resolve_left hn
      refine Or.inr ?_
      by_cases hpc : s.pc = .store
      · rwa [TimerService.wakeAt, if_pos hpc, ← hatStore hpc] at hold
      · -- the wrapped timer comes before it
        have hfirst : ¬ s.WakesFor (t.mem p).timeout := by
          refine fun hfirst => hn fun x hx hwx => ?_
          have := hfirst.2.2 x hx
          have := hwx.2
          omega
        rwa [TimerService.wakeAt, if_neg hpc, ← hkeep hfirst, ← hatSleep hpc] at hold
  case woken =>
    rw [h.pc, h.count]
    intro hw
    exact Or.inl (hex (TimerList.any_iff.mp (hwoken hw)))
  case wrapTest =>
    rw [h.pc, h.inHand, h.count]
    intro hw y hy
    have hyne : y ≠ p := hne (he.inHand (by rw [hw]; rfl) y hy)
    rw [h.mem y hyne]
    exact Or.inl (htest hw y hy)
  case draining =>
    rw [h.pc, h.inHand]
    rintro (hd | hd)
    · refine ⟨fun ⟨y, hy⟩ => ?_, hnofut (he.draining (Or.inl hd)).2⟩
      rw [hdrain hd] at hy
      cases hy
    · exact (hcb hd).elim

/-- A timer enters the future list. -/
theorem EarlyInv.armFuture (he : EarlyInv s) (h : Besides s t p) (hno : ¬ s.current.Has p)
    (hcur : t.current = s.current) (hwait : t.timeToWait = s.timeToWait)
    (hwoken : s.pc = .woken → s.RootBy s.osTickCounter)
    (htest : s.pc = .wrapTest → ∀ y ∈ s.p, (s.mem y).timeout ≤ s.osTickCounter)
    (hdrain : s.pc ≠ .drain ∧ s.pc ≠ .drainCallback) : EarlyInv t := by
  have hne : ∀ {x}, s.current.Has x → x ≠ p := fun hx h => hno (h ▸ hx)
  have hnocur : s.NoWrapped s.current → t.NoWrapped t.current := by
    rw [hcur]
    exact h.toOthersSame.noWrapped fun x hx => ⟨hx, hne hx⟩
  have hroot : ∀ {b}, s.RootBy b → t.RootBy b := by
    intro b
    unfold TimerService.RootBy
    rw [hcur]
    exact Or.imp_right fun ⟨y, hy, hle⟩ => ⟨y, hy, by rw [h.mem y (hne hy)]; exact hle⟩
  have hwake : t.wakeAt = s.wakeAt := by simp [TimerService.wakeAt, h.pc, h.next, hwait]
  constructor
  case inHand =>
    rw [h.pc, h.inHand, hcur]
    exact he.inHand
  case looking =>
    rw [h.pc]
    exact fun hl => hnocur (he.looking hl)
  case planned =>
    rw [h.pc, h.inHand, h.count]
    intro hplan
    refine (he.planned hplan).imp hnocur fun ⟨y, hy, hle⟩ => ⟨y, hy, ?_⟩
    rw [h.mem y (hne (he.inHand (by rw [hplan]; rfl) y hy))]
    exact hle
  case rootBy =>
    rw [h.pc, hwake]
    exact fun hw => hroot (he.rootBy hw)
  case waiting =>
    rw [h.pc, hwake, h.count]
    exact fun hw => (he.waiting hw).imp_left hnocur
  case woken =>
    rw [h.pc, h.count]
    exact fun hw => Or.inl (hroot (hwoken hw))
  case wrapTest =>
    rw [h.pc, h.inHand, h.count]
    intro hw y hy
    rw [h.mem y (hne (he.inHand (by rw [hw]; rfl) y hy))]
    exact Or.inl (htest hw y hy)
  case draining =>
    rw [h.pc]
    exact fun hd => (hd.elim hdrain.1 hdrain.2).elim

/-- A timer leaves the current list, and the list still has a timeout of at most `b`. -/
theorem OthersSame.rootBy {b : Nat} (h : OthersSame s t p)
    (hcur : ∀ x, t.current.Has x ↔ s.current.Has x ∧ x ≠ p) (hleaves : s.LeavesBy b p)
    (hr : s.RootBy b) : t.RootBy b := by
  by_cases hlast : ∃ y, s.current.Has y ∧ y ≠ p
  · rcases hr with hempty | hby
    · exact Or.inl fun x hx => hempty x ((hcur x).mp hx).1
    · obtain ⟨y, hy, hyp, hle⟩ := TimerList.any_iff.mp
        (hleaves (TimerList.any_iff.mpr hby) (TimerList.any_iff.mpr hlast))
      exact Or.inr ⟨y, (hcur y).mpr ⟨hy, hyp⟩, by rw [h.mem y hyp]; exact hle⟩
  · exact Or.inl fun x hx => hlast ⟨x, (hcur x).mp hx⟩

/-- A timer leaves its list. -/
theorem EarlyInv.takeOut (he : EarlyInv s) (h : Besides s t p)
    (hcur : ∀ x, t.current.Has x ↔ s.current.Has x ∧ x ≠ p)
    (hfut : ∀ x, t.future.Has x → s.future.Has x ∧ x ≠ p)
    (hwait : t.timeToWait = s.timeToWait) (hp : s.pc.inHand = true → s.p ≠ some p)
    (hwaiting : s.pc.waiting = true → s.LeavesBy s.wakeAt p)
    (hwoken : s.pc = .woken → s.LeavesBy s.osTickCounter p) : EarlyInv t := by
  have hnocur : s.NoWrapped s.current → t.NoWrapped t.current :=
    h.toOthersSame.noWrapped fun x hx => (hcur x).mp hx
  have hnofut : s.NoWrapped s.future → t.NoWrapped t.future := h.toOthersSame.noWrapped hfut
  have hwake : t.wakeAt = s.wakeAt := by simp [TimerService.wakeAt, h.pc, h.next, hwait]
  have hne : s.pc.inHand = true → ∀ {y}, s.p = some y → y ≠ p := by
    rintro hi y hy rfl
    exact hp hi hy
  have hroot : ∀ {b}, s.LeavesBy b p → s.RootBy b → t.RootBy b := h.toOthersSame.rootBy hcur
  have hdue : ∀ {x}, t.current.Has x → t.due x = s.due x ∧ s.current.Has x := fun hx =>
    ⟨h.due _ ((hcur _).mp hx).2, ((hcur _).mp hx).1⟩
  have hover : s.Overrun → t.Overrun := by
    rintro ⟨hd, hf⟩
    refine ⟨fun x hx => ?_, hnofut hf⟩
    rw [(hdue hx).1, h.now]
    exact hd x (hdue hx).2
  constructor
  case inHand =>
    rw [h.pc, h.inHand]
    exact fun hi y hy => (hcur y).mpr ⟨he.inHand hi y hy, hne hi hy⟩
  case looking =>
    rw [h.pc]
    exact fun hl => hnocur (he.looking hl)
  case planned =>
    rw [h.pc, h.inHand, h.count]
    intro hplan
    refine (he.planned hplan).imp hnocur fun ⟨y, hy, hle⟩ => ⟨y, hy, ?_⟩
    rw [h.mem y (hne (by rw [hplan]; rfl) hy)]
    exact hle
  case rootBy =>
    rw [h.pc, hwake]
    exact fun hw => hroot (hwaiting hw) (he.rootBy hw)
  case waiting =>
    rw [h.pc, hwake, h.count]
    exact fun hw => (he.waiting hw).imp_left hnocur
  case woken =>
    rw [h.pc, h.count]
    exact fun hw => (he.woken hw).imp (hroot (hwoken hw)) hover
  case wrapTest =>
    rw [h.pc, h.inHand, h.count]
    intro hw y hy
    rw [h.mem y (hne (by rw [hw]; rfl) hy)]
    exact (he.wrapTest hw y hy).imp_right hover
  case draining =>
    rw [h.pc, h.inHand]
    intro hd
    obtain ⟨hcur', hfut'⟩ := he.draining hd
    refine ⟨fun hy x hx => ?_, hnofut hfut'⟩
    rw [(hdue hx).1, h.now]
    exact hcur' hy x (hdue hx).2

/-! #### The task -/

theorem ListShape.count_zero (hs : ListShape tc l) : l.count = 0 ↔ ∀ x, ¬ l.Has x := by
  constructor
  · intro h0 x hx
    obtain ⟨i, h1, hi, -⟩ := hx.elim
    omega
  · intro hno
    by_contra h0
    obtain ⟨q, hq⟩ := hs.filled 1 le_rfl (by omega)
    exact hno q (.intro le_rfl (by omega) hq)

/-- The root is the first timer to expire. -/
theorem TimerInv.root_spec (hi : TimerInv s) (hr : s.root = some y) :
    s.current.Has y ∧ ∀ x, s.current.Has x → (s.mem y).timeout ≤ (s.mem x).timeout :=
  hi.current.root_spec hr

theorem TimerInv.root_none (hi : TimerInv s) : s.root = none ↔ ∀ x, ¬ s.current.Has x :=
  hi.current.toListShape.root_none

theorem wrapped_fire {pc : TaskPc} : (s.fire p pc).Wrapped x ↔ s.Wrapped x := by
  rw [TimerService.Wrapped, fire_timeout]
  rfl

/-- The task plans to wake up for a timer of the list, or at the end of the period. -/
theorem rootBy_wakeTick (hv : ∀ x, s.current.Has x → (s.mem x).timeout < tc.tickCountOverflow)
    (hin : ∀ y, s.p = some y → s.current.Has y) : s.RootBy s.wakeTick := by
  unfold TimerService.wakeTick
  cases hp : s.p with
  | some y => exact Or.inr ⟨y, hin y hp, le_rfl⟩
  | none =>
      by_cases hempty : ∀ x, ¬ s.current.Has x
      · exact Or.inl hempty
      · obtain ⟨x, hx⟩ := not_forall_not.mp hempty
        exact Or.inr ⟨x, hx, Nat.le_sub_one_of_lt (hv x hx)⟩

/-- What the guard says of a timer that goes to the future list. -/
theorem arms_future (hi : TimerInv s) (h : s.ArmsInTime w) (hwrap : tc.wraps (s.osTickCounter + w)) :
    (s.pc = .woken → s.RootBy s.osTickCounter) ∧
    (s.pc = .wrapTest → ∀ y ∈ s.p, (s.mem y).timeout ≤ s.osTickCounter) ∧
    s.pc ≠ .drain ∧ s.pc ≠ .drainCallback := by
  obtain ⟨-, hpc⟩ := h
  refine ⟨fun h => ?_, fun h => ?_, fun h => ?_, fun h => ?_⟩ <;> rw [h] at hpc
  · rcases hpc with hany | ⟨-, h0⟩
    · exact Or.inr (TimerList.any_iff.mp hany)
    · exact Or.inl (hi.current.toListShape.count_zero.mp h0)
  · exact hpc
  · exact hpc.1 hwrap
  · exact hpc

/-- What the guard says of a timer that goes to the current list. -/
theorem arms_current (hi : TimerInv s) (hc : ClockInv s) (h : s.ArmsInTime w)
    (hwrap : ¬ tc.wraps (s.osTickCounter + w)) :
    (s.pc = .store → (∀ x, ¬ s.current.Has x) →
      tc.unwrapped (s.osTickCounter + w) ≤ s.nextTimeToWake) ∧
    (s.pc = .woken → s.current.Any fun y => (s.mem y).timeout ≤ s.osTickCounter) ∧
    (s.pc = .wrapTest → ∀ y ∈ s.p, (s.mem y).timeout ≤ s.osTickCounter) ∧
    (s.pc = .drain → s.p = none) ∧ s.pc ≠ .drainCallback := by
  obtain ⟨hmax, hpc⟩ := h
  have hsum := unwrapped_eq (not_le.mp fun h => hwrap ((wraps_iff hc.count_lt hmax).mpr h))
  refine ⟨fun h hempty => ?_, fun h => ?_, fun h => ?_, fun h => ?_, fun h => ?_⟩ <;> rw [h] at hpc
  · rw [hsum]
    exact (hpc hwrap).resolve_left fun hne => hne (hi.current.toListShape.count_zero.mpr hempty)
  · exact hpc.resolve_right fun hw => hwrap hw.1
  · exact hpc
  · exact hpc.2
  · exact hpc

/-- **A step keeps the timers from firing early.** -/
theorem TimerMove.early {a : TimerAct} {o : TimerObs} (hi : TimerInv s) (hc : ClockInv s)
    (he : EarlyInv s) (hk : KeepsDue s a) (hm : TimerMove s a t o) : EarlyInv t := by
  cases hm with
  | refused hcode => exact he
  | @allocated c p cb h0 hfree =>
      refine he.congr rfl rfl rfl rfl (fun x => ?_) rfl rfl rfl rfl rfl
      by_cases hx : x = p <;> simp [hx]
  | @armedFuture c p cb out list harm hno hwrap hlist hhas =>
      obtain ⟨hwoken, htest, hdrain⟩ := arms_future hi (hk.arms harm) hwrap
      exact he.armFuture (p := p) ⟨⟨rfl, rfl, fun x hx => by simp [hx],
        fun x hx => by simp [hx]⟩, rfl, rfl, rfl⟩ hno.1 rfl rfl hwoken htest hdrain
  | @armedCurrent c p wake cb out list harm hno hwrap hlist hhas hwake hkeep =>
      obtain ⟨hv, -, -⟩ := armed_unwrapped hc.count_lt (arms_pos harm) (hk.arms harm).1 hwrap
      obtain ⟨hstore, hwoken, htest, hdrain, hcb⟩ := arms_current hi hc (hk.arms harm) hwrap
      refine he.armCurrent (p := p) hc ⟨⟨rfl, rfl, fun x hx => by simp [hx],
        fun x hx => by simp [hx]⟩, rfl, rfl, rfl⟩ hno.1 hno.2 hhas rfl ?_ ?_ ?_ ?_ hwoken htest
        hdrain hcb
      · simpa using hv
      · simpa using hwake
      · simpa using hkeep
      · simpa using hstore
  | @stoppedCurrent p del cb state list hrun hhas hin hstate hlist hhas' =>
      have hpc := hk hin
      refine he.takeOut (p := p) ⟨⟨rfl, rfl, fun x hx => by simp [hx],
        fun x hx => rfl⟩, rfl, rfl, rfl⟩ hhas' (fun x hx => ⟨hx, ?_⟩) rfl ?_ ?_ ?_
      · rintro rfl
        exact hi.disjoint x hhas hx
      all_goals
        intro h
        unfold TimerService.StopsInTime at hpc
        cases hs : s.pc <;> simp_all [TaskPc.inHand, TaskPc.waiting]
  | @stoppedFuture p del cb state list hrun hhas hin hstate hlist hhas' =>
      have hcur : ¬ s.current.Has p := fun h => hi.disjoint p h hhas
      have hleaves : ∀ b, s.LeavesBy b p := by
        intro b hany _
        obtain ⟨y, hy, hle⟩ := TimerList.any_iff.mp hany
        exact TimerList.any_iff.mpr ⟨y, hy, fun h => hcur (h ▸ hy), hle⟩
      refine he.takeOut (p := p) ⟨⟨rfl, rfl, fun x hx => by simp [hx],
        fun x hx => rfl⟩, rfl, rfl, rfl⟩ (fun x => ?_) (fun x hx => (hhas' x).mp hx) rfl ?_
        (fun _ => hleaves _) fun _ => hleaves _
      · exact ⟨fun hx => ⟨hx, fun h => hcur (h ▸ hx)⟩, fun hx => hx.1⟩
      · exact fun hin hp => hcur (he.inHand hin p hp)
  | brtosStart => exact he.congr rfl rfl rfl rfl (fun x => rfl) rfl rfl rfl rfl rfl
  | ticked hstay => exact he.later hc ⟨rfl, rfl, rfl, rfl, rfl, rfl⟩ rfl rfl rfl
  | woke hpc hwake =>
      have hat : s.wakeAt = s.timeToWait := by simp [TimerService.wakeAt, hpc]
      have hw : s.pc.waiting = true := by rw [hpc]; rfl
      have hroot := he.rootBy hw
      have hcur := he.waiting hw
      rw [hat, hwake] at hroot hcur
      have hl : Later s { s with
          osTickCounter := s.nextCount
          now := s.now + 1
          pc := .woken
          timeToWait := tc.exitByTimeout } := ⟨rfl, rfl, rfl, rfl, rfl, rfl⟩
      refine EarlyInv.of_woken rfl ?_ (Or.inl (hl.rootBy le_rfl hroot))
      rcases hcur with hn | hle
      · exact hl.noWrapped hc (fun x => Or.inl) hn
      · -- the task slept over the wrap
        refine hl.noWrapped_zero hc ?_ fun x => Or.inl
        rcases nextCount_cases hc.count_lt with ⟨-, h⟩ | ⟨-, h⟩
        · omega
        · exact h
  | begun hpc =>
      refine EarlyInv.of_waiting (Or.inl rfl) ?_ (Or.inl (he.looking (by rw [hpc]; rfl)))
      exact @rootBy_wakeTick tc s.readRoot (fun x hx => hc.timeout_lt x (Or.inl hx))
        fun y hy => (hi.root_spec hy).1
  | stored hpc =>
      have hw : s.pc.waiting = true := by rw [hpc]; rfl
      have hat : s.wakeAt = s.nextTimeToWake := by simp [TimerService.wakeAt, hpc]
      have hroot := he.rootBy hw
      have hcur := he.waiting hw
      rw [hat] at hroot hcur
      exact EarlyInv.of_waiting (Or.inr (Or.inl rfl)) hroot hcur
  | slept hpc =>
      have hw : s.pc.waiting = true := by rw [hpc]; rfl
      have hat : s.wakeAt = s.timeToWait := by simp [TimerService.wakeAt, hpc]
      have hroot := he.rootBy hw
      have hcur := he.waiting hw
      rw [hat] at hroot hcur
      exact EarlyInv.of_waiting (Or.inr (Or.inr rfl)) hroot hcur
  | looked hpc =>
      refine EarlyInv.of_wrapTest rfl (he.looking (by rw [hpc]; rfl))
        (fun y hy => (hi.root_spec hy).1) fun y hy => ?_
      refine (he.woken hpc).imp_left fun hr => ?_
      rcases hr with hempty | ⟨z, hz, hle⟩
      · exact absurd (hi.root_spec hy).1 (hempty y)
      · exact ((hi.root_spec hy).2 z hz).trans hle
  | @drains repeats p hpc hp hlate =>
      obtain ⟨hdue, hfut⟩ := (he.wrapTest hpc p hp).resolve_left (not_le.mpr hlate)
      exact EarlyInv.of_drain (Or.inl rfl) (fun _ => hdue) hfut
  | tests hpc hp =>
      exact EarlyInv.of_test (Or.inl rfl) (he.looking (by rw [hpc]; rfl))
        (he.inHand (by rw [hpc]; rfl))
  | @drainFired repeats p hpc hp hhas =>
      obtain ⟨hdue, hfut⟩ := he.draining (Or.inl hpc)
      refine EarlyInv.of_drain (Or.inr rfl) (fun _ => hdue ⟨p, hp⟩) fun x hx => ?_
      rw [wrapped_fire]
      exact hfut x hx
  | drained hpc hp =>
      exact EarlyInv.of_test (Or.inl rfl) (he.draining (Or.inl hpc)).2
        fun y hy => (hi.future.root_spec hy).1
  | @fired repeats p hpc hp hdue hhas =>
      refine EarlyInv.of_test (Or.inr (Or.inl rfl)) (fun x hx => ?_) (he.inHand (by rw [hpc]; rfl))
      rw [wrapped_fire]
      exact he.looking (by rw [hpc]; rfl) x hx
  | notDue hpc hp =>
      exact EarlyInv.of_test (Or.inr (Or.inr rfl)) (he.looking (by rw [hpc]; rfl))
        (he.inHand (by rw [hpc]; rfl))
  | @released repeats p pc list hpc hp hroot hlist hhas =>
      have hfut := hi.disjoint p (hi.root_spec hroot).1
      have hb : OthersSame s { s with
          mem := Function.update s.mem p ⟨none, 0, .notUsed⟩
          current := list
          p := list.timers 1
          pc := pc } p := ⟨rfl, rfl, fun x hx => by simp [hx], fun x hx => rfl⟩
      rcases hpc with ⟨hpc, rfl⟩ | ⟨hpc, rfl⟩
      · obtain ⟨hdue, hnofut⟩ := he.draining (Or.inr hpc)
        refine EarlyInv.of_drain (Or.inl rfl) (fun _ x hx => hdue ⟨p, hp⟩ x ((hhas x).mp hx).1) ?_
        exact hb.noWrapped (fun x hx => ⟨hx, fun h => hfut (h ▸ hx)⟩) hnofut
      · refine EarlyInv.of_test (Or.inl rfl) ?_ fun y hy => (hlist.root_spec hy).1
        exact hb.noWrapped (fun x hx => (hhas x).mp hx) (he.looking (by rw [hpc]; rfl))
  | @moved repeats p v pc list list' hpc hp hroot hpos hlist hhas hlist' hhas' =>
      have hfut := hi.disjoint p (hi.root_spec hroot).1
      have hb : OthersSame s { s with
          mem := runTimer s.mem p v
          current := list
          future := list'
          p := list.timers 1
          pc := pc
          timeout := (s.osTickCounter + s.repeatOf repeats) % 2 ^ (2 * tc.tickBits)
          due := Function.update s.due p (s.now + s.repeatOf repeats) } p :=
        ⟨rfl, rfl, fun x hx => runTimer_ne hx, fun x hx => by simp [hx]⟩
      rcases hpc with ⟨hpc, rfl, rfl⟩ | ⟨hpc, rfl, -⟩
      · obtain ⟨hdue, hnofut⟩ := he.draining (Or.inr hpc)
        refine EarlyInv.of_drain (Or.inl rfl) (fun _ x hx => ?_) ?_
        · obtain ⟨hx, hne⟩ := (hhas x).mp hx
          exact (hb.due x hne).le.trans (hdue ⟨p, hp⟩ x hx)
        · refine hb.noWrapped_insert (fun x => (hhas' x).mp) ?_ hnofut
          show s.osTickCounter < (runTimer s.mem p _ p).timeout
          rw [runTimer_self, unwrapped_eq (hk.2 hpc)]
          exact Nat.lt_add_of_pos_right hpos
      · refine EarlyInv.of_test (Or.inl rfl) ?_ fun y hy => (hlist.root_spec hy).1
        exact hb.noWrapped (fun x hx => (hhas x).mp hx) (he.looking (by rw [hpc]; rfl))
  | @kept repeats p v list hpc hp hroot hpos hwrap hv hlist hhas =>
      have hb : OthersSame s { s with
          mem := runTimer s.mem p v
          current := list
          p := list.timers 1
          pc := .test
          timeout := (s.osTickCounter + s.repeatOf repeats) % 2 ^ (2 * tc.tickBits)
          due := Function.update s.due p (s.now + s.repeatOf repeats) } p :=
        ⟨rfl, rfl, fun x hx => runTimer_ne hx, fun x hx => by simp [hx]⟩
      refine EarlyInv.of_test (Or.inl rfl) ?_ fun y hy => (hlist.root_spec hy).1
      refine hb.noWrapped_insert (fun x hx => Or.inl ((hhas x).mp hx)) ?_
        (he.looking (by rw [hpc]; rfl))
      show s.osTickCounter < (runTimer s.mem p v p).timeout
      rw [runTimer_self, hv]
      exact (armed_unwrapped hc.count_lt hpos (hk.1 (Or.inl hpc)) hwrap).1
  | switched hpc hout hp =>
      refine EarlyInv.of_plan rfl (fun y hy => (hi.future.root_spec hy).1) ?_
      by_cases hn : s.NoWrapped s.future
      · exact Or.inl hn
      · -- the root comes before a wrapped timer
        obtain ⟨x, hx, hwx⟩ : ∃ x, s.future.Has x ∧ s.Wrapped x := by
          by_contra hnot
          exact hn fun x hx hwx => hnot ⟨x, hx, hwx⟩
        obtain ⟨y, hy⟩ := Option.ne_none_iff_exists'.mp fun hnone =>
          hi.future.toListShape.root_none.mp hnone x hx
        exact Or.inr ⟨y, hy, ((hi.future.root_spec hy).2 x hx).trans hwx.2⟩
  | stays hpc hor =>
      exact EarlyInv.of_plan rfl (he.inHand (by rw [hpc]; rfl))
        (Or.inl (he.looking (by rw [hpc]; rfl)))
  | planned hpc =>
      have hin := he.inHand (by rw [hpc]; rfl)
      refine EarlyInv.of_waiting (Or.inl rfl)
        (rootBy_wakeTick (fun x hx => hc.timeout_lt x (Or.inl hx)) hin)
        ((he.planned hpc).imp_right fun ⟨y, hy, hle⟩ => ?_)
      have hwake : s.wakeTick = (s.mem y).timeout := by simp [TimerService.wakeTick, hy]
      exact hwake.le.trans hle

/-! ### Every run -/

/-- The service keeps its lists, its clock, and the task from firing early. -/
structure EarlyState (s : TimerService tc) : Prop where
  lists : TimerInv s
  clock : ClockInv s
  early : EarlyInv s

theorem earlyState_init (tc : TimerConfig) : EarlyState (TimerService.init tc) := by
  have hi := timerInv_init tc
  have hnone : ∀ x, ¬ (TimerService.init tc).Listed x := by
    intro x hx
    rcases (hi.listed x).mp hx with h | h
    · simp [TimerService.init] at h
    · exact not_inCallback ⟨by simp [TimerService.init], by simp [TimerService.init]⟩ h
  refine ⟨hi, ⟨?_, fun h => absurd rfl h, fun x hx => (hnone x hx).elim,
    fun x hx => (hnone x hx).elim⟩, ?_⟩
  · exact tc.tickCountOverflow_spec.2.2.2
  · constructor
    case looking => exact fun _ x hx => (hnone x (Or.inl hx)).elim
    all_goals
      intro h
      simp [TimerService.init, TaskPc.inHand, TaskPc.waiting] at h

/-- The guard of both. -/
def KeepsTimers (s : TimerService tc) (a : TimerAct) : Prop := KeepsLists s a ∧ KeepsDue s a

instance (s : TimerService tc) (a : TimerAct) : Decidable (KeepsTimers s a) :=
  inferInstanceAs (Decidable (_ ∧ _))

theorem EarlyState.step {a : TimerAct} {o : TimerObs} (h : EarlyState s) (hk : KeepsTimers s a)
    (hstep : s.step a = some (t, o)) : EarlyState t := by
  have hm := timer_move_of_step h.lists hk.1 hstep
  have he : s.enabled a = true := by
    by_contra he
    have hnone : s.step a = none := if_neg he
    rw [hnone] at hstep
    cases hstep
  exact ⟨hm.inv h.lists, hm.clock h.lists h.clock he hk.2, hm.early h.lists h.clock h.early hk.2⟩

theorem earlyState_run {ok : TimerService tc → TimerAct → Prop} {tr : List (TimerAct × TimerObs)}
    (hok : ∀ s a, ok s a → KeepsTimers s a)
    (hr : Run TimerService.step ok (TimerService.init tc) tr s) : EarlyState s :=
  hr.invariant (earlyState_init tc) fun _ _ _ _ h hk hstep => h.step (hok _ _ hk) hstep

/-- **No timer fires early.** In every run in which the lists are kept in order and no
timer is armed or stopped behind the back of a task that is delayed or asleep, a timer
whose callback is called has waited for the ticks its `OSTimerSet`, its `OSTimerStart` or
its last callback asked for. -/
theorem timer_never_early {tr : List (TimerAct × TimerObs)} {a : TimerAct}
    (hr : Run TimerService.step KeepsTimers (TimerService.init tc) tr s) (hk : KeepsTimers s a)
    (hstep : s.step a = some (t, .fired p)) : s.due p ≤ s.now := by
  obtain ⟨hi, hc, he⟩ := earlyState_run (fun _ _ h => h) hr
  cases timer_move_of_step hi hk.1 hstep with
  | drainFired hpc hp hhas => exact (he.draining (Or.inl hpc)).1 ⟨p, hp⟩ p hhas
  | fired hpc hp hdue hhas =>
      by_contra hlate
      exact he.looking (by rw [hpc]; rfl) p hhas ⟨not_le.mp hlate, hdue⟩

/-- A timer past the wrap, and one that is set and stopped while the task sleeps. -/
def earlyScript : List TimerAct :=
  [.brtosStart, .task 0, .task 0, .task 0, .call (.set true (some 0) 2),
    .call (.set true (some 1) 65531), .call (.set true (some 2) 3), .call (.stop (some 2) true),
    .tick, .tick, .task 0, .task 0]

/-- The timer set to 2 ticks fires after them. -/
theorem timer_never_early_earlyScript :
    (Run.after TimerService.step (TimerService.init exampleTimerConfig) earlyScript).due 0 ≤
      (Run.after TimerService.step (TimerService.init exampleTimerConfig) earlyScript).now :=
  timer_never_early (a := .task 0) (Run.of_admits (by decide +kernel)) (by decide +kernel)
    (Run.step_of_traceOf (by decide +kernel))

/-- Two timers of the current list; the first is stopped while the task sleeps. -/
def stoppedRootScript : List TimerAct :=
  [.brtosStart, .task 0, .task 0, .task 0, .call (.set true (some 0) 2),
    .call (.set true (some 1) 9), .call (.stop (some 0) false), .tick, .tick, .task 0, .task 0]

/-- **A timer fires early** when the one before it is stopped: set to 9 ticks, it fires
after 2. -/
theorem timer_fires_early :
    ∃ tr, ∃ s t : TimerService exampleTimerConfig,
      Run TimerService.step KeepsLists (TimerService.init exampleTimerConfig) tr s ∧
      tr.map Prod.fst = stoppedRootScript ∧ s.step (.task 0) = some (t, .fired 1) ∧
      s.due 1 = 9 ∧ s.now = 2 := by
  have hrun : Run TimerService.step KeepsLists (TimerService.init exampleTimerConfig) _ _ :=
    @Run.of_admits _ _ _ TimerService.step KeepsLists _ stoppedRootScript _ (by decide +kernel)
  refine ⟨_, _, _, hrun, ?_, Run.step_of_traceOf (o := TimerObs.fired 1) ?_, ?_, ?_⟩
  all_goals decide +kernel

end Brtos
