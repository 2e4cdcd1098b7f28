import Brtos.Timer.Early
import Mathlib.Order.Bounds.Defs

/-!
# Brtos.Timer.Sleep

**The timer task does not oversleep.** It sleeps until the counter has one value, and the
delay list wakes it when the counter has exactly that value: a wake-up tick that has
passed when the task gets into the list costs it a whole period, and so does a timer it
does not look at before it sleeps.

While the task is awake and the counter has not wrapped, the current list holds what
expires in this period and the future list what expires in the next one (`InPeriod`);
from the choice of the wake-up tick on, no timer expires before it
(`Planned`). There are two kinds of plan: for a tick of this period, or, when the lists
have been exchanged ahead of the wrap, for one of the next.

`KeepsTime` excludes what breaks a plan. The code checks none of it.
-/

namespace Brtos

variable {tc : TimerConfig} {s t : TimerService tc} {x y p n v w wake : Nat} {l : TimerList}

/-! ### The discipline -/

/-- Both lists are empty. -/
def TimerService.Idle (s : TimerService tc) : Prop := s.current.count = 0 ∧ s.future.count = 0

instance (s : TimerService tc) : Decidable s.Idle := inferInstanceAs (Decidable (_ ∧ _))

/-- The task is going to exchange the lists when it has nothing more to expire. -/
def TimerService.Exchanges (s : TimerService tc) : Prop :=
  s.timeout > tc.timerMaxCounter ∧ s.p = none

instance (s : TimerService tc) : Decidable s.Exchanges := inferInstanceAs (Decidable (_ ∧ _))

/-- The tick the task is going to sleep until, from its last look at the timers on. -/
def TimerService.plan (s : TimerService tc) : Nat :=
  match s.pc with
  | .init => s.readRoot.wakeTick
  | .switchTest | .plan => s.wakeTick
  | .store => s.nextTimeToWake
  | _ => s.timeToWait

/-- The task sees to a timer armed for `timeWait` ticks: it has still to look at the
lists, or the wake-up tick it goes by is ahead and the timer expires later. -/
def TimerService.SeesArmed (s : TimerService tc) (timeWait : Nat) : Prop :=
  match s.pc with
  | .init => s.osTickCounter < tc.timerMaxCounter
  | .sleep | .asleep => s.osTickCounter < s.timeToWait
  | .plan | .store => s.osTickCounter < s.plan ∧
      (¬ tc.wraps (s.osTickCounter + timeWait) → s.plan ≤ s.osTickCounter + timeWait)
  | .switchTest =>
      if s.Exchanges then tc.wraps (s.osTickCounter + timeWait)
      else s.osTickCounter < s.plan ∧
        (¬ tc.wraps (s.osTickCounter + timeWait) → s.plan ≤ s.osTickCounter + timeWait)
  | .wrapTest | .test => ¬ tc.wraps (s.osTickCounter + timeWait) →
      ¬ s.Exchanges ∧
      (s.p = none ∨ s.osTickCounter < s.wakeTick → s.wakeTick ≤ s.osTickCounter + timeWait)
  | .drain => False
  | _ => True

instance (s : TimerService tc) (timeWait : Nat) : Decidable (s.SeesArmed timeWait) := by
  unfold TimerService.SeesArmed
  induction s.pc using TaskPc.casesOn <;> infer_instance

/-- The tick does not reach the wake-up tick before the task is in the delay list, and
the counter wraps only while the task sleeps or has the root still in hand. -/
def TimerService.SeesTick (s : TimerService tc) : Prop :=
  match s.pc with
  | .init | .plan | .store | .sleep => s.nextCount ≠ s.plan ∨ s.Idle
  | .switchTest => s.nextCount ≠ (if s.Exchanges then 0 else s.plan) ∨ s.Idle
  | .woken => s.nextCount ≠ timerKey s.mem s.root ∨ s.Idle
  | .wrapTest => s.nextCount ≠ timerKey s.mem s.p ∨ s.Idle
  | .test | .callback => s.nextCount ≠ 0 ∨ s.Idle
  | .drain | .drainCallback => s.nextCount ≠ 0
  | .asleep => True

instance (s : TimerService tc) : Decidable s.SeesTick := by
  unfold TimerService.SeesTick
  induction s.pc using TaskPc.casesOn <;> infer_instance

/-- What the task's sleep needs of an action, besides what the lists and the expiry of the
timers need. -/
def KeepsTime (s : TimerService tc) : TimerAct → Prop
  | .call (.stop (some p) _) => s.pc = .woken → s.stopsInCurrent p = true →
      s.osTickCounter < (s.mem p).timeout → s.current.Any (· ≠ p)
  | .call c => s.Arms c → s.SeesArmed (c.ticks tc)
  | .tick => s.SeesTick
  | .task _ => s.pc = .test → s.p = none → s.timeout ≤ tc.timerMaxCounter →
      s.osTickCounter < tc.timerMaxCounter ∨ s.Idle
  | .brtosStart => True

instance (s : TimerService tc) (a : TimerAct) : Decidable (KeepsTime s a) := by
  unfold KeepsTime
  induction a using TimerAct.casesOn with
  | call c =>
      induction c using TimerCall.casesOn with
      | stop p => induction p using Option.casesOn <;> infer_instance
      | _ => infer_instance
  | _ => infer_instance

theorem KeepsTime.arms {c : TimerCall} (hk : KeepsTime s (.call c)) (harm : s.Arms c) :
    s.SeesArmed (c.ticks tc) := by
  cases c with
  | set cbp cb timeWait => exact hk harm
  | start p timeWait => exact hk harm
  | stop p del => exact harm.elim

/-! ### The invariant -/

/-- A timer whose timeout is ahead of the counter does not expire before that. -/
def TimerService.Soon (s : TimerService tc) (l : TimerList) : Prop :=
  ∀ x, l.Has x → s.osTickCounter < (s.mem x).timeout →
    s.now + ((s.mem x).timeout - s.osTickCounter) ≤ s.due x

/-- The timers expire in the next period. -/
def TimerService.NextPeriod (s : TimerService tc) (l : TimerList) : Prop :=
  ∀ x, l.Has x → (s.mem x).timeout < s.osTickCounter ∧
    s.now + ((s.mem x).timeout + tc.tickCountOverflow - s.osTickCounter) ≤ s.due x

/-- The counter has not wrapped since the task looked at the lists. -/
def TimerService.InPeriod (s : TimerService tc) : Prop :=
  s.Soon s.current ∧ s.NextPeriod s.future

/-- No timer expires before the counter is `wake`: it is, later in this period; or it is,
in the next period, and the lists have been exchanged for it. -/
def TimerService.Planned (s : TimerService tc) (wake : Nat) : Prop :=
  (∀ x, s.current.Has x → wake ≤ (s.mem x).timeout) ∧
  (s.osTickCounter < wake ∧ wake < tc.tickCountOverflow ∧ s.InPeriod ∨
    wake ≤ s.osTickCounter ∧ s.NextPeriod s.current ∧ ∀ x, ¬ s.future.Has x)

/-- What keeps the timer task from oversleeping, by where it is. -/
structure SleepInv (s : TimerService tc) : Prop where
  init : s.pc = .init → s.InPeriod ∧
    (∀ x, s.current.Has x → s.osTickCounter < (s.mem x).timeout) ∧
    (s.osTickCounter < tc.timerMaxCounter ∨ ∀ x, ¬ s.Listed x)
  planned : s.pc = .plan ∨ s.pc = .store ∨ s.pc = .sleep ∨ s.pc = .asleep ∨
    s.pc = .switchTest ∧ ¬ s.Exchanges → s.Planned s.plan
  exchanges : s.pc = .switchTest → s.Exchanges →
    (∀ x, ¬ s.current.Has x) ∧ s.NextPeriod s.future
  awake : s.pc = .test ∨ s.pc = .callback → s.InPeriod
  woken : s.pc = .woken → s.InPeriod ∧ s.RootBy s.osTickCounter ∨
    s.Soon s.future ∧ (∃ x, s.current.Has x) ∧
      ∀ x, s.current.Has x → s.osTickCounter < (s.mem x).timeout
  wrapTest : s.pc = .wrapTest →
    s.InPeriod ∧ (∀ y, s.p = some y → (s.mem y).timeout ≤ s.osTickCounter) ∨
    s.Soon s.future ∧ ∃ y, s.p = some y ∧ s.osTickCounter < (s.mem y).timeout
  nothing : s.pc = .wrapTest ∨ s.pc = .test → s.p = none →
    (∀ x, s.current.Has x → tc.timerMaxCounter ≤ (s.mem x).timeout) ∧
    (s.Exchanges → ∀ x, ¬ s.current.Has x)
  something : s.pc = .test → ∀ y, s.p = some y → s.osTickCounter < (s.mem y).timeout →
    ∀ x, s.current.Has x → (s.mem y).timeout ≤ (s.mem x).timeout
  draining : s.pc = .drain ∨ s.pc = .drainCallback →
    s.Soon s.future ∧ (s.p = none → ∀ x, ¬ s.current.Has x)

/-! ### Ticks -/

theorem Later.soon (h : Later s t) (hc : ClockInv s) (hcount : s.nextCount ≠ 0) (hs : s.Soon l) :
    t.Soon l := by
  intro x hx hlt
  rw [h.count, h.mem] at hlt
  have hnext : s.nextCount = s.osTickCounter + 1 := by
    rcases nextCount_cases hc.count_lt with ⟨-, h⟩ | ⟨-, h⟩
    · exact h
    · exact (hcount h).elim
  have hold := hs x hx (by omega)
  rw [h.count, h.mem, h.now, h.due]
  omega

theorem Later.nextPeriod (h : Later s t) (hc : ClockInv s) (hcount : s.nextCount ≠ 0)
    (hs : s.NextPeriod l) : t.NextPeriod l := by
  intro x hx
  obtain ⟨hlt, hdue⟩ := hs x hx
  have hlt' := hc.count_lt
  have hnext : s.nextCount = s.osTickCounter + 1 := by
    rcases nextCount_cases hc.count_lt with ⟨-, h⟩ | ⟨-, h⟩
    · exact h
    · exact (hcount h).elim
  rw [h.count, h.mem, h.now, h.due]
  omega

/-- What expires in the next period expires in this one when the counter has wrapped. -/
theorem Later.soon_zero (h : Later s t) (hc : ClockInv s) (hcount : s.nextCount = 0)
    (hs : s.NextPeriod l) : t.Soon l := by
  intro x hx hlt
  obtain ⟨hlt', hdue⟩ := hs x hx
  have hmax : s.osTickCounter + 1 = tc.tickCountOverflow := by
    rcases nextCount_cases hc.count_lt with ⟨-, h⟩ | ⟨h, -⟩ <;> omega
  rw [h.count, h.mem, h.now, h.due, hcount]
  omega

theorem Later.inPeriod (h : Later s t) (hc : ClockInv s) (hcount : s.nextCount ≠ 0)
    (hs : s.InPeriod) : t.InPeriod := by
  refine ⟨?_, ?_⟩
  · rw [h.current]
    exact h.soon hc hcount hs.1
  · rw [h.future]
    exact h.nextPeriod hc hcount hs.2

theorem inPeriod_empty (h : ∀ x, ¬ s.Listed x) : s.InPeriod :=
  ⟨fun x hx => (h x (Or.inl hx)).elim, fun x hx => (h x (Or.inr hx)).elim⟩

theorem TimerInv.idle_iff (hi : TimerInv s) : s.Idle ↔ ∀ x, ¬ s.Listed x := by
  rw [TimerService.Idle, hi.current.toListShape.count_zero, hi.future.toListShape.count_zero]
  exact ⟨fun h x hx => hx.elim (h.1 x) (h.2 x), fun h => ⟨fun x hx => h x (Or.inl hx),
    fun x hx => h x (Or.inr hx)⟩⟩

/-- A plan survives every tick but the one it is for. -/
theorem Later.planned (h : Later s t) (hc : ClockInv s)
    (hcount : s.nextCount ≠ wake ∨ ∀ x, ¬ s.Listed x) (hp : s.Planned wake) : t.Planned wake := by
  obtain ⟨hfirst, hp⟩ := hp
  refine ⟨by rw [h.current, h.mem]; exact hfirst, ?_⟩
  rcases hcount with hne | hempty
  · rcases hp with ⟨hlt, hmax, hin⟩ | ⟨hle, hnext, hfut⟩
    · rcases nextCount_cases hc.count_lt with ⟨-, heq⟩ | ⟨heq, -⟩
      · exact Or.inl ⟨by rw [h.count]; omega, hmax, h.inPeriod hc (by omega) hin⟩
      · omega
    · by_cases hzero : s.nextCount = 0
      · refine Or.inl ⟨by rw [h.count]; omega, by have := hc.count_lt; omega, ?_, ?_⟩
        · rw [h.current]
          exact h.soon_zero hc hzero hnext
        · rw [h.future]
          exact fun x hx => (hfut x hx).elim
      · refine Or.inr ⟨?_, ?_, ?_⟩
        · rw [h.count]
          rcases nextCount_cases hc.count_lt with ⟨-, heq⟩ | ⟨-, heq⟩ <;> omega
        · rw [h.current]
          exact h.nextPeriod hc hzero hnext
        · rw [h.future]
          exact hfut
  · -- nothing to wake up for
    have hempty' : ∀ x, ¬ t.Listed x := fun x hx => hempty x (h.listed.mp hx)
    have hmax : wake < tc.tickCountOverflow := by
      have := hc.count_lt
      rcases hp with ⟨-, hmax, -⟩ | ⟨hle, -, -⟩ <;> omega
    by_cases hlt : t.osTickCounter < wake
    · exact Or.inl ⟨hlt, hmax, inPeriod_empty hempty'⟩
    · exact Or.inr ⟨not_lt.mp hlt, fun x hx => (hempty' x (Or.inl hx)).elim,
        fun x hx => hempty' x (Or.inr hx)⟩

/-- The tick a plan is for: it is in this period, or the one that makes the counter wrap. -/
theorem Later.inPeriod_planned (h : Later s t) (hc : ClockInv s) (hp : s.Planned s.nextCount) :
    t.InPeriod := by
  obtain ⟨-, ⟨hlt, -, hper⟩ | ⟨hle, hnext, hfut⟩⟩ := hp
  · exact h.inPeriod hc (by omega) hper
  · have hzero : s.nextCount = 0 := by
      rcases nextCount_cases hc.count_lt with ⟨-, heq⟩ | ⟨-, heq⟩ <;> omega
    refine ⟨?_, ?_⟩
    · rw [h.current]
      exact h.soon_zero hc hzero hnext
    · rw [h.future]
      exact fun x hx => (hfut x hx).elim

/-- The tick does not reach the timeout of a timer that is ahead. -/
theorem nextCount_lt_of_ne (hc : s.osTickCounter < tc.tickCountOverflow)
    (hv : v < tc.tickCountOverflow) (hlt : s.osTickCounter < v) (hne : s.nextCount ≠ v) :
    s.nextCount ≠ 0 ∧ s.nextCount < v := by
  rcases nextCount_cases hc with ⟨h1, h⟩ | ⟨h1, h⟩ <;> omega

/-- A tick that does not wake the task. -/
theorem SleepInv.later (hs : SleepInv s) (hi : TimerInv s) (hc : ClockInv s) (he : EarlyInv s)
    (h : Later s t) (hpc : t.pc = s.pc) (hp : t.p = s.p) (htimeout : t.timeout = s.timeout)
    (hplan : t.plan = s.plan) (hk : s.SeesTick)
    (hstay : ¬ (s.pc = .asleep ∧ s.timeToWait = s.nextCount)) : SleepInv t := by
  have hex : t.Exchanges ↔ s.Exchanges := by
    rw [TimerService.Exchanges, hp, htimeout]
    rfl
  have hempty : s.Idle → ∀ x, ¬ t.Listed x := fun hidle x hx =>
    hi.idle_iff.mp hidle x (h.listed.mp hx)
  have hroot : ∀ {r}, s.root = some r → (s.mem r).timeout < tc.tickCountOverflow := fun hr =>
    hc.timeout_lt _ (Or.inl (hi.root_spec hr).1)
  have hbusy : ∀ {x}, s.current.Has x → ¬ s.Idle := fun hx hidle =>
    hi.idle_iff.mp hidle _ (Or.inl hx)
  unfold TimerService.SeesTick at hk
  constructor
  case init =>
    intro hinit
    rw [hpc] at hinit
    obtain ⟨hin, hahead, hmax⟩ := hs.init hinit
    rw [hinit] at hk
    by_cases hidle : s.Idle
    · exact ⟨inPeriod_empty (hempty hidle), fun x hx => (hempty hidle x (Or.inl hx)).elim,
        Or.inr (hempty hidle)⟩
    have hne := hk.resolve_right hidle
    have hlt := hmax.resolve_right fun hall => hidle (hi.idle_iff.mpr hall)
    have hO : tc.timerMaxCounter < tc.tickCountOverflow := by
      have := hc.count_lt
      unfold TimerConfig.timerMaxCounter at hlt ⊢
      omega
    rw [TimerService.plan, hinit] at hne
    cases hr : s.root with
    | none =>
        have hwake : s.readRoot.wakeTick = tc.timerMaxCounter := by
          simp [TimerService.wakeTick, TimerService.readRoot, hr]
        have hnone := hi.root_none.mp hr
        obtain ⟨h0, hlt'⟩ := nextCount_lt_of_ne hc.count_lt hO hlt (hwake ▸ hne)
        refine ⟨h.inPeriod hc h0 hin, fun x hx => ?_, Or.inl (by rw [h.count]; exact hlt')⟩
        exact (hnone x (h.current ▸ hx)).elim
    | some r =>
        have hwake : s.readRoot.wakeTick = (s.mem r).timeout := by
          simp [TimerService.wakeTick, TimerService.readRoot, hr]
        obtain ⟨hin', hfirst⟩ := hi.root_spec hr
        have hv := hroot hr
        obtain ⟨h0, hlt'⟩ := nextCount_lt_of_ne hc.count_lt hv (hahead r hin') (hwake ▸ hne)
        refine ⟨h.inPeriod hc h0 hin, fun x hx => ?_, Or.inl ?_⟩
        · rw [h.count, h.mem]
          exact hlt'.trans_le (hfirst x (h.current ▸ hx))
        · rw [h.count]
          unfold TimerConfig.timerMaxCounter
          omega
  case planned =>
    rw [hpc, hex, hplan]
    intro hcase
    refine h.planned hc ?_ (hs.planned hcase)
    rcases hcase with hc' | hc' | hc' | hc' | ⟨hc', hno⟩
    all_goals rw [hc'] at hk
    · exact hk.imp_right fun hidle => hi.idle_iff.mp hidle
    · exact hk.imp_right fun hidle => hi.idle_iff.mp hidle
    · exact hk.imp_right fun hidle => hi.idle_iff.mp hidle
    · refine Or.inl fun heq => hstay ⟨hc', ?_⟩
      rw [TimerService.plan, hc'] at heq
      exact heq.symm
    · rw [if_neg hno] at hk
      exact hk.imp_right fun hidle => hi.idle_iff.mp hidle
  case exchanges =>
    rw [hpc, hex, h.current, h.future]
    intro hsw hexch
    obtain ⟨hnone, hnext⟩ := hs.exchanges hsw hexch
    rw [hsw] at hk
    simp only [if_pos hexch] at hk
    refine ⟨hnone, ?_⟩
    rcases hk with hk | hidle
    · exact h.nextPeriod hc hk hnext
    · exact fun x hx => (hi.idle_iff.mp hidle x (Or.inr hx)).elim
  case awake =>
    rw [hpc]
    intro haw
    have hk' : s.nextCount ≠ 0 ∨ s.Idle := by rcases haw with h' | h' <;> rw [h'] at hk <;> exact hk
    rcases hk' with hne | hidle
    · exact h.inPeriod hc hne (hs.awake haw)
    · exact inPeriod_empty (hempty hidle)
  case woken =>
    rw [hpc]
    intro hw
    rw [hw] at hk
    rcases hs.woken hw with ⟨hin, hby⟩ | ⟨hsoon, hsome, hahead⟩
    · cases hr : s.root with
      | none =>
          have hnone := hi.root_none.mp hr
          refine Or.inl ⟨?_, Or.inl fun x hx => hnone x (h.current ▸ hx)⟩
          rw [hr] at hk
          rcases hk with hne | hidle
          · exact h.inPeriod hc hne hin
          · exact inPeriod_empty (hempty hidle)
      | some r =>
          obtain ⟨hin', hfirst⟩ := hi.root_spec hr
          rw [hr, timerKey_some] at hk
          have hne := hk.resolve_right (hbusy hin')
          by_cases hzero : s.nextCount = 0
          · -- the counter wraps under a root that has expired
            refine Or.inr ⟨?_, ⟨r, h.current ▸ hin'⟩, fun x hx => ?_⟩
            · rw [h.future]
              exact h.soon_zero hc hzero hin.2
            · rw [h.count, h.mem]
              have := hfirst x (h.current ▸ hx)
              omega
          · refine Or.inl ⟨h.inPeriod hc hzero hin, h.rootBy ?_ hby⟩
            rw [h.count]
            rcases nextCount_cases hc.count_lt with ⟨-, heq⟩ | ⟨-, heq⟩ <;> omega
    · obtain ⟨r, hr⟩ := Option.ne_none_iff_exists'.mp fun hnone => by
        obtain ⟨x, hx⟩ := hsome
        exact hi.root_none.mp hnone x hx
      obtain ⟨hin', hfirst⟩ := hi.root_spec hr
      rw [hr, timerKey_some] at hk
      obtain ⟨h0, hlt⟩ := nextCount_lt_of_ne hc.count_lt (hroot hr) (hahead r hin')
        (hk.resolve_right (hbusy hin'))
      refine Or.inr ⟨?_, ⟨r, h.current ▸ hin'⟩, fun x hx => ?_⟩
      · rw [h.future]
        exact h.soon hc h0 hsoon
      · rw [h.count, h.mem]
        exact hlt.trans_le (hfirst x (h.current ▸ hx))
  case wrapTest =>
    rw [hpc, hp]
    intro hw
    rw [hw] at hk
    have hinHand := he.inHand (by rw [hw]; rfl)
    rcases hs.wrapTest hw with ⟨hin, hby⟩ | ⟨hsoon, y, hy, hlt⟩
    · cases hr : s.p with
      | none =>
          rw [hr] at hk
          refine Or.inl ⟨?_, fun y hy => by cases hy⟩
          rcases hk with hne | hidle
          · exact h.inPeriod hc hne hin
          · exact inPeriod_empty (hempty hidle)
      | some y =>
          rw [hr, timerKey_some] at hk
          have hne := hk.resolve_right (hbusy (hinHand y hr))
          have hle := hby y hr
          by_cases hzero : s.nextCount = 0
          · refine Or.inr ⟨?_, y, rfl, by rw [h.count, h.mem]; omega⟩
            rw [h.future]
            exact h.soon_zero hc hzero hin.2
          · refine Or.inl ⟨h.inPeriod hc hzero hin, fun z hz => ?_⟩
            obtain rfl := Option.some.inj hz
            rw [h.count, h.mem]
            rcases nextCount_cases hc.count_lt with ⟨-, heq⟩ | ⟨-, heq⟩ <;> omega
    · rw [hy, timerKey_some] at hk
      obtain ⟨h0, hlt'⟩ := nextCount_lt_of_ne hc.count_lt
        (hc.timeout_lt y (Or.inl (hinHand y hy))) hlt (hk.resolve_right (hbusy (hinHand y hy)))
      refine Or.inr ⟨?_, y, hy, by rw [h.count, h.mem]; exact hlt'⟩
      rw [h.future]
      exact h.soon hc h0 hsoon
  case nothing =>
    rw [hpc, hp, hex, h.current, h.mem]
    exact hs.nothing
  case something =>
    rw [hpc, hp, h.current, h.mem, h.count]
    intro htest y hy hlt x hx
    rw [htest] at hk
    refine hs.something htest y hy ?_ x hx
    have hne := hk.resolve_right (hbusy hx)
    rcases nextCount_cases hc.count_lt with ⟨-, heq⟩ | ⟨-, heq⟩ <;> omega
  case draining =>
    rw [hpc, hp, h.current, h.future]
    intro hd
    have hk' : s.nextCount ≠ 0 := by rcases hd with h' | h' <;> rw [h'] at hk <;> exact hk
    exact ⟨h.soon hc hk' (hs.draining hd).1, (hs.draining hd).2⟩

/-! ### Calls -/

section Others

variable {l' : TimerList}

theorem OthersSame.soon (h : OthersSame s t p) (hl : ∀ x, l'.Has x → l.Has x ∧ x ≠ p)
    (hs : s.Soon l) : t.Soon l' := by
  intro x hx
  obtain ⟨hx, hne⟩ := hl x hx
  rw [h.mem x hne, h.due x hne, h.count, h.now]
  exact hs x hx

theorem OthersSame.soon_insert (h : OthersSame s t p) (hl : ∀ x, l'.Has x → l.Has x ∨ x = p)
    (hp : s.now + ((t.mem p).timeout - s.osTickCounter) ≤ t.due p) (hs : s.Soon l) :
    t.Soon l' := by
  intro x hx hlt
  rw [h.count] at hlt ⊢
  rw [h.now]
  by_cases hxp : x = p
  · rw [hxp]
    exact hp
  · rw [h.mem x hxp] at hlt ⊢
    rw [h.due x hxp]
    exact hs x ((hl x hx).resolve_right hxp) hlt

theorem OthersSame.nextPeriod (h : OthersSame s t p) (hl : ∀ x, l'.Has x → l.Has x ∧ x ≠ p)
    (hs : s.NextPeriod l) : t.NextPeriod l' := by
  intro x hx
  obtain ⟨hx, hne⟩ := hl x hx
  rw [h.mem x hne, h.due x hne, h.count, h.now]
  exact hs x hx

theorem OthersSame.nextPeriod_insert (h : OthersSame s t p)
    (hl : ∀ x, l'.Has x → l.Has x ∨ x = p) (hlt : (t.mem p).timeout < s.osTickCounter)
    (hp : s.now + ((t.mem p).timeout + tc.tickCountOverflow - s.osTickCounter) ≤ t.due p)
    (hs : s.NextPeriod l) : t.NextPeriod l' := by
  intro x hx
  rw [h.count, h.now]
  by_cases hxp : x = p
  · rw [hxp]
    exact ⟨hlt, hp⟩
  · rw [h.mem x hxp, h.due x hxp]
    exact hs x ((hl x hx).resolve_right hxp)

end Others

theorem plan_sleep (h : s.pc = .sleep ∨ s.pc = .asleep) : s.plan = s.timeToWait := by
  unfold TimerService.plan
  rcases h with h | h <;> rw [h]

theorem plan_store (h : s.pc = .store) : s.plan = s.nextTimeToWake := by
  rw [TimerService.plan, h]

theorem plan_inHand (h : s.pc = .switchTest ∨ s.pc = .plan) : s.plan = s.wakeTick := by
  unfold TimerService.plan
  rcases h with h | h <;> rw [h]

/-- Where the task has a wake-up tick to go by. -/
theorem TimerService.SeesArmed.lt_plan (h : s.SeesArmed n)
    (hpc : s.pc = .plan ∨ s.pc = .store ∨ s.pc = .sleep ∨ s.pc = .asleep ∨
      s.pc = .switchTest ∧ ¬ s.Exchanges) : s.osTickCounter < s.plan := by
  unfold TimerService.SeesArmed at h
  rcases hpc with hpc | hpc | hpc | hpc | ⟨hpc, hno⟩ <;> rw [hpc] at h
  · exact h.1
  · exact h.1
  · rw [plan_sleep (Or.inl hpc)]
    exact h
  · rw [plan_sleep (Or.inr hpc)]
    exact h
  · simp only [if_neg hno] at h
    exact h.1

theorem TimerService.SeesArmed.lt_timeToWait (h : s.SeesArmed n)
    (hpc : s.pc = .sleep ∨ s.pc = .asleep) : s.osTickCounter < s.timeToWait := by
  rw [← plan_sleep hpc]
  refine h.lt_plan ?_
  rcases hpc with hpc | hpc
  · exact Or.inr (Or.inr (Or.inl hpc))
  · exact Or.inr (Or.inr (Or.inr (Or.inl hpc)))

/-- A timer of this period is not armed when the lists are about to be exchanged. -/
theorem TimerService.SeesArmed.not_exchanges (h : s.SeesArmed n)
    (hwrap : ¬ tc.wraps (s.osTickCounter + n))
    (hpc : s.pc = .switchTest ∨ s.pc = .test ∨ s.pc = .wrapTest) : ¬ s.Exchanges := by
  intro hex
  unfold TimerService.SeesArmed at h
  rcases hpc with hpc | hpc | hpc <;> rw [hpc] at h
  · simp only [if_pos hex] at h
    exact hwrap h
  · exact (h hwrap).1 hex
  · exact (h hwrap).1 hex

/-- A timer of this period expires at the wake-up tick or later. -/
theorem TimerService.SeesArmed.plan_le (h : s.SeesArmed n)
    (hwrap : ¬ tc.wraps (s.osTickCounter + n))
    (hpc : s.pc = .plan ∨ s.pc = .store ∨ s.pc = .switchTest) :
    s.osTickCounter < s.plan ∧ s.plan ≤ s.osTickCounter + n := by
  have hsees := h
  unfold TimerService.SeesArmed at hsees
  rcases hpc with hpc | hpc | hpc
  · rw [hpc] at hsees
    exact hsees.imp_right fun hle => hle hwrap
  · rw [hpc] at hsees
    exact hsees.imp_right fun hle => hle hwrap
  · rw [hpc] at hsees
    simp only [if_neg (h.not_exchanges hwrap (Or.inl hpc))] at hsees
    exact hsees.imp_right fun hle => hle hwrap

/-- The same of the tick a task with nothing more to expire is going to choose. -/
theorem TimerService.SeesArmed.wakeTick_le (h : s.SeesArmed n)
    (hwrap : ¬ tc.wraps (s.osTickCounter + n)) (hpc : s.pc = .test ∨ s.pc = .wrapTest)
    (hnot : s.p = none ∨ s.osTickCounter < s.wakeTick) :
    s.wakeTick ≤ s.osTickCounter + n := by
  unfold TimerService.SeesArmed at h
  rcases hpc with hpc | hpc <;> rw [hpc] at h <;> exact (h hwrap).2 hnot

/-- The task still goes by the timer it has in hand. -/
theorem Besides.wakeTick (h : Besides s t p) (hin : ∀ y, s.p = some y → y ≠ p) :
    t.wakeTick = s.wakeTick := by
  unfold TimerService.wakeTick
  rw [h.inHand]
  cases hp : s.p with
  | none => rfl
  | some y => simp only [h.mem y (hin y hp)]

/-- The plan of a task that is not asleep yet. -/
theorem Besides.plan (h : Besides s t p) (hpc : s.pc = .plan ∨ s.pc = .store ∨ s.pc = .switchTest)
    (hin : s.pc.inHand = true → ∀ y, s.p = some y → y ≠ p) : t.plan = s.plan := by
  rcases hpc with hpc | hpc | hpc
  · rw [plan_inHand (Or.inr (h.pc.trans hpc)), plan_inHand (Or.inr hpc)]
    exact h.wakeTick (hin (by rw [hpc]; rfl))
  · rw [plan_store (h.pc.trans hpc), plan_store hpc, h.next]
  · rw [plan_inHand (Or.inl (h.pc.trans hpc)), plan_inHand (Or.inl hpc)]
    exact h.wakeTick (hin (by rw [hpc]; rfl))

/-- A timer enters the current list. -/
theorem SleepInv.armCurrent (hs : SleepInv s) (hc : ClockInv s) (he : EarlyInv s)
    (h : Besides s t p) (hno : ¬ s.current.Has p) (hfut : ¬ s.future.Has p)
    (hcur : ∀ x, t.current.Has x ↔ s.current.Has x ∨ x = p) (hfuture : t.future = s.future)
    (htimeout : t.timeout = s.timeout) (hv : s.osTickCounter < (t.mem p).timeout)
    (hmax : (t.mem p).timeout < tc.tickCountOverflow)
    (hdue : s.now + ((t.mem p).timeout - s.osTickCounter) ≤ t.due p)
    (hwake : s.WakesFor (t.mem p).timeout → t.timeToWait = (t.mem p).timeout)
    (hkeep : ¬ s.WakesFor (t.mem p).timeout → t.timeToWait = s.timeToWait)
    (hplan : s.pc = .plan ∨ s.pc = .store ∨ s.pc = .switchTest →
      s.osTickCounter < s.plan ∧ s.plan ≤ (t.mem p).timeout)
    (hswitch : s.pc = .switchTest ∨ s.pc = .test ∨ s.pc = .wrapTest → ¬ s.Exchanges)
    (hsleep : s.pc = .sleep ∨ s.pc = .asleep → s.osTickCounter < s.timeToWait)
    (hseen : s.pc = .test ∨ s.pc = .wrapTest → s.p = none ∨ s.osTickCounter < s.wakeTick →
      s.wakeTick ≤ (t.mem p).timeout)
    (hwoken : s.pc = .woken → s.current.Any fun y => (s.mem y).timeout ≤ s.osTickCounter)
    (htest : s.pc = .wrapTest → ∀ y ∈ s.p, (s.mem y).timeout ≤ s.osTickCounter)
    (hdrain : s.pc ≠ .drain ∧ s.pc ≠ .drainCallback) : SleepInv t := by
  have hne : ∀ {x}, s.current.Has x → x ≠ p := fun hx h => hno (h ▸ hx)
  have hin : s.pc.inHand = true → ∀ y, s.p = some y → y ≠ p := fun hi y hy =>
    hne (he.inHand hi y hy)
  have hperiod : s.InPeriod → t.InPeriod := by
    rintro ⟨hsoon, hnext⟩
    refine ⟨h.soon_insert (fun x => (hcur x).mp) hdue hsoon, ?_⟩
    rw [hfuture]
    exact h.nextPeriod (fun x hx => ⟨hx, fun h => hfut (h ▸ hx)⟩) hnext
  have hex : t.Exchanges ↔ s.Exchanges := by
    rw [TimerService.Exchanges, h.inHand, htimeout]
    rfl
  -- a bound on the timeouts of the longer list
  have hfirst : ∀ {b}, (∀ x, s.current.Has x → b ≤ (s.mem x).timeout) → b ≤ (t.mem p).timeout →
      ∀ x, t.current.Has x → b ≤ (t.mem x).timeout := by
    intro b hall hp x hx
    rcases (hcur x).mp hx with hx | rfl
    · rw [h.mem x (hne hx)]
      exact hall x hx
    · exact hp
  constructor
  case init =>
    rw [h.pc]
    intro hinit
    obtain ⟨hin', hahead, -⟩ := hs.init hinit
    refine ⟨hperiod hin', fun x hx => ?_, Or.inl ?_⟩
    · rw [h.count]
      exact hfirst hahead hv x hx
    · rw [h.count]
      unfold TimerConfig.timerMaxCounter
      omega
  case planned =>
    rw [h.pc, hex]
    intro hcase
    have hold := hs.planned hcase
    have hplans : s.pc = .plan ∨ s.pc = .store ∨ s.pc = .switchTest → t.Planned t.plan := by
      intro hpc
      obtain ⟨hlt, hle⟩ := hplan hpc
      rw [h.plan hpc hin]
      obtain ⟨hall, ⟨-, hO, hper⟩ | ⟨hge, -⟩⟩ := hold
      · exact ⟨hfirst hall hle, Or.inl ⟨by rw [h.count]; exact hlt, hO, hperiod hper⟩⟩
      · exact absurd hlt (not_lt.mpr hge)
    have hsleeps : s.pc = .sleep ∨ s.pc = .asleep → t.Planned t.plan := by
      intro hsl
      have hpc : s.pc ≠ .init := by rcases hsl with h' | h' <;> rw [h'] <;> decide
      rw [plan_sleep hsl] at hold
      rw [plan_sleep (by rw [h.pc]; exact hsl)]
      obtain ⟨hall, ⟨hlt, hO, hper⟩ | ⟨hle, -⟩⟩ := hold
      · by_cases hw : s.WakesFor (t.mem p).timeout
        · rw [hwake hw]
          exact ⟨hfirst hw.2.2 le_rfl, Or.inl ⟨by rw [h.count]; exact hv, hmax, hperiod hper⟩⟩
        · obtain ⟨z, hz, hzlt⟩ := hc.exists_before hpc hw
          rw [hkeep hw]
          exact ⟨hfirst hall ((hall z hz).trans hzlt.le),
            Or.inl ⟨by rw [h.count]; exact hlt, hO, hperiod hper⟩⟩
      · exact absurd (hsleep hsl) (not_lt.mpr hle)
    rcases hcase with h' | h' | h' | h' | ⟨h', -⟩
    · exact hplans (Or.inl h')
    · exact hplans (Or.inr (Or.inl h'))
    · exact hsleeps (Or.inl h')
    · exact hsleeps (Or.inr h')
    · exact hplans (Or.inr (Or.inr h'))
  case exchanges =>
    rw [h.pc, hex]
    exact fun hsw hexch => (hswitch (Or.inl hsw) hexch).elim
  case awake =>
    rw [h.pc]
    exact fun haw => hperiod (hs.awake haw)
  case woken =>
    rw [h.pc, h.count]
    intro hw
    obtain ⟨z, hz, hle⟩ := TimerList.any_iff.mp (hwoken hw)
    rcases hs.woken hw with ⟨hper, -⟩ | ⟨-, -, hahead⟩
    · refine Or.inl ⟨hperiod hper, Or.inr ⟨z, (hcur z).mpr (Or.inl hz), ?_⟩⟩
      rw [h.mem z (hne hz)]
      exact hle
    · exact absurd (hahead z hz) (not_lt.mpr hle)
  case wrapTest =>
    rw [h.pc, h.inHand, h.count]
    intro hw
    rcases hs.wrapTest hw with ⟨hper, -⟩ | ⟨-, y, hy, hlt⟩
    · refine Or.inl ⟨hperiod hper, fun y hy => ?_⟩
      rw [h.mem y (hin (by rw [hw]; rfl) y hy)]
      exact htest hw y hy
    · exact absurd (htest hw y hy) (not_le.mpr hlt)
  case nothing =>
    rw [h.pc, h.inHand, hex]
    intro hw hnone
    have hwt : s.wakeTick = tc.timerMaxCounter := by simp [TimerService.wakeTick, hnone]
    refine ⟨hfirst (hs.nothing hw hnone).1 ?_, fun hexch => ?_⟩
    · rw [← hwt]
      exact hseen hw.symm (Or.inl hnone)
    · exact (hswitch (Or.inr hw.symm) hexch).elim
  case something =>
    rw [h.pc, h.inHand, h.count]
    intro htst y hy hlt
    rw [h.mem y (hin (by rw [htst]; rfl) y hy)] at hlt ⊢
    have hwt : s.wakeTick = (s.mem y).timeout := by simp [TimerService.wakeTick, hy]
    refine hfirst (hs.something htst y hy hlt) ?_
    rw [← hwt] at hlt ⊢
    exact hseen (Or.inl htst) (Or.inr hlt)
  case draining =>
    rw [h.pc]
    exact fun hd => (hd.elim hdrain.1 hdrain.2).elim

/-- A timer enters the future list. -/
theorem SleepInv.armFuture (hs : SleepInv s) (he : EarlyInv s) (h : Besides s t p)
    (hno : ¬ s.current.Has p) (hcur : t.current = s.current)
    (hfut : ∀ x, t.future.Has x ↔ s.future.Has x ∨ x = p) (htimeout : t.timeout = s.timeout)
    (hwait : t.timeToWait = s.timeToWait) (hlt : (t.mem p).timeout < s.osTickCounter)
    (hdue : s.now + ((t.mem p).timeout + tc.tickCountOverflow - s.osTickCounter) ≤ t.due p)
    (hinit : s.pc = .init → s.osTickCounter < tc.timerMaxCounter)
    (hplan : s.pc = .plan ∨ s.pc = .store ∨ s.pc = .sleep ∨ s.pc = .asleep ∨
      s.pc = .switchTest ∧ ¬ s.Exchanges → s.osTickCounter < s.plan)
    (hwoken : s.pc = .woken → s.RootBy s.osTickCounter)
    (htest : s.pc = .wrapTest → ∀ y ∈ s.p, (s.mem y).timeout ≤ s.osTickCounter)
    (hdrain : s.pc ≠ .drain ∧ s.pc ≠ .drainCallback) : SleepInv t := by
  have hne : ∀ {x}, s.current.Has x → x ≠ p := fun hx h => hno (h ▸ hx)
  have hin : s.pc.inHand = true → ∀ y, s.p = some y → y ≠ p := fun hi y hy =>
    hne (he.inHand hi y hy)
  have hnext : s.NextPeriod s.future → t.NextPeriod t.future :=
    h.nextPeriod_insert (fun x => (hfut x).mp) hlt hdue
  have hperiod : s.InPeriod → t.InPeriod := by
    rintro ⟨hsoon, hn⟩
    refine ⟨?_, hnext hn⟩
    rw [hcur]
    exact h.soon (fun x hx => ⟨hx, hne hx⟩) hsoon
  have hex : t.Exchanges ↔ s.Exchanges := by
    rw [TimerService.Exchanges, h.inHand, htimeout]
    rfl
  have hmem : ∀ x, s.current.Has x → t.mem x = s.mem x := fun x hx => h.mem x (hne hx)
  constructor
  case init =>
    rw [h.pc, h.count, hcur]
    intro hpc
    obtain ⟨hper, hahead, -⟩ := hs.init hpc
    refine ⟨hperiod hper, fun x hx => ?_, Or.inl (hinit hpc)⟩
    rw [hmem x hx]
    exact hahead x hx
  case planned =>
    rw [h.pc, hex]
    intro hcase
    have hat : t.plan = s.plan := by
      have hsl : s.pc = .sleep ∨ s.pc = .asleep → t.plan = s.plan := fun hsl => by
        rw [plan_sleep hsl, plan_sleep (by rw [h.pc]; exact hsl), hwait]
      rcases hcase with h' | h' | h' | h' | ⟨h', -⟩
      · exact h.plan (Or.inl h') hin
      · exact h.plan (Or.inr (Or.inl h')) hin
      · exact hsl (Or.inl h')
      · exact hsl (Or.inr h')
      · exact h.plan (Or.inr (Or.inr h')) hin
    rw [hat]
    obtain ⟨hall, ⟨hlt, hO, hper⟩ | ⟨hge, -⟩⟩ := hs.planned hcase
    · refine ⟨fun x hx => ?_, Or.inl ⟨by rw [h.count]; exact hlt, hO, hperiod hper⟩⟩
      rw [hcur] at hx
      rw [hmem x hx]
      exact hall x hx
    · exact absurd (hplan hcase) (not_lt.mpr hge)
  case exchanges =>
    rw [h.pc, hex, hcur]
    exact fun hsw hexch => (hs.exchanges hsw hexch).imp_right hnext
  case awake =>
    rw [h.pc]
    exact fun haw => hperiod (hs.awake haw)
  case woken =>
    rw [h.pc, h.count]
    intro hw
    have hby := hwoken hw
    rcases hs.woken hw with ⟨hper, -⟩ | ⟨-, ⟨x, hx⟩, hahead⟩
    · refine Or.inl ⟨hperiod hper, ?_⟩
      unfold TimerService.RootBy at hby ⊢
      rw [hcur]
      exact hby.imp_right fun ⟨y, hy, hle⟩ => ⟨y, hy, by rw [hmem y hy]; exact hle⟩
    · rcases hby with hempty | ⟨y, hy, hle⟩
      · exact (hempty x hx).elim
      · exact absurd (hahead y hy) (not_lt.mpr hle)
  case wrapTest =>
    rw [h.pc, h.inHand, h.count]
    intro hw
    rcases hs.wrapTest hw with ⟨hper, -⟩ | ⟨-, y, hy, hlt⟩
    · refine Or.inl ⟨hperiod hper, fun y hy => ?_⟩
      rw [h.mem y (hin (by rw [hw]; rfl) y hy)]
      exact htest hw y hy
    · exact absurd (htest hw y hy) (not_le.mpr hlt)
  case nothing =>
    rw [h.pc, h.inHand, hex, hcur]
    refine fun hw hnone => (hs.nothing hw hnone).imp_left fun hall x hx => ?_
    rw [hmem x hx]
    exact hall x hx
  case something =>
    rw [h.pc, h.inHand, h.count, hcur]
    intro htst y hy hlt x hx
    rw [h.mem y (hin (by rw [htst]; rfl) y hy)] at hlt ⊢
    rw [hmem x hx]
    exact hs.something htst y hy hlt x hx
  case draining =>
    rw [h.pc]
    exact fun hd => (hd.elim hdrain.1 hdrain.2).elim

/-- A timer leaves its list. -/
theorem SleepInv.takeOut (hs : SleepInv s) (h : Besides s t p)
    (hcur : ∀ x, t.current.Has x ↔ s.current.Has x ∧ x ≠ p)
    (hfut : ∀ x, t.future.Has x → s.future.Has x ∧ x ≠ p) (htimeout : t.timeout = s.timeout)
    (hwait : t.timeToWait = s.timeToWait) (hp : s.pc.inHand = true → s.p ≠ some p)
    (hby : s.pc = .woken → s.RootBy s.osTickCounter → t.RootBy s.osTickCounter)
    (hlast : s.pc = .woken → (∀ x, s.current.Has x → s.osTickCounter < (s.mem x).timeout) →
      (∃ x, s.current.Has x) → ∃ x, s.current.Has x ∧ x ≠ p) : SleepInv t := by
  have hin : s.pc.inHand = true → ∀ y, s.p = some y → y ≠ p := by
    rintro hi y hy rfl
    exact hp hi hy
  have hperiod : s.InPeriod → t.InPeriod := fun ⟨hsn, hn⟩ =>
    ⟨h.soon (fun x => (hcur x).mp) hsn, h.nextPeriod hfut hn⟩
  have hex : t.Exchanges ↔ s.Exchanges := by
    rw [TimerService.Exchanges, h.inHand, htimeout]
    rfl
  -- a bound on the timeouts of the shorter list
  have hfirst : ∀ {q : Nat → Prop}, (∀ x, s.current.Has x → q (s.mem x).timeout) →
      ∀ x, t.current.Has x → q (t.mem x).timeout := by
    intro q hall x hx
    obtain ⟨hx, hne⟩ := (hcur x).mp hx
    rw [h.mem x hne]
    exact hall x hx
  constructor
  case init =>
    rw [h.pc, h.count]
    intro hpc
    obtain ⟨hper, hahead, hmax⟩ := hs.init hpc
    refine ⟨hperiod hper, hfirst hahead, hmax.imp_right fun hall x hx => hall x ?_⟩
    exact hx.imp (fun hx => ((hcur x).mp hx).1) fun hx => (hfut x hx).1
  case planned =>
    rw [h.pc, hex]
    intro hcase
    have hat : t.plan = s.plan := by
      have hsl : s.pc = .sleep ∨ s.pc = .asleep → t.plan = s.plan := fun hsl => by
        rw [plan_sleep hsl, plan_sleep (by rw [h.pc]; exact hsl), hwait]
      rcases hcase with h' | h' | h' | h' | ⟨h', -⟩
      · exact h.plan (Or.inl h') hin
      · exact h.plan (Or.inr (Or.inl h')) hin
      · exact hsl (Or.inl h')
      · exact hsl (Or.inr h')
      · exact h.plan (Or.inr (Or.inr h')) hin
    rw [hat]
    obtain ⟨hall, ⟨hlt, hO, hper⟩ | ⟨hge, hn, hempty⟩⟩ := hs.planned hcase
    · exact ⟨hfirst hall, Or.inl ⟨by rw [h.count]; exact hlt, hO, hperiod hper⟩⟩
    · exact ⟨hfirst hall, Or.inr ⟨by rw [h.count]; exact hge,
        h.nextPeriod (fun x => (hcur x).mp) hn, fun x hx => hempty x (hfut x hx).1⟩⟩
  case exchanges =>
    rw [h.pc, hex]
    intro hsw hexch
    obtain ⟨hempty, hn⟩ := hs.exchanges hsw hexch
    exact ⟨fun x hx => hempty x ((hcur x).mp hx).1, h.nextPeriod hfut hn⟩
  case awake =>
    rw [h.pc]
    exact fun haw => hperiod (hs.awake haw)
  case woken =>
    rw [h.pc, h.count]
    intro hw
    rcases hs.woken hw with ⟨hper, hr⟩ | ⟨hsn, hsome, hahead⟩
    · exact Or.inl ⟨hperiod hper, hby hw hr⟩
    · obtain ⟨x, hx⟩ := hlast hw hahead hsome
      exact Or.inr ⟨h.soon hfut hsn, ⟨x, (hcur x).mpr hx⟩, hfirst hahead⟩
  case wrapTest =>
    rw [h.pc, h.inHand, h.count]
    intro hw
    have hin' := hin (by rw [hw]; rfl)
    rcases hs.wrapTest hw with ⟨hper, hle⟩ | ⟨hsn, y, hy, hlt⟩
    · refine Or.inl ⟨hperiod hper, fun y hy => ?_⟩
      rw [h.mem y (hin' y hy)]
      exact hle y hy
    · refine Or.inr ⟨h.soon hfut hsn, y, hy, ?_⟩
      rw [h.mem y (hin' y hy)]
      exact hlt
  case nothing =>
    rw [h.pc, h.inHand, hex]
    intro hw hnone
    obtain ⟨hall, hempty⟩ := hs.nothing hw hnone
    exact ⟨hfirst hall, fun hexch x hx => hempty hexch x ((hcur x).mp hx).1⟩
  case something =>
    rw [h.pc, h.inHand, h.count]
    intro htst y hy hlt
    rw [h.mem y (hin (by rw [htst]; rfl) y hy)] at hlt ⊢
    exact hfirst (hs.something htst y hy hlt)
  case draining =>
    rw [h.pc, h.inHand]
    intro hd
    obtain ⟨hsn, hempty⟩ := hs.draining hd
    exact ⟨h.soon hfut hsn, fun hnone x hx => hempty hnone x ((hcur x).mp hx).1⟩

/-! ### The task -/

/-- From the next wake-up tick on to the delay list. -/
theorem SleepInv.of_planned
    (hpc : t.pc = .plan ∨ t.pc = .store ∨ t.pc = .sleep ∨ t.pc = .asleep)
    (hp : t.Planned t.plan) : SleepInv t := by
  constructor
  case planned => exact fun _ => hp
  all_goals
    intro h
    rcases hpc with hpc | hpc | hpc | hpc <;> simp [hpc] at h

/-- The loop over the expired timers. -/
theorem SleepInv.of_test (hpc : t.pc = .test) (hin : t.InPeriod)
    (hnone : t.p = none → (∀ x, t.current.Has x → tc.timerMaxCounter ≤ (t.mem x).timeout) ∧
      (t.Exchanges → ∀ x, ¬ t.current.Has x))
    (hsome : ∀ y, t.p = some y → t.osTickCounter < (t.mem y).timeout →
      ∀ x, t.current.Has x → (t.mem y).timeout ≤ (t.mem x).timeout) : SleepInv t := by
  constructor
  case awake => exact fun _ => hin
  case nothing => exact fun _ => hnone
  case something => exact fun _ => hsome
  all_goals
    intro h
    simp [hpc] at h

/-- The loop looks at the root again. -/
theorem SleepInv.of_root (hi : ListInv tc t.mem t.current) (hpc : t.pc = .test)
    (hin : t.InPeriod) (hp : t.p = t.current.timers 1) : SleepInv t := by
  refine .of_test hpc hin (fun hnone => ?_) fun y hy _ => ?_
  · have hempty := hi.toListShape.root_none.mp (hp.symm.trans hnone)
    exact ⟨fun x hx => (hempty x hx).elim, fun _ => hempty⟩
  · exact (hi.root_spec (hp.symm.trans hy)).2

theorem SleepInv.of_callback (hpc : t.pc = .callback) (hin : t.InPeriod) : SleepInv t := by
  constructor
  case awake => exact fun _ => hin
  all_goals
    intro h
    simp [hpc] at h

/-- The loop that empties the list. -/
theorem SleepInv.of_drain (hpc : t.pc = .drain ∨ t.pc = .drainCallback) (hfut : t.Soon t.future)
    (hnone : t.p = none → ∀ x, ¬ t.current.Has x) : SleepInv t := by
  constructor
  case draining => exact fun _ => ⟨hfut, hnone⟩
  all_goals
    intro h
    rcases hpc with hpc | hpc <;> simp [hpc] at h

theorem SleepInv.of_switchTest (hpc : t.pc = .switchTest)
    (hplan : ¬ t.Exchanges → t.Planned t.plan)
    (hex : t.Exchanges → (∀ x, ¬ t.current.Has x) ∧ t.NextPeriod t.future) : SleepInv t := by
  constructor
  case planned => exact fun h => hplan (by simpa [hpc] using h)
  case exchanges => exact fun _ => hex
  all_goals
    intro h
    simp [hpc] at h

theorem SleepInv.of_woken (hpc : t.pc = .woken) (hin : t.InPeriod)
    (hby : t.RootBy t.osTickCounter) : SleepInv t := by
  constructor
  case woken => exact fun _ => Or.inl ⟨hin, hby⟩
  all_goals
    intro h
    simp [hpc] at h

theorem SleepInv.of_wrapTest (hpc : t.pc = .wrapTest)
    (hwrap : t.InPeriod ∧ (∀ y, t.p = some y → (t.mem y).timeout ≤ t.osTickCounter) ∨
      t.Soon t.future ∧ ∃ y, t.p = some y ∧ t.osTickCounter < (t.mem y).timeout)
    (hnone : t.p = none → (∀ x, t.current.Has x → tc.timerMaxCounter ≤ (t.mem x).timeout) ∧
      (t.Exchanges → ∀ x, ¬ t.current.Has x)) : SleepInv t := by
  constructor
  case wrapTest => exact fun _ => hwrap
  case nothing => exact fun _ => hnone
  all_goals
    intro h
    simp [hpc] at h

/-- What the invariant looks at. -/
theorem SleepInv.congr (hs : SleepInv s) (hpc : t.pc = s.pc) (hp : t.p = s.p)
    (hcur : t.current = s.current) (hfut : t.future = s.future)
    (hmem : ∀ x, (t.mem x).timeout = (s.mem x).timeout)
    (hcount : t.osTickCounter = s.osTickCounter) (hnow : t.now = s.now) (hdue : t.due = s.due)
    (hplan : t.plan = s.plan) (htimeout : t.timeout = s.timeout) : SleepInv t := by
  have hex : t.Exchanges ↔ s.Exchanges := by
    rw [TimerService.Exchanges, hp, htimeout]
    rfl
  constructor
  all_goals
    simp only [TimerService.InPeriod, TimerService.Soon, TimerService.NextPeriod,
      TimerService.Planned, TimerService.RootBy, TimerService.Listed, hpc, hp, hcur, hfut, hmem,
      hcount, hnow, hdue, hplan, hex]
  case init => exact hs.init
  case planned => exact hs.planned
  case exchanges => exact hs.exchanges
  case awake => exact hs.awake
  case woken => exact hs.woken
  case wrapTest => exact hs.wrapTest
  case nothing => exact hs.nothing
  case something => exact hs.something
  case draining => exact hs.draining

theorem wakeTick_congr (hp : t.p = s.p) (hmem : ∀ x, (t.mem x).timeout = (s.mem x).timeout) :
    t.wakeTick = s.wakeTick := by
  unfold TimerService.wakeTick
  rw [hp]
  cases s.p with
  | none => rfl
  | some y => exact hmem y

theorem plan_congr (hpc : t.pc = s.pc) (hp : t.p = s.p) (hcur : t.current = s.current)
    (hmem : ∀ x, (t.mem x).timeout = (s.mem x).timeout)
    (hnext : t.nextTimeToWake = s.nextTimeToWake) (hwait : t.timeToWait = s.timeToWait) :
    t.plan = s.plan := by
  have hw := wakeTick_congr hp hmem
  have hr : t.readRoot.wakeTick = s.readRoot.wakeTick :=
    wakeTick_congr (by rw [TimerService.readRoot, TimerService.root, hcur]; rfl) hmem
  unfold TimerService.plan
  rw [hpc, hw, hr, hnext, hwait]

theorem inPeriod_fire {pc : TaskPc} (h : s.InPeriod) : (s.fire p pc).InPeriod := by
  refine ⟨fun x hx => ?_, fun x hx => ?_⟩ <;> rw [fire_timeout]
  · exact h.1 x hx
  · exact h.2 x hx

theorem soon_fire {pc : TaskPc} (h : s.Soon l) : (s.fire p pc).Soon l := by
  intro x hx
  rw [fire_timeout]
  exact h x hx

/-- A plan for the root of the current list, or for the end of the period. -/
theorem planned_root (hi : TimerInv s) (hc : ClockInv s) (hr : s.p = s.root)
    (h : s.InPeriod ∧ (∀ x, s.current.Has x → s.osTickCounter < (s.mem x).timeout) ∧
        (s.osTickCounter < tc.timerMaxCounter ∨ ∀ x, ¬ s.Listed x) ∨
      s.NextPeriod s.current ∧ ∀ x, ¬ s.future.Has x) : s.Planned s.wakeTick := by
  have hO := hc.count_lt
  have hmax : tc.timerMaxCounter < tc.tickCountOverflow := Nat.sub_one_lt (by omega)
  unfold TimerService.wakeTick
  rw [hr]
  cases hroot : s.root with
  | some r =>
      obtain ⟨hin, hfirst⟩ := hi.root_spec hroot
      refine ⟨hfirst, ?_⟩
      rcases h with ⟨hper, hahead, -⟩ | ⟨hnext, hfut⟩
      · exact Or.inl ⟨hahead r hin, hc.timeout_lt r (Or.inl hin), hper⟩
      · exact Or.inr ⟨(hnext r hin).1.le, hnext, hfut⟩
  | none =>
      have hnone := hi.root_none.mp hroot
      have hnext : s.NextPeriod s.current := fun x hx => (hnone x hx).elim
      refine ⟨fun x hx => (hnone x hx).elim, ?_⟩
      dsimp only
      rcases h with ⟨hper, -, hlt | hempty⟩ | ⟨-, hfut⟩
      · exact Or.inl ⟨hlt, hmax, hper⟩
      · by_cases hlt : s.osTickCounter < tc.timerMaxCounter
        · exact Or.inl ⟨hlt, hmax, hper⟩
        · exact Or.inr ⟨not_lt.mp hlt, hnext, fun x hx => hempty x (Or.inr hx)⟩
      · by_cases hlt : s.osTickCounter < tc.timerMaxCounter
        · exact Or.inl ⟨hlt, hmax, fun x hx => (hnone x hx).elim, fun x hx => (hfut x hx).elim⟩
        · exact Or.inr ⟨not_lt.mp hlt, hnext, hfut⟩

/-- The plan of a task that has nothing due and leaves the lists as they are. -/
theorem planned_notDue (hi : TimerInv s) (hc : ClockInv s) (he : EarlyInv s) (hs : SleepInv s)
    (hpc : s.pc = .test) (hp : ∀ y, s.p = some y → s.osTickCounter < (s.mem y).timeout)
    (hno : ¬ s.Exchanges)
    (hmax : s.p = none → s.timeout ≤ tc.timerMaxCounter →
      s.osTickCounter < tc.timerMaxCounter ∨ s.Idle) : s.Planned s.wakeTick := by
  have hper := hs.awake (Or.inl hpc)
  unfold TimerService.wakeTick
  cases hy : s.p with
  | some y =>
      have hlt := hp y hy
      exact ⟨hs.something hpc y hy hlt, Or.inl ⟨hlt,
        hc.timeout_lt y (Or.inl (he.inHand (by rw [hpc]; rfl) y hy)), hper⟩⟩
  | none =>
      have hle : s.timeout ≤ tc.timerMaxCounter := not_lt.mp fun hgt => hno ⟨hgt, hy⟩
      have hO : tc.timerMaxCounter < tc.tickCountOverflow := by
        have := hc.count_lt
        exact Nat.sub_one_lt (by omega)
      refine ⟨(hs.nothing (Or.inr hpc) hy).1, ?_⟩
      dsimp only
      rcases hmax hy hle with hlt | hidle
      · exact Or.inl ⟨hlt, hO, hper⟩
      · -- nothing to wake up for, so the wake-up tick may be of either period
        have hempty := hi.idle_iff.mp hidle
        by_cases hlt : s.osTickCounter < tc.timerMaxCounter
        · exact Or.inl ⟨hlt, hO, hper⟩
        · exact Or.inr ⟨not_lt.mp hlt, fun x hx => (hempty x (Or.inl hx)).elim,
            fun x hx => hempty x (Or.inr hx)⟩

/-- **A step keeps the task from oversleeping.** -/
theorem TimerMove.sleep {a : TimerAct} {o : TimerObs} (hi : TimerInv s) (hc : ClockInv s)
    (he : EarlyInv s) (hs : SleepInv s) (hk : KeepsDue s a) (hk' : KeepsTime s a)
    (hm : TimerMove s a t o) : SleepInv t := by
  cases hm with
  | refused hcode => exact hs
  | @allocated c p cb h0 hfree =>
      have hmem : ∀ x, ((Function.update s.mem p ⟨some cb, (s.mem p).timeout, .stopped⟩) x).timeout =
          (s.mem x).timeout := by
        intro x
        by_cases hx : x = p <;> simp [hx]
      exact hs.congr rfl rfl rfl rfl hmem rfl rfl rfl (plan_congr rfl rfl rfl hmem rfl rfl) rfl
  | @armedFuture c p cb out list harm hno hwrap hlist hhas =>
      obtain ⟨hlt, hv, hw⟩ := armed_wrapped hc.count_lt (arms_pos harm) (hk.arms harm).1 hwrap
      rw [TimerConfig.ticksUntil, if_neg (not_le.mpr hlt)] at hw
      obtain ⟨hwoken, htest, hdrain⟩ := arms_future hi (hk.arms harm) hwrap
      have hsees := hk'.arms harm
      refine hs.armFuture (p := p) he ⟨⟨rfl, rfl, fun x hx => by simp [hx],
        fun x hx => by simp [hx]⟩, rfl, rfl, rfl⟩ hno.1 rfl hhas rfl rfl ?_ ?_ ?_ hsees.lt_plan
        hwoken htest hdrain
      · simpa using hlt
      · simp [hw]
      · intro hpc
        unfold TimerService.SeesArmed at hsees
        rw [hpc] at hsees
        exact hsees
  | @armedCurrent c p wake cb out list harm hno hwrap hlist hhas hwake hkeep =>
      obtain ⟨hlt, hv, hw⟩ := armed_unwrapped hc.count_lt (arms_pos harm) (hk.arms harm).1 hwrap
      rw [TimerConfig.ticksUntil, if_pos hlt.le] at hw
      obtain ⟨hstore, hwoken, htest, hdrain, hcb⟩ := arms_current hi hc (hk.arms harm) hwrap
      have hsum : tc.unwrapped (s.osTickCounter + c.ticks tc) = s.osTickCounter + c.ticks tc := by
        omega
      have hsees := hk'.arms harm
      refine hs.armCurrent (p := p) hc he ⟨⟨rfl, rfl, fun x hx => by simp [hx],
        fun x hx => by simp [hx]⟩, rfl, rfl, rfl⟩ hno.1 hno.2 hhas rfl rfl ?_ ?_ ?_ ?_ ?_ ?_
        (hsees.not_exchanges hwrap) ?_ ?_ hwoken htest ⟨?_, hcb⟩
      · simpa using hlt
      · simpa using hv
      · simp [hw]
      · simpa using hwake
      · simpa using hkeep
      · simp only [Function.update_self, hsum]
        exact hsees.plan_le hwrap
      · exact hsees.lt_timeToWait
      · simp only [Function.update_self, hsum]
        exact hsees.wakeTick_le hwrap
      · intro hpc
        unfold TimerService.SeesArmed at hsees
        rw [hpc] at hsees
        exact hsees
  | @stoppedCurrent p del cb state list hrun hhas hin hstate hlist hhas' =>
      have hpc := hk hin
      have hb : Besides s { s with
          mem := Function.update s.mem p ⟨cb, 0, state⟩
          current := list } p :=
        ⟨⟨rfl, rfl, fun x hx => by simp [hx], fun x hx => rfl⟩, rfl, rfl, rfl⟩
      refine hs.takeOut hb hhas' (fun x hx => ⟨hx, ?_⟩) rfl rfl ?_ ?_ ?_
      · rintro rfl
        exact hi.disjoint x hhas hx
      · intro h
        unfold TimerService.StopsInTime at hpc
        cases hs : s.pc <;> simp_all [TaskPc.inHand]
      · intro hw
        unfold TimerService.StopsInTime at hpc
        rw [hw] at hpc
        exact hb.toOthersSame.rootBy hhas' hpc
      · intro hw hahead _
        exact TimerList.any_iff.mp (hk' hw hin (hahead p hhas))
  | @stoppedFuture p del cb state list hrun hhas hin hstate hlist hhas' =>
      have hcur : ¬ s.current.Has p := fun h => hi.disjoint p h hhas
      refine hs.takeOut (p := p) ⟨⟨rfl, rfl, fun x hx => by simp [hx], fun x hx => rfl⟩, rfl, rfl,
        rfl⟩ (fun x => ?_) (fun x hx => (hhas' x).mp hx) rfl rfl ?_ ?_ ?_
      · exact ⟨fun hx => ⟨hx, fun h => hcur (h ▸ hx)⟩, fun hx => hx.1⟩
      · exact fun hin hp => hcur (he.inHand hin p hp)
      · intro _ hr
        refine hr.imp_right ?_
        rintro ⟨y, hy, hle⟩
        refine ⟨y, hy, ?_⟩
        have hyp : y ≠ p := fun h => hcur (h ▸ hy)
        simpa [hyp] using hle
      · rintro - - ⟨x, hx⟩
        exact ⟨x, hx, fun h => hcur (h ▸ hx)⟩
  | brtosStart =>
      exact hs.congr rfl rfl rfl rfl (fun x => rfl) rfl rfl rfl
        (plan_congr rfl rfl rfl (fun x => rfl) rfl rfl) rfl
  | ticked hstay =>
      exact hs.later hi hc he ⟨rfl, rfl, rfl, rfl, rfl, rfl⟩ rfl rfl rfl
        (plan_congr rfl rfl rfl (fun x => rfl) rfl rfl) hk' hstay
  | woke hpc hwake =>
      have hl : Later s { s with
          osTickCounter := s.nextCount
          now := s.now + 1
          pc := .woken
          timeToWait := tc.exitByTimeout } := ⟨rfl, rfl, rfl, rfl, rfl, rfl⟩
      have hplan := hs.planned (Or.inr (Or.inr (Or.inr (Or.inl hpc))))
      have hroot := he.rootBy (by rw [hpc]; rfl)
      rw [plan_sleep (Or.inr hpc), hwake] at hplan
      rw [TimerService.wakeAt, if_neg (by rw [hpc]; decide), hwake] at hroot
      exact .of_woken rfl (hl.inPeriod_planned hc hplan) (hl.rootBy le_rfl hroot)
  | begun hpc =>
      refine .of_planned (Or.inr (Or.inl rfl)) ?_
      have hi' : TimerInv s.readRoot := hi.outside (by simp [hpc])
        (by simp [TimerService.readRoot, hpc]) rfl rfl rfl
      have hc' : ClockInv s.readRoot := ⟨hc.count_lt, hc.started, hc.timeout_lt, hc.due_le⟩
      have hplan := planned_root hi' hc' rfl (Or.inl (hs.init hpc))
      exact hplan
  | stored hpc =>
      have hplan := hs.planned (Or.inr (Or.inl hpc))
      rw [plan_store hpc] at hplan
      exact .of_planned (Or.inr (Or.inr (Or.inl rfl))) hplan
  | slept hpc =>
      have hplan := hs.planned (Or.inr (Or.inr (Or.inl hpc)))
      rw [plan_sleep (Or.inl hpc)] at hplan
      exact .of_planned (Or.inr (Or.inr (Or.inr rfl))) hplan
  | looked hpc =>
      cases hr : s.root with
      | none =>
          have hnone := hi.root_none.mp hr
          have hper : s.InPeriod := by
            rcases hs.woken hpc with ⟨hper, -⟩ | ⟨-, ⟨x, hx⟩, -⟩
            · exact hper
            · exact (hnone x hx).elim
          refine .of_wrapTest rfl (Or.inl ⟨hper, fun y hy => ?_⟩) fun _ =>
            ⟨fun x hx => (hnone x hx).elim, fun _ => hnone⟩
          have hy : s.root = some y := hy
          rw [hr] at hy
          cases hy
      | some r =>
          obtain ⟨hin, hfirst⟩ := hi.root_spec hr
          refine .of_wrapTest rfl ?_ fun hnone => ?_
          · rcases hs.woken hpc with ⟨hper, hby⟩ | ⟨hsoon, -, hahead⟩
            · refine Or.inl ⟨hper, fun y hy => ?_⟩
              obtain rfl : r = y := Option.some.inj (hr.symm.trans hy)
              rcases hby with hempty | ⟨z, hz, hle⟩
              · exact (hempty r hin).elim
              · exact (hfirst z hz).trans hle
            · exact Or.inr ⟨hsoon, r, hr, hahead r hin⟩
          · have hnone : s.root = none := hnone
            rw [hr] at hnone
            cases hnone
  | @drains repeats p hpc hp hlate =>
      refine .of_drain (Or.inl rfl) ?_ fun hnone => ?_
      · rcases hs.wrapTest hpc with ⟨-, hle⟩ | ⟨hsoon, -⟩
        · exact absurd hlate (not_lt.mpr (hle p hp))
        · exact hsoon
      · have hnone : s.p = none := hnone
        rw [hp] at hnone
        cases hnone
  | tests hpc hp =>
      -- the root is not ahead, so the counter has not wrapped
      have hper : s.InPeriod := by
        rcases hs.wrapTest hpc with ⟨hper, -⟩ | ⟨-, y, hy, hlt⟩
        · exact hper
        · exact absurd hlt (not_lt.mpr (hp y hy))
      exact .of_test rfl hper (hs.nothing (Or.inl hpc)) fun y hy hlt =>
        absurd hlt (not_lt.mpr (hp y hy))
  | @drainFired repeats p hpc hp hhas =>
      refine .of_drain (Or.inr rfl) (soon_fire (hs.draining (Or.inl hpc)).1) fun hnone => ?_
      have hnone : s.p = none := hnone
      rw [hp] at hnone
      cases hnone
  | drained hpc hp =>
      obtain ⟨hsoon, hempty⟩ := hs.draining (Or.inl hpc)
      exact .of_root hi.future rfl ⟨hsoon, fun x hx => (hempty hp x hx).elim⟩ rfl
  | @fired repeats p hpc hp hdue hhas =>
      exact .of_callback rfl (inPeriod_fire (hs.awake (Or.inl hpc)))
  | notDue hpc hp =>
      refine .of_switchTest rfl (fun hno => ?_) fun hex => ?_
      · show s.Planned s.wakeTick
        exact planned_notDue hi hc he hs hpc hp hno (hk' hpc)
      · exact ⟨(hs.nothing (Or.inr hpc) hex.2).2 hex, (hs.awake (Or.inl hpc)).2⟩
  | @released repeats p pc list hpc hp hroot hlist hhas =>
      have hfut := hi.disjoint p (hi.root_spec hroot).1
      have hb : OthersSame s { s with
          mem := Function.update s.mem p ⟨none, 0, .notUsed⟩
          current := list
          p := list.timers 1
          pc := pc } p := ⟨rfl, rfl, fun x hx => by simp [hx], fun x hx => rfl⟩
      have hkeep : ∀ x, s.future.Has x → s.future.Has x ∧ x ≠ p := fun x hx =>
        ⟨hx, fun h => hfut (h ▸ hx)⟩
      rcases hpc with ⟨hpc, rfl⟩ | ⟨hpc, rfl⟩
      · exact .of_drain (Or.inl rfl) (hb.soon hkeep (hs.draining (Or.inr hpc)).1)
          hlist.toListShape.root_none.mp
      · have hper := hs.awake (Or.inr hpc)
        exact .of_root hlist rfl
          ⟨hb.soon (fun x => (hhas x).mp) hper.1, hb.nextPeriod hkeep hper.2⟩ rfl
  | @moved repeats p v pc list list' hpc hp hroot hpos hlist hhas hlist' hhas' =>
      have hb : OthersSame s { s with
          mem := runTimer s.mem p v
          current := list
          future := list'
          p := list.timers 1
          pc := pc
          timeout := (s.osTickCounter + s.repeatOf repeats) % 2 ^ (2 * tc.tickBits)
          due := Function.update s.due p (s.now + s.repeatOf repeats) } p :=
        ⟨rfl, rfl, fun x hx => runTimer_ne hx, fun x hx => by simp [hx]⟩
      rcases hpc with ⟨hpc, rfl, rfl⟩ | ⟨hpc, rfl, hwrap, rfl⟩
      · -- the other list is the one of this period by now
        refine .of_drain (Or.inl rfl) ?_ hlist.toListShape.root_none.mp
        refine hb.soon_insert (fun x => (hhas' x).mp) ?_ (hs.draining (Or.inr hpc)).1
        show s.now + ((runTimer s.mem p _ p).timeout - s.osTickCounter) ≤ Function.update s.due p _ p
        rw [runTimer_self, unwrapped_eq (hk.2 hpc), Function.update_self]
        simp
      · have hper := hs.awake (Or.inr hpc)
        obtain ⟨hlt, hv, hw⟩ := armed_wrapped hc.count_lt hpos (hk.1 (Or.inl hpc)) hwrap
        rw [TimerConfig.ticksUntil, if_neg (not_le.mpr hlt)] at hw
        refine .of_root hlist rfl ⟨hb.soon (fun x => (hhas x).mp) hper.1,
          hb.nextPeriod_insert (fun x => (hhas' x).mp) ?_ ?_ hper.2⟩ rfl
        · show (runTimer s.mem p _ p).timeout < s.osTickCounter
          rw [runTimer_self]
          exact hlt
        · show s.now + ((runTimer s.mem p _ p).timeout + tc.tickCountOverflow - s.osTickCounter) ≤
            Function.update s.due p _ p
          rw [runTimer_self, Function.update_self]
          simp [hw]
  | @kept repeats p v list hpc hp hroot hpos hwrap hv hlist hhas =>
      subst hv
      have hfut := hi.disjoint p (hi.root_spec hroot).1
      have hb : OthersSame s { s with
          mem := runTimer s.mem p (tc.unwrapped (s.osTickCounter + s.repeatOf repeats))
          current := list
          p := list.timers 1
          pc := .test
          timeout := (s.osTickCounter + s.repeatOf repeats) % 2 ^ (2 * tc.tickBits)
          due := Function.update s.due p (s.now + s.repeatOf repeats) } p :=
        ⟨rfl, rfl, fun x hx => runTimer_ne hx, fun x hx => by simp [hx]⟩
      obtain ⟨hlt, hv, hw⟩ := armed_unwrapped hc.count_lt hpos (hk.1 (Or.inl hpc)) hwrap
      rw [TimerConfig.ticksUntil, if_pos hlt.le] at hw
      have hper := hs.awake (Or.inr hpc)
      refine .of_root hlist rfl ⟨hb.soon_insert (fun x hx => Or.inl ((hhas x).mp hx)) ?_ hper.1,
        hb.nextPeriod (fun x hx => ⟨hx, fun h => hfut (h ▸ hx)⟩) hper.2⟩ rfl
      show s.now + ((runTimer s.mem p _ p).timeout - s.osTickCounter) ≤ Function.update s.due p _ p
      rw [runTimer_self, Function.update_self]
      simp [hw]
  | switched hpc hout hp =>
      refine .of_planned (Or.inl rfl) ?_
      obtain ⟨hempty, hnext⟩ := hs.exchanges hpc ⟨hout, hp⟩
      have hi' : TimerInv s.switchLists.readRoot := hi.exchange (by simp [hpc])
        (by simp [TimerService.readRoot, TimerService.switchLists, hpc]) rfl rfl rfl
      have hc' : ClockInv s.switchLists.readRoot := ⟨hc.count_lt, hc.started,
        fun x hx => hc.timeout_lt x hx.symm, fun x hx => hc.due_le x hx.symm⟩
      have hplan := planned_root hi' hc' rfl (Or.inr ⟨hnext, hempty⟩)
      exact hplan
  | stays hpc hor =>
      have hno : ¬ s.Exchanges := by
        rintro ⟨hgt, hnone⟩
        exact hor.elim (not_le.mpr hgt) fun h => h hnone
      have hplan := hs.planned (Or.inr (Or.inr (Or.inr (Or.inr ⟨hpc, hno⟩))))
      rw [plan_inHand (Or.inl hpc)] at hplan
      exact .of_planned (Or.inl rfl) hplan
  | planned hpc =>
      have hplan := hs.planned (Or.inl hpc)
      rw [plan_inHand (Or.inr hpc)] at hplan
      exact .of_planned (Or.inr (Or.inl rfl)) hplan

/-! ### Every run -/

/-- The ticks until the counter is next equal to `TimeToWait`. -/
def TimerService.ticksToWake (s : TimerService tc) : Nat :=
  if s.osTickCounter < s.timeToWait then s.timeToWait - s.osTickCounter
  else s.timeToWait + tc.tickCountOverflow - s.osTickCounter

theorem ticksToWake_isLeast (hc : s.osTickCounter < tc.tickCountOverflow)
    (hw : s.timeToWait < tc.tickCountOverflow) :
    IsLeast {n | 0 < n ∧ (s.osTickCounter + n) % tc.tickCountOverflow = s.timeToWait}
      s.ticksToWake := by
  unfold TimerService.ticksToWake
  constructor
  · split
    · refine ⟨by omega, ?_⟩
      rw [Nat.mod_eq_of_lt (by omega)]
      omega
    · refine ⟨by omega, ?_⟩
      have hsum : s.osTickCounter + (s.timeToWait + tc.tickCountOverflow - s.osTickCounter) =
          s.timeToWait + tc.tickCountOverflow := by omega
      rw [hsum, Nat.add_mod_right, Nat.mod_eq_of_lt hw]
  · rintro n ⟨hpos, heq⟩
    by_contra hlt
    by_cases hwrap : s.osTickCounter + n < tc.tickCountOverflow
    · rw [Nat.mod_eq_of_lt hwrap] at heq
      split at hlt <;> omega
    · rw [Nat.mod_eq_sub_mod (not_lt.mp hwrap)] at heq
      have := Nat.mod_le (s.osTickCounter + n - tc.tickCountOverflow) tc.tickCountOverflow
      split at hlt <;> omega

/-- A task that has planned wakes up before any timer expires. -/
theorem TimerService.Planned.ticksToWake_le (hp : s.Planned s.timeToWait)
    (hx : s.Listed x) : s.now + s.ticksToWake ≤ s.due x := by
  obtain ⟨hall, ⟨hlt, hmax, hsoon, hnext⟩ | ⟨hle, hnext, hempty⟩⟩ := hp
  · rw [TimerService.ticksToWake, if_pos hlt]
    rcases hx with hx | hx
    · have hle := hall x hx
      have := hsoon x hx (by omega)
      omega
    · obtain ⟨-, hdue⟩ := hnext x hx
      omega
  · rw [TimerService.ticksToWake, if_neg (not_lt.mpr hle)]
    rcases hx with hx | hx
    · have hle := hall x hx
      obtain ⟨-, hdue⟩ := hnext x hx
      omega
    · exact (hempty x hx).elim

theorem sleepInv_init (tc : TimerConfig) : SleepInv (TimerService.init tc) := by
  have hnone : ∀ x, ¬ (TimerService.init tc).Listed x :=
    (timerInv_init tc).idle_iff.mp ⟨rfl, rfl⟩
  constructor
  case init =>
    exact fun _ => ⟨inPeriod_empty hnone, fun x hx => (hnone x (Or.inl hx)).elim, Or.inr hnone⟩
  all_goals
    intro h
    simp [TimerService.init] at h

/-- The guard of everything. -/
def KeepsSleep (s : TimerService tc) (a : TimerAct) : Prop := KeepsTimers s a ∧ KeepsTime s a

instance (s : TimerService tc) (a : TimerAct) : Decidable (KeepsSleep s a) :=
  inferInstanceAs (Decidable (_ ∧ _))

theorem sleepInv_run {tr : List (TimerAct × TimerObs)}
    (hr : Run TimerService.step KeepsSleep (TimerService.init tc) tr s) :
    EarlyState s ∧ SleepInv s :=
  Run.invariant (P := fun s => EarlyState s ∧ SleepInv s) hr
    ⟨earlyState_init tc, sleepInv_init tc⟩ fun _ _ _ _ ⟨h, hs⟩ hk hstep =>
      ⟨h.step hk.1 hstep, (timer_move_of_step h.lists hk.1.1 hstep).sleep h.lists h.clock h.early
        hs hk.1.2 hk.2⟩

/-- Timers on both sides of the wrap. -/
def sleepScript : List TimerAct :=
  [.brtosStart, .call (.set true (some 0) 9), .task 0, .task 0, .task 0, .tick,
    .call (.set true (some 1) 65531), .call (.set true (some 2) 4), .tick]

/-- A tick between the choice of the wake-up tick and its store. -/
def lateScript : List TimerAct :=
  [.call (.set true (some 0) 1), .brtosStart, .task 0, .tick, .task 0, .task 0]

end Brtos
