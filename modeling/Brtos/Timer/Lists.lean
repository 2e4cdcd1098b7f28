import Brtos.Timer.Entries

/-!
# Brtos.Timer.Lists

**The timer lists.** A list in good order is a heap without gaps or repetitions
(`ListInv`); the service is in good order if both lists are, no timer is in both, and
the timers in them are those that run, with the one whose callback is being called
(`TimerInv`).

The operations on one list are shown to be those of `Brtos.Lib.BinaryHeap` as long as
the list is in good order: they end, meet no `NULL`, and stay inside the array. What
they do to the set of timers is then one lemma each (`insert_spec`, `removeRoot_spec`,
`reorder_spec`, `takeOut_spec`).

The calls do not check what the lists need of them, so the order is lost by a timer that
is started while it runs, by a stop that looks in the wrong list or meets a timeout of
0 above the timer, by a full list, and by a callback that takes the root away.
`KeepsLists` excludes these, and `timer_lists_invariant` says that nothing else does.
-/

namespace Brtos

open BinaryHeap

variable {tc : TimerConfig} {mem : Nat → Timer} {l : TimerList} {timers : Nat → Option Nat}
  {s t : TimerService tc} {x p n : Nat}

/-- No gaps and no repetitions, inside the array. -/
structure ListShape (tc : TimerConfig) (l : TimerList) : Prop where
  count_lt : l.count < tc.brtosMaxTimer
  filled : ∀ i, 1 ≤ i → i ≤ l.count → ∃ p, l.timers i = some p
  above : ∀ i, l.count < i → l.timers i = none
  inj : ∀ i j, 1 ≤ i → i ≤ l.count → 1 ≤ j → j ≤ l.count → l.timers i = l.timers j → i = j
  untouched : l.touchedZero = false

/-- A list in good order. -/
structure ListInv (tc : TimerConfig) (mem : Nat → Timer) (l : TimerList) : Prop
    extends ListShape tc l where
  ordered : Heap (timerKey mem) l.count l.timers

/-! ### Operations on one list -/

theorem ListShape.toFilled (hs : ListShape tc l) : Filled tc l :=
  ⟨hs.count_lt, hs.filled, hs.above⟩

/-- Another order of the entries: the shape and the timers stay. -/
theorem ListShape.rearrange (hs : ListShape tc l) (hr : Rearranges l.count l.timers timers) :
    ListShape tc { l with timers := timers } ∧
      ∀ x, { l with timers := timers }.Has x ↔ l.Has x := by
  obtain ⟨f, hinj, hf⟩ := hr.source
  obtain ⟨hfilled, hhas⟩ := hs.toFilled.rearrange hr
  refine ⟨⟨hs.count_lt, hfilled.filled, hfilled.above, ?_, hs.untouched⟩, hhas⟩
  intro i j h1 hi h1' hj heq
  obtain ⟨ha, hb, hi'⟩ := hf i h1 hi
  obtain ⟨hc, hd, hj'⟩ := hf j h1' hj
  exact hinj (hs.inj _ _ ha hb hc hd (hi'.symm.trans (heq.trans hj')))

/-- A change to control blocks outside the list, or that keeps the timeouts. -/
theorem ListInv.congr {mem' : Nat → Timer} (hl : ListInv tc mem l)
    (h : ∀ x, l.Has x → (mem' x).timeout = (mem x).timeout) : ListInv tc mem' l := by
  refine ⟨hl.toListShape, fun i hi hn => ?_⟩
  obtain ⟨q, hq⟩ := hl.filled (i / 2) (by omega) (by omega)
  obtain ⟨r, hr⟩ := hl.filled i (by omega) hn
  have hord := hl.ordered i hi hn
  rw [hq, hr, timerKey_some, timerKey_some] at hord ⊢
  rw [h q (.intro (by omega) (by omega) hq), h r (.intro (by omega) hn hr)]
  exact hord

/-- The root comes first. -/
theorem ListInv.root_spec (hl : ListInv tc mem l) {r : Nat} (hr : l.timers 1 = some r) :
    l.Has r ∧ ∀ x, l.Has x → (mem r).timeout ≤ (mem x).timeout := by
  have h1 : 1 ≤ l.count := by
    by_contra h0
    rw [hl.above 1 (by omega)] at hr
    cases hr
  refine ⟨.intro le_rfl h1 hr, fun x hx => ?_⟩
  obtain ⟨i, hi, hn, hx⟩ := hx.elim
  have := hl.ordered.root_le i hi hn
  rwa [hr, hx, timerKey_some, timerKey_some] at this

theorem ListShape.root_none (hs : ListShape tc l) : l.timers 1 = none ↔ ∀ x, ¬ l.Has x := by
  constructor
  · intro hnone x hx
    obtain ⟨i, hi, hn, -⟩ := hx.elim
    obtain ⟨p, hp⟩ := hs.filled 1 le_rfl (hi.trans hn)
    rw [hnone] at hp
    cases hp
  · intro hno
    by_contra hsome
    obtain ⟨r, hr⟩ := Option.ne_none_iff_exists'.mp hsome
    refine hno r (.intro le_rfl ?_ hr)
    by_contra h0
    rw [hs.above 1 (by omega)] at hr
    cases hr

/-- **Insertion** into a list with room. -/
theorem insert_spec (hl : ListInv tc mem l) (hroom : l.count < tc.brtosMaxTimer - 1)
    (hp : ¬ l.Has p) :
    ∃ l', l.insert tc mem p = some l' ∧ ListInv tc mem l' ∧ ∀ x, l'.Has x ↔ l.Has x ∨ x = p := by
  have h128 := tc.le_128
  -- the list with the new timer at its end
  let m : TimerList :=
    { l with timers := Function.update l.timers (l.count + 1) (some p), count := l.count + 1 }
  have hself : m.timers (l.count + 1) = some p := Function.update_self _ _ _
  have hold : ∀ i, i ≠ l.count + 1 → m.timers i = l.timers i := fun i hi =>
    Function.update_of_ne hi _ _
  have hfilled : ∀ i, 1 ≤ i → i ≤ m.count → ∃ q, m.timers i = some q := by
    intro i h1 hi
    by_cases heq : i = l.count + 1
    · exact ⟨p, heq ▸ hself⟩
    · obtain ⟨q, hq⟩ := hl.filled i h1 (by have : i ≤ l.count + 1 := hi; omega)
      exact ⟨q, (hold i heq).trans hq⟩
  have hshape : ListShape tc m := by
    refine ⟨by change l.count + 1 < _; omega, hfilled, ?_, ?_, hl.untouched⟩
    · intro i hi
      have hi : l.count + 1 < i := hi
      rw [hold i (by omega)]
      exact hl.above i (by omega)
    · intro i j h1 hi h1' hj heq
      have hi : i ≤ l.count + 1 := hi
      have hj : j ≤ l.count + 1 := hj
      by_cases hi' : i = l.count + 1
      · by_cases hj' : j = l.count + 1
        · omega
        · rw [hi', hself, hold j hj'] at heq
          exact absurd (TimerList.Has.intro h1' (by omega) heq.symm) hp
      · by_cases hj' : j = l.count + 1
        · rw [hj', hself, hold i hi'] at heq
          exact absurd (TimerList.Has.intro h1 (by omega) heq) hp
        · rw [hold i hi', hold j hj'] at heq
          exact hl.inj i j h1 (by omega) h1' (by omega) heq
  have hup : UpHeap (timerKey mem) (l.count + 1) m.timers (l.count + 1) := by
    constructor
    · intro i hi hn hne
      rw [hold i hne, hold (i / 2) (by omega)]
      exact hl.ordered i hi (by omega)
    · intro _ i _ hn heq
      omega
  have hre : Rearranges m.count m.timers
      (siftUp (timerKey mem) 256 m.timers (l.count + 1)) :=
    siftUp_rearranges (by omega) le_rfl
  obtain ⟨hs, hhas⟩ := hshape.rearrange hre
  refine ⟨{ m with timers := siftUp (timerKey mem) 256 m.timers (l.count + 1) }, ?_, ⟨hs, ?_⟩, ?_⟩
  · rw [TimerList.insert, if_pos hroom]
    have hsub := @subir_eq tc mem (l.count + 1) (by omega) 256 (l.count + 1) m.timers hfilled le_rfl
      (by omega)
    have hsub : subir tc mem 256 (Function.update l.timers (l.count + 1) (some p)) (l.count + 1) =
      some (siftUp (timerKey mem) 256 m.timers (l.count + 1)) := hsub
    rw [hsub]
    rfl
  · exact siftUp_heap hup le_rfl (by omega)
  · intro x
    rw [hhas]
    constructor
    · intro hx
      obtain ⟨i, h1, hi, hx⟩ := hx.elim
      by_cases heq : i = l.count + 1
      · rw [heq, hself] at hx
        exact Or.inr (Option.some.inj hx).symm
      · rw [hold i heq] at hx
        exact Or.inl (.intro h1 (by have : i ≤ l.count + 1 := hi; omega) hx)
    · rintro (hx | rfl)
      · obtain ⟨i, h1, hi, hx⟩ := hx.elim
        exact TimerList.Has.intro (l := m) h1 (by change i ≤ l.count + 1; omega)
          ((hold i (by omega)).trans hx)
      · exact TimerList.Has.intro (l := m) (Nat.le_add_left 1 l.count) le_rfl hself

/-- **Ordering** a list whose root may be out of order. -/
theorem reorder_spec (hs : ListShape tc l) (hd : DownHeap (timerKey mem) l.count l.timers 1) :
    ∃ l', l.reorder tc mem = some l' ∧ ListInv tc mem l' ∧ ∀ x, l'.Has x ↔ l.Has x := by
  obtain ⟨timers, hre, hrearr, hheap⟩ := hs.toFilled.reorder mem
  obtain ⟨hs', hhas⟩ := hs.rearrange hrearr
  exact ⟨_, hre, ⟨hs', hheap hd⟩, hhas⟩

theorem OrderedBelow.downHeap (h : OrderedBelow mem l) :
    DownHeap (timerKey mem) l.count l.timers 1 :=
  ⟨h, fun h2 => absurd h2 (by omega)⟩

/-- A change to the root's control block leaves the order below it. -/
theorem ListInv.orderedBelow {mem' : Nat → Timer} (hl : ListInv tc mem l)
    (hr : l.timers 1 = some p) (h : ∀ x, x ≠ p → (mem' x).timeout = (mem x).timeout) :
    OrderedBelow mem' l := by
  intro i hi hn hne
  obtain ⟨q, hq⟩ := hl.filled (i / 2) (by omega) (by omega)
  obtain ⟨r, hr'⟩ := hl.filled i (by omega) hn
  have hord := hl.ordered i hi hn
  have hq1 : q ≠ p := by
    rintro rfl
    have := hl.inj (i / 2) 1 (by omega) (by omega) le_rfl (by omega) (hq.trans hr.symm)
    omega
  have hr1 : r ≠ p := by
    rintro rfl
    have := hl.inj i 1 (by omega) hn le_rfl (by omega) (hr'.trans hr.symm)
    omega
  rw [hq, hr', timerKey_some, timerKey_some] at hord ⊢
  rw [h q hq1, h r hr1]
  exact hord

/-- **Removing the root** and ordering what is left. -/
theorem removeRoot_spec (hs : ListShape tc l) (hb : OrderedBelow mem l)
    (hr : l.timers 1 = some p) :
    ∃ l', l.removeRoot.reorder tc mem = some l' ∧ ListInv tc mem l' ∧
      ∀ x, l'.Has x ↔ l.Has x ∧ x ≠ p := by
  have h1 : 1 ≤ l.count := by
    by_contra h0
    rw [hs.above 1 (by omega)] at hr
    cases hr
  obtain ⟨hf, hhas, hdown⟩ := hs.toFilled.removeRoot h1
  have hcount : l.removeRoot.count = l.count - 1 := rfl
  have hshape : ListShape tc l.removeRoot := by
    refine ⟨hf.count_lt, hf.filled, hf.above, ?_, ?_⟩
    · intro i j hi hin hj hjn heq
      rw [removeRoot_timers (by omega), removeRoot_timers (by omega)] at heq
      have := hs.inj _ _ (by split <;> omega) (by split <;> omega) (by split <;> omega)
        (by split <;> omega) heq
      split at this <;> split at this <;> omega
    · have h0 : (l.count == 0) = false := by simp; omega
      simp [TimerList.removeRoot, hs.untouched, h0]
  obtain ⟨l', hl', hinv, hhas'⟩ := reorder_spec hshape (hdown mem hb)
  refine ⟨l', hl', hinv, fun x => ?_⟩
  rw [hhas', hhas, TimerList.has_iff_rest h1]
  constructor
  · intro hx
    refine ⟨Or.inr hx, ?_⟩
    rintro rfl
    obtain ⟨i, hi, hn, hx⟩ := hx.elim
    have := hs.inj i 1 (by omega) hn le_rfl h1 (hx.trans hr.symm)
    omega
  · rintro ⟨hx | hx, hne⟩
    · exact absurd (Option.some.inj (hx.symm.trans hr)) hne
    · exact hx

/-- **Taking a timer out**: it is made the smallest, moved to the root and removed. -/
theorem takeOut_spec (hl : ListInv tc s.mem l) (hp : l.Has p)
    (hroot : l.timers 1 = some p ∨ ∀ r, l.timers 1 = some r → (s.mem r).timeout ≠ 0)
    (hno : ∀ x, (s.mem x).state ≠ .search) :
    ∃ l', s.takeOut l p =
        some (s.setTimer p fun t => { t with state := .search, timeout := 0 }, l') ∧
      ListInv tc (s.setTimer p fun t => { t with state := .search, timeout := 0 }).mem l' ∧
      ∀ x, l'.Has x ↔ l.Has x ∧ x ≠ p := by
  obtain ⟨k, hk1, hk, hpk, htake⟩ := hl.toFilled.takeOut_eq hno hp
  have honce : ∀ j, 1 ≤ j → j ≤ l.count → l.timers j = some p → j = k := fun j hj hn hq =>
    hl.inj j k hj hn hk1 hk (hq.trans hpk.symm)
  have hroot' : k = 1 ∨ timerKey s.mem (l.timers 1) ≠ 0 := by
    obtain ⟨r, hr⟩ := hl.filled 1 le_rfl (hk1.trans hk)
    rcases hroot with h | h
    · exact Or.inl (honce 1 le_rfl (hk1.trans hk) h).symm
    · rw [hr, timerKey_some]
      exact Or.inr (h r hr)
  obtain ⟨hfirst, hheap⟩ := hl.toFilled.siftUp_searched hl.ordered hk1 hk hpk honce hroot'
  obtain ⟨hs, hhas⟩ := hl.toListShape.rearrange (hl.toFilled.subir (s.searched p).mem hk1 hk).2
  obtain ⟨l', hl', hinv, hhas'⟩ := removeRoot_spec hs (fun i hi hn _ => hheap i hi hn) hfirst
  refine ⟨l', ?_, hinv, fun x => ?_⟩
  · rw [htake, hl']
    rfl
  · rw [hhas', hhas]

/-! ### The service -/

/-- The callback of `x` is being called. -/
def TimerService.InCallback (s : TimerService tc) (x : Nat) : Prop :=
  (s.pc = .callback ∨ s.pc = .drainCallback) ∧ s.p = some x

instance (s : TimerService tc) (x : Nat) : Decidable (s.InCallback x) :=
  inferInstanceAs (Decidable (_ ∧ _))

/-- Both lists are in good order and disjoint, and the timers in them are those that run,
with the one whose callback is being called. -/
structure TimerInv (s : TimerService tc) : Prop where
  current : ListInv tc s.mem s.current
  future : ListInv tc s.mem s.future
  disjoint : ∀ x, s.current.Has x → ¬ s.future.Has x
  listed : ∀ x, s.current.Has x ∨ s.future.Has x ↔ (s.mem x).state = .running ∨ s.InCallback x
  inHand : s.pc = .callback ∨ s.pc = .drainCallback → ∃ p, s.p = some p
  inCallback : ∀ x, s.InCallback x → s.current.Has x ∧ (s.mem x).state = .stopped
  known : ∀ x, (s.mem x).state ≠ .search ∧ (s.mem x).state ≠ .notAllocated

/-- Where a sum of ticks falls: past the counter wrap or before it. -/
def TimerConfig.wraps (tc : TimerConfig) (sum : Nat) : Prop :=
  sum % 2 ^ (2 * tc.tickBits) ≥ tc.tickCountOverflow

instance (tc : TimerConfig) (sum : Nat) : Decidable (tc.wraps sum) :=
  inferInstanceAs (Decidable (_ ≤ _))

/-- The timeout stored for a sum of ticks past the wrap. -/
def TimerConfig.wrapped (tc : TimerConfig) (sum : Nat) : Nat :=
  (sum % 2 ^ (2 * tc.tickBits) - tc.tickCountOverflow) % 2 ^ tc.tickBits

/-- The timeout stored for a sum of ticks before the wrap. -/
def TimerConfig.unwrapped (tc : TimerConfig) (sum : Nat) : Nat :=
  sum % 2 ^ (2 * tc.tickBits) % 2 ^ tc.tickBits

/-- The list a wait of `timeWait` ticks leads to has room for one more timer. -/
def TimerService.RoomFor (s : TimerService tc) (timeWait : Nat) : Prop :=
  if tc.wraps (s.osTickCounter + timeWait) then s.future.count < tc.brtosMaxTimer - 1
  else s.current.count < tc.brtosMaxTimer - 1

instance (s : TimerService tc) (timeWait : Nat) : Decidable (s.RoomFor timeWait) := by
  unfold TimerService.RoomFor
  infer_instance

/-- The list `OSTimerStop` looks in. -/
def TimerService.stopList (s : TimerService tc) (p : Nat) : TimerList :=
  if s.stopsInCurrent p then s.current else s.future

/-- `OSTimerStop` finds the timer and can take it to the root. -/
def TimerService.CanStop (s : TimerService tc) (p : Nat) : Prop :=
  (s.mem p).state = .running ∧ (s.stopList p).Has p ∧
    ((s.stopList p).timers 1 = some p ∨ timerKey s.mem ((s.stopList p).timers 1) ≠ 0)

instance (s : TimerService tc) (p : Nat) : Decidable (s.CanStop p) :=
  inferInstanceAs (Decidable (_ ∧ _ ∧ (_ ∨ _)))

/-- The timer the task expires is in the current list when its callback is called, and
at the root when the callback is over; there is room for a timer that goes to the future
list. -/
def TimerService.KeepsRoot (s : TimerService tc) (repeats : Nat) : Prop :=
  match s.pc, s.p with
  | .drain, some p => s.current.Has p
  | .test, some p => (s.mem p).timeout ≤ s.osTickCounter → s.current.Has p
  | .drainCallback, some p => s.root = some p ∧
      (0 < s.repeatOf repeats → s.future.count < tc.brtosMaxTimer - 1)
  | .callback, some p => s.root = some p ∧
      (0 < s.repeatOf repeats → tc.wraps (s.osTickCounter + s.repeatOf repeats) →
        s.future.count < tc.brtosMaxTimer - 1)
  | _, _ => True

instance (s : TimerService tc) (repeats : Nat) : Decidable (s.KeepsRoot repeats) := by
  unfold TimerService.KeepsRoot
  split <;> infer_instance

/-- The ticks a call arms a timer for. -/
def TimerCall.ticks (tc : TimerConfig) : TimerCall → Nat
  | .set _ _ timeWait => timeWait
  | .start _ timeWait => min timeWait tc.timerMaxCounter
  | .stop _ _ => 0

/-- The call arms a timer: `OSTimerSet` finds a control block, and the time is not 0. -/
def TimerService.Arms (s : TimerService tc) : TimerCall → Prop
  | .set cbp cb timeWait => cbp = true ∧ cb.isSome = true ∧ 0 < timeWait ∧
    (TimerService.searchFree s.mem tc.brtosMaxTimer 0).toBool = true
  | .start p timeWait => p.isSome = true ∧ timeWait ≠ 0
  | .stop _ _ => False

instance (s : TimerService tc) (c : TimerCall) : Decidable (s.Arms c) := by
  unfold TimerService.Arms
  cases c <;> infer_instance

/-- The timer that is started is in no list. -/
def TimerService.CanStart (s : TimerService tc) : TimerCall → Prop
  | .start (some p) _ => (s.mem p).state ≠ .running ∧ ¬ s.InCallback p
  | _ => True

instance (s : TimerService tc) (c : TimerCall) : Decidable (s.CanStart c) := by
  unfold TimerService.CanStart
  split <;> infer_instance

/-- What the lists need of an action. -/
def KeepsLists (s : TimerService tc) : TimerAct → Prop
  | .call (.stop (some p) _) => s.CanStop p
  | .call c => s.Arms c → s.CanStart c ∧ s.RoomFor (c.ticks tc)
  | .task repeats => s.KeepsRoot repeats
  | _ => True

instance (s : TimerService tc) (a : TimerAct) : Decidable (KeepsLists s a) := by
  unfold KeepsLists
  split <;> infer_instance

/-- The control block of a timer that is armed. -/
def runTimer (mem : Nat → Timer) (p timeout : Nat) : Nat → Timer :=
  Function.update mem p { mem p with timeout := timeout, state := .running }

theorem runTimer_self (mem : Nat → Timer) (p v : Nat) :
    runTimer mem p v p = { mem p with timeout := v, state := .running } :=
  Function.update_self _ _ _

theorem runTimer_ne {v : Nat} (h : x ≠ p) : runTimer mem p v x = mem x :=
  Function.update_of_ne h _ _

/-- The lists look at timeouts only. -/
theorem ListInv.of_timeout {mem' : Nat → Timer} (hl : ListInv tc mem l)
    (h : ∀ x, (mem' x).timeout = (mem x).timeout) : ListInv tc mem' l :=
  hl.congr fun x _ => h x

theorem armFuture_spec {v : Nat} (hl : ListInv tc s.mem s.future) (hp : ¬ s.future.Has p)
    (hroom : s.future.count < tc.brtosMaxTimer - 1) :
    ∃ list, s.armFuture p v = some { s with mem := runTimer s.mem p v, future := list } ∧
      ListInv tc (runTimer s.mem p v) list ∧ ∀ x, list.Has x ↔ s.future.Has x ∨ x = p := by
  have hl' : ListInv tc (s.setTimer p fun t => { t with timeout := v }).mem s.future := by
    refine hl.congr fun x hx => ?_
    have hne : x ≠ p := fun h => hp (h ▸ hx)
    simp [TimerService.setTimer, hne]
  obtain ⟨list, hins, hinv, hhas⟩ := insert_spec hl' hroom hp
  refine ⟨list, ?_, hinv.of_timeout fun x => ?_, hhas⟩
  · have hfut : (s.setTimer p fun t => { t with timeout := v }).future = s.future := rfl
    simp only [TimerService.armFuture, hfut, hins, Option.map_some]
    simp [TimerService.setTimer, TimerService.setFuture, runTimer]
  · by_cases hx : x = p <;> simp [hx, runTimer, TimerService.setTimer]

/-- A timer armed with timeout `v` in the current list comes first there, and the timer
task is told. -/
def TimerService.WakesFor (s : TimerService tc) (v : Nat) : Prop :=
  s.started = true ∧ s.pc ≠ .init ∧ ∀ x, s.current.Has x → v ≤ (s.mem x).timeout

theorem armCurrent_spec {v : Nat} (hl : ListInv tc s.mem s.current) (hp : ¬ s.current.Has p)
    (hroom : s.current.count < tc.brtosMaxTimer - 1) :
    ∃ list wake, s.armCurrent p v =
        some { s with mem := runTimer s.mem p v, current := list, timeToWait := wake } ∧
      ListInv tc (runTimer s.mem p v) list ∧ (∀ x, list.Has x ↔ s.current.Has x ∨ x = p) ∧
      (s.WakesFor v → wake = v) ∧ (¬ s.WakesFor v → wake = s.timeToWait) := by
  classical
  have hl' : ListInv tc (s.setTimer p fun t => { t with timeout := v }).mem s.current := by
    refine hl.congr fun x hx => ?_
    have hne : x ≠ p := fun h => hp (h ▸ hx)
    simp [TimerService.setTimer, hne]
  obtain ⟨list, hins, hinv, hhas⟩ := insert_spec hl' hroom hp
  have hmem : (s.setTimer p fun t => { t with timeout := v }).mem p = { s.mem p with timeout := v } := by
    simp [TimerService.setTimer]
  -- the timer at the root comes first
  obtain ⟨r, hr⟩ : ∃ r, list.timers 1 = some r := by
    refine Option.ne_none_iff_exists'.mp fun hnone => ?_
    exact hinv.toListShape.root_none.mp hnone p ((hhas p).mpr (Or.inr rfl))
  obtain ⟨hrin, hrle⟩ := hinv.root_spec hr
  have hfirst : timeoutAt tc (s.setTimer p fun t => { t with timeout := v }).mem list.timers 1 =
      some ((s.setTimer p fun t => { t with timeout := v }).mem r).timeout := by
    have := tc.two_le
    rw [timeoutAt, slot_of_lt (by omega), hr]
    rfl
  have hiff : (((s.setTimer p fun t => { t with timeout := v }).mem p).timeout =
      ((s.setTimer p fun t => { t with timeout := v }).mem r).timeout) ↔
      ∀ x, s.current.Has x → v ≤ (s.mem x).timeout := by
    have hother : ∀ x, s.current.Has x →
        ((s.setTimer p fun t => { t with timeout := v }).mem x).timeout = (s.mem x).timeout := by
      intro x hx
      have hne : x ≠ p := fun h => hp (h ▸ hx)
      simp [TimerService.setTimer, hne]
    rw [hmem]
    constructor
    · intro heq x hx
      have := hrle x ((hhas x).mpr (Or.inl hx))
      rw [hother x hx] at this
      have heq : v = _ := heq
      omega
    · intro hall
      have hle := hrle p ((hhas p).mpr (Or.inr rfl))
      rw [hmem] at hle
      refine Nat.le_antisymm ?_ hle
      rcases (hhas r).mp hrin with hx | rfl
      · rw [hother r hx]
        exact hall r hx
      · rw [hmem]
  refine ⟨list, if s.WakesFor v then v else s.timeToWait, ?_, hinv.of_timeout fun x => ?_, hhas,
    fun h => if_pos h, fun h => if_neg h⟩
  · have hcur : (s.setTimer p fun t => { t with timeout := v }).current = s.current := rfl
    have hst : ((s.setTimer p fun t => { t with timeout := v }).setCurrent list).started =
      s.started := rfl
    have hm : ((s.setTimer p fun t => { t with timeout := v }).setCurrent list).mem =
      (s.setTimer p fun t => { t with timeout := v }).mem := rfl
    simp only [TimerService.armCurrent, hcur, hins, Option.bind_some, hst, hm, hfirst,
      Option.map_some]
    by_cases hstart : s.started = true
    · rw [if_pos hstart, Option.map_some]
      by_cases hpc : s.pc = .init
      · have hnot : ¬ s.WakesFor v := fun h => h.2.1 hpc
        simp [TimerService.setTimer, TimerService.setCurrent, TimerService.setWake, runTimer, hpc,
          hnot]
      · by_cases hall : ∀ x, s.current.Has x → v ≤ (s.mem x).timeout
        · rw [if_pos (hiff.mpr hall), if_pos ⟨hstart, hpc, hall⟩]
          simp [TimerService.setTimer, TimerService.setCurrent, TimerService.setWake, runTimer, hpc]
        · rw [if_neg fun h => hall (hiff.mp h), if_neg fun h => hall h.2.2]
          simp [TimerService.setTimer, TimerService.setCurrent, runTimer]
    · rw [if_neg hstart, Option.map_some, if_neg fun h => hstart h.1]
      simp [TimerService.setTimer, TimerService.setCurrent, runTimer]
  · by_cases hx : x = p <;> simp [hx, runTimer, TimerService.setTimer]

/-! ### What a step can do -/

/-- The tick counter after the next tick. -/
def TimerService.nextCount (s : TimerService tc) : Nat :=
  if (s.osTickCounter + 1) % 2 ^ tc.tickBits = tc.tickCountOverflow then 0
  else (s.osTickCounter + 1) % 2 ^ tc.tickBits

/-- How a step of the service can go when the lists are in good order and stay so. -/
inductive TimerMove (s : TimerService tc) : TimerAct → TimerService tc → TimerObs → Prop
  /-- The call changes nothing. -/
  | refused {c : TimerCall} {code : RetCode} (hcode : code ≠ .ok) :
      TimerMove s (.call c) s (.returned code none)
  /-- `OSTimerSet` with a time of 0. -/
  | allocated {c : TimerCall} {p cb : Nat} (hc : c.ticks tc = 0)
      (hfree : (s.mem p).state = .notUsed) :
      TimerMove s (.call c)
        { s with mem := Function.update s.mem p ⟨some cb, (s.mem p).timeout, .stopped⟩ }
        (.returned .ok (some p))
  | armedFuture {c : TimerCall} {p : Nat} {cb out : Option Nat} {list : TimerList}
      (harm : s.Arms c) (hno : ¬ s.current.Has p ∧ ¬ s.future.Has p)
      (hwrap : tc.wraps (s.osTickCounter + c.ticks tc))
      (hlist : ListInv tc (Function.update s.mem p
        ⟨cb, tc.wrapped (s.osTickCounter + c.ticks tc), .running⟩) list)
      (hhas : ∀ x, list.Has x ↔ s.future.Has x ∨ x = p) :
      TimerMove s (.call c)
        { s with
          mem := Function.update s.mem p
            ⟨cb, tc.wrapped (s.osTickCounter + c.ticks tc), .running⟩
          future := list
          due := Function.update s.due p (s.now + c.ticks tc) }
        (.returned .ok out)
  | armedCurrent {c : TimerCall} {p wake : Nat} {cb out : Option Nat} {list : TimerList}
      (harm : s.Arms c) (hno : ¬ s.current.Has p ∧ ¬ s.future.Has p)
      (hwrap : ¬ tc.wraps (s.osTickCounter + c.ticks tc))
      (hlist : ListInv tc (Function.update s.mem p
        ⟨cb, tc.unwrapped (s.osTickCounter + c.ticks tc), .running⟩) list)
      (hhas : ∀ x, list.Has x ↔ s.current.Has x ∨ x = p)
      (hwake : s.WakesFor (tc.unwrapped (s.osTickCounter + c.ticks tc)) →
        wake = tc.unwrapped (s.osTickCounter + c.ticks tc))
      (hkeep : ¬ s.WakesFor (tc.unwrapped (s.osTickCounter + c.ticks tc)) → wake = s.timeToWait) :
      TimerMove s (.call c)
        { s with
          mem := Function.update s.mem p
            ⟨cb, tc.unwrapped (s.osTickCounter + c.ticks tc), .running⟩
          current := list
          timeToWait := wake
          due := Function.update s.due p (s.now + c.ticks tc) }
        (.returned .ok out)
  | stoppedCurrent {p : Nat} {del : Bool} {cb : Option Nat} {state : TimerState}
      {list : TimerList} (hrun : (s.mem p).state = .running) (hhas : s.current.Has p)
      (hin : s.stopsInCurrent p = true)
      (hstate : state = .stopped ∨ state = .notUsed)
      (hlist : ListInv tc (Function.update s.mem p ⟨cb, 0, state⟩) list)
      (hhas' : ∀ x, list.Has x ↔ s.current.Has x ∧ x ≠ p) :
      TimerMove s (.call (.stop (some p) del))
        { s with mem := Function.update s.mem p ⟨cb, 0, state⟩, current := list }
        (.returned .ok none)
  | stoppedFuture {p : Nat} {del : Bool} {cb : Option Nat} {state : TimerState}
      {list : TimerList} (hrun : (s.mem p).state = .running) (hhas : s.future.Has p)
      (hin : s.stopsInCurrent p = false)
      (hstate : state = .stopped ∨ state = .notUsed)
      (hlist : ListInv tc (Function.update s.mem p ⟨cb, 0, state⟩) list)
      (hhas' : ∀ x, list.Has x ↔ s.future.Has x ∧ x ≠ p) :
      TimerMove s (.call (.stop (some p) del))
        { s with mem := Function.update s.mem p ⟨cb, 0, state⟩, future := list }
        (.returned .ok none)
  | brtosStart : TimerMove s .brtosStart { s with started := true } .silent
  | ticked (hstay : ¬ (s.pc = .asleep ∧ s.timeToWait = s.nextCount)) :
      TimerMove s .tick { s with osTickCounter := s.nextCount, now := s.now + 1 } .silent
  | woke (hpc : s.pc = .asleep) (hwake : s.timeToWait = s.nextCount) :
      TimerMove s .tick
        { s with
          osTickCounter := s.nextCount
          now := s.now + 1
          pc := .woken
          timeToWait := tc.exitByTimeout }
        .silent
  | begun {repeats : Nat} (hpc : s.pc = .init) :
      TimerMove s (.task repeats) (s.readRoot.setNext.setPc .store) .silent
  | stored {repeats : Nat} (hpc : s.pc = .store) :
      TimerMove s (.task repeats) { s with timeToWait := s.nextTimeToWake, pc := .sleep } .silent
  | slept {repeats : Nat} (hpc : s.pc = .sleep) :
      TimerMove s (.task repeats) (s.setPc .asleep) .silent
  | looked {repeats : Nat} (hpc : s.pc = .woken) :
      TimerMove s (.task repeats) (s.readRoot.setPc .wrapTest) .silent
  | drains {repeats p : Nat} (hpc : s.pc = .wrapTest) (hp : s.p = some p)
      (hlate : (s.mem p).timeout > s.osTickCounter) :
      TimerMove s (.task repeats) (s.setPc .drain) .silent
  | tests {repeats : Nat} (hpc : s.pc = .wrapTest)
      (hp : ∀ p, s.p = some p → (s.mem p).timeout ≤ s.osTickCounter) :
      TimerMove s (.task repeats) (s.setPc .test) .silent
  | drainFired {repeats p : Nat} (hpc : s.pc = .drain) (hp : s.p = some p)
      (hhas : s.current.Has p) :
      TimerMove s (.task repeats) (s.fire p .drainCallback) (.fired p)
  | drained {repeats : Nat} (hpc : s.pc = .drain) (hp : s.p = none) :
      TimerMove s (.task repeats) (s.switchLists.readRoot.setPc .test) .silent
  | fired {repeats p : Nat} (hpc : s.pc = .test) (hp : s.p = some p)
      (hdue : (s.mem p).timeout ≤ s.osTickCounter) (hhas : s.current.Has p) :
      TimerMove s (.task repeats) (s.fire p .callback) (.fired p)
  | notDue {repeats : Nat} (hpc : s.pc = .test)
      (hp : ∀ p, s.p = some p → s.osTickCounter < (s.mem p).timeout) :
      TimerMove s (.task repeats) (s.setPc .switchTest) .silent
  /-- The callback returned 0: the timer is free. -/
  | released {repeats p : Nat} {pc : TaskPc} {list : TimerList}
      (hpc : s.pc = .drainCallback ∧ pc = .drain ∨ s.pc = .callback ∧ pc = .test)
      (hp : s.p = some p) (hroot : s.root = some p)
      (hlist : ListInv tc (Function.update s.mem p ⟨none, 0, .notUsed⟩) list)
      (hhas : ∀ x, list.Has x ↔ s.current.Has x ∧ x ≠ p) :
      TimerMove s (.task repeats)
        { s with
          mem := Function.update s.mem p ⟨none, 0, .notUsed⟩
          current := list
          p := list.timers 1
          pc := pc }
        .silent
  /-- The callback asked for a repetition past the wrap, or the list is being emptied. -/
  | moved {repeats p v : Nat} {pc : TaskPc} {list list' : TimerList}
      (hpc : s.pc = .drainCallback ∧ pc = .drain ∧
          v = tc.unwrapped (s.osTickCounter + s.repeatOf repeats) ∨
        s.pc = .callback ∧ pc = .test ∧ tc.wraps (s.osTickCounter + s.repeatOf repeats) ∧
          v = tc.wrapped (s.osTickCounter + s.repeatOf repeats))
      (hp : s.p = some p) (hroot : s.root = some p) (hpos : 0 < s.repeatOf repeats)
      (hlist : ListInv tc (runTimer s.mem p v) list)
      (hhas : ∀ x, list.Has x ↔ s.current.Has x ∧ x ≠ p)
      (hlist' : ListInv tc (runTimer s.mem p v) list')
      (hhas' : ∀ x, list'.Has x ↔ s.future.Has x ∨ x = p) :
      TimerMove s (.task repeats)
        { s with
          mem := runTimer s.mem p v
          current := list
          future := list'
          p := list.timers 1
          pc := pc
          timeout := (s.osTickCounter + s.repeatOf repeats) % 2 ^ (2 * tc.tickBits)
          due := Function.update s.due p (s.now + s.repeatOf repeats) }
        .silent
  /-- The callback asked for a repetition before the wrap. -/
  | kept {repeats p v : Nat} {list : TimerList} (hpc : s.pc = .callback) (hp : s.p = some p)
      (hroot : s.root = some p) (hpos : 0 < s.repeatOf repeats)
      (hwrap : ¬ tc.wraps (s.osTickCounter + s.repeatOf repeats))
      (hv : v = tc.unwrapped (s.osTickCounter + s.repeatOf repeats))
      (hlist : ListInv tc (runTimer s.mem p v) list)
      (hhas : ∀ x, list.Has x ↔ s.current.Has x) :
      TimerMove s (.task repeats)
        { s with
          mem := runTimer s.mem p v
          current := list
          p := list.timers 1
          pc := .test
          timeout := (s.osTickCounter + s.repeatOf repeats) % 2 ^ (2 * tc.tickBits)
          due := Function.update s.due p (s.now + s.repeatOf repeats) }
        .silent
  | switched {repeats : Nat} (hpc : s.pc = .switchTest) (hout : s.timeout > tc.timerMaxCounter)
      (hp : s.p = none) :
      TimerMove s (.task repeats) (s.switchLists.readRoot.setPc .plan) .silent
  | stays {repeats : Nat} (hpc : s.pc = .switchTest)
      (hor : s.timeout ≤ tc.timerMaxCounter ∨ s.p ≠ none) :
      TimerMove s (.task repeats) (s.setPc .plan) .silent
  | planned {repeats : Nat} (hpc : s.pc = .plan) :
      TimerMove s (.task repeats) (s.setNext.setPc .store) .silent

section Calls

theorem TimerInv.not_listed (hi : TimerInv s) (hrun : (s.mem p).state ≠ .running)
    (hcb : ¬ s.InCallback p) : ¬ s.current.Has p ∧ ¬ s.future.Has p := by
  rw [← not_or, hi.listed]
  rintro (h | h)
  · exact hrun h
  · exact hcb h

/-- A change to the control block of a timer in no list. -/
theorem ListInv.update {b : Timer} (hl : ListInv tc mem l) (hp : ¬ l.Has p) :
    ListInv tc (Function.update mem p b) l := by
  refine hl.congr fun x hx => ?_
  rw [Function.update_of_ne]
  rintro rfl
  exact hp hx

theorem runTimer_update (mem : Nat → Timer) (p v : Nat) (b : Timer) :
    runTimer (Function.update mem p b) p v = Function.update mem p ⟨b.funcCb, v, .running⟩ := by
  simp [runTimer]

/-- **Arming a timer** that is in no list, with its control block set to `b` before. -/
theorem arm_move (hi : TimerInv s) (hno : ¬ s.current.Has p ∧ ¬ s.future.Has p) (b : Timer)
    (c : TimerCall) (out : Option Nat) (harm : s.Arms c) (hroom : s.RoomFor (c.ticks tc)) :
    ∃ t, ({ s with mem := Function.update s.mem p b } : TimerService tc).arm p (c.ticks tc) =
      some t ∧ TimerMove s (.call c) t (.returned .ok out) := by
  unfold TimerService.RoomFor at hroom
  by_cases hwrap : tc.wraps (s.osTickCounter + c.ticks tc)
  · rw [if_pos hwrap] at hroom
    obtain ⟨list, heq, hlist, hhas⟩ := armFuture_spec
      (s := ({ s with mem := Function.update s.mem p b } : TimerService tc).setDue p
        (s.now + c.ticks tc))
      (v := tc.wrapped (s.osTickCounter + c.ticks tc)) (hi.future.update hno.2) hno.2 hroom
    have hmem : runTimer ((({ s with mem := Function.update s.mem p b } :
        TimerService tc).setDue p (s.now + c.ticks tc)).mem) p
        (tc.wrapped (s.osTickCounter + c.ticks tc)) = Function.update s.mem p
        ⟨b.funcCb, tc.wrapped (s.osTickCounter + c.ticks tc), .running⟩ := runTimer_update _ _ _ _
    rw [hmem] at heq hlist
    refine ⟨_, ?_, .armedFuture harm hno hwrap hlist hhas⟩
    exact (if_pos hwrap).trans heq
  · rw [if_neg hwrap] at hroom
    obtain ⟨list, wake, heq, hlist, hhas, hwake, hkeep⟩ := armCurrent_spec
      (s := ({ s with mem := Function.update s.mem p b } : TimerService tc).setDue p
        (s.now + c.ticks tc))
      (v := tc.unwrapped (s.osTickCounter + c.ticks tc)) (hi.current.update hno.1) hno.1 hroom
    have hmem : runTimer ((({ s with mem := Function.update s.mem p b } :
        TimerService tc).setDue p (s.now + c.ticks tc)).mem) p
        (tc.unwrapped (s.osTickCounter + c.ticks tc)) = Function.update s.mem p
        ⟨b.funcCb, tc.unwrapped (s.osTickCounter + c.ticks tc), .running⟩ := runTimer_update _ _ _ _
    have hiff : (({ s with mem := Function.update s.mem p b } : TimerService tc).setDue p
        (s.now + c.ticks tc)).WakesFor (tc.unwrapped (s.osTickCounter + c.ticks tc)) ↔
        s.WakesFor (tc.unwrapped (s.osTickCounter + c.ticks tc)) := by
      refine and_congr_right fun _ => and_congr_right fun _ => forall_congr' fun x => ?_
      refine imp_congr_right fun hx => ?_
      have hne : x ≠ p := fun h => hno.1 (h ▸ hx)
      have heq : (({ s with mem := Function.update s.mem p b } : TimerService tc).setDue p
        (s.now + c.ticks tc)).mem x = s.mem x := Function.update_of_ne hne _ _
      rw [heq]
    rw [hmem] at heq hlist
    rw [hiff] at hwake hkeep
    refine ⟨_, ?_, .armedCurrent harm hno hwrap hlist hhas hwake hkeep⟩
    exact (if_neg hwrap).trans heq

/-- What the search for a free control block finds. -/
theorem searchFree_spec : ∀ {fuel i : Nat},
    (∃ code, TimerService.searchFree mem fuel i = .error code ∧ code ≠ .ok) ∨
    ∃ p, TimerService.searchFree mem fuel i = .ok p ∧ (mem p).state = .notUsed
  | 0, i => Or.inl ⟨_, rfl, by simp⟩
  | fuel + 1, i => by
      unfold TimerService.searchFree
      split
      · exact Or.inl ⟨_, rfl, by simp⟩
      · split
        · exact Or.inr ⟨i, rfl, ‹_›⟩
        · exact searchFree_spec

theorem set_move (hi : TimerInv s) {cbp : Bool} {cb : Option Nat} {timeWait : Nat}
    (hk : KeepsLists s (.call (.set cbp cb timeWait))) :
    ∃ t code out, s.osTimerSet cbp cb timeWait = some (t, code, out) ∧
      TimerMove s (.call (.set cbp cb timeWait)) t (.returned code out) := by
  unfold TimerService.osTimerSet
  split
  · rename_i cb
    rcases @searchFree_spec s.mem tc.brtosMaxTimer 0 with ⟨code, hs, hcode⟩ | ⟨p, hs, hfree⟩
    · rw [hs]
      exact ⟨s, code, none, rfl, .refused hcode⟩
    · rw [hs]
      have hno := hi.not_listed (p := p) (by rw [hfree]; simp) fun h => by
        have := (hi.inCallback p h).2
        rw [hfree] at this
        cases this
      dsimp only
      by_cases h0 : timeWait > 0
      · have harm : s.Arms (.set true (some cb) timeWait) := ⟨rfl, rfl, h0, by rw [hs]; rfl⟩
        rw [if_pos h0]
        obtain ⟨t, ht, hm⟩ := arm_move hi hno ⟨some cb, (s.mem p).timeout, .stopped⟩
          (.set true (some cb) timeWait) (some p) harm (hk harm).2
        refine ⟨t, .ok, some p, ?_, hm⟩
        have ht : (s.setTimer p fun t => { t with state := .stopped, funcCb := some cb }).arm p
          timeWait = some t := ht
        rw [ht]
        rfl
      · rw [if_neg h0]
        exact ⟨_, .ok, some p, rfl, .allocated (Nat.eq_zero_of_not_pos h0) hfree⟩
  · exact ⟨s, _, none, rfl, .refused (by simp)⟩

theorem start_move (hi : TimerInv s) {o : Option Nat} {timeWait : Nat}
    (hk : KeepsLists s (.call (.start o timeWait))) :
    ∃ t code, s.osTimerStart o timeWait = some (t, code) ∧
      TimerMove s (.call (.start o timeWait)) t (.returned code none) := by
  cases o with
  | none => exact ⟨s, _, rfl, .refused (by simp)⟩
  | some p =>
      unfold TimerService.osTimerStart
      dsimp only
      by_cases h0 : timeWait ≠ 0
      · have harm : s.Arms (.start (some p) timeWait) := ⟨rfl, h0⟩
        obtain ⟨⟨hrun, hcb⟩, hroom⟩ := hk harm
        have hmax : 0 < tc.timerMaxCounter := by
          unfold TimerConfig.timerMaxCounter
          have := tc.tickCountOverflow_spec
          rcases tc.tickBits_cases with h | h <;> rw [h] at this <;> omega
        have hticks : (if timeWait > tc.timerMaxCounter then tc.timerMaxCounter else timeWait) =
            (TimerCall.start (some p) timeWait).ticks tc := by
          show _ = min timeWait tc.timerMaxCounter
          split <;> omega
        have hpos : 0 < (TimerCall.start (some p) timeWait).ticks tc := by
          rw [← hticks]
          split <;> omega
        obtain ⟨t, ht, hm⟩ := arm_move hi (hi.not_listed hrun hcb) (s.mem p)
          (.start (some p) timeWait) none harm hroom
        rw [Function.update_eq_self] at ht
        refine ⟨t, .ok, ?_, hm⟩
        rw [if_pos h0, hticks, if_pos hpos]
        have ht : s.arm p ((TimerCall.start (some p) timeWait).ticks tc) = some t := ht
        rw [ht]
        rfl
      · rw [if_neg h0]
        exact ⟨s, _, rfl, .refused (by simp)⟩

theorem stop_move (hi : TimerInv s) {o : Option Nat} {del : Bool}
    (hk : KeepsLists s (.call (.stop o del))) :
    ∃ t code, s.osTimerStop o del = some (t, code) ∧
      TimerMove s (.call (.stop o del)) t (.returned code none) := by
  cases o with
  | none => exact ⟨s, _, rfl, .refused (by simp)⟩
  | some p =>
      obtain ⟨hrun, hhas, hroot⟩ := hk
      have hno : ∀ x, (s.mem x).state ≠ .search := fun x => (hi.known x).1
      have hroot' : (s.stopList p).timers 1 = some p ∨
          ∀ r, (s.stopList p).timers 1 = some r → (s.mem r).timeout ≠ 0 := by
        refine hroot.imp_right fun hne r hr => ?_
        rwa [hr, timerKey_some] at hne
      -- the control block after the call
      have hfinal : ∀ {u : TimerService tc},
          u.mem = (s.setTimer p fun t => { t with state := .search, timeout := 0 }).mem →
          ∃ cb state, (state = .stopped ∨ state = .notUsed) ∧
            Function.update u.mem p (if del then { u.mem p with state := .notUsed, funcCb := none }
              else { u.mem p with state := .stopped }) =
            Function.update s.mem p ⟨cb, 0, state⟩ := by
        intro u hu
        rw [hu]
        cases del
        · exact ⟨(s.mem p).funcCb, .stopped, Or.inl rfl, by simp [TimerService.setTimer]⟩
        · exact ⟨none, .notUsed, Or.inr rfl, by simp [TimerService.setTimer]⟩
      have hkeys : ∀ {cb state x}, (Function.update s.mem p ⟨cb, 0, state⟩ x).timeout =
          ((s.setTimer p fun t => { t with state := .search, timeout := 0 }).mem x).timeout := by
        intro cb state x
        by_cases hx : x = p <;> simp [hx, TimerService.setTimer]
      unfold TimerService.osTimerStop
      unfold TimerService.stopList at hhas hroot'
      by_cases hin : s.stopsInCurrent p = true
      · rw [if_pos hin] at hhas hroot'
        obtain ⟨l', htake, hinv, hhas'⟩ := takeOut_spec hi.current hhas hroot' hno
        obtain ⟨cb, state, hstate, hmem⟩ := hfinal (u := (s.setTimer p fun t =>
          { t with state := .search, timeout := 0 }).setCurrent l') rfl
        refine ⟨_, .ok, by simp only [hin, if_true, htake, Option.map_some]; rfl, ?_⟩
        have hmove := @TimerMove.stoppedCurrent tc s p del cb state l' hrun hhas hin hstate
          (hinv.of_timeout fun x => hkeys) hhas'
        rw [← hmem] at hmove
        exact hmove
      · rw [if_neg hin] at hhas hroot'
        obtain ⟨l', htake, hinv, hhas'⟩ := takeOut_spec hi.future hhas hroot' hno
        obtain ⟨cb, state, hstate, hmem⟩ := hfinal (u := (s.setTimer p fun t =>
          { t with state := .search, timeout := 0 }).setFuture l') rfl
        refine ⟨_, .ok, by simp only [hin, htake, Option.map_some]; rfl, ?_⟩
        have hmove := @TimerMove.stoppedFuture tc s p del cb state l' hrun hhas
          (by simpa using hin) hstate (hinv.of_timeout fun x => hkeys) hhas'
        rw [← hmem] at hmove
        exact hmove

end Calls

section Task

variable {repeats : Nat} {pc : TaskPc}

/-- The timer leaves the service. -/
theorem release_spec (hi : TimerInv s) (hroot : s.root = some p) :
    ∃ list, (s.release p).nextRoot pc = some { s with
        mem := Function.update s.mem p ⟨none, 0, .notUsed⟩
        current := list
        p := list.timers 1
        pc := pc } ∧
      ListInv tc (Function.update s.mem p ⟨none, 0, .notUsed⟩) list ∧
      ∀ x, list.Has x ↔ s.current.Has x ∧ x ≠ p := by
  have hbelow : OrderedBelow (Function.update s.mem p ⟨none, 0, .notUsed⟩) s.current :=
    hi.current.orderedBelow hroot fun x hx => by rw [Function.update_of_ne hx]
  obtain ⟨list, heq, hlist, hhas⟩ := removeRoot_spec hi.current.toListShape hbelow hroot
  refine ⟨list, ?_, hlist, hhas⟩
  have heq : (s.release p).current.reorder tc (s.release p).mem = some list := heq
  rw [TimerService.nextRoot, heq]
  rfl

/-- The timer moves from the root of the current list to the future list. -/
theorem move_spec {v : Nat} (hi : TimerInv s) (hroot : s.root = some p) (hcur : s.current.Has p)
    (hroom : s.future.count < tc.brtosMaxTimer - 1) :
    ∃ list list', ((s.rearm p repeats).moveToFuture p v).bind (·.nextRoot pc) = some { s with
        mem := runTimer s.mem p v
        current := list
        future := list'
        p := list.timers 1
        pc := pc
        timeout := (s.osTickCounter + repeats) % 2 ^ (2 * tc.tickBits)
        due := Function.update s.due p (s.now + repeats) } ∧
      ListInv tc (runTimer s.mem p v) list ∧ (∀ x, list.Has x ↔ s.current.Has x ∧ x ≠ p) ∧
      ListInv tc (runTimer s.mem p v) list' ∧ ∀ x, list'.Has x ↔ s.future.Has x ∨ x = p := by
  have hfut : ¬ s.future.Has p := hi.disjoint p hcur
  have hmem : ((s.rearm p repeats).setTimer p fun t => { t with timeout := v }).mem =
      runTimer s.mem p v := by
    simp [TimerService.rearm, TimerService.setTimer, runTimer]
  have hbelow : OrderedBelow (runTimer s.mem p v) s.current :=
    hi.current.orderedBelow hroot fun x hx => by rw [runTimer_ne hx]
  obtain ⟨list, heq, hlist, hhas⟩ := removeRoot_spec hi.current.toListShape hbelow hroot
  have hold : ListInv tc (runTimer s.mem p v) s.future := by
    refine hi.future.congr fun x hx => ?_
    have hne : x ≠ p := fun h => hfut (h ▸ hx)
    rw [runTimer_ne hne]
  obtain ⟨list', heq', hlist', hhas'⟩ := insert_spec hold hroom hfut
  refine ⟨list, list', ?_, hlist, hhas, hlist', hhas'⟩
  have hins : ((s.rearm p repeats).setTimer p fun t => { t with timeout := v }).future.insert tc
      ((s.rearm p repeats).setTimer p fun t => { t with timeout := v }).mem p = some list' := by
    rw [hmem]
    exact heq'
  rw [TimerService.moveToFuture, hins, Option.map_some, Option.bind_some, TimerService.nextRoot]
  have hord : (((((s.rearm p repeats).setTimer p fun t => { t with timeout := v }).setFuture
      list').setCurrent ((s.rearm p repeats).setTimer p fun t =>
        { t with timeout := v }).current.removeRoot).current.reorder tc
      ((((s.rearm p repeats).setTimer p fun t => { t with timeout := v }).setFuture
        list').setCurrent ((s.rearm p repeats).setTimer p fun t =>
          { t with timeout := v }).current.removeRoot).mem) = some list := by
    show s.current.removeRoot.reorder tc
      ((s.rearm p repeats).setTimer p fun t => { t with timeout := v }).mem = some list
    rw [hmem]
    exact heq
  rw [hord, Option.map_some]
  simp only [TimerService.readRoot, TimerService.root, TimerService.setPc, TimerService.setCurrent,
    TimerService.setFuture]
  refine congrArg some ?_
  rw [← hmem]
  rfl

/-- The timer stays in the current list, with a later timeout. -/
theorem keep_spec {v : Nat} (hi : TimerInv s) (hroot : s.root = some p) :
    ∃ list, ((s.rearm p repeats).setTimer p fun t => { t with timeout := v }).nextRoot pc =
      some { s with
        mem := runTimer s.mem p v
        current := list
        p := list.timers 1
        pc := pc
        timeout := (s.osTickCounter + repeats) % 2 ^ (2 * tc.tickBits)
        due := Function.update s.due p (s.now + repeats) } ∧
      ListInv tc (runTimer s.mem p v) list ∧ ∀ x, list.Has x ↔ s.current.Has x := by
  have hmem : ((s.rearm p repeats).setTimer p fun t => { t with timeout := v }).mem =
      runTimer s.mem p v := by
    simp [TimerService.rearm, TimerService.setTimer, runTimer]
  have hbelow : OrderedBelow (runTimer s.mem p v) s.current :=
    hi.current.orderedBelow hroot fun x hx => by rw [runTimer_ne hx]
  obtain ⟨list, heq, hlist, hhas⟩ := reorder_spec hi.current.toListShape hbelow.downHeap
  refine ⟨list, ?_, hlist, hhas⟩
  rw [TimerService.nextRoot]
  have hord : ((s.rearm p repeats).setTimer p fun t => { t with timeout := v }).current.reorder tc
      ((s.rearm p repeats).setTimer p fun t => { t with timeout := v }).mem = some list := by
    rw [hmem]
    exact heq
  rw [hord, Option.map_some]
  simp only [TimerService.readRoot, TimerService.root, TimerService.setPc, TimerService.setCurrent]
  refine congrArg some ?_
  rw [← hmem]
  rfl

/-! #### The end of an expiry, case by case -/

theorem finishDrain_move (h : 0 < n) : s.finishDrain p n =
    ((s.rearm p n).moveToFuture p (tc.unwrapped (s.osTickCounter + n))).bind
      (·.nextRoot .drain) := by
  rw [TimerService.finishDrain, if_pos h]
  rfl

theorem finishDrain_release (h : ¬ 0 < n) : s.finishDrain p n = (s.release p).nextRoot .drain := by
  rw [TimerService.finishDrain, if_neg h, Option.bind_some]

theorem finishExpired_move (h : 0 < n) (hwrap : tc.wraps (s.osTickCounter + n)) :
    s.finishExpired p n =
    ((s.rearm p n).moveToFuture p (tc.wrapped (s.osTickCounter + n))).bind (·.nextRoot .test) := by
  rw [TimerService.finishExpired, if_pos h]
  exact congrArg (fun o => Option.bind o _) (if_pos hwrap)

theorem finishExpired_keep (h : 0 < n) (hwrap : ¬ tc.wraps (s.osTickCounter + n)) :
    s.finishExpired p n = ((s.rearm p n).setTimer p fun t =>
      { t with timeout := tc.unwrapped (s.osTickCounter + n) }).nextRoot .test := by
  rw [TimerService.finishExpired, if_pos h]
  exact congrArg (fun o => Option.bind o _) (if_neg hwrap)

theorem finishExpired_release (h : ¬ 0 < n) :
    s.finishExpired p n = (s.release p).nextRoot .test := by
  rw [TimerService.finishExpired, if_neg h, Option.bind_some]

/-- **A piece of the timer task.** -/
theorem task_move (hi : TimerInv s) (hk : s.KeepsRoot repeats) (hawake : s.pc ≠ .asleep) :
    ∃ t o, s.taskStep repeats = some (t, o) ∧ TimerMove s (.task repeats) t o := by
  unfold TimerService.taskStep
  unfold TimerService.KeepsRoot at hk
  cases hpc : s.pc with
  | init => exact ⟨_, _, rfl, .begun hpc⟩
  | store => exact ⟨_, _, rfl, .stored hpc⟩
  | sleep => exact ⟨_, _, rfl, .slept hpc⟩
  | asleep => exact absurd hpc hawake
  | woken => exact ⟨_, _, rfl, .looked hpc⟩
  | wrapTest =>
      cases hp : s.p with
      | none => exact ⟨_, _, rfl, .tests hpc fun p h => by rw [hp] at h; cases h⟩
      | some p =>
          -- a root that is still ahead at wake-up means that the counter has wrapped
          by_cases hlate : (s.mem p).timeout > s.osTickCounter
          · exact ⟨_, _, if_pos hlate, .drains hpc hp hlate⟩
          · refine ⟨_, _, if_neg hlate, .tests hpc fun q h => ?_⟩
            rw [hp] at h
            cases h
            omega
  | drain =>
      cases hp : s.p with
      | none => exact ⟨_, _, rfl, .drained hpc hp⟩
      | some p =>
          rw [hpc, hp] at hk
          exact ⟨_, _, rfl, .drainFired hpc hp hk⟩
  | test =>
      cases hp : s.p with
      | none => exact ⟨_, _, rfl, .notDue hpc fun p h => by rw [hp] at h; cases h⟩
      | some p =>
          rw [hpc, hp] at hk
          by_cases hdue : (s.mem p).timeout ≤ s.osTickCounter
          · exact ⟨_, _, if_pos hdue, .fired hpc hp hdue (hk hdue)⟩
          · refine ⟨_, _, if_neg hdue, .notDue hpc fun q h => ?_⟩
            rw [hp] at h
            cases h
            omega
  | switchTest =>
      by_cases h : s.timeout > tc.timerMaxCounter ∧ s.p = none
      · exact ⟨_, _, if_pos h, .switched hpc h.1 h.2⟩
      · refine ⟨_, _, if_neg h, .stays hpc ?_⟩
        by_contra hnot
        rw [not_or, not_le, not_not] at hnot
        exact h hnot
  | plan => exact ⟨_, _, rfl, .planned hpc⟩
  | drainCallback =>
      -- the callback has returned: a timer it repeats goes to the other list
      obtain ⟨p, hp⟩ := hi.inHand (Or.inr hpc)
      rw [hpc, hp] at hk
      obtain ⟨hroot, hroom⟩ := hk
      have hcur := (hi.inCallback p ⟨Or.inr hpc, hp⟩).1
      simp only [hp, Option.bind_some]
      by_cases hpos : 0 < s.repeatOf repeats
      · obtain ⟨list, list', heq, hlist, hhas, hlist', hhas'⟩ :=
          @move_spec _ _ _ (s.repeatOf repeats) .drain
            (tc.unwrapped (s.osTickCounter + s.repeatOf repeats)) hi hroot hcur (hroom hpos)
        rw [finishDrain_move hpos, heq]
        exact ⟨_, _, rfl, .moved (Or.inl ⟨hpc, rfl, rfl⟩) hp hroot hpos hlist hhas hlist' hhas'⟩
      · obtain ⟨list, heq, hlist, hhas⟩ := @release_spec _ _ _ .drain hi hroot
        rw [finishDrain_release hpos, heq]
        exact ⟨_, _, rfl, .released (Or.inl ⟨hpc, rfl⟩) hp hroot hlist hhas⟩
  | callback =>
      -- here it changes the list only if its next timeout is past the wrap
      obtain ⟨p, hp⟩ := hi.inHand (Or.inl hpc)
      rw [hpc, hp] at hk
      obtain ⟨hroot, hroom⟩ := hk
      have hcur := (hi.inCallback p ⟨Or.inl hpc, hp⟩).1
      simp only [hp, Option.bind_some]
      by_cases hpos : 0 < s.repeatOf repeats
      · by_cases hwrap : tc.wraps (s.osTickCounter + s.repeatOf repeats)
        · obtain ⟨list, list', heq, hlist, hhas, hlist', hhas'⟩ :=
            @move_spec _ _ _ (s.repeatOf repeats) .test
              (tc.wrapped (s.osTickCounter + s.repeatOf repeats)) hi hroot hcur (hroom hpos hwrap)
          rw [finishExpired_move hpos hwrap, heq]
          exact ⟨_, _, rfl, .moved (Or.inr ⟨hpc, rfl, hwrap, rfl⟩) hp hroot hpos hlist hhas hlist'
            hhas'⟩
        · obtain ⟨list, heq, hlist, hhas⟩ :=
            @keep_spec _ _ _ (s.repeatOf repeats) .test
              (tc.unwrapped (s.osTickCounter + s.repeatOf repeats)) hi hroot
          rw [finishExpired_keep hpos hwrap, heq]
          exact ⟨_, _, rfl, .kept hpc hp hroot hpos hwrap rfl hlist hhas⟩
      · obtain ⟨list, heq, hlist, hhas⟩ := @release_spec _ _ _ .test hi hroot
        rw [finishExpired_release hpos, heq]
        exact ⟨_, _, rfl, .released (Or.inr ⟨hpc, rfl⟩) hp hroot hlist hhas⟩

end Task

/-- Every step the guard lets through has a meaning, and is one of the moves. -/
theorem timer_step {a : TimerAct} (hi : TimerInv s) (hk : KeepsLists s a)
    (he : s.enabled a = true) : ∃ t o, s.step a = some (t, o) ∧ TimerMove s a t o := by
  unfold TimerService.step
  rw [if_pos he]
  cases a with
  | call c =>
      cases c with
      | set cbp cb timeWait =>
          obtain ⟨t, code, out, heq, hm⟩ := @set_move _ _ hi cbp cb timeWait hk
          exact ⟨t, _, by dsimp only; rw [heq]; rfl, hm⟩
      | start o timeWait =>
          obtain ⟨t, code, heq, hm⟩ := start_move hi hk
          exact ⟨t, _, by dsimp only; rw [heq]; rfl, hm⟩
      | stop o del =>
          obtain ⟨t, code, heq, hm⟩ := stop_move hi hk
          exact ⟨t, _, by dsimp only; rw [heq]; rfl, hm⟩
  | brtosStart => exact ⟨_, _, rfl, .brtosStart⟩
  | tick =>
      by_cases hwake : s.pc = .asleep ∧ s.timeToWait = s.nextCount
      · exact ⟨_, _, congrArg (fun u => some (u, TimerObs.silent)) (if_pos hwake),
          .woke hwake.1 hwake.2⟩
      · exact ⟨_, _, congrArg (fun u => some (u, TimerObs.silent)) (if_neg hwake), .ticked hwake⟩
  | task repeats =>
      refine task_move hi hk fun hpc => ?_
      simp [TimerService.enabled, hpc] at he

/-! ### The invariant -/

/-- A step that concerns one timer only. -/
theorem TimerInv.change (hi : TimerInv s) (p : Nat) (hcur : ListInv tc t.mem t.current)
    (hfut : ListInv tc t.mem t.future)
    (hother : ∀ x, x ≠ p → (t.mem x).state = (s.mem x).state ∧
      (t.current.Has x ↔ s.current.Has x) ∧ (t.future.Has x ↔ s.future.Has x) ∧
      (t.InCallback x ↔ s.InCallback x))
    (hdisj : t.current.Has p → ¬ t.future.Has p)
    (hlisted : t.current.Has p ∨ t.future.Has p ↔ (t.mem p).state = .running ∨ t.InCallback p)
    (hhand : t.pc = .callback ∨ t.pc = .drainCallback → ∃ p, t.p = some p)
    (hcb : t.InCallback p → t.current.Has p ∧ (t.mem p).state = .stopped)
    (hknown : (t.mem p).state ≠ .search ∧ (t.mem p).state ≠ .notAllocated) : TimerInv t := by
  refine ⟨hcur, hfut, fun x => ?_, fun x => ?_, hhand, fun x => ?_, fun x => ?_⟩
  all_goals
    by_cases hx : x = p
    · subst hx
      assumption
    obtain ⟨hs, hc, hf, hin⟩ := hother x hx
  · rw [hc, hf]
    exact hi.disjoint x
  · rw [hc, hf, hs, hin]
    exact hi.listed x
  · rw [hc, hs, hin]
    exact hi.inCallback x
  · rw [hs]
    exact hi.known x

/-- A step that leaves the timers and the lists. -/
theorem TimerInv.quiet (hi : TimerInv s) (hmem : t.mem = s.mem) (hcur : t.current = s.current)
    (hfut : t.future = s.future) (hin : ∀ x, t.InCallback x ↔ s.InCallback x)
    (hhand : t.pc = .callback ∨ t.pc = .drainCallback → ∃ p, t.p = some p) : TimerInv t where
  current := by rw [hmem, hcur]; exact hi.current
  future := by rw [hmem, hfut]; exact hi.future
  disjoint := by rw [hcur, hfut]; exact hi.disjoint
  listed x := by rw [hmem, hcur, hfut, hin]; exact hi.listed x
  inHand := hhand
  inCallback x := by rw [hmem, hcur, hin]; exact hi.inCallback x
  known x := by rw [hmem]; exact hi.known x

theorem not_inCallback (h : s.pc ≠ .callback ∧ s.pc ≠ .drainCallback) : ¬ s.InCallback x :=
  fun hin => hin.1.elim h.1 h.2

/-- A step of the task, outside the callbacks, that leaves the timers and the lists. -/
theorem TimerInv.outside (hi : TimerInv s) (hs : s.pc ≠ .callback ∧ s.pc ≠ .drainCallback)
    (ht : t.pc ≠ .callback ∧ t.pc ≠ .drainCallback) (hmem : t.mem = s.mem)
    (hcur : t.current = s.current) (hfut : t.future = s.future) : TimerInv t :=
  hi.quiet hmem hcur hfut (fun _ => iff_of_false (not_inCallback ht) (not_inCallback hs))
    fun h => (h.elim ht.1 ht.2).elim

theorem TimerInv.exchange (hi : TimerInv s) (hs : s.pc ≠ .callback ∧ s.pc ≠ .drainCallback)
    (ht : t.pc ≠ .callback ∧ t.pc ≠ .drainCallback) (hmem : t.mem = s.mem)
    (hcur : t.current = s.future) (hfut : t.future = s.current) : TimerInv t where
  current := by rw [hmem, hcur]; exact hi.future
  future := by rw [hmem, hfut]; exact hi.current
  disjoint x := by
    rw [hcur, hfut]
    exact fun hf hc => hi.disjoint x hc hf
  listed x := by
    rw [hmem, hcur, hfut, or_comm, hi.listed x]
    exact or_congr_right (iff_of_false (not_inCallback hs) (not_inCallback ht))
  inHand h := (h.elim ht.1 ht.2).elim
  inCallback x hin := (not_inCallback ht hin).elim
  known x := by rw [hmem]; exact hi.known x

/-- A callback begins. -/
theorem TimerInv.fire (hi : TimerInv s) (hs : s.pc ≠ .callback ∧ s.pc ≠ .drainCallback)
    (hp : s.p = some p) (hcur : s.current.Has p)
    (hpc : pc = .callback ∨ pc = .drainCallback) : TimerInv (s.fire p pc) := by
  have hsame : ∀ x, ((s.fire p pc).mem x).timeout = (s.mem x).timeout := by
    intro x
    by_cases hx : x = p <;> simp [TimerService.fire, TimerService.setTimer, hx]
  have hin : (s.fire p pc).InCallback p := ⟨hpc, hp⟩
  have hstop : ((s.fire p pc).mem p).state = .stopped := by
    simp [TimerService.fire, TimerService.setTimer]
  refine hi.change p (hi.current.of_timeout hsame) (hi.future.of_timeout hsame) ?_
    (hi.disjoint p) (iff_of_true (Or.inl hcur) (Or.inr hin)) (fun _ => ⟨p, hp⟩)
    (fun _ => ⟨hcur, hstop⟩) (by simp [hstop])
  intro x hx
  refine ⟨by simp [TimerService.fire, TimerService.setTimer, hx], Iff.rfl, Iff.rfl, ?_⟩
  refine iff_of_false (fun h => hx ?_) (not_inCallback hs)
  exact Option.some.inj (h.2.symm.trans hp)

/-- A callback ends. -/
theorem TimerInv.finish (hi : TimerInv s) (hp : s.p = some p)
    (ht : t.pc ≠ .callback ∧ t.pc ≠ .drainCallback) (hcur : ListInv tc t.mem t.current)
    (hfut : ListInv tc t.mem t.future)
    (hother : ∀ x, x ≠ p → (t.mem x).state = (s.mem x).state ∧
      (t.current.Has x ↔ s.current.Has x) ∧ (t.future.Has x ↔ s.future.Has x))
    (hdisj : t.current.Has p → ¬ t.future.Has p)
    (hlisted : t.current.Has p ∨ t.future.Has p ↔ (t.mem p).state = .running)
    (hknown : (t.mem p).state ≠ .search ∧ (t.mem p).state ≠ .notAllocated) : TimerInv t := by
  refine hi.change p hcur hfut (fun x hx => ?_) hdisj ?_ (fun h => (h.elim ht.1 ht.2).elim)
    (fun h => (not_inCallback ht h).elim) hknown
  · obtain ⟨hm, hc, hf⟩ := hother x hx
    refine ⟨hm, hc, hf, iff_of_false (not_inCallback ht) fun h => hx ?_⟩
    exact Option.some.inj (h.2.symm.trans hp)
  · rw [hlisted, or_iff_left (not_inCallback ht)]

/-- **A step keeps the lists in good order.** -/
theorem TimerMove.inv {a : TimerAct} {o : TimerObs} (hi : TimerInv s) (hm : TimerMove s a t o) :
    TimerInv t := by
  cases hm with
  | refused hcode => exact hi
  | @allocated c p cb hc hfree =>
      have hcb : ¬ s.InCallback p := fun h => by
        have := (hi.inCallback p h).2
        rw [hfree] at this
        cases this
      have hno := hi.not_listed (by rw [hfree]; simp) hcb
      refine hi.change p (hi.current.update hno.1) (hi.future.update hno.2) ?_ ?_ ?_ hi.inHand ?_ ?_
      · intro x hx
        exact ⟨by simp [hx], Iff.rfl, Iff.rfl, Iff.rfl⟩
      · exact fun h => (hno.1 h).elim
      · refine iff_of_false (not_or.mpr hno) (not_or.mpr ⟨by simp, hcb⟩)
      · exact fun h => (hcb h).elim
      · simp
  | @armedFuture c p cb out list harm hno hwrap hlist hhas =>
      have hcb : ¬ s.InCallback p := fun h => hno.1 (hi.inCallback p h).1
      refine hi.change p (hi.current.update hno.1) hlist ?_ ?_ ?_ hi.inHand ?_ ?_
      · intro x hx
        exact ⟨by simp [hx], Iff.rfl, by simp [hhas, hx], Iff.rfl⟩
      · exact fun h => (hno.1 h).elim
      · refine iff_of_true (Or.inr ((hhas p).mpr (Or.inr rfl))) (Or.inl (by simp))
      · exact fun h => (hcb h).elim
      · simp
  | @armedCurrent c p wake cb out list harm hno hwrap hlist hhas hwake hkeep =>
      have hcb : ¬ s.InCallback p := fun h => hno.1 (hi.inCallback p h).1
      refine hi.change p hlist (hi.future.update hno.2) ?_ ?_ ?_ hi.inHand ?_ ?_
      · intro x hx
        exact ⟨by simp [hx], by simp [hhas, hx], Iff.rfl, Iff.rfl⟩
      · exact fun _ => hno.2
      · refine iff_of_true (Or.inl ((hhas p).mpr (Or.inr rfl))) (Or.inl (by simp))
      · exact fun h => (hcb h).elim
      · simp
  | @stoppedCurrent p del cb state list hrun hhas hin hstate hlist hhas' =>
      have hcb : ¬ s.InCallback p := fun h => by
        have := (hi.inCallback p h).2
        rw [hrun] at this
        cases this
      have hfut := hi.disjoint p hhas
      refine hi.change p hlist (hi.future.update hfut) ?_ ?_ ?_ hi.inHand ?_ ?_
      · intro x hx
        exact ⟨by simp [hx], by simp [hhas', hx], Iff.rfl, Iff.rfl⟩
      · exact fun _ => hfut
      · refine iff_of_false (not_or.mpr ⟨by simp [hhas'], hfut⟩) (not_or.mpr ⟨?_, hcb⟩)
        rcases hstate with rfl | rfl <;> simp
      · exact fun h => (hcb h).elim
      · rcases hstate with rfl | rfl <;> simp
  | @stoppedFuture p del cb state list hrun hhas hin hstate hlist hhas' =>
      have hcb : ¬ s.InCallback p := fun h => by
        have := (hi.inCallback p h).2
        rw [hrun] at this
        cases this
      have hcur : ¬ s.current.Has p := fun h => hi.disjoint p h hhas
      refine hi.change p (hi.current.update hcur) hlist ?_ ?_ ?_ hi.inHand ?_ ?_
      · intro x hx
        exact ⟨by simp [hx], Iff.rfl, by simp [hhas', hx], Iff.rfl⟩
      · exact fun h => (hcur h).elim
      · refine iff_of_false (not_or.mpr ⟨hcur, by simp [hhas']⟩) (not_or.mpr ⟨?_, hcb⟩)
        rcases hstate with rfl | rfl <;> simp
      · exact fun h => (hcb h).elim
      · rcases hstate with rfl | rfl <;> simp
  | brtosStart => exact hi.quiet rfl rfl rfl (fun _ => Iff.rfl) hi.inHand
  | ticked hstay => exact hi.quiet rfl rfl rfl (fun _ => Iff.rfl) hi.inHand
  | woke hpc hwake => exact hi.outside (by simp [hpc]) (by simp) rfl rfl rfl
  | begun hpc => exact hi.outside (by simp [hpc]) (by simp [TimerService.setPc]) rfl rfl rfl
  | stored hpc => exact hi.outside (by simp [hpc]) (by simp) rfl rfl rfl
  | slept hpc => exact hi.outside (by simp [hpc]) (by simp [TimerService.setPc]) rfl rfl rfl
  | looked hpc => exact hi.outside (by simp [hpc]) (by simp [TimerService.setPc]) rfl rfl rfl
  | drains hpc hp hlate =>
      exact hi.outside (by simp [hpc]) (by simp [TimerService.setPc]) rfl rfl rfl
  | tests hpc hp => exact hi.outside (by simp [hpc]) (by simp [TimerService.setPc]) rfl rfl rfl
  | @drainFired repeats p hpc hp hhas => exact hi.fire (by simp [hpc]) hp hhas (Or.inr rfl)
  | drained hpc hp => exact hi.exchange (by simp [hpc]) (by simp [TimerService.setPc]) rfl rfl rfl
  | @fired repeats p hpc hp hdue hhas => exact hi.fire (by simp [hpc]) hp hhas (Or.inl rfl)
  | notDue hpc hp => exact hi.outside (by simp [hpc]) (by simp [TimerService.setPc]) rfl rfl rfl
  | @released repeats p pc list hpc hp hroot hlist hhas =>
      have hfut := hi.disjoint p (hi.current.root_spec hroot).1
      refine hi.finish hp (by grind) hlist (hi.future.update hfut) (fun x hx => ?_) ?_ ?_
        (by simp)
      · exact ⟨by simp [hx], by simp [hhas, hx], Iff.rfl⟩
      · exact fun _ => hfut
      · exact iff_of_false (not_or.mpr ⟨by simp [hhas], hfut⟩) (by simp)
  | @moved repeats p v pc list list' hpc hp hroot hpos hlist hhas hlist' hhas' =>
      refine hi.finish hp (by grind) hlist hlist' (fun x hx => ?_) ?_ ?_
        (by simp [runTimer_self])
      · exact ⟨congrArg _ (runTimer_ne hx), by simp [hhas, hx], by simp [hhas', hx]⟩
      · intro h
        exact absurd rfl ((hhas p).mp h).2
      · exact iff_of_true (Or.inr ((hhas' p).mpr (Or.inr rfl))) (by simp [runTimer_self])
  | @kept repeats p v list hpc hp hroot hpos hwrap hv hlist hhas =>
      have hcur := (hi.current.root_spec hroot).1
      have hfut := hi.disjoint p hcur
      refine hi.finish hp (by simp) hlist (hi.future.update hfut) (fun x hx => ?_) ?_
        ?_ (by simp [runTimer_self])
      · exact ⟨congrArg _ (runTimer_ne hx), hhas x, Iff.rfl⟩
      · exact fun _ => hfut
      · exact iff_of_true (Or.inl ((hhas p).mpr hcur)) (by simp [runTimer_self])
  | switched hpc hout hp =>
      exact hi.exchange (by simp [hpc]) (by simp [TimerService.setPc]) rfl rfl rfl
  | stays hpc hor => exact hi.outside (by simp [hpc]) (by simp [TimerService.setPc]) rfl rfl rfl
  | planned hpc => exact hi.outside (by simp [hpc]) (by simp [TimerService.setPc]) rfl rfl rfl

/-! ### Every run -/

theorem timerInv_init (tc : TimerConfig) : TimerInv (TimerService.init tc) := by
  have hnone : ∀ x, ¬ (⟨fun _ => none, 0, false⟩ : TimerList).Has x := by
    intro x hx
    obtain ⟨i, h1, hi, -⟩ := hx.elim
    exact absurd (h1.trans hi) (by simp)
  have hempty : ListInv tc (TimerService.init tc).mem ⟨fun _ => none, 0, false⟩ := by
    refine ⟨⟨Nat.lt_of_lt_of_le (by decide) tc.two_le, fun i h1 hi => ?_, fun _ _ => rfl,
      fun i j h1 hi => ?_, rfl⟩, fun i h2 hi => ?_⟩
    · exact absurd (h1.trans hi) (by simp)
    · exact absurd (h1.trans hi) (by simp)
    · exact absurd (h2.trans hi) (by simp)
  have hout : ∀ x, ¬ (TimerService.init tc).InCallback x := fun x =>
    not_inCallback ⟨by simp [TimerService.init], by simp [TimerService.init]⟩
  exact {
    current := hempty
    future := hempty
    disjoint := fun x hx => (hnone x hx).elim
    listed := fun x => iff_of_false (not_or.mpr ⟨hnone x, hnone x⟩)
      (not_or.mpr ⟨by simp [TimerService.init], hout x⟩)
    inHand := fun h => by simp [TimerService.init] at h
    inCallback := fun x h => (hout x h).elim
    known := fun x => by simp [TimerService.init] }

/-- The moves of a guarded run. -/
theorem timer_move_of_step {a : TimerAct} {o : TimerObs} (hi : TimerInv s) (hk : KeepsLists s a)
    (hstep : s.step a = some (t, o)) : TimerMove s a t o := by
  have he : s.enabled a = true := by
    by_contra he
    have hnone : s.step a = none := if_neg he
    rw [hnone] at hstep
    cases hstep
  obtain ⟨t', o', heq, hm⟩ := timer_step hi hk he
  obtain ⟨rfl, rfl⟩ : t' = t ∧ o' = o := by simpa [hstep] using heq.symm
  exact hm

theorem timerInv_run {ok : TimerService tc → TimerAct → Prop} {tr : List (TimerAct × TimerObs)}
    (hok : ∀ s a, ok s a → KeepsLists s a)
    (hr : Run TimerService.step ok (TimerService.init tc) tr s) : TimerInv s :=
  hr.invariant (timerInv_init tc) fun _ _ _ _ hi hk hstep =>
    (timer_move_of_step hi (hok _ _ hk) hstep).inv hi

/-- **The timer lists stay in good order.** In every state of a run in which no timer is
armed twice or into a full list, none is stopped that `OSTimerStop` does not find and can
not take out, and the timer the task expires is at the root when its callback is over:
both lists are heaps without gaps or repetitions inside the array and have no timer in
common; outside the callbacks the timers in them are those that run; and every such
action has a meaning, so no `NULL` is followed and no entry outside the array is used. -/
theorem timer_lists_invariant {tr : List (TimerAct × TimerObs)}
    (hr : Run TimerService.step KeepsLists (TimerService.init tc) tr s) :
    TimerInv s ∧
    ((∀ x, ¬ s.InCallback x) →
      ∀ x, s.current.Has x ∨ s.future.Has x ↔ (s.mem x).state = .running) ∧
    ∀ a, KeepsLists s a → s.enabled a = true → ∃ t o, s.step a = some (t, o) := by
  have hi : TimerInv s := timerInv_run (fun _ _ h => h) hr
  refine ⟨hi, fun hout x => ?_, fun a hk he => ?_⟩
  · rw [hi.listed, or_iff_left (hout x)]
  · obtain ⟨t, o, heq, -⟩ := timer_step hi hk he
    exact ⟨t, o, heq⟩

/-- The example build with eight timers. -/
def exampleTimerConfig : TimerConfig where
  toConfig := Config.exampleConfig
  brtosMaxTimer := 8
  two_le := Nat.le_add_right 2 6
  le_128 := Nat.le_add_right 8 120

/-- Two timers, one of them past the wrap; one runs its callback and is repeated, and is
then stopped. -/
def timerScript : List TimerAct :=
  [.call (.set true (some 0) 2), .brtosStart, .task 0, .task 0, .task 0,
    .call (.set true (some 1) 65532), .tick, .tick, .task 0, .task 0, .task 0, .task 3, .task 0,
    .call (.stop (some 0) false)]

/-- A run with a repetition, a stop and a timer past the wrap. -/
theorem timer_lists_invariant_timerScript :
    TimerInv (Run.after TimerService.step (TimerService.init exampleTimerConfig) timerScript) :=
  (timer_lists_invariant (Run.of_admits (by decide +kernel))).1

/-- **A timer that is started while it runs** is in the list twice. -/
theorem timer_started_twice :
    ∃ tr, ∃ s : TimerService exampleTimerConfig,
      Run TimerService.step (fun _ _ => True) (TimerService.init exampleTimerConfig) tr s ∧
      tr.map Prod.fst = [.call (.set true (some 0) 5), .call (.start (some 0) 5)] ∧
      s.current.count = 2 ∧ s.current.timers 1 = some 0 ∧ s.current.timers 2 = some 0 := by
  have hrun : Run TimerService.step (fun _ _ => True) (TimerService.init exampleTimerConfig) _ _ :=
    @Run.of_admits _ _ _ TimerService.step (fun _ _ => True) _
      [.call (.set true (some 0) 5), .call (.start (some 0) 5)] _ (by decide +kernel)
  refine ⟨_, _, hrun, ?_, ?_, ?_, ?_⟩
  all_goals decide +kernel

end Brtos
