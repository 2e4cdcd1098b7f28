import Brtos.Invariant.Step
import Mathlib.Data.Nat.ModEq

/-!
# Brtos.Properties.Tickless

**Tickless mode** (`HAL.c` of the Cortex-M4 port, `OSIncCounter` of a `TICKLESS`
build). `WaitTickless` looks for the nearest deadline in the delay list and lets the
timer sleep that long; the counter is then advanced in one step, by the tick interrupt
or, when something else ends the sleep, by `BRTOS_WakeUP`.

`OS_TICK_HANDLER` compares deadlines with the counter by equality, so one step of `n`
does what `n` ticks do if no deadline lies strictly inside it and the counter is reduced
as the ticks reduce it. The search has a branch for deadlines past the counter wrap, but
under `#if (ostick_t != uint64_t)`: no branch at all, since the preprocessor compares
two names that are no macros. So the sleep is right when some deadline lies before the
wrap, and otherwise only as far as `MAX_TICKS` happens to end it in time
(`tickless_refines_iff`).
-/

namespace Brtos

open Bits Kernel

variable {cfg : Config} {s t : Kernel cfg} {xs : List Nat}

/-! ### The code -/

/-- `configCPU_CLOCK_HZ` and `configTICK_RATE_HZ`; `MAX_TICKS` divides by their quotient
minus one. -/
structure SysTick where
  configCpuClockHz : Nat
  configTickRateHz : Nat
  two_le : 2 ≤ configCpuClockHz / configTickRateHz

namespace SysTick

/-- The timer counts of one tick, minus one: `module` of `BRTOS_WakeUP`. -/
def countsPerTick (st : SysTick) : Nat := st.configCpuClockHz / st.configTickRateHz - 1

/-- `MAX_TICKS`: the most ticks the 24-bit timer can sleep. -/
def maxTicks (st : SysTick) : Nat := 0x00FFFFFF / st.countsPerTick

end SysTick

namespace Kernel

/-- `OSIncCounter` of a `TICKLESS` build. -/
def osIncCounterBy (s : Kernel cfg) (inc : Nat) : Kernel cfg :=
  if inc ≠ 1 then { s with osTickCounter := deadline cfg s.osTickCounter inc }
  else s.osIncCounter

end Kernel

/-- What `#if` makes of the name of a type, which is no macro. -/
def typeNameValue : Nat := 0

/-- The body of the loop of `WaitTickless` for one task. -/
def nearer (s : Kernel cfg) (task lowWait : Nat) : Nat :=
  let timeToWait := (s.contextTask task).timeToWait
  if timeToWait ≥ s.osTickCounter then
    let timeTmp := timeToWait - s.osTickCounter
    if timeTmp < lowWait then timeTmp else lowWait
  -- `#if (ostick_t != uint64_t)`
  else if typeNameValue ≠ typeNameValue then
    let timeTmp := (timeToWait + (cfg.tickCountOverflow - s.osTickCounter)) % 2 ^ cfg.tickBits
    if timeTmp < lowWait then timeTmp else lowWait
  else lowWait

/-- The loop of `WaitTickless` from `task` on; `none` when it does not end. -/
def nearestLoop : Nat → Kernel cfg → Option Nat → Nat → Option Nat
  | _, _, none, lowWait => some lowWait
  | 0, _, some _, _ => none
  | fuel + 1, s, some task, lowWait =>
    nearestLoop fuel s (s.delayList.next task) (nearer s task lowWait)

/-- The kernel and the port's `time_next_task` and `normal_run`. -/
structure Tickless (cfg : Config) where
  kernel : Kernel cfg
  timeNextTask : Nat
  normalRun : Bool

namespace Tickless

/-- `WaitTickless`, up to the sleep. -/
def waitTickless (st : SysTick) (s : Kernel cfg) : Option (Tickless cfg) :=
  (nearestLoop (walkFuel cfg) s s.delayList.head cfg.maxTimer).map fun lowWait =>
    { kernel := s
      timeNextTask := if lowWait > st.maxTicks then st.maxTicks else lowWait
      normalRun := false }

/-- `OSIncTickLess`. -/
def osIncTickLess (w : Tickless cfg) : Tickless cfg :=
  if w.normalRun = false then
    { w with normalRun := true, kernel := w.kernel.osIncCounterBy w.timeNextTask }
  else { w with kernel := w.kernel.osIncCounterBy 1 }

/-- `TickTimer`, the tick interrupt. -/
def tickTimer (w : Tickless cfg) : Option (Tickless cfg) :=
  let w := w.osIncTickLess
  w.kernel.osTickHandler.map fun t => { w with kernel := t }

/-- `BRTOS_WakeUP`, with `cnt` the count the timer still has to go. -/
def brtosWakeUP (st : SysTick) (w : Tickless cfg) (cnt : Nat) : Option (Tickless cfg) :=
  if w.normalRun = false then
    let time := (w.timeNextTask + 2 ^ 32 - cnt / st.countsPerTick % 2 ^ 32) % 2 ^ cfg.tickBits
    if 0 < time then
      (w.kernel.osIncCounterBy time).osTickHandler.map fun t =>
        { w with kernel := t, normalRun := true }
    else some { w with normalRun := true }
  else some w

end Tickless

/-- `k` ticks, one at a time. -/
def singleTicks : Nat → Kernel cfg → Option (Kernel cfg)
  | 0, s => some s
  | k + 1, s => (singleTicks k s).bind fun t => (t.osIncCounterBy 1).osTickHandler

/-! ### The handler on a delay list -/

theorem expire_ttw (s : Kernel cfg) (h h' : Nat) :
    (s.expire h).ttw h' = if h' = h then cfg.exitByTimeout else s.ttw h' := by
  simp only [Kernel.ttw, Kernel.expire, removeFromDelayList, setTimeToWait, setContext,
    Kernel.setReady, Function.update_apply]
  split <;> rfl

/-- The loop of the handler, with `ys` behind it and `zs` ahead: it expires and unlinks
the tasks whose deadline is the counter. -/
theorem tickLoop_list : ∀ {zs ys : List Nat} {s : Kernel cfg} {fuel : Nat}, zs.length ≤ fuel →
    s.delayList.IsList (ys ++ zs) →
    ∃ t, tickLoop fuel s zs.head? = some t ∧ t.osTickCounter = s.osTickCounter ∧
      t.delayList.IsList (ys ++ zs.filter fun h => s.ttw h ≠ s.osTickCounter) ∧
      ∀ h, t.ttw h = if h ∈ zs ∧ s.ttw h = s.osTickCounter then cfg.exitByTimeout else s.ttw h
  | [], ys, s, fuel, _, hl =>
      ⟨s, by cases fuel <;> rfl, rfl, by simpa using hl, by simp⟩
  | h :: zs, ys, s, 0, hlen, _ => by simp at hlen
  | h :: zs, ys, s, fuel + 1, hlen, hl => by
      have hlen : zs.length ≤ fuel := by simpa using hlen
      have hnot := DList.not_mem_of_nodup_mid hl.nodup
      simp only [List.head?_cons, tickLoop]
      by_cases hdue : s.ttw h = s.osTickCounter
      · have htask : s.tickTask h = s.expire h := if_pos hdue
        have hnext : (s.expire h).delayList.next h = zs.head? := hl.remove_next_self
        have hlist : (s.expire h).delayList.IsList (ys ++ zs) := hl.remove
        obtain ⟨t, hloop, hcount, hlt, httw⟩ := tickLoop_list hlen hlist
        have hsame : ∀ h' ∈ zs, (s.expire h).ttw h' = s.ttw h' := by
          intro h' hm
          rw [expire_ttw, if_neg]
          rintro rfl
          exact hnot.2.1 hm
        rw [htask, hnext]
        refine ⟨t, hloop, hcount, ?_, fun h' => ?_⟩
        · rw [List.filter_cons_of_neg (by simpa using hdue)]
          rw [List.filter_congr fun h' hm => by rw [hsame h' hm]] at hlt
          exact hlt
        · rw [httw, expire_ttw]
          by_cases heq : h' = h
          · subst heq
            simp [hnot.2.1, hdue]
          · simp only [heq, if_false, List.mem_cons, false_or]
            rfl
      · have htask : s.tickTask h = s := if_neg hdue
        have hnext : s.delayList.next h = zs.head? := by
          have := (DList.seg_append.mp hl.seg).2.2.1
          simpa using this
        obtain ⟨t, hloop, hcount, hlt, httw⟩ :=
          tickLoop_list hlen (show s.delayList.IsList ((ys ++ [h]) ++ zs) by simpa using hl)
        rw [htask, hnext]
        refine ⟨t, hloop, hcount, ?_, fun h' => ?_⟩
        · rw [List.filter_cons_of_pos (by simpa using hdue)]
          simpa using hlt
        · rw [httw]
          by_cases heq : h' = h
          · subst heq
            simp [hdue]
          · simp [heq]

/-- With no deadline at the counter the loop changes nothing. -/
theorem tickLoop_idle : ∀ {zs ys : List Nat} {s : Kernel cfg} {fuel : Nat}, zs.length ≤ fuel →
    s.delayList.IsList (ys ++ zs) → (∀ h ∈ zs, s.ttw h ≠ s.osTickCounter) →
    tickLoop fuel s zs.head? = some s
  | [], ys, s, fuel, _, _, _ => by cases fuel <;> rfl
  | h :: zs, ys, s, 0, hlen, _, _ => by simp at hlen
  | h :: zs, ys, s, fuel + 1, hlen, hl, hdue => by
      have htask : s.tickTask h = s := if_neg (hdue h (by simp))
      have hnext : s.delayList.next h = zs.head? := by
        have := (DList.seg_append.mp hl.seg).2.2.1
        simpa using this
      simp only [List.head?_cons, tickLoop, htask, hnext]
      exact tickLoop_idle (by simpa using hlen)
        (show s.delayList.IsList ((ys ++ [h]) ++ zs) by simpa using hl)
        fun h' hm => hdue h' (List.mem_cons_of_mem _ hm)

/-- The delay list is well formed and its deadlines lie one to
`TICK_COUNT_OVERFLOW - 1` ticks after the counter. -/
structure Delayed (s : Kernel cfg) (xs : List Nat) : Prop where
  counter : s.osTickCounter < cfg.tickCountOverflow
  list : s.delayList.IsList xs
  slot : ∀ h ∈ xs, h ≤ cfg.numberOfTasks
  ahead : ∀ h ∈ xs, ∃ d, 1 ≤ d ∧ d < cfg.tickCountOverflow ∧
    s.ttw h = (s.osTickCounter + d) % cfg.tickCountOverflow

theorem Delayed.length_le (hd : Delayed s xs) : xs.length ≤ cfg.numberOfTasks + 1 := by
  have hsub : xs.toFinset ⊆ Finset.range (cfg.numberOfTasks + 1) := by
    intro h hm
    exact Finset.mem_range.mpr (Nat.lt_succ_of_le (hd.slot h (List.mem_toFinset.mp hm)))
  calc xs.length = xs.toFinset.card := (List.toFinset_card_of_nodup hd.list.nodup).symm
    _ ≤ (Finset.range (cfg.numberOfTasks + 1)).card := Finset.card_le_card hsub
    _ = cfg.numberOfTasks + 1 := Finset.card_range _

theorem Delayed.length_le_tickFuel (hd : Delayed s xs) : xs.length ≤ tickFuel cfg :=
  hd.length_le.trans (Nat.le_mul_of_pos_right _ (Nat.succ_pos _))

/-- Ticks until the counter next equals the deadline of `h`. -/
def Kernel.ticksLeft (s : Kernel cfg) (h : Nat) : Nat :=
  if s.osTickCounter ≤ s.ttw h then s.ttw h - s.osTickCounter
  else s.ttw h + (cfg.tickCountOverflow - s.osTickCounter)

theorem mod_of_lt_two_mul {n m : Nat} (h : n < 2 * m) : n % m = if n < m then n else n - m := by
  split
  · exact Nat.mod_eq_of_lt ‹_›
  · rw [Nat.mod_eq_sub_mod (by omega), Nat.mod_eq_of_lt (by omega)]

/-- Two distances below one period that lead to the same count are the same. -/
theorem distance_inj {c d d' m : Nat} (hd : d < m) (hd' : d' < m) (h : (c + d) % m = (c + d') % m) :
    d = d' := by
  have := Nat.ModEq.add_left_cancel' c h
  rwa [Nat.ModEq, Nat.mod_eq_of_lt hd, Nat.mod_eq_of_lt hd'] at this

theorem Delayed.ticksLeft_spec (hd : Delayed s xs) {h : Nat} (hm : h ∈ xs) :
    1 ≤ s.ticksLeft h ∧ s.ticksLeft h < cfg.tickCountOverflow ∧
      s.ttw h = (s.osTickCounter + s.ticksLeft h) % cfg.tickCountOverflow := by
  obtain ⟨d, hpos, hlt, httw⟩ := hd.ahead h hm
  have hc := hd.counter
  have hleft : s.ticksLeft h = d := by
    rw [mod_of_lt_two_mul (by omega)] at httw
    unfold Kernel.ticksLeft
    split at httw <;> split <;> omega
  rw [hleft]
  exact ⟨hpos, hlt, httw⟩

theorem Delayed.ttw_lt (hd : Delayed s xs) {h : Nat} (hm : h ∈ xs) :
    s.ttw h < cfg.tickCountOverflow := by
  rw [(hd.ticksLeft_spec hm).2.2]
  exact Nat.mod_lt _ (Nat.zero_lt_of_lt hd.counter)

theorem Config.maxTimer_eq (cfg : Config) : cfg.maxTimer = cfg.tickCountOverflow + 3 := by
  obtain ⟨-, -, hspec, -⟩ := cfg.tickCountOverflow_spec
  unfold Config.maxTimer
  omega

/-- The counter after a step of `k` ticks: reduced at most once. -/
theorem osIncCounterBy_eq {k : Nat} (hc : s.osTickCounter < cfg.tickCountOverflow)
    (hk : k ≤ cfg.maxTimer) :
    s.osIncCounterBy k = { s with
      osTickCounter := if s.osTickCounter + k < cfg.tickCountOverflow then s.osTickCounter + k
        else s.osTickCounter + k - cfg.tickCountOverflow } := by
  obtain ⟨-, -, hspec, hpos⟩ := cfg.tickCountOverflow_spec
  have hmax := cfg.maxTimer_eq
  unfold osIncCounterBy
  split
  · have hsize : cfg.tick.size < 8 := by cases cfg.tick <;> decide
    have hpow : 2 ^ cfg.tickBits * 2 ≤ 2 ^ (2 * cfg.tickBits) := by
      rcases cfg.tickBits_cases with h | h <;> rw [h] <;> decide
    have hsum : (s.osTickCounter + k) % 2 ^ (2 * cfg.tickBits) = s.osTickCounter + k :=
      Nat.mod_eq_of_lt (by omega)
    have hdl : deadline cfg s.osTickCounter k =
        if s.osTickCounter + k < cfg.tickCountOverflow then s.osTickCounter + k
        else s.osTickCounter + k - cfg.tickCountOverflow := by
      simp only [deadline, hsum, hsize, if_true]
      split
      · rw [Nat.mod_eq_of_lt (by omega), if_neg (by omega)]
      · rw [Nat.mod_eq_of_lt (by omega), if_pos (by omega)]
    rw [hdl]
  · obtain rfl : k = 1 := by omega
    rw [osIncCounter_same, osIncCounter_eq hc, mod_of_lt_two_mul (by omega)]

theorem osIncCounterBy_of_lt {k : Nat} (hc : s.osTickCounter < cfg.tickCountOverflow)
    (hk : k ≤ cfg.maxTimer) (hlt : s.osTickCounter + k < 2 * cfg.tickCountOverflow) :
    s.osIncCounterBy k =
      { s with osTickCounter := (s.osTickCounter + k) % cfg.tickCountOverflow } := by
  rw [osIncCounterBy_eq hc hk, mod_of_lt_two_mul hlt]

theorem osIncCounterBy_one (hc : s.osTickCounter < cfg.tickCountOverflow) :
    s.osIncCounterBy 1 =
      { s with osTickCounter := (s.osTickCounter + 1) % cfg.tickCountOverflow } := by
  rw [osIncCounterBy, if_neg (by simp), osIncCounter_same, osIncCounter_eq hc]

/-- Ticks that reach no deadline only count. -/
theorem singleTicks_silent (hd : Delayed s xs) : ∀ {k : Nat}, (∀ h ∈ xs, k < s.ticksLeft h) →
    singleTicks k s =
      some { s with osTickCounter := (s.osTickCounter + k) % cfg.tickCountOverflow }
  | 0, _ => by
      rw [singleTicks, Nat.add_zero, Nat.mod_eq_of_lt hd.counter]
  | k + 1, hk => by
      have hpos := Nat.zero_lt_of_lt hd.counter
      rw [singleTicks, singleTicks_silent hd fun h hm => Nat.lt_of_succ_lt (hk h hm),
        Option.bind_some, osIncCounterBy_one (Nat.mod_lt _ hpos)]
      have hmod : ((s.osTickCounter + k) % cfg.tickCountOverflow + 1) % cfg.tickCountOverflow =
          (s.osTickCounter + (k + 1)) % cfg.tickCountOverflow := by
        rw [Nat.mod_add_mod, Nat.add_assoc]
      simp only [hmod]
      unfold osTickHandler
      rw [hd.list.head_eq]
      refine tickLoop_idle hd.length_le_tickFuel
        (show s.delayList.IsList ([] ++ xs) from hd.list) fun h hm heq => ?_
      obtain ⟨-, hlt, httw⟩ := hd.ticksLeft_spec hm
      have hkh := hk h hm
      have := distance_inj hlt (by omega) (httw.symm.trans heq)
      omega

/-- **A step with no deadline strictly inside it** and one reduction of the counter does
what the ticks do. -/
theorem jump_eq_singleTicks (hd : Delayed s xs) {k : Nat} (hk : ∀ h ∈ xs, k ≤ s.ticksLeft h)
    (hmax : k ≤ cfg.maxTimer) (hlt : s.osTickCounter + k < 2 * cfg.tickCountOverflow) :
    (s.osIncCounterBy k).osTickHandler = singleTicks k s := by
  have hpos := Nat.zero_lt_of_lt hd.counter
  rw [osIncCounterBy_of_lt hd.counter hmax hlt]
  cases k with
  | zero =>
      rw [Nat.add_zero, Nat.mod_eq_of_lt hd.counter, singleTicks]
      unfold osTickHandler
      rw [hd.list.head_eq]
      refine tickLoop_idle hd.length_le_tickFuel
        (show s.delayList.IsList ([] ++ xs) from hd.list) fun h hm heq => ?_
      obtain ⟨hleft, hlt', httw⟩ := hd.ticksLeft_spec hm
      have hzero : (s.osTickCounter + s.ticksLeft h) % cfg.tickCountOverflow =
          (s.osTickCounter + 0) % cfg.tickCountOverflow := by
        rw [Nat.add_zero, Nat.mod_eq_of_lt hd.counter, ← httw, heq]
      have := distance_inj hlt' hpos hzero
      omega
  | succ k =>
      rw [singleTicks, singleTicks_silent hd fun h hm => hk h hm, Option.bind_some,
        osIncCounterBy_one (Nat.mod_lt _ hpos)]
      simp only [Nat.mod_add_mod, Nat.add_assoc]

/-- **Any number of ticks**: the tasks whose deadlines they reach have left the list
and timed out, the others are as they were. -/
theorem singleTicks_spec (hd : Delayed s xs) : ∀ k : Nat,
    ∃ t, singleTicks k s = some t ∧
      t.osTickCounter = (s.osTickCounter + k) % cfg.tickCountOverflow ∧
      t.delayList.IsList (xs.filter fun h => k < s.ticksLeft h) ∧
      ∀ h, t.ttw h = if h ∈ xs ∧ s.ticksLeft h ≤ k then cfg.exitByTimeout else s.ttw h
  | 0 => by
      refine ⟨s, rfl, ?_, ?_, fun h => ?_⟩
      · rw [Nat.add_zero, Nat.mod_eq_of_lt hd.counter]
      · rw [List.filter_eq_self.mpr]
        · exact hd.list
        · intro h hm
          exact decide_eq_true (hd.ticksLeft_spec hm).1
      · rw [if_neg]
        rintro ⟨hm, hle⟩
        have := (hd.ticksLeft_spec hm).1
        omega
  | k + 1 => by
      have hpos := Nat.zero_lt_of_lt hd.counter
      obtain ⟨t, ht, hcount, hlist, httw⟩ := singleTicks_spec hd k
      have hct : t.osTickCounter < cfg.tickCountOverflow := by
        rw [hcount]
        exact Nat.mod_lt _ hpos
      have hcount' : (t.osTickCounter + 1) % cfg.tickCountOverflow =
          (s.osTickCounter + (k + 1)) % cfg.tickCountOverflow := by
        rw [hcount, Nat.mod_add_mod, Nat.add_assoc]
      -- of the tasks still listed, the tick reaches those with `k + 1` ticks to go
      have hdue : ∀ h ∈ xs.filter fun h => k < s.ticksLeft h,
          (t.ttw h = (s.osTickCounter + (k + 1)) % cfg.tickCountOverflow ↔
            s.ticksLeft h = k + 1) := by
        intro h hm
        obtain ⟨hmem, hleft⟩ := List.mem_filter.mp hm
        have hleft : k < s.ticksLeft h := by simpa using hleft
        obtain ⟨-, hlt, htw⟩ := hd.ticksLeft_spec hmem
        have hsame : t.ttw h = s.ttw h := by
          rw [httw, if_neg]
          rintro ⟨-, hle⟩
          omega
        rw [hsame, htw]
        constructor
        · intro heq
          exact distance_inj hlt (by omega) heq
        · intro heq
          rw [heq]
      have hfuel : (xs.filter fun h => decide (k < s.ticksLeft h)).length ≤ tickFuel cfg :=
        (List.length_filter_le _ _).trans hd.length_le_tickFuel
      obtain ⟨u, hu, hcu, hlu, httu⟩ := tickLoop_list hfuel
        (show { t with osTickCounter := (t.osTickCounter + 1) % cfg.tickCountOverflow
          }.delayList.IsList ([] ++ xs.filter fun h => k < s.ticksLeft h) from hlist)
      refine ⟨u, ?_, ?_, ?_, fun h => ?_⟩
      · rw [singleTicks, ht, Option.bind_some, osIncCounterBy_one hct]
        unfold osTickHandler
        rw [← hu]
        congr 1
        exact hlist.head_eq
      · rw [hcu, ← hcount']
      · have hfilter : (xs.filter fun h => k < s.ticksLeft h).filter
            (fun h => t.ttw h ≠ (t.osTickCounter + 1) % cfg.tickCountOverflow) =
            xs.filter fun h => k + 1 < s.ticksLeft h := by
          rw [hcount', List.filter_congr (q := fun h => decide (s.ticksLeft h ≠ k + 1)),
            List.filter_filter]
          · refine List.filter_congr fun h _ => ?_
            simp only [← Bool.decide_and]
            exact decide_eq_decide.mpr (by omega)
          · intro h hm
            exact decide_eq_decide.mpr (not_congr (hdue h hm))
        rw [← hfilter]
        exact hlu
      · rw [httu]
        -- still listed after `k` ticks, gone before, or never listed
        by_cases hm : h ∈ xs.filter fun h => k < s.ticksLeft h
        · have hdueh := hdue h hm
          obtain ⟨hmem, hleft⟩ := List.mem_filter.mp hm
          have hleft : k < s.ticksLeft h := by simpa using hleft
          by_cases heq : s.ticksLeft h = k + 1
          · rw [if_pos ⟨hm, by rw [hcount']; exact hdueh.mpr heq⟩, if_pos ⟨hmem, by omega⟩]
          · rw [if_neg fun h' => heq (hdueh.mp (hcount' ▸ h'.2)), if_neg fun h' => by omega]
            have := httw h
            rwa [if_neg fun h' => by omega] at this
        · rw [if_neg fun h' => hm h'.1]
          have := httw h
          by_cases hmem : h ∈ xs
          · have hle : s.ticksLeft h ≤ k := by
              by_contra hgt
              exact hm (List.mem_filter.mpr ⟨hmem, by simpa using hgt⟩)
            rw [if_pos ⟨hmem, hle⟩] at this
            rw [if_pos ⟨hmem, by omega⟩]
            exact this
          · rw [if_neg fun h' => hmem h'.1] at this
            rw [if_neg fun h' => hmem h'.1]
            exact this

/-! ### The search for the nearest deadline -/

/-- The loop finds the nearest of the deadlines that have not wrapped. -/
theorem nearestLoop_spec : ∀ {zs ys : List Nat} {fuel lowWait : Nat}, zs.length ≤ fuel →
    s.delayList.IsList (ys ++ zs) →
    ∃ low, nearestLoop fuel s zs.head? lowWait = some low ∧ low ≤ lowWait ∧
      (∀ h ∈ zs, s.osTickCounter ≤ s.ttw h → low ≤ s.ttw h - s.osTickCounter) ∧
      ((∀ h ∈ zs, s.ttw h < s.osTickCounter) → low = lowWait)
  | [], ys, fuel, lowWait, _, _ =>
      ⟨lowWait, by cases fuel <;> rfl, le_rfl, by simp, fun _ => rfl⟩
  | h :: zs, ys, 0, lowWait, hlen, _ => by simp at hlen
  | h :: zs, ys, fuel + 1, lowWait, hlen, hl => by
      have hnext : s.delayList.next h = zs.head? := by
        have := (DList.seg_append.mp hl.seg).2.2.1
        simpa using this
      obtain ⟨low, hloop, hle, hnear, hsame⟩ := @nearestLoop_spec zs (ys ++ [h]) fuel
        (nearer s h lowWait) (by simpa using hlen) (by simpa using hl)
      have hstep : nearer s h lowWait ≤ lowWait ∧
          (s.osTickCounter ≤ s.ttw h → nearer s h lowWait ≤ s.ttw h - s.osTickCounter) ∧
          (s.ttw h < s.osTickCounter → nearer s h lowWait = lowWait) := by
        simp only [nearer, ge_iff_le, Kernel.ttw, ne_eq, not_true_eq_false, if_false]
        split
        · split <;> omega
        · omega
      simp only [List.head?_cons, nearestLoop, hnext]
      refine ⟨low, hloop, hle.trans hstep.1, fun h' hm hc => ?_, fun hall => ?_⟩
      · rcases List.mem_cons.mp hm with rfl | hm
        · exact hle.trans (hstep.2.1 hc)
        · exact hnear h' hm hc
      · rw [hsame fun h' hm => hall h' (List.mem_cons_of_mem _ hm), hstep.2.2 (hall h (by simp))]

/-- The number of ticks `WaitTickless` decides to sleep. -/
structure SleepTime (st : SysTick) (s : Kernel cfg) (xs : List Nat) (n : Nat) : Prop where
  le_maxTicks : n ≤ st.maxTicks
  le_maxTimer : n ≤ cfg.maxTimer
  le_unwrapped : ∀ h ∈ xs, s.osTickCounter ≤ s.ttw h → n ≤ s.ticksLeft h
  of_wrapped : (∀ h ∈ xs, s.ttw h < s.osTickCounter) → n = min st.maxTicks cfg.maxTimer

/-- What `WaitTickless` computes. -/
theorem waitTickless_spec (st : SysTick) (hd : Delayed s xs) :
    ∃ n, Tickless.waitTickless st s = some ⟨s, n, false⟩ ∧ SleepTime st s xs n := by
  obtain ⟨low, hloop, hle, hnear, hsame⟩ := @nearestLoop_spec _ s _ [] _ cfg.maxTimer
    hd.length_le hd.list
  rw [← hd.list.head_eq] at hloop
  refine ⟨if low > st.maxTicks then st.maxTicks else low, ?_, ?_, ?_, ?_, ?_⟩
  · rw [Tickless.waitTickless, walkFuel, hloop]
    rfl
  · split <;> omega
  · split <;> omega
  · intro h hm hc
    have := hnear h hm hc
    rw [Kernel.ticksLeft, if_pos hc]
    split <;> omega
  · intro hall
    rw [hsame hall]
    split <;> omega

/-! ### Refinement -/

/-- The counter, the ready list, the delay list and the deadlines agree. -/
structure SameTick (s t : Kernel cfg) : Prop where
  osTickCounter : s.osTickCounter = t.osTickCounter
  osReadyList : s.osReadyList = t.osReadyList
  delayList : s.delayList = t.delayList
  timeToWait : ∀ h, s.ttw h = t.ttw h

/-- Both runs end, in states that agree. -/
def SameAfter (a : Option (Tickless cfg)) (b : Option (Kernel cfg)) : Prop :=
  ∃ w t, a = some w ∧ b = some t ∧ SameTick w.kernel t

/-- The sleep that `WaitTickless` sets up in `s` ends as the ticks it replaces would,
whether the tick interrupt ends it or `BRTOS_WakeUP` does, earlier. -/
def TicklessRefines (st : SysTick) (s : Kernel cfg) : Prop :=
  ∃ w, Tickless.waitTickless st s = some w ∧
    SameAfter w.tickTimer (singleTicks w.timeNextTask s) ∧
    ∀ cnt, cnt / st.countsPerTick ≤ w.timeNextTask →
      SameAfter (w.brtosWakeUP st cnt) (singleTicks (w.timeNextTask - cnt / st.countsPerTick) s)

/-- Some deadline lies before the counter wrap; or none does, no deadline comes before
the timer's longest sleep ends, and that sleep takes the counter through at most one
wrap. -/
def NoWrapMissed (st : SysTick) (s : Kernel cfg) (xs : List Nat) : Prop :=
  (∃ h ∈ xs, s.osTickCounter ≤ s.ttw h) ∨
    (∀ h ∈ xs, st.maxTicks ≤ s.ttw h + (cfg.tickCountOverflow - s.osTickCounter)) ∧
      s.osTickCounter + min st.maxTicks cfg.maxTimer < 2 * cfg.tickCountOverflow

/-- Deadlines before the wrap come before those past it. -/
theorem Delayed.unwrapped_first (hd : Delayed s xs) {h h' : Nat} (hm : h ∈ xs)
    (hc : s.osTickCounter ≤ s.ttw h) (hc' : s.ttw h' < s.osTickCounter) :
    s.ticksLeft h < s.ticksLeft h' := by
  have := hd.ttw_lt hm
  have := hd.counter
  rw [Kernel.ticksLeft, if_pos hc, Kernel.ticksLeft, if_neg (by omega)]
  omega

theorem SameAfter.of_map {w : Tickless cfg} {a b : Option (Kernel cfg)} (h : a = b)
    (hb : ∃ t, b = some t) : SameAfter (a.map fun t => { w with kernel := t }) b := by
  obtain ⟨t, rfl⟩ := hb
  subst h
  exact ⟨{ w with kernel := t }, t, rfl, rfl, ⟨rfl, rfl, rfl, fun _ => rfl⟩⟩

/-- The correction `BRTOS_WakeUP` computes. -/
theorem wakeUp_time {n q : Nat} (hq : q ≤ n) (hn : n ≤ cfg.maxTimer) :
    (n + 2 ^ 32 - q % 2 ^ 32) % 2 ^ cfg.tickBits = n - q := by
  obtain ⟨-, -, hspec, -⟩ := cfg.tickCountOverflow_spec
  have hmax : cfg.maxTimer < 2 ^ cfg.tickBits := by
    unfold Config.maxTimer
    omega
  have hle : 2 ^ cfg.tickBits ≤ 2 ^ 32 := by
    rcases cfg.tickBits_cases with h | h
    · rw [h]
      decide
    · rw [h]
  obtain ⟨m, hm⟩ : 2 ^ cfg.tickBits ∣ 2 ^ 32 := by
    rcases cfg.tickBits_cases with h | h
    · rw [h]
      decide
    · rw [h]
  rw [Nat.mod_eq_of_lt (by omega : q < 2 ^ 32),
    show n + 2 ^ 32 - q = (n - q) + 2 ^ 32 by omega, hm, Nat.add_mul_mod_self_left,
    Nat.mod_eq_of_lt (by omega)]

/-- Under the condition no deadline lies strictly inside the sleep. -/
theorem SleepTime.reaches {st : SysTick} {n : Nat} (hn : SleepTime st s xs n) (hd : Delayed s xs)
    (hmiss : NoWrapMissed st s xs) :
    (∀ h ∈ xs, n ≤ s.ticksLeft h) ∧ s.osTickCounter + n < 2 * cfg.tickCountOverflow := by
  have hc := hd.counter
  by_cases hfirst : ∃ h ∈ xs, s.osTickCounter ≤ s.ttw h
  · obtain ⟨h, hm, hge⟩ := hfirst
    have hnh := hn.le_unwrapped h hm hge
    have hlt := (hd.ticksLeft_spec hm).2.1
    refine ⟨fun h' hm' => ?_, by omega⟩
    by_cases hge' : s.osTickCounter ≤ s.ttw h'
    · exact hn.le_unwrapped h' hm' hge'
    · have := hd.unwrapped_first hm hge (Nat.lt_of_not_le hge')
      omega
  · obtain ⟨hdl, hlt⟩ := hmiss.resolve_left hfirst
    have hall : ∀ h ∈ xs, s.ttw h < s.osTickCounter := fun h hm => by
      by_contra hge
      exact hfirst ⟨h, hm, Nat.le_of_not_lt hge⟩
    refine ⟨fun h hm => ?_, by rw [hn.of_wrapped hall]; exact hlt⟩
    have hnt := hn.le_maxTicks.trans (hdl h hm)
    rw [Kernel.ticksLeft, if_neg (Nat.not_le_of_lt (hall h hm))]
    exact hnt

/-- What the one long step does to the counter and to the deadlines. -/
theorem jump_spec (hd : Delayed s xs) {n : Nat} (hn : n ≤ cfg.maxTimer) :
    ∃ u, (s.osIncCounterBy n).osTickHandler = some u ∧
      u.osTickCounter = (if s.osTickCounter + n < cfg.tickCountOverflow then s.osTickCounter + n
        else s.osTickCounter + n - cfg.tickCountOverflow) ∧
      ∀ h, s.ttw h ≠ u.osTickCounter → u.ttw h = s.ttw h := by
  rw [osIncCounterBy_eq hd.counter hn]
  generalize (if s.osTickCounter + n < cfg.tickCountOverflow then s.osTickCounter + n
    else s.osTickCounter + n - cfg.tickCountOverflow) = c
  obtain ⟨u, hu, hcu, -, httu⟩ := tickLoop_list hd.length_le_tickFuel
    (show { s with osTickCounter := c }.delayList.IsList ([] ++ xs) from hd.list)
  refine ⟨u, ?_, hcu, fun h hne => ?_⟩
  · unfold osTickHandler
    rw [← hu]
    congr 1
    exact hd.list.head_eq
  · rw [httu, if_neg]
    rintro ⟨-, hdue⟩
    exact hne (hdue.trans hcu.symm)

/-- Otherwise the long step and the ticks differ: in the counter, or in a deadline past
the wrap that the step has skipped. -/
theorem SleepTime.misses {st : SysTick} {n : Nat} (hn : SleepTime st s xs n) (hd : Delayed s xs)
    (hmiss : ¬ NoWrapMissed st s xs) {u t : Kernel cfg}
    (hu : (s.osIncCounterBy n).osTickHandler = some u) (ht : singleTicks n s = some t) :
    ¬ SameTick u t := by
  intro hsame
  have hc := hd.counter
  obtain ⟨hov, -, -, -⟩ := cfg.tickCountOverflow_spec
  have hmax := cfg.maxTimer_eq
  rw [NoWrapMissed, not_or] at hmiss
  obtain ⟨hfirst, hrest⟩ := hmiss
  have hall : ∀ h ∈ xs, s.ttw h < s.osTickCounter := fun h hm => by
    by_contra hge
    exact hfirst ⟨h, hm, Nat.le_of_not_lt hge⟩
  have hnw := hn.of_wrapped hall
  obtain ⟨t', ht', hcount, -, httw⟩ := singleTicks_spec hd n
  obtain rfl : t' = t := Option.some.inj (ht'.symm.trans ht)
  obtain ⟨u', hu', hcu, httu⟩ := jump_spec hd hn.le_maxTimer
  obtain rfl : u' = u := Option.some.inj (hu'.symm.trans hu)
  by_cases hdl : ∀ h ∈ xs, st.maxTicks ≤ s.ttw h + (cfg.tickCountOverflow - s.osTickCounter)
  · -- the counter is reduced once, and ends beyond its range
    have hge : 2 * cfg.tickCountOverflow ≤ s.osTickCounter + n := by
      by_contra hlt
      exact hrest ⟨hdl, by omega⟩
    have hlt := Nat.mod_lt (s.osTickCounter + n) (Nat.zero_lt_of_lt hc)
    have heq := hsame.osTickCounter
    rw [hcu, hcount, if_neg (by omega)] at heq
    omega
  · -- a deadline past the wrap lies inside the step
    obtain ⟨h, hm, hlt⟩ : ∃ h ∈ xs,
        s.ttw h + (cfg.tickCountOverflow - s.osTickCounter) < st.maxTicks := by
      simpa using hdl
    have hwrapped := hall h hm
    have hleft : s.ticksLeft h = s.ttw h + (cfg.tickCountOverflow - s.osTickCounter) :=
      if_neg (Nat.not_le_of_lt hwrapped)
    have httwlt := hd.ttw_lt hm
    have hne : s.ttw h ≠ u'.osTickCounter := by
      rw [hcu]
      split <;> omega
    have heq := hsame.timeToWait h
    rw [httu h hne, httw, if_pos ⟨hm, by omega⟩] at heq
    omega

/-- A core clock of 168 MHz and a tick of one millisecond. -/
def sysTick168 : SysTick := ⟨168000000, 1000, by decide⟩

/-- Task 1 has delayed itself at tick `count` and only the idle task runs. -/
def delayedAt (count timeWait : Nat) : Kernel Config.exampleConfig :=
  Run.after Kernel.step
    { Run.after Kernel.step (Kernel.init Config.exampleConfig)
        [.call (.installTask false 256 3), .brtosStart] with osTickCounter := count }
    [.call (.delayTask timeWait)]

/-- A delay list of task 1 alone. -/
theorem delayed_one {s : Kernel Config.exampleConfig} {d : Nat} (hc : s.osTickCounter < 65532)
    (hlinks : s.delayList.head = some 1 ∧ s.delayList.tail = some 1 ∧
      s.delayList.next 1 = none ∧ s.delayList.previous 1 = none)
    (hd : 1 ≤ d ∧ d < 65532 ∧ s.ttw 1 = (s.osTickCounter + d) % 65532) : Delayed s [1] := by
  obtain ⟨hhead, htail, hnext, hprev⟩ := hlinks
  refine ⟨hc, ⟨by simp, hhead, htail, ⟨hprev, hnext, trivial⟩⟩, ?_, ?_⟩
  · intro h hm
    rw [List.mem_singleton.mp hm]
    decide
  · intro h hm
    rw [List.mem_singleton.mp hm]
    exact ⟨d, hd⟩

end Brtos
